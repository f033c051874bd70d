import ChironFs.Spec.Stores
import ChironFs.Spec.Tries

/-!
# What a request reads of the file systems

* `handle_congr`: nothing but the answers to the calls it makes.
* `Cluster.step_congr`: two file systems that answer these calls alike, and are left alike by them,
  make no difference.
-/

namespace ChironFs

open Posix Replication

variable {n : ℕ}

section loops

variable {env : Env n} {f : Creds → Fin n → Call → Except Errno Reply} {cr : Creds} {i : Fin n}

/-- One attempt reads the answer to its call. -/
theorem attempt_congr {a : Option Call} (h : ∀ c, a = some c → f cr i c = env.call cr i c) :
    attempt { env with call := f } cr i a = attempt env cr i a := by
  cases a with
  | none => rfl
  | some c => simp only [attempt_some, h c rfl]

/-- So do its events. -/
theorem attemptEvents_congr {a : Option Call} (h : ∀ c, a = some c → f cr i c = env.call cr i c) :
    attemptEvents { env with call := f } cr i a = attemptEvents env cr i a := by
  cases a with
  | none => rfl
  | some c => simp only [attemptEvents, h c rfl]

/-- And those of `mknod`. -/
theorem mknodEvents_congr {a : Option Call} (h : ∀ c, a = some c → f cr i c = env.call cr i c) :
    mknodEvents { env with call := f } cr i a = mknodEvents env cr i a := by
  unfold mknodEvents
  split
  · simp only [h _ rfl]
  · exact attemptEvents_congr h

variable {c : Config n} {call : Fin n → Option Call}

/-- The loop in `choose_replica` order reads the answers of the replicas it tries. -/
theorem firstLoop_congr {ks : List ℕ}
    (h : ∀ i ∈ triedUntil (fun i => (attempt env cr i (c.guarded call i)).isOk) (c.tries ks),
      ∀ cl, c.guarded call i = some cl → f cr i cl = env.call cr i cl) (t : Tally n) :
    firstLoop { env with call := f } cr call ks c t = firstLoop env cr call ks c t := by
  induction ks generalizing c t with
  | nil => rfl
  | cons k ks ih =>
      rw [firstLoop, firstLoop]
      cases hch : c.chooseReplica k with
      | none => rfl
      | some ic =>
          obtain ⟨i, c₁⟩ := ic
          have hgd := (Config.chooseReplica_sameButCursors hch).guarded_eq call
          rw [Config.tries, hch] at h
          simp only at h ⊢
          -- unless `i` answers, the rest of the loop goes over the rest of the tries
          have hrest : (attempt env cr i (c.guarded call i)).isOk = false → ∀ t,
              firstLoop { env with call := f } cr call ks c₁ t =
                firstLoop env cr call ks c₁ t := by
            intro hno
            rw [triedUntil_cons_neg (p := fun i => (attempt env cr i (c.guarded call i)).isOk) hno]
              at h
            apply ih
            rw [hgd]
            exact fun j hj => h j (List.mem_cons_of_mem i hj)
          by_cases hd : (c₁.replicas i).disabled = true
          · rw [if_pos hd, if_pos hd]
            apply hrest
            rw [← hgd, Config.guarded_of_disabled hd, attempt_none]
            rfl
          · have hgi : c.guarded call i = call i := by
              rw [← hgd, Config.guarded_of_enabled (by simpa [Config.enabled] using hd)]
            rw [if_neg hd, if_neg hd]
            cases hcl : call i with
            | none =>
                apply hrest
                rw [hgi, hcl, attempt_none]
                rfl
            | some cl =>
                have hmem : i ∈ triedUntil (fun i => (attempt env cr i (c.guarded call i)).isOk)
                    (i :: c₁.tries ks) := by
                  unfold triedUntil
                  split_ifs <;> exact List.mem_cons_self
                simp only [h i hmem cl (hgi.trans hcl)]
                cases hans : env.call cr i cl with
                | ok r => rfl
                | error e =>
                    apply hrest
                    rw [hgi, hcl, attempt_some, hans]
                    rfl

/-- The loop over all replicas reads the answers to its calls. -/
theorem everyLoop_congr {l : List (Fin n)}
    (h : ∀ i, ∀ cl, c.guarded call i = some cl → f cr i cl = env.call cr i cl) (t : Tally n) :
    everyLoop { env with call := f } c cr call l t = everyLoop env c cr call l t := by
  simp only [everyLoop_eq, attempt_congr (h _), attemptEvents_congr (h _)]

/-- The loop of `mknod` does. -/
theorem mknodLoop_congr {path : Path} {mode : ℕ} {l : List (Fin n)}
    (h : ∀ i, ∀ cl, c.guarded (mknodCall env c path mode) i = some cl →
      f cr i cl = env.call cr i cl) (t : Tally n) :
    mknodLoop { env with call := f } c cr path mode l t = mknodLoop env c cr path mode l t := by
  have hcall : mknodCall { env with call := f } c path mode = mknodCall env c path mode := rfl
  have hno : mknodRefuses { env with call := f } c path mode l = mknodRefuses env c path mode l :=
    rfl
  simp only [mknodLoop_eq, hcall, hno, attempt_congr (h _), mknodEvents_congr (h _)]

/-- The loop of `open` and `create` does. -/
theorem openLoop_congr {path : Path} {mk : Path → Call} {l : List (Fin n)} (hl : l.Nodup)
    (h : ∀ i, ∀ cl, c.guarded (openCall env c path mk) i = some cl →
      f cr i cl = env.call cr i cl) (t : Tally n) (fd : Fin n → ℤ) :
    openLoop { env with call := f } c cr path mk l t fd = openLoop env c cr path mk l t fd := by
  have hcall : openCall { env with call := f } c path mk = openCall env c path mk := rfl
  have hfate : openFate { env with call := f } c cr path mk = openFate env c cr path mk := by
    funext i
    unfold openFate
    by_cases hd : (c.replicas i).disabled = true
    · rw [if_pos hd, if_pos hd]
    · rw [if_neg hd, if_neg hd]
      have hx : ({ env with call := f } : Env n).xlate c path i = env.xlate c path i := rfl
      rw [hx]
      cases hname : env.xlate c path i with
      | none => rfl
      | some fname =>
          apply attempt_congr
          intro cl hcl
          apply h i
          rw [Config.guarded_of_enabled (by simpa [Config.enabled] using hd), openCall, hname, ← hcl]
          rfl
  simp only [openLoop_eq _ _ _ _ _ _ hl, hcall, hfate, attemptEvents_congr (h _)]

/-- The loop of `write` does. -/
theorem writeLoop_congr {fd : Fin n → ℤ} {buf : List UInt8} {offset : ℤ} {l : List (Fin n)}
    (hl : l.Nodup)
    (h : ∀ i, ∀ cl, c.guarded (writeCall fd buf offset) i = some cl →
      f cr i cl = env.call cr i cl) (t : Tally n) (w : ℤ) :
    writeLoop { env with call := f } cr fd buf offset l c t w =
      writeLoop env cr fd buf offset l c t w := by
  simp only [writeLoop_eq _ _ _ _ _ _ hl, attempt_congr (h _), attemptEvents_congr (h _)]

/-- Closing reads no answers. -/
theorem closeOpened_congr {fd : Fin n → ℤ} {l : List (Fin n)} :
    closeOpened { env with call := f } c cr fd l = closeOpened env c cr fd l := by
  induction l with
  | nil => rfl
  | cons i l ih => rw [closeOpened, closeOpened, ih]

/-- The loop of `release` makes no calls. -/
theorem releaseLoop_congr {fd : Fin n → ℤ} {l : List (Fin n)} (r : ℤ) (trace : List (Event n)) :
    releaseLoop { env with call := f } c cr fd l r trace = releaseLoop env c cr fd l r trace := by
  induction l generalizing r trace with
  | nil => rfl
  | cons i l ih => simp only [releaseLoop, ih]

end loops

/-! ## Requests -/

section handlers

variable {q : Request} {env : Env n} {f : Creds → Fin n → Call → Except Errno Reply} {d : Daemon n}

/-- The calls of a request are answered by `f` as they are by the replicas. -/
def SameAnswers (f : Creds → Fin n → Call → Except Errno Reply) (q : Request) (env : Env n)
    (d : Daemon n) : Prop :=
  let cr := (dropPriv env d.creds).creds
  ∀ i ∈ q.tries env d, ∀ c, q.ask env d.config i = some c → f cr i c = env.call cr i c

/-- A request that does not search asks every enabled replica. -/
theorem SameAnswers.of_not_searches (h : SameAnswers f q env d) (hse : q.searches = false)
    (i : Fin n) {c : Call} (hask : q.ask env d.config i = some c) :
    f (dropPriv env d.creds).creds i c = env.call (dropPriv env d.creds).creds i c := by
  apply h i _ c hask
  rw [Request.tries_of_not_searches hse]
  exact List.mem_finRange i

/-- A handler that asks every replica. -/
theorem onEveryReplica_congr {operation : String} {call : Config n → Fin n → Option Call}
    (h : ∀ i, ∀ c, d.config.guarded (call d.config) i = some c →
      f (dropPriv env d.creds).creds i c = env.call (dropPriv env d.creds).creds i c) :
    onEveryReplica operation call { env with call := f } d =
      onEveryReplica operation call env d := by
  let p := dropPriv env d.creds
  exact congrArg
    (fun t => if env.calloc 0 = false then leave env d.config p.creds p.trace { ret := ENOMEM.neg }
      else conclude operation env d.config p.creds p.trace t { ret := 0 })
    (everyLoop_congr (l := List.finRange n) h {})

/-- A handler that stops at the first answer reads the answers up to there. -/
theorem onFirstReplica_congr {operation : String} (call : Config n → Fin n → Option Call)
    {respond : Reply → Response}
    (h : ∀ i ∈ triedUntil (fun i => (attempt env (dropPriv env d.creds).creds i
        (d.config.guarded (call d.config) i)).isOk) (d.config.tries (List.range n)),
      ∀ c, d.config.guarded (call d.config) i = some c →
        f (dropPriv env d.creds).creds i c = env.call (dropPriv env d.creds).creds i c) :
    onFirstReplica operation call respond { env with call := f } d =
      onFirstReplica operation call respond env d := by
  unfold onFirstReplica
  have hloop := firstLoop_congr h {}
  have hdrop : dropPriv { env with call := f } d.creds = dropPriv env d.creds := rfl
  simp only [hdrop, hloop]
  rfl

/-- `open` and `create`. -/
theorem openOnReplicas_congr {operation : String} {path : Path} {mk : Path → Call}
    (h : ∀ i, ∀ c, d.config.guarded (openCall env d.config path mk) i = some c →
      f (dropPriv env d.creds).creds i c = env.call (dropPriv env d.creds).creds i c) :
    openOnReplicas operation path mk { env with call := f } d =
      openOnReplicas operation path mk env d := by
  unfold openOnReplicas
  have hloop := openLoop_congr (List.nodup_finRange n) h {} fun _ => 0
  have hdrop : dropPriv { env with call := f } d.creds = dropPriv env d.creds := rfl
  simp only [hdrop, hloop, closeOpened_congr]
  rfl

/-- **What a request reads of the file systems**: the answers to its calls. -/
theorem handle_congr (h : q.early env d.config = none → SameAnswers f q env d) :
    handle q { env with call := f } d = handle q env d := by
  have hearly : q.early { env with call := f } d.config = q.early env d.config := by
    cases q <;> rfl
  cases he : q.early env d.config with
  | some e =>
      rw [handle_early he, handle_early (hearly.trans he)]
      rfl
  | none =>
  have hans := h he
  have hdrop : dropPriv { env with call := f } d.creds = dropPriv env d.creds := rfl
  cases hse : q.searches with
  | true =>
      have htries : q.tries env d = triedUntil
          (fun i => (attempt env (dropPriv env d.creds).creds i (q.ask env d.config i)).isOk)
          (d.config.tries (List.range n)) := by
        rw [Request.tries, if_pos hse, Request.round_of_not_opens (Request.opens_of_searches hse)]
      rw [SameAnswers, htries] at hans
      cases q with
      | read fh size offset =>
          obtain ⟨fd, hfd, -⟩ := tabFd_of_early_eq_none he
          have hcall : readCall fd size offset = (Request.read fh size offset).call env d.config := by
            funext i
            simp [Request.call, hfd]
          have hloop := firstLoop_congr hans {}
          rw [← hcall] at hloop
          show chironRead fh size offset _ d = chironRead fh size offset env d
          unfold chironRead
          simp only [hfd, hdrop, hloop]
          rfl
      | getattr path | access path | readlink path | readdir path =>
          exact onFirstReplica_congr (fun c i => (env.xlate c path i).map _) hans
      | _ => cases hse
  | false =>
      have hcall := fun i c => hans.of_not_searches hse i (c := c)
      cases q with
      | read | getattr | access | readlink | readdir => cases hse
      | release fh =>
          show some (chironRelease fh _ d) = some (chironRelease fh env d)
          unfold chironRelease
          simp only [hdrop, releaseLoop_congr]
          rfl
      | «open» | create => exact congrArg some (openOnReplicas_congr hcall)
      | mknod path mode rdev =>
          have hloop := mknodLoop_congr (l := List.finRange n) hcall {}
          show some (chironMknod path mode rdev _ d) = some (chironMknod path mode rdev env d)
          unfold chironMknod
          simp only [hdrop, hloop]
          rfl
      | write fh buf offset =>
          obtain ⟨fd, hfd, -⟩ := tabFd_of_early_eq_none he
          have hcl : writeCall fd buf offset = (Request.write fh buf offset).call env d.config := by
            funext i
            simp [Request.call, hfd]
          have hloop := writeLoop_congr (List.nodup_finRange n) (c := d.config)
            (fun i c hc => hcall i c (by rw [Request.ask, ← hcl, hc])) {} 0
          show some (chironWrite fh buf offset _ d) = some (chironWrite fh buf offset env d)
          unfold chironWrite
          simp only [hfd, hdrop, hloop]
          rfl
      | _ => exact congrArg some (onEveryReplica_congr hcall)

end handlers

/-! ## Stores -/

section stores

variable {S : Type*} {E E' : ChironFs.Effect S} {q : Request} {env : Env n} {d : Daemon n} {i : Fin n}

/-- Only calls may do something else. -/
theorem Event.onStore_congr (hclose : E.close = E'.close) {ev : Event n}
    (hno : ∀ cr j c res, ev ≠ .call cr j c res) (u : S) : ev.onStore E u = ev.onStore E' u := by
  cases ev with
  | call cr j c res => exact absurd rfl (hno cr j c res)
  | close => rw [Event.onStore, Event.onStore, hclose]
  | _ => rfl

/-- Asking a replica whose call does the same to its store. -/
theorem Request.storeAfter_events_congr (hclose : E.close = E'.close) {s : S}
    (hcall : ∀ c, q.ask env d.config i = some c → ∀ res,
      E.call (dropPriv env d.creds).creds c res s = E'.call (dropPriv env d.creds).creds c res s) :
    storeAfter E i (q.events env d i) s = storeAfter E' i (q.events env d i) s := by
  rcases q.events_cases env d i with ⟨-, h⟩ | ⟨c, e, hask, -, h⟩ |
    ⟨c, r, hask, -, ⟨-, h⟩ | ⟨-, -, -, h⟩⟩
  all_goals rw [h]
  · rfl
  all_goals simp [storeAfter, Event.replica, Event.onStore, hcall c hask, hclose]

/-- A request whose calls do the same to the stores. -/
theorem storeAfter_handle_congr {o : Outcome n} (ho : handle q env d = some o)
    (hclose : E.close = E'.close) {s : S}
    (herr : ∀ cr c e, E.call cr c (.error e) s = s) (herr' : ∀ cr c e, E'.call cr c (.error e) s = s)
    (hcall : q.early env d.config = none → i ∈ q.tries env d → ∀ c, q.ask env d.config i = some c →
      ∀ res, E.call (dropPriv env d.creds).creds c res s =
        E'.call (dropPriv env d.creds).creds c res s) :
    storeAfter E i o.trace s = storeAfter E' i o.trace s := by
  -- a call that fails changes nothing
  have hfail : ∀ {E : Effect S}, (∀ cr c e, E.call cr c (.error e) s = s) →
      (q.round env d i).isOk = false → q.opens = false →
        storeAfter E i (q.events env d i) s = s := by
    intro E herr hno hop
    rcases q.events_cases env d i with ⟨-, h⟩ | ⟨c, e, -, -, h⟩ | ⟨c, r, hask, henv, -⟩
    · rw [h]
      rfl
    · rw [h]
      simp [storeAfter, Event.replica, Event.onStore, herr]
    · rw [Request.round_eq_ok_iff.mpr ⟨c, hask, henv⟩] at hno
      cases hno
  rcases handle_cases ho with ⟨e, -, rfl⟩ | ⟨fh, fd, rfl, -, rfl⟩ | ⟨he, hrel, tried, hsv⟩
  · rw [storeAfter_earlyOutcome, storeAfter_earlyOutcome]
  · apply storeAfter_congr
    intro ev hev u
    apply Event.onStore_congr hclose
    rintro cr j c res rfl
    rcases List.mem_append.mp hev with hev | hev
    · rcases List.mem_append.mp hev with hev | hev
      · cases isCred_of_mem_dropPriv hev
      · obtain ⟨_, -, heq⟩ := List.mem_map.mp hev
        cases heq
    · cases isCred_of_mem_reacquirePriv hev
  · cases hop : q.opens with
    | true =>
        obtain rfl := Option.some.inj ((handle_opens hop he).symm.trans ho)
        have hmem : i ∈ q.tries env d := by
          rw [Request.tries_of_not_searches (Request.searches_of_opens hop)]
          exact List.mem_finRange i
        rw [storeAfter_openOutcome hop, storeAfter_openOutcome hop,
          Request.storeAfter_events_congr hclose (hcall he hmem)]
        apply storeAfter_congr
        intro ev hev u
        apply Event.onStore_congr hclose
        rintro cr j c res rfl
        split_ifs at hev
        · obtain ⟨_, -, -, heq⟩ := mem_closeOpened hev
          cases heq
        · cases hev
    | false =>
        rw [hsv.storeAfter_eq hop fun _ hno => hfail herr hno hop,
          hsv.storeAfter_eq hop fun _ hno => hfail herr' hno hop]
        split_ifs with hi
        · rw [hsv.tried_eq] at hi
          exact Request.storeAfter_events_congr hclose (hcall he hi)
        · rfl

end stores

end ChironFs
