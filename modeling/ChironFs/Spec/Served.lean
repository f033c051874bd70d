import ChironFs.Spec.Requests

/-!
# What a served request leaves behind

* `Served q env d tried o`: the account of an outcome past the early exits.
* `handle_early`: the early exits; `handle_served`: every other way through every request but
  `release`; `chironRelease_eq`: `release`; `handle_cases`: the three together.
-/

namespace ChironFs

open Posix Replication

variable {n : ℕ}

/-- What request `q` leaves behind once it got past its early exits, when `tried` are the replicas
it went over. -/
structure Served (q : Request) (env : Env n) (d : Daemon n) (tried : List (Fin n))
    (o : Outcome n) : Prop where
  all : q.searches = false → tried = List.finRange n
  search : q.searches = true →
    ∃ ks₁ ks₂ c' ans, List.range n = ks₁ ++ ks₂ ∧ d.config.choices ks₁ = some (tried, c') ∧
      (ans = none → ks₂ = []) ∧ EndsWith (q.round env d) tried ans ∧
      ∀ a r, ans = some (a, r) → o.response = q.respond r
  trace : ∃ tail, o.trace = (dropPriv env d.creds).trace ++
      (tried.flatMap (q.events env d) ++
        dropLogs q.operation d.config (q.roundOn env d tried) ++ tail) ++
      (reacquirePriv env d.config (dropPriv env d.creds).creds).trace ∧
    (q.opens = false → tail = []) ∧
    ∀ ev ∈ tail, ev = .log none "hash allocation" (.text "too many opened files") 0 ∨
      ∃ i r, q.round env d i = .ok r ∧
        ev = .close (dropPriv env d.creds).creds i r.ret (env.close i r.ret)
  creds : o.daemon.creds = (reacquirePriv env d.config (dropPriv env d.creds).creds).creds
  layout : d.config.SameLayout o.daemon.config
  disabled_iff : ∀ i, (o.daemon.config.replicas i).disabled = true ↔
    (d.config.replicas i).disabled = true ∨ (q.roundOn env d tried).Drops i
  tabFd : q.opens = false → o.daemon.config.tabFd = d.config.tabFd
  failed : ¬ (q.roundOn env d tried).Succeeded →
    o.response = { ret := firstError (q.roundOn env d tried) }
  answered : q.opens = false → (q.roundOn env d tried).Succeeded →
    ∃ i r, q.roundOn env d tried i = .ok r ∧ o.response = q.respond r
  opened : q.opens = true → (q.roundOn env d tried).Succeeded →
    o.response = { ret := 0 } ∨ o.response = { ret := EMFILE.neg }

/-! ## The requests that keep the handle table -/

section leave

variable {q : Request} {env : Env n} {d : Daemon n} {tried : List (Fin n)} {c' : Config n}
  {r : Response}

/-- The account of a request that ends with the common end of the handlers. -/
theorem served_of_leave (hop : q.opens = false) (hlay : d.config.SameLayout c')
    (htab : c'.tabFd = d.config.tabFd)
    (hdis : ∀ i, (c'.replicas i).disabled = true ↔
      (d.config.replicas i).disabled = true ∨ (q.roundOn env d tried).Drops i)
    (hall : q.searches = false → tried = List.finRange n)
    (hsearch : q.searches = true →
      ∃ ks₁ ks₂ c' ans, List.range n = ks₁ ++ ks₂ ∧ d.config.choices ks₁ = some (tried, c') ∧
        (ans = none → ks₂ = []) ∧ EndsWith (q.round env d) tried ans ∧
        ∀ a r', ans = some (a, r') → r = q.respond r')
    (hfail : ¬ (q.roundOn env d tried).Succeeded →
      r = { ret := firstError (q.roundOn env d tried) })
    (hans : (q.roundOn env d tried).Succeeded →
      ∃ i r', q.roundOn env d tried i = .ok r' ∧ r = q.respond r') :
    Served q env d tried
      (leave env c' (dropPriv env d.creds).creds
        ((dropPriv env d.creds).trace ++ tried.flatMap (q.events env d) ++
          dropLogs q.operation d.config (q.roundOn env d tried)) r) where
  all := hall
  search := hsearch
  trace := by
    refine ⟨[], ?_, fun _ => rfl, by simp⟩
    show _ ++ (reacquirePriv env c' _).trace = _
    rw [reacquirePriv_congr env hlay, List.append_nil, List.append_assoc _ (tried.flatMap _)]
  creds := by
    show (reacquirePriv env c' _).creds = _
    rw [reacquirePriv_congr env hlay]
  layout := hlay
  disabled_iff := hdis
  tabFd := fun _ => htab
  failed := hfail
  answered := fun _ => hans
  opened := fun h => by rw [hop] at h; cases h

/-- The account of a request that asks every replica; `c₀` is the configuration with the successes
counted. -/
theorem served_every {c₀ : Config n} {resp : Response} (hop : q.opens = false)
    (hse : q.searches = false) (hlay : d.config.SameLayout c₀)
    (htab : c₀.tabFd = d.config.tabFd)
    (hdis : ∀ i, (c₀.replicas i).disabled = (d.config.replicas i).disabled)
    (hresp : (q.round env d).Succeeded →
      ∃ i r, q.round env d i = .ok r ∧ resp = q.respond r) :
    Served q env d (List.finRange n)
      (let cr := (dropPriv env d.creds).creds
       let R : Round (Fin n) Reply Errno := fun i => attempt env cr i (q.ask env d.config i)
       leave env (c₀.dropFaulty R) cr
        ((dropPriv env d.creds).trace ++ (List.finRange n).flatMap (q.events env d) ++
          dropLogs q.operation d.config R)
        (if R.Succeeded then resp else { ret := firstError R })) := by
  have hR : q.round env d = _ := Request.round_of_not_opens hop
  have hS := Request.roundOn_finRange env d q
  have : Served q env d (List.finRange n) _ := served_of_leave
    (r := if (q.round env d).Succeeded then resp else { ret := firstError (q.round env d) }) hop
    (hlay.trans (.dropFaulty c₀ (q.round env d))) htab
    (fun i => by rw [hS, c₀.dropFaulty_disabled, hdis]) (fun _ => rfl)
    (fun h => by rw [hse] at h; cases h) (fun h => by rw [hS] at h ⊢; exact if_neg h)
    (fun h => ?_)
  · rw [hS, hR] at this
    exact this
  · rw [hS] at h ⊢
    rw [if_pos h]
    exact hresp h

/-- A request that gives every success the same response. -/
theorem exists_respond {resp : Response} (hresp : ∀ r, q.respond r = resp)
    (h : (q.round env d).Succeeded) : ∃ i r, q.round env d i = .ok r ∧ resp = q.respond r := by
  obtain ⟨i, r, hr⟩ := Round.succeeded_iff.mp h
  exact ⟨i, r, hr, (hresp r).symm⟩

/-- The account of a request that stops at the first answer; `c₂` is the configuration with the
cursors moved and the answer counted. -/
theorem served_search {c₁ c₂ : Config n} {ks₁ ks₂ : List ℕ} {ans : Option (Fin n × Reply)}
    (hop : q.opens = false) (hse : q.searches = true) (hlay : d.config.SameLayout c₂)
    (htab : c₂.tabFd = d.config.tabFd)
    (hdis : ∀ i, (c₂.replicas i).disabled = (d.config.replicas i).disabled)
    (hks : List.range n = ks₁ ++ ks₂) (hch : d.config.choices ks₁ = some (tried, c₁))
    (hnone : ans = none → ks₂ = [])
    (hend : EndsWith (fun i => attempt env (dropPriv env d.creds).creds i
      (d.config.guarded (q.call env d.config) i)) tried ans) :
    Served q env d tried
      (let cr := (dropPriv env d.creds).creds
       let R := d.config.searched env cr (q.call env d.config) tried
       leave env (c₂.dropFaulty R) cr
        ((dropPriv env d.creds).trace ++ tried.flatMap (q.events env d) ++
          dropLogs q.operation d.config R)
        (if R.Succeeded then answer q.respond ans else { ret := firstError R })) := by
  have hR : q.round env d = _ := Request.round_of_not_opens hop
  have hS : q.roundOn env d tried =
      d.config.searched env (dropPriv env d.creds).creds (q.call env d.config) tried := by
    unfold Request.roundOn Config.searched
    rw [hR]
    rfl
  have hsucc := hend.succeeded_iff
  have hresp : ∀ a r', ans = some (a, r') →
      (if (q.roundOn env d tried).Succeeded then answer q.respond ans
        else { ret := firstError (q.roundOn env d tried) }) = q.respond r' := by
    rintro a r' rfl
    rw [hS, if_pos (hsucc.mpr rfl)]
    rfl
  have : Served q env d tried _ := served_of_leave
    (r := if (q.roundOn env d tried).Succeeded then answer q.respond ans
      else { ret := firstError (q.roundOn env d tried) }) hop
    (hlay.trans (.dropFaulty c₂ (q.roundOn env d tried))) htab
    (fun i => by rw [c₂.dropFaulty_disabled, hdis]) (fun h => by rw [hse] at h; cases h)
    (fun _ => ⟨ks₁, ks₂, c₁, ans, hks, hch, hnone, by rw [hR]; exact hend, hresp⟩)
    (fun h => if_neg h) (fun h => ?_)
  · rw [hS] at this
    exact this
  · rw [hS] at h
    obtain ⟨⟨a, r'⟩, rfl⟩ := Option.isSome_iff_exists.mp (hsucc.mp h)
    refine ⟨a, r', ?_, hresp a r' rfl⟩
    obtain ⟨hF, l₀, rfl, -⟩ := hend
    rw [hS, Config.searched, if_pos (by simp)]
    exact hF

end leave

/-! ## `open` and `create` -/

section opening

variable {q : Request} {env : Env n} {d : Daemon n}

/-- What `closeOpened` closes: the descriptors of enabled replicas. -/
theorem mem_closeOpened {c : Config n} {cr : Creds} {fd : Fin n → ℤ} {l : List (Fin n)}
    {ev : Event n} (h : ev ∈ closeOpened env c cr fd l) :
    ∃ i, c.enabled i ∧ 0 ≤ fd i ∧ ev = .close cr i (fd i) (env.close i (fd i)) := by
  induction l with
  | nil => cases h
  | cons i is ih =>
      unfold closeOpened at h
      split_ifs at h with hi
      · rcases List.mem_cons.mp h with rfl | h
        · exact ⟨i, hi.1, hi.2, rfl⟩
        · exact ih h
      · exact ih h

/-- What `open` and `create` do with the descriptor vector of a round in which somebody succeeded:
the number of the slot (or a negative value), the configuration, the log lines. -/
def Request.store (env : Env n) (d : Daemon n) (q : Request) : ℤ × Config n × List (Event n) :=
  (d.config.dropFaulty (q.round env d)).fdHashset (fdVector (q.round env d))

/-- What is closed when there is no slot for the vector. -/
def Request.closed (env : Env n) (d : Daemon n) (q : Request) : List (Event n) :=
  closeOpened env (q.store env d).2.1 (dropPriv env d.creds).creds (fdVector (q.round env d))
    (List.finRange n)

/-- The outcome of `open` and `create` past their early exits. -/
def Request.openOutcome (env : Env n) (d : Daemon n) (q : Request) : Outcome n :=
  let cr := (dropPriv env d.creds).creds
  let R := q.round env d
  let trace := (dropPriv env d.creds).trace ++
    (List.finRange n).flatMap (fun i => attemptEvents env cr i (q.ask env d.config i)) ++
    dropLogs q.operation d.config R
  let s := q.store env d
  if R.Succeeded then
    if s.1 < 0 then leave env s.2.1 cr (trace ++ s.2.2 ++ q.closed env d) { ret := EMFILE.neg }
    else leave env s.2.1 cr (trace ++ s.2.2) { ret := 0 } (some s.1.toNat)
  else leave env d.config cr trace { ret := firstError R }

theorem Request.store_sameLayout (env : Env n) (d : Daemon n) (q : Request) :
    d.config.SameLayout (q.store env d).2.1 :=
  (Config.SameLayout.dropFaulty d.config (q.round env d)).trans
    (Config.fdHashset_sameLayout _ _)

theorem Request.store_disabled_iff (env : Env n) (d : Daemon n) (q : Request) (i : Fin n) :
    ((q.store env d).2.1.replicas i).disabled = true ↔
      (d.config.replicas i).disabled = true ∨ (q.round env d).Drops i := by
  rw [store, Config.fdHashset_replicas, Config.dropFaulty_disabled]

/-- Only descriptors that this request opened are closed. -/
theorem Request.mem_closed (hop : q.opens = true) (hs : (q.round env d).Succeeded) {ev : Event n}
    (h : ev ∈ q.closed env d) :
    ∃ i r, q.round env d i = .ok r ∧
      ev = .close (dropPriv env d.creds).creds i r.ret (env.close i r.ret) := by
  obtain ⟨i, hen, hge, rfl⟩ := mem_closeOpened h
  refine ⟨i, ?_⟩
  have hnd : ¬ ((d.config.replicas i).disabled = true ∨ (q.round env d).Drops i) := by
    rw [← store_disabled_iff]
    unfold Config.enabled at hen
    simp [hen]
  obtain ⟨hen, hdrop⟩ := not_or.mp hnd
  -- an enabled replica that is not dropped is one that answered
  cases hR : q.round env d i with
  | skipped => exact absurd (by simpa [Config.enabled] using hen) ((round_eq_skipped_iff.mp hR).2 hop)
  | failed e => exact absurd (Round.drops_of_eq_failed hs hR) hdrop
  | ok r => exact ⟨r, rfl, by simp only [fdVector, hR, fdEntry]⟩

/-- The account of `open` and `create`. -/
theorem served_opens (hop : q.opens = true) :
    Served q env d (List.finRange n) (q.openOutcome env d) := by
  have hse := Request.searches_of_opens hop
  have hev : q.events env d = fun i =>
      attemptEvents env (dropPriv env d.creds).creds i (q.ask env d.config i) :=
    funext fun i => Request.events_of_opens hop
  have hS := Request.roundOn_finRange env d q
  have hlay := q.store_sameLayout env d
  have hback := reacquirePriv_congr env hlay (dropPriv env d.creds).creds
  have hlog : ∀ ev ∈ (q.store env d).2.2,
      ev = .log none "hash allocation" (.text "too many opened files") 0 := fun ev =>
    Config.fdHashset_logs _ _
  have hno : q.opens = false → False := fun h => by rw [hop] at h; cases h
  have hnos : q.searches = true → False := fun h => by rw [hse] at h; cases h
  unfold Request.openOutcome
  by_cases hs : (q.round env d).Succeeded
  · simp only [if_pos hs]
    split_ifs with hfull
    · refine ⟨fun _ => rfl, fun h => (hnos h).elim,
        ⟨(q.store env d).2.2 ++ q.closed env d, ?_, fun h => (hno h).elim, ?_⟩, ?_, hlay, ?_,
        fun h => (hno h).elim, ?_, fun h => (hno h).elim, fun _ _ => Or.inr rfl⟩
      · simp only [leave, hback, hev, hS, List.append_assoc]
      · intro ev hmem
        rcases List.mem_append.mp hmem with hmem | hmem
        · exact Or.inl (hlog ev hmem)
        · exact Or.inr (Request.mem_closed hop hs hmem)
      · simp only [leave, hback]
      · rw [hS]; exact q.store_disabled_iff env d
      · rw [hS]; exact fun h => absurd hs h
    · refine ⟨fun _ => rfl, fun h => (hnos h).elim,
        ⟨(q.store env d).2.2, ?_, fun h => (hno h).elim, fun ev hmem => Or.inl (hlog ev hmem)⟩,
        ?_, hlay, ?_, fun h => (hno h).elim, ?_, fun h => (hno h).elim, fun _ _ => Or.inl rfl⟩
      · simp only [leave, hback, hev, hS, List.append_assoc]
      · simp only [leave, hback]
      · rw [hS]; exact q.store_disabled_iff env d
      · rw [hS]; exact fun h => absurd hs h
  · simp only [if_neg hs]
    refine ⟨fun _ => rfl, fun h => (hnos h).elim, ⟨[], ?_, fun _ => rfl, by simp⟩, rfl, .refl _,
      ?_, fun h => (hno h).elim, ?_, fun h => (hno h).elim, ?_⟩
    · simp only [leave, hev, hS, List.append_assoc, List.append_nil]
    · intro i
      rw [hS]
      simp [leave, Round.not_drops_of_not_succeeded hs i]
    · rw [hS]
      exact fun _ => rfl
    · rw [hS]
      exact fun _ h => absurd h hs

end opening

/-! ## All requests -/

/-- The outcome of an early exit. -/
def earlyOutcome (env : Env n) (d : Daemon n) (e : Errno) : Outcome n :=
  leave env d.config (dropPriv env d.creds).creds (dropPriv env d.creds).trace { ret := e.neg }

section all

variable {q : Request} {env : Env n} {d : Daemon n} {o : Outcome n}

/-- `open` and `create` past their early exits. -/
theorem handle_opens (hop : q.opens = true) (he : q.early env d.config = none) :
    handle q env d = some (q.openOutcome env d) := by
  have hfate : ∀ path call, q.call env d.config = openCall env d.config path call →
      openFate env d.config (dropPriv env d.creds).creds path call = q.round env d := by
    intro path call hcall
    funext i
    unfold Request.round openFate Request.ask Config.guarded Config.enabled
    rw [hcall]
    by_cases hd : (d.config.replicas i).disabled = true
    · simp [hd]
    · cases hx : env.xlate d.config path i <;> simp [openCall, hx, hop, hd]
  cases q with
  | «open» path flags =>
      have hc : env.calloc 0 = true ∧ env.calloc 1 = true := by
        simpa [Request.early, not_or] using he
      show some (openOnReplicas "open" path (.open · flags none) env d) = _
      rw [openOnReplicas_eq _ _ _ _ _ hc.1 hc.2]
      simp only [hfate path (.open · flags none) rfl]
      rfl
  | create path mode =>
      have hc : env.calloc 0 = true ∧ env.calloc 1 = true := by
        simpa [Request.early, not_or] using he
      show some (openOnReplicas "create" path (.creat · mode) env d) = _
      rw [openOnReplicas_eq _ _ _ _ _ hc.1 hc.2]
      simp only [hfate path (.creat · mode) rfl]
      rfl
  | _ => cases hop

/-- A request that cannot get its error list ends at once. -/
theorem onEveryReplica_of_calloc {operation : String} {call : Config n → Fin n → Option Call}
    (h : env.calloc 0 = false) :
    onEveryReplica operation call env d = earlyOutcome env d ENOMEM := by
  simp [onEveryReplica, earlyOutcome, h]

theorem onFirstReplica_of_calloc {operation : String} {call : Config n → Fin n → Option Call}
    {respond : Reply → Response} (h : env.calloc 0 = false) :
    onFirstReplica operation call respond env d = some (earlyOutcome env d ENOMEM) := by
  simp [onFirstReplica, earlyOutcome, h]

theorem openOnReplicas_of_calloc {operation : String} {path : Path} {call : Path → Call}
    (h : env.calloc 0 = false ∨ env.calloc 1 = false) :
    openOnReplicas operation path call env d = earlyOutcome env d ENOMEM := by
  rcases h with h | h <;> simp [openOnReplicas, earlyOutcome, h]

/-- **The early exits.** The request gives the caller's identity back and returns the error; it
reached no replica and changed nothing. -/
theorem handle_early {e : Errno} (he : q.early env d.config = some e) :
    handle q env d = some (earlyOutcome env d e) := by
  cases q with
  | «open» | create =>
      simp only [Request.early] at he
      split_ifs at he with h
      obtain rfl := Option.some.inj he
      exact congrArg some (openOnReplicas_of_calloc h)
  | release fh =>
      simp only [Request.early] at he
      split_ifs at he with h
      obtain rfl := Option.some.inj he
      simp [handle, chironRelease, earlyOutcome, Option.isNone_iff_eq_none.mp h]
  | write fh buf offset =>
      simp only [Request.early] at he
      split_ifs at he with h h₀
      · obtain rfl := Option.some.inj he
        simp [handle, chironWrite, earlyOutcome, Option.isNone_iff_eq_none.mp h]
      · obtain rfl := Option.some.inj he
        cases hfd : d.config.tabFd fh with
        | none => simp [hfd] at h
        | some fd => simp [handle, chironWrite, earlyOutcome, hfd, h₀]
  | read fh size offset =>
      simp only [Request.early] at he
      split_ifs at he with h h₀
      · obtain rfl := Option.some.inj he
        simp [handle, chironRead, earlyOutcome, Option.isNone_iff_eq_none.mp h]
      · obtain rfl := Option.some.inj he
        cases hfd : d.config.tabFd fh with
        | none => simp [hfd] at h
        | some fd => simp [handle, chironRead, earlyOutcome, hfd, h₀]
  | mknod path mode rdev =>
      simp only [Request.early] at he
      split_ifs at he with h₀ h
      · obtain rfl := Option.some.inj he
        simp [handle, chironMknod, earlyOutcome, h₀]
      · obtain rfl := Option.some.inj he
        simp [handle, chironMknod, earlyOutcome, h₀, mknodLoop_eq, h]
  | getattr | access | readlink | readdir =>
      simp only [Request.early] at he
      split_ifs at he with h
      obtain rfl := Option.some.inj he
      simp only [handle, chironGetattr, chironAccess, chironReadlink, chironReaddir]
      exact onFirstReplica_of_calloc h
  | _ =>
      simp only [Request.early] at he
      split_ifs at he with h
      obtain rfl := Option.some.inj he
      exact congrArg some (onEveryReplica_of_calloc h)

/-- Past its early exits a request that uses a handle has found it. -/
theorem tabFd_of_early_eq_none {fh : ℕ} (h : (if (d.config.tabFd fh).isNone then some EINVAL
      else if env.calloc 0 = false then some ENOMEM else none) = none) :
    ∃ fd, d.config.tabFd fh = some fd ∧ env.calloc 0 = true := by
  split_ifs at h with h₁ h₂
  cases hfd : d.config.tabFd fh with
  | none => simp [hfd] at h₁
  | some fd => exact ⟨fd, rfl, by simpa using h₂⟩

/-- The requests that ask every replica and store no handle. -/
theorem handle_served_every (hop : q.opens = false) (hse : q.searches = false)
    (hrel : q.releases = false) (he : q.early env d.config = none) :
    ∃ o, handle q env d = some o ∧ Served q env d (List.finRange n) o := by
  cases q with
  | write fh buf offset =>
      obtain ⟨fd, hfd, h₀⟩ := tabFd_of_early_eq_none he
      have hcall : writeCall fd buf offset = (Request.write fh buf offset).call env d.config := by
        funext i
        simp [Request.call, hfd]
      refine ⟨_, congrArg some (chironWrite_eq buf offset hfd h₀), ?_⟩
      rw [hcall]
      apply served_every rfl rfl (.countWrites d.config _) rfl (fun i => by simp)
      intro h
      obtain ⟨i, r, hr, hmax⟩ := maxCount_of_succeeded h
      rw [Request.round_of_not_opens rfl] at hmax
      exact ⟨i, r, hr, congrArg (fun m => ({ ret := m } : Response)) hmax⟩
  | mknod path mode rdev =>
      simp only [Request.early] at he
      split_ifs at he with h₀ hr
      refine ⟨_, congrArg some
        (chironMknod_eq path mode rdev env d (by simpa using h₀) (by simpa using hr)), ?_⟩
      exact served_every rfl rfl (.refl _) rfl (fun _ => rfl) (exists_respond fun _ => rfl)
  | «open» | create => cases hop
  | read | getattr | access | readlink | readdir => cases hse
  | release => cases hrel
  | _ =>
      simp only [Request.early, ite_eq_right_iff, reduceCtorEq, imp_false, Bool.not_eq_false] at he
      refine ⟨_, congrArg some (onEveryReplica_eq _ _ env d he), ?_⟩
      exact served_every rfl rfl (.refl _) rfl (fun _ => rfl) (exists_respond fun _ => rfl)

/-- The requests that stop at the first answer. -/
theorem handle_served_search (hse : q.searches = true) (he : q.early env d.config = none)
    (ho : handle q env d = some o) : ∃ tried, Served q env d tried o := by
  cases q with
  | read fh size offset =>
      obtain ⟨fd, hfd, h₀⟩ := tabFd_of_early_eq_none he
      have hcall : readCall fd size offset = (Request.read fh size offset).call env d.config := by
        funext i
        simp [Request.call, hfd]
      obtain ⟨ks₁, ks₂, l, c', ans, hks, hch, hnone, hend, rfl⟩ := chironRead_spec hfd h₀ ho
      rw [hcall] at hend ⊢
      have hcur := Config.choices_sameButCursors hch
      exact ⟨l, served_search rfl rfl
        ((Config.SameLayout.of_cursors hcur).trans (.countAnswer c' ans))
        (by rw [c'.countAnswer_tabFd, hcur.tabFd_eq])
        (fun i => by rw [c'.countAnswer_disabled, hcur.replicas_eq]) hks hch hnone hend⟩
  | getattr | access | readlink | readdir =>
      simp only [Request.early, ite_eq_right_iff, reduceCtorEq, imp_false, Bool.not_eq_false] at he
      simp only [handle, chironGetattr, chironAccess, chironReadlink, chironReaddir] at ho
      obtain ⟨ks₁, ks₂, l, c', ans, hks, hch, hnone, hend, rfl⟩ := onFirstReplica_spec he ho
      have hcur := Config.choices_sameButCursors hch
      exact ⟨l, served_search rfl rfl (.of_cursors hcur) hcur.tabFd_eq
        (fun i => by rw [hcur.replicas_eq]) hks hch hnone hend⟩
  | _ => cases hse

/-- **Every request but `release`**, past its early exits, leaves what `Served` says. -/
theorem handle_served (hrel : q.releases = false) (he : q.early env d.config = none)
    (ho : handle q env d = some o) : ∃ tried, Served q env d tried o := by
  cases hse : q.searches with
  | true => exact handle_served_search hse he ho
  | false =>
      cases hop : q.opens with
      | true =>
          obtain rfl := Option.some.inj ((handle_opens hop he).symm.trans ho)
          exact ⟨_, served_opens hop⟩
      | false =>
          obtain ⟨o', ho', h⟩ := handle_served_every hop hse hrel he
          obtain rfl := Option.some.inj (ho'.symm.trans ho)
          exact ⟨_, h⟩

/-- Only the requests that search can be killed. -/
theorem handle_isSome_of_not_searches (hse : q.searches = false) (env : Env n) (d : Daemon n) :
    (handle q env d).isSome = true := by
  cases q with
  | read | getattr | access | readlink | readdir => cases hse
  | _ => rfl

/-- A request that searches is not killed when `choose_replica` answers every try. -/
theorem handle_isSome_of_choices (hse : q.searches = true) (env : Env n)
    (h : (d.config.choices (List.range n)).isSome = true) : (handle q env d).isSome = true := by
  have hfirst : ∀ operation call respond,
      (onFirstReplica operation call respond env d).isSome = true := by
    intro operation call respond
    unfold onFirstReplica
    cases h₀ : env.calloc 0 with
    | false => simp
    | true =>
        obtain ⟨r, hr⟩ := Option.isSome_iff_exists.mp
          (firstLoop_isSome env (dropPriv env d.creds).creds (call d.config) h {})
        simp [hr]
  cases q with
  | read fh size offset =>
      show (chironRead fh size offset env d).isSome = true
      unfold chironRead
      cases d.config.tabFd fh with
      | none => simp
      | some fd =>
          cases h₀ : env.calloc 0 with
          | false => simp
          | true =>
              obtain ⟨r, hr⟩ := Option.isSome_iff_exists.mp
                (firstLoop_isSome env (dropPriv env d.creds).creds (readCall fd size offset) h {})
              simp [hr]
  | getattr | access | readlink | readdir =>
      simp only [handle, chironGetattr, chironAccess, chironReadlink, chironReaddir]
      exact hfirst _ _ _
  | _ => cases hse

/-! ### `release` -/

/-- The descriptors `release` closes. -/
def Config.closes (c : Config n) (fd : Fin n → ℤ) (i : Fin n) : Bool :=
  decide (fd i > 0) && !(c.replicas i).disabled

/-- `r &= close(…)` over a list of replicas: `0` as soon as one close succeeds. -/
theorem releaseLoop_eq (c : Config n) (cr : Creds) (fd : Fin n → ℤ) (l : List (Fin n)) (r : ℤ)
    (trace : List (Event n)) :
    releaseLoop env c cr fd l r trace =
      (if ∃ i ∈ l, c.closes fd i = true ∧ env.close i (fd i) = .ok () then 0 else r,
        trace ++ (l.filter (c.closes fd)).map fun i => .close cr i (fd i) (env.close i (fd i))) := by
  induction l generalizing r trace with
  | nil => simp [releaseLoop]
  | cons i is ih =>
      rw [releaseLoop]
      have hcl : (fd i > 0 ∧ (c.replicas i).disabled = false) ↔ c.closes fd i = true := by
        simp [Config.closes]
      by_cases h : c.closes fd i = true
      · rw [if_pos (hcl.mpr h), ih, List.filter_cons_of_pos h, List.map_cons, List.append_assoc]
        refine Prod.ext ?_ rfl
        simp only [List.mem_cons, exists_eq_or_imp, h, true_and]
        cases hres : env.close i (fd i) with
        | ok u => simp
        | error e => simp
      · rw [if_neg (fun hc => h (hcl.mp hc)), ih, List.filter_cons_of_neg h]
        refine Prod.ext ?_ rfl
        simp [h]

/-- The outcome of `release` for a handle that holds the vector `fd`. -/
def releaseOutcome (env : Env n) (d : Daemon n) (fh : ℕ) (fd : Fin n → ℤ) : Outcome n :=
  let cr := (dropPriv env d.creds).creds
  leave env (d.config.setSlot fh none) cr
    ((dropPriv env d.creds).trace ++
      ((List.finRange n).filter (d.config.closes fd)).map
        fun i => .close cr i (fd i) (env.close i (fd i)))
    { ret := if ∃ i, d.config.closes fd i = true ∧ env.close i (fd i) = .ok () then 0 else -1 }

theorem chironRelease_eq {fh : ℕ} {fd : Fin n → ℤ} (hfd : d.config.tabFd fh = some fd) :
    chironRelease fh env d = releaseOutcome env d fh fd := by
  unfold chironRelease
  simp only [hfd, releaseLoop_eq, List.mem_finRange, true_and, List.nil_append]
  rfl

/-- **The three ways through a request**: an early exit, a `release`, a round. -/
theorem handle_cases (ho : handle q env d = some o) :
    (∃ e, q.early env d.config = some e ∧ o = earlyOutcome env d e) ∨
      (∃ fh fd, q = .release fh ∧ d.config.tabFd fh = some fd ∧ o = releaseOutcome env d fh fd) ∨
      (q.early env d.config = none ∧ q.releases = false ∧ ∃ tried, Served q env d tried o) := by
  cases he : q.early env d.config with
  | some e => exact Or.inl ⟨e, rfl, Option.some.inj (ho.symm.trans (handle_early he))⟩
  | none =>
      apply Or.inr
      cases hrel : q.releases with
      | false => exact Or.inr ⟨rfl, rfl, handle_served hrel he ho⟩
      | true =>
          cases q with
          | release fh =>
              simp only [Request.early] at he
              cases hfd : d.config.tabFd fh with
              | none => simp [hfd] at he
              | some fd =>
                  refine Or.inl ⟨fh, fd, rfl, hfd, ?_⟩
                  rw [← chironRelease_eq hfd]
                  exact (Option.some.inj ho).symm
          | _ => cases hrel

end all

end ChironFs
