import ChironFs.Lib.Run
import ChironFs.Model.Interleaved
import ChironFs.Spec.Outcomes

/-!
# What one step of a request can do

* `Config.Quiet`: nothing changed but the statistics.
* `Request.visitFate`, `Request.visitEvents`: a round of a loop over the replicas, as in
  `Spec/Loops.lean`. `visit_cases`, `attend_cases`: what a round counts.
* `Request.Move`: the moves of a request, stage by stage. `move_of_advance`: every step is one.
* `Request.Effect`: what a step does to the configuration: it moves a cursor, disables a replica,
  stores into a slot, empties one, or is quiet. `Move.effect`: every move does one of these.
* `Pool.Stepped`, `Pool.stepped_of_step`: one step of the pool, and what it leaves alone.
* `Pool.Did`: what the steps of a request did to the replicas, read off the trace.
-/

namespace ChironFs

open Posix Replication

variable {n : ℕ} {T : Type*}

/-! ## Quiet steps -/

/-- The configurations differ at most in the statistics of the replicas. -/
structure Config.Quiet (c c' : Config n) : Prop where
  layout : c.SameLayout c'
  disabled : ∀ i, (c'.replicas i).disabled = (c.replicas i).disabled
  tabFd : c'.tabFd = c.tabFd
  high : c'.currReplicaHigh = c.currReplicaHigh
  low : c'.currReplicaLow = c.currReplicaLow

namespace Config.Quiet

variable {c c' : Config n}

/-- Nothing is done. -/
theorem refl (c : Config n) : c.Quiet c := ⟨.refl c, fun _ => rfl, rfl, rfl, rfl⟩

/-- Counting is quiet. -/
theorem countWrites (c : Config n) (p : Fin n → Bool) : c.Quiet (c.countWrites p) :=
  ⟨.countWrites c p, fun _ => c.countWrites_disabled p _, rfl, rfl, rfl⟩

/-- So is counting the answer of a search. -/
theorem countAnswer (c : Config n) (ans : Option (Fin n × Reply)) :
    c.Quiet (c.countAnswer ans) where
  layout := .countAnswer c ans
  disabled := c.countAnswer_disabled ans
  tabFd := c.countAnswer_tabFd ans
  high := by cases ans <;> rfl
  low := by cases ans <;> rfl

/-- Who is enabled stays the same. -/
theorem enabled_iff (h : c.Quiet c') (i : Fin n) : c'.enabled i ↔ c.enabled i := by
  unfold Config.enabled
  rw [h.disabled]

end Config.Quiet

/-! ## A round of a loop -/

namespace Tally

variable (t : Tally n) (i : Fin n) (f : Fate Reply Errno) (evs : List (Event n))

/-- The events of one more fate come last. -/
@[simp] theorem calls_add : (t.add i f evs).calls = t.calls ++ evs := by
  cases f <;> rfl

/-- They are what is new. -/
@[simp] theorem since_add : t.since (t.add i f evs) = evs := by
  rw [since, calls_add, List.drop_left]

/-- One replica is a list of one. -/
theorem addAll_singleton (F : Fin n → Fate Reply Errno) (ev : Fin n → List (Event n)) :
    addAll F ev [i] t = t.add i (F i) (ev i) := rfl

end Tally

/-- The replica an event is a call on. -/
def Event.calledOn : Event n → Option (Fin n)
  | .call _ i _ _ => some i
  | _ => none

/-- The replica a call succeeded on. -/
def Event.okOn : Event n → Option (Fin n)
  | .call _ i _ (.ok _) => some i
  | _ => none

/-- A call succeeds or fails. -/
theorem Except.ok_or_error {ε α : Type*} (r : Except ε α) :
    (∃ a, r = .ok a) ∨ ∃ e, r = .error e := by
  cases r with
  | ok a => exact Or.inl ⟨a, rfl⟩
  | error e => exact Or.inr ⟨e, rfl⟩

/-- The events of an attempt show an answer exactly when it is one. -/
theorem okOn_attemptEvents (env : Env n) (cr : Creds) (i : Fin n) (a : Option Call) :
    (attemptEvents env cr i a).filterMap Event.okOn =
      if (attempt env cr i a).isOk then [i] else [] := by
  cases a with
  | none => rfl
  | some cl =>
      rw [attemptEvents, attempt_some]
      cases henv : env.call cr i cl <;> simp [Event.okOn]

/-- Those of `mknod` too; closing its descriptor is no answer. -/
theorem okOn_mknodEvents (env : Env n) (cr : Creds) (i : Fin n) (a : Option Call) :
    (mknodEvents env cr i a).filterMap Event.okOn =
      if (attempt env cr i a).isOk then [i] else [] := by
  cases a with
  | none => rfl
  | some cl =>
      cases cl with
      | «open» fname flags mode =>
          simp only [mknodEvents, attempt_some]
          rcases Except.ok_or_error (env.call cr i (.open fname flags mode)) with
            ⟨r, henv⟩ | ⟨e, henv⟩
          · simp [henv, Event.okOn]
          · simp [henv, Event.okOn]
      | _ =>
          simp only [mknodEvents]
          exact okOn_attemptEvents env cr i _

namespace Request

variable {q : Request} {env : Env n} {cr : Creds} {c c' : Config n} {i : Fin n}
  {todo : List (Fin n)} {x : Locals n} {st' : Stage n} {evs : List (Event n)}

/-- Going over one replica disables nobody and leaves the table. -/
theorem visit_quiet {i : Fin n} {todo : List (Fin n)} {x : Locals n}
    (h : q.visit env cr c i todo x = some (c', st', evs)) : c.Quiet c' := by
  cases q with
  | write fh buf offset =>
      simp only [visit] at h
      split_ifs at h
      · cases h
        exact .refl c
      · obtain ⟨fd, -, h⟩ := Option.bind_eq_some_iff.mp h
        rw [writeLoop_eq _ _ _ _ _ _ (List.nodup_singleton i)] at h
        cases h
        exact .countWrites c _
  | mknod path mode rdev =>
      simp only [visit] at h
      split at h <;> cases h <;> exact .refl c
  | _ =>
      cases h
      exact .refl c

/-- So does asking one in a search. -/
theorem attend_quiet {i : Fin n} {todo : List ℕ} {x : Locals n} :
    c.Quiet (q.attend env cr c i todo x).1 := by
  unfold attend
  split_ifs
  · exact .refl c
  · split
    · exact .refl c
    · split
      · exact .refl c
      · cases q with
        | read => exact .countAnswer c (some (i, {}))
        | _ => exact .refl c

/-- The fate of a replica in a round of the loop over all replicas. -/
def visitFate (q : Request) (env : Env n) (cr : Creds) (c : Config n) (i : Fin n) :
    Fate Reply Errno :=
  if q.opens = true ∧ c.enabled i ∧ q.call env c i = none then .failed ENOMEM
  else attempt env cr i (q.ask env c i)

/-- Only enabled replicas answer. -/
theorem enabled_of_attempt_isOk (h : (attempt env cr i (q.ask env c i)).isOk = true) :
    c.enabled i := by
  by_contra hd
  rw [ask, Config.guarded_of_disabled (Config.not_enabled_iff.mp hd)] at h
  cases h

/-- Who answered is enabled. -/
theorem enabled_of_visitFate_isOk (h : (q.visitFate env cr c i).isOk = true) : c.enabled i := by
  unfold visitFate at h
  split_ifs at h
  · cases h
  · exact enabled_of_attempt_isOk h

/-- A request that opens nothing makes one attempt. -/
theorem visitFate_of_not_opens (hop : q.opens = false) :
    q.visitFate env cr c i = attempt env cr i (q.ask env c i) := by
  simp [visitFate, hop]

/-- `open` and `create` meet the fates of their loop. -/
theorem openFate_eq_visitFate (hop : q.opens = true) {path : Path} {call : Path → Call}
    (hcall : q.call env c = openCall env c path call) :
    openFate env c cr path call i = q.visitFate env cr c i := by
  unfold visitFate openFate ask Config.guarded Config.enabled
  rw [hcall]
  by_cases hd : (c.replicas i).disabled = true
  · simp [hd]
  · cases hx : env.xlate c path i <;> simp [openCall, hx, hop, hd]

/-- A replica that could not be named did not answer. -/
theorem openFate_isOk {path : Path} {call : Path → Call} :
    (openFate env c cr path call i).isOk =
      (attempt env cr i (c.guarded (openCall env c path call) i)).isOk := by
  unfold openFate Config.guarded openCall
  by_cases hd : (c.replicas i).disabled = true
  · simp [hd]
  · cases hx : env.xlate c path i <;> simp [hd]

/-- The events of a round of the loop over all replicas. -/
def visitEvents (q : Request) (env : Env n) (cr : Creds) (c : Config n) (i : Fin n) :
    List (Event n) :=
  match q with
  | .mknod .. => mknodEvents env cr i (q.ask env c i)
  | _ => attemptEvents env cr i (q.ask env c i)

/-- The events on one replica show an answer exactly when it gave one. -/
theorem okOn_visitEvents (q : Request) (env : Env n) (cr : Creds) (c : Config n) (i : Fin n) :
    (q.visitEvents env cr c i).filterMap Event.okOn =
      if (q.visitFate env cr c i).isOk then [i] else [] := by
  cases q with
  | «open» | create =>
      simp only [visitEvents]
      rw [okOn_attemptEvents, ← openFate_eq_visitFate rfl rfl, openFate_isOk]
      rfl
  | mknod =>
      rw [visitEvents, okOn_mknodEvents, visitFate_of_not_opens rfl]
  | _ =>
      simp only [visitEvents]
      rw [okOn_attemptEvents, visitFate_of_not_opens rfl]

/-- **One round**: unless the request returns from inside the loop, it counts the fate of the
replica and makes its events. -/
theorem visit_cases (h : q.visit env cr c i todo x = some (c', st', evs)) :
    (q.supported = false ∧ c' = c ∧ st' = .done { ret := ENOSYS.neg } none ∧ evs = []) ∨
      evs = q.visitEvents env cr c i ∧
        ∃ x', st' = .loop todo x' ∧ x'.tally = x.tally.add i (q.visitFate env cr c i) evs := by
  cases q with
  | «open» path | create path =>
      simp only [visit, openLoop_eq _ _ _ _ _ _ (List.nodup_singleton i), Tally.addAll_singleton,
        Tally.since_add] at h
      cases h
      exact Or.inr ⟨rfl, _, rfl, congrArg (x.tally.add i · _) (openFate_eq_visitFate rfl rfl)⟩
  | write fh buf offset =>
      simp only [visit] at h
      split_ifs at h with hd
      · cases h
        have hskip : (Request.write fh buf offset).ask env c i = none :=
          Config.guarded_of_disabled hd _
        refine Or.inr ⟨?_, _, rfl, ?_⟩
        · simp [visitEvents, hskip, attemptEvents]
        · rw [visitFate_of_not_opens rfl, hskip, attempt_none, Tally.add_skipped]
      · obtain ⟨fd, hfd, h⟩ := Option.bind_eq_some_iff.mp h
        have hcall : writeCall fd buf offset = (Request.write fh buf offset).call env c := by
          funext j
          simp [Request.call, hfd]
        simp only [writeLoop_eq _ _ _ _ _ _ (List.nodup_singleton i), Tally.addAll_singleton,
          Tally.since_add, hcall] at h
        cases h
        exact Or.inr ⟨rfl, _, rfl, by rw [visitFate_of_not_opens rfl]; rfl⟩
  | mknod path mode rdev =>
      simp only [visit, mknodLoop_eq] at h
      split at h
      · rename_i r hr
        split_ifs at hr with hrefuses
        obtain rfl := Except.error.inj hr
        cases h
        refine Or.inl ⟨?_, rfl, rfl, rfl⟩
        simp only [mknodRefuses, Bool.and_eq_true, Bool.not_eq_true'] at hrefuses
        simp [supported, hrefuses.1]
      · rename_i t ht
        split_ifs at ht with hr
        obtain rfl := Except.ok.inj ht
        simp only [Tally.addAll_singleton, Tally.since_add] at h
        cases h
        exact Or.inr ⟨rfl, _, rfl, by rw [visitFate_of_not_opens rfl]; rfl⟩
  | _ =>
      simp only [visit, everyLoop_eq, Tally.addAll_singleton, Tally.since_add] at h
      cases h
      exact Or.inr ⟨rfl, _, rfl, by rw [visitFate_of_not_opens rfl]; rfl⟩

/-- **One round of a search**: it counts the fate of the replica, and ends with an answer. -/
theorem attend_cases {todo : List ℕ} (hadv : q.attend env cr c i todo x = (c', st', evs)) :
    evs = attemptEvents env cr i (q.ask env c i) ∧
      ∃ x', x'.tally = x.tally.add i (attempt env cr i (q.ask env c i)) evs ∧
        st' = if (attempt env cr i (q.ask env c i)).isOk then x'.conclude else .choose todo x' := by
  unfold attend at hadv
  split_ifs at hadv with hd
  · cases hadv
    have hskip : q.ask env c i = none := Config.guarded_of_disabled hd _
    exact ⟨by simp [hskip, attemptEvents], x, by simp [hskip], by simp [hskip]⟩
  · have hask : q.ask env c i = q.call env c i :=
      Config.guarded_of_enabled (by simpa [Config.enabled] using hd) _
    rw [hask]
    split at hadv
    · rename_i hcl
      cases hadv
      exact ⟨by simp [hcl, attemptEvents], x, by simp [hcl], by simp [hcl]⟩
    · rename_i cl hcl
      split at hadv
      · rename_i e henv
        have hfate : attempt env cr i (some cl) = .failed e := by simp [attempt_some, henv]
        cases hadv
        rw [hcl, hfate]
        exact ⟨by rw [attemptEvents, henv], _, rfl, rfl⟩
      · rename_i r henv
        have hfate : attempt env cr i (some cl) = .ok r := by simp [attempt_some, henv]
        cases hadv
        rw [hcl, hfate]
        exact ⟨by rw [attemptEvents, henv], _, rfl, rfl⟩

/-- The result of a search is no error. -/
theorem result_ret_nonneg (hse : q.searches = true) (x : Locals n) : 0 ≤ (q.result x).ret := by
  have hres : q.result x = answer q.respond x.found := by
    cases q <;> first | rfl | cases hse
  rw [hres]
  cases x.found with
  | none => exact le_rfl
  | some a => exact q.respond_ret_nonneg a.2

/-- How a request begins. -/
theorem begin_cases (q : Request) (env : Env n) (c : Config n) :
    (∃ e : Errno, q.begin env c = .done { ret := e.neg } none ∧ q.early env c = some e) ∨
      (q.begin env c = .loop (List.finRange n) {} ∧ q.searches = false ∧ q.releases = false) ∨
      (q.begin env c = .choose (List.range n) {} ∧ q.searches = true) ∨
      (q.begin env c = .close (List.finRange n) (-1) ∧ q.releases = true) := by
  cases q <;> simp only [begin] <;> split_ifs <;>
    first
    | exact Or.inl ⟨_, rfl, by simp [early, *]⟩
    | exact Or.inr (Or.inl ⟨rfl, rfl, rfl⟩)
    | exact Or.inr (Or.inr (Or.inl ⟨rfl, rfl⟩))
    | exact Or.inr (Or.inr (Or.inr ⟨rfl, rfl⟩))

end Request

/-- Behind the loop over the replicas comes the disabling, or the result. -/
theorem Locals.conclude_cases (x : Locals n) :
    x.conclude = .disable (List.finRange n) x ∨ x.conclude = .finish x := by
  unfold Locals.conclude
  split_ifs
  · exact Or.inl rfl
  · exact Or.inr rfl

/-- A success is counted. -/
theorem Tally.add_succCnt_ne_zero {t : Tally n} {f : Fate Reply Errno} {evs : List (Event n)}
    (h : (t.add i f evs).succCnt ≠ 0) : f.isOk = true ∨ t.succCnt ≠ 0 := by
  cases f with
  | ok => exact Or.inl rfl
  | skipped | failed => exact Or.inr h

/-! ## One step of a request -/

namespace Request

/-- What one step of a request does: how it begins, a round of its loop, the end of the loop, a
`choose_replica` and the call that follows it, the disabling, the result, and the store of what
`open` and `create` opened or the way back when there is no slot. -/
inductive Move (q : Request) (env : Env n) (cr : Creds) (c : Config n) :
    Stage n → Config n → Stage n → List (Event n) → Prop
  | refused (e : Errno) (he : q.early env c = some e) :
      Move q env cr c .start c (.done { ret := e.neg } none) []
  | goesOver (hse : q.searches = false) (hrel : q.releases = false) :
      Move q env cr c .start c (.loop (List.finRange n) {}) []
  | searches (hse : q.searches = true) : Move q env cr c .start c (.choose (List.range n) {}) []
  | releases (hrel : q.releases = true) :
      Move q env cr c .start c (.close (List.finRange n) (-1)) []
  | gaveUp {i : Fin n} {todo : List (Fin n)} {x : Locals n} (hsup : q.supported = false) :
      Move q env cr c (.loop (i :: todo) x) c (.done { ret := ENOSYS.neg } none) []
  | visited {i : Fin n} {todo : List (Fin n)} {x x' : Locals n} {c' : Config n} (hq : c.Quiet c')
      (htally : x'.tally =
        x.tally.add i (q.visitFate env cr c i) (q.visitEvents env cr c i)) :
      Move q env cr c (.loop (i :: todo) x) c' (.loop todo x') (q.visitEvents env cr c i)
  | loopEnd {x : Locals n} : Move q env cr c (.loop [] x) c x.conclude []
  | chose {k : ℕ} {todo : List ℕ} {x : Locals n} {i : Fin n} {c' : Config n}
      (hk : c.chooseReplica k = some (i, c')) :
      Move q env cr c (.choose (k :: todo) x) c' (.ask i todo x) []
  | triesEnd {x : Locals n} : Move q env cr c (.choose [] x) c x.conclude []
  | attended {i : Fin n} {todo : List ℕ} {x x' : Locals n} {c' : Config n} (hq : c.Quiet c')
      (htally : x'.tally = x.tally.add i (attempt env cr i (q.ask env c i))
        (attemptEvents env cr i (q.ask env c i))) :
      Move q env cr c (.ask i todo x) c'
        (if (attempt env cr i (q.ask env c i)).isOk then x'.conclude else .choose todo x')
        (attemptEvents env cr i (q.ask env c i))
  | spared {i : Fin n} {todo : List (Fin n)} {x : Locals n}
      (h : c.enabled i → x.tally.errList i = 0) :
      Move q env cr c (.disable (i :: todo) x) c (.disable todo x) []
  | disabled {i : Fin n} {todo : List (Fin n)} {x : Locals n} {evs : List (Event n)}
      (hen : c.enabled i) (herr : x.tally.errList i ≠ 0) (hok : evs.filterMap Event.okOn = []) :
      Move q env cr c (.disable (i :: todo) x) (c.disableReplica i).1 (.disable todo x) evs
  | disableEnd {x : Locals n} : Move q env cr c (.disable [] x) c (.finish x) []
  | failed {x : Locals n} (h : x.tally.succCnt = 0) :
      Move q env cr c (.finish x) c
        (.done { ret := c.getFirstError x.tally.errList } none) []
  | answered {x : Locals n} (h : x.tally.succCnt ≠ 0) (hop : q.opens = false) :
      Move q env cr c (.finish x) c (.done (q.result x) none) []
  | sought {x : Locals n} {k : ℤ} {evs : List (Event n)} (h : x.tally.succCnt ≠ 0)
      (hop : q.opens = true) (hk : q.conclude c x = (.store k x, evs)) :
      Move q env cr c (.finish x) c (.store k x) evs
  | stored {k : ℤ} {x : Locals n} (hk : 0 ≤ k) :
      Move q env cr c (.store k x) (c.setSlot k.toNat (some x.fd))
        (.done { ret := 0 } (some k.toNat)) []
  | noSlot {k : ℤ} {x : Locals n} (hk : k < 0) :
      Move q env cr c (.store k x) c (.unwind (List.finRange n) x) []
  | unwound {i : Fin n} {todo : List (Fin n)} {x : Locals n} :
      Move q env cr c (.unwind (i :: todo) x) c (.unwind todo x)
        (closeOpened env c cr x.fd [i])
  | unwindEnd {x : Locals n} :
      Move q env cr c (.unwind [] x) c (.done { ret := EMFILE.neg } none) []
  | closed {i : Fin n} {todo : List (Fin n)} {r r' : ℤ} {evs : List (Event n)} :
      Move q env cr c (.close (i :: todo) r) c (.close todo r') evs
  | emptied {r : ℤ} {fh : ℕ} (hfh : q.releasedFh = some fh) :
      Move q env cr c (.close [] r) (c.setSlot fh none) (.done { ret := r } none) []

variable {q : Request} {env : Env n} {cr : Creds} {c c' : Config n} {st st' : Stage n}
  {evs : List (Event n)}

/-- How the loops over the replicas end. -/
theorem conclude_finish_cases (q : Request) (c : Config n) (x : Locals n) :
    (x.tally.succCnt = 0 ∧
        q.conclude c x = (.done { ret := c.getFirstError x.tally.errList } none, [])) ∨
      (x.tally.succCnt ≠ 0 ∧ q.opens = false ∧ q.conclude c x = (.done (q.result x) none, [])) ∨
      (x.tally.succCnt ≠ 0 ∧ q.opens = true ∧ ∃ k evs, q.conclude c x = (.store k x, evs)) := by
  unfold conclude
  split_ifs with hs hop
  · exact Or.inl ⟨hs, rfl⟩
  · refine Or.inr (Or.inr ⟨hs, hop, ?_⟩)
    cases c.mainFd x.fd (List.finRange n) <;> exact ⟨_, _, rfl⟩
  · exact Or.inr (Or.inl ⟨hs, by simpa using hop, rfl⟩)

/-- **Every step is one of these moves.** -/
theorem move_of_advance (h : q.advance env cr c st = some (c', st', evs)) :
    q.Move env cr c st c' st' evs := by
  cases st with
  | start =>
      cases h
      rcases begin_cases q env c with ⟨e, h, he⟩ | ⟨h, hse, hrel⟩ | ⟨h, hse⟩ | ⟨h, hrel⟩
      all_goals rw [h]
      · exact .refused e he
      · exact .goesOver hse hrel
      · exact .searches hse
      · exact .releases hrel
  | loop todo x =>
      cases todo with
      | nil =>
          cases h
          exact .loopEnd
      | cons i todo =>
          rcases visit_cases h with ⟨hsup, rfl, rfl, rfl⟩ | ⟨rfl, x', rfl, htally⟩
          · exact .gaveUp hsup
          · exact .visited (visit_quiet h) htally
  | choose todo x =>
      cases todo with
      | nil =>
          cases h
          exact .triesEnd
      | cons k todo =>
          obtain ⟨⟨i, c₁⟩, hk, h⟩ := Option.map_eq_some_iff.mp h
          cases h
          exact .chose hk
  | ask i todo x =>
      simp only [advance] at h
      split_ifs at h
      have h := Option.some.inj h
      obtain ⟨rfl, x', htally, rfl⟩ := attend_cases h
      have hq : c.Quiet (q.attend env cr c i todo x).1 := attend_quiet
      rw [h] at hq
      exact .attended hq htally
  | disable todo x =>
      cases todo with
      | nil =>
          cases h
          exact .disableEnd
      | cons i todo =>
          simp only [advance, Config.disableLoop] at h
          split_ifs at h with hd herr
          · cases h
            exact .spared fun hen => absurd (hen.symm.trans hd) (by simp)
          · cases h
            exact .disabled (by simpa [Config.enabled] using hd) herr rfl
          · cases h
            exact .spared fun _ => not_not.mp herr
  | finish x =>
      have h := Option.some.inj h
      rcases conclude_finish_cases q c x with ⟨hs, hc⟩ | ⟨hs, hop, hc⟩ | ⟨hs, hop, k, evs, hc⟩
      · rw [hc] at h
        cases h
        exact .failed hs
      · rw [hc] at h
        cases h
        exact .answered hs hop
      · have hmove : q.Move env cr c (.finish x) c (.store k x) evs := .sought hs hop hc
        rw [hc] at h
        cases h
        exact hmove
  | store k x =>
      simp only [advance] at h
      split_ifs at h with hk
      · cases h
        exact .noSlot hk
      · cases h
        exact .stored (not_lt.mp hk)
  | unwind todo x =>
      cases todo with
      | nil =>
          cases h
          exact .unwindEnd
      | cons i todo =>
          cases h
          exact .unwound
  | close todo r =>
      cases todo with
      | nil =>
          obtain ⟨fh, hfh, h⟩ := Option.map_eq_some_iff.mp h
          cases h
          exact .emptied hfh
      | cons i todo =>
          obtain ⟨fd, -, h⟩ := Option.bind_eq_some_iff.mp h
          cases h
          exact .closed
  | done r fh => cases h

/-- What one step of a request does to the configuration. -/
inductive Effect (q : Request) (c : Config n) : Stage n → Config n → Stage n → Prop
  | quiet {st : Stage n} {c' : Config n} {st' : Stage n} (h : c.Quiet c') : Effect q c st c' st'
  | chose {k : ℕ} {todo : List ℕ} {x : Locals n} {i : Fin n} {c' : Config n}
      (h : c.chooseReplica k = some (i, c')) :
      Effect q c (.choose (k :: todo) x) c' (.ask i todo x)
  | disabled {i : Fin n} {todo : List (Fin n)} {x : Locals n} (hen : c.enabled i)
      (herr : x.tally.errList i ≠ 0) :
      Effect q c (.disable (i :: todo) x) (c.disableReplica i).1 (.disable todo x)
  | stored {k : ℤ} {x : Locals n} (h : 0 ≤ k) :
      Effect q c (.store k x) (c.setSlot k.toNat (some x.fd)) (.done { ret := 0 } (some k.toNat))
  | emptied {r : ℤ} {fh : ℕ} (h : q.releasedFh = some fh) :
      Effect q c (.close [] r) (c.setSlot fh none) (.done { ret := r } none)

/-- A move has the effect of its stage. -/
theorem Move.effect (h : q.Move env cr c st c' st' evs) : Effect q c st c' st' := by
  cases h with
  | visited hq | attended hq => exact .quiet hq
  | chose hk => exact .chose hk
  | disabled hen herr => exact .disabled hen herr
  | stored hk => exact .stored hk
  | emptied hfh => exact .emptied hfh
  | _ => exact .quiet (.refl c)

namespace Effect

/-- No step changes the layout. -/
theorem sameLayout (h : Effect q c st c' st') : c.SameLayout c' := by
  cases h with
  | quiet h => exact h.layout
  | chose h => exact .of_cursors (Config.chooseReplica_sameButCursors h)
  | @disabled i =>
      refine .of_replicas c _ ?_ ?_
      all_goals
        intro j
        by_cases hj : j = i
        · subst hj
          simp
        · simp [hj]
  | stored => exact .setSlot c _ _
  | emptied => exact .setSlot c _ _

/-- No step enables a replica. -/
theorem enabled_of_enabled (h : Effect q c st c' st') {i : Fin n} (hen : c'.enabled i) :
    c.enabled i := by
  cases h with
  | quiet h => exact (h.enabled_iff i).mp hen
  | chose h =>
      unfold Config.enabled at hen ⊢
      rwa [(Config.chooseReplica_sameButCursors h).replicas_eq] at hen
  | @disabled j =>
      by_cases hj : i = j
      · subst hj
        simp [Config.enabled, Config.disableReplica] at hen
      · simpa [Config.enabled, Config.disableReplica, hj] using hen
  | stored => exact hen
  | emptied => exact hen

end Effect

end Request

/-! ## One step of the pool -/

namespace Pool

variable [DecidableEq T] {req : T → Request} {s s' : Pool T n} {t : T} {env : Env n}

/-- A step is that of one request which may go on. -/
theorem step_eq_some_iff :
    s.step req (t, env) = some s' ↔
      s.mayStep t (req t) = true ∧ ∃ r, (req t).advance env s.creds s.config (s.stage t) = some r ∧
        s' = s.after t (req t) r := by
  unfold step
  split_ifs with h
  · simp [h, eq_comm]
  · simp [h]

/-- **What one step of the pool does**: the request that makes it goes to its next stage, by one of
the moves; the others stay where they are. -/
structure Stepped (req : T → Request) (s s' : Pool T n) (t : T) (env : Env n) : Prop where
  may : s.mayStep t (req t) = true
  move : ∃ evs, (req t).Move env s.creds s.config (s.stage t) s'.config (s'.stage t) evs ∧
    s'.trace = s.trace ++ evs.map fun ev => (t, ev)
  creds : s'.creds = s.creds
  stage_of_ne : ∀ u, u ≠ t → s'.stage u = s.stage u
  live : s'.live = s.liveAfter (req t) (s.stage t) (s'.stage t)

/-- Request `t` did something with property `P`. -/
def Did (s : Pool T n) (t : T) (P : Event n → Prop) : Prop := ∃ a ∈ s.trace, a.1 = t ∧ P a.2

instance (s : Pool T n) (t : T) (P : Event n → Prop) [DecidablePred P] : Decidable (s.Did t P) := by
  unfold Did
  infer_instance

omit [DecidableEq T] in
/-- What requests did after a step: what they had done, and what this one did. -/
theorem did_append {evs : List (Event n)} (h : s'.trace = s.trace ++ evs.map fun ev => (t, ev))
    (u : T) (P : Event n → Prop) : s'.Did u P ↔ s.Did u P ∨ (u = t ∧ ∃ ev ∈ evs, P ev) := by
  unfold Did
  simp only [h, List.mem_append, List.mem_map]
  constructor
  · rintro ⟨a, ha | ⟨ev, hev, rfl⟩, ht, hp⟩
    · exact Or.inl ⟨a, ha, ht, hp⟩
    · exact Or.inr ⟨ht.symm, ev, hev, hp⟩
  · rintro (⟨a, ha, ht, hp⟩ | ⟨rfl, ev, hev, hp⟩)
    · exact ⟨a, Or.inl ha, ht, hp⟩
    · exact ⟨(u, ev), Or.inr ⟨ev, hev, rfl⟩, rfl, hp⟩

/-- What a step does, for its request and for the others. -/
theorem stepped_of_step (h : s.step req (t, env) = some s') : Stepped req s s' t env := by
  obtain ⟨hmay, ⟨c', st', evs⟩, hadv, rfl⟩ := step_eq_some_iff.mp h
  have hst : (s.after t (req t) (c', st', evs)).stage t = st' := Function.update_self ..
  refine ⟨hmay, ⟨evs, ?_, rfl⟩, rfl, fun u hu => Function.update_of_ne hu _ _, ?_⟩
  · rw [hst]
    exact Request.move_of_advance hadv
  · rw [hst]
    rfl

omit [DecidableEq T] in
/-- It has the effect of a move. -/
theorem Stepped.effect (h : Stepped req s s' t env) :
    (req t).Effect s.config (s.stage t) s'.config (s'.stage t) :=
  have ⟨_, hmove, _⟩ := h.move
  hmove.effect

end Pool

end ChironFs
