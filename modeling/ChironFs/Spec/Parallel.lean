import ChironFs.Spec.Atomic
import ChironFs.Spec.Interleaved
import ChironFs.Spec.World

/-!
# Requests at the same time, over replicas that are stores

* `Parallel.step`: a request makes one step, whose calls the replicas take part in.
* `Parallel.shows`: what is seen of it, in the words of `ChironFs.Spec.Atomic`.
* `World.asked_of_visit`: what one round does to the replicas.
* `Request.visit_fd`, `Request.visit_result`, `Request.attend_found`: what a round keeps for the end of
  the request.
-/

namespace ChironFs

open Posix Replication

variable {n : ℕ} {T S F : Type*}

/-! ## The system -/

/-- What a request does when it goes from one stage to another. -/
def Stage.shows (t : T) : Stage n → Stage n → Option (Atomic.Act T)
  | .start, .done r _ => some (.refuses t r)
  | .start, _ => some (.asks t)
  | _, .done r fh => some (.returns t r fh)
  | _, _ => none

/-- The requests of a pool and the replicas. -/
structure Parallel (T : Type*) (n : ℕ) (S F : Type*) where
  pool : Pool T n
  world : World n S F

namespace Parallel

/-- One step of a request; `none` as for `Pool.step`, or if the answers it finds are not those of the
replicas. -/
def step [DecidableEq T] (fs : FileSystem S F) (req : T → Request) (σ : Parallel T n S F)
    (a : T × Env n) : Option (Parallel T n S F) :=
  if σ.pool.mayStep a.1 (req a.1) then
    ((req a.1).advance a.2 σ.pool.creds σ.pool.config (σ.pool.stage a.1)).bind fun r =>
      (Machine.runFrom (World.absorb fs σ.pool.config.root) σ.world r.2.2).map fun w =>
        { pool := σ.pool.after a.1 (req a.1) r, world := w }
  else none

/-- What is seen of a step. -/
def shows (req : T → Request) (σ : Parallel T n S F) (a : T × Env n) : Option (Atomic.Act T) :=
  ((req a.1).advance a.2 σ.pool.creds σ.pool.config (σ.pool.stage a.1)).bind fun r =>
    (σ.pool.stage a.1).shows a.1 r.2.1

/-- What a step of request `t` goes through: the step of the pool, its events, and what they do to
the replicas. -/
structure Stepped (fs : FileSystem S F) (req : T → Request) (σ σ' : Parallel T n S F) (t : T)
    (env : Env n) (evs : List (Event n)) : Prop where
  advance : (req t).advance env σ.pool.creds σ.pool.config (σ.pool.stage t) =
    some (σ'.pool.config, σ'.pool.stage t, evs)
  pool : Pool.Stepped req σ.pool σ'.pool t env
  trace : σ'.pool.trace = σ.pool.trace ++ evs.map fun ev => (t, ev)
  world : Machine.runFrom (World.absorb fs σ.pool.config.root) σ.world evs = some σ'.world

variable [DecidableEq T] {fs : FileSystem S F} {req : T → Request} {σ σ' : Parallel T n S F} {t : T}
  {env : Env n}

/-- What a step does to the pool and to the stores. -/
theorem stepped_of_step (h : σ.step fs req (t, env) = some σ') :
    ∃ evs, Stepped fs req σ σ' t env evs := by
  unfold step at h
  split_ifs at h with hmay
  obtain ⟨⟨c', st', evs⟩, hadv, h⟩ := Option.bind_eq_some_iff.mp h
  obtain ⟨w, hw, rfl⟩ := Option.map_eq_some_iff.mp h
  have hst : (σ.pool.after t (req t) (c', st', evs)).stage t = st' := Function.update_self ..
  refine ⟨evs, ?_, ?_, rfl, hw⟩
  · rw [hadv]
    exact congrArg (fun st => some (c', st, evs)) hst.symm
  · exact Pool.stepped_of_step (Pool.step_eq_some_iff.mpr ⟨hmay, _, hadv, rfl⟩)

omit [DecidableEq T] in
/-- What it shows depends on the stages before and after it. -/
theorem Stepped.shows {evs : List (Event n)} (h : Stepped fs req σ σ' t env evs) :
    σ.shows req (t, env) = (σ.pool.stage t).shows t (σ'.pool.stage t) := by
  rw [Parallel.shows, h.advance]
  rfl

end Parallel

/-- A step of the pool, with its events. -/
theorem Pool.advance_of_step [DecidableEq T] {req : T → Request} {s s' : Pool T n} {t : T} {env : Env n}
    (h : s.step req (t, env) = some s') :
    ∃ evs, (req t).advance env s.creds s.config (s.stage t) = some (s'.config, s'.stage t, evs) ∧
      s'.trace = s.trace ++ evs.map fun ev => (t, ev) := by
  obtain ⟨-, ⟨c, st, evs⟩, hadv, rfl⟩ := step_eq_some_iff.mp h
  have hst : (s.after t (req t) (c, st, evs)).stage t = st := Function.update_self ..
  refine ⟨evs, ?_, rfl⟩
  rw [hadv]
  exact congrArg (fun st => some (c, st, evs)) hst.symm

/-! ## One round on the replicas -/

/-- The environment of a request that keeps the ids of the process. -/
def Env.keepIds (env : Env n) : Env n := { env with refuse := fun _ => true }

namespace Request

variable {q : Request} {env : Env n} {cr : Creds} {c c' : Config n} {i : Fin n}
  {todo todo' : List (Fin n)} {x x' : Locals n} {evs : List (Event n)}

/-- The calls do not depend on the ids. -/
theorem call_keepIds (q : Request) (env : Env n) (c : Config n) :
    q.call env.keepIds c = q.call env c := by
  cases q <;> rfl

/-- Keeping the ids leaves the credentials. -/
theorem creds_keepIds (env : Env n) (cr : Creds) : (dropPriv env.keepIds cr).creds = cr := rfl

/-- The events of a request are then those of its visits. -/
theorem events_keepIds (q : Request) (env : Env n) (cr : Creds) (c : Config n) (i : Fin n) :
    q.events env.keepIds { config := c, creds := cr } i = q.visitEvents env cr c i := by
  cases q <;> rfl

/-- So are its fates. -/
theorem round_keepIds (q : Request) (env : Env n) (cr : Creds) (c : Config n) (i : Fin n) :
    q.round env.keepIds { config := c, creds := cr } i = q.visitFate env cr c i := by
  simp only [round, visitFate, call_keepIds, ask, creds_keepIds]
  rfl

end Request

namespace World

variable {fs : FileSystem S F} {w w' : World n S F} {q : Request} {env : Env n} {cr : Creds}
  {c : Config n} {i : Fin n} {g : Option F}

/-- What a round on replica `i` does: nothing to other stores and to open files, nothing at all unless
it succeeds; its answer is its store's. -/
structure Visited (fs : FileSystem S F) (cr : Creds) (q : Request) (g : Option F) (i : Fin n)
    (f : Fate Reply Errno) (w w' : World n S F) : Prop where
  other : ∀ j, j ≠ i → w'.store j = w.store j
  kept : ∀ v, w.file v ≠ none → w'.file v = w.file v
  unchanged : f.isOk = false → w' = w
  searched : q.searches = true → w' = w
  answered : ∀ r, f = .ok r → Answered fs cr q g i r w w'

/-- **One round.** -/
theorem asked_of_visit (htgt : ∀ cl, q.ask env c i = some cl → w.Targets i cl g)
    (h : Machine.runFrom (absorb fs c.root) w (q.visitEvents env cr c i) = some w') :
    Visited fs cr q g i (q.visitFate env cr c i) w w' := by
  have hasked : Asked fs env.keepIds { config := c, creds := cr } q g i w w' := by
    refine asked_of_events (fun cl hcl => htgt cl ?_) ?_
    · rw [Request.ask, Request.call_keepIds] at hcl
      exact hcl
    · rw [Request.events_keepIds]
      exact h
  refine ⟨hasked.other, hasked.kept, fun hno => hasked.unchanged ?_, hasked.searched,
    fun r hr => ?_⟩
  · rw [Request.round_keepIds]
    exact hno
  · have hans := hasked.answered r (by rw [Request.round_keepIds]; exact hr)
    rwa [Request.creds_keepIds] at hans

/-- The answer of a replica, as an operation on its store. -/
theorem Answered.act {r : Reply} (h : Answered fs cr q g i r w w') :
    ∃ o, fs.act cr q g (w.store i) = some (w'.store i, q.respond r, o) ∧
      (q.opens = true → ∃ f, o = some f ∧ w.file r.ret = none ∧ w'.file r.ret = some (i, f)) := by
  obtain ⟨a, ha, hstore, hresp, hopen⟩ := h
  exact ⟨a.opened, by rw [FileSystem.act, ha, hstore, hresp]; rfl, hopen⟩

end World

/-! ## What a round keeps -/

namespace Request

variable {q : Request} {env : Env n} {cr : Creds} {c c' : Config n} {i : Fin n}
  {todo todo' : List (Fin n)} {x x' : Locals n} {evs : List (Event n)}

/-- The vector of `open` and `create`. -/
theorem visit_fd (hop : q.opens = true)
    (h : q.visit env cr c i todo x = some (c', .loop todo' x', evs)) :
    x'.fd i = fdEntry (x.fd i) (q.visitFate env cr c i) ∧ ∀ j, j ≠ i → x'.fd j = x.fd j := by
  cases q with
  | «open» path | create path =>
      simp only [visit, openLoop_eq _ _ _ _ _ _ (List.nodup_singleton i)] at h
      cases h
      refine ⟨?_, fun j hj => ?_⟩
      · rw [← openFate_eq_visitFate rfl rfl]
        simp
      · simp [hj]
  | _ => cases hop

/-- The fate of a `write` on one replica. -/
theorem visitFate_write {fh : ℕ} {buf : List UInt8} {offset : ℤ} {fd : Fin n → ℤ}
    (hfd : c.tabFd fh = some fd) :
    (Request.write fh buf offset).visitFate env cr c i =
      attempt env cr i (c.guarded (writeCall fd buf offset) i) := by
  have hcall : writeCall fd buf offset = (Request.write fh buf offset).call env c := by
    funext j
    simp [Request.call, hfd]
  rw [visitFate_of_not_opens rfl, hcall]
  rfl

/-- A round of a loop over all replicas finds nothing for a search. -/
theorem visit_found (h : q.visit env cr c i todo x = some (c', .loop todo' x', evs)) :
    x'.found = x.found := by
  cases q with
  | write fh buf offset =>
      simp only [visit] at h
      split_ifs at h
      · cases h
        rfl
      · obtain ⟨fd, -, h⟩ := Option.bind_eq_some_iff.mp h
        cases h
        rfl
  | mknod path mode rdev =>
      simp only [visit] at h
      split at h <;> cases h
      rfl
  | _ =>
      cases h
      rfl

/-- The result reads the bytes written and the answer found. -/
theorem result_congr {y : Locals n} (hw : y.wMax = x.wMax) (hf : y.found = x.found) :
    q.result y = q.result x := by
  cases q with
  | write => simp only [result, hw]
  | _ => simp only [result, hf]

/-- The largest count of a write is that of an answer. -/
theorem visit_wMax (h : q.visit env cr c i todo x = some (c', .loop todo' x', evs))
    (hno : (q.visitFate env cr c i).isOk = false) : x'.wMax = x.wMax := by
  cases q with
  | write fh buf offset =>
      simp only [visit] at h
      split_ifs at h
      · cases h
        rfl
      · obtain ⟨fd, hfd, h⟩ := Option.bind_eq_some_iff.mp h
        rw [visitFate_write hfd] at hno
        rw [writeLoop_eq _ _ _ _ _ _ (List.nodup_singleton i)] at h
        cases h
        cases hf : attempt env cr i (c.guarded (writeCall fd buf offset) i) with
        | ok r => simp [hf] at hno
        | skipped | failed e => simp [maxCount, hf]
  | mknod path mode rdev =>
      simp only [visit] at h
      split at h <;> cases h
      rfl
  | _ =>
      cases h
      rfl

/-- An answer like those before it is the result. -/
theorem visit_result (hse : q.searches = false) (hop : q.opens = false) (hfound : x.found = none)
    (h : q.visit env cr c i todo x = some (c', .loop todo' x', evs)) {r : Reply}
    (hr : q.visitFate env cr c i = .ok r) (hwas : x.wMax = 0 ∨ q.result x = q.respond r) :
    q.result x' = q.respond r := by
  have hfound' := (visit_found h).trans hfound
  cases q with
  | write fh buf offset =>
      simp only [visit] at h
      split_ifs at h with hd
      · rw [visitFate_of_not_opens rfl, ask, Config.guarded_of_disabled hd, attempt_none] at hr
        cases hr
      · obtain ⟨fd, hfd, h⟩ := Option.bind_eq_some_iff.mp h
        rw [visitFate_write hfd] at hr
        rw [writeLoop_eq _ _ _ _ _ _ (List.nodup_singleton i)] at h
        cases h
        simp only [result, respond, Response.mk.injEq, and_true] at hwas ⊢
        simp only [maxCount, hr]
        omega
  | «open» | create => cases hop
  | read | getattr | access | readlink | readdir => cases hse
  | _ => simp only [result, answer, hfound', respond]

/-- The answer a search ends with. -/
theorem attend_found {todo : List ℕ} {st' : Stage n} {r : Reply}
    (hadv : q.attend env cr c i todo x = (c', st', evs))
    (hr : attempt env cr i (q.ask env c i) = .ok r) :
    ∃ x' : Locals n, st' = x'.conclude ∧ x'.found = some (i, r) ∧
      x'.tally = x.tally.add i (.ok r) evs := by
  obtain ⟨cl, hask, henv⟩ := attempt_eq_ok_iff.mp hr
  obtain ⟨hen, hcl⟩ := Config.guarded_eq_some_iff.mp hask
  have hd : ¬ (c.replicas i).disabled = true := by
    rw [show (c.replicas i).disabled = false from hen]
    exact Bool.false_ne_true
  simp only [attend, if_neg hd, hcl, henv] at hadv
  cases hadv
  exact ⟨_, rfl, rfl, rfl⟩

/-- A round of a search that does not end it. -/
theorem attend_passed {todo : List ℕ} {st' : Stage n}
    (hadv : q.attend env cr c i todo x = (c', st', evs))
    (hno : (attempt env cr i (q.ask env c i)).isOk = false) :
    ∃ x' : Locals n, st' = .choose todo x' ∧ x'.wMax = x.wMax ∧ x'.found = x.found := by
  unfold attend at hadv
  split_ifs at hadv with hd
  · cases hadv
    exact ⟨x, rfl, rfl, rfl⟩
  · rw [ask, Config.guarded_of_enabled (by simpa [Config.enabled] using hd)] at hno
    cases hcl : q.call env c i with
    | none =>
        simp only [hcl] at hadv
        cases hadv
        exact ⟨x, rfl, rfl, rfl⟩
    | some cl =>
        rw [hcl, attempt_some] at hno
        simp only [hcl] at hadv
        cases henv : env.call cr i cl with
        | ok r =>
            rw [henv] at hno
            cases hno
        | error e =>
            simp only [henv] at hadv
            cases hadv
            exact ⟨_, rfl, rfl, rfl⟩

/-- The result of a search is the answer found. -/
theorem result_of_searches (hse : q.searches = true) : q.result x = answer q.respond x.found := by
  cases q <;> first | rfl | cases hse

/-- A search makes one attempt at each replica it comes to. -/
theorem visitEvents_of_searches (hse : q.searches = true) :
    q.visitEvents env cr c i = attemptEvents env cr i (q.ask env c i) := by
  cases q <;> first | rfl | cases hse

/-- With its names and a descriptor, a request has a call to make. -/
theorem call_ne_none (hsup : q.supported = true) (hrel : q.releases = false)
    (hx : ∀ path k, env.xlate c path i k ≠ none)
    (hfd : ∀ fh, q.uses = some fh → ∃ fd, c.tabFd fh = some fd ∧ 0 ≤ fd i) :
    q.call env c i ≠ none := by
  cases q with
  | release => cases hrel
  | read fh size offset =>
      obtain ⟨fd, hslot, hge⟩ := hfd fh rfl
      simp [call, hslot, readCall, not_lt.mpr hge]
  | write fh buf offset =>
      obtain ⟨fd, hslot, hge⟩ := hfd fh rfl
      simp [call, hslot, writeCall, not_lt.mpr hge]
  | mknod path mode rdev =>
      obtain ⟨fname, hname⟩ := Option.ne_none_iff_exists'.mp (hx path 0)
      simp only [supported, Bool.or_eq_true] at hsup
      simp only [call, mknodCall, hname, Option.bind_some]
      split_ifs with h₁ h₂
      · exact Option.some_ne_none _
      · exact Option.some_ne_none _
      · exact absurd hsup (not_or.mpr ⟨h₁, h₂⟩)
  | rename a b | link a b =>
      obtain ⟨fa, ha⟩ := Option.ne_none_iff_exists'.mp (hx a 0)
      obtain ⟨fb, hb⟩ := Option.ne_none_iff_exists'.mp (hx b 1)
      simp [call, Env.xlate₂, ha, hb]
  | symlink a b => simpa [call] using hx b 0
  | «open» path | create path => simpa [call, openCall] using hx path 0
  | getattr path | access path | readlink path | readdir path | truncate path | chmod path
  | chown path | utime path | rmdir path | unlink path | mkdir path =>
      simpa [call] using hx path 0

/-- A file type that `mknod` cannot create ends it at the first enabled replica. -/
theorem supported_of_visit (hen : c.enabled i) (hx : ∀ path k, env.xlate c path i k ≠ none)
    (h : q.visit env cr c i todo x = some (c', .loop todo' x', evs)) : q.supported = true := by
  cases q with
  | mknod path mode rdev =>
      by_contra hsup
      simp only [supported, Bool.or_eq_true, not_or, Bool.not_eq_true] at hsup
      have hdis : (c.replicas i).disabled = false := by simpa [Config.enabled] using hen
      have hrefuses : mknodRefuses env c path mode [i] = true := by
        have hname := Option.ne_none_iff_isSome.mp (hx path 0)
        simp [mknodRefuses, hsup.1, hsup.2, hdis, hname]
      simp only [visit, mknodLoop_eq, hrefuses, if_true] at h
      cases h
  | _ => rfl

/-- An enabled replica is not passed over. -/
theorem visitFate_ne_skipped (hen : c.enabled i) (hrel : q.releases = false)
    (hx : ∀ path k, env.xlate c path i k ≠ none)
    (hfd : ∀ fh, q.uses = some fh → ∃ fd, c.tabFd fh = some fd ∧ 0 ≤ fd i)
    (h : q.visit env cr c i todo x = some (c', .loop todo' x', evs)) :
    q.visitFate env cr c i ≠ .skipped := by
  have hcall := call_ne_none (supported_of_visit hen hx h) hrel hx hfd
  unfold visitFate
  split_ifs with hno
  · exact fun hf => by cases hf
  · rw [Ne, attempt_eq_skipped_iff, ask, Config.guarded_of_enabled hen]
    exact hcall

/-- Only a request of a kind that can be served is answered. -/
theorem supported_of_visitFate (h : (q.visitFate env cr c i).isOk = true) : q.supported = true := by
  cases q with
  | mknod path mode rdev =>
      obtain ⟨r, hr⟩ := Fate.isOk_iff.mp h
      rw [visitFate_of_not_opens rfl] at hr
      obtain ⟨cl, hask, -⟩ := attempt_eq_ok_iff.mp hr
      obtain ⟨fname, -, hcl⟩ := Option.bind_eq_some_iff.mp (Config.guarded_eq_some_iff.mp hask).2
      simp only [supported, Bool.or_eq_true]
      split_ifs at hcl with h₁ h₂
      · exact Or.inl h₁
      · exact Or.inr h₂
  | _ => rfl

end Request

/-! ## What the other steps do to the replicas -/

/-- The stages whose next step makes calls or closes. -/
def Stage.touches : Stage n → Bool
  | .loop (_ :: _) _ | .ask .. | .unwind (_ :: _) _ | .close (_ :: _) _ => true
  | _ => false

/-- A line of the log. -/
def Event.isLog : Event n → Bool
  | .log .. => true
  | _ => false

/-- A log line is about no store. -/
theorem Event.isSilent_of_isLog {ev : Event n} (h : ev.isLog = true) : ev.isSilent = true := by
  cases ev <;> first | rfl | cases h

/-- Disabling a replica writes log lines. -/
theorem Config.disableLoop_isLog {operation : String} {errList : Fin n → ℤ} {i : Fin n}
    {c : Config n} {ev : Event n} (h : ev ∈ (Config.disableLoop operation errList [i] c).2) :
    ev.isLog = true := by
  simp only [disableLoop] at h
  split_ifs at h
  · cases h
  · simp only [disableReplica, List.append_nil] at h
    rcases List.mem_pair.mp h with rfl | rfl <;> rfl
  · cases h

namespace Request

variable {q : Request} {env : Env n} {cr : Creds} {c c' : Config n} {st st' : Stage n}
  {evs : List (Event n)} {x : Locals n}

/-- So does the end of a round. -/
theorem conclude_isLog {ev : Event n} (h : ev ∈ (q.conclude c x).2) : ev.isLog = true := by
  unfold conclude at h
  split_ifs at h
  · cases h
  · split at h
    · cases h
    · simp only [Config.fdHashseekfree] at h
      split at h
      · cases h
      · split at h
        · cases h
        · obtain rfl := List.mem_singleton.mp h
          rfl
  · cases h

/-- A step at one of the other stages leaves the replicas alone. -/
theorem isLog_of_advance (h : q.advance env cr c st = some (c', st', evs))
    (hst : st.touches = false) {ev : Event n} (hev : ev ∈ evs) : ev.isLog = true := by
  cases st with
  | start =>
      cases h
      cases hev
  | store =>
      simp only [advance] at h
      split_ifs at h <;> cases h <;> cases hev
  | loop todo x =>
      cases todo with
      | nil =>
          cases h
          cases hev
      | cons => cases hst
  | choose todo x =>
      cases todo with
      | nil =>
          cases h
          cases hev
      | cons k todo =>
          obtain ⟨⟨i, c₁⟩, -, h⟩ := Option.map_eq_some_iff.mp h
          cases h
          cases hev
  | ask => cases hst
  | disable todo x =>
      cases todo with
      | nil =>
          cases h
          cases hev
      | cons i todo =>
          cases h
          exact Config.disableLoop_isLog hev
  | finish x =>
      have h := Option.some.inj h
      have hevs : (q.conclude c x).2 = evs := congrArg (fun p => p.2.2) h
      exact conclude_isLog (hevs ▸ hev)
  | unwind todo x =>
      cases todo with
      | nil =>
          cases h
          cases hev
      | cons => cases hst
  | close todo r =>
      cases todo with
      | nil =>
          obtain ⟨fh, -, h⟩ := Option.map_eq_some_iff.mp h
          cases h
          cases hev
      | cons => cases hst
  | done => cases h

/-- A stage that touches no replica has silent events. -/
theorem silent_of_advance (h : q.advance env cr c st = some (c', st', evs))
    (hst : st.touches = false) {ev : Event n} (hev : ev ∈ evs) : ev.isSilent = true :=
  Event.isSilent_of_isLog (isLog_of_advance h hst hev)

end Request

/-- The first error is one, if an enabled replica has one. -/
theorem Config.getFirstError_neg {c : Config n} {errList : Fin n → ℤ} (hle : ∀ i, errList i ≤ 0)
    (h : ∃ i, c.enabled i ∧ errList i ≠ 0) : c.getFirstError errList < 0 := by
  obtain ⟨i, hen, herr⟩ := h
  suffices hloop : ∀ l : List (Fin n), i ∈ l → c.firstErrorLoop errList l < 0 from
    hloop _ (List.mem_finRange i)
  intro l
  induction l with
  | nil => exact fun h => absurd h List.not_mem_nil
  | cons j l ih =>
      intro hi
      rw [firstErrorLoop]
      split_ifs with hj
      · exact lt_of_le_of_ne (hle j) hj.2
      · refine ih ((List.mem_cons.mp hi).resolve_left ?_)
        rintro rfl
        exact hj ⟨hen, herr⟩

/-- The event closes the descriptor `v` of an enabled replica `i`. -/
def Event.Closes (c : Config n) (i : Fin n) (v : ℤ) (ev : Event n) : Prop :=
  c.enabled i ∧ ∃ cr res, ev = .close cr i v res

/-- Undoing an `open` closes descriptors of its vector. -/
theorem closes_of_mem_closeOpened {env : Env n} {c : Config n} {cr : Creds} {fd : Fin n → ℤ}
    {i : Fin n} {ev : Event n} (h : ev ∈ closeOpened env c cr fd [i]) : ev.Closes c i (fd i) := by
  simp only [closeOpened] at h
  split_ifs at h with hen
  · exact ⟨hen.1, _, _, List.mem_singleton.mp h⟩
  · cases h

/-- So does `release`. -/
theorem closes_of_mem_releaseLoop {env : Env n} {c : Config n} {cr : Creds} {fd : Fin n → ℤ}
    {i : Fin n} {r : ℤ} {ev : Event n} (h : ev ∈ (releaseLoop env c cr fd [i] r []).2) :
    ev.Closes c i (fd i) := by
  simp only [releaseLoop] at h
  split_ifs at h with hen
  · exact ⟨hen.2, _, _, List.mem_singleton.mp h⟩
  · cases h

/-- Closing a descriptor leaves the stores, and the other descriptors. -/
theorem World.runFrom_of_closing {fs : FileSystem S F} {root : Fin n → Path} {w w' : World n S F}
    {c : Config n} {i : Fin n} {v : ℤ} {evs : List (Event n)} (h : ∀ ev ∈ evs, ev.Closes c i v)
    (hrun : Machine.runFrom (absorb fs root) w evs = some w') :
    w'.store = w.store ∧ ∀ u, (c.enabled i → u ≠ v) → w'.file u = w.file u := by
  obtain ⟨hstore, hfile⟩ := runFrom_of_closes (X := {u | c.enabled i ∧ u = v}) (fun ev hev => by
    obtain ⟨hen, cr, res, rfl⟩ := h ev hev
    exact Or.inr ⟨cr, i, v, res, ⟨hen, rfl⟩, rfl⟩) hrun
  exact ⟨hstore, fun u hu => hfile u fun hand => hu hand.1 hand.2⟩

/-- A silent event is no answer. -/
theorem Event.okOn_of_isSilent {ev : Event n} (h : ev.isSilent = true) : ev.okOn = none := by
  cases ev <;> first | rfl | cases h

/-- Closing is no answer. -/
theorem Event.Closes.okOn {c : Config n} {i : Fin n} {v : ℤ} {ev : Event n} (h : ev.Closes c i v) :
    ev.okOn = none := by
  obtain ⟨-, cr, res, rfl⟩ := h
  rfl

end ChironFs
