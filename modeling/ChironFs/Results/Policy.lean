import ChironFs.Lib.Run
import ChironFs.Results.Disabling
import ChironFs.Spec.Tries

/-!
# The documented disabling policy

The manual page and the HOWTO say that a replica is disabled only if a write failed on it and
succeeded on another one; a failed read is to be answered by another replica, and no more.

* `Request.reads`, `Request.writes`: the two kinds of requests.
* `Explained`: every replica disabled in a run failed a write that another one answered.
* `not_explained_getattr`: a `getattr` disables a replica.
* `Request.ReadsInPeace`: no replica fails before another answers the same read.
* `explained_iff`: without such a failure the policy is kept, in every run; a read with one breaks
  it.
-/

namespace ChironFs

open Posix Replication

variable {n : ℕ}

namespace Request

/-- `O_ACCMODE`. -/
def O_ACCMODE : ℕ := 0o3

/-- `O_RDONLY`. -/
def O_RDONLY : ℕ := 0

/-- The read-type requests: those that search, and `open` for reading. -/
def reads : Request → Bool
  | .open _ flags => flags &&& O_ACCMODE = O_RDONLY
  | q => q.searches

/-- The write-type requests: all others but `release`. -/
def writes (q : Request) : Bool := !q.reads && !q.releases

end Request

/-! ## The policy -/

/-- The request failed on replica `i`: its call failed, or in `open` and `create` no name could be
built for it. -/
def FailedOn (q : Request) (env : Env n) (d : Daemon n) (o : Outcome n) (i : Fin n) : Prop :=
  o.CallFailed i ∨ (q.opens = true ∧ q.call env d.config i = none)

/-- **The documented policy** for a run from `d₀` on the requests `l` that ends in `d`: whatever
replica was disabled in it failed a write-type request of the run, which succeeded on another
replica. -/
def Explained (d₀ : Daemon n) (l : List (Request × Env n)) (d : Daemon n) : Prop :=
  ∀ i, d₀.config.enabled i → ¬ d.config.enabled i →
    ∃ l₁ q env l₂ d₁ o, l = l₁ ++ (q, env) :: l₂ ∧ Machine.runFrom Daemon.step d₀ l₁ = some d₁ ∧
      handle q env d₁ = some o ∧ q.writes = true ∧ FailedOn q env d₁ o i ∧
      ∃ j, j ≠ i ∧ o.CallOk j

/-- A read-type request disables nobody. -/
def LeavesEnabled (d : Daemon n) (o : Outcome n) : Prop :=
  ∀ i, o.daemon.config.enabled i ↔ d.config.enabled i

/-- A read-type request that ends early, or in which either no replica fails or none answers, among
those it goes over. -/
def Request.ReadsInPeace (env : Env n) (d : Daemon n) (q : Request) : Prop :=
  q.early env d.config ≠ none ∨ (∀ i, (q.fates env d i).isFailed = false) ∨
    ∀ i, (q.fates env d i).isOk = false

/-- What is assumed of a step of a run: a read-type request is not answered after a failure. -/
def ReadsPeacefully (d : Daemon n) (a : Request × Env n) : Prop :=
  a.1.reads = true → a.1.ReadsInPeace a.2 d

/-- Nothing was disabled and nothing is open: a `getattr` that fails on the replica it asks first,
and that the other one answers, disables the first. -/
theorem not_explained_getattr :
    ∃ d, Machine.runFrom Daemon.step rootDaemon [(.getattr fileF, secondFails {} EACCES)] = some d ∧
      ¬ Explained rootDaemon [(.getattr fileF, secondFails {} EACCES)] d := by
  refine ⟨_, rfl, ?_⟩
  intro hexp
  have hdis : ¬ ((handle (.getattr fileF) (secondFails {} EACCES) rootDaemon).get
      rfl).daemon.config.enabled 1 := by
    intro hen
    cases (show true = false from hen)
  obtain ⟨l₁, q, env, l₂, d₁, o, hl, -, -, hw, -⟩ := hexp 1 rfl hdis
  obtain ⟨-, hq⟩ | ⟨_, hl⟩ := List.cons_eq_append_iff.mp hl
  · cases hq
    cases hw
  · simp at hl

section policy

variable {q : Request} {env : Env n} {d : Daemon n} {o : Outcome n}

theorem releases_of_reads (h : q.reads = true) : q.releases = false := by
  cases q <;> first | rfl | cases h

/-- No request enables a replica, so the flags stay when nobody is newly disabled. -/
theorem leavesEnabled_iff_forall (ho : handle q env d = some o) :
    LeavesEnabled d o ↔ ∀ i, ¬ o.NewlyDisabled i d := by
  unfold LeavesEnabled Outcome.NewlyDisabled
  apply forall_congr'
  intro i
  rw [not_and, not_not]
  exact ⟨Iff.mpr, fun h => ⟨enabled_of_enabled ho, h⟩⟩

/-- A round drops nobody when nobody failed in it or nobody answered. -/
theorem forall_not_drops_iff {ι ρ ε : Type*} {R : Round ι ρ ε} :
    (∀ i, ¬ R.Drops i) ↔ (∀ i, (R i).isFailed = false) ∨ ∀ i, (R i).isOk = false := by
  constructor
  · intro h
    by_cases hs : R.Succeeded
    · exact Or.inl fun i => by simpa using fun hf => h i ⟨hs, hf⟩
    · exact Or.inr fun i => by simpa using fun hok => hs ⟨i, hok⟩
  · rintro (h | h) i ⟨⟨j, hj⟩, hf⟩
    · rw [h i] at hf
      cases hf
    · rw [h j] at hj
      cases hj

/-- **Which read-type requests leave the flags alone**: those in which no replica fails before
another answers. -/
theorem leavesEnabled_iff (hreads : q.reads = true) (ho : handle q env d = some o) :
    LeavesEnabled d o ↔ q.ReadsInPeace env d := by
  rw [leavesEnabled_iff_forall ho, Request.ReadsInPeace]
  rcases handle_cases ho with ⟨e, he, rfl⟩ | ⟨fh, fd, rfl, -, -⟩ | ⟨he, -, tried, h⟩
  · refine iff_of_true ?_ (Or.inl (by rw [he]; exact Option.some_ne_none e))
    rintro i ⟨hen, hdis⟩
    exact hdis hen
  · cases releases_of_reads hreads
  · rw [← forall_not_drops_iff, ← h.roundOn_eq, or_iff_right (not_not.mpr he)]
    apply forall_congr'
    intro i
    rw [h.newlyDisabled_iff, not_and]
    refine ⟨fun hno hd => hno ?_ hd, fun hno _ => hno⟩
    -- a disabled replica is passed over
    by_contra hen
    have hskip : q.roundOn env d tried i = .skipped := by
      unfold Request.roundOn
      rw [Request.covers_round env d q i (Config.not_enabled_iff.mp hen), ite_self]
    rw [Round.Drops, hskip] at hd
    cases hd.2

/-- A request that disables a replica and is no read explains it. -/
theorem writes_of_newlyDisabled (hquiet : ReadsPeacefully d (q, env))
    (ho : handle q env d = some o) {i : Fin n} (hnew : o.NewlyDisabled i d) : q.writes = true := by
  have hreads : q.reads = false := by
    by_contra hreads
    rw [Bool.not_eq_false] at hreads
    exact (leavesEnabled_iff_forall ho).mp ((leavesEnabled_iff hreads ho).mpr (hquiet hreads)) i
      hnew
  have hrel : q.releases = false := by
    rcases handle_cases ho with ⟨e, -, rfl⟩ | ⟨fh, fd, rfl, -, rfl⟩ | ⟨-, hrel, -⟩
    · exact absurd hnew.1 hnew.2
    · exact absurd hnew.1 hnew.2
    · exact hrel
  simp [Request.writes, hreads, hrel]

/-- The failure and the success that `disable_faulty_replicas` went by. -/
theorem failedOn_of_newlyDisabled (ho : handle q env d = some o) {i : Fin n}
    (hnew : o.NewlyDisabled i d) : FailedOn q env d o i ∧ ∃ j, j ≠ i ∧ o.CallOk j := by
  obtain ⟨hen, ⟨j, hj⟩, hf⟩ := (newlyDisabled_iff ho i).mp hnew
  refine ⟨hf, j, ?_, hj⟩
  rintro rfl
  rcases hf with hf | ⟨-, hnone⟩
  · exact not_callFailed_of_callOk ho hj hf
  · exact call_ne_none_of_tried ho hj.tried hnone

/-- **The policy is kept in a run without such reads.** By induction on the requests: either the
first one disables the replica, or a later one does. -/
theorem explained_of_meets {l : List (Request × Env n)} :
    ∀ {d₀ d : Daemon n}, Machine.Meets Daemon.step ReadsPeacefully d₀ l →
      Machine.runFrom Daemon.step d₀ l = some d → Explained d₀ l d := by
  induction l with
  | nil =>
      intro d₀ d _ hrun i hen hdis
      obtain rfl := Option.some.inj hrun
      exact absurd hen hdis
  | cons a l ih =>
      intro d₀ d hmeets hrun i hen hdis
      obtain ⟨q, env⟩ := a
      rw [Machine.runFrom_cons, Option.bind_eq_some_iff] at hrun
      obtain ⟨d₁, hstep, hrun⟩ := hrun
      obtain ⟨o, ho, rfl⟩ := Option.map_eq_some_iff.mp hstep
      by_cases hen₁ : o.daemon.config.enabled i
      · obtain ⟨l₁, q', env', l₂, d₂, o', rfl, hrun₁, h⟩ :=
          ih (hmeets.2 _ hstep) hrun i hen₁ hdis
        refine ⟨(q, env) :: l₁, q', env', l₂, d₂, o', rfl, ?_, h⟩
        rw [Machine.runFrom_cons, hstep]
        exact hrun₁
      · have hnew : o.NewlyDisabled i d₀ := ⟨hen, hen₁⟩
        obtain ⟨hfailed, hother⟩ := failedOn_of_newlyDisabled ho hnew
        exact ⟨[], q, env, l, d₀, o, rfl, rfl, ho, writes_of_newlyDisabled hmeets.1 ho hnew,
          hfailed, hother⟩

/-- **When the documented policy is kept.** In every run in which no read-type request is answered
after a replica failed it, every disabled replica failed a write-type request that another one
answered; and a read-type request leaves the flags alone exactly if it is not answered after a
failure. -/
theorem explained_iff {l : List (Request × Env n)} {d₀ d' : Daemon n}
    (hrun : Machine.runFrom Daemon.step d₀ l = some d') :
    (Machine.Meets Daemon.step ReadsPeacefully d₀ l → Explained d₀ l d') ∧
      ∀ q env o, q.reads = true → handle q env d' = some o →
        (LeavesEnabled d' o ↔ q.ReadsInPeace env d') :=
  ⟨fun hmeets => explained_of_meets hmeets hrun, fun _ _ _ => leavesEnabled_iff⟩

end policy

/-- A `mkdir` that fails on the second replica, and a `getattr` that nobody fails. -/
def loseThenRead : List (Request × Env 2) :=
  [(.mkdir fileF 0o755, secondFails {} EACCES), (.getattr fileF, plainEnv fun _ _ => .ok {})]

/-- The run loses a replica, and the `mkdir` explains it. -/
theorem explained_iff_mkdir :
    ∃ d, Machine.runFrom Daemon.step rootDaemon loseThenRead = some d ∧
      ¬ d.config.enabled 1 ∧ Explained rootDaemon loseThenRead d := by
  have hmeets : Machine.Meets Daemon.step ReadsPeacefully rootDaemon loseThenRead := by
    refine ⟨fun h => (by cases h), fun d hd => ⟨fun _ => ?_, fun _ _ => trivial⟩⟩
    obtain rfl := Option.some.inj hd
    exact Or.inr (Or.inl (by decide))
  refine ⟨_, rfl, ?_, (explained_iff rfl).1 hmeets⟩
  intro hen
  cases (show true = false from hen)

end ChironFs
