import ChironFs.Model.Sample
import ChironFs.Spec.Records
import ChironFs.Spec.Session

/-!
# The statistics

* `Session.writesOn`, `Session.writes`, `Session.readsOn`, `Session.reads`: the requests of a run that
  a replica stored, or answered, and those that returned no error.
* `Session.Exact`: the counters of the replicas are these numbers, modulo `2^64`.
* `statistics_exact`: so they are at the end of every run.
-/

namespace ChironFs

open Posix Replication

variable {n : ℕ}

namespace Session

/-- The request, past its early exits, was answered by replica `i`. -/
def answeredBy (s : Session n) (a : Request × Env n) (i : Fin n) : Bool :=
  (a.1.early a.2 s.daemon.config).isNone && (a.1.fates a.2 s.daemon i).isOk

/-- The request returns no error. -/
def returns (s : Session n) (a : Request × Env n) : Bool :=
  (handle a.1 a.2 s.daemon).any fun o => 0 ≤ o.response.ret

/-- The `write` requests of a run that replica `i` stored. -/
def writesOn (i : Fin n) : Session n → List (Request × Env n) → ℕ :=
  Machine.tally step fun s a => (a.1.countsWrites && s.answeredBy a i).toNat

/-- The `write` requests of a run that returned no error. -/
def writes : Session n → List (Request × Env n) → ℕ :=
  Machine.tally step fun s a => (a.1.countsWrites && s.returns a).toNat

/-- The `read` requests of a run that replica `i` answered. -/
def readsOn (i : Fin n) : Session n → List (Request × Env n) → ℕ :=
  Machine.tally step fun s a => (a.1.countsReads && s.answeredBy a i).toNat

/-- The `read` requests of a run that returned no error. -/
def reads : Session n → List (Request × Env n) → ℕ :=
  Machine.tally step fun s a => (a.1.countsReads && s.returns a).toNat

/-! ## One request -/

/-- What the account of the statistics needs of a state. -/
structure Countable (s : Session n) : Prop where
  inv : s.Inv
  rooted : s.Rooted
  wellFormed : s.daemon.config.WellFormed

section step

variable {s s' : Session n} {a : Request × Env n}

theorem Countable.step (hs : s.Countable) (h : s.step a = some s') : s'.Countable where
  inv := step_inv hs.inv h
  rooted := step_rooted hs.inv hs.rooted h
  wellFormed := by
    obtain ⟨-, o, ho, rfl⟩ := step_eq_some_iff.mp h
    exact (handle_sameLayout ho).wellFormed hs.wellFormed

/-- The counters after a request. -/
theorem record_of_step (h : s.step a = some s') (i : Fin n) :
    (s'.daemon.config.replicas i).totwr = (s.daemon.config.replicas i).totwr +
        UInt64.ofNat (a.1.countsWrites && s.answeredBy a i).toNat ∧
      (s'.daemon.config.replicas i).totrd = (s.daemon.config.replicas i).totrd +
        UInt64.ofNat (a.1.countsReads && s.answeredBy a i).toNat := by
  obtain ⟨-, o, ho, rfl⟩ := step_eq_some_iff.mp h
  have hif : ∀ b : Bool, (if b then 1 else 0 : UInt64) = UInt64.ofNat b.toNat := by
    intro b
    cases b <;> rfl
  rcases handle_cases ho with ⟨e, he, rfl⟩ | ⟨fh, fd, hq, -, rfl⟩ | ⟨he, hrel, -⟩
  · simp [answeredBy, he, Session.after, earlyOutcome, leave]
  · simp [hq, Request.countsWrites, Request.countsReads, Session.after, releaseOutcome, leave]
  · show (o.daemon.config.replicas i).totwr = _ ∧ (o.daemon.config.replicas i).totrd = _
    rw [handle_record hrel he ho, ← hif, ← hif]
    simp [answeredBy, he, Replica.drop, Replica.count]

/-- A request that a replica answers returns no error, unless it is an `open` or `create`. -/
theorem returns_of_answeredBy {i : Fin n} (hop : a.1.opens = false) (h : s.step a = some s')
    (hans : s.answeredBy a i = true) : s.returns a = true := by
  obtain ⟨-, o, ho, -⟩ := step_eq_some_iff.mp h
  rw [answeredBy, Bool.and_eq_true, Option.isNone_iff_eq_none] at hans
  rw [returns, ho, Option.any_some, decide_eq_true_eq]
  rcases handle_cases ho with ⟨e, he, rfl⟩ | ⟨fh, fd, hq, -, rfl⟩ | ⟨-, -, tried, hsv⟩
  · rw [hans.1] at he
    cases he
  · have hskip : a.1.fates a.2 s.daemon i = .skipped := by
      rw [hq, Request.fates_of_not_searches rfl, Request.round_eq_skipped_iff]
      exact ⟨by simp [Request.ask, Request.call, Config.guarded], fun h => by cases h⟩
    rw [hskip] at hans
    cases hans.2
  · obtain ⟨j, r, -, hresp⟩ := hsv.answered hop ⟨i, by rw [hsv.roundOn_eq]; exact hans.2⟩
    rw [hresp]
    exact a.1.respond_ret_nonneg r

/-- A request through a handle that returns no error was answered. -/
theorem succeeded_of_returns (hs : s.Countable) (h : s.step a = some s') {fh : ℕ}
    (hu : a.1.uses = some fh) (hrel : a.1.releases = false) (hret : s.returns a = true) :
    a.1.early a.2 s.daemon.config = none ∧ (a.1.fates a.2 s.daemon).Succeeded := by
  obtain ⟨hadm, o, ho, -⟩ := step_eq_some_iff.mp h
  rw [returns, ho, Option.any_some, decide_eq_true_eq] at hret
  rcases handle_cases ho with ⟨e, -, rfl⟩ | ⟨fh, fd, hq, -, rfl⟩ | ⟨he, -, tried, hsv⟩
  · exact absurd e.neg_lt_zero (not_lt.mpr hret)
  · rw [hq] at hrel
    cases hrel
  · refine ⟨he, ?_⟩
    by_contra hno
    obtain ⟨x, hx, -⟩ := exists_live_of_admits hadm hu
    rw [← hsv.roundOn_eq] at hno
    exact absurd hret (not_le.mpr (hsv.ret_neg_of_not_succeeded hs.wellFormed
      (hs.rooted (List.ne_nil_of_mem hx)) hs.inv.enabled
      (fun i hi => hs.inv.call_ne_none_of_uses hadm hrel hu hi) hno))

/-- **A `write` that returns no error** was stored by every replica that is still enabled after
it. -/
theorem answeredBy_of_write (hs : s.Countable) (h : s.step a = some s')
    (hw : a.1.countsWrites = true) (hret : s.returns a = true) {i : Fin n}
    (hen : s'.daemon.config.enabled i) : s.answeredBy a i = true := by
  obtain ⟨fh, hu⟩ := Request.uses_of_countsWrites hw
  obtain ⟨hse, hop, hrel, -⟩ := Request.kinds_of_countsWrites hw
  obtain ⟨he, hsucc⟩ := succeeded_of_returns hs h hu hrel hret
  obtain ⟨hadm, o, ho, rfl⟩ := step_eq_some_iff.mp h
  have hen₀ : s.daemon.config.enabled i := enabled_of_enabled ho hen
  have hrec := handle_record hrel he ho i
  have hdrop : ¬ (a.1.fates a.2 s.daemon).Drops i := by
    intro hdrop
    have hdis : (o.daemon.config.replicas i).disabled = true := by
      rw [hrec]
      simp [Replica.drop, hdrop]
    exact Config.not_enabled_iff.mpr hdis hen
  rw [Request.fates_of_not_searches hse] at hsucc hdrop
  rw [answeredBy, he, Option.isNone_none, Bool.true_and, Request.fates_of_not_searches hse]
  cases hR : a.1.round a.2 s.daemon i with
  | ok r => rfl
  | failed e => exact absurd (Round.drops_of_eq_failed hsucc hR) hdrop
  | skipped =>
      have hreach : a.1.Reaches a.2 s.daemon i :=
        ⟨hen₀, Or.inr (hs.inv.call_ne_none_of_uses hadm hrel hu hen₀)⟩
      exact absurd hR (Request.round_ne_skipped_iff.mpr hreach)

/-- **A `read` that returns no error** was answered by one replica. -/
theorem sum_answeredBy (hs : s.Countable) (h : s.step a = some s') :
    ∑ i, (a.1.countsReads && s.answeredBy a i).toNat =
      (a.1.countsReads && s.returns a).toNat := by
  cases hrd : a.1.countsReads with
  | false => simp
  | true =>
  simp only [Bool.true_and]
  obtain ⟨fh, hu⟩ := Request.uses_of_countsReads hrd
  have hse := Request.searches_of_countsReads hrd
  have hrel := Request.releases_of_searches hse
  cases hret : s.returns a with
  | false =>
      refine Finset.sum_eq_zero fun i _ => ?_
      cases hans : s.answeredBy a i with
      | false => rfl
      | true =>
          rw [returns_of_answeredBy (Request.opens_of_searches hse) h hans] at hret
          cases hret
  | true =>
      obtain ⟨he, j, hj⟩ := succeeded_of_returns hs h hu hrel hret
      obtain ⟨-, o, ho, -⟩ := step_eq_some_iff.mp h
      obtain ⟨-, -, c', ans, -, -, -, hend, -⟩ := handle_search hse he ho
      obtain ⟨r, rfl⟩ := (fates_isOk_iff hend j).mp hj
      have hans : ∀ i, s.answeredBy a i = decide (i = j) := by
        intro i
        rw [answeredBy, he, Option.isNone_none, Bool.true_and, Bool.eq_iff_iff,
          fates_isOk_iff hend i, decide_eq_true_eq]
        constructor
        · rintro ⟨r', hr'⟩
          exact (Prod.mk.inj (Option.some.inj hr')).1.symm
        · rintro rfl
          exact ⟨r, rfl⟩
      simp only [hans]
      rw [Finset.sum_eq_single j (fun i _ hi => by simp [hi]) (by simp)]
      simp

end step

/-! ## A run -/

/-- What the counters show in a state `s` that the requests `l` led to from `s₀`: every enabled
replica the writes that returned no error; any replica the writes it stored, which are not more;
all of them together the reads that returned no error. -/
structure Exact (s s₀ : Session n) (l : List (Request × Env n)) : Prop where
  enabled : ∀ i, s.daemon.config.enabled i →
    (s.daemon.config.replicas i).totwr = UInt64.ofNat (writes s₀ l)
  stored : ∀ i, (s.daemon.config.replicas i).totwr = UInt64.ofNat (writesOn i s₀ l) ∧
    writesOn i s₀ l ≤ writes s₀ l
  not_larger : writes s₀ l < 2 ^ 64 → ∀ i j, s.daemon.config.enabled i →
    (s.daemon.config.replicas j).totwr ≤ (s.daemon.config.replicas i).totwr
  answered : ∀ i, (s.daemon.config.replicas i).totrd = UInt64.ofNat (readsOn i s₀ l)
  read_once : ∑ i, readsOn i s₀ l = reads s₀ l
  sum_totrd : ∑ i, (s.daemon.config.replicas i).totrd = UInt64.ofNat (reads s₀ l)

/-- Counting modulo `2^64`. -/
def ofNatHom : ℕ →+ UInt64 where
  toFun := UInt64.ofNat
  map_zero' := rfl
  map_add' := UInt64.ofNat_add

/-- **The account of a run** that starts with all counters at zero. -/
theorem Countable.exact {s₀ s : Session n} {l : List (Request × Env n)} (h₀ : s₀.Countable)
    (hzero : ∀ i, (s₀.daemon.config.replicas i).totrd = 0 ∧ (s₀.daemon.config.replicas i).totwr = 0)
    (hrun : Machine.runFrom Session.step s₀ l = some s) : s.Exact s₀ l := by
  have hI : ∀ (s : Session n) a s', s.Countable → s.step a = some s' → s'.Countable :=
    fun _ _ _ hs h => hs.step h
  have hwr : ∀ i, (s.daemon.config.replicas i).totwr = UInt64.ofNat (writesOn i s₀ l) := by
    intro i
    rw [Machine.eq_add_tally (f := fun s => (s.daemon.config.replicas i).totwr) hI
      (fun _ _ _ _ h => (record_of_step h i).1) l s₀ s h₀ hrun, (hzero i).2, zero_add]
    exact (Machine.map_tally ofNatHom l s₀).symm
  have hrd : ∀ i, (s.daemon.config.replicas i).totrd = UInt64.ofNat (readsOn i s₀ l) := by
    intro i
    rw [Machine.eq_add_tally (f := fun s => (s.daemon.config.replicas i).totrd) hI
      (fun _ _ _ _ h => (record_of_step h i).2) l s₀ s h₀ hrun, (hzero i).1, zero_add]
    exact (Machine.map_tally ofNatHom l s₀).symm
  have hle : ∀ i, writesOn i s₀ l ≤ writes s₀ l := by
    intro i
    refine Machine.tally_le hI (fun s a s' _ h => ?_) l s₀ s h₀ hrun
    cases hw : a.1.countsWrites with
    | false => rfl
    | true =>
        rw [Bool.true_and, Bool.true_and]
        exact Bool.toNat_le_toNat (returns_of_answeredBy (Request.kinds_of_countsWrites hw).2.1 h)
  have heq : ∀ i, s.daemon.config.enabled i → writesOn i s₀ l = writes s₀ l := by
    intro i hen
    refine (Machine.tally_congr (E := fun s => s.daemon.config.enabled i) hI
      (fun s a s' hs h hen' => ⟨?_, ?_⟩) l s₀ s h₀ hrun hen).2
    · obtain ⟨-, o, ho, rfl⟩ := step_eq_some_iff.mp h
      exact enabled_of_enabled ho hen'
    · cases hw : a.1.countsWrites with
      | false => rfl
      | true =>
          rw [Bool.true_and, Bool.true_and]
          congr 1
          exact Bool.eq_iff_iff.mpr
            ⟨returns_of_answeredBy (Request.kinds_of_countsWrites hw).2.1 h,
              fun hret => answeredBy_of_write hs h hw hret hen'⟩
  have hsum : ∑ i, readsOn i s₀ l = reads s₀ l :=
    Machine.sum_tally hI (fun s a s' hs h => sum_answeredBy hs h) l s₀ s h₀ hrun
  refine ⟨fun i hen => by rw [hwr, heq i hen], fun i => ⟨hwr i, hle i⟩, ?_, hrd, hsum, ?_⟩
  · intro hlt i j hen
    rw [hwr i, hwr j, heq i hen, UInt64.le_iff_toNat_le,
      UInt64.toNat_ofNat_of_lt' (lt_of_le_of_lt (hle j) hlt), UInt64.toNat_ofNat_of_lt' hlt]
    exact hle j
  · rw [← hsum]
    simp only [hrd]
    exact (map_sum ofNatHom _ _).symm

end Session

/-- **The statistics are exact** at the end of every run on a mounted file system. -/
theorem statistics_exact {fs : Path} {menv : MountEnv} {uid gid : ℕ}
    {memory : ℕ → Option (Fin (maxReplica fs) → ℤ)} {c : Config (maxReplica fs)}
    (hc : doMount menv uid gid fs memory = some c) {s₀ s : Session (maxReplica fs)}
    {l : List (Request × Env (maxReplica fs))} (h₀ : s₀.StartsOn c)
    (hrun : Machine.runFrom Session.step s₀ l = some s) : s.Exact s₀ l := by
  have hm := doMount_mounted hc
  have hcount : s₀.Countable := by
    refine ⟨(hm.fresh h₀).inv, fun hlive => absurd h₀.2.1 hlive, ?_⟩
    rw [h₀.1]
    exact hm.wellFormed
  refine hcount.exact (fun i => ?_) hrun
  rw [h₀.1]
  exact counters_of_doMount hc i

/-- On `/a=:/b`: open `/f`; write a byte, which fails on `/b`; read it. -/
def writeThenRead : List (Request × Env (maxReplica listAB)) :=
  [(.open fileF 2, plainEnv fun i _ => .ok { ret := 5 + i.val }),
   (.write 238 [1] 0, plainEnv fun i _ => if i.val = 0 then .ok { ret := 1 } else .error EACCES),
   (.read 238 1 0, plainEnv fun _ _ => .ok { ret := 1, out := [1] })]

theorem statistics_exact_listAB :
    ∃ c : Config (maxReplica listAB), doMount plainMount 0 0 listAB (fun _ => none) = some c ∧
      ∃ s, Machine.runFrom Session.step { daemon := { config := c, creds := .ofUser 0 0 } }
          writeThenRead = some s ∧
        (s.daemon.config.replicas ⟨0, by decide⟩).totwr = 1 ∧
        s.Exact { daemon := { config := c, creds := .ofUser 0 0 } } writeThenRead := by
  obtain ⟨c, hc, s, hrun, hwr⟩ :
      ∃ c : Config (maxReplica listAB), doMount plainMount 0 0 listAB (fun _ => none) = some c ∧
        ∃ s, Machine.runFrom Session.step { daemon := { config := c, creds := .ofUser 0 0 } }
            writeThenRead = some s ∧ (s.daemon.config.replicas ⟨0, by decide⟩).totwr = 1 :=
    ⟨_, rfl, _, rfl, rfl⟩
  exact ⟨c, hc, s, hrun, hwr, statistics_exact hc ⟨rfl, rfl, rfl⟩ hrun⟩

end ChironFs
