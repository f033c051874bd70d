import ChironFs.Lib.Cycle
import ChironFs.Model.Sample
import ChironFs.Spec.Records

/-!
# Round robin is fair

* `Request.firstChoice`, `Request.firstLow`: the first replica a search asks, and the first of low
  priority where it gets so far.
* `currReplicaHigh_of_handle`, `currReplicaLow_of_handle`: a request moves a cursor by one exactly
  when it makes such a choice, and chooses what the cursor then stands at.
* `roundRobin_fair`: so over every stretch of whole rounds all replicas of a table are chosen
  equally often.
-/

namespace ChironFs

open Posix Replication

variable {n : ℕ}

namespace Request

variable (env : Env n) (d : Daemon n) (q : Request)

/-- The first replica asked by a request that enters the loop of the searches. -/
def firstChoice : Option (Fin n) :=
  if q.searches = true ∧ q.early env d.config = none then (q.tries env d)[0]? else none

/-- The first replica of low priority it asks, if it gets so far. -/
def firstLow : Option (Fin n) :=
  if q.searches = true ∧ q.early env d.config = none then
    (q.tries env d)[d.config.maxReplicaHigh]?
  else none

end Request

/-- The first choices along a run. -/
def firstChoices (d : Daemon n) (l : List (Request × Env n)) : List (Fin n) :=
  Machine.observe Daemon.step (fun d a => a.1.firstChoice a.2 d) d l

/-- The first low choices along a run. -/
def firstLows (d : Daemon n) (l : List (Request × Env n)) : List (Fin n) :=
  Machine.observe Daemon.step (fun d a => a.1.firstLow a.2 d) d l

/-! ## What a request does to the cursors -/

section step

variable {q : Request} {env : Env n} {d : Daemon n} {o : Outcome n}

/-- A search past its early exits: its tries, from the first on, and the cursors behind them. -/
theorem exists_tries (hn : 0 < n) (ho : handle q env d = some o) (hse : q.searches = true)
    (he : q.early env d.config = none) :
    ∃ m c', d.config.choices (List.range (m + 1)) = some (q.tries env d, c') ∧
      o.daemon.config.currReplicaHigh = c'.currReplicaHigh ∧
      o.daemon.config.currReplicaLow = c'.currReplicaLow := by
  rcases handle_cursors ho with
    ⟨-, -, ks₁, ks₂, c', ans, hks, hch, hnone, hend, hhigh, hlow⟩ | ⟨hno, -⟩
  · have hrange : ks₁ = List.range ks₁.length := by
      have htake : (List.range n).take ks₁.length = ks₁ := by rw [hks, List.take_left]
      have hle : ks₁.length ≤ n := by
        have := congrArg List.length hks
        rw [List.length_range, List.length_append] at this
        omega
      rw [List.take_range, min_eq_left hle] at htake
      exact htake.symm
    have hne : ks₁.length ≠ 0 := by
      intro h₀
      have htries : (q.tries env d).length = 0 := (Config.length_of_choices hch).trans h₀
      rw [List.length_eq_zero_iff] at h₀ htries
      cases ans with
      | none =>
          rw [h₀, hnone rfl] at hks
          have := congrArg List.length hks
          rw [List.length_range] at this
          exact hn.ne' this
      | some ar =>
          obtain ⟨-, l₀, hl, -⟩ := hend
          rw [htries] at hl
          exact List.append_ne_nil_of_right_ne_nil l₀ (List.cons_ne_nil _ _) hl.symm
    obtain ⟨m, hm⟩ := Nat.exists_eq_succ_of_ne_zero hne
    rw [hrange, hm] at hch
    exact ⟨m, c', hch, hhigh, hlow⟩
  · rcases hno with hno | hno
    · rw [hse] at hno
      cases hno
    · exact absurd he hno

/-- **The high-priority cursor** after a request. -/
theorem currReplicaHigh_of_handle (hwf : d.config.WellFormed) (hn : 0 < n)
    (ho : handle q env d = some o) :
    (∀ i, q.firstChoice env d = some i →
        d.config.roundRobinHigh[(d.config.currReplicaHigh + 1) % d.config.maxReplicaHigh]? = some i ∧
          o.daemon.config.currReplicaHigh =
            (d.config.currReplicaHigh + 1) % d.config.maxReplicaHigh) ∧
      (q.firstChoice env d = none →
        o.daemon.config.currReplicaHigh = d.config.currReplicaHigh) := by
  unfold Request.firstChoice
  split_ifs with hin
  · obtain ⟨m, c', hch, hhigh, -⟩ := exists_tries hn ho hin.1 hin.2
    obtain ⟨hget, hcur⟩ := hwf.first_of_choices hch
    refine ⟨fun i hi => ⟨hget.symm.trans hi, hhigh.trans hcur⟩, fun hnone => ?_⟩
    have hlen := Config.length_of_choices hch
    rw [List.getElem?_eq_none_iff, hlen, List.length_range] at hnone
    omega
  · refine ⟨fun _ hi => (by cases hi), fun _ => ?_⟩
    rcases handle_cursors ho with ⟨hse, he, -⟩ | ⟨-, hhigh, -⟩
    · exact absurd ⟨hse, he⟩ hin
    · exact hhigh

/-- **The low-priority cursor** after a request. -/
theorem currReplicaLow_of_handle (hwf : d.config.WellFormed) (hn : 0 < n)
    (hpos : 0 < d.config.maxReplicaHigh) (ho : handle q env d = some o) :
    (∀ i, q.firstLow env d = some i →
        d.config.roundRobinLow[(d.config.currReplicaLow + 1) % d.config.maxReplicaLow]? = some i ∧
          o.daemon.config.currReplicaLow =
            (d.config.currReplicaLow + 1) % d.config.maxReplicaLow) ∧
      (q.firstLow env d = none →
        o.daemon.config.currReplicaLow = d.config.currReplicaLow) := by
  unfold Request.firstLow
  split_ifs with hin
  · obtain ⟨m, c', hch, -, hlow⟩ := exists_tries hn ho hin.1 hin.2
    rcases hwf.firstLow_of_choices hpos hch with ⟨hnone, hcur⟩ | ⟨j, hj, hget, hcur⟩
    · rw [hnone]
      exact ⟨fun _ hi => (by cases hi), fun _ => hlow.trans hcur⟩
    · rw [hj]
      refine ⟨fun i hi => ?_, fun hnone => (by cases hnone)⟩
      obtain rfl := Option.some.inj hi
      exact ⟨hget, hlow.trans hcur⟩
  · refine ⟨fun _ hi => (by cases hi), fun _ => ?_⟩
    rcases handle_cursors ho with ⟨hse, he, -⟩ | ⟨-, -, hlow⟩
    · exact absurd ⟨hse, he⟩ hin
    · exact hlow

end step

/-! ## Whole runs -/

section run

variable {c : Config n} {d d' : Daemon n} {l : List (Request × Env n)}

/-- The tables do not change along a run. -/
theorem Daemon.step_sameLayout {a : Request × Env n} (h : d.step a = some d') :
    d.config.SameLayout d'.config := by
  obtain ⟨o, ho, rfl⟩ := Option.map_eq_some_iff.mp h
  exact handle_sameLayout ho

/-- The first choices of a run go round the table of high priority. -/
theorem cycles_firstChoices (hwf : c.WellFormed) (hn : 0 < n) (hlay : c.SameLayout d.config)
    (hrun : Machine.runFrom Daemon.step d l = some d') :
    Cycles c.roundRobinHigh (d.config.currReplicaHigh + 1) (firstChoices d l) := by
  refine Machine.cycles_observe (I := fun d => c.SameLayout d.config)
    (fun d => d.config.currReplicaHigh)
    (fun s a s' hI h => hI.trans (Daemon.step_sameLayout h)) ?_ ?_ l d d' hlay hrun
  · intro s a s' i hI h hi
    obtain ⟨o, ho, rfl⟩ := Option.map_eq_some_iff.mp h
    have hcur := (currReplicaHigh_of_handle (hI.wellFormed hwf) hn ho).1 i hi
    rwa [hI.roundRobinHigh, hI.maxReplicaHigh, ← hwf.high_length] at hcur
  · intro s a s' hI h hi
    obtain ⟨o, ho, rfl⟩ := Option.map_eq_some_iff.mp h
    exact (currReplicaHigh_of_handle (hI.wellFormed hwf) hn ho).2 hi

/-- The first low choices go round the other table, however many requests lie between them. -/
theorem cycles_firstLows (hwf : c.WellFormed) (hn : 0 < n) (hpos : 0 < c.maxReplicaHigh)
    (hlay : c.SameLayout d.config) (hrun : Machine.runFrom Daemon.step d l = some d') :
    Cycles c.roundRobinLow (d.config.currReplicaLow + 1) (firstLows d l) := by
  have hpos' : ∀ {s : Daemon n}, c.SameLayout s.config → 0 < s.config.maxReplicaHigh :=
    fun hI => hI.maxReplicaHigh ▸ hpos
  refine Machine.cycles_observe (I := fun d => c.SameLayout d.config)
    (fun d => d.config.currReplicaLow)
    (fun s a s' hI h => hI.trans (Daemon.step_sameLayout h)) ?_ ?_ l d d' hlay hrun
  · intro s a s' i hI h hi
    obtain ⟨o, ho, rfl⟩ := Option.map_eq_some_iff.mp h
    have hcur := (currReplicaLow_of_handle (hI.wellFormed hwf) hn (hpos' hI) ho).1 i hi
    rwa [hI.roundRobinLow, hI.maxReplicaLow, ← hwf.low_length] at hcur
  · intro s a s' hI h hi
    obtain ⟨o, ho, rfl⟩ := Option.map_eq_some_iff.mp h
    exact (currReplicaLow_of_handle (hI.wellFormed hwf) hn (hpos' hI) ho).2 hi

end run

section mounted

variable {fs : Path} {menv : MountEnv} {uid gid : ℕ}
  {memory : ℕ → Option (Fin (maxReplica fs) → ℤ)} {c : Config (maxReplica fs)}
  {d d' : Daemon (maxReplica fs)} {l : List (Request × Env (maxReplica fs))}

/-- **Round robin is fair** on every mounted file system, from every reachable state and along every
run: `k` rounds of consecutive first choices ask each high-priority replica first `k` times, and `k`
rounds of consecutive first low choices each low-priority one. -/
theorem roundRobin_fair (hfs : ∀ p ∈ components fs, p ≠ []) (hpos : 0 < c.maxReplicaHigh)
    (hc : doMount menv uid gid fs memory = some c)
    (hd : Machine.ReachableBy Daemon.step (fun _ _ => True) (fun d => d.config = c) d)
    (hrun : Machine.runFrom Daemon.step d l = some d') (k : ℕ) (w : List (Fin (maxReplica fs))) :
    (w <:+: firstChoices d l → w.length = k * c.maxReplicaHigh →
        ∀ j, (c.replicas j).priority = false → w.count j = k) ∧
      (w <:+: firstLows d l → w.length = k * c.maxReplicaLow →
        ∀ j, (c.replicas j).priority = true → w.count j = k) := by
  have hm := doMount_mounted hc
  have hwf := hm.wellFormed
  have hall := hm.allNamed hfs
  have hlay : c.SameLayout d.config := by
    refine hd.invariant (I := fun d => c.SameLayout d.config) ?_ ?_
    · rintro d rfl
      exact .refl _
    · exact fun s a s' _ hI h => hI.trans (Daemon.step_sameLayout h)
  obtain ⟨hndHigh, hndLow, -⟩ := List.nodup_append.mp hwf.nodup
  constructor
  · intro hw hlen j hj
    obtain ⟨b, hcyc⟩ := (cycles_firstChoices hwf (Nat.succ_pos _) hlay hrun).stretch hw
    rw [← hwf.high_length] at hlen
    rw [hcyc.count_eq hlen, List.count_eq_one_of_mem hndHigh ((hwf.mem_high j).mpr ⟨hall j, hj⟩),
      Nat.mul_one]
  · intro hw hlen j hj
    obtain ⟨b, hcyc⟩ := (cycles_firstLows hwf (Nat.succ_pos _) hpos hlay hrun).stretch hw
    rw [← hwf.low_length] at hlen
    rw [hcyc.count_eq hlen, List.count_eq_one_of_mem hndLow ((hwf.mem_low j).mpr ⟨hall j, hj⟩),
      Nat.mul_one]

end mounted

/-- A `getattr` that `/a` refuses and `/b` answers. -/
def secondAnswers : List (Request × Env (maxReplica listAB)) :=
  [(.getattr fileF, plainEnv fun i _ => if i.val = 0 then .error EACCES else .ok {})]

/-- On `/a=:/b` that request chooses each replica once, the one of low priority last. -/
theorem roundRobin_fair_listAB :
    ∃ c : Config (maxReplica listAB), doMount plainMount 0 0 listAB (fun _ => none) = some c ∧
      (firstChoices { config := c, creds := .ofUser 0 0 } secondAnswers).count ⟨0, by decide⟩ = 1 ∧
        (firstLows { config := c, creds := .ofUser 0 0 } secondAnswers).count ⟨1, by decide⟩ = 1 := by
  obtain ⟨c, hc, d', hrun, hhigh, hlow, hlenHigh, hlenLow, hpriHigh, hpriLow⟩ :
      ∃ c : Config (maxReplica listAB), doMount plainMount 0 0 listAB (fun _ => none) = some c ∧
        ∃ d', Machine.runFrom Daemon.step { config := c, creds := .ofUser 0 0 } secondAnswers =
            some d' ∧ c.maxReplicaHigh = 1 ∧ c.maxReplicaLow = 1 ∧
          (firstChoices { config := c, creds := .ofUser 0 0 } secondAnswers).length = 1 ∧
          (firstLows { config := c, creds := .ofUser 0 0 } secondAnswers).length = 1 ∧
          (c.replicas ⟨0, by decide⟩).priority = false ∧
            (c.replicas ⟨1, by decide⟩).priority = true :=
    ⟨_, rfl, _, rfl, rfl, rfl, by decide +kernel, by decide +kernel, rfl, rfl⟩
  have hfair := roundRobin_fair (by decide) (by rw [hhigh]; decide) hc (.start rfl) hrun 1
  refine ⟨c, hc, ?_, ?_⟩
  · exact (hfair _).1 (List.infix_refl _) (by rw [hlenHigh, hhigh]) _ hpriHigh
  · exact (hfair _).2 (List.infix_refl _) (by rw [hlenLow, hlow]) _ hpriLow

end ChironFs
