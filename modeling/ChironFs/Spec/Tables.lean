import ChironFs.Model.Mount
import ChironFs.Spec.Requests

/-!
# The round-robin tables and the order they give

* `Config.WellFormed`: the two tables list every replica that has a path once, by priority.
* `doMount_mounted`: `do_mount` builds such tables, and every token becomes a replica with a path.
* `first_of_choices`, `firstLow_of_choices`: the two cursors across the tries of a request.
* `Config.order`: the high-priority table rotated to its cursor, then the low-priority one.
  `choices_range`: that is what `choose_replica(0 … max_replica-1)` answers.
-/

namespace ChironFs

variable {n : ℕ}

/-! ## Well-formed tables -/

/-- The tables list every replica that has a path once: the high-priority ones in the first, the
low-priority ones in the second. -/
structure Config.WellFormed (c : Config n) : Prop where
  high_length : c.roundRobinHigh.length = c.maxReplicaHigh
  low_length : c.roundRobinLow.length = c.maxReplicaLow
  nodup : (c.roundRobinHigh ++ c.roundRobinLow).Nodup
  mem_high : ∀ j, j ∈ c.roundRobinHigh ↔
    (c.replicas j).path ≠ none ∧ (c.replicas j).priority = false
  mem_low : ∀ j, j ∈ c.roundRobinLow ↔
    (c.replicas j).path ≠ none ∧ (c.replicas j).priority = true

/-- Every replica has a path. -/
def Config.AllNamed (c : Config n) : Prop := ∀ i, (c.replicas i).path ≠ none

/-- Tables stay well formed while the layout stays. -/
theorem Config.SameLayout.wellFormed {c c' : Config n} (h : c.SameLayout c') (hc : c.WellFormed) :
    c'.WellFormed where
  high_length := by rw [h.roundRobinHigh, h.maxReplicaHigh, hc.high_length]
  low_length := by rw [h.roundRobinLow, h.maxReplicaLow, hc.low_length]
  nodup := by rw [h.roundRobinHigh, h.roundRobinLow]; exact hc.nodup
  mem_high := fun j => by rw [h.roundRobinHigh, h.path, h.priority]; exact hc.mem_high j
  mem_low := fun j => by rw [h.roundRobinLow, h.path, h.priority]; exact hc.mem_low j

/-- The paths are part of the layout. -/
theorem Config.SameLayout.allNamed {c c' : Config n} (h : c.SameLayout c') (hc : c.AllNamed) :
    c'.AllNamed := fun i => by rw [h.path]; exact hc i

/-- With its memory, a request has a name for every replica. -/
theorem Env.names_of_malloc {c : Config n} {env : Env n} (hall : c.AllNamed)
    (hmalloc : ∀ i k, env.malloc i k = true) : env.Names c := fun i _ path k => by
  obtain ⟨r, hr⟩ := Option.ne_none_iff_exists'.mp (hall i)
  simp [Env.xlate, ChironFs.xlate, hr, hmalloc]

/-- When all replicas have a path, the tables list all of them. -/
theorem Config.WellFormed.perm_finRange {c : Config n} (hc : c.WellFormed) (hall : c.AllNamed) :
    (c.roundRobinHigh ++ c.roundRobinLow).Perm (List.finRange n) := by
  apply (List.perm_ext_iff_of_nodup hc.nodup (List.nodup_finRange n)).mpr
  intro j
  simp only [List.mem_append, List.mem_finRange, iff_true]
  cases hp : (c.replicas j).priority with
  | false => exact Or.inl ((hc.mem_high j).mpr ⟨hall j, hp⟩)
  | true => exact Or.inr ((hc.mem_low j).mpr ⟨hall j, hp⟩)

/-- Every replica is of high or of low priority. -/
theorem Config.WellFormed.sum_eq {c : Config n} (hc : c.WellFormed) (hall : c.AllNamed) :
    c.maxReplicaHigh + c.maxReplicaLow = n := by
  have := (hc.perm_finRange hall).length_eq
  rwa [List.length_append, hc.high_length, hc.low_length, List.length_finRange] at this

/-! ## What `do_mount` builds -/

/-- The invariant of the token loop: the tables are well formed and exactly the replicas below `i`
have a path. -/
structure Config.FilledTo (c : Config n) (i : ℕ) : Prop where
  wellFormed : c.WellFormed
  path_iff : ∀ j : Fin n, (c.replicas j).path ≠ none ↔ j.val < i

/-- Nothing is filled in at the start. -/
theorem blankConfig_filledTo (uid gid : ℕ) (size : UInt64) (memory : ℕ → Option (Fin n → ℤ)) :
    (blankConfig n uid gid size memory).FilledTo 0 where
  wellFormed :=
    { high_length := rfl
      low_length := rfl
      nodup := List.nodup_nil
      mem_high := fun j => by simp [blankConfig]
      mem_low := fun j => by simp [blankConfig] }
  path_iff := fun j => by simp [blankConfig]

/-- One token: the next replica gets its path and its place in a table. -/
theorem Config.FilledTo.addReplica {c : Config n} {i : ℕ} (hc : c.FilledTo i) (h : i < n)
    (low : Bool) (p : Path) : (c.addReplica ⟨i, h⟩ low p).FilledTo (i + 1) := by
  obtain ⟨⟨hhl, hll, hnd, hmh, hml⟩, hpi⟩ := hc
  have hnone : (c.replicas ⟨i, h⟩).path = none := by
    have := (hpi ⟨i, h⟩).not.mpr (lt_irrefl i)
    simpa using this
  have hnh : (⟨i, h⟩ : Fin n) ∉ c.roundRobinHigh := fun hm => ((hmh _).mp hm).1 hnone
  have hnl : (⟨i, h⟩ : Fin n) ∉ c.roundRobinLow := fun hm => ((hml _).mp hm).1 hnone
  have hmem : (⟨i, h⟩ : Fin n) ∉ c.roundRobinHigh ++ c.roundRobinLow := fun hm =>
    (List.mem_append.mp hm).elim hnh hnl
  constructor
  · cases low with
    | true =>
        refine ⟨hhl, by simp [Config.addReplica, enroll, setReplica, hll], ?_, ?_, ?_⟩
        · show (c.roundRobinHigh ++ (c.roundRobinLow ++ [(⟨i, h⟩ : Fin n)])).Nodup
          rw [← List.append_assoc]
          exact List.nodup_append.mpr ⟨hnd, List.nodup_singleton _, fun a ha b hb => by
            rintro rfl
            exact hmem (List.mem_singleton.mp hb ▸ ha)⟩
        · intro j
          by_cases hj : j = ⟨i, h⟩
          · subst hj; simp [Config.addReplica, enroll, setReplica, hnh]
          · simp [Config.addReplica, enroll, setReplica, hj, hmh]
        · intro j
          by_cases hj : j = ⟨i, h⟩
          · subst hj; simp [Config.addReplica, enroll, setReplica]
          · simp [Config.addReplica, enroll, setReplica, hj, hml]
    | false =>
        refine ⟨by simp [Config.addReplica, enroll, setReplica, hhl], hll, ?_, ?_, ?_⟩
        · show ((c.roundRobinHigh ++ [(⟨i, h⟩ : Fin n)]) ++ c.roundRobinLow).Nodup
          rw [List.append_assoc, List.singleton_append]
          exact List.nodup_middle.mpr (List.nodup_cons.mpr ⟨hmem, hnd⟩)
        · intro j
          by_cases hj : j = ⟨i, h⟩
          · subst hj; simp [Config.addReplica, enroll, setReplica]
          · simp [Config.addReplica, enroll, setReplica, hj, hmh]
        · intro j
          by_cases hj : j = ⟨i, h⟩
          · subst hj; simp [Config.addReplica, enroll, setReplica, hnl]
          · simp [Config.addReplica, enroll, setReplica, hj, hml]
  · intro j
    by_cases hj : j = ⟨i, h⟩
    · subst hj
      simp [Config.addReplica]
    · have hval : j.val ≠ i := fun he => hj (Fin.ext he)
      have hrep : (c.addReplica ⟨i, h⟩ low p).replicas j = c.replicas j := by
        cases low <;> simp [Config.addReplica, enroll, hj]
      rw [hrep, hpi]
      omega

/-- What the token loop leaves alone. -/
structure Config.SameRest (c c' : Config n) : Prop where
  disabled : ∀ i, (c'.replicas i).disabled = (c.replicas i).disabled
  tabFd : c'.tabFd = c.tabFd
  fdBufSize : c'.fdBufSize = c.fdBufSize
  uid : c'.uid = c.uid
  gid : c'.gid = c.gid

/-- One more replica leaves the others. -/
theorem Config.sameRest_addReplica (c : Config n) (i : Fin n) (low : Bool) (p : Path) :
    c.SameRest (c.addReplica i low p) := by
  refine ⟨fun j => ?_, ?_, ?_, ?_, ?_⟩
  · by_cases hj : j = i
    · subst hj; simp [addReplica]
    · cases low <;> simp [addReplica, enroll, hj]
  all_goals cases low <;> rfl

/-- It is counted when it is of high priority. -/
theorem Config.maxReplicaHigh_addReplica (c : Config n) (i : Fin n) (low : Bool) (p : Path) :
    (c.addReplica i low p).maxReplicaHigh = c.maxReplicaHigh + if low then 0 else 1 := by
  cases low <;> rfl

/-- The first token, then those that follow it. -/
theorem replicaLoop_cons_eq_some {realpath : Path → Option Path} {token : Path}
    {rest : List Path} {i : ℕ} {c c' : Config n} :
    replicaLoop realpath (token :: rest) i c = some c' ↔
      ∃ h : i < n, ∃ p, realpath (tokenPath token) = some p ∧
        replicaLoop realpath rest (i + 1) (c.addReplica ⟨i, h⟩ (isLow token) p) = some c' := by
  rw [replicaLoop]
  by_cases h : i < n
  · rw [dif_pos h]
    cases realpath (tokenPath token) <;> simp [h]
  · simp [h]

/-- The token loop, by induction on the tokens left. -/
theorem replicaLoop_filledTo {realpath : Path → Option Path} {l : List Path} {i : ℕ}
    {c c' : Config n} (hc : c.FilledTo i) (h : replicaLoop realpath l i c = some c') :
    c'.FilledTo (i + l.length) ∧ c.SameRest c' ∧
      c'.maxReplicaHigh = c.maxReplicaHigh + l.countP fun t => !isLow t := by
  induction l generalizing i c with
  | nil =>
      cases h
      exact ⟨hc, ⟨fun _ => rfl, rfl, rfl, rfl, rfl⟩, by simp⟩
  | cons token rest ih =>
      obtain ⟨hi, p, -, hrest⟩ := replicaLoop_cons_eq_some.mp h
      obtain ⟨hfill, hsame, hhigh⟩ := ih (hc.addReplica hi (isLow token) p) hrest
      have h₁ := c.sameRest_addReplica ⟨i, hi⟩ (isLow token) p
      refine ⟨?_, ⟨fun j => (hsame.disabled j).trans (h₁.disabled j),
        hsame.tabFd.trans h₁.tabFd, hsame.fdBufSize.trans h₁.fdBufSize,
        hsame.uid.trans h₁.uid, hsame.gid.trans h₁.gid⟩, ?_⟩
      · rw [List.length_cons]
        convert hfill using 1
        omega
      · rw [hhigh, c.maxReplicaHigh_addReplica, List.countP_cons]
        cases isLow token
        · simp only [Bool.not_false, Bool.false_eq_true, if_false, if_true]
          omega
        · simp

/-- The tokens of low priority are counted. -/
theorem replicaLoop_maxReplicaLow {realpath : Path → Option Path} {l : List Path} {i : ℕ}
    {c c' : Config n} (h : replicaLoop realpath l i c = some c') :
    c'.maxReplicaLow = c.maxReplicaLow + l.countP isLow := by
  induction l generalizing i c with
  | nil =>
      cases h
      rfl
  | cons token rest ih =>
      obtain ⟨hi, p, -, hrest⟩ := replicaLoop_cons_eq_some.mp h
      have hadd : (c.addReplica ⟨i, hi⟩ (isLow token) p).maxReplicaLow =
          c.maxReplicaLow + if isLow token then 1 else 0 := by
        cases isLow token <;> rfl
      rw [ih hrest, hadd, List.countP_cons]
      omega

/-- The loop counts the bytes of every path it enters. -/
theorem replicaLoop_pathlen {realpath : Path → Option Path} {l : List Path} {i : ℕ}
    {c c' : Config n} (hc : ∀ j, (c.replicas j).pathlen = ((c.replicas j).path.getD []).length)
    (h : replicaLoop realpath l i c = some c') (j : Fin n) :
    (c'.replicas j).pathlen = ((c'.replicas j).path.getD []).length := by
  induction l generalizing i c with
  | nil =>
      cases h
      exact hc j
  | cons token rest ih =>
      obtain ⟨hi, p, -, hrest⟩ := replicaLoop_cons_eq_some.mp h
      refine ih (fun j' => ?_) hrest
      by_cases hj : j' = ⟨i, hi⟩
      · subst hj
        simp [Config.addReplica]
      · cases isLow token <;> simp [Config.addReplica, Config.enroll, hj, hc j']

/-- The loop counts nothing. -/
theorem replicaLoop_counters {realpath : Path → Option Path} {l : List Path} {i : ℕ}
    {c c' : Config n} (h : replicaLoop realpath l i c = some c') (j : Fin n) :
    (c'.replicas j).totrd = (c.replicas j).totrd ∧
      (c'.replicas j).totwr = (c.replicas j).totwr := by
  induction l generalizing i c with
  | nil =>
      cases h
      exact ⟨rfl, rfl⟩
  | cons token rest ih =>
      obtain ⟨hi, p, -, hrest⟩ := replicaLoop_cons_eq_some.mp h
      obtain ⟨hrd, hwr⟩ := ih hrest
      rw [hrd, hwr]
      by_cases hj : j = ⟨i, hi⟩
      · subst hj
        cases isLow token <;> simp [Config.addReplica, Config.enroll]
      · cases isLow token <;> simp [Config.addReplica, Config.enroll, hj]

/-- A configuration is what the token loop makes of the blank one. -/
theorem exists_loop_of_doMount {env : MountEnv} {uid gid : ℕ} {fs : Path}
    {memory : ℕ → Option (Fin (maxReplica fs) → ℤ)} {c : Config (maxReplica fs)}
    (h : doMount env uid gid fs memory = some c) :
    ∃ size, env.rlimCur.bind (fdBufSizeFor · (maxReplica fs)) = some size ∧
      replicaLoop env.realpath (tokens fs) 0
        (blankConfig (maxReplica fs) uid gid size memory) = some c := by
  simp only [doMount, Option.bind_eq_bind, Option.bind_eq_some_iff] at h
  obtain ⟨rlimCur, hcur, size, hsize, h⟩ := h
  split_ifs at h
  exact ⟨size, by rw [hcur, Option.bind_some, hsize], h⟩

/-- **What `do_mount` builds**: well-formed tables, all replicas enabled, an empty handle table. -/
structure Config.Mounted (c : Config n) (fs : Path) (uid gid : ℕ) : Prop where
  wellFormed : c.WellFormed
  path_iff : ∀ j : Fin n, (c.replicas j).path ≠ none ↔ j.val < (tokens fs).length
  high_eq : c.maxReplicaHigh = (tokens fs).countP fun t => !isLow t
  enabled : ∀ i, c.enabled i
  table_empty : ∀ k < c.fdBufSize.toNat, c.tabFd k = none
  uid_eq : c.uid = uid
  gid_eq : c.gid = gid

/-- What `do_mount` leaves is a mounted configuration. -/
theorem doMount_mounted {env : MountEnv} {uid gid : ℕ} {fs : Path}
    {memory : ℕ → Option (Fin (maxReplica fs) → ℤ)} {c : Config (maxReplica fs)}
    (h : doMount env uid gid fs memory = some c) : c.Mounted fs uid gid := by
  obtain ⟨size, -, h⟩ := exists_loop_of_doMount h
  obtain ⟨hfill, hsame, hhigh⟩ := replicaLoop_filledTo
    (blankConfig_filledTo uid gid size memory) h
  rw [Nat.zero_add] at hfill
  refine ⟨hfill.wellFormed, hfill.path_iff, ?_, fun i => hsame.disabled i, ?_, hsame.uid,
    hsame.gid⟩
  · rw [hhigh]
    exact Nat.zero_add _
  · intro k hk
    rw [hsame.tabFd]
    rw [hsame.fdBufSize] at hk
    exact if_pos hk

/-- The low-priority table has the tokens that carry the mark. -/
theorem maxReplicaLow_of_doMount {env : MountEnv} {uid gid : ℕ} {fs : Path}
    {memory : ℕ → Option (Fin (maxReplica fs) → ℤ)} {c : Config (maxReplica fs)}
    (h : doMount env uid gid fs memory = some c) : c.maxReplicaLow = (tokens fs).countP isLow := by
  obtain ⟨size, -, h⟩ := exists_loop_of_doMount h
  rw [replicaLoop_maxReplicaLow h]
  exact Nat.zero_add _

/-- The path a replica has is the one whose bytes were counted. -/
theorem pathlen_of_doMount {env : MountEnv} {uid gid : ℕ} {fs : Path}
    {memory : ℕ → Option (Fin (maxReplica fs) → ℤ)} {c : Config (maxReplica fs)}
    (h : doMount env uid gid fs memory = some c) (j : Fin (maxReplica fs)) :
    (c.replicas j).pathlen = ((c.replicas j).path.getD []).length := by
  obtain ⟨size, -, h⟩ := exists_loop_of_doMount h
  exact replicaLoop_pathlen (fun _ => rfl) h j

/-- The statistics start at zero. -/
theorem counters_of_doMount {env : MountEnv} {uid gid : ℕ} {fs : Path}
    {memory : ℕ → Option (Fin (maxReplica fs) → ℤ)} {c : Config (maxReplica fs)}
    (h : doMount env uid gid fs memory = some c) (j : Fin (maxReplica fs)) :
    (c.replicas j).totrd = 0 ∧ (c.replicas j).totwr = 0 := by
  obtain ⟨size, -, h⟩ := exists_loop_of_doMount h
  exact replicaLoop_counters h j

/-- A list without an empty component gives every replica a path. -/
theorem Config.Mounted.allNamed {fs : Path} {uid gid : ℕ} {c : Config (maxReplica fs)}
    (h : c.Mounted fs uid gid) (hfs : ∀ p ∈ components fs, p ≠ []) : c.AllNamed := by
  intro j
  rw [h.path_iff, tokens_eq_components hfs, length_components]
  exact j.isLt

/-- A component without the low-priority mark makes a high-priority replica. -/
theorem Config.Mounted.high_pos {fs : Path} {uid gid : ℕ} {c : Config n}
    (h : c.Mounted fs uid gid) (hfs : ∀ p ∈ components fs, p ≠ [])
    (hhigh : ∃ p ∈ components fs, p.head? ≠ some lowMark) : 0 < c.maxReplicaHigh := by
  rw [h.high_eq, tokens_eq_components hfs, List.countP_pos_iff]
  obtain ⟨p, hp, hlow⟩ := hhigh
  exact ⟨p, hp, by simpa [isLow] using hlow⟩

/-! ## The order of the tries -/

/-- The order in which one request asks the replicas: each table rotated to its moved cursor, the
high-priority one first. -/
def Config.order (c : Config n) : List (Fin n) :=
  c.roundRobinHigh.rotate ((c.currReplicaHigh + 1) % c.maxReplicaHigh) ++
    c.roundRobinLow.rotate ((c.currReplicaLow + 1) % c.maxReplicaLow)

namespace Config

variable {c : Config n}

/-- Choices one after another. -/
theorem choices_append {ks₁ ks₂ : List ℕ} {c₁ c₂ : Config n} {l₁ l₂ : List (Fin n)}
    (h₁ : c.choices ks₁ = some (l₁, c₁)) (h₂ : c₁.choices ks₂ = some (l₂, c₂)) :
    c.choices (ks₁ ++ ks₂) = some (l₁ ++ l₂, c₂) := by
  induction ks₁ generalizing c l₁ with
  | nil =>
      cases h₁
      exact h₂
  | cons k ks ih =>
      obtain ⟨i, c', is, hk, hks, rfl⟩ := choices_cons_eq_some.mp h₁
      exact choices_cons_eq_some.mpr ⟨i, c', is ++ l₂, hk, ih hks, rfl⟩

/-- Tries one after another. -/
theorem choices_append_inv {ks₁ ks₂ : List ℕ} {c' : Config n} {l : List (Fin n)}
    (h : c.choices (ks₁ ++ ks₂) = some (l, c')) :
    ∃ l₁ c₁ l₂, c.choices ks₁ = some (l₁, c₁) ∧ c₁.choices ks₂ = some (l₂, c') ∧ l = l₁ ++ l₂ := by
  induction ks₁ generalizing c l with
  | nil => exact ⟨[], c, l, rfl, h, rfl⟩
  | cons k ks ih =>
      obtain ⟨i, c₀, is, hk, hks, rfl⟩ := choices_cons_eq_some.mp h
      obtain ⟨l₁, c₁, l₂, h₁, h₂, rfl⟩ := ih hks
      exact ⟨i :: l₁, c₁, l₂, choices_cons_eq_some.mpr ⟨i, c₀, l₁, hk, h₁, rfl⟩, h₂, rfl⟩

/-- Tries that move no cursor. -/
theorem choices_of_forall₂ {ks : List ℕ} {l : List (Fin n)}
    (h : List.Forall₂ (fun k x => c.chooseReplica k = some (x, c)) ks l) :
    c.choices ks = some (l, c) := by
  induction h with
  | nil => rfl
  | cons hk _ ih => exact choices_cons_eq_some.mpr ⟨_, c, _, hk, ih, rfl⟩

/-- The first try: the next high replica, whose cursor moves. -/
theorem chooseReplica_zero (hpos : 0 < c.maxReplicaHigh) {x : Fin n}
    (hx : c.roundRobinHigh[(c.currReplicaHigh + 1) % c.maxReplicaHigh]? = some x) :
    c.chooseReplica 0 =
      some (x, { c with currReplicaHigh := (c.currReplicaHigh + 1) % c.maxReplicaHigh }) := by
  simp [chooseReplica, advanceHigh, advanceLow, hpos, hpos.ne', hpos.ne, hx]

/-- Further tries among the high replicas. -/
theorem chooseReplica_high {k : ℕ} (h₀ : 0 < k) (hk : k < c.maxReplicaHigh) {x : Fin n}
    (hx : c.roundRobinHigh[(c.currReplicaHigh + k) % c.maxReplicaHigh]? = some x) :
    c.chooseReplica k = some (x, c) := by
  simp [chooseReplica, advanceHigh, advanceLow, h₀.ne', hk, hk.ne, hx]

/-- The first try among the low replicas moves their cursor. -/
theorem chooseReplica_boundary (hpos : 0 < c.maxReplicaHigh) (hlow : 0 < c.maxReplicaLow)
    {x : Fin n} (hx : c.roundRobinLow[(c.currReplicaLow + 1) % c.maxReplicaLow]? = some x) :
    c.chooseReplica c.maxReplicaHigh =
      some (x, { c with currReplicaLow := (c.currReplicaLow + 1) % c.maxReplicaLow }) := by
  simp [chooseReplica, advanceHigh, advanceLow, hpos.ne', hlow.ne', hx]

/-- Further tries among the low ones. -/
theorem chooseReplica_low {m : ℕ} (hm : 0 < m) (hlow : 0 < c.maxReplicaLow) {x : Fin n}
    (hx : c.roundRobinLow[(c.currReplicaLow + m) % c.maxReplicaLow]? = some x) :
    c.chooseReplica (c.maxReplicaHigh + m) = some (x, c) := by
  have hsub : c.currReplicaLow + (c.maxReplicaHigh + m) - c.maxReplicaHigh =
      c.currReplicaLow + m := by omega
  simp [chooseReplica, advanceHigh, advanceLow, hm.ne', hlow.ne', hsub, hx]

/-- A rotated table, read entry by entry with the index reduced to the table's length. -/
theorem exists_rotate_eq_cons {α : Type*} {l : List α} (h : 0 < l.length) (a b : ℕ) :
    ∃ x xs, l.rotate a = x :: xs ∧ l[a % l.length]? = some x ∧
      List.Forall₂ (fun k y => ∃ m, 0 < m ∧ m < l.length ∧ k = b + m ∧
        l[(a + m) % l.length]? = some y) (List.range' (b + 1) (l.length - 1)) xs := by
  have hlen : (l.rotate a).length = l.length := l.length_rotate a
  cases hr : l.rotate a with
  | nil => rw [hr] at hlen; simp [← hlen] at h
  | cons x xs =>
      rw [hr, List.length_cons] at hlen
      have hget : ∀ m, m < l.length → l[(a + m) % l.length]? = (x :: xs)[m]? := by
        intro m hm
        rw [← hr, List.getElem?_rotate hm, Nat.add_comm]
      refine ⟨x, xs, rfl, by simpa using hget 0 h, List.forall₂_iff_get.mpr ⟨?_, ?_⟩⟩
      · rw [List.length_range']
        omega
      · intro i h₁ h₂
        have hi : i + 1 < l.length := by omega
        refine ⟨i + 1, by omega, hi, by simp [List.getElem_range']; omega, ?_⟩
        rw [hget (i + 1) hi]
        simp [h₂]

/-- The tries at the high-priority replicas. -/
theorem choices_high (hc : c.WellFormed) (hpos : 0 < c.maxReplicaHigh) :
    c.choices (List.range' 0 c.maxReplicaHigh) =
      some (c.roundRobinHigh.rotate ((c.currReplicaHigh + 1) % c.maxReplicaHigh),
        { c with currReplicaHigh := (c.currReplicaHigh + 1) % c.maxReplicaHigh }) := by
  obtain ⟨h, hh⟩ : ∃ h, c.maxReplicaHigh = h + 1 := ⟨c.maxReplicaHigh - 1, by omega⟩
  obtain ⟨x, xs, hr, hx, hxs⟩ := exists_rotate_eq_cons (hc.high_length ▸ hpos)
    ((c.currReplicaHigh + 1) % c.maxReplicaHigh) 0
  rw [hc.high_length] at hx hxs
  rw [Nat.mod_mod] at hx
  have hrange : List.range' 0 c.maxReplicaHigh = 0 :: List.range' 1 (c.maxReplicaHigh - 1) := by
    rw [hh, List.range'_succ, Nat.add_sub_cancel]
  rw [hr, hrange]
  refine choices_cons_eq_some.mpr ⟨x, _, xs, chooseReplica_zero hpos hx, ?_, rfl⟩
  refine choices_of_forall₂ (hxs.imp ?_)
  rintro k y ⟨m, hm, hlt, rfl, hy⟩
  rw [Nat.zero_add]
  exact chooseReplica_high
    (c := { c with currReplicaHigh := (c.currReplicaHigh + 1) % c.maxReplicaHigh }) hm hlt hy

/-- The tries at the low-priority replicas. -/
theorem choices_low (hc : c.WellFormed) (hpos : 0 < c.maxReplicaHigh)
    (hlow : 0 < c.maxReplicaLow) :
    c.choices (List.range' c.maxReplicaHigh c.maxReplicaLow) =
      some (c.roundRobinLow.rotate ((c.currReplicaLow + 1) % c.maxReplicaLow),
        { c with currReplicaLow := (c.currReplicaLow + 1) % c.maxReplicaLow }) := by
  obtain ⟨l, hl⟩ : ∃ l, c.maxReplicaLow = l + 1 := ⟨c.maxReplicaLow - 1, by omega⟩
  obtain ⟨x, xs, hr, hx, hxs⟩ := exists_rotate_eq_cons (hc.low_length ▸ hlow)
    ((c.currReplicaLow + 1) % c.maxReplicaLow) c.maxReplicaHigh
  rw [hc.low_length] at hx hxs
  rw [Nat.mod_mod] at hx
  have hrange : List.range' c.maxReplicaHigh c.maxReplicaLow =
      c.maxReplicaHigh :: List.range' (c.maxReplicaHigh + 1) (c.maxReplicaLow - 1) := by
    rw [hl, List.range'_succ, Nat.add_sub_cancel]
  rw [hr, hrange]
  refine choices_cons_eq_some.mpr ⟨x, _, xs, chooseReplica_boundary hpos hlow hx, ?_, rfl⟩
  refine choices_of_forall₂ (hxs.imp ?_)
  rintro k y ⟨m, hm, -, rfl, hy⟩
  exact chooseReplica_low
    (c := { c with currReplicaLow := (c.currReplicaLow + 1) % c.maxReplicaLow }) hm hlow hy

/-- The tries at the replicas of the two tables answer the two rotated tables, whatever the cursors
were. -/
theorem choices_tables (hc : c.WellFormed) (hpos : 0 < c.maxReplicaHigh) :
    ∃ c', c.choices (List.range (c.maxReplicaHigh + c.maxReplicaLow)) = some (c.order, c') := by
  have hsplit : List.range (c.maxReplicaHigh + c.maxReplicaLow) =
      List.range' 0 c.maxReplicaHigh ++ List.range' c.maxReplicaHigh c.maxReplicaLow := by
    rw [List.range_eq_range', ← List.range'_append_1, Nat.zero_add]
  rw [hsplit]
  have hhigh := choices_high hc hpos
  rcases Nat.eq_zero_or_pos c.maxReplicaLow with h0 | hlow
  · have hnil : c.roundRobinLow = [] := by
      rw [← List.length_eq_zero_iff, hc.low_length, h0]
    rw [order, hnil, List.rotate_nil, List.append_nil, h0, List.range'_zero, List.append_nil]
    exact ⟨_, hhigh⟩
  · have hc' : { c with
        currReplicaHigh := (c.currReplicaHigh + 1) % c.maxReplicaHigh }.WellFormed :=
      (SameLayout.of_cursors (c := c) ⟨_, _, rfl⟩).wellFormed hc
    exact ⟨_, choices_append hhigh (choices_low hc' hpos hlow)⟩

/-- **The tries of one request**, when every replica has a path. -/
theorem choices_range (hc : c.WellFormed) (hall : c.AllNamed) (hpos : 0 < c.maxReplicaHigh) :
    ∃ c', c.choices (List.range n) = some (c.order, c') := by
  obtain ⟨c', h⟩ := choices_tables hc hpos
  exact ⟨c', by rwa [hc.sum_eq hall] at h⟩

/-- Every replica is asked once. -/
theorem WellFormed.order_perm (hc : c.WellFormed) (hall : c.AllNamed) :
    c.order.Perm (List.finRange n) := by
  unfold order
  exact ((List.rotate_perm _ _).append (List.rotate_perm _ _)).trans (hc.perm_finRange hall)

/-- `choose_replica(0)` is killed when there is no high-priority replica. -/
theorem high_pos_of_chooseReplica {i : Fin n} {c' : Config n}
    (h : c.chooseReplica 0 = some (i, c')) : 0 < c.maxReplicaHigh := by
  rcases Nat.eq_zero_or_pos c.maxReplicaHigh with h₀ | hpos
  · simp [chooseReplica, advanceHigh, h₀] at h
  · exact hpos

/-- `choose_replica(k)` is killed behind the high-priority replicas when there is no other. -/
theorem low_pos_of_chooseReplica {k : ℕ} {i : Fin n} {c' : Config n}
    (h : c.chooseReplica k = some (i, c')) (hk : k = c.maxReplicaHigh) : 0 < c.maxReplicaLow := by
  rcases Nat.eq_zero_or_pos c.maxReplicaLow with h₀ | hpos
  · have hhigh : ∀ {c₁ : Config n}, c.advanceHigh k = some c₁ → c₁.advanceLow k = none := by
      intro c₁ h₁
      obtain ⟨_, _, rfl⟩ := advanceHigh_sameButCursors h₁
      simp [advanceLow, hk, h₀]
    simp only [chooseReplica, Option.bind_eq_bind, Option.bind_eq_some_iff] at h
    obtain ⟨c₁, h₁, c₂, h₂, -⟩ := h
    rw [hhigh h₁] at h₂
    cases h₂
  · exact hpos

/-- **When a try is answered**: there is a high-priority replica, and a low-priority one if the
try goes behind the high-priority ones. -/
theorem WellFormed.chooseReplica_isSome (hc : c.WellFormed) {k : ℕ} (hpos : 0 < c.maxReplicaHigh)
    (hk : 0 < c.maxReplicaLow ∨ k < c.maxReplicaHigh) : (c.chooseReplica k).isSome = true := by
  have hget : ∀ {l : List (Fin n)} {m : ℕ}, l.length = m → 0 < m → ∀ a, ∃ x, l[a % m]? = some x := by
    rintro l m rfl hm a
    exact ⟨_, List.getElem?_eq_getElem (Nat.mod_lt a hm)⟩
  have hhigh := hget hc.high_length hpos
  rcases Nat.lt_trichotomy k c.maxReplicaHigh with hlt | rfl | hgt
  · rcases Nat.eq_zero_or_pos k with rfl | h₀
    · obtain ⟨x, hx⟩ := hhigh (c.currReplicaHigh + 1)
      rw [chooseReplica_zero hpos hx]
      rfl
    · obtain ⟨x, hx⟩ := hhigh (c.currReplicaHigh + k)
      rw [chooseReplica_high h₀ hlt hx]
      rfl
  · have hlow := hk.resolve_right (lt_irrefl _)
    obtain ⟨x, hx⟩ := hget hc.low_length hlow (c.currReplicaLow + 1)
    rw [chooseReplica_boundary hpos hlow hx]
    rfl
  · have hlow := hk.resolve_right hgt.not_gt
    obtain ⟨m, rfl⟩ := Nat.exists_eq_add_of_lt hgt
    obtain ⟨x, hx⟩ := hget hc.low_length hlow (c.currReplicaLow + (m + 1))
    rw [Nat.add_assoc, chooseReplica_low m.succ_pos hlow hx]
    rfl

/-- **When all tries are answered.** -/
theorem WellFormed.choices_isSome (hc : c.WellFormed) {ks : List ℕ} (hpos : 0 < c.maxReplicaHigh)
    (hks : ∀ k ∈ ks, 0 < c.maxReplicaLow ∨ k < c.maxReplicaHigh) :
    (c.choices ks).isSome = true := by
  induction ks generalizing c with
  | nil => rfl
  | cons k ks ih =>
      obtain ⟨⟨i, c₁⟩, hi⟩ := Option.isSome_iff_exists.mp
        (hc.chooseReplica_isSome hpos (hks k List.mem_cons_self))
      have hcur := chooseReplica_sameButCursors hi
      have hrest : (c₁.choices ks).isSome = true := by
        apply ih ((SameLayout.of_cursors hcur).wellFormed hc)
        · rw [(SameLayout.of_cursors hcur).maxReplicaHigh]
          exact hpos
        · rw [(SameLayout.of_cursors hcur).maxReplicaHigh,
            (SameLayout.of_cursors hcur).maxReplicaLow]
          exact fun j hj => hks j (List.mem_cons_of_mem k hj)
      obtain ⟨⟨is, c₂⟩, his⟩ := Option.isSome_iff_exists.mp hrest
      simp [choices, hi, his]

/-- Every try that was answered found what it needs. -/
theorem pos_of_choices {ks : List ℕ} {l : List (Fin n)} {c' : Config n}
    (h : c.choices ks = some (l, c')) :
    (0 ∈ ks → 0 < c.maxReplicaHigh) ∧ (c.maxReplicaHigh ∈ ks → 0 < c.maxReplicaLow) := by
  induction ks generalizing c l with
  | nil => simp
  | cons k ks ih =>
      obtain ⟨i, c₁, is, h₁, h₂, rfl⟩ := choices_cons_eq_some.mp h
      have hlay := SameLayout.of_cursors (chooseReplica_sameButCursors h₁)
      obtain ⟨hzero, hhigh⟩ := ih h₂
      rw [hlay.maxReplicaHigh] at hzero hhigh
      rw [hlay.maxReplicaLow] at hhigh
      constructor
      · intro hmem
        rcases List.mem_cons.mp hmem with rfl | hmem
        · exact high_pos_of_chooseReplica h₁
        · exact hzero hmem
      · intro hmem
        rcases List.mem_cons.mp hmem with heq | hmem
        · exact low_pos_of_chooseReplica h₁ heq.symm
        · exact hhigh hmem

/-- The two tables have at most as many entries as there are replicas. -/
theorem WellFormed.sum_le (hc : c.WellFormed) : c.maxReplicaHigh + c.maxReplicaLow ≤ n := by
  have hlen := hc.nodup.length_le_card
  rwa [List.length_append, hc.high_length, hc.low_length, Fintype.card_fin] at hlen

/-- A request that makes all its tries asks everybody who has a path. -/
theorem WellFormed.mem_of_choices (hc : c.WellFormed) {l : List (Fin n)} {c' : Config n}
    (h : c.choices (List.range n) = some (l, c')) {i : Fin n} (hi : (c.replicas i).path ≠ none) :
    i ∈ l := by
  have hpos : 0 < c.maxReplicaHigh :=
    (pos_of_choices h).1 (List.mem_range.mpr (Nat.zero_lt_of_lt i.isLt))
  obtain ⟨c₁, htables⟩ := choices_tables hc hpos
  obtain ⟨m, hm⟩ := Nat.exists_eq_add_of_le hc.sum_le
  have hsplit : ∀ k, k = c.maxReplicaHigh + c.maxReplicaLow + m → List.range k =
      List.range (c.maxReplicaHigh + c.maxReplicaLow) ++
        List.range' (c.maxReplicaHigh + c.maxReplicaLow) m := by
    rintro k rfl
    rw [List.range_add, List.range'_eq_map_range]
  rw [hsplit n hm] at h
  obtain ⟨l₁, c₂, l₂, h₁, -, rfl⟩ := choices_append_inv h
  obtain rfl : c.order = l₁ := (Prod.mk.inj (Option.some.inj (htables.symm.trans h₁))).1
  apply List.mem_append_left
  unfold order
  rw [List.mem_append, List.mem_rotate, List.mem_rotate]
  cases hp : (c.replicas i).priority with
  | false => exact Or.inl ((hc.mem_high i).mpr ⟨hi, hp⟩)
  | true => exact Or.inr ((hc.mem_low i).mpr ⟨hi, hp⟩)

/-! ## The replica of a try -/

/-- The replica that try `k` asks while the cursors stand still. -/
def tryReplica (c : Config n) (k : ℕ) : Option (Fin n) :=
  if k < c.maxReplicaHigh then
    c.roundRobinHigh[(c.currReplicaHigh + k) % c.maxReplicaHigh]?
  else c.roundRobinLow[(c.currReplicaLow + k - c.maxReplicaHigh) % c.maxReplicaLow]?

/-- Only try `0` moves the high-priority cursor. -/
theorem advanceHigh_eq {k : ℕ} {c' : Config n} (h : c.advanceHigh k = some c') :
    ∃ x, c' = { c with currReplicaHigh := x } ∧ (k ≠ 0 → x = c.currReplicaHigh) := by
  unfold advanceHigh at h
  split_ifs at h with h₀
  · cases h
    exact ⟨_, rfl, fun hk => absurd h₀ hk⟩
  · cases h
    exact ⟨_, rfl, fun _ => rfl⟩

/-- Only the first try behind the high-priority replicas moves the low-priority cursor. -/
theorem advanceLow_eq {k : ℕ} {c' : Config n} (h : c.advanceLow k = some c') :
    ∃ y, c' = { c with currReplicaLow := y } ∧ (k ≠ c.maxReplicaHigh → y = c.currReplicaLow) := by
  unfold advanceLow at h
  split_ifs at h with hk
  · cases h
    exact ⟨_, rfl, fun hne => absurd hk hne⟩
  · cases h
    exact ⟨_, rfl, fun _ => rfl⟩

/-- `choose_replica` moves its cursors first and then answers from where they are. -/
theorem chooseReplica_eq {k : ℕ} {i : Fin n} {c' : Config n}
    (h : c.chooseReplica k = some (i, c')) :
    c'.tryReplica k = some i ∧ (k ≠ 0 → c'.currReplicaHigh = c.currReplicaHigh) ∧
      (k ≠ c.maxReplicaHigh → c'.currReplicaLow = c.currReplicaLow) := by
  simp only [chooseReplica, Option.bind_eq_bind, Option.bind_eq_some_iff] at h
  obtain ⟨c₁, h₁, c₂, h₂, h⟩ := h
  obtain ⟨x, rfl, hx⟩ := advanceHigh_eq h₁
  obtain ⟨y, rfl, hy⟩ := advanceLow_eq h₂
  split_ifs at h with hk hlow
  · obtain ⟨r, hr, h⟩ := Option.bind_eq_some_iff.mp h
    cases h
    exact ⟨by rw [tryReplica, if_pos hk]; exact hr, hx, hy⟩
  · obtain ⟨r, hr, h⟩ := Option.bind_eq_some_iff.mp h
    cases h
    exact ⟨by rw [tryReplica, if_neg hk]; exact hr, hx, hy⟩

/-- Every try has one choice. -/
theorem length_of_choices {ks : List ℕ} {l : List (Fin n)} {c' : Config n}
    (h : c.choices ks = some (l, c')) : l.length = ks.length := by
  induction ks generalizing c l with
  | nil => cases h; rfl
  | cons k ks ih =>
      obtain ⟨i, c₁, is, -, hks, rfl⟩ := choices_cons_eq_some.mp h
      rw [List.length_cons, List.length_cons, ih hks]

/-- Tries other than the first leave the high-priority cursor. -/
theorem currReplicaHigh_of_choices {ks : List ℕ} {l : List (Fin n)} {c' : Config n}
    (h : c.choices ks = some (l, c')) (hks : 0 ∉ ks) :
    c'.currReplicaHigh = c.currReplicaHigh := by
  induction ks generalizing c l with
  | nil => cases h; rfl
  | cons k ks ih =>
      obtain ⟨i, c₁, is, hk, hrest, rfl⟩ := choices_cons_eq_some.mp h
      obtain ⟨hne, hks⟩ := not_or.mp (List.mem_cons.not.mp hks)
      exact (ih hrest hks).trans ((chooseReplica_eq hk).2.1 (Ne.symm hne))

/-- Tries other than the first behind the high-priority replicas leave the low-priority cursor. -/
theorem currReplicaLow_of_choices {ks : List ℕ} {l : List (Fin n)} {c' : Config n}
    (h : c.choices ks = some (l, c')) (hks : c.maxReplicaHigh ∉ ks) :
    c'.currReplicaLow = c.currReplicaLow := by
  induction ks generalizing c l with
  | nil => cases h; rfl
  | cons k ks ih =>
      obtain ⟨i, c₁, is, hk, hrest, rfl⟩ := choices_cons_eq_some.mp h
      obtain ⟨hne, hks⟩ := not_or.mp (List.mem_cons.not.mp hks)
      have hhigh := (SameLayout.of_cursors (chooseReplica_sameButCursors hk)).maxReplicaHigh
      exact (ih hrest (hhigh ▸ hks)).trans ((chooseReplica_eq hk).2.2 (Ne.symm hne))

/-- Try `0` moves the high-priority cursor by one and asks the replica it then stands at. -/
theorem WellFormed.of_chooseReplica_zero (hc : c.WellFormed) {i : Fin n} {c' : Config n}
    (h : c.chooseReplica 0 = some (i, c')) :
    c.roundRobinHigh[(c.currReplicaHigh + 1) % c.maxReplicaHigh]? = some i ∧
      c'.currReplicaHigh = (c.currReplicaHigh + 1) % c.maxReplicaHigh := by
  have hpos := high_pos_of_chooseReplica h
  have hlt : (c.currReplicaHigh + 1) % c.maxReplicaHigh < c.roundRobinHigh.length :=
    (Nat.mod_lt _ hpos).trans_eq hc.high_length.symm
  rw [chooseReplica_zero hpos (List.getElem?_eq_getElem hlt)] at h
  obtain ⟨rfl, rfl⟩ := Prod.mk.inj (Option.some.inj h)
  exact ⟨List.getElem?_eq_getElem hlt, rfl⟩

/-- The first try behind the high-priority replicas does the same with the low-priority ones. -/
theorem WellFormed.of_chooseReplica_boundary (hc : c.WellFormed) (hpos : 0 < c.maxReplicaHigh)
    {i : Fin n} {c' : Config n} (h : c.chooseReplica c.maxReplicaHigh = some (i, c')) :
    c.roundRobinLow[(c.currReplicaLow + 1) % c.maxReplicaLow]? = some i ∧
      c'.currReplicaLow = (c.currReplicaLow + 1) % c.maxReplicaLow := by
  have hlow := low_pos_of_chooseReplica h rfl
  have hlt : (c.currReplicaLow + 1) % c.maxReplicaLow < c.roundRobinLow.length :=
    (Nat.mod_lt _ hlow).trans_eq hc.low_length.symm
  rw [chooseReplica_boundary hpos hlow (List.getElem?_eq_getElem hlt)] at h
  obtain ⟨rfl, rfl⟩ := Prod.mk.inj (Option.some.inj h)
  exact ⟨List.getElem?_eq_getElem hlt, rfl⟩

/-- **The first try of a request** and the high-priority cursor behind all its tries. -/
theorem WellFormed.first_of_choices (hc : c.WellFormed) {m : ℕ} {l : List (Fin n)} {c' : Config n}
    (h : c.choices (List.range (m + 1)) = some (l, c')) :
    l[0]? = c.roundRobinHigh[(c.currReplicaHigh + 1) % c.maxReplicaHigh]? ∧
      c'.currReplicaHigh = (c.currReplicaHigh + 1) % c.maxReplicaHigh := by
  have hrange : List.range (m + 1) = 0 :: List.range' 1 m := by
    rw [List.range_eq_range', List.range'_succ]
  rw [hrange] at h
  obtain ⟨i, c₁, is, hi, his, rfl⟩ := choices_cons_eq_some.mp h
  obtain ⟨hget, hcur⟩ := hc.of_chooseReplica_zero hi
  exact ⟨hget.symm, (currReplicaHigh_of_choices his (by simp)).trans hcur⟩

/-- **The first try behind the high-priority replicas** and the low-priority cursor behind all tries
of the request, whether or not it gets there. -/
theorem WellFormed.firstLow_of_choices (hc : c.WellFormed) (hpos : 0 < c.maxReplicaHigh) {m : ℕ}
    {l : List (Fin n)} {c' : Config n} (h : c.choices (List.range m) = some (l, c')) :
    (l[c.maxReplicaHigh]? = none ∧ c'.currReplicaLow = c.currReplicaLow) ∨
      ∃ i, l[c.maxReplicaHigh]? = some i ∧
        c.roundRobinLow[(c.currReplicaLow + 1) % c.maxReplicaLow]? = some i ∧
        c'.currReplicaLow = (c.currReplicaLow + 1) % c.maxReplicaLow := by
  rcases Nat.lt_or_ge c.maxReplicaHigh m with hlt | hge
  · obtain ⟨k, rfl⟩ := Nat.exists_eq_add_of_lt hlt
    have hrange : List.range (c.maxReplicaHigh + k + 1) = List.range c.maxReplicaHigh ++
        c.maxReplicaHigh :: List.range' (c.maxReplicaHigh + 1) k := by
      rw [← List.range'_succ, Nat.add_assoc, List.range_eq_range', List.range_eq_range',
        ← List.range'_append_1, Nat.zero_add]
    rw [hrange] at h
    obtain ⟨l₁, c₁, l₂, h₁, h₂, rfl⟩ := choices_append_inv h
    obtain ⟨i, c₂, is, hi, his, rfl⟩ := choices_cons_eq_some.mp h₂
    have hlay := SameLayout.of_cursors (choices_sameButCursors h₁)
    have hlay₂ := SameLayout.of_cursors (chooseReplica_sameButCursors hi)
    have hlen : l₁.length = c.maxReplicaHigh :=
      (length_of_choices h₁).trans List.length_range
    have hcur₁ : c₁.currReplicaLow = c.currReplicaLow := currReplicaLow_of_choices h₁ (by simp)
    rw [← hlay.maxReplicaHigh] at hi
    obtain ⟨hget, hcur₂⟩ := (hlay.wellFormed hc).of_chooseReplica_boundary
      (by rw [hlay.maxReplicaHigh]; exact hpos) hi
    rw [hlay.roundRobinLow, hlay.maxReplicaLow, hcur₁] at hget
    rw [hlay.maxReplicaLow, hcur₁] at hcur₂
    refine Or.inr ⟨i, ?_, hget, (currReplicaLow_of_choices his ?_).trans hcur₂⟩
    · rw [← hlen, List.getElem?_append_right le_rfl, Nat.sub_self]
      rfl
    · rw [hlay₂.maxReplicaHigh, hlay.maxReplicaHigh]
      simp
  · refine Or.inl ⟨List.getElem?_eq_none ?_, currReplicaLow_of_choices h (by simpa using hge)⟩
    rw [length_of_choices h, List.length_range]
    exact hge

/-- A try reads one cursor. -/
theorem SameButCursors.tryReplica_eq {c' : Config n} (h : c.SameButCursors c') {k : ℕ}
    (hhigh : k < c.maxReplicaHigh → c'.currReplicaHigh = c.currReplicaHigh)
    (hlow : c.maxReplicaHigh ≤ k → c'.currReplicaLow = c.currReplicaLow) :
    c'.tryReplica k = c.tryReplica k := by
  obtain ⟨x, y, rfl⟩ := h
  unfold tryReplica
  by_cases hk : k < c.maxReplicaHigh
  · rw [if_pos hk, if_pos hk, hhigh hk]
  · rw [if_neg hk, if_neg hk, hlow (not_lt.mp hk)]

/-- An entry of a table is reached from any cursor. -/
theorem exists_offset {l : List (Fin n)} {j : Fin n} (hj : j ∈ l) (a : ℕ) :
    ∃ m < l.length, l[(a + m) % l.length]? = some j := by
  obtain ⟨m, hm, hget⟩ := List.mem_iff_getElem.mp (List.mem_rotate.mpr hj : j ∈ l.rotate a)
  rw [List.length_rotate] at hm
  refine ⟨m, hm, ?_⟩
  rw [Nat.add_comm, ← List.getElem?_rotate hm, List.getElem?_eq_getElem (by simpa using hm), hget]

/-- Wherever the cursor stands, some try among the high-priority ones asks a given replica. -/
theorem WellFormed.exists_try_high (hc : c.WellFormed) {j : Fin n} (hj : j ∈ c.roundRobinHigh) :
    ∃ k < c.maxReplicaHigh, c.tryReplica k = some j := by
  obtain ⟨m, hm, hget⟩ := exists_offset hj c.currReplicaHigh
  rw [hc.high_length] at hm hget
  exact ⟨m, hm, by rw [tryReplica, if_pos hm, hget]⟩

/-- Every low replica has its try. -/
theorem WellFormed.exists_try_low (hc : c.WellFormed) {j : Fin n} (hj : j ∈ c.roundRobinLow) :
    ∃ k, c.maxReplicaHigh ≤ k ∧ k < c.maxReplicaHigh + c.maxReplicaLow ∧
      c.tryReplica k = some j := by
  obtain ⟨m, hm, hget⟩ := exists_offset hj c.currReplicaLow
  rw [hc.low_length] at hm hget
  have hsub : c.currReplicaLow + (c.maxReplicaHigh + m) - c.maxReplicaHigh =
      c.currReplicaLow + m := by omega
  exact ⟨c.maxReplicaHigh + m, by omega, by omega, by
    rw [tryReplica, if_neg (by omega), hsub, hget]⟩

/-- At the first try every replica is still to come. -/
theorem WellFormed.exists_try (hc : c.WellFormed) (hall : c.AllNamed) (j : Fin n) :
    ∃ k < n, c.tryReplica k = some j := by
  have hsum := hc.sum_eq hall
  rcases List.mem_append.mp ((hc.perm_finRange hall).mem_iff.mpr (List.mem_finRange j)) with hj | hj
  · obtain ⟨k, hk, htry⟩ := hc.exists_try_high hj
    exact ⟨k, by omega, htry⟩
  · obtain ⟨k, -, hk, htry⟩ := hc.exists_try_low hj
    exact ⟨k, by omega, htry⟩

/-- **A call of `choose_replica` leaves the replicas that are still to come**, for a request that is
at try `m` and so neither among the high-priority tries when their cursor moves, nor among the
low-priority ones when theirs does. -/
theorem WellFormed.exists_try_of_chooseReplica (hc : c.WellFormed) (hall : c.AllNamed) {k m : ℕ}
    {i j : Fin n} {c' : Config n} (h : c.chooseReplica k = some (i, c'))
    (hhigh : k = 0 → m = 0 ∨ c.maxReplicaHigh ≤ m) (hlow : k = c.maxReplicaHigh → m ≤ k)
    (hj : ∃ p, m ≤ p ∧ p < n ∧ c.tryReplica p = some j) :
    ∃ p, m ≤ p ∧ p < n ∧ c'.tryReplica p = some j := by
  obtain ⟨-, hx, hy⟩ := chooseReplica_eq h
  have hcur := chooseReplica_sameButCursors h
  have hlay := SameLayout.of_cursors hcur
  have hc' := hlay.wellFormed hc
  have hsum := hc.sum_eq hall
  obtain ⟨p, hmp, hpn, hp⟩ := hj
  by_cases hph : p < c.maxReplicaHigh
  · by_cases hk : k = 0
    · -- the cursor moves at the first try of the request, or of another one that has not begun
      have hjhigh : j ∈ c'.roundRobinHigh := by
        rw [hlay.roundRobinHigh]
        rw [tryReplica, if_pos hph] at hp
        exact List.mem_of_getElem? hp
      obtain ⟨p', hp', htry⟩ := hc'.exists_try_high hjhigh
      rw [hlay.maxReplicaHigh] at hp'
      have hm := (hhigh hk).resolve_right (by omega)
      exact ⟨p', by omega, by omega, htry⟩
    · refine ⟨p, hmp, hpn, ?_⟩
      rw [hcur.tryReplica_eq (fun _ => hx hk) fun hle => absurd hph (not_lt.mpr hle)]
      exact hp
  · by_cases hk : k = c.maxReplicaHigh
    · have hjlow : j ∈ c'.roundRobinLow := by
        rw [hlay.roundRobinLow]
        rw [tryReplica, if_neg hph] at hp
        exact List.mem_of_getElem? hp
      obtain ⟨p', hp', hlt, htry⟩ := hc'.exists_try_low hjlow
      rw [hlay.maxReplicaHigh] at hp' hlt
      rw [hlay.maxReplicaLow] at hlt
      have hm := hlow hk
      exact ⟨p', by omega, by omega, htry⟩
    · refine ⟨p, hmp, hpn, ?_⟩
      rw [hcur.tryReplica_eq (fun hlt => absurd hlt hph) fun _ => hy hk]
      exact hp

end Config

end ChironFs
