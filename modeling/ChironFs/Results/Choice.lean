import ChironFs.Lib.Run
import ChironFs.Model.Sample
import ChironFs.Spec.Outcomes
import ChironFs.Spec.Tables

/-!
# When `choose_replica` can divide by zero

A request is killed (`handle` is `none`) exactly when a call of `choose_replica` takes a remainder
by zero or reads outside the filled part of a table.

* `Config.NeverKilled`: no request of any run from a configuration is killed.
* `ServesReads`: what a replica list must have for that.
* `killed_allLow`: a list all of whose replicas have low priority is killed by its first request.
* `neverKilled_iff`: the lists on which no request is killed.
-/

namespace ChironFs

open Posix Replication

variable {n : ℕ}

/-- In no state of any run from `c` is a request killed. -/
def Config.NeverKilled (c : Config n) : Prop :=
  ∀ d, Machine.ReachableBy Daemon.step (fun _ _ => True) (fun d => d.config = c) d →
    ∀ q env, (handle q env d).isSome = true

/-- The list names a replica of high priority, and besides either one of low priority or nothing
but replicas. -/
def ServesReads (fs : Path) : Prop :=
  (∃ p ∈ components fs, p ≠ [] ∧ p.head? ≠ some lowMark) ∧
    ((∃ p ∈ components fs, p.head? = some lowMark) ∨ ∀ p ∈ components fs, p ≠ [])

/-- The replica list `:/a=:/b`. -/
def listLowAB : Path := [58, 47, 97, 61, 58, 47, 98]

/-- `:/a=:/b` is accepted, and the first `getattr` takes a remainder by zero. -/
theorem killed_allLow :
    ∃ c : Config (maxReplica listLowAB),
      separator ∈ listLowAB ∧ doMount plainMount 0 0 listLowAB (fun _ => none) = some c ∧
        handle (.getattr fileF) (plainEnv fun _ _ => .ok {}) { config := c, creds := .ofUser 0 0 } =
          none ∧ ¬ c.NeverKilled := by
  refine ⟨_, by decide, rfl, rfl, ?_⟩
  intro hnever
  cases hnever { config := _, creds := .ofUser 0 0 } (.start rfl) (.getattr fileF)
    (plainEnv fun _ _ => .ok {})

/-! ## Without an answer all tries are made -/

/-- A caller whose request finds memory for its error list and none for a name. -/
def namelessEnv : Env n := { plainEnv fun _ _ => .ok {} with malloc := fun _ _ => false }

@[simp] theorem namelessEnv_calloc (k : ℕ) : (namelessEnv : Env n).calloc k = true := rfl

/-- A `getattr` that can name no replica makes all its tries. -/
theorem choices_isSome_of_nameless {d : Daemon n}
    (h : (handle (.getattr fileF) namelessEnv d).isSome = true) :
    (d.config.choices (List.range n)).isSome = true := by
  have hnone : (fun i : Fin n => (namelessEnv.xlate d.config fileF i).map Call.lstat) =
      fun _ => none := by
    funext i
    cases hp : (d.config.replicas i).path <;> simp [Env.xlate, xlate, namelessEnv, hp]
  have hloop : (firstLoop namelessEnv (dropPriv (namelessEnv : Env n) d.creds).creds (fun _ => none)
      (List.range n) d.config {}).isSome = true := by
    by_contra hno
    rw [Bool.not_eq_true, Option.isSome_eq_false_iff, Option.isNone_iff_eq_none] at hno
    have hkilled : handle (.getattr fileF) namelessEnv d = none := by
      simp only [handle, chironGetattr, onFirstReplica, hnone, namelessEnv_calloc,
        Bool.true_eq_false, if_false, Option.bind_eq_bind]
      rw [hno]
      rfl
    rw [hkilled] at h
    cases h
  exact choices_isSome_of_firstLoop hloop

/-- **On a configuration with well-formed tables**: no request is killed when there is a
high-priority replica and either a low-priority one or no try behind the high-priority ones. -/
theorem Config.WellFormed.neverKilled_iff_pos {c : Config n} (hc : c.WellFormed) (hn : 0 < n) :
    c.NeverKilled ↔ 0 < c.maxReplicaHigh ∧ (0 < c.maxReplicaLow ∨ n ≤ c.maxReplicaHigh) := by
  constructor
  · intro hnever
    have hsome := choices_isSome_of_nameless (d := { config := c, creds := .ofUser 0 0 })
      (hnever _ (.start rfl) _ _)
    obtain ⟨⟨l, c'⟩, hl⟩ := Option.isSome_iff_exists.mp hsome
    obtain ⟨hzero, hhigh⟩ := pos_of_choices hl
    refine ⟨hzero (List.mem_range.mpr hn), ?_⟩
    by_cases hle : n ≤ c.maxReplicaHigh
    · exact Or.inr hle
    · exact Or.inl (hhigh (List.mem_range.mpr (not_le.mp hle)))
  · rintro ⟨hpos, htries⟩ d hd q env
    have hlay : c.SameLayout d.config := by
      refine hd.invariant (I := fun d => c.SameLayout d.config) ?_ ?_
      · rintro d rfl
        exact .refl _
      · rintro d ⟨q, env⟩ d' - hlay hstep
        obtain ⟨o, ho, rfl⟩ := Option.map_eq_some_iff.mp hstep
        exact hlay.trans (handle_sameLayout ho)
    cases hse : q.searches with
    | false => exact handle_isSome_of_not_searches hse env d
    | true =>
        refine handle_isSome_of_choices hse env ((hlay.wellFormed hc).choices_isSome ?_ ?_)
        · rw [hlay.maxReplicaHigh]
          exact hpos
        · intro k hk
          rw [hlay.maxReplicaHigh, hlay.maxReplicaLow]
          exact htries.imp_right (List.mem_range.mp hk).trans_le

/-! ## Replica lists -/

section lists

variable {fs : Path} {menv : MountEnv} {uid gid : ℕ}
  {memory : ℕ → Option (Fin (maxReplica fs) → ℤ)} {c : Config (maxReplica fs)}

theorem mem_tokens {p : Path} : p ∈ tokens fs ↔ p ∈ components fs ∧ p ≠ [] := by
  simp [tokens]

theorem exists_high_iff (hc : doMount menv uid gid fs memory = some c) :
    0 < c.maxReplicaHigh ↔ ∃ p ∈ components fs, p ≠ [] ∧ p.head? ≠ some lowMark := by
  rw [(doMount_mounted hc).high_eq, List.countP_pos_iff]
  simp only [mem_tokens, isLow, and_assoc]
  simp

theorem exists_low_iff (hc : doMount menv uid gid fs memory = some c) :
    0 < c.maxReplicaLow ↔ ∃ p ∈ components fs, p.head? = some lowMark := by
  rw [maxReplicaLow_of_doMount hc, List.countP_pos_iff]
  simp only [mem_tokens, isLow, decide_eq_true_eq, and_assoc]
  refine exists_congr fun p => and_congr_right fun _ => ⟨And.right, fun h => ⟨?_, h⟩⟩
  rintro rfl
  cases h

/-- Without a low-priority replica, the tries stay among the high-priority ones if the list has no
empty component. -/
theorem le_maxReplicaHigh_iff (hc : doMount menv uid gid fs memory = some c)
    (hlow : c.maxReplicaLow = 0) :
    maxReplica fs ≤ c.maxReplicaHigh ↔ ∀ p ∈ components fs, p ≠ [] := by
  have hlen : c.maxReplicaHigh = (tokens fs).length := by
    have hsum := List.length_eq_countP_add_countP isLow (l := tokens fs)
    rw [← maxReplicaLow_of_doMount hc, hlow, Nat.zero_add] at hsum
    rw [(doMount_mounted hc).high_eq, hsum]
    apply List.countP_congr
    simp
  rw [hlen, ← length_tokens_eq_iff]
  exact ⟨(length_tokens_le fs).antisymm, Eq.ge⟩

/-- **Which replica lists are safe.** On a mounted file system no request of any run is killed in
`choose_replica` exactly if the list names a high-priority replica, and also a low-priority one
unless it has no empty component. -/
theorem neverKilled_iff (hc : doMount menv uid gid fs memory = some c) :
    c.NeverKilled ↔ ServesReads fs := by
  rw [(doMount_mounted hc).wellFormed.neverKilled_iff_pos (Nat.succ_pos _), ServesReads,
    exists_high_iff hc]
  apply and_congr_right
  intro _
  rcases Nat.eq_zero_or_pos c.maxReplicaLow with h₀ | hpos
  · rw [← exists_low_iff hc, le_maxReplicaHigh_iff hc h₀]
  · exact iff_of_true (Or.inl hpos) (Or.inl ((exists_low_iff hc).mp hpos))

end lists

/-- On `/a=:/b` no request is killed. -/
theorem neverKilled_iff_listAB :
    ∃ c : Config (maxReplica listAB),
      doMount plainMount 0 0 listAB (fun _ => none) = some c ∧ c.NeverKilled :=
  have hc : doMount plainMount 0 0 listAB (fun _ => none) = some _ := rfl
  ⟨_, hc, (neverKilled_iff hc).mpr (by unfold ServesReads; decide)⟩

end ChironFs
