import Mathlib

/-!
# Scanning a slot table for a free slot

`scanFrom used bound i` is the loop `while (used[i] && i < bound) i++`: it walks up from `i` over
used slots and gives up at `bound`. The occupancy is a function on all of `ℕ`, so a table in a
larger memory is scanned without saying what lies behind it; `scanFrom_eq` is the loop's own
equation, in which the slot is looked at before the bound.

* `scanFrom_spec`: the slots walked over are used, the result is free unless the bound is reached.
* `FirstFree used size start k`: `k` is the first free slot of a table on the way round from `start`.
  `firstFree_up`, `firstFree_down`, `full_of_scans`: a scan up to the end of the table and one from
  its beginning find it.
-/

namespace Probe

variable {used : ℕ → Bool} {bound : ℕ}

/-- The walk, by recursion on the number of slots left before the bound. -/
def scanSteps (used : ℕ → Bool) : ℕ → ℕ → ℕ
  | 0, i => i
  | left + 1, i => if used i then scanSteps used left (i + 1) else i

/-- `while (used[i] && i < bound) i++`. -/
def scanFrom (used : ℕ → Bool) (bound i : ℕ) : ℕ := scanSteps used (bound - i) i

/-- The equation of the loop. -/
theorem scanFrom_eq (used : ℕ → Bool) (bound i : ℕ) :
    scanFrom used bound i =
      if used i && decide (i < bound) then scanFrom used bound (i + 1) else i := by
  unfold scanFrom
  by_cases hi : i < bound
  · obtain ⟨left, hleft⟩ : ∃ left, bound - i = left + 1 := ⟨bound - i - 1, by omega⟩
    have hnext : bound - (i + 1) = left := by omega
    rw [hleft, hnext]
    cases hu : used i <;> simp [scanSteps, hu, hi]
  · have hzero : bound - i = 0 := by omega
    simp [hzero, scanSteps, hi]

/-- What the walk establishes, by recursion on the slots left. -/
theorem scanSteps_spec (used : ℕ → Bool) (left i : ℕ) :
    i ≤ scanSteps used left i ∧ scanSteps used left i ≤ i + left ∧
      (∀ j, i ≤ j → j < scanSteps used left i → used j = true) ∧
      (scanSteps used left i < i + left → used (scanSteps used left i) = false) := by
  induction left generalizing i with
  | zero => exact ⟨le_rfl, le_rfl, fun j h₁ h₂ => absurd h₂ (not_lt.mpr h₁),
      fun h => absurd h (lt_irrefl i)⟩
  | succ left ih =>
      obtain ⟨hlo, hhi, hused, hfree⟩ := ih (i + 1)
      cases hu : used i with
      | false =>
          have hstop : scanSteps used (left + 1) i = i := by simp [scanSteps, hu]
          rw [hstop]
          exact ⟨le_rfl, by omega, fun j h₁ h₂ => absurd h₂ (not_lt.mpr h₁), fun _ => hu⟩
      | true =>
          have hnext : scanSteps used (left + 1) i = scanSteps used left (i + 1) := by
            simp [scanSteps, hu]
          rw [hnext]
          refine ⟨by omega, by omega, ?_, fun h => hfree (by omega)⟩
          intro j h₁ h₂
          rcases Nat.eq_or_lt_of_le h₁ with rfl | hlt
          · exact hu
          · exact hused j hlt h₂

/-- **The scan.** It stops at or after its start and not beyond the bound (or at the start, when
that is already beyond); everything it walked over is used; below the bound it stops on a free
slot. -/
theorem scanFrom_spec (used : ℕ → Bool) (bound i : ℕ) :
    i ≤ scanFrom used bound i ∧ scanFrom used bound i ≤ max i bound ∧
      (∀ j, i ≤ j → j < scanFrom used bound i → used j = true) ∧
      (scanFrom used bound i < bound → used (scanFrom used bound i) = false) := by
  obtain ⟨hlo, hhi, hused, hfree⟩ := scanSteps_spec used (bound - i) i
  refine ⟨hlo, ?_, hused, fun h => hfree ?_⟩
  · show scanSteps used (bound - i) i ≤ max i bound
    omega
  · have h' : scanSteps used (bound - i) i < bound := h
    omega

/-- Below the bound the scan stops on a free slot. -/
theorem free_of_scanFrom_lt {i : ℕ} (h : scanFrom used bound i < bound) :
    used (scanFrom used bound i) = false :=
  (scanFrom_spec used bound i).2.2.2 h

/-! ## Round the table -/

/-- How far slot `k` is from `start`, round a table of this size. -/
def ahead (size start k : ℕ) : ℕ := (k + size - start) % size

/-- The first free slot on the way round from `start`. -/
structure FirstFree (used : ℕ → Bool) (size start k : ℕ) : Prop where
  lt : k < size
  free : used k = false
  before : ∀ j < size, ahead size start j < ahead size start k → used j = true

section round

variable {size start k : ℕ}

theorem ahead_of_le (hk : start ≤ k) (hlt : k < size) : ahead size start k = k - start := by
  unfold ahead
  rw [show k + size - start = k - start + size by omega, Nat.add_mod_right]
  exact Nat.mod_eq_of_lt (by omega)

theorem ahead_of_lt (hk : k < start) (hlt : start ≤ size) :
    ahead size start k = k + size - start := Nat.mod_eq_of_lt (by omega)

/-- There is only one. -/
theorem FirstFree.unique {k' : ℕ} (hstart : start < size) (h : FirstFree used size start k)
    (h' : FirstFree used size start k') : k = k' := by
  have hle : ∀ {a b : ℕ}, FirstFree used size start a → FirstFree used size start b →
      ahead size start a ≤ ahead size start b := by
    intro a b ha hb
    by_contra hlt
    have hused := ha.before b hb.lt (not_le.mp hlt)
    rw [hb.free] at hused
    cases hused
  have heq := le_antisymm (hle h h') (hle h' h)
  have hk := h.lt
  have hk' := h'.lt
  rcases Nat.lt_or_ge k start with hlt | hge
  · rcases Nat.lt_or_ge k' start with hlt' | hge'
    · rw [ahead_of_lt hlt hstart.le, ahead_of_lt hlt' hstart.le] at heq
      omega
    · rw [ahead_of_lt hlt hstart.le, ahead_of_le hge' hk'] at heq
      omega
  · rcases Nat.lt_or_ge k' start with hlt' | hge'
    · rw [ahead_of_le hge hk, ahead_of_lt hlt' hstart.le] at heq
      omega
    · rw [ahead_of_le hge hk, ahead_of_le hge' hk'] at heq
      omega

/-- A scan that stops before the end of the table. -/
theorem firstFree_up (h : scanFrom used size start < size) :
    FirstFree used size start (scanFrom used size start) := by
  obtain ⟨hlo, -, hused, hfree⟩ := scanFrom_spec used size start
  refine ⟨h, hfree h, fun j hj hlt => ?_⟩
  rw [ahead_of_le hlo h] at hlt
  rcases Nat.lt_or_ge j start with hjs | hjs
  · rw [ahead_of_lt hjs (by omega)] at hlt
    omega
  · rw [ahead_of_le hjs hj] at hlt
    exact hused j hjs (by omega)

/-- A scan that reaches the end, and one from the beginning that stops before the start. -/
theorem firstFree_down (hstart : start < size) (hup : ¬ scanFrom used size start < size)
    (h : scanFrom used start 0 < start) : FirstFree used size start (scanFrom used start 0) := by
  obtain ⟨-, -, hused, -⟩ := scanFrom_spec used size start
  obtain ⟨-, -, hused', hfree⟩ := scanFrom_spec used start 0
  refine ⟨by omega, hfree h, fun j hj hlt => ?_⟩
  rcases Nat.lt_or_ge j start with hjs | hjs
  · rw [ahead_of_lt hjs hstart.le, ahead_of_lt h hstart.le] at hlt
    exact hused' j (Nat.zero_le j) (by omega)
  · exact hused j hjs (by omega)

/-- Neither scan stops early: the table is full. -/
theorem full_of_scans (hup : ¬ scanFrom used size start < size)
    (hdown : ¬ scanFrom used start 0 < start) : ∀ k < size, used k = true := by
  obtain ⟨-, -, hused, -⟩ := scanFrom_spec used size start
  obtain ⟨-, -, hused', -⟩ := scanFrom_spec used start 0
  intro k hk
  rcases Nat.lt_or_ge k start with hks | hks
  · exact hused' k (Nat.zero_le k) (by omega)
  · exact hused k hks (by omega)

/-- A scan that finds its slots used goes on to the bound. -/
theorem scanFrom_of_used (h : ∀ j, start ≤ j → j < bound → used j = true) (hle : start ≤ bound) :
    scanFrom used bound start = bound := by
  obtain ⟨hlo, hhi, -, hfree⟩ := scanFrom_spec used bound start
  by_contra hne
  have hlt : scanFrom used bound start < bound := by omega
  have hused := h _ hlo hlt
  rw [hfree hlt] at hused
  cases hused

end round

end Probe
