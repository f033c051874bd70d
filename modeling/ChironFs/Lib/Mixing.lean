import Mathlib

/-!
# Mixing steps that lose nothing

The steps of a bit-mixing hash combine a word with a shifted copy of itself: `a + (a << s)`,
`a ^ (a >> s)`. Read from the right end (for `>>` from the left one), each such step can be undone
bit by bit: a bit of the result is that bit of `a` together with something that the bits read before
decide.

* `Filtration α w`: when two values are the same as far as the first `k` of `w` steps of reading see.
* `Reflects f`: one more step of `f x` tells one more of `x`. `Reflects.injective`: such an `f` is
  injective.
* `Gains g`: what is read of `x` tells one step more of `g x`, as of a shifted word. `Reflects.op`:
  combined with it, a function that reflects still does.
* `lowBits`, `highBits`: the bits of a word, read from the right and from the left.
* `ncard_fiber`: an injective mixing of all words takes every value equally often when it is cut to
  its last bits.
-/

namespace Mixing

/-- Values that are read in `w` steps: `near k x y` if the first `k` steps see no difference. -/
structure Filtration (α : Type*) (w : ℕ) where
  near : ℕ → α → α → Prop
  refl : ∀ k x, near k x x
  zero : ∀ x y, near 0 x y
  full : ∀ x y, near w x y → x = y

namespace Filtration

variable {α β : Type*} {w : ℕ}

/-- Read through an injective representation. -/
def comap (F : Filtration α w) (e : β → α) (he : Function.Injective e) : Filtration β w where
  near k x y := F.near k (e x) (e y)
  refl k x := F.refl k (e x)
  zero x y := F.zero (e x) (e y)
  full _ _ h := he (F.full _ _ h)

variable (F : Filtration α w)

/-- One more step of `f x` tells one more step of `x`. -/
def Reflects (f : α → α) : Prop :=
  ∀ k < w, ∀ x y, F.near k x y → F.near (k + 1) (f x) (f y) → F.near (k + 1) x y

/-- `x` read as far as `k` tells `g x` one step farther. -/
def Gains (g : α → α) : Prop := ∀ k < w, ∀ x y, F.near k x y → F.near (k + 1) (g x) (g y)

/-- As far as results and right operands are the same, so are left operands. -/
def Cancels (op : α → α → α) : Prop :=
  ∀ k ≤ w, ∀ a b c d, F.near k (op a b) (op c d) → F.near k b d → F.near k a c

variable {F}

theorem Reflects.id : F.Reflects fun x => x := fun _ _ _ _ _ h => h

theorem Gains.const (c : α) : F.Gains fun _ => c := fun k _ _ _ _ => F.refl (k + 1) c

/-- A function that reflects, combined with one that gains. -/
theorem Reflects.op {op : α → α → α} (hop : F.Cancels op) {f g : α → α} (hf : F.Reflects f)
    (hg : F.Gains g) : F.Reflects fun x => op (f x) (g x) := by
  intro k hk x y hxy h
  exact hf k hk x y hxy (hop (k + 1) hk _ _ _ _ h (hg k hk x y hxy))

/-- **What reflects is injective.** By induction on the steps read. -/
theorem Reflects.injective {f : α → α} (hf : F.Reflects f) : Function.Injective f := by
  intro x y hxy
  have hnear : ∀ k ≤ w, F.near k x y := by
    intro k
    induction k with
    | zero => exact fun _ => F.zero x y
    | succ k ih =>
        intro hk
        refine hf k hk x y (ih (Nat.le_of_succ_le hk)) ?_
        rw [hxy]
        exact F.refl (k + 1) (f y)
  exact F.full x y (hnear w le_rfl)

end Filtration

/-! ## The bits of a word -/

section bits

variable {w : ℕ}

/-- A word read from its last bit on. -/
def lowBits (w : ℕ) : Filtration (BitVec w) w where
  near k x y := x.setWidth k = y.setWidth k
  refl _ _ := rfl
  zero _ _ := Subsingleton.elim _ _
  full x y h := by simpa using h

/-- A word read from its first bit on. -/
def highBits (w : ℕ) : Filtration (BitVec w) w where
  near k x y := ∀ i, w ≤ i + k → x.getLsbD i = y.getLsbD i
  refl _ _ _ _ := rfl
  zero x y i hi := by rw [BitVec.getLsbD_of_ge x i hi, BitVec.getLsbD_of_ge y i hi]
  full x y h := BitVec.eq_of_getLsbD_eq fun i _ => h i (Nat.le_add_left w i)

theorem lowBits_cancels_add : (lowBits w).Cancels (· + ·) := by
  intro k hk a b c d h hbd
  simp only [lowBits] at h hbd ⊢
  rw [BitVec.setWidth_add _ _ hk, BitVec.setWidth_add _ _ hk, hbd] at h
  exact add_right_cancel h

theorem lowBits_cancels_xor : (lowBits w).Cancels (· ^^^ ·) := by
  intro k hk a b c d h hbd
  simp only [lowBits] at h hbd ⊢
  rw [BitVec.setWidth_xor, BitVec.setWidth_xor, hbd] at h
  exact (BitVec.xor_left_inj _).mp h

theorem highBits_cancels_xor : (highBits w).Cancels (· ^^^ ·) := by
  intro k _ a b c d h hbd i hi
  have hbit := h i hi
  rw [BitVec.getLsbD_xor, BitVec.getLsbD_xor, hbd i hi] at hbit
  exact Bool.xor_left_inj.mp hbit

theorem lowBits_reflects_not : (lowBits w).Reflects fun x => ~~~x := by
  intro k hk x y _ h
  simp only [lowBits] at h ⊢
  rw [BitVec.setWidth_not hk, BitVec.setWidth_not hk] at h
  exact BitVec.not_inj.mp h

theorem lowBits_gains_shiftLeft {s : ℕ} (hs : 0 < s) : (lowBits w).Gains (· <<< s) := by
  intro k hk x y h
  refine BitVec.eq_of_getLsbD_eq fun i hi => ?_
  have hbit : ∀ j < k, x.getLsbD j = y.getLsbD j := by
    intro j hj
    have := congrArg (BitVec.getLsbD · j) h
    simpa [hj] using this
  by_cases hlt : i < s
  · simp [hlt]
  · simp [hlt, hbit (i - s) (by omega)]

theorem highBits_gains_shiftRight {s : ℕ} (hs : 0 < s) : (highBits w).Gains (· >>> s) := by
  intro k _ x y h i hi
  rw [BitVec.getLsbD_ushiftRight, BitVec.getLsbD_ushiftRight]
  exact h (s + i) (by omega)

end bits

/-! ## How often each value is taken -/

/-- The numbers below `2 ^ m` that end in the same `k` bits. -/
theorem ncard_mod_eq {k m slot : ℕ} (hk : k ≤ m) (hslot : slot < 2 ^ k) :
    {x : ℕ | x < 2 ^ m ∧ x % 2 ^ k = slot}.ncard = 2 ^ (m - k) := by
  have himage : {x : ℕ | x < 2 ^ m ∧ x % 2 ^ k = slot} =
      (fun q => slot + 2 ^ k * q) '' Set.Iio (2 ^ (m - k)) := by
    ext x
    have hsplit : 2 ^ m = 2 ^ k * 2 ^ (m - k) := by rw [← pow_add, Nat.add_sub_cancel' hk]
    simp only [Set.mem_ofPred_eq, Set.mem_image, Set.mem_Iio]
    constructor
    · rintro ⟨hx, hmod⟩
      refine ⟨x / 2 ^ k, Nat.div_lt_of_lt_mul (hsplit ▸ hx), ?_⟩
      rw [← hmod]
      exact Nat.mod_add_div x (2 ^ k)
    · rintro ⟨q, hq, rfl⟩
      refine ⟨?_, by rw [Nat.add_mul_mod_self_left, Nat.mod_eq_of_lt hslot]⟩
      rw [hsplit]
      calc slot + 2 ^ k * q < 2 ^ k + 2 ^ k * q := Nat.add_lt_add_right hslot _
        _ = 2 ^ k * (q + 1) := by ring
        _ ≤ 2 ^ k * 2 ^ (m - k) := Nat.mul_le_mul_left _ hq
  rw [himage, Set.ncard_image_of_injective]
  · simp [Set.ncard_eq_toFinset_card']
  · intro a b hab
    exact Nat.eq_of_mul_eq_mul_left (Nat.two_pow_pos k) (Nat.add_left_cancel hab)

/-- **An injective mixing of all words takes every value of its last bits equally often.** -/
theorem ncard_fiber {α : Type*} {m k slot : ℕ} (hk : k ≤ m) (hslot : slot < 2 ^ k) (f : α → ℕ)
    (hinj : Function.Injective f) (hrange : Set.range f = Set.Iio (2 ^ m)) :
    {a : α | f a % 2 ^ k = slot}.ncard = 2 ^ (m - k) := by
  rw [← ncard_mod_eq hk hslot, ← Set.ncard_image_of_injective _ hinj]
  congr 1
  ext x
  simp only [Set.mem_image, Set.mem_ofPred_eq]
  constructor
  · rintro ⟨a, ha, rfl⟩
    exact ⟨hrange.subset ⟨a, rfl⟩, ha⟩
  · rintro ⟨hx, hmod⟩
    obtain ⟨a, rfl⟩ := hrange.superset hx
    exact ⟨a, hmod, rfl⟩

end Mixing
