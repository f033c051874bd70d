import ChironFs.Lib.Mixing
import ChironFs.Model.Table
import ChironFs.Model.Sample

/-!
# The hash addresses of the handle table

* `hash_injective`, `hash64shift_injective`: the two hashes of `hash.c` tell all their arguments
  apart; every collision of addresses comes from the mask.
* `hashFd_balanced`: so each slot is the address of equally many descriptors.
-/

namespace ChironFs

open Mixing

/-! ## Steps on machine words -/

/-- A 32-bit word read from its last bit on, and from its first. -/
def low32 : Filtration UInt32 32 := (lowBits 32).comap UInt32.toBitVec fun _ _ => UInt32.toBitVec_inj.mp

/-- Words of 32 bits, read from the high end. -/
def high32 : Filtration UInt32 32 :=
  (highBits 32).comap UInt32.toBitVec fun _ _ => UInt32.toBitVec_inj.mp

/-- A 64-bit word read from its last bit on, and from its first. -/
def low64 : Filtration UInt64 64 := (lowBits 64).comap UInt64.toBitVec fun _ _ => UInt64.toBitVec_inj.mp

/-- Words of 64 bits, read from the high end. -/
def high64 : Filtration UInt64 64 :=
  (highBits 64).comap UInt64.toBitVec fun _ _ => UInt64.toBitVec_inj.mp

/-- From the low end a sum can be undone. -/
theorem low32_cancels_add : low32.Cancels (· + ·) := fun k hk a b c d =>
  lowBits_cancels_add k hk a.toBitVec b.toBitVec c.toBitVec d.toBitVec

/-- From the low end an exclusive or can be undone. -/
theorem low32_cancels_xor : low32.Cancels (· ^^^ ·) := fun k hk a b c d =>
  lowBits_cancels_xor k hk a.toBitVec b.toBitVec c.toBitVec d.toBitVec

/-- And from the high end. -/
theorem high32_cancels_xor : high32.Cancels (· ^^^ ·) := fun k hk a b c d =>
  highBits_cancels_xor k hk a.toBitVec b.toBitVec c.toBitVec d.toBitVec

/-- From the low end a shift to the left reads less far. -/
theorem low32_gains_shiftLeft {s : UInt32} (hs : 0 < (s.toBitVec % 32).toNat) :
    low32.Gains (· <<< s) := fun k hk x y =>
  lowBits_gains_shiftLeft hs k hk x.toBitVec y.toBitVec

/-- From the high end a shift to the right reads less far. -/
theorem high32_gains_shiftRight {s : UInt32} (hs : 0 < (s.toBitVec % 32).toNat) :
    high32.Gains (· >>> s) := fun k hk x y =>
  highBits_gains_shiftRight hs k hk x.toBitVec y.toBitVec

/-- The same with 64 bits: a sum. -/
theorem low64_cancels_add : low64.Cancels (· + ·) := fun k hk a b c d =>
  lowBits_cancels_add k hk a.toBitVec b.toBitVec c.toBitVec d.toBitVec

/-- An exclusive or. -/
theorem high64_cancels_xor : high64.Cancels (· ^^^ ·) := fun k hk a b c d =>
  highBits_cancels_xor k hk a.toBitVec b.toBitVec c.toBitVec d.toBitVec

/-- A complement. -/
theorem low64_reflects_not : low64.Reflects fun x => ~~~x := fun k hk x y =>
  lowBits_reflects_not k hk x.toBitVec y.toBitVec

/-- A shift to the left. -/
theorem low64_gains_shiftLeft {s : UInt64} (hs : 0 < (s.toBitVec % 64).toNat) :
    low64.Gains (· <<< s) := fun k hk x y =>
  lowBits_gains_shiftLeft hs k hk x.toBitVec y.toBitVec

/-- A shift to the right. -/
theorem high64_gains_shiftRight {s : UInt64} (hs : 0 < (s.toBitVec % 64).toNat) :
    high64.Gains (· >>> s) := fun k hk x y =>
  highBits_gains_shiftRight hs k hk x.toBitVec y.toBitVec

/-- `(a + c) + (a << s)` -/
theorem add_add_shiftLeft_injective (c : UInt32) {s : UInt32} (hs : 0 < (s.toBitVec % 32).toNat) :
    Function.Injective fun a : UInt32 => (a + c) + (a <<< s) :=
  (((Filtration.Reflects.id).op low32_cancels_add (.const c)).op low32_cancels_add
    (low32_gains_shiftLeft hs)).injective

/-- `(a + c) ^ (a << s)` -/
theorem add_xor_shiftLeft_injective (c : UInt32) {s : UInt32} (hs : 0 < (s.toBitVec % 32).toNat) :
    Function.Injective fun a : UInt32 => (a + c) ^^^ (a <<< s) :=
  (((Filtration.Reflects.id).op low32_cancels_add (.const c)).op low32_cancels_xor
    (low32_gains_shiftLeft hs)).injective

/-- `(a ^ c) ^ (a >> s)` -/
theorem xor_xor_shiftRight_injective (c : UInt32) {s : UInt32} (hs : 0 < (s.toBitVec % 32).toNat) :
    Function.Injective fun a : UInt32 => (a ^^^ c) ^^^ (a >>> s) :=
  (((Filtration.Reflects.id).op high32_cancels_xor (.const c)).op high32_cancels_xor
    (high32_gains_shiftRight hs)).injective

/-- `key ^ (key >> s)` -/
theorem xor_shiftRight_injective {s : UInt64} (hs : 0 < (s.toBitVec % 64).toNat) :
    Function.Injective fun key : UInt64 => key ^^^ (key >>> s) :=
  ((Filtration.Reflects.id).op high64_cancels_xor (high64_gains_shiftRight hs)).injective

/-- `(key + (key << s)) + (key << t)` -/
theorem add_shiftLeft_add_shiftLeft_injective {s t : UInt64} (hs : 0 < (s.toBitVec % 64).toNat)
    (ht : 0 < (t.toBitVec % 64).toNat) :
    Function.Injective fun key : UInt64 => (key + (key <<< s)) + (key <<< t) :=
  (((Filtration.Reflects.id).op low64_cancels_add (low64_gains_shiftLeft hs)).op low64_cancels_add
    (low64_gains_shiftLeft ht)).injective

/-! ## The two hashes -/

/-- Source: `hash.c`, `hash` -/
theorem hash_injective : Function.Injective hash := by
  have h₁ := add_add_shiftLeft_injective 0x7ed55d16 (s := 12) (by decide)
  have h₂ := xor_xor_shiftRight_injective 0xc761c23c (s := 19) (by decide)
  have h₃ := add_add_shiftLeft_injective 0x165667b1 (s := 5) (by decide)
  have h₄ := add_xor_shiftLeft_injective 0xd3a2646c (s := 9) (by decide)
  have h₅ := add_add_shiftLeft_injective 0xfd7046c5 (s := 3) (by decide)
  have h₆ := xor_xor_shiftRight_injective 0xb55a4f09 (s := 16) (by decide)
  exact h₆.comp (h₅.comp (h₄.comp (h₃.comp (h₂.comp h₁))))

/-- Source: `hash.c`, `hash64shift` -/
theorem hash64shift_injective : Function.Injective hash64shift := by
  have h₁ : Function.Injective fun key : UInt64 => ~~~key + (key <<< 21) :=
    (low64_reflects_not.op low64_cancels_add (low64_gains_shiftLeft (by decide))).injective
  have h₂ := xor_shiftRight_injective (s := 24) (by decide)
  have h₃ := add_shiftLeft_add_shiftLeft_injective (s := 3) (t := 8) (by decide) (by decide)
  have h₄ := xor_shiftRight_injective (s := 14) (by decide)
  have h₅ := add_shiftLeft_add_shiftLeft_injective (s := 2) (t := 4) (by decide) (by decide)
  have h₆ := xor_shiftRight_injective (s := 28) (by decide)
  have h₇ : Function.Injective fun key : UInt64 => key + (key <<< 31) :=
    ((Filtration.Reflects.id).op low64_cancels_add (low64_gains_shiftLeft (by decide))).injective
  exact h₇.comp (h₆.comp (h₅.comp (h₄.comp (h₃.comp (h₂.comp h₁)))))

/-! ## Addresses -/

/-- In a table of at most `2 ^ 31` slots the address is the hash cut to its last bits. -/
theorem toNat_hashFd {size : UInt64} {k : ℕ} (hk : k ≤ 31) (hsize : size.toNat = 2 ^ k)
    (fd : UInt32) : (hashFd size fd).toNat = (hash fd).toNat % 2 ^ k := by
  have hle : 2 ^ k ≤ 2 ^ 31 := Nat.pow_le_pow_right (by decide) hk
  have hpos : (1 : UInt64) ≤ size := by
    rw [UInt64.le_iff_toNat_le, hsize]
    exact Nat.two_pow_pos k
  have hsmall : ¬ size > UINT_MAX := by
    rw [gt_iff_lt, UInt64.lt_iff_toNat_lt, hsize, not_lt]
    exact hle.trans (by decide)
  have hmask : ((hash fd).toUInt64 &&& (size - 1)).toNat = (hash fd).toNat % 2 ^ k := by
    rw [UInt64.toNat_and, UInt64.toNat_sub_of_le _ _ hpos, hsize]
    exact Nat.and_two_pow_sub_one_eq_mod _ _
  have hlt : (hash fd).toNat % 2 ^ k < 2 ^ 32 :=
    ((Nat.mod_lt _ (Nat.two_pow_pos k)).trans_le hle).trans (by decide)
  rw [hashFd, if_neg hsmall, UInt64.toNat_toUInt32, hmask, Nat.mod_eq_of_lt hlt]

/-- Every 32-bit number is the hash of something. -/
theorem range_toNat_hash : Set.range (fun fd => (hash fd).toNat) = Set.Iio (2 ^ 32) := by
  have : Finite UInt32 := Finite.of_injective UInt32.toFin fun _ _ => UInt32.toFin_inj.mp
  have hsurj : Function.Surjective hash := Finite.surjective_of_injective hash_injective
  ext x
  constructor
  · rintro ⟨fd, rfl⟩
    exact (hash fd).toNat_lt
  · intro hx
    obtain ⟨fd, hfd⟩ := hsurj (UInt32.ofNat x)
    exact ⟨fd, (congrArg UInt32.toNat hfd).trans (UInt32.toNat_ofNat_of_lt' hx)⟩

/-- **The addresses are spread evenly**: the hash tells all descriptor numbers apart, and in a table
of `2 ^ k` slots each is the hash address of exactly `2 ^ (32 - k)` of them. -/
theorem hashFd_balanced {size : UInt64} {k : ℕ} (hk : k ≤ 31) (hsize : size.toNat = 2 ^ k)
    {slot : ℕ} (hslot : slot < size.toNat) :
    Function.Injective hash ∧
      {fd : UInt32 | (hashFd size fd).toNat = slot}.ncard = 2 ^ (32 - k) := by
  refine ⟨hash_injective, ?_⟩
  simp only [toNat_hashFd hk hsize]
  refine ncard_fiber (by omega) (hsize ▸ hslot) (fun fd => (hash fd).toNat) ?_ ?_
  · exact fun _ _ h => hash_injective (UInt32.toNat_inj.mp h)
  · exact range_toNat_hash

/-- Slot 5 of a table of 8 slots. -/
theorem hashFd_balanced_eight : {fd : UInt32 | (hashFd 8 fd).toNat = 5}.ncard = 2 ^ (32 - 3) :=
  (hashFd_balanced (k := 3) (by decide) rfl (by decide)).2

end ChironFs
