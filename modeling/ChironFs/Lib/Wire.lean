import Mathlib

/-!
# Numbers as bytes

A number is sent as the bytes it has in memory: `w` of them, in the order of the machine.

* `bytes w v`: the `w` low bytes of `v`, the least one first; `value`: back again.
* `ByteOrder`: which end comes first. `ByteOrder.encode`, `ByteOrder.decode`.
* `decode_encode`: a number that fits comes back.
-/

namespace Wire

/-- The `w` low bytes of `v`, the least significant one first. -/
def bytes (w v : ℕ) : List UInt8 := (List.range w).map fun k => UInt8.ofNat (v / 256 ^ k)

/-- The number whose bytes these are, the least significant one first. -/
def value (bs : List UInt8) : ℕ := Nat.ofDigits 256 (bs.map UInt8.toNat)

@[simp] theorem length_bytes (w v : ℕ) : (bytes w v).length = w := by
  simp [bytes]

theorem bytes_succ (w v : ℕ) : bytes (w + 1) v = UInt8.ofNat v :: bytes w (v / 256) := by
  simp only [bytes, List.range_succ_eq_map, List.map_cons, List.map_map, pow_zero, Nat.div_one,
    List.cons.injEq, true_and]
  refine List.map_congr_left fun k _ => ?_
  rw [Function.comp_apply, Nat.div_div_eq_div_mul, ← pow_succ']

theorem value_cons (b : UInt8) (bs : List UInt8) : value (b :: bs) = b.toNat + 256 * value bs := by
  simp [value, Nat.ofDigits_cons]

/-- The bytes of a number stand for its remainder by the width. -/
theorem value_bytes (w v : ℕ) : value (bytes w v) = v % 256 ^ w := by
  induction w generalizing v with
  | zero => simp [bytes, value, Nat.mod_one]
  | succ w ih =>
      have hbyte : (UInt8.ofNat v).toNat = v % 256 := by simp
      rw [bytes_succ, value_cons, ih, hbyte, pow_succ', Nat.mod_mul]

/-- The end of a number that lies at the lowest address. -/
inductive ByteOrder
  | little
  | big
deriving DecidableEq, Repr

namespace ByteOrder

variable (o : ByteOrder)

/-- A number in `w` bytes. -/
def encode (w v : ℕ) : List UInt8 :=
  match o with
  | little => bytes w v
  | big => (bytes w v).reverse

/-- The number that lies in these bytes. -/
def decode (bs : List UInt8) : ℕ :=
  match o with
  | little => value bs
  | big => value bs.reverse

@[simp] theorem length_encode (w v : ℕ) : (o.encode w v).length = w := by
  cases o <;> simp [encode]

/-- **A number that fits comes back.** -/
theorem decode_encode {w v : ℕ} (h : v < 256 ^ w) : o.decode (o.encode w v) = v := by
  have hvalue : value (bytes w v) = v := by rw [value_bytes, Nat.mod_eq_of_lt h]
  cases o with
  | little => exact hvalue
  | big => rw [decode, encode, List.reverse_reverse, hvalue]

end ByteOrder

end Wire
