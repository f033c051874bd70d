import ChironFs.Lib.Overlay
import ChironFs.Model.Session

/-!
# The content of a file on the replicas

* `Content`, `storePrefix`: a file, and what `pwrite` does to it.
* `Event.applyTo`, `contentAfter`: the content of one file on a replica after the calls of a trace.
* `chunk`: the bytes of a buffer at the offsets they are written to. `storePrefix_eq_patch`: a
  `pwrite` that stores the whole buffer lays its chunk over the content.
-/

namespace ChironFs

variable {n : ℕ}

/-- The content of a file: the byte at each offset that has one. -/
abbrev Content := ℤ → Option UInt8

/-- The content after the first `m` bytes of the buffer were stored at the offset. -/
def storePrefix (old : Content) (buf : List UInt8) (offset : ℤ) (m : ℕ) : Content := fun p =>
  if offset ≤ p ∧ p < offset + m then buf[(p - offset).toNat]? else old p

/-- What an event does to the file on replica `i`, when all `pwrite` calls are to that file. -/
def Event.applyTo (i : Fin n) (c : Content) : Event n → Content
  | .call _ j (.pwrite _ buf offset) (.ok r) =>
      if j = i then storePrefix c buf offset r.ret else c
  | _ => c

/-- The content on replica `i` after a trace. -/
def contentAfter (i : Fin n) (old : Content) (trace : List (Event n)) : Content :=
  trace.foldl (fun c ev => ev.applyTo i c) old

/-- The bytes of a buffer, each at the offset it is written to. -/
def chunk (buf : List UInt8) (offset : ℤ) : Content := fun p =>
  if offset ≤ p then buf[(p - offset).toNat]? else none

theorem storePrefix_of_lt (old : Content) (buf : List UInt8) (offset : ℤ) {k m : ℕ} (h : k < m) :
    storePrefix old buf offset m (offset + k) = buf[k]? := by
  have hin : offset ≤ offset + k ∧ offset + k < offset + m := by omega
  have hk : (offset + k - offset).toNat = k := by omega
  rw [storePrefix, if_pos hin, hk]

theorem storePrefix_self (old : Content) (buf : List UInt8) (offset : ℤ) (m : ℕ) :
    storePrefix old buf offset m (offset + m) = old (offset + m) := by
  rw [storePrefix, if_neg (by omega)]

/-- A write of the whole buffer. -/
theorem storePrefix_eq_patch (old : Content) (buf : List UInt8) (offset : ℤ) :
    storePrefix old buf offset buf.length = Overlay.patch (chunk buf offset) old := by
  funext p
  by_cases hin : offset ≤ p ∧ p < offset + buf.length
  · have hlt : (p - offset).toNat < buf.length := by omega
    have hchunk : chunk buf offset p = some buf[(p - offset).toNat] := by
      rw [chunk, if_pos hin.1, List.getElem?_eq_getElem hlt]
    rw [storePrefix, if_pos hin, Overlay.patch_of_some hchunk, List.getElem?_eq_getElem hlt]
  · have hchunk : chunk buf offset p = none := by
      unfold chunk
      split_ifs with hle
      · rw [List.getElem?_eq_none_iff]
        omega
      · rfl
    rw [storePrefix, if_neg hin, Overlay.patch_of_none hchunk]

end ChironFs
