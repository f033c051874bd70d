import ChironFs.Lib.Probe
import ChironFs.Model.Log

/-!
# The handle table (`hash.c`, `hash_fd`, `fd_hashseekfree`, `fd_hashset`)

An open file is found again through a slot of `config.tab_fd`: `hashFd` of the first usable
descriptor picks where to look for a free slot, `fdHashseekfree` probes from there to the end of
the table and then from its beginning, `fdHashset` stores the descriptor vector.
-/

namespace ChironFs

variable {n : ℕ}

/-! ## Hashing -/

/-- Source: `hash.c`, `hash` -/
def hash (a : UInt32) : UInt32 :=
  let a := (a + (0x7ed55d16 : UInt32)) + (a <<< (12 : UInt32))
  let a := (a ^^^ (0xc761c23c : UInt32)) ^^^ (a >>> (19 : UInt32))
  let a := (a + (0x165667b1 : UInt32)) + (a <<< (5 : UInt32))
  let a := (a + (0xd3a2646c : UInt32)) ^^^ (a <<< (9 : UInt32))
  let a := (a + (0xfd7046c5 : UInt32)) + (a <<< (3 : UInt32))
  (a ^^^ (0xb55a4f09 : UInt32)) ^^^ (a >>> (16 : UInt32))

/-- Source: `hash.c`, `hash64shift` -/
def hash64shift (key : UInt64) : UInt64 :=
  let key := ~~~key + (key <<< (21 : UInt64))
  let key := key ^^^ (key >>> (24 : UInt64))
  let key := (key + (key <<< (3 : UInt64))) + (key <<< (8 : UInt64))
  let key := key ^^^ (key >>> (14 : UInt64))
  let key := (key + (key <<< (2 : UInt64))) + (key <<< (4 : UInt64))
  let key := key ^^^ (key >>> (28 : UInt64))
  key + (key <<< (31 : UInt64))

/-- `UINT_MAX`. -/
def UINT_MAX : UInt64 := 4294967295

/-- The 64-bit value is returned as `unsigned`. Source: `fs.c`, `hash_fd` -/
def hashFd (fdBufSize : UInt64) (fdMain : UInt32) : UInt32 :=
  if fdBufSize > UINT_MAX then
    (hash64shift fdMain.toUInt64 &&& (fdBufSize - 1)).toUInt32
  else
    ((hash fdMain).toUInt64 &&& (fdBufSize - 1)).toUInt32

/-! ## Probing -/

namespace Config

variable (c : Config n)

/-- `config.tab_fd.fd[k] != NULL`. -/
def slotUsed (k : ℕ) : Bool := (c.tabFd k).isSome

/-- Probe from the hash address to the end of the table, then from the beginning up to the hash
address. The log call for a full table is returned beside the value.
Source: `fs.c`, `fd_hashseekfree`
Fidelity: the indices are `ℕ` for C's `unsigned`; they are equal for tables of at most `2^31`
slots -/
def fdHashseekfree (fdNdx : ℕ) : ℤ × List (Event n) :=
  let i := Probe.scanFrom c.slotUsed c.fdBufSize.toNat fdNdx
  if i < c.fdBufSize.toNat then (i, [])
  else
    let i := Probe.scanFrom c.slotUsed fdNdx 0
    if i < fdNdx then (i, [])
    else
      (CHIRONFS_ERR_TOO_MANY_FOPENS,
        [.log none "hash allocation" (.text "too many opened files") 0])

/-- The loop of `fd_hashset`: the descriptor of the first enabled replica that has one. -/
def mainFd (fd : Fin n → ℤ) : List (Fin n) → Option ℤ
  | [] => none
  | i :: is => if (c.replicas i).disabled = false ∧ fd i ≥ 0 then some (fd i) else mainFd fd is

/-- Source: `fs.c`, `fd_hashset` -/
def fdHashset (fd : Fin n → ℤ) : ℤ × Config n × List (Event n) :=
  match c.mainFd fd (List.finRange n) with
  | none => (-1, c, [])
  | some d =>
      let (fdNdx, logs) := c.fdHashseekfree (hashFd c.fdBufSize (UInt32.ofNat d.toNat)).toNat
      if fdNdx ≥ 0 then (fdNdx, c.setSlot fdNdx.toNat (some fd), logs)
      else (fdNdx, c, logs)

end Config

end ChironFs
