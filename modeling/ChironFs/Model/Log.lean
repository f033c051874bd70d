import ChironFs.Model.Types

/-!
# The log (`debug.c`)

`logLine` is `_log` with the log file open: the pieces it writes after the time stamp, `none` when
it reads outside `errtab` or is given a `NULL` resource. `strerror` is the C library's and stays a
parameter. Whether an error text is chosen from the program's own table `errtab` or by `strerror`
depends on the sign of `err`.
-/

namespace ChironFs

/-- `CHIRONFS_ADM_FORCED`. Source: `common.h` -/
def CHIRONFS_ADM_FORCED : ℤ := -7

/-- `CHIRONFS_ERR_TOO_MANY_FOPENS`. Source: `common.h` -/
def CHIRONFS_ERR_TOO_MANY_FOPENS : ℤ := -4

/-- The texts of the program's own errors. Source: `debug.c`, `errtab` -/
def errtab : List String :=
  ["Low memory",
   "Log file must be outside of the mount point",
   "",
   "Too many opened files",
   "Cannot open the log file",
   "Invalid PATH_MAX definition, check your include files and recompile",
   "Forced by administrator"]

/-- The index `_log` uses into `errtab` for a negative error value: `-(err+1)`. -/
def errtabIndex (err : ℤ) : ℕ := (-(err + 1)).toNat

/-- The text `_log` writes for an error value other than `0`; `none`: read outside `errtab`.
Source: `debug.c`, `_log` -/
def errText (strerror : ℕ → String) (err : ℤ) : Option String :=
  if err > 0 then some (strerror err.toNat) else errtab[errtabIndex err]?

/-- One `fputs` of a log line. -/
inductive Piece
  | text (s : String)
  | path (p : Path)
deriving DecidableEq, Repr

/-- `fputs(resource, …)`. -/
def Resource.piece : Resource → Option Piece
  | .path none => none
  | .path (some p) => some (.path p)
  | .text s => some (.text s)

/-- `_log(fnname, resource, err)` with the log file open.
Source: `debug.c`, `_log`
Fidelity: without the time stamp and the locking of the stream -/
def logLine (strerror : ℕ → String) (fnname : String) (resource : Resource) (err : ℤ) :
    Option (List Piece) := do
  let res ← resource.piece
  let verb := if err ≠ CHIRONFS_ADM_FORCED then " failed accessing " else " "
  let tail ← if err ≠ 0 then do
      let txt ← errText strerror err
      some [Piece.text " ", Piece.text txt]
    else some []
  some ([Piece.text fnname, Piece.text verb, res] ++ tail ++ [Piece.text "\n"])

end ChironFs
