import ChironFs.Lib.Probe
import ChironFs.Model.Log

/-!
# The probing of the handle table as the machine does it

`Config.fdHashseekfree` probes with natural numbers. Here the index is the `unsigned` of the source
and the two loops look at a cell before they compare the index, so every cell looked at is recorded.

* `Cells`: what lies from `config.tab_fd.fd` on, behind the table as well.
* `Cells.fdHashseekfree`: the cells looked at, and the value returned.
-/

namespace ChironFs

/-- Which cells from `config.tab_fd.fd` on are not `NULL`. -/
abbrev Cells := ℕ → Bool

namespace Cells

variable (mem : Cells)

/-- `while ((config.tab_fd.fd[i]!=NULL) && (i<bound)) i++;` by recursion on the rounds allowed: the
cells looked at, and the index where it ends; `none`: it takes more rounds. -/
def seekLoop (bound : UInt64) : ℕ → UInt32 → List ℕ × Option UInt32
  | 0, _ => ([], none)
  | rounds + 1, i =>
      if mem i.toNat && i.toUInt64 < bound then
        (i.toNat :: (seekLoop bound rounds (i + 1)).1, (seekLoop bound rounds (i + 1)).2)
      else ([i.toNat], some i)

/-- Both loops with so many rounds each; `none`: one of them takes more. The value returned is an
`int`. Source: `fs.c`, `fd_hashseekfree` -/
def fdHashseekfree (fdBufSize : UInt64) (rounds : ℕ) (fdNdx : UInt32) : List ℕ × Option ℤ :=
  match mem.seekLoop fdBufSize rounds fdNdx with
  | (seen, none) => (seen, none)
  | (seen, some i) =>
      if i.toUInt64 < fdBufSize then (seen, some i.toInt32.toInt)
      else
        match mem.seekLoop fdNdx.toUInt64 rounds 0 with
        | (seen', none) => (seen ++ seen', none)
        | (seen', some i) =>
            (seen ++ seen',
              some (if i < fdNdx then i.toInt32.toInt else CHIRONFS_ERR_TOO_MANY_FOPENS))

end Cells

end ChironFs
