import Mathlib

/-!
# Overlays of partial functions

`patch a c` is the partial function `a` where it is defined and `c` elsewhere: a store after the
values `a` were written over it.

* `patch_comm_iff`: two overlays commute exactly if they agree where both are defined.
-/

namespace Overlay

variable {α β : Type*} {a b : α → Option β}

/-- `a` where it is defined, `c` elsewhere. -/
def patch (a c : α → Option β) : α → Option β := fun p => (a p).or (c p)

/-- The two agree where both are defined. -/
def Compatible (a b : α → Option β) : Prop := ∀ p x y, a p = some x → b p = some y → x = y

theorem patch_of_some {c : α → Option β} {p : α} {x : β} (h : a p = some x) :
    patch a c p = some x := by
  rw [patch, h, Option.some_or]

theorem patch_of_none {c : α → Option β} {p : α} (h : a p = none) : patch a c p = c p := by
  rw [patch, h, Option.none_or]

/-- **Overlays commute exactly if they are compatible.** -/
theorem patch_comm_iff (c : α → Option β) :
    patch a (patch b c) = patch b (patch a c) ↔ Compatible a b := by
  constructor
  · intro h p x y hx hy
    have hp := congrFun h p
    rw [patch_of_some hx, patch_of_some hy] at hp
    exact Option.some.inj hp
  · intro h
    funext p
    cases hx : a p with
    | none => rw [patch_of_none hx, patch, patch, patch_of_none hx]
    | some x =>
        cases hy : b p with
        | none => rw [patch_of_none hy, patch_of_some hx, patch_of_some hx]
        | some y => rw [patch_of_some hx, patch_of_some hy, h p x y hx hy]

end Overlay
