import Mathlib

/-!
# Copies that lag behind

An operation on states of type `S` is a partial function `S → Option (S × R)`: `none` when it is
refused, and otherwise the new state and a result. A copy *lags behind* a master by a list of
operations when these, executed on the copy with the results they had on the master, lead to it.

* `Commute f g`: where both are possible, each has the same result behind the other, and the two
  orders end alike.
* `Leads act res l s k`: the operations `l` lead from `s` to `k`, with the results `res`.
* `Leads.ahead`: what a copy does on its own, the master can do too, when it commutes with what is
  outstanding.
* `Leads.catch_up`: a copy that does one of the outstanding operations lags behind by the others, and
  gets the result the master got.
* `Leads.concat`: a new operation of the master is outstanding.

So copies that execute commuting operations in orders of their own all follow one master, which
executes each of them at one moment.
-/

namespace Lagging

variable {ι S R : Type*}

/-- Where both operations are possible, each has its result behind the other as well, and both orders
end in one state. -/
def Commute (f g : S → Option (S × R)) : Prop :=
  ∀ s s₁ s₂ r₁ r₂, f s = some (s₁, r₁) → g s = some (s₂, r₂) →
    ∃ s₃, g s₁ = some (s₃, r₂) ∧ f s₂ = some (s₃, r₁)

theorem Commute.symm {f g : S → Option (S × R)} (h : Commute f g) : Commute g f := by
  intro s s₁ s₂ r₁ r₂ h₁ h₂
  obtain ⟨s₃, hg, hf⟩ := h s s₂ s₁ r₂ r₁ h₂ h₁
  exact ⟨s₃, hf, hg⟩

/-- The operations `l` lead from `s` to `k`, with the results `res`. -/
def Leads (act : ι → S → Option (S × R)) (res : ι → R) : List ι → S → S → Prop
  | [], s, k => s = k
  | t :: l, s, k => ∃ s', act t s = some (s', res t) ∧ Leads act res l s' k

namespace Leads

variable {act act' : ι → S → Option (S × R)} {res res' : ι → R} {l l₁ l₂ : List ι} {t : ι}
  {s s₁ k k₁ : S} {r : R}

theorem append_iff :
    Leads act res (l₁ ++ l₂) s k ↔ ∃ s', Leads act res l₁ s s' ∧ Leads act res l₂ s' k := by
  induction l₁ generalizing s with
  | nil => simp [Leads]
  | cons t l ih =>
      simp only [List.cons_append, Leads, ih]
      constructor
      · rintro ⟨s', ht, s'', hl, hl₂⟩
        exact ⟨s'', ⟨s', ht, hl⟩, hl₂⟩
      · rintro ⟨s'', ⟨s', ht, hl⟩, hl₂⟩
        exact ⟨s', ht, s'', hl, hl₂⟩

/-- Only the operations of the list and their results matter. -/
theorem congr (hact : ∀ t ∈ l, act' t = act t) (hres : ∀ t ∈ l, res' t = res t)
    (h : Leads act res l s k) : Leads act' res' l s k := by
  induction l generalizing s with
  | nil => exact h
  | cons t l ih =>
      obtain ⟨s', ht, hl⟩ := h
      refine ⟨s', ?_, ih (fun u hu => hact u (List.mem_cons_of_mem t hu))
        (fun u hu => hres u (List.mem_cons_of_mem t hu)) hl⟩
      rw [hact t List.mem_cons_self, hres t List.mem_cons_self, ht]

/-- **Ahead of the list**: an operation that commutes with the list has the same result at its
end, and the list still leads there from the state the operation made. -/
theorem ahead {f : S → Option (S × R)} (h : Leads act res l s k)
    (hcomm : ∀ t ∈ l, Commute f (act t)) (hf : f s = some (s₁, r)) :
    ∃ k₁, f k = some (k₁, r) ∧ Leads act res l s₁ k₁ := by
  induction l generalizing s s₁ with
  | nil =>
      obtain rfl : s = k := h
      exact ⟨s₁, hf, rfl⟩
  | cons t l ih =>
      obtain ⟨s', ht, hl⟩ := h
      obtain ⟨s₃, ht₃, hf₃⟩ := hcomm t List.mem_cons_self s s₁ s' r (res t) hf ht
      obtain ⟨k₁, hk, hl₁⟩ := ih hl (fun u hu => hcomm u (List.mem_cons_of_mem t hu)) hf₃
      exact ⟨k₁, hk, s₃, ht₃, hl₁⟩

/-- **Catching up**: one operation of the list, done before those it commutes with, has the result it
had in the list, and the others lead to the same end. -/
theorem catch_up (h : Leads act res (l₁ ++ t :: l₂) s k)
    (hcomm : ∀ u ∈ l₁, Commute (act t) (act u)) (ht : act t s = some (s₁, r)) :
    r = res t ∧ Leads act res (l₁ ++ l₂) s₁ k := by
  obtain ⟨s', hl₁, s'', ht', hl₂⟩ := append_iff.mp h
  obtain ⟨k₁, hk₁, hahead⟩ := hl₁.ahead hcomm ht
  obtain ⟨rfl, rfl⟩ := Prod.mk.inj (Option.some.inj (ht'.symm.trans hk₁))
  exact ⟨rfl, append_iff.mpr ⟨_, hahead, hl₂⟩⟩

/-- A new operation at the end of the list. -/
theorem concat (h : Leads act res l s k) (ht : act t k = some (k₁, res t)) :
    Leads act res (l ++ [t]) s k₁ :=
  append_iff.mpr ⟨k, h, k₁, ht, rfl⟩

end Leads

end Lagging
