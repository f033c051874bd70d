import ChironFs.Lib.Run

/-!
# Forward simulation

Two machines, the second one the more abstract, with steps that show values of one type.

* `observe_append`: what a run shows, in two parts.
* `Simulates`: a step of the first machine is matched by a run of the second one that shows the same.
* `Simulates.run`: so is a run.
-/

namespace Machine

variable {σ τ α β γ : Type*} {step : σ → α → Option σ} {step' : τ → β → Option τ}
  {P : σ → α → Prop} {f : σ → α → Option γ} {g : τ → β → Option γ} {R : σ → τ → Prop}

/-- A run shows what its two parts show. -/
theorem observe_append {s s' : σ} {as : List α} (bs : List α) (h : runFrom step s as = some s') :
    observe step f s (as ++ bs) = observe step f s as ++ observe step f s' bs := by
  induction as generalizing s with
  | nil =>
      cases h
      rfl
  | cons a as ih =>
      rw [runFrom_cons, Option.bind_eq_some_iff] at h
      obtain ⟨s₁, hs₁, hrun⟩ := h
      rw [List.cons_append, observe_cons hs₁, observe_cons hs₁, ih hrun, List.append_assoc]

/-- Related states stay related: a step that meets `P` is matched by a run that shows the same. -/
def Simulates (step : σ → α → Option σ) (step' : τ → β → Option τ) (P : σ → α → Prop)
    (f : σ → α → Option γ) (g : τ → β → Option γ) (R : σ → τ → Prop) : Prop :=
  ∀ s a s' t, P s a → R s t → step s a = some s' →
    ∃ bs t', runFrom step' t bs = some t' ∧ observe step' g t bs = (f s a).toList ∧ R s' t'

/-- **Runs are simulated.** -/
theorem Simulates.run (h : Simulates step step' P f g R) :
    ∀ (as : List α) (s s' : σ) (t : τ), Meets step P s as → R s t → runFrom step s as = some s' →
      ∃ bs t', runFrom step' t bs = some t' ∧
        observe step' g t bs = observe step f s as ∧ R s' t' := by
  intro as
  induction as with
  | nil =>
      intro s s' t _ hR hrun
      cases hrun
      exact ⟨[], t, rfl, rfl, hR⟩
  | cons a as ih =>
      intro s s' t hmeets hR hrun
      rw [runFrom_cons, Option.bind_eq_some_iff] at hrun
      obtain ⟨s₁, hs₁, hrun⟩ := hrun
      obtain ⟨bs₁, t₁, hrun₁, hshow₁, hR₁⟩ := h s a s₁ t hmeets.1 hR hs₁
      obtain ⟨bs₂, t₂, hrun₂, hshow₂, hR₂⟩ := ih s₁ s' t₁ (hmeets.2 s₁ hs₁) hR₁ hrun
      refine ⟨bs₁ ++ bs₂, t₂, ?_, ?_, hR₂⟩
      · rw [runFrom_append, hrun₁, Option.bind_some, hrun₂]
      · rw [observe_append bs₂ hrun₁, hshow₁, hshow₂, observe_cons hs₁]

end Machine
