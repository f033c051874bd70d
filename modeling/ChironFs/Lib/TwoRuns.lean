import ChironFs.Lib.Run

/-!
# Two runs side by side

* `runs_related`: two machines whose steps keep a relation between their states, and show related
  things, keep it along whole runs.
* `runs_eq`: two machines that take the same step wherever an assumption holds make the same run
  where it holds at every step.
* `runs_bisim`: two machines that show the same step by step, and stop together, do so along whole
  runs.
-/

namespace Machine

section related

variable {σ τ α β γ δ : Type*} {step₁ : σ → α → Option σ} {step₂ : τ → β → Option τ}
  {f : σ → α → Option γ} {g : τ → β → Option δ} {R : σ → τ → Prop} {A : α → β → Prop}
  {B : γ → δ → Prop}

/-- **Two runs that correspond step by step.** By induction on the inputs. -/
theorem runs_related
    (hstep : ∀ s t a b, R s t → A a b → ∃ s' t' c d, step₁ s a = some s' ∧ step₂ t b = some t' ∧
      f s a = some c ∧ g t b = some d ∧ R s' t' ∧ B c d) {as : List α} {bs : List β}
    (h : List.Forall₂ A as bs) {s : σ} {t : τ} (hR : R s t) :
    ∃ s' t', runFrom step₁ s as = some s' ∧ runFrom step₂ t bs = some t' ∧ R s' t' ∧
      List.Forall₂ B (observe step₁ f s as) (observe step₂ g t bs) := by
  induction h generalizing s t with
  | nil => exact ⟨s, t, rfl, rfl, hR, .nil⟩
  | @cons a b as bs hab _ ih =>
      obtain ⟨s₁, t₁, c, d, hs, ht, hc, hd, hR₁, hcd⟩ := hstep s t a b hR hab
      obtain ⟨s', t', hs', ht', hR', hobs⟩ := ih hR₁
      refine ⟨s', t', ?_, ?_, hR', ?_⟩
      · rw [runFrom_cons, hs, Option.bind_some, hs']
      · rw [runFrom_cons, ht, Option.bind_some, ht']
      · rw [observe_cons hs, observe_cons ht, hc, hd]
        exact .cons hcd hobs

end related

section equal

variable {σ α γ : Type*} {step₁ step₂ : σ → α → Option σ} {f g : σ → α → Option γ}
  {P : σ → α → Prop}

/-- **Two runs that are the same.** -/
theorem runs_eq (hstep : ∀ s a, P s a → step₁ s a = step₂ s a ∧ f s a = g s a) {as : List α} {s : σ}
    (h : Meets step₁ P s as) :
    runFrom step₁ s as = runFrom step₂ s as ∧ observe step₁ f s as = observe step₂ g s as := by
  induction as generalizing s with
  | nil => exact ⟨rfl, rfl⟩
  | cons a as ih =>
      obtain ⟨hnext, hshown⟩ := hstep s a h.1
      rw [runFrom_cons, runFrom_cons, observe, observe, ← hnext, ← hshown]
      cases hs : step₁ s a with
      | none => exact ⟨rfl, rfl⟩
      | some s' =>
          obtain ⟨hrun, hobs⟩ := ih (h.2 s' hs)
          exact ⟨hrun, congrArg _ hobs⟩

end equal

section bisimulation

variable {σ τ α γ : Type*} {step₁ : σ → α → Option σ} {step₂ : τ → α → Option τ}
  {f : σ → α → Option γ} {g : τ → α → Option γ} {R : σ → τ → Prop} {A : α → Prop}

/-- **A bisimulation**, for inputs that meet `A`: the two machines show the same, and they stop
together or stay related. -/
theorem runs_bisim (hstep : ∀ s t a, A a → R s t →
      Option.Rel R (step₁ s a) (step₂ t a) ∧ f s a = g t a) {as : List α} (hA : ∀ a ∈ as, A a)
    {s : σ} {t : τ} (hR : R s t) :
    Option.Rel R (runFrom step₁ s as) (runFrom step₂ t as) ∧
      observe step₁ f s as = observe step₂ g t as := by
  induction as generalizing s t with
  | nil => exact ⟨.some hR, rfl⟩
  | cons a as ih =>
      obtain ⟨hnext, hshown⟩ := hstep s t a (hA a List.mem_cons_self) hR
      rw [runFrom_cons, runFrom_cons, observe, observe, hshown]
      generalize step₁ s a = x, step₂ t a = y at hnext ⊢
      cases hnext with
      | none => exact ⟨.none, rfl⟩
      | some hR₁ =>
          obtain ⟨hrun, hobs⟩ := ih (fun b hb => hA b (List.mem_cons_of_mem a hb)) hR₁
          exact ⟨hrun, congrArg _ hobs⟩

end bisimulation

end Machine
