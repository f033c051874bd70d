import Mathlib

/-!
# Runs of a partial step function

A machine is a partial step function `step : σ → α → Option σ`: `none` when the input is refused
or the step cannot be completed.

* `runFrom step s as` feeds the inputs `as` one after another.
* `Meets step P s as`: every step of that run satisfies `P` in the state it starts from. This is
  how an assumption on the steps of a run (and not on its outcome) is stated.
* `ReachableBy step P init s`: some run from an initial state, all of whose steps meet `P`, ends
  in `s`. A state met in the middle of a run is the end of a shorter one, so a statement about
  every reachable state is a statement about every state of every run.
* `forall_states_iff_meets`: where a step that does not meet `P` ends in a bad state and one that
  does keeps the invariant, all states of a run are good exactly if all its steps meet `P`.
* `ReachableBy.invariant`: what holds initially and is kept by every admitted step holds in every
  reachable state.
* `countP_add_le`: a potential that steps of a kind use up bounds how many of them a run has.
* `observe step f s as`: what the steps of a run show.
* `tally step w s as`: the sum of the weights `w` of the steps of a run. `eq_add_tally`: a quantity
  that every step raises by its weight is raised by the tally; `tally_congr`, `tally_le`,
  `sum_tally`, `map_tally`: tallies compared step by step.
-/

namespace Machine

variable {σ α : Type*} {step : σ → α → Option σ} {P : σ → α → Prop} {init I : σ → Prop}

/-- Feed a list of inputs to a partial step function. -/
def runFrom (step : σ → α → Option σ) : σ → List α → Option σ
  | s, [] => some s
  | s, a :: as => (step s a).bind fun s' => runFrom step s' as

/-- Every step of the run from `s` on `as` satisfies `P` in the state it starts from. -/
def Meets (step : σ → α → Option σ) (P : σ → α → Prop) : σ → List α → Prop
  | _, [] => True
  | s, a :: as => P s a ∧ ∀ s', step s a = some s' → Meets step P s' as

/-- The end states of the runs from `init` all of whose steps meet `P`. -/
def ReachableBy (step : σ → α → Option σ) (P : σ → α → Prop) (init : σ → Prop) (s : σ) : Prop :=
  ∃ s₀ as, init s₀ ∧ Meets step P s₀ as ∧ runFrom step s₀ as = some s

/-- A run on given inputs can be checked step by step. -/
instance Meets.decidable [∀ s a, Decidable (P s a)] :
    ∀ (s : σ) (as : List α), Decidable (Meets step P s as)
  | _, [] => isTrue trivial
  | s, a :: as =>
      match h : step s a with
      | none => decidable_of_iff (P s a) ⟨fun hP => ⟨hP, by simp [h]⟩, And.left⟩
      | some s' =>
          have := Meets.decidable s' as
          decidable_of_iff (P s a ∧ Meets step P s' as)
            (and_congr_right fun _ => ⟨fun hm t ht => by
              obtain rfl : s' = t := Option.some.inj (h.symm.trans ht)
              exact hm, fun hm => hm s' h⟩)

@[simp] theorem runFrom_nil (s : σ) : runFrom step s [] = some s := rfl

@[simp] theorem runFrom_cons (s : σ) (a : α) (as : List α) :
    runFrom step s (a :: as) = (step s a).bind fun s' => runFrom step s' as := rfl

/-- Running a concatenation is running its halves in turn. -/
theorem runFrom_append (as bs : List α) (s : σ) :
    runFrom step s (as ++ bs) = (runFrom step s as).bind fun s' => runFrom step s' bs := by
  induction as generalizing s with
  | nil => simp
  | cons a as ih =>
      rw [List.cons_append, runFrom_cons, runFrom_cons]
      cases step s a with
      | none => simp
      | some s' => simpa using ih s'

/-- An assumption on the inputs alone. -/
theorem Meets.imp_of_mem {Q : σ → α → Prop} {as : List α} (h : ∀ a ∈ as, ∀ s, P s a → Q s a) {s : σ}
    (hm : Meets step P s as) : Meets step Q s as := by
  induction as generalizing s with
  | nil => trivial
  | cons a as ih =>
      obtain ⟨ha, has⟩ := List.forall_mem_cons.mp h
      exact ⟨ha s hm.1, fun s' hs' => ih has (hm.2 s' hs')⟩

theorem Meets.of_forall_mem {as : List α} (h : ∀ a ∈ as, ∀ s, P s a) (s : σ) :
    Meets step P s as := by
  induction as generalizing s with
  | nil => trivial
  | cons a as ih =>
      refine ⟨h a List.mem_cons_self s, fun s' _ => ih ?_ s'⟩
      exact fun b hb => h b (List.mem_cons_of_mem a hb)

/-- A run in two parts. -/
theorem Meets.append {as bs : List α} {s : σ} (h₁ : Meets step P s as)
    (h₂ : ∀ s', runFrom step s as = some s' → Meets step P s' bs) : Meets step P s (as ++ bs) := by
  induction as generalizing s with
  | nil => exact h₂ s rfl
  | cons a as ih =>
      refine ⟨h₁.1, fun s' hs' => ih (h₁.2 s' hs') fun s'' hs'' => h₂ s'' ?_⟩
      rw [runFrom_cons, hs', Option.bind_some, hs'']

/-- An assumption that is always true restricts no run. -/
theorem Meets.of_forall (h : ∀ s a, P s a) (s : σ) (as : List α) : Meets step P s as :=
  .of_forall_mem (fun a _ s => h s a) s

/-- One run, read as an induction: `I` at the start and kept by every admitted step is `I` at the
end. -/
theorem invariant_of_meets
    (hstep : ∀ s a s', P s a → I s → step s a = some s' → I s') :
    ∀ (as : List α) (s s' : σ), Meets step P s as → I s → runFrom step s as = some s' → I s' := by
  intro as
  induction as with
  | nil =>
      intro s s' _ hI hrun
      cases hrun
      exact hI
  | cons a as ih =>
      intro s s' hmeets hI hrun
      rw [runFrom_cons, Option.bind_eq_some_iff] at hrun
      obtain ⟨s₁, hs₁, hrun⟩ := hrun
      exact ih s₁ s' (hmeets.2 s₁ hs₁) (hstep s a s₁ hmeets.1 hI hs₁) hrun

/-- **The exact condition of a run**: `I` is kept by the steps that meet `P` and makes a state good;
a step that does not meet `P` ends in a state that is not. -/
theorem forall_states_iff_meets {Good : σ → Prop} (hgood : ∀ s, I s → Good s)
    (hstep : ∀ s a s', P s a → I s → step s a = some s' → I s')
    (hbad : ∀ s a s', ¬ P s a → I s → step s a = some s' → ¬ Good s') :
    ∀ (as : List α) (s s' : σ), I s → runFrom step s as = some s' →
      ((∀ k s₁, runFrom step s (as.take k) = some s₁ → Good s₁) ↔ Meets step P s as) := by
  intro as
  induction as with
  | nil =>
      intro s s' hI _
      refine iff_of_true ?_ trivial
      intro k s₁ hrun
      rw [List.take_nil] at hrun
      cases hrun
      exact hgood s hI
  | cons a as ih =>
      intro s s' hI hrun
      rw [runFrom_cons, Option.bind_eq_some_iff] at hrun
      obtain ⟨s₁, hs₁, hrun⟩ := hrun
      have htake : ∀ k, runFrom step s ((a :: as).take (k + 1)) = runFrom step s₁ (as.take k) := by
        intro k
        rw [List.take_succ_cons, runFrom_cons, hs₁, Option.bind_some]
      constructor
      · intro hall
        have hP : P s a := by
          by_contra hP
          exact hbad s a s₁ hP hI hs₁ (hall 1 s₁ (by rw [htake]; simp))
        refine ⟨hP, fun s₂ hs₂ => ?_⟩
        obtain rfl := Option.some.inj (hs₁.symm.trans hs₂)
        refine (ih s₁ s' (hstep s a s₁ hP hI hs₁) hrun).mp ?_
        exact fun k s₂ hk => hall (k + 1) s₂ ((htake k).trans hk)
      · rintro ⟨hP, hrest⟩ k s₂ hk
        cases k with
        | zero =>
            cases hk
            exact hgood s hI
        | succ k =>
            rw [htake] at hk
            exact (ih s₁ s' (hstep s a s₁ hP hI hs₁) hrun).mpr (hrest s₁ hs₁) k s₂ hk

/-- **Potential**: where each step of a kind takes one from `μ` and no step adds to it, a run has no
more steps of that kind than were there. -/
theorem countP_add_le {p : α → Bool} {μ : σ → ℕ}
    (hstep : ∀ s a s', step s a = some s' → (if p a then 1 else 0) + μ s' ≤ μ s) :
    ∀ (as : List α) (s s' : σ), runFrom step s as = some s' → as.countP p + μ s' ≤ μ s := by
  intro as
  induction as with
  | nil =>
      intro s s' hrun
      cases hrun
      exact (Nat.zero_add _).le
  | cons a as ih =>
      intro s s' hrun
      rw [runFrom_cons, Option.bind_eq_some_iff] at hrun
      obtain ⟨s₁, hs₁, hrun⟩ := hrun
      have hfirst := hstep s a s₁ hs₁
      have hrest := ih s₁ s' hrun
      rw [List.countP_cons]
      omega

namespace ReachableBy

/-- An initial state is reachable. -/
theorem start {s : σ} (h : init s) : ReachableBy step P init s := ⟨s, [], h, trivial, rfl⟩

/-- **Invariant rule.** -/
theorem invariant (h₀ : ∀ s, init s → I s)
    (hstep : ∀ s a s', P s a → I s → step s a = some s' → I s') {s : σ}
    (h : ReachableBy step P init s) : I s := by
  obtain ⟨s₀, as, hi, hmeets, hrun⟩ := h
  exact invariant_of_meets hstep as s₀ s hmeets (h₀ s₀ hi) hrun

end ReachableBy

/-! ## What a run shows -/

/-- What a run shows: `f` of each of its steps, where it is something. -/
def observe {β : Type*} (step : σ → α → Option σ) (f : σ → α → Option β) : σ → List α → List β
  | _, [] => []
  | s, a :: as => (f s a).toList ++ (step s a).elim [] fun s' => observe step f s' as

theorem observe_cons {β : Type*} {f : σ → α → Option β} {s s' : σ} {a : α} (h : step s a = some s')
    (as : List α) : observe step f s (a :: as) = (f s a).toList ++ observe step f s' as := by
  rw [observe, h, Option.elim_some]

theorem observe_singleton {β : Type*} (f : σ → α → Option β) (s : σ) (a : α) :
    observe step f s [a] = (f s a).toList := by
  rw [observe]
  cases step s a <;> exact List.append_nil _

/-! ## Tallies -/

section tally

variable {ι M N : Type*} [AddCommMonoid M] [AddCommMonoid N] {w w' : σ → α → M}

/-- The sum of the weights of the steps of a run, each in the state it starts from. -/
def tally (step : σ → α → Option σ) (w : σ → α → M) : σ → List α → M
  | _, [] => 0
  | s, a :: as => w s a + (step s a).elim 0 fun s' => tally step w s' as

@[simp] theorem tally_nil (s : σ) : tally step w s [] = 0 := rfl

theorem tally_cons {s s' : σ} {a : α} (h : step s a = some s') (as : List α) :
    tally step w s (a :: as) = w s a + tally step w s' as := by
  rw [tally, h, Option.elim_some]

variable (hI : ∀ s a s', I s → step s a = some s' → I s')
include hI

/-- **The account of a run**: where every step raises `f` by its weight, the run raises it by the
tally. -/
theorem eq_add_tally {f : σ → M}
    (hf : ∀ s a s', I s → step s a = some s' → f s' = f s + w s a) :
    ∀ (as : List α) (s s' : σ), I s → runFrom step s as = some s' →
      f s' = f s + tally step w s as := by
  intro as
  induction as with
  | nil =>
      intro s s' _ hrun
      cases hrun
      rw [tally_nil, add_zero]
  | cons a as ih =>
      intro s s' hs hrun
      rw [runFrom_cons, Option.bind_eq_some_iff] at hrun
      obtain ⟨s₁, hs₁, hrun⟩ := hrun
      rw [ih s₁ s' (hI s a s₁ hs hs₁) hrun, hf s a s₁ hs hs₁, tally_cons hs₁, add_assoc]

/-- Equal weights along a run. `E` is what the end of a step says about it, and passes back to its
start. -/
theorem tally_congr {E : σ → Prop}
    (hE : ∀ s a s', I s → step s a = some s' → E s' → E s ∧ w s a = w' s a) :
    ∀ (as : List α) (s s' : σ), I s → runFrom step s as = some s' → E s' →
      E s ∧ tally step w s as = tally step w' s as := by
  intro as
  induction as with
  | nil =>
      intro s s' _ hrun he
      cases hrun
      exact ⟨he, rfl⟩
  | cons a as ih =>
      intro s s' hs hrun he
      rw [runFrom_cons, Option.bind_eq_some_iff] at hrun
      obtain ⟨s₁, hs₁, hrun⟩ := hrun
      obtain ⟨he₁, htally⟩ := ih s₁ s' (hI s a s₁ hs hs₁) hrun he
      obtain ⟨he₀, hw⟩ := hE s a s₁ hs hs₁ he₁
      exact ⟨he₀, by rw [tally_cons hs₁, tally_cons hs₁, hw, htally]⟩

/-- Smaller weights along a run. -/
theorem tally_le {p q : σ → α → ℕ}
    (hle : ∀ s a s', I s → step s a = some s' → p s a ≤ q s a) :
    ∀ (as : List α) (s s' : σ), I s → runFrom step s as = some s' →
      tally step p s as ≤ tally step q s as := by
  intro as
  induction as with
  | nil => exact fun _ _ _ _ => le_rfl
  | cons a as ih =>
      intro s s' hs hrun
      rw [runFrom_cons, Option.bind_eq_some_iff] at hrun
      obtain ⟨s₁, hs₁, hrun⟩ := hrun
      rw [tally_cons hs₁, tally_cons hs₁]
      exact Nat.add_le_add (hle s a s₁ hs hs₁) (ih s₁ s' (hI s a s₁ hs hs₁) hrun)

/-- Weights that add up at every step add up along a run. -/
theorem sum_tally [Fintype ι] {v : ι → σ → α → M}
    (hsum : ∀ s a s', I s → step s a = some s' → ∑ i, v i s a = w s a) :
    ∀ (as : List α) (s s' : σ), I s → runFrom step s as = some s' →
      ∑ i, tally step (v i) s as = tally step w s as := by
  intro as
  induction as with
  | nil => exact fun _ _ _ _ => Finset.sum_const_zero
  | cons a as ih =>
      intro s s' hs hrun
      rw [runFrom_cons, Option.bind_eq_some_iff] at hrun
      obtain ⟨s₁, hs₁, hrun⟩ := hrun
      simp only [tally_cons hs₁]
      rw [Finset.sum_add_distrib, hsum s a s₁ hs hs₁, ih s₁ s' (hI s a s₁ hs hs₁) hrun]

omit hI in
/-- The tally of weights that were mapped. -/
theorem map_tally (φ : M →+ N) (as : List α) (s : σ) :
    φ (tally step w s as) = tally step (fun s a => φ (w s a)) s as := by
  induction as generalizing s with
  | nil => exact φ.map_zero
  | cons a as ih =>
      rw [tally, tally, φ.map_add]
      cases step s a with
      | none => rw [Option.elim_none, Option.elim_none, φ.map_zero]
      | some s' => rw [Option.elim_some, Option.elim_some, ih]

end tally

end Machine
