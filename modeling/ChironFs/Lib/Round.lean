import Mathlib

/-!
# One round of a replicated operation

A *round* asks some members of an index set to do one operation and records the fate of each: it
was `skipped`, it answered `ok`, or it `failed`. The rule under study is **fail-drop**: after a
round in which somebody succeeded, every member that failed is dropped; a round in which nobody
succeeded drops nobody.

* `Round.Succeeded`, `Round.Drops`, `Round.survivors`: the rule.
* `survivors_nonempty`: the rule never drops the last member.
* `Agree` and `agree_survivors`: if all live members held one value, and a success moves a member
  to a common new value while a failure leaves it alone, the survivors hold one value again: the
  new one if somebody succeeded, the old one otherwise. This is the one-operation step of state
  machine replication under fail-drop.
* `triedUntil`: the members a search asks that stops at the first success.

Everything is over an arbitrary index type.
-/

namespace Replication

variable {ι ρ ε S : Type*}

/-- What became of one member in a round. -/
inductive Fate (ρ ε : Type*)
  | skipped
  | ok (reply : ρ)
  | failed (err : ε)

namespace Fate

/-- The member answered. -/
def isOk : Fate ρ ε → Bool
  | ok _ => true
  | _ => false

/-- The member failed. -/
def isFailed : Fate ρ ε → Bool
  | failed _ => true
  | _ => false

@[simp] theorem isOk_skipped : (skipped : Fate ρ ε).isOk = false := rfl
@[simp] theorem isOk_ok (r : ρ) : (ok r : Fate ρ ε).isOk = true := rfl
@[simp] theorem isOk_failed (e : ε) : (failed e : Fate ρ ε).isOk = false := rfl
@[simp] theorem isFailed_skipped : (skipped : Fate ρ ε).isFailed = false := rfl
@[simp] theorem isFailed_ok (r : ρ) : (ok r : Fate ρ ε).isFailed = false := rfl
@[simp] theorem isFailed_failed (e : ε) : (failed e : Fate ρ ε).isFailed = true := rfl

/-- A fate that is an answer. -/
theorem isOk_iff {f : Fate ρ ε} : f.isOk = true ↔ ∃ r, f = ok r := by
  cases f <;> simp

/-- A fate that is a failure. -/
theorem isFailed_iff {f : Fate ρ ε} : f.isFailed = true ↔ ∃ e, f = failed e := by
  cases f <;> simp

/-- A member that answered did not fail. -/
theorem isFailed_eq_false_of_isOk {f : Fate ρ ε} (h : f.isOk = true) : f.isFailed = false := by
  cases f <;> simp_all

end Fate

/-- The fates of all members. -/
abbrev Round (ι ρ ε : Type*) := ι → Fate ρ ε

namespace Round

variable (R : Round ι ρ ε)

/-- Somebody answered. -/
def Succeeded : Prop := ∃ i, (R i).isOk = true

/-- The fail-drop rule: `i` failed in a round in which somebody answered. -/
def Drops (i : ι) : Prop := R.Succeeded ∧ (R i).isFailed = true

/-- The live members that are not dropped. -/
def survivors (live : Set ι) : Set ι := {i | i ∈ live ∧ ¬ R.Drops i}

instance [Fintype ι] : Decidable R.Succeeded := by unfold Succeeded; infer_instance

instance [Fintype ι] (i : ι) : Decidable (R.Drops i) := by unfold Drops; infer_instance

variable {R}

/-- A round succeeded when somebody answered. -/
theorem succeeded_iff : R.Succeeded ↔ ∃ i r, R i = .ok r :=
  exists_congr fun _ => Fate.isOk_iff

/-- One answer is enough. -/
theorem succeeded_of_eq_ok {i : ι} {r : ρ} (h : R i = .ok r) : R.Succeeded :=
  succeeded_iff.mpr ⟨i, r, h⟩

/-- Then whoever failed is dropped. -/
theorem drops_of_eq_failed (hs : R.Succeeded) {i : ι} {e : ε} (h : R i = .failed e) : R.Drops i :=
  ⟨hs, Fate.isFailed_iff.mpr ⟨e, h⟩⟩

/-- In a round that nobody answered, whoever was asked failed. -/
theorem isFailed_of_not_succeeded (hs : ¬ R.Succeeded) {i : ι} (h : R i ≠ .skipped) :
    (R i).isFailed = true := by
  cases hR : R i with
  | skipped => exact absurd hR h
  | ok r => exact absurd (succeeded_of_eq_ok hR) hs
  | failed e => rfl

/-- Who answered is not dropped. -/
theorem not_drops_of_ok {i : ι} (h : (R i).isOk = true) : ¬ R.Drops i := by
  rintro ⟨-, hf⟩
  rw [Fate.isFailed_eq_false_of_isOk h] at hf
  cases hf

/-- Renaming the members renames who is dropped. -/
theorem succeeded_comp (σ : Equiv.Perm ι) : Round.Succeeded (fun i => R (σ i)) ↔ R.Succeeded :=
  (σ.surjective.exists (p := fun i => (R i).isOk = true)).symm

/-- Renaming the members renames whom it drops. -/
theorem drops_comp (σ : Equiv.Perm ι) (i : ι) : Round.Drops (fun i => R (σ i)) i ↔ R.Drops (σ i) :=
  and_congr_left fun _ => succeeded_comp σ

/-- A round that nobody answered drops nobody. -/
theorem not_drops_of_not_succeeded (h : ¬ R.Succeeded) (i : ι) : ¬ R.Drops i := fun hd => h hd.1

/-- **Fail-drop keeps somebody**: only members that were live answer, so when the rule drops
anybody, one that answered stays. -/
theorem survivors_nonempty {live : Set ι} (hlive : ∀ i, (R i).isOk = true → i ∈ live)
    (h : live.Nonempty) : (R.survivors live).Nonempty := by
  by_cases hs : R.Succeeded
  · obtain ⟨i, hi⟩ := hs
    exact ⟨i, hlive i hi, not_drops_of_ok hi⟩
  · obtain ⟨i, hi⟩ := h
    exact ⟨i, hi, not_drops_of_not_succeeded hs i⟩

/-- In a round that asks every live member, the survivors of a success are those that answered. -/
theorem ok_of_mem_survivors {live : Set ι} (hall : ∀ i ∈ live, R i ≠ .skipped)
    (hs : R.Succeeded) {i : ι} (hi : i ∈ R.survivors live) : (R i).isOk = true := by
  obtain ⟨hl, hd⟩ := hi
  cases hR : R i with
  | skipped => exact absurd hR (hall i hl)
  | ok r => rfl
  | failed e => exact absurd (drops_of_eq_failed hs hR) hd

end Round

/-- All live members hold `c`. -/
def Agree (live : Set ι) (store : ι → S) (c : S) : Prop := ∀ i ∈ live, store i = c

/-- **Agreement survives a round that asks everybody**: where every success ends with the value `c`,
so do all survivors of a round somebody answered. -/
theorem agree_survivors {R : Round ι ρ ε} {live : Set ι} {store : ι → S} {c : S}
    (hall : ∀ i ∈ live, R i ≠ .skipped) (hok : ∀ i ∈ live, (R i).isOk = true → store i = c)
    (hs : R.Succeeded) : Agree (R.survivors live) store c := by
  intro i hi
  exact hok i hi.1 (Round.ok_of_mem_survivors hall hs hi)

/-- A round that nobody answered leaves the members as they agreed. -/
theorem agree_survivors_of_not_succeeded {R : Round ι ρ ε} {live : Set ι} {store store' : ι → S}
    {c : S} (hagree : Agree live store c)
    (hkeep : ∀ i ∈ live, (R i).isOk = false → store' i = store i) (hs : ¬ R.Succeeded) :
    Agree (R.survivors live) store' c := by
  intro i hi
  have hno : (R i).isOk = false := by
    cases h : (R i).isOk with
    | false => rfl
    | true => exact absurd ⟨i, h⟩ hs
  rw [hkeep i hi.1 hno, hagree i hi.1]

/-! ### Searches that stop at the first success -/

/-- The members asked when `l` is gone through in order and the search stops at the first member
satisfying `p`: the ones before it and that one. -/
def triedUntil (p : ι → Bool) : List ι → List ι
  | [] => []
  | i :: l => if p i then [i] else i :: triedUntil p l

section tried

variable {p : ι → Bool} {l l₁ l₂ : List ι}

/-- Nobody is tried. -/
@[simp] theorem triedUntil_nil : triedUntil p [] = [] := rfl

/-- The first one answers. -/
theorem triedUntil_cons_pos {i : ι} (h : p i = true) : triedUntil p (i :: l) = [i] := by
  simp [triedUntil, h]

/-- The first one does not answer, and the next is tried. -/
theorem triedUntil_cons_neg {i : ι} (h : p i = false) :
    triedUntil p (i :: l) = i :: triedUntil p l := by
  simp [triedUntil, h]

/-- Only members of the list are tried. -/
theorem triedUntil_subset : triedUntil p l ⊆ l := by
  induction l with
  | nil => simp
  | cons i l ih =>
      cases h : p i with
      | true => simp [triedUntil_cons_pos h]
      | false =>
          rw [triedUntil_cons_neg h]
          exact List.cons_subset_cons i ih

/-- The search ends with a success exactly when there is one to be found. -/
theorem exists_mem_triedUntil : (∃ i ∈ triedUntil p l, p i = true) ↔ ∃ i ∈ l, p i = true := by
  induction l with
  | nil => simp
  | cons i l ih =>
      cases h : p i with
      | true => simp [triedUntil_cons_pos h, h]
      | false => simp [triedUntil_cons_neg h, h, ih]

/-- A search that finds nothing in its first part goes on in the second. -/
theorem triedUntil_append_of_forall (h : ∀ i ∈ l₁, p i = false) :
    triedUntil p (l₁ ++ l₂) = l₁ ++ triedUntil p l₂ := by
  induction l₁ with
  | nil => rfl
  | cons i l₁ ih =>
      rw [List.cons_append, triedUntil_cons_neg (h i List.mem_cons_self),
        ih fun j hj => h j (List.mem_cons_of_mem i hj), List.cons_append]

/-- A search that finds something in its first part does not reach the second. -/
theorem triedUntil_append_of_exists (h : ∃ i ∈ l₁, p i = true) :
    triedUntil p (l₁ ++ l₂) = triedUntil p l₁ := by
  induction l₁ with
  | nil => simp at h
  | cons i l₁ ih =>
      cases hi : p i with
      | true => rw [List.cons_append, triedUntil_cons_pos hi, triedUntil_cons_pos hi]
      | false =>
          have hrest : ∃ j ∈ l₁, p j = true := by
            obtain ⟨j, hj, hpj⟩ := h
            rcases List.mem_cons.mp hj with rfl | hj
            · rw [hi] at hpj
              cases hpj
            · exact ⟨j, hj, hpj⟩
          rw [List.cons_append, triedUntil_cons_neg hi, triedUntil_cons_neg hi, ih hrest]

/-- Without a success everybody is asked. -/
theorem triedUntil_eq_self (h : ∀ i ∈ l, p i = false) : triedUntil p l = l := by
  have happ : triedUntil p (l ++ []) = l ++ triedUntil p [] := triedUntil_append_of_forall h
  simpa using happ

/-- The search ends with the first success. -/
theorem triedUntil_append_cons {a : ι} (h : ∀ i ∈ l₁, p i = false) (ha : p a = true) :
    triedUntil p (l₁ ++ a :: l₂) = l₁ ++ [a] := by
  rw [triedUntil_append_of_forall h, triedUntil_cons_pos ha]

end tried

end Replication
