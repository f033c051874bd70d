import ChironFs.Lib.Run

/-!
# Going round a list

* `Cycles l a w`: the entries of `w` are those of `l` from position `a` on, round and round.
* `Cycles.stretch`: so are those of every stretch of `w`.
* `Cycles.count_eq`: a stretch of `k` rounds has every entry `k` times as often as `l`.
* `Machine.cycles_observe`: a run that moves a cursor by one each time it shows something goes round
  the list.
-/

variable {β : Type*} {l w : List β} {a b : ℕ}

/-- `w` goes round `l` from position `a` on. -/
def Cycles (l : List β) (a : ℕ) (w : List β) : Prop :=
  ∀ t < w.length, w[t]? = l[(a + t) % l.length]?

namespace Cycles

theorem nil (l : List β) (a : ℕ) : Cycles l a [] := fun _ ht => absurd ht (Nat.not_lt_zero _)

/-- Only the position in the list matters. -/
theorem congr (h : a % l.length = b % l.length) (hw : Cycles l a w) : Cycles l b w := by
  intro t ht
  rw [hw t ht, Nat.add_mod, h, ← Nat.add_mod]

theorem cons {x : β} (hx : l[a % l.length]? = some x) (hw : Cycles l (a + 1) w) :
    Cycles l a (x :: w) := by
  intro t ht
  cases t with
  | zero => exact hx.symm
  | succ t =>
      rw [List.getElem?_cons_succ, hw t (Nat.lt_of_succ_lt_succ ht), Nat.add_right_comm, Nat.add_assoc]

theorem drop (hw : Cycles l a w) (k : ℕ) : Cycles l (a + k) (w.drop k) := by
  intro t ht
  rw [List.length_drop] at ht
  rw [List.getElem?_drop, hw (k + t) (by omega), Nat.add_assoc]

theorem take (hw : Cycles l a w) (k : ℕ) : Cycles l a (w.take k) := by
  intro t ht
  rw [List.length_take, lt_min_iff] at ht
  rw [List.getElem?_take_of_lt ht.1, hw t ht.2]

/-- A stretch of a list that goes round goes round. -/
theorem stretch {v : List β} (hw : Cycles l a w) (h : v <:+: w) : ∃ b, Cycles l b v := by
  obtain ⟨s, t, rfl⟩ := h
  refine ⟨a + s.length, ?_⟩
  have hv := ((hw.drop s.length).take v.length)
  rwa [List.append_assoc, List.drop_left, List.take_left] at hv

/-- One round is the list, rotated. -/
theorem eq_rotate (hw : Cycles l a w) (hlen : w.length = l.length) : w = l.rotate a := by
  refine List.ext_getElem? fun t => ?_
  rcases Nat.lt_or_ge t l.length with ht | ht
  · rw [hw t (hlen ▸ ht), List.getElem?_rotate ht, Nat.add_comm]
  · rw [List.getElem?_eq_none (hlen ▸ ht), List.getElem?_eq_none (by rwa [List.length_rotate])]

/-- **Round by round, everybody the same number of times.** By induction on the rounds. -/
theorem count_eq [BEq β] {k : ℕ} (hw : Cycles l a w) (hlen : w.length = k * l.length) (x : β) :
    w.count x = k * l.count x := by
  induction k generalizing a w with
  | zero =>
      rw [Nat.zero_mul, List.length_eq_zero_iff] at hlen
      rw [hlen, List.count_nil, Nat.zero_mul]
  | succ k ih =>
      rw [Nat.succ_mul] at hlen
      have hround : w.take l.length = l.rotate a :=
        (hw.take _).eq_rotate (by rw [List.length_take]; omega)
      have hrest := ih (hw.drop l.length) (by rw [List.length_drop]; omega)
      rw [← List.take_append_drop l.length w, List.count_append, hround, hrest,
        (List.rotate_perm l a).count_eq, Nat.succ_mul, Nat.add_comm]

end Cycles

namespace Machine

variable {σ α : Type*} {step : σ → α → Option σ} {I : σ → Prop}

/-- **A run goes round the list** when each step that shows something moves the cursor by one and
shows the entry it then stands at, and no other step moves it. -/
theorem cycles_observe {f : σ → α → Option β} (cur : σ → ℕ)
    (hI : ∀ s a s', I s → step s a = some s' → I s')
    (hsome : ∀ s a s' x, I s → step s a = some s' → f s a = some x →
      l[(cur s + 1) % l.length]? = some x ∧ cur s' = (cur s + 1) % l.length)
    (hnone : ∀ s a s', I s → step s a = some s' → f s a = none → cur s' = cur s) :
    ∀ (as : List α) (s s' : σ), I s → runFrom step s as = some s' →
      Cycles l (cur s + 1) (observe step f s as) := by
  intro as
  induction as with
  | nil => exact fun s _ _ _ => Cycles.nil l _
  | cons a as ih =>
      intro s s' hs hrun
      rw [runFrom_cons, Option.bind_eq_some_iff] at hrun
      obtain ⟨s₁, hs₁, hrun⟩ := hrun
      have hrest := ih s₁ s' (hI s a s₁ hs hs₁) hrun
      rw [observe_cons hs₁]
      cases hf : f s a with
      | none =>
          rw [hnone s a s₁ hs hs₁ hf] at hrest
          exact hrest
      | some x =>
          obtain ⟨hx, hcur⟩ := hsome s a s₁ x hs hs₁ hf
          refine Cycles.cons hx (hrest.congr ?_)
          rw [hcur, Nat.mod_add_mod]

end Machine
