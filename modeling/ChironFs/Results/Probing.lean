import ChironFs.Model.Probing
import ChironFs.Model.Sample
import ChironFs.Spec.Handles

/-!
# What the probing finds, and what it looks at

* `Cells.seekLoop_eq`: where no index wraps, a loop looks at the cells from its start to where it
  ends, and ends where `Probe.scanFrom` does.
* `Cells.fdHashseekfree_first`: the first free slot round the table is found.
* `Cells.fdHashseekfree_inside_iff`: when only slots of the table are looked at.
* `Config.fdHashseekfree_eq_cells`: the probing with natural numbers returns the same.
-/

namespace ChironFs

namespace Cells

variable {mem : Cells} {bound fdBufSize : UInt64} {rounds : ℕ} {i fdNdx : UInt32}

theorem toUInt64_lt_iff : i.toUInt64 < bound ↔ i.toNat < bound.toNat := by
  rw [UInt64.lt_iff_toNat_lt, UInt32.toNat_toUInt64]

/-- The index after one round, when it does not wrap. -/
theorem toNat_add_one (h : i.toNat < bound.toNat) (hbound : bound.toNat < 2 ^ 32) :
    (i + 1).toNat = i.toNat + 1 := by
  rw [UInt32.toNat_add]
  exact Nat.mod_eq_of_lt (by simp; omega)

/-- **A loop**, by induction on the rounds. -/
theorem seekLoop_eq (hbound : bound.toNat < 2 ^ 32) (hi : i.toNat ≤ bound.toNat)
    (hrounds : bound.toNat - i.toNat < rounds) :
    mem.seekLoop bound rounds i =
      (List.range' i.toNat (Probe.scanFrom mem bound.toNat i.toNat - i.toNat + 1),
        some (UInt32.ofNat (Probe.scanFrom mem bound.toNat i.toNat))) := by
  induction rounds generalizing i with
  | zero => exact absurd hrounds (Nat.not_lt_zero _)
  | succ rounds ih =>
      rw [seekLoop, Probe.scanFrom_eq]
      by_cases hgo : mem i.toNat = true ∧ i.toNat < bound.toNat
      · have hnext := toNat_add_one hgo.2 hbound
        obtain ⟨hlo, -⟩ := Probe.scanFrom_spec mem bound.toNat (i.toNat + 1)
        rw [if_pos (by simpa [toUInt64_lt_iff] using hgo), if_pos (by simpa using hgo),
          ih (by omega) (by omega), hnext]
        refine Prod.ext ?_ rfl
        show i.toNat :: List.range' (i.toNat + 1) _ = _
        rw [← List.range'_succ]
        congr 1
        omega
      · rw [if_neg (by simpa [toUInt64_lt_iff] using hgo), if_neg (by simpa using hgo),
          Nat.sub_self, UInt32.ofNat_toNat]
        rfl

/-- **Both loops**, for a table whose slots have numbers of type `unsigned`. -/
theorem fdHashseekfree_eq (hsize : fdBufSize.toNat < 2 ^ 32) (hs : fdNdx.toNat < fdBufSize.toNat)
    (hrounds : fdBufSize.toNat < rounds) :
    mem.fdHashseekfree fdBufSize rounds fdNdx =
      let up := Probe.scanFrom mem fdBufSize.toNat fdNdx.toNat
      let down := Probe.scanFrom mem fdNdx.toNat 0
      (List.range' fdNdx.toNat (up - fdNdx.toNat + 1) ++
          if up < fdBufSize.toNat then [] else List.range' 0 (down + 1),
        some (if up < fdBufSize.toNat then (UInt32.ofNat up).toInt32.toInt
          else if down < fdNdx.toNat then (UInt32.ofNat down).toInt32.toInt
          else CHIRONFS_ERR_TOO_MANY_FOPENS)) := by
  have htwo : fdNdx.toUInt64.toNat = fdNdx.toNat := UInt32.toNat_toUInt64 _
  have hback : ∀ {k : ℕ}, k ≤ fdBufSize.toNat → (UInt32.ofNat k).toNat = k := fun hk =>
    UInt32.toNat_ofNat_of_lt' (lt_of_le_of_lt hk hsize)
  have hup := hback ((Probe.scanFrom_spec mem fdBufSize.toNat fdNdx.toNat).2.1.trans
    (max_le hs.le le_rfl))
  have hdown := hback ((Probe.scanFrom_spec mem fdNdx.toNat 0).2.1.trans
    (max_le (Nat.zero_le _) hs.le))
  rw [fdHashseekfree, seekLoop_eq hsize hs.le (by omega)]
  simp only [toUInt64_lt_iff, hup]
  by_cases hend : Probe.scanFrom mem fdBufSize.toNat fdNdx.toNat < fdBufSize.toNat
  · simp only [if_pos hend, List.append_nil]
  · have hzero : (0 : UInt32).toNat = 0 := rfl
    simp only [if_neg hend]
    rw [seekLoop_eq (by rw [htwo]; omega) (by rw [hzero]; omega) (by rw [htwo]; omega), htwo, hzero]
    simp only [UInt32.lt_iff_toNat_lt, hdown, Nat.sub_zero]

/-- A number of a slot as an `int`. -/
theorem toInt_ofNat {k : ℕ} (hk : k < 2 ^ 31) : (UInt32.ofNat k).toInt32.toInt = k := by
  have hnat : (UInt32.ofNat k).toBitVec.toNat = k :=
    UInt32.toNat_ofNat_of_lt' (lt_trans hk (by decide))
  have htwice : 2 * (UInt32.ofNat k).toBitVec.toNat < 2 ^ 32 := by
    rw [hnat]
    omega
  exact (BitVec.toInt_eq_toNat_of_lt htwice).trans (congrArg Nat.cast hnat)

/-- **The first free slot is found**, whatever lies behind the table: the value returned is its
number, and the error exactly when the table is full. -/
theorem fdHashseekfree_first (hsize : fdBufSize.toNat ≤ 2 ^ 31)
    (hs : fdNdx.toNat < fdBufSize.toNat) (hrounds : fdBufSize.toNat < rounds) :
    ∃ r, (mem.fdHashseekfree fdBufSize rounds fdNdx).2 = some r ∧
      (∀ k : ℕ, r = k ↔ Probe.FirstFree mem fdBufSize.toNat fdNdx.toNat k) ∧
      (r = CHIRONFS_ERR_TOO_MANY_FOPENS ↔ ∀ k < fdBufSize.toNat, mem k = true) := by
  rw [fdHashseekfree_eq (lt_of_le_of_lt hsize (by decide)) hs hrounds]
  refine ⟨_, rfl, ?_⟩
  have hfound : ∀ {m : ℕ}, Probe.FirstFree mem fdBufSize.toNat fdNdx.toNat m →
      (∀ k : ℕ, (m : ℤ) = k ↔ Probe.FirstFree mem fdBufSize.toNat fdNdx.toNat k) ∧
        ((m : ℤ) = CHIRONFS_ERR_TOO_MANY_FOPENS ↔ ∀ k < fdBufSize.toNat, mem k = true) := by
    intro m hm
    refine ⟨fun k => ?_, iff_of_false (by unfold CHIRONFS_ERR_TOO_MANY_FOPENS; omega) fun hfull => ?_⟩
    · constructor
      · intro heq
        obtain rfl := Int.ofNat.inj heq
        exact hm
      · intro hk
        rw [hm.unique hs hk]
    · have hused := hfull m hm.lt
      rw [hm.free] at hused
      cases hused
  by_cases hup : Probe.scanFrom mem fdBufSize.toNat fdNdx.toNat < fdBufSize.toNat
  · rw [if_pos hup, toInt_ofNat (by omega)]
    exact hfound (Probe.firstFree_up hup)
  · by_cases hdown : Probe.scanFrom mem fdNdx.toNat 0 < fdNdx.toNat
    · rw [if_neg hup, if_pos hdown, toInt_ofNat (by omega)]
      exact hfound (Probe.firstFree_down hs hup hdown)
    · rw [if_neg hup, if_neg hdown]
      have hfull := Probe.full_of_scans hup hdown
      refine ⟨fun k => iff_of_false ?_ fun hk => ?_, iff_of_true rfl hfull⟩
      · unfold CHIRONFS_ERR_TOO_MANY_FOPENS
        omega
      · have hused := hfull k hk.lt
        rw [hk.free] at hused
        cases hused

/-- In a table of eight slots, all used but slot 1, the probing from slot 5 goes round. -/
theorem fdHashseekfree_first_round :
    ∃ r, (fdHashseekfree (fun k => k ≠ 1) 8 9 5).2 = some r ∧ r = 1 := by
  obtain ⟨r, hr, hfirst, -⟩ := @fdHashseekfree_first (fun k => k ≠ 1) 8 9 5 (by decide) (by decide)
    (by decide)
  exact ⟨r, hr, (hfirst 1).mpr ⟨by decide, rfl, by decide⟩⟩

/-! ## The cells looked at -/

/-- With slots `5`, `6` and `7` of eight used, the probing from slot `5` looks behind the table. -/
theorem fdHashseekfree_outside :
    ∃ k ∈ (fdHashseekfree (fun k => 5 ≤ k) 8 9 5).1, ¬ k < (8 : UInt64).toNat := by
  decide

theorem seekLoop_lt_two (k : ℕ) (hk : k ∈ (mem.seekLoop bound rounds i).1) : k < 2 ^ 32 := by
  induction rounds generalizing i with
  | zero => cases hk
  | succ rounds ih =>
      rw [seekLoop] at hk
      split_ifs at hk
      · rcases List.mem_cons.mp hk with rfl | hk
        · exact i.toNat_lt
        · exact ih hk
      · rw [List.mem_singleton.mp hk]
        exact i.toNat_lt

/-- A loop looks at no cell behind one at which it has to stop. -/
theorem seekLoop_le (hbound : bound.toNat < 2 ^ 32) {m : ℕ}
    (hstop : ¬ (mem m = true ∧ m < bound.toNat)) (hi : i.toNat ≤ m) (k : ℕ)
    (hk : k ∈ (mem.seekLoop bound rounds i).1) : k ≤ m := by
  induction rounds generalizing i with
  | zero => cases hk
  | succ rounds ih =>
      rw [seekLoop] at hk
      split_ifs at hk with hgo
      · rw [Bool.and_eq_true, decide_eq_true_eq, toUInt64_lt_iff] at hgo
        rcases List.mem_cons.mp hk with rfl | hk
        · exact hi
        · refine ih ?_ hk
          rw [toNat_add_one hgo.2 hbound]
          have hne : i.toNat ≠ m := fun heq => hstop (heq ▸ hgo)
          omega
      · rw [List.mem_singleton.mp hk]
        exact hi

/-- **Which probings stay inside the table**: those from a slot behind which, or at which, one is
free. In a table of `2 ^ 32` slots or more no index reaches the end. -/
theorem fdHashseekfree_inside_iff (hs : fdNdx.toNat < fdBufSize.toNat) :
    (∀ rounds, ∀ k ∈ (mem.fdHashseekfree fdBufSize rounds fdNdx).1, k < fdBufSize.toNat) ↔
      2 ^ 32 ≤ fdBufSize.toNat ∨
        ∃ k, fdNdx.toNat ≤ k ∧ k < fdBufSize.toNat ∧ mem k = false := by
  have hsplit : ∀ {rounds k}, k ∈ (mem.fdHashseekfree fdBufSize rounds fdNdx).1 →
      k ∈ (mem.seekLoop fdBufSize rounds fdNdx).1 ∨
        k ∈ (mem.seekLoop fdNdx.toUInt64 rounds 0).1 := by
    intro rounds k hk
    unfold fdHashseekfree at hk
    generalize mem.seekLoop fdBufSize rounds fdNdx = up, mem.seekLoop fdNdx.toUInt64 rounds 0 = down
      at hk ⊢
    obtain ⟨seen, _ | i⟩ := up
    · exact Or.inl hk
    · simp only at hk
      split_ifs at hk
      · exact Or.inl hk
      · obtain ⟨seen', _ | j⟩ := down
        · exact List.mem_append.mp hk
        · exact List.mem_append.mp hk
  constructor
  · intro h
    by_contra hno
    obtain ⟨hsize, hused⟩ := not_or.mp hno
    push Not at hsize hused
    have hend : Probe.scanFrom mem fdBufSize.toNat fdNdx.toNat = fdBufSize.toNat :=
      Probe.scanFrom_of_used (fun j hj hlt => by simpa using hused j hj hlt) hs.le
    have hin := h (fdBufSize.toNat + 1) fdBufSize.toNat
    rw [fdHashseekfree_eq hsize hs (Nat.lt_succ_self _)] at hin
    simp only [hend] at hin
    refine lt_irrefl _ (hin ?_)
    rw [List.mem_append, List.mem_range'_1]
    exact Or.inl ⟨hs.le, by omega⟩
  · intro h rounds k hk
    by_cases hsize : 2 ^ 32 ≤ fdBufSize.toNat
    · rcases hsplit hk with hk | hk
      · exact lt_of_lt_of_le (seekLoop_lt_two k hk) hsize
      · exact lt_of_lt_of_le (seekLoop_lt_two k hk) hsize
    · have hlt : fdBufSize.toNat < 2 ^ 32 := not_le.mp hsize
      rcases hsplit hk with hk | hk
      · obtain ⟨m, hm, hmlt, hfree⟩ := h.resolve_left hsize
        refine lt_of_le_of_lt (seekLoop_le hlt ?_ hm k hk) hmlt
        rw [hfree]
        exact fun hgo => Bool.false_ne_true hgo.1
      · have htwo : fdNdx.toUInt64.toNat = fdNdx.toNat := UInt32.toNat_toUInt64 _
        refine lt_of_le_of_lt (seekLoop_le (by rw [htwo]; omega) ?_ ?_ k hk) hs
        · rw [htwo]
          exact fun hgo => lt_irrefl _ hgo.2
        · exact Nat.zero_le _

/-- From slot `5` of eight, with slot `7` free. -/
theorem fdHashseekfree_inside_iff_last :
    (fdHashseekfree (fun k => k ≠ 7) 8 9 5).1 = [5, 6, 7] ∧
      ∀ rounds, ∀ k ∈ (fdHashseekfree (fun k => k ≠ 7) 8 rounds 5).1, k < (8 : UInt64).toNat :=
  ⟨by decide, (fdHashseekfree_inside_iff
    (show (5 : UInt32).toNat < (8 : UInt64).toNat by decide)).mpr
      (Or.inr ⟨7, by decide, by decide, rfl⟩)⟩

end Cells

/-! ## The probing with natural numbers -/

/-- The value returned is that of the probing with natural numbers. -/
theorem Config.fdHashseekfree_eq_cells {n : ℕ} {c : Config n} {fdNdx : UInt32} {rounds : ℕ}
    (hsize : c.fdBufSize.toNat ≤ 2 ^ 31) (hs : fdNdx.toNat < c.fdBufSize.toNat)
    (hrounds : c.fdBufSize.toNat < rounds) :
    (Cells.fdHashseekfree c.slotUsed c.fdBufSize rounds fdNdx).2 =
      some (c.fdHashseekfree fdNdx.toNat).1 := by
  rw [Cells.fdHashseekfree_eq (lt_of_le_of_lt hsize (by decide)) hs hrounds]
  unfold Config.fdHashseekfree
  simp only [Option.some.injEq]
  split_ifs with hup hdown
  · exact Cells.toInt_ofNat (by omega)
  · exact Cells.toInt_ofNat (by omega)
  · rfl

end ChironFs
