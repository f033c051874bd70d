import ChironFs.Model.Sample
import ChironFs.Spec.Handles
import ChironFs.Spec.Interleaved

/-!
# Handles given out while other requests are under way

* `Pool.FilesDistinct`: the open files have slots of their own, each with its own vector.
* `Pool.HandlesDistinct`: besides, every `open` and `create` that returned success has such a file.
* `handles_shared`: two opens that find the same slot before either stores; and two that return
  success without a slot.
* `Pool.StoresIntoFree`: a slot that was found free is still free when the store comes.
* `Pool.EndsAnswered`: an `open` or `create` ends with an answer, or with an error.
* `handlesDistinct_iff`: in a run the handles are distinct in every state exactly if all its steps
  are like that.
-/

namespace ChironFs

open Posix Replication

variable {n : ℕ} {T : Type*}

namespace Pool

/-- No two open files share a slot, and the slot of each holds the vector its own `open` or `create`
stored. -/
structure FilesDistinct (s : Pool T n) : Prop where
  nodup : (s.live.map OpenFile.fh).Nodup
  slot : ∀ f ∈ s.live, s.config.tabFd f.fh = some f.fd

/-- Every `open` and `create` that returned success has a slot; no two of them that are not released
share one, and the slot of each holds the vector its own request stored. -/
structure HandlesDistinct (req : T → Request) (s : Pool T n) : Prop extends s.FilesDistinct where
  slotted : ∀ t r, (req t).opens = true → s.stage t = .done r none → r.ret < 0

/-- Nothing was begun yet, and the table is empty. -/
structure EmptyTable (s : Pool T n) : Prop where
  start : ∀ t, s.stage t = .start
  live : s.live = []
  size_pos : 0 < s.config.fdBufSize.toNat
  empty : ∀ k < s.config.fdBufSize.toNat, s.config.tabFd k = none

/-- What is assumed of a step: the slot it stores into is free. -/
def StoresIntoFree (s : Pool T n) (a : T × Env n) : Prop :=
  ∀ k x, s.stage a.1 = .store k x → 0 ≤ k → s.config.tabFd k.toNat = none

instance (s : Pool T n) (a : T × Env n) : Decidable (s.StoresIntoFree a) :=
  match h : s.stage a.1 with
  | .store k x =>
      decidable_of_iff (0 ≤ k → s.config.tabFd k.toNat = none) (by simp [StoresIntoFree, h])
  | .start | .loop .. | .choose .. | .ask .. | .disable .. | .finish .. | .unwind .. | .close ..
  | .done .. => isTrue (by simp [StoresIntoFree, h])

/-- What is assumed of a step: an `open` or `create` that no replica answered finds an error to return
when it ends. -/
def EndsAnswered (req : T → Request) (s : Pool T n) (a : T × Env n) : Prop :=
  ∀ x, s.stage a.1 = .finish x → (req a.1).opens = true → x.tally.succCnt = 0 →
    s.config.getFirstError x.tally.errList < 0

instance (req : T → Request) (s : Pool T n) (a : T × Env n) : Decidable (s.EndsAnswered req a) :=
  match h : s.stage a.1 with
  | .finish x =>
      decidable_of_iff ((req a.1).opens = true → x.tally.succCnt = 0 →
        s.config.getFirstError x.tally.errList < 0) (by simp [EndsAnswered, h])
  | .start | .loop .. | .choose .. | .ask .. | .disable .. | .store .. | .unwind .. | .close ..
  | .done .. => isTrue (by simp [EndsAnswered, h])

/-- The two of them. -/
def KeepsHandles (req : T → Request) (s : Pool T n) (a : T × Env n) : Prop :=
  s.StoresIntoFree a ∧ s.EndsAnswered req a

instance (req : T → Request) (s : Pool T n) (a : T × Env n) : Decidable (s.KeepsHandles req a) :=
  inferInstanceAs (Decidable (_ ∧ _))

/-- The request closes what it releases. -/
def closing (s : Pool T n) (t : T) : Bool :=
  match s.stage t with
  | .close .. => true
  | _ => false

/-! ## What a step does to the table -/

variable {req : T → Request} {s s' : Pool T n} {t : T} {env : Env n}

/-- The slot that `open` or `create` finds lies inside the table. -/
theorem lt_of_conclude_eq_store {q : Request} {c : Config n} {x : Locals n} {k : ℤ}
    {evs : List (Event n)} (hsize : 0 < c.fdBufSize.toNat)
    (h : q.conclude c x = (.store k x, evs)) (hk : 0 ≤ k) : k.toNat < c.fdBufSize.toNat := by
  unfold Request.conclude at h
  split_ifs at h with hs hop
  · cases h
  · split at h
    · cases h
      exact absurd hk (by decide)
    · cases h
      exact (Config.fdHashseekfree_lt hk).trans_eq (max_eq_left (hashFd_lt hsize _).le)
  · cases h

/-- **The table and the open files after a step** of request `t`: it began to release a file, or
stored what it opened, or emptied the slot of the file it releases, or left them as they were. -/
theorem table_cases (hsize : 0 < s.config.fdBufSize.toNat) (h : Stepped req s s' t env) :
    (s.stage t = .start ∧ (req t).releases = true ∧ (∀ k x, s'.stage t ≠ .store k x) ∧
        s'.config.tabFd = s.config.tabFd ∧
        s'.live = s.live.map fun f =>
          if (req t).releasedFh = some f.fh then { f with releasing := true } else f) ∨
      (∃ k x, s.stage t = .store k x ∧ 0 ≤ k ∧ s'.closing t = false ∧
        (∀ k x, s'.stage t ≠ .store k x) ∧
        s'.config.tabFd = Function.update s.config.tabFd k.toNat (some x.fd) ∧
        s'.live = { fh := k.toNat, fd := x.fd } :: s.live) ∨
      (∃ fh, s.closing t = true ∧ s'.closing t = false ∧ (∀ k x, s'.stage t ≠ .store k x) ∧
        (req t).releasedFh = some fh ∧
        s'.config.tabFd = Function.update s.config.tabFd fh none ∧
        s'.live = s.live.filter fun f =>
          ¬ ((req t).releasedFh = some f.fh ∧ f.releasing = true)) ∨
      (s'.config.tabFd = s.config.tabFd ∧ s'.live = s.live ∧
        (s'.closing t = true → s.closing t = true) ∧
        ∀ k x, s'.stage t = .store k x → 0 ≤ k → k.toNat < s.config.fdBufSize.toNat) := by
  obtain ⟨evs, hmove, -⟩ := h.move
  have hlive := h.live
  unfold closing
  generalize s.stage t = st at hmove hlive ⊢
  generalize s'.stage t = st' at hmove hlive ⊢
  generalize s'.config = c' at hmove ⊢
  cases hmove with
  | releases hrel => exact Or.inl ⟨rfl, hrel, by simp, rfl, hlive⟩
  | @stored k x hk => exact Or.inr (Or.inl ⟨k, x, rfl, hk, rfl, by simp, rfl, hlive⟩)
  | @emptied r fh hfh => exact Or.inr (Or.inr (Or.inl ⟨fh, rfl, rfl, by simp, hfh, rfl, hlive⟩))
  | @sought x k _ hs hop hk =>
      refine Or.inr (Or.inr (Or.inr ⟨rfl, hlive, by simp, ?_⟩))
      intro k' x' hst hk'
      cases hst
      exact lt_of_conclude_eq_store hsize hk hk'
  | visited hq => exact Or.inr (Or.inr (Or.inr ⟨hq.tabFd, hlive, by simp, by simp⟩))
  | chose hk =>
      exact Or.inr (Or.inr (Or.inr
        ⟨(Config.chooseReplica_sameButCursors hk).tabFd_eq, hlive, by simp, by simp⟩))
  | @loopEnd x | @triesEnd x =>
      rcases Locals.conclude_cases x with hx | hx
      all_goals
        rw [hx]
        exact Or.inr (Or.inr (Or.inr ⟨rfl, hlive, by simp, by simp⟩))
  | @attended i todo x x' _ hq _ =>
      rcases Locals.conclude_cases x' with hx | hx
      all_goals
        rw [hx]
        refine Or.inr (Or.inr (Or.inr ⟨hq.tabFd, hlive, ?_, ?_⟩))
      all_goals split_ifs <;> simp
  | disabled => exact Or.inr (Or.inr (Or.inr ⟨rfl, hlive, by simp, by simp⟩))
  | _ => exact Or.inr (Or.inr (Or.inr ⟨rfl, hlive, by simp, by simp⟩))

/-! ## The invariant -/

/-- The handles are distinct, every occupied slot is that of an open file, every slot that was found
lies inside the table, and no file is released twice. -/
structure SlotsInv (req : T → Request) (s : Pool T n) : Prop where
  distinct : s.FilesDistinct
  size_pos : 0 < s.config.fdBufSize.toNat
  used : ∀ k < s.config.fdBufSize.toNat, s.config.tabFd k ≠ none → ∃ f ∈ s.live, f.fh = k
  found : ∀ t k x, s.stage t = .store k x → 0 ≤ k → k.toNat < s.config.fdBufSize.toNat
  closing : ∀ t, s.closing t = true →
    ∃ f ∈ s.live, (req t).releasedFh = some f.fh ∧ f.releasing = true
  alone : ∀ t u, s.closing t = true → s.closing u = true →
    (req t).releasedFh = (req u).releasedFh → t = u

theorem EmptyTable.slotsInv (h : s.EmptyTable) : s.SlotsInv req where
  distinct := ⟨by simp [h.live], by simp [h.live]⟩
  size_pos := h.size_pos
  used := fun k hk hne => absurd (h.empty k hk) hne
  found := fun t k x hst => by simp [h.start] at hst
  closing := fun t ht => by simp [Pool.closing, h.start] at ht
  alone := fun t u ht => by simp [Pool.closing, h.start] at ht

/-- An open file is known by its slot. -/
theorem FilesDistinct.eq_of_fh_eq (h : s.FilesDistinct) {f g : OpenFile n} (hf : f ∈ s.live)
    (hg : g ∈ s.live) (hfh : f.fh = g.fh) : f = g :=
  List.inj_on_of_nodup_map h.nodup hf hg hfh

theorem Stepped.closing_of_ne (h : Stepped req s s' t env) {u : T} (hu : u ≠ t) :
    s'.closing u = s.closing u := by
  unfold closing
  rw [h.stage_of_ne u hu]

theorem SlotsInv.found_step (hi : s.SlotsInv req) (h : Stepped req s s' t env)
    (hst : ∀ k x, s'.stage t = .store k x → 0 ≤ k → k.toNat < s.config.fdBufSize.toNat) :
    ∀ u k x, s'.stage u = .store k x → 0 ≤ k → k.toNat < s'.config.fdBufSize.toNat := by
  intro u k x hu hk
  rw [h.effect.sameLayout.fdBufSize]
  by_cases hut : u = t
  · exact hst k x (hut ▸ hu) hk
  · rw [h.stage_of_ne u hut] at hu
    exact hi.found u k x hu hk

/-- A store into a free slot. -/
theorem SlotsInv.of_store {k : ℤ} {x : Locals n} (hi : s.SlotsInv req)
    (hfree : s.config.tabFd k.toNat = none) (h : Stepped req s s' t env)
    (hclosing : s'.closing t = false) (hstage : ∀ k x, s'.stage t ≠ .store k x)
    (htab : s'.config.tabFd = Function.update s.config.tabFd k.toNat (some x.fd))
    (hlive : s'.live = { fh := k.toNat, fd := x.fd } :: s.live) : s'.SlotsInv req := by
  have hsize := h.effect.sameLayout.fdBufSize
  have hne : ∀ f ∈ s.live, f.fh ≠ k.toNat := by
    intro f hf hfh
    have hslot := hi.distinct.slot f hf
    rw [hfh, hfree] at hslot
    cases hslot
  have hothers : ∀ u, s'.closing u = true → u ≠ t ∧ s.closing u = true := by
    intro u hu
    have hut : u ≠ t := by
      rintro rfl
      rw [hclosing] at hu
      cases hu
    exact ⟨hut, h.closing_of_ne hut ▸ hu⟩
  refine ⟨⟨?_, ?_⟩, by rw [hsize]; exact hi.size_pos, ?_,
    hi.found_step h fun k x hst => absurd hst (hstage k x), ?_, ?_⟩
  · rw [hlive, List.map_cons, List.nodup_cons, List.mem_map]
    exact ⟨fun ⟨f, hf, hfh⟩ => hne f hf hfh, hi.distinct.nodup⟩
  · rw [hlive, htab]
    refine List.forall_mem_cons.mpr ⟨Function.update_self .., fun f hf => ?_⟩
    rw [Function.update_of_ne (hne f hf)]
    exact hi.distinct.slot f hf
  · rw [hsize, htab, hlive]
    intro j hj hused
    by_cases hjk : j = k.toNat
    · exact ⟨_, List.mem_cons_self, hjk.symm⟩
    · rw [Function.update_of_ne hjk] at hused
      obtain ⟨f, hf, hfh⟩ := hi.used j hj hused
      exact ⟨f, List.mem_cons_of_mem _ hf, hfh⟩
  · intro u hu
    obtain ⟨f, hf, hrel⟩ := hi.closing u (hothers u hu).2
    rw [hlive]
    exact ⟨f, List.mem_cons_of_mem _ hf, hrel⟩
  · exact fun u v hu hv => hi.alone u v (hothers u hu).2 (hothers v hv).2

/-- A release that empties its slot takes off its own file and no other. -/
theorem SlotsInv.of_empty {fh : ℕ} (hi : s.SlotsInv req) (h : Stepped req s s' t env)
    (hwas : s.closing t = true) (hclosing : s'.closing t = false)
    (hstage : ∀ k x, s'.stage t ≠ .store k x) (hfh : (req t).releasedFh = some fh)
    (htab : s'.config.tabFd = Function.update s.config.tabFd fh none)
    (hlive : s'.live = s.live.filter fun f =>
      ¬ ((req t).releasedFh = some f.fh ∧ f.releasing = true)) : s'.SlotsInv req := by
  have hsize := h.effect.sameLayout.fdBufSize
  obtain ⟨g, hg, hgfh, hgrel⟩ := hi.closing t hwas
  obtain rfl : fh = g.fh := Option.some.inj (hfh.symm.trans hgfh)
  have hmem : ∀ f, f ∈ s'.live ↔ f ∈ s.live ∧ f.fh ≠ g.fh := by
    intro f
    rw [hlive, List.mem_filter, decide_eq_true_eq, hfh]
    refine and_congr_right fun hf => not_congr ⟨fun h => (Option.some.inj h.1).symm, fun hfg => ?_⟩
    rw [hi.distinct.eq_of_fh_eq hf hg hfg]
    exact ⟨rfl, hgrel⟩
  have hothers : ∀ u, s'.closing u = true → u ≠ t ∧ s.closing u = true := by
    intro u hu
    have hut : u ≠ t := by
      rintro rfl
      rw [hclosing] at hu
      cases hu
    exact ⟨hut, h.closing_of_ne hut ▸ hu⟩
  refine ⟨⟨?_, ?_⟩, by rw [hsize]; exact hi.size_pos, ?_,
    hi.found_step h fun k x hst => absurd hst (hstage k x), ?_, ?_⟩
  · rw [hlive]
    exact (List.filter_sublist.map _).nodup hi.distinct.nodup
  · intro f hf
    obtain ⟨hf, hne⟩ := (hmem f).mp hf
    rw [htab, Function.update_of_ne hne]
    exact hi.distinct.slot f hf
  · rw [hsize, htab]
    intro j hj hused
    have hne : j ≠ g.fh := fun hjg => hused (by rw [hjg, Function.update_self])
    rw [Function.update_of_ne hne] at hused
    obtain ⟨f, hf, rfl⟩ := hi.used j hj hused
    exact ⟨f, (hmem f).mpr ⟨hf, hne⟩, rfl⟩
  · intro u hu
    obtain ⟨hut, hu⟩ := hothers u hu
    obtain ⟨f, hf, hrel⟩ := hi.closing u hu
    refine ⟨f, (hmem f).mpr ⟨hf, fun hfg => hut ?_⟩, hrel⟩
    exact hi.alone u t hu hwas (by rw [hrel.1, hfh, hfg])
  · exact fun u v hu hv => hi.alone u v (hothers u hu).2 (hothers v hv).2

/-- A release that begins marks its file. -/
theorem SlotsInv.of_begin (hi : s.SlotsInv req) (h : Stepped req s s' t env)
    (hstart : s.stage t = .start) (hrel : (req t).releases = true)
    (hstage : ∀ k x, s'.stage t ≠ .store k x) (htab : s'.config.tabFd = s.config.tabFd)
    (hlive : s'.live = s.live.map fun f =>
      if (req t).releasedFh = some f.fh then { f with releasing := true } else f) :
    s'.SlotsInv req := by
  have hsize := h.effect.sameLayout.fdBufSize
  -- FUSE passed the release of a file nobody releases
  obtain ⟨g, hg, hgfh, hgrel⟩ :
      ∃ g ∈ s.live, (req t).releasedFh = some g.fh ∧ g.releasing = false := by
    have hadm := h.may
    obtain ⟨fh, hq⟩ := Request.eq_release hrel
    simp only [mayStep, hstart, admits, hq, Request.uses, Option.all_some, List.any_eq_true] at hadm
    obtain ⟨g, hg, hgp⟩ := hadm
    simp only [Bool.and_eq_true, decide_eq_true_eq, Bool.not_eq_true'] at hgp
    exact ⟨g, hg, by rw [hq, Request.releasedFh, hgp.1], hgp.2⟩
  have hmark : ∀ f ∈ s.live, ∃ f' ∈ s'.live, f'.fh = f.fh ∧
      (f.releasing = true ∨ (req t).releasedFh = some f.fh → f'.releasing = true) := by
    intro f hf
    rw [hlive]
    refine ⟨_, List.mem_map_of_mem hf, ?_⟩
    split_ifs with hfh <;> simp [hfh]
  have hfresh : ∀ u, u ≠ t → s.closing u = true → (req u).releasedFh ≠ (req t).releasedFh := by
    intro u hut hu heq
    obtain ⟨f, hf, hffh, hfrel⟩ := hi.closing u hu
    rw [heq, hgfh] at hffh
    rw [hi.distinct.eq_of_fh_eq hf hg (Option.some.inj hffh).symm, hgrel] at hfrel
    cases hfrel
  refine ⟨⟨?_, ?_⟩, by rw [hsize]; exact hi.size_pos, ?_,
    hi.found_step h fun k x hst => absurd hst (hstage k x), ?_, ?_⟩
  · have hfhs : s'.live.map OpenFile.fh = s.live.map OpenFile.fh := by
      rw [hlive, List.map_map]
      refine List.map_congr_left fun f _ => ?_
      simp only [Function.comp_apply]
      split_ifs <;> rfl
    rw [hfhs]
    exact hi.distinct.nodup
  · rw [hlive, htab, List.forall_mem_map]
    intro f hf
    split_ifs <;> exact hi.distinct.slot f hf
  · rw [hsize, htab]
    intro j hj hused
    obtain ⟨f, hf, rfl⟩ := hi.used j hj hused
    obtain ⟨f', hf', hfh, -⟩ := hmark f hf
    exact ⟨f', hf', hfh⟩
  · intro u hu
    by_cases hut : u = t
    · subst hut
      obtain ⟨g', hg', hfh, hrel'⟩ := hmark g hg
      exact ⟨g', hg', by rw [hfh, hgfh], hrel' (Or.inr hgfh)⟩
    · obtain ⟨f, hf, hfh, hrel⟩ := hi.closing u (h.closing_of_ne hut ▸ hu)
      obtain ⟨f', hf', hfh', hrel'⟩ := hmark f hf
      exact ⟨f', hf', by rw [hfh', hfh], hrel' (Or.inl hrel)⟩
  · intro u v hu hv heq
    by_cases hut : u = t
    · by_cases hvt : v = t
      · rw [hut, hvt]
      · exact absurd (hut ▸ heq).symm (hfresh v hvt (h.closing_of_ne hvt ▸ hv))
    · by_cases hvt : v = t
      · exact absurd (hvt ▸ heq) (hfresh u hut (h.closing_of_ne hut ▸ hu))
      · exact hi.alone u v (h.closing_of_ne hut ▸ hu) (h.closing_of_ne hvt ▸ hv) heq

/-- Any other step. -/
theorem SlotsInv.of_same (hi : s.SlotsInv req) (h : Stepped req s s' t env)
    (htab : s'.config.tabFd = s.config.tabFd) (hlive : s'.live = s.live)
    (hclosing : s'.closing t = true → s.closing t = true)
    (hst : ∀ k x, s'.stage t = .store k x → 0 ≤ k → k.toNat < s.config.fdBufSize.toNat) :
    s'.SlotsInv req := by
  have hsize := h.effect.sameLayout.fdBufSize
  have hwas : ∀ u, s'.closing u = true → s.closing u = true := by
    intro u hu
    by_cases hut : u = t
    · subst hut
      exact hclosing hu
    · exact h.closing_of_ne hut ▸ hu
  refine ⟨⟨by rw [hlive]; exact hi.distinct.nodup, by rw [hlive, htab]; exact hi.distinct.slot⟩,
    by rw [hsize]; exact hi.size_pos, by rw [hsize, htab, hlive]; exact hi.used,
    hi.found_step h hst, ?_, fun u v hu hv => hi.alone u v (hwas u hu) (hwas v hv)⟩
  intro u hu
  rw [hlive]
  exact hi.closing u (hwas u hu)

/-- **A step that stores into a free slot, if any, keeps the invariant.** -/
theorem SlotsInv.step (hi : s.SlotsInv req) (hfree : s.StoresIntoFree (t, env))
    (h : Stepped req s s' t env) : s'.SlotsInv req := by
  rcases table_cases hi.size_pos h with ⟨hstart, hrel, hst, htab, hlive⟩ |
    ⟨k, x, hstore, hk, hcl, hst, htab, hlive⟩ | ⟨fh, hwas, hcl, hst, hfh, htab, hlive⟩ |
    ⟨htab, hlive, hcl, hst⟩
  · exact hi.of_begin h hstart hrel hst htab hlive
  · exact hi.of_store (hfree k x hstore hk) h hcl hst htab hlive
  · exact hi.of_empty h hwas hcl hst hfh htab hlive
  · exact hi.of_same h htab hlive hcl hst

/-- **A store into a slot that is taken gives it to two open files.** -/
theorem SlotsInv.not_distinct_of_step (hi : s.SlotsInv req) (hbad : ¬ s.StoresIntoFree (t, env))
    (h : Stepped req s s' t env) : ¬ s'.FilesDistinct := by
  simp only [StoresIntoFree, not_forall] at hbad
  obtain ⟨k, x, hstore, hk, hused⟩ := hbad
  obtain ⟨f, hf, hfh⟩ := hi.used _ (hi.found t k x hstore hk) hused
  obtain ⟨evs, hmove, -⟩ := h.move
  have hlive := h.live
  rw [hstore] at hmove hlive
  generalize s'.stage t = st' at hmove hlive
  generalize s'.config = c' at hmove
  intro hdist
  cases hmove with
  | stored =>
      have hnodup := hdist.nodup
      rw [hlive, liveAfter, List.map_cons, List.nodup_cons] at hnodup
      exact hnodup.1 (List.mem_map.mpr ⟨f, hf, hfh⟩)
  | noSlot hneg => exact absurd hk (not_le.mpr hneg)

/-! ## Success without a slot -/

/-- **A step that ends a request with an answer or an error** leaves no success without a slot. -/
theorem HandlesDistinct.slotted_step
    (hs : ∀ u r, (req u).opens = true → s.stage u = .done r none → r.ret < 0)
    (hends : s.EndsAnswered req (t, env)) (h : Stepped req s s' t env) :
    ∀ u r, (req u).opens = true → s'.stage u = .done r none → r.ret < 0 := by
  intro u r hop hu
  by_cases hut : u = t
  · subst hut
    obtain ⟨evs, hmove, -⟩ := h.move
    generalize hat : s.stage u = st at hmove
    generalize s'.stage u = st' at hmove hu
    generalize s'.config = c' at hmove
    cases hmove with
    | refused e | gaveUp | unwindEnd =>
        cases hu
        exact Errno.neg_lt_zero _
    | failed hz =>
        cases hu
        exact hends _ hat hop hz
    | answered hne hno =>
        rw [hop] at hno
        cases hno
    | emptied hfh =>
        rw [Request.releasedFh_of_opens hop] at hfh
        cases hfh
    | @loopEnd x | @triesEnd x =>
        rcases x.conclude_cases with hx | hx
        all_goals
          rw [hx] at hu
          cases hu
    | @attended i todo x x' =>
        rcases x'.conclude_cases with hx | hx
        all_goals
          rw [hx] at hu
          split_ifs at hu
    | _ => cases hu
  · rw [h.stage_of_ne u hut] at hu
    exact hs u r hop hu

/-- **An `open` or `create` that ends with neither** returns success without a slot. -/
theorem not_distinct_of_ends (hbad : ¬ s.EndsAnswered req (t, env)) (h : Stepped req s s' t env) :
    ¬ s'.HandlesDistinct req := by
  simp only [EndsAnswered, not_forall] at hbad
  obtain ⟨x, hat, hop, hz, hneg⟩ := hbad
  obtain ⟨evs, hmove, -⟩ := h.move
  rw [hat] at hmove
  generalize hat' : s'.stage t = st' at hmove
  generalize s'.config = c' at hmove
  intro hdist
  cases hmove with
  | failed => exact hneg (hdist.slotted t _ hop hat')
  | answered hne => exact hne hz
  | sought hne => exact hne hz

end Pool

/-! ## Two opens that overlap -/

/-- Two opens of `/f`. -/
def twoOpens : Bool → Request := fun _ => .open fileF 0

/-- The first request gets the descriptors `6` and `7`, the second one `8` and `9`; the addresses of
`6` and `8` in the table of the small daemon are the same. -/
def openEnv (t : Bool) : Env 2 :=
  plainEnv fun i _ => .ok { ret := (if t then 8 else 6) + i.val }

/-- Both look for a slot before either stores. -/
def bothSeek : List (Bool × Env 2) :=
  List.replicate 5 (false, openEnv false) ++ List.replicate 5 (true, openEnv true) ++
    [(false, openEnv false), (true, openEnv true)]

/-- Every replica is disabled. -/
def lostPool : Pool Bool 2 :=
  { rootPool Bool with
    config := { twoReplicas with
      replicas := fun i => { twoReplicas.replicas i with disabled := true } } }

/-- One open after the other, each to its end. -/
def bothUnanswered : List (Bool × Env 2) :=
  List.replicate 5 (false, openEnv false) ++ List.replicate 5 (true, openEnv true)

/-- Both opens succeed, with the same handle; the vector of the first one is lost. And where every
replica is disabled both succeed without a slot. -/
theorem handles_shared :
    (rootPool Bool).EmptyTable ∧
      (∃ s, Machine.runFrom (Pool.step twoOpens) (rootPool Bool) bothSeek = some s ∧
        s.live.map OpenFile.fh = [4, 4] ∧ ¬ s.HandlesDistinct twoOpens) ∧
      lostPool.EmptyTable ∧
      ∃ s, Machine.runFrom (Pool.step twoOpens) lostPool bothUnanswered = some s ∧
        (∀ t, s.stage t = .done { ret := 0 } none) ∧ ¬ s.HandlesDistinct twoOpens := by
  refine ⟨⟨fun _ => rfl, rfl, by decide, fun _ _ => rfl⟩, ⟨_, rfl, rfl, ?_⟩,
    ⟨fun _ => rfl, rfl, by decide, fun _ _ => rfl⟩, ?_⟩
  · intro hdist
    exact absurd hdist.nodup (by decide)
  · obtain ⟨s, hrun, hdone⟩ : ∃ s, Machine.runFrom (Pool.step twoOpens) lostPool bothUnanswered =
        some s ∧ ∀ t, s.stage t = .done { ret := 0 } none := by
      refine ⟨_, rfl, fun t => ?_⟩
      cases t <;> rfl
    exact ⟨s, hrun, hdone, fun hdist => lt_irrefl 0 (hdist.slotted false _ rfl (hdone false))⟩

/-- **When handles are distinct**: in a run from an empty table, every `open` and `create` that
returned success has, in every state until it is released, a slot of its own that holds its own
vector exactly if every slot that was found free is still free at its store, and none of them ends
with neither an answer nor an error. -/
theorem handlesDistinct_iff [DecidableEq T] {req : T → Request} {s₀ s : Pool T n}
    (h₀ : s₀.EmptyTable) {l : List (T × Env n)}
    (hrun : Machine.runFrom (Pool.step req) s₀ l = some s) :
    (∀ k s₁, Machine.runFrom (Pool.step req) s₀ (l.take k) = some s₁ → s₁.HandlesDistinct req) ↔
      Machine.Meets (Pool.step req) (Pool.KeepsHandles req) s₀ l := by
  have hinit : s₀.SlotsInv req ∧ s₀.HandlesDistinct req := by
    have hslots : s₀.SlotsInv req := h₀.slotsInv
    refine ⟨hslots, hslots.distinct, fun t r _ ht => ?_⟩
    rw [h₀.start t] at ht
    cases ht
  have hgood : ∀ s : Pool T n, s.SlotsInv req ∧ s.HandlesDistinct req → s.HandlesDistinct req :=
    fun _ hi => hi.2
  refine Machine.forall_states_iff_meets hgood ?_ ?_ l s₀ s hinit hrun
  · rintro s₁ ⟨t, env⟩ s₂ ⟨hfree, hends⟩ ⟨hi, hdist⟩ hstep
    have hst := Pool.stepped_of_step hstep
    have hi' := hi.step hfree hst
    exact ⟨hi', hi'.distinct, Pool.HandlesDistinct.slotted_step hdist.slotted hends hst⟩
  · rintro s₁ ⟨t, env⟩ s₂ hbad ⟨hi, -⟩ hstep
    have hst := Pool.stepped_of_step hstep
    rcases not_and_or.mp hbad with hfree | hends
    · exact fun hdist => hi.not_distinct_of_step hfree hst hdist.toFilesDistinct
    · exact Pool.not_distinct_of_ends hends hst

/-- The second open looks for a slot when the first one has its own. -/
def oneByOne : List (Bool × Env 2) :=
  List.replicate 6 (false, openEnv false) ++ List.replicate 6 (true, openEnv true)

theorem handlesDistinct_iff_oneByOne :
    ∃ s, Machine.runFrom (Pool.step twoOpens) (rootPool Bool) oneByOne = some s ∧
      s.live.map OpenFile.fh = [5, 4] ∧
      ∀ k s₁, Machine.runFrom (Pool.step twoOpens) (rootPool Bool) (oneByOne.take k) = some s₁ →
        s₁.HandlesDistinct twoOpens := by
  have hempty : (rootPool Bool).EmptyTable := ⟨fun _ => rfl, rfl, by decide, fun _ _ => rfl⟩
  have hmeets : Machine.Meets (Pool.step twoOpens) (Pool.KeepsHandles twoOpens) (rootPool Bool)
      oneByOne := by decide +kernel
  have hfhs : (Machine.runFrom (Pool.step twoOpens) (rootPool Bool) oneByOne).map
      (fun s => s.live.map OpenFile.fh) = some [5, 4] := by decide +kernel
  obtain ⟨s, hrun, hfh⟩ := Option.map_eq_some_iff.mp hfhs
  exact ⟨s, hrun, hfh, (handlesDistinct_iff hempty hrun).mpr hmeets⟩

end ChironFs
