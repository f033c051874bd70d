import ChironFs.Lib.Simulation
import ChironFs.Results.Tracking

/-!
# Requests at the same time are atomic

* `Parallel.Tracks.step`: a step of the daemon is matched by steps of one copy, case by case.
* `requests_atomic`: so what programs see of any run is what a single file system shows that executes
  each request at one moment; and once no request is under way, the replicas hold its store.
-/

namespace ChironFs

open Posix Replication

variable {n : ℕ} {T S F : Type*}

namespace Parallel

variable {fs : FileSystem S F} {req : T → Request} {σ σ' : Parallel T n S F} {α α' : Atomic T S F}
  {own own' : ℤ → Option (Fin n × Owner T)} {pend : Fin n → List T} {t u : T} {env : Env n}
  {evs : List (Event n)} {x : Locals n}

section step

variable [DecidableEq T]

/-! ## A request begins -/

/-- A request is refused before it does anything. -/
theorem Tracks.refused (h : σ.Tracks fs req α own pend) (hP : σ.Harmony fs req (t, env))
    (hst : Stepped fs req σ σ' t env evs) {e : Errno} (hs : σ.pool.stage t = .start)
    (hs' : σ'.pool.stage t = .done { ret := e.neg } none) : Matched fs req σ σ' t α := by
  have hon := h.onTrack t
  simp only [OnTrack, hs] at hon
  have hw := (hst.silent (by rw [hs]; rfl)).1
  have hlive : σ'.pool.live = σ.pool.live := by
    rw [hst.pool.live, hs, hs']
    rfl
  refine (h.leaves hP.orderly hst hw hlive hs' fun i _ =>
    not_outstanding (by rw [hs]; rfl) i).matched_act (.refuses t { ret := e.neg }) ?_
    (by rw [hs, hs']; rfl)
  simp only [Atomic.step, hon.1, if_pos e.neg_lt_zero]

/-- A request begins its loop over all replicas. -/
theorem Tracks.goes_over (h : σ.Tracks fs req α own pend) (hP : σ.Harmony fs req (t, env))
    (hst : Stepped fs req σ σ' t env evs) (hse : (req t).searches = false)
    (hs : σ.pool.stage t = .start) (hs' : σ'.pool.stage t = .loop (List.finRange n) {}) :
    Matched fs req σ σ' t α := by
  have hon := h.onTrack t
  simp only [OnTrack, hs] at hon
  obtain ⟨hw, hno⟩ := hst.silent (by rw [hs]; rfl)
  refine (h.begins hP hst hw hno hs (by rw [hs']; rfl) (h.files.of_stage hst hw ?_ rfl ?_)
    fun hnot hfits _ => ?_).matched_act (.asks t) ?_ (by rw [hs, hs']; rfl)
  · rw [hst.pool.live, hs, hs']
    rfl
  · rw [hs']
    exact fun _ _ h => by cases h
  · simp only [OnTrack, hs']
    exact ⟨hse, hfits, List.nodup_finRange n, fun i hi => absurd hi (hnot i),
      fun i _ => Or.inl (List.mem_finRange i)⟩
  · simp only [Atomic.step, hon.1]

/-- A request begins its search. -/
theorem Tracks.searches (h : σ.Tracks fs req α own pend) (hP : σ.Harmony fs req (t, env))
    (hst : Stepped fs req σ σ' t env evs) (hse : (req t).searches = true)
    (hs : σ.pool.stage t = .start) (hs' : σ'.pool.stage t = .choose (List.range n) {}) :
    Matched fs req σ σ' t α := by
  have hon := h.onTrack t
  simp only [OnTrack, hs] at hon
  obtain ⟨hw, hno⟩ := hst.silent (by rw [hs]; rfl)
  refine (h.begins hP hst hw hno hs (by rw [hs']; rfl) (h.files.of_stage hst hw ?_ rfl ?_)
    fun _ hfits _ => ?_).matched_act (.asks t) ?_ (by rw [hs, hs']; rfl)
  · rw [hst.pool.live, hs, hs']
    rfl
  · rw [hs']
    exact fun _ _ h => by cases h
  · simp only [OnTrack, hs']
    exact ⟨hse, hfits, trivial⟩
  · simp only [Atomic.step, hon.1]

/-- A release begins. -/
theorem Tracks.releases (h : σ.Tracks fs req α own pend) (hP : σ.Harmony fs req (t, env))
    (hst : Stepped fs req σ σ' t env evs) (hrel : (req t).releases = true)
    (hs : σ.pool.stage t = .start) (hs' : σ'.pool.stage t = .close (List.finRange n) (-1)) :
    Matched fs req σ σ' t α := by
  have hon := h.onTrack t
  simp only [OnTrack, hs] at hon
  obtain ⟨hw, hno⟩ := hst.silent (by rw [hs]; rfl)
  obtain ⟨fh, hq⟩ := Request.eq_release hrel
  refine (h.begins hP hst hw hno hs (by rw [hs']; rfl)
    (h.files.of_release h.sound hst hw rfl hs hq ⟨_, _, hs'⟩ ?_)
    fun hnot _ hph => ?_).matched_act (.asks t) ?_ (by rw [hs, hs']; rfl)
  · rw [hst.pool.live, hs, hs']
    rfl
  · simp only [OnTrack, hs']
    exact ⟨hrel, List.nodup_finRange n, hph, hnot⟩
  · simp only [Atomic.step, hon.1]

/-! ## A request returns -/

/-- `mknod` gives up at a kind of file it does not make. -/
theorem Tracks.gave_up (h : σ.Tracks fs req α own pend) (hP : σ.Harmony fs req (t, env))
    (hst : Stepped fs req σ σ' t env []) {todo : List (Fin n)} (hsup : (req t).supported = false)
    (hs : σ.pool.stage t = .loop todo x)
    (hs' : σ'.pool.stage t = .done { ret := ENOSYS.neg } none) : Matched fs req σ σ' t α := by
  have hon := h.onTrack t
  simp only [OnTrack, hs] at hon
  obtain ⟨-, hfits, -⟩ := hon
  have hzero : x.tally.succCnt = 0 := by
    by_contra hne
    rw [hfits.supported hne] at hsup
    cases hsup
  have hw : σ'.world = σ.world := (Option.some.inj hst.world).symm
  have hlive : σ'.pool.live = σ.pool.live := by
    rw [hst.pool.live, hs, hs']
    rfl
  refine (h.leaves hP.orderly hst hw hlive hs' fun i _ =>
    not_outstanding (by simp [hs, Stage.answered, hzero]) i).matched_act
    (.returns t { ret := ENOSYS.neg } none) ?_ (by rw [hs, hs']; rfl)
  simp only [Atomic.step, (hfits.asked hzero).1, if_pos (Or.inr ENOSYS.neg_lt_zero)]

/-- Nobody answered: the request fails. -/
theorem Tracks.failed (h : σ.Tracks fs req α own pend) (hP : σ.Harmony fs req (t, env))
    (hst : Stepped fs req σ σ' t env evs) (hzero : x.tally.succCnt = 0)
    (hs : σ.pool.stage t = .finish x)
    (hs' : σ'.pool.stage t =
      .done { ret := σ.pool.config.getFirstError x.tally.errList } none) :
    Matched fs req σ σ' t α := by
  have hon := h.onTrack t
  simp only [OnTrack, hs, if_pos hzero] at hon
  obtain ⟨hfits, hcov⟩ := hon
  have hw := (hst.silent (by rw [hs]; rfl)).1
  have hlive : σ'.pool.live = σ.pool.live := by
    rw [hst.pool.live, hs, hs']
    rfl
  -- some enabled replica failed
  have hneg : σ.pool.config.getFirstError x.tally.errList < 0 := by
    refine Config.getFirstError_neg hfits.err_le ?_
    cases hse : (req t).searches with
    | true => exact hP.searched x hs hse hzero
    | false =>
        obtain ⟨i, hen⟩ := hP.enabled
        exact ⟨i, hen, hcov hse i hen⟩
  refine (h.leaves hP.orderly hst hw hlive hs' fun i _ =>
    not_outstanding (by simp [hs, Stage.answered, hzero]) i).matched_act
    (.returns t { ret := σ.pool.config.getFirstError x.tally.errList } none) ?_
    (by rw [hs, hs']; rfl)
  simp only [Atomic.step, (hfits.asked hzero).1, if_pos (Or.inr hneg)]

/-- A request returns what it was answered. -/
theorem Tracks.answered (h : σ.Tracks fs req α own pend) (hP : σ.Harmony fs req (t, env))
    (hst : Stepped fs req σ σ' t env evs) (hne : x.tally.succCnt ≠ 0)
    (hop : (req t).opens = false) (hs : σ.pool.stage t = .finish x)
    (hs' : σ'.pool.stage t = .done ((req t).result x) none) : Matched fs req σ σ' t α := by
  have hon := h.onTrack t
  simp only [OnTrack, hs, if_neg hne] at hon
  obtain ⟨hfits, hcov⟩ := hon
  obtain ⟨r, g, hph, hres, -⟩ := hfits.served hne
  have hw := (hst.silent (by rw [hs]; rfl)).1
  have hlive : σ'.pool.live = σ.pool.live := by
    rw [hst.pool.live, hs, hs']
    rfl
  refine (h.leaves hP.orderly hst hw hlive hs' fun i hi hout => ?_).matched_act
    (.returns t ((req t).result x) none) ?_ (by rw [hs, hs']; rfl)
  · exact hout.2.2 (hcov hout.1 i (hst.enabled hi))
  · simp [Atomic.step, hph, hop, hres hop]

/-- An `open` or `create` without a slot returns. -/
theorem Tracks.unwind_end (h : σ.Tracks fs req α own pend) (hP : σ.Harmony fs req (t, env))
    (hst : Stepped fs req σ σ' t env evs) (hs : σ.pool.stage t = .unwind [] x)
    (hs' : σ'.pool.stage t = .done { ret := EMFILE.neg } none) : Matched fs req σ σ' t α := by
  have hon := h.onTrack t
  simp only [OnTrack, hs] at hon
  obtain ⟨hop, -, ⟨r, g, hph⟩, hall, -⟩ := hon
  have hw := (hst.silent (by rw [hs]; rfl)).1
  have hlive : σ'.pool.live = σ.pool.live := by
    rw [hst.pool.live, hs, hs']
    rfl
  refine (h.leaves hP.orderly hst hw hlive hs' fun i hi hout => ?_).matched_act
    (.returns t { ret := EMFILE.neg } none) ?_ (by rw [hs, hs']; rfl)
  · exact hout.2.2 (hall i (hst.enabled hi))
  · simp [Atomic.step, hph, hop]

theorem Held.handOver_self {i : Fin n} {v : ℤ} {g : F} {fh : ℕ} (hw : σ'.world = σ.world)
    (h : σ.Held own i v (.request t) g) : σ'.Held (handOver own t fh) i v (.file fh) g where
  own := Parallel.handOver_self h.own
  file := by rw [hw, h.file]
  nonneg := h.nonneg

theorem Held.handOver_of_ne {i : Fin n} {v : ℤ} {o : Owner T} {g : F} {fh : ℕ}
    (hw : σ'.world = σ.world) (h : σ.Held own i v o g) (ho : o ≠ .request t) :
    σ'.Held (handOver own t fh) i v o g where
  own := Parallel.handOver_of_ne h.own ho
  file := by rw [hw, h.file]
  nonneg := h.nonneg

/-- **An `open` or `create` returns its handle.** -/
theorem Tracks.stored (h : σ.Tracks fs req α own pend) (hP : σ.Harmony fs req (t, env))
    (hst : Stepped fs req σ σ' t env evs) {k : ℤ} (hk : 0 ≤ k) (hs : σ.pool.stage t = .store k x)
    (hs' : σ'.pool.stage t = .done { ret := 0 } (some k.toNat)) : Matched fs req σ σ' t α := by
  have hon := h.onTrack t
  simp only [OnTrack, hs] at hon
  obtain ⟨hop, hfits, hne, hall⟩ := hon
  obtain ⟨r, g, hph, -, hopen⟩ := hfits.served hne
  obtain ⟨rfl, f, rfl, hheld⟩ := hopen hop
  have hw := (hst.silent (by rw [hs]; rfl)).1
  have hlive : σ'.pool.live = { fh := k.toNat, fd := x.fd } :: σ.pool.live := by
    rw [hst.pool.live, hs, hs']
    rfl
  -- nobody has the new handle
  have hnew : ∀ f ∈ σ.pool.live, f.fh ≠ k.toNat := by
    intro f hf hfh
    have hslot := h.sound.slots.distinct.slot f hf
    rw [hfh, hP.orderly.stores k x hs hk] at hslot
    cases hslot
  have hact : ∀ u, σ.pool.busy u = true → (α.keep t k.toNat (some f)).act fs σ.pool.creds req u =
      α.act fs σ.pool.creds req u := by
    intro u hb
    cases hrel : (req u).releases with
    | true =>
        funext s
        rw [Atomic.act, Atomic.act, act_of_releases hrel, act_of_releases hrel]
    | false =>
        unfold Atomic.act
        cases hu : (req u).uses with
        | none => rfl
        | some fh =>
            obtain ⟨f', hf', rfl, -⟩ := h.sound.inUse u fh hb hu hrel
            simp only [Option.bind_some, Atomic.keep, Function.update_of_ne (hnew f' hf')]
  have hheld' : ∀ (i : Fin n) v o g', o ≠ .request t → σ.Held own i v o g' →
      σ'.Held (handOver own t k.toNat) i v o g' := fun i v o g' ho hh => hh.handOver_of_ne hw ho
  have hnone : ∀ i, σ'.pool.config.enabled i → ¬ σ.Outstanding req t i := fun i hi hout =>
    hout.2.2 (hall i (hst.enabled hi))
  have htracks : σ'.Tracks fs req (α.keep t k.toNat (some f)) (handOver own t k.toNat) pend := by
    refine h.of_step hP.orderly hst ?_ (fun u _ hb => hact u hb) (fun hb => ?_)
      (fun u hu => Function.update_of_ne hu _ _) (fun u hu i v g' _ hh => hheld' i v _ g' ?_ hh) ?_ ?_
    · refine h.lags.keep hst.pool.creds (fun i => hst.enabled) (fun i _ => by rw [hw]) rfl
        (fun i hi u => ?_) fun i hi u hu => ⟨hact u (busy_of_outstanding hu), ?_⟩
      · by_cases hut : u = t
        · subst hut
          exact iff_of_false (not_outstanding (by rw [hs']; rfl) i) (hnone i hi)
        · exact hst.outstanding_of_ne hut i
      · refine Function.update_of_ne ?_ _ _
        rintro rfl
        exact hnone i hi hu
    · rw [Pool.busy, hs'] at hb
      cases hb
    · exact fun heq => hu (Owner.request.inj heq)
    · simp only [OnTrack, hs']
      exact Function.update_self ..
    · refine ⟨fun f' hf' hrel => ?_, fun u todo r hcl f' hf' hfh hrel i hi hen => ?_⟩
      · rw [hlive] at hf'
        rcases List.mem_cons.mp hf' with rfl | hf'
        · refine ⟨f, Function.update_self .., fun i hi => ?_⟩
          have hi' := hst.enabled hi
          exact (hheld i hi' (hall i hi')).handOver_self hw
        · obtain ⟨g', hg', hall'⟩ := h.files.kept f' hf' hrel
          refine ⟨g', ?_, fun i hi => hheld' i _ _ g' Owner.file_ne_request (hall' i (hst.enabled hi))⟩
          rw [← hg']
          exact Function.update_of_ne (hnew f' hf') _ _
      · rw [hlive] at hf'
        have hut : u ≠ t := by
          rintro rfl
          rw [hs'] at hcl
          cases hcl
        rcases List.mem_cons.mp hf' with rfl | hf'
        · cases hrel
        · obtain ⟨g', hg'⟩ := h.files.closing u todo r ((hst.pool.stage_of_ne u hut).symm.trans hcl)
            f' hf' hfh hrel i hi (hst.enabled hen)
          exact ⟨g', hheld' i _ _ g' Owner.file_ne_request hg'⟩
  refine htracks.matched_act (.returns t { ret := 0 } (some k.toNat)) ?_ (by rw [hs, hs']; rfl)
  simp [Atomic.step, hph, hop]

/-! ## Descriptors are closed -/

/-- One descriptor of replica `i` is closed, by its owner `o`. -/
theorem Tracks.of_closing (h : σ.Tracks fs req α own pend) (hord : σ.pool.Orderly req (t, env))
    (hst : Stepped fs req σ σ' t env evs) {i : Fin n} {w : ℤ} {o : Owner T}
    (hevs : ∀ ev ∈ evs, ev.Closes σ.pool.config i w)
    (hown : σ.pool.config.enabled i → own w = some (i, o)) (ho : ∀ u, u ≠ t → o ≠ .request u)
    (hbusy : σ.pool.busy t = true)
    (hans : (σ'.pool.stage t).answered = (σ.pool.stage t).answered)
    (hon : (∀ j, σ'.pool.Answered t j ↔ σ.pool.Answered t j) →
      (∀ j v o' g, (j, o') ≠ (i, o) → σ.Held own j v o' g → σ'.Held own j v o' g) →
      σ'.OnTrack req α own t)
    (hfiles : (∀ j v o' g, (j, o') ≠ (i, o) → σ.Held own j v o' g → σ'.Held own j v o' g) →
      σ'.Files req α own) : σ'.Tracks fs req α own pend := by
  obtain ⟨hstore, hfile⟩ := World.runFrom_of_closing hevs hst.world
  have hno : evs.filterMap Event.okOn = [] :=
    List.filterMap_eq_nil_iff.mpr fun ev hev => (hevs ev hev).okOn
  have hheld : ∀ j v o' g, (j, o') ≠ (i, o) → σ.Held own j v o' g → σ'.Held own j v o' g := by
    intro j v o' g hne hh
    refine ⟨hh.own, ?_, hh.nonneg⟩
    rw [hfile v fun hen => ?_, hh.file]
    rintro rfl
    exact hne (Option.some.inj (hh.own.symm.trans (hown hen)))
  refine h.of_step hord hst ?_ (fun _ _ _ => rfl)
    (fun _ u hu hb => h.commutes t u (Ne.symm hu) hbusy hb) (fun _ _ => rfl)
    (fun u hu j v g _ hh => hheld j v _ g (fun heq => ho u hu (Prod.mk.inj heq).2.symm) hh)
    (hon (hst.answered_of_no_ok hno t) hheld) (hfiles hheld)
  refine h.lags.keep hst.pool.creds (fun j => hst.enabled) (fun j _ => by rw [hstore]) rfl
    (fun j _ u => ?_) fun j _ u _ => ⟨rfl, rfl⟩
  by_cases hut : u = t
  · subst hut
    rw [Outstanding, Outstanding, hans, hst.answered_of_no_ok hno]
  · exact hst.outstanding_of_ne hut j

/-- A round in which a request without a slot closes what it opened. -/
theorem Tracks.unwound (h : σ.Tracks fs req α own pend) (hP : σ.Harmony fs req (t, env))
    (hst : Stepped fs req σ σ' t env evs) {i : Fin n} {todo : List (Fin n)}
    (hs : σ.pool.stage t = .unwind (i :: todo) x) (hs' : σ'.pool.stage t = .unwind todo x)
    (hevs : evs = closeOpened env σ.pool.config σ.pool.creds x.fd [i]) :
    Matched fs req σ σ' t α := by
  have hon := h.onTrack t
  simp only [OnTrack, hs] at hon
  obtain ⟨hop, hnodup, hserved, hall, hheld⟩ := hon
  obtain ⟨hi, hnodup⟩ := List.nodup_cons.mp hnodup
  have htracks : σ'.Tracks fs req α own pend := by
    refine h.of_closing (o := .request t) hP.orderly hst
      (fun ev hev => closes_of_mem_closeOpened (hevs ▸ hev)) (fun hen => ?_)
      (fun u hu heq => hu (Owner.request.inj heq).symm) (by rw [Pool.busy, hs])
      (by rw [hs, hs']; rfl) (fun hans hkeep => ?_) fun hkeep => ?_
    · obtain ⟨g, hg⟩ := hheld i List.mem_cons_self hen
      exact hg.own
    · simp only [OnTrack, hs']
      refine ⟨hop, hnodup, hserved, fun j hen => (hans j).mpr (hall j (hst.enabled hen)),
        fun j hj hen => ?_⟩
      obtain ⟨g, hg⟩ := hheld j (List.mem_cons_of_mem i hj) (hst.enabled hen)
      refine ⟨g, hkeep j _ _ g (fun heq => ?_) hg⟩
      obtain rfl := (Prod.mk.inj heq).1
      exact hi hj
    · refine h.files.keep (fun j => hst.enabled) ?_ rfl
        (fun j v fh g _ hh =>
          hkeep j v _ g (fun heq => Owner.file_ne_request (Prod.mk.inj heq).2) hh) ?_
      · rw [hst.pool.live, hs, hs']
        rfl
      · intro u todo' r hcl
        by_cases hu : u = t
        · subst hu
          rw [hs'] at hcl
          cases hcl
        · exact ⟨todo', r, (hst.pool.stage_of_ne u hu).symm.trans hcl, List.Subset.refl _⟩
  exact htracks.matched (by rw [hs, hs']; rfl)

/-- A round of a release. -/
theorem Tracks.closed (h : σ.Tracks fs req α own pend) (hP : σ.Harmony fs req (t, env))
    (hst : Stepped fs req σ σ' t env evs) {i : Fin n} {todo : List (Fin n)} {r r' : ℤ}
    (hs : σ.pool.stage t = .close (i :: todo) r) (hs' : σ'.pool.stage t = .close todo r') :
    Matched fs req σ σ' t α := by
  have hon := h.onTrack t
  simp only [OnTrack, hs] at hon
  obtain ⟨hrel, hnodup, hph, hnot⟩ := hon
  obtain ⟨hi, hnodup⟩ := List.nodup_cons.mp hnodup
  obtain ⟨fh, hq⟩ := Request.eq_release hrel
  have hclosing : σ.pool.closing t = true := by rw [Pool.closing, hs]
  obtain ⟨f, hf, hfh, hfrel⟩ := h.sound.slots.closing t hclosing
  have hfd := h.sound.slots.distinct.slot f hf
  -- the events of this round
  have hevs : ∀ ev ∈ evs, ev.Closes σ.pool.config i (f.fd i) := by
    have hadv := hst.advance
    rw [hs, hs'] at hadv
    simp only [Request.advance, hfh, Option.bind_eq_bind, Option.bind_some, hfd, Option.some.injEq,
      Prod.mk.injEq] at hadv
    exact fun ev hev => closes_of_mem_releaseLoop (hadv.2.2 ▸ hev)
  have hlive : σ'.pool.live = σ.pool.live := by
    rw [hst.pool.live, hs, hs']
    rfl
  have htracks : σ'.Tracks fs req α own pend := by
    refine h.of_closing (o := .file f.fh) hP.orderly hst hevs (fun hen => ?_)
      (fun u _ => Owner.file_ne_request) (by rw [Pool.busy, hs]) (by rw [hs, hs']; rfl)
      (fun hans hkeep => ?_) fun hkeep => ⟨fun f' hf' hrel' => ?_,
        fun u todo' r'' hcl f' hf' hfh' hrel' j hj hen => ?_⟩
    · obtain ⟨g, hg⟩ := h.files.closing t _ _ hs f hf hfh hfrel i List.mem_cons_self hen
      exact hg.own
    · simp only [OnTrack, hs']
      exact ⟨hrel, hnodup, hph, fun j hj => hnot j ((hans j).mp hj)⟩
    · rw [hlive] at hf'
      obtain ⟨g, hg, hheld⟩ := h.files.kept f' hf' hrel'
      refine ⟨g, hg, fun j hen => hkeep j _ _ g (fun heq => ?_) (hheld j (hst.enabled hen))⟩
      obtain rfl := h.sound.slots.distinct.eq_of_fh_eq hf' hf (Owner.file.inj (Prod.mk.inj heq).2)
      rw [hfrel] at hrel'
      cases hrel'
    · rw [hlive] at hf'
      by_cases hu : u = t
      · subst hu
        obtain ⟨rfl, rfl⟩ := Stage.close.inj (hs'.symm.trans hcl)
        obtain ⟨g, hg⟩ := h.files.closing u _ _ hs f' hf' hfh' hrel' j
          (List.mem_cons_of_mem i hj) (hst.enabled hen)
        refine ⟨g, hkeep j _ _ g (fun heq => ?_) hg⟩
        obtain rfl := (Prod.mk.inj heq).1
        exact hi hj
      · have hcl' := (hst.pool.stage_of_ne u hu).symm.trans hcl
        obtain ⟨g, hg⟩ := h.files.closing u _ _ hcl' f' hf' hfh' hrel' j hj (hst.enabled hen)
        refine ⟨g, hkeep j _ _ g (fun heq => hu ?_) hg⟩
        -- two requests would release one file
        refine h.sound.slots.alone u t (by rw [Pool.closing, hcl']) hclosing ?_
        rw [hfh', hfh, Owner.file.inj (Prod.mk.inj heq).2]
  exact htracks.matched (by rw [hs, hs']; rfl)

/-- **A release returns**, and its handle is nobody's. -/
theorem Tracks.emptied (h : σ.Tracks fs req α own pend) (hP : σ.Harmony fs req (t, env))
    (hst : Stepped fs req σ σ' t env evs) {r : ℤ} (hs : σ.pool.stage t = .close [] r)
    (hs' : σ'.pool.stage t = .done { ret := r } none) : Matched fs req σ σ' t α := by
  have hon := h.onTrack t
  simp only [OnTrack, hs] at hon
  obtain ⟨hrel, -, hph, -⟩ := hon
  have hw := (hst.silent (by rw [hs]; rfl)).1
  have hlive : ∀ f ∈ σ'.pool.live, f ∈ σ.pool.live := by
    intro f hf
    rw [hst.pool.live, hs, hs'] at hf
    exact List.mem_of_mem_filter hf
  have htracks : σ'.Tracks fs req (α.go t .returned) own pend := by
    refine h.returns hP.orderly hst hw hs' (fun i _ => not_outstanding (by rw [hs]; rfl) i)
      ⟨fun f hf hno => ?_, fun u todo r' hcl f hf hfh hyes i hi hen => ?_⟩
    · obtain ⟨g, hg, hheld⟩ := h.files.kept f (hlive f hf) hno
      exact ⟨g, hg, fun i hi => (hheld i (hst.enabled hi)).of_world hw⟩
    · have hu : u ≠ t := by
        rintro rfl
        rw [hs'] at hcl
        cases hcl
      obtain ⟨g, hg⟩ := h.files.closing u todo r' ((hst.pool.stage_of_ne u hu).symm.trans hcl) f
        (hlive f hf) hfh hyes i hi (hst.enabled hen)
      exact ⟨g, hg.of_world hw⟩
  refine htracks.matched_act (.returns t { ret := r } none) ?_ (by rw [hs, hs']; rfl)
  simp only [Atomic.step, hph, if_pos (Or.inl hrel)]

/-! ## Every step -/

/-- A round of a search. -/
theorem Tracks.attended (h : σ.Tracks fs req α own pend) (hP : σ.Harmony fs req (t, env))
    (hst : Stepped fs req σ σ' t env evs) {i : Fin n} {todo : List ℕ}
    (hs : σ.pool.stage t = .ask i todo x) : Matched fs req σ σ' t α := by
  have hse : (req t).searches = true := by
    have hon := h.onTrack t
    simp only [OnTrack, hs] at hon
    exact hon.1
  have hfate : (req t).visitFate env σ.pool.creds σ.pool.config i =
      attempt env σ.pool.creds i ((req t).ask env σ.pool.config i) :=
    Request.visitFate_of_not_opens (Request.opens_of_searches hse)
  have hadv := hst.advance
  rw [hs] at hadv
  simp only [Request.advance] at hadv
  split_ifs at hadv
  obtain ⟨hevs, y, htally, hy⟩ := Request.attend_cases (Option.some.inj hadv)
  rw [← Request.visitEvents_of_searches hse] at hevs
  rw [← hfate] at htally hy
  cases hf : (req t).visitFate env σ.pool.creds σ.pool.config i with
  | ok r =>
      obtain ⟨x', hs', hfound, htally'⟩ :=
        Request.attend_found (Option.some.inj hadv) (hfate.symm.trans hf)
      exact h.attend_answered hP hst hs hs' hevs htally' hf hfound
  | skipped | failed =>
      have hno : ((req t).visitFate env σ.pool.creds σ.pool.config i).isOk = false := by
        rw [hf]
        rfl
      obtain ⟨x', hs', hw, hfound⟩ := Request.attend_passed (Option.some.inj hadv) (hfate ▸ hno)
      rw [hno, hs'] at hy
      obtain rfl := (Stage.choose.inj hy).2
      exact (h.attend_failed hP hst hs hs' hevs htally hno hw hfound).matched (by rw [hs, hs']; rfl)

/-- **One step**, whatever it is. -/
theorem Tracks.step (h : σ.Tracks fs req α own pend) (hP : σ.Harmony fs req (t, env))
    (hstep : σ.step fs req (t, env) = some σ') : Matched fs req σ σ' t α := by
  obtain ⟨evs, hst⟩ := stepped_of_step hstep
  have hadv := hst.advance
  have hmove := Request.move_of_advance hadv
  generalize hs : σ.pool.stage t = st at hadv hmove
  generalize hs' : σ'.pool.stage t = st' at hadv hmove
  generalize hc : σ'.pool.config = c' at hadv hmove
  generalize hevs : evs = evs' at hadv hmove
  cases hmove with
  | refused e => exact h.refused hP hst hs hs'
  | goesOver hse => exact h.goes_over hP hst hse hs hs'
  | searches hse => exact h.searches hP hst hse hs hs'
  | releases hrel => exact h.releases hP hst hrel hs hs'
  | gaveUp hsup =>
      subst hevs
      exact h.gave_up hP hst hsup hs hs'
  | @visited i todo x x' _ _ htally =>
      cases hf : (req t).visitFate env σ.pool.creds σ.pool.config i with
      | ok r => exact h.visit_answered hP hst hs hs' hevs (hf ▸ hevs ▸ htally) hf
      | skipped | failed =>
          exact (h.visit_failed hP hst hs hs' hevs (hevs ▸ htally) (by rw [hf]; rfl)).matched
            (by rw [hs, hs']; rfl)
  | loopEnd => exact h.loop_end hP hst hs hs'
  | chose => exact h.choose hP hst hs hs'
  | triesEnd => exact h.tries_end hP hst hs hs'
  | attended => exact h.attended hP hst hs
  | spared hno => exact h.disable hP hst hs hs' (hc ▸ hno)
  | disabled hen herr =>
      refine h.disable hP hst hs hs' fun hen' => ?_
      rw [Config.enabled, hc] at hen'
      simp [Config.disableReplica] at hen'
  | disableEnd => exact h.disable_end hP hst hs hs'
  | failed hz => exact h.failed hP hst hz hs hs'
  | answered hne hop => exact h.answered hP hst hne hop hs hs'
  | sought hne hop => exact h.seek hP hst hs hs' hne hop
  | stored hk => exact h.stored hP hst hk hs hs'
  | noSlot => exact h.no_slot hP hst hs hs'
  | unwound => exact h.unwound hP hst hs hs' hevs
  | unwindEnd => exact h.unwind_end hP hst hs hs'
  | closed => exact h.closed hP hst hs hs'
  | emptied => exact h.emptied hP hst hs hs'

/-! ## Runs -/

/-- Nothing was asked yet, and every enabled replica holds the store `s₀`. -/
structure Start (σ : Parallel T n S F) (s₀ : S) : Prop where
  pool : σ.pool.EmptyTable
  trace : σ.pool.trace = []
  named : σ.pool.config.AllNamed
  store : ∀ i, σ.pool.config.enabled i → σ.world.store i = s₀

/-- At the start there is nothing to catch up with. -/
theorem Start.tracks {s₀ : S} (h : σ.Start s₀) :
    σ.Tracks fs req (Atomic.start s₀) (fun _ => none) fun _ => [] := by
  have hans : ∀ t i, ¬ σ.pool.Answered t i := by
    rintro t i ⟨a, ha, -⟩
    rw [h.trace] at ha
    cases ha
  have hstart := h.pool.start
  have hidle : ∀ t, σ.pool.busy t = false := fun t => by rw [Pool.busy, hstart t]
  refine ⟨⟨h.pool.sound, h.named⟩,
    ⟨fun i hi => h.store i hi, fun i _ t => ?_, fun _ _ => List.nodup_nil⟩,
    fun t u _ hb => ?_, fun t => ?_, ⟨fun f hf => ?_, fun t todo r hs => ?_⟩⟩
  · exact iff_of_false List.not_mem_nil (not_outstanding (by rw [hstart t]; rfl) i)
  · rw [hidle t] at hb
    cases hb
  · simp only [OnTrack, hstart t]
    exact ⟨rfl, hans t⟩
  · rw [h.pool.live] at hf
    cases hf
  · rw [hstart t] at hs
    cases hs

/-- The daemon follows the copy, and serves requests under the ids `cr`. -/
def Follows (fs : FileSystem S F) (req : T → Request) (cr : Creds) (σ : Parallel T n S F)
    (α : Atomic T S F) : Prop :=
  σ.pool.creds = cr ∧ ∃ own pend, σ.Tracks fs req α own pend

/-- **The daemon simulates the copy.** -/
theorem simulates (fs : FileSystem S F) (req : T → Request) (cr : Creds) :
    Machine.Simulates (Parallel.step (n := n) fs req) (Atomic.step fs cr req) (Harmony fs req)
      (Parallel.shows req) (fun _ a => a.shown) (Follows fs req cr) := by
  rintro σ ⟨t, env⟩ σ' α hP ⟨rfl, own, pend, h⟩ hstep
  obtain ⟨acts, α', own', pend', hrun, hshow, h'⟩ := h.step hP hstep
  obtain ⟨evs, hst⟩ := stepped_of_step hstep
  exact ⟨acts, α', hrun, by rw [hshow, hst.shows], hst.pool.creds, own', pend', h'⟩

/-- When no request is under way, an enabled replica holds the store of the copy. -/
theorem Tracks.store_eq (h : σ.Tracks fs req α own pend) (hidle : ∀ t, σ.pool.busy t = false)
    {i : Fin n} (hi : σ.pool.config.enabled i) : σ.world.store i = α.copy.store := by
  have hnone : pend i = [] := List.eq_nil_iff_forall_not_mem.mpr fun t ht => by
    have hb := busy_of_outstanding ((h.lags.mem i hi t).mp ht)
    rw [hidle t] at hb
    cases hb
  have hleads := h.lags.leads i hi
  rwa [hnone] at hleads

end step

end Parallel

/-- **Requests at the same time are atomic.** In a run whose steps are in harmony, programs see of their
requests what they would see of one file system that executes each of them at one moment between
its beginning and its return. Its open files are the ones of every enabled replica, and when no
request is under way its store is theirs. -/
theorem requests_atomic [DecidableEq T] {fs : FileSystem S F} {req : T → Request}
    {σ₀ σ : Parallel T n S F} {s₀ : S} (h₀ : σ₀.Start s₀) {l : List (T × Env n)}
    (hmeets : Machine.Meets (Parallel.step fs req) (Parallel.Harmony fs req) σ₀ l)
    (hrun : Machine.runFrom (Parallel.step fs req) σ₀ l = some σ) :
    ∃ acts α, Machine.runFrom (Atomic.step fs σ₀.pool.creds req) (Atomic.start s₀) acts = some α ∧
      Machine.observe (Atomic.step fs σ₀.pool.creds req) (fun _ a => a.shown) (Atomic.start s₀) acts =
        Machine.observe (Parallel.step fs req) (Parallel.shows req) σ₀ l ∧
      (∀ f ∈ σ.pool.live, f.releasing = false → ∃ g, α.copy.file f.fh = some g ∧
        ∀ i, σ.pool.config.enabled i → σ.world.file (f.fd i) = some (i, g)) ∧
      ((∀ t, σ.pool.busy t = false) →
        ∀ i, σ.pool.config.enabled i → σ.world.store i = α.copy.store) := by
  obtain ⟨acts, α, hacts, hshow, -, own, pend, h⟩ :=
    (Parallel.simulates fs req σ₀.pool.creds).run l σ₀ σ (Atomic.start s₀) hmeets
      ⟨rfl, _, _, h₀.tracks⟩ hrun
  refine ⟨acts, α, hacts, hshow, fun f hf hrel => ?_, fun hidle i hi => h.store_eq hidle hi⟩
  obtain ⟨g, hg, hheld⟩ := h.files.kept f hf hrel
  exact ⟨g, hg, fun i hi => (hheld i hi).file⟩

/-- A store of file modes, which can only be set. -/
def modes : FileSystem (Path → ℕ) Unit where
  openFile := fun _ _ _ => .error EACCES
  pread := fun _ _ _ _ => .error EACCES
  pwrite := fun _ _ _ _ => .error EACCES
  query := fun _ _ _ => .error EACCES
  update
    | _, .chmod path mode, s => .ok (Function.update s path mode)
    | _, _, _ => .error EACCES

/-- Two requests, about `/f` and `/b`. -/
def twoChmods : Bool → Request := fun t => if t then .chmod [47, 98] 2 else .chmod fileF 1

/-- Both are under way at the same time; the second one overtakes the first. -/
def crossing : List (Bool × Env 2) :=
  [false, true, false, true, true, false, true, true, false, false].map
    fun t => (t, plainEnv fun _ _ => .ok {})

/-- Two replicas without any modes. -/
def noModes : Parallel Bool 2 (Path → ℕ) Unit where
  pool := rootPool Bool
  world := { store := fun _ _ => 0, file := fun _ => none }

theorem modes_act (cr : Creds) (path : Path) (mode : ℕ) (f : Option Unit) (s : Path → ℕ) :
    modes.act cr (.chmod path mode) f s = some (Function.update s path mode, { ret := 0 }, none) :=
  rfl

/-- Changes to the modes of two files commute. -/
theorem commute_chmod (cr : Creds) {p p' : Path} (h : p ≠ p') (m m' : ℕ) (f g : Option Unit) :
    Lagging.Commute (modes.act cr (.chmod p m) f) (modes.act cr (.chmod p' m') g) := by
  intro s s₁ s₂ r₁ r₂ h₁ h₂
  rw [modes_act] at h₁ h₂
  cases h₁
  cases h₂
  exact ⟨_, modes_act .., by rw [modes_act, Function.update_comm h]⟩

theorem commute_twoChmods (cr : Creds) {t u : Bool} (h : t ≠ u) (f g : Option Unit) :
    Lagging.Commute (modes.act cr (twoChmods t) f) (modes.act cr (twoChmods u) g) := by
  cases t <;> cases u
  · exact absurd rfl h
  · exact commute_chmod cr (by decide) 1 2 f g
  · exact commute_chmod cr (by decide) 2 1 f g
  · exact absurd rfl h

theorem crossing_harmony :
    Machine.Meets (Parallel.step modes twoChmods) (Parallel.Harmony modes twoChmods) noModes
      crossing := by
  have hmeets : Machine.Meets (Parallel.step modes twoChmods)
      (fun σ a => σ.pool.Orderly twoChmods a ∧ σ.pool.config.enabled 0) noModes crossing := by
    decide
  refine hmeets.imp_of_mem ?_
  rintro ⟨t, env⟩ hmem σ ⟨hord, hen⟩
  refine ⟨hord, ?_, ⟨0, hen⟩, ?_, ?_⟩
  · obtain ⟨t', -, heq⟩ := List.mem_map.mp hmem
    obtain ⟨-, rfl⟩ := Prod.mk.inj heq
    exact fun _ _ => rfl
  · intro x _ hse
    cases t <;> cases hse
  · intro hs u hb f g _ _
    refine commute_twoChmods _ ?_ f g
    rintro rfl
    rw [Pool.busy, hs] at hb
    cases hb

/-- The second request returns first, and both replicas come to hold what one store holds. -/
theorem requests_atomic_crossing :
    ∃ σ, Machine.runFrom (Parallel.step modes twoChmods) noModes crossing = some σ ∧
      ∃ acts α, Machine.runFrom (Atomic.step modes (.ofUser 0 0) twoChmods)
          (Atomic.start fun _ => 0) acts = some α ∧
        Machine.observe (Atomic.step modes (.ofUser 0 0) twoChmods) (fun _ a => a.shown)
            (Atomic.start fun _ => 0) acts =
          [.asks false, .asks true, .returns true { ret := 0 } none,
            .returns false { ret := 0 } none] ∧
        ∀ i, σ.world.store i = α.copy.store := by
  have h₀ : noModes.Start fun _ => 0 :=
    ⟨⟨fun _ => rfl, rfl, by decide, fun _ _ => rfl⟩, rfl, fun _ => Option.some_ne_none _,
      fun _ _ => rfl⟩
  obtain ⟨acts, α, hacts, hshow, -, hstore⟩ := requests_atomic h₀ crossing_harmony rfl
  refine ⟨_, rfl, acts, α, hacts, hshow, fun i => hstore (by decide) i ?_⟩
  revert i
  decide

end ChironFs
