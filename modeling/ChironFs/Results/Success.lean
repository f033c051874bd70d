import ChironFs.Model.Sample
import ChironFs.Spec.Tries

/-!
# What a success means

* `SuccessIsReal`: a request that returns a success was done by some replica, and a request that
  changes something disables every replica that missed the change.
* `mkdir_success_not_real`: a replica whose name could not be built is passed over in silence.
* `successIsReal_iff`: which requests mean what they return.
-/

namespace ChironFs

open Posix Replication

variable {n : ℕ}

/-- The requests made on every replica. -/
def Request.mutates (q : Request) : Bool := !q.searches && !q.releases

/-- A success was somebody's, and no replica that missed a change stays enabled. -/
structure SuccessIsReal (q : Request) (d : Daemon n) (o : Outcome n) : Prop where
  somebody : 0 ≤ o.response.ret → ∃ i, o.CallOk i
  nobody_missed : q.mutates = true → (∃ j, o.CallOk j) → ∀ i, d.config.enabled i → ¬ o.CallOk i →
    ¬ o.daemon.config.enabled i

/-- `mkdir` makes the directory on the first replica only, returns `0` and leaves the second
enabled. -/
theorem mkdir_success_not_real :
    ∃ o, handle (.mkdir fileF 0o755) secondUnnamed rootDaemon = some o ∧ o.response.ret = 0 ∧
      o.CallOk 0 ∧ ¬ o.Tried 1 ∧ o.daemon.config.enabled 1 ∧
      ¬ SuccessIsReal (.mkdir fileF 0o755) rootDaemon o := by
  have ho : handle (.mkdir fileF 0o755) secondUnnamed rootDaemon = some _ := rfl
  obtain ⟨tried, h⟩ := handle_served rfl rfl ho
  have hok : (chironMkdir fileF 0o755 secondUnnamed rootDaemon).CallOk 0 := by
    exact ⟨_, _, {}, h.call_mem_iff.mpr ⟨h.mem_tried rfl 0, rfl, rfl, rfl⟩⟩
  have hno : ¬ (chironMkdir fileF 0o755 secondUnnamed rootDaemon).Tried 1 := h.not_tried_of_ask rfl
  refine ⟨_, rfl, rfl, hok, hno, rfl, ?_⟩
  intro hreal
  exact hreal.nobody_missed rfl ⟨0, hok⟩ 1 rfl (fun h1 => hno h1.tried) rfl

section success

variable {q : Request} {env : Env n} {d : Daemon n} {o : Outcome n} {tried : List (Fin n)}

theorem Served.callOk_iff (h : Served q env d tried o) (i : Fin n) :
    o.CallOk i ↔ (q.fates env d i).isOk = true := by
  rw [Fate.isOk_iff, ← h.roundOn_eq]
  simp only [h.roundOn_eq_ok_iff]
  exact ⟨fun ⟨cr, c, r, hmem⟩ => ⟨r, cr, c, hmem⟩, fun ⟨r, cr, c, hmem⟩ => ⟨cr, c, r, hmem⟩⟩

theorem Served.exists_callOk_iff (h : Served q env d tried o) :
    (∃ i, o.CallOk i) ↔ (q.fates env d).Succeeded := exists_congr h.callOk_iff

/-- A success is somebody's exactly when the request reaches some replica. -/
theorem Served.somebody_iff (h : Served q env d tried o) :
    (0 ≤ o.response.ret → ∃ i, o.CallOk i) ↔ ∃ i ∈ q.tries env d, q.Reaches env d i := by
  have hreach : (∃ i ∈ q.tries env d, q.Reaches env d i) ↔ ∃ i, q.fates env d i ≠ .skipped := by
    apply exists_congr
    intro i
    by_cases hi : i ∈ q.tries env d
    · rw [Request.fates_eq_of_mem hi, Request.round_ne_skipped_iff]
      exact and_iff_right hi
    · simp [hi, Request.fates_eq_skipped_of_not_mem hi]
  rw [hreach, h.exists_callOk_iff]
  constructor
  · intro hsome
    by_contra hall
    -- nobody was reached: nobody failed either, and the first error is `0`
    have hskip : ∀ i, q.fates env d i = .skipped := fun i => by
      by_contra hi
      exact hall ⟨i, hi⟩
    have hns : ¬ (q.fates env d).Succeeded := by
      rintro ⟨i, hi⟩
      rw [hskip i] at hi
      cases hi
    refine hns (hsome ?_)
    rw [h.failed (by rwa [h.roundOn_eq]), h.roundOn_eq]
    exact (firstError_eq_zero fun i => by rw [hskip i]; rfl).ge
  · rintro ⟨i, hi⟩ hret
    by_contra hns
    rw [h.failed (by rwa [h.roundOn_eq]), h.roundOn_eq] at hret
    exact absurd (firstError_neg_of_not_succeeded hns hi) (not_lt.mpr hret)

/-- Nobody who missed a change stays enabled exactly when a change that is made anywhere reaches
every enabled replica. -/
theorem Served.nobody_missed_iff (h : Served q env d tried o) (hse : q.searches = false) :
    ((∃ j, o.CallOk j) → ∀ i, d.config.enabled i → ¬ o.CallOk i → ¬ o.daemon.config.enabled i) ↔
      ((q.round env d).Succeeded → ∀ i, d.config.enabled i → q.Reaches env d i) := by
  rw [h.exists_callOk_iff, Request.fates_of_not_searches hse]
  refine forall_congr' fun hs => forall_congr' fun i => forall_congr' fun hen => ?_
  rw [h.callOk_iff, ← Request.round_ne_skipped_iff, Config.not_enabled_iff, h.disabled_iff,
    or_iff_right (show ¬ _ by simpa [Config.enabled] using hen), h.roundOn_eq,
    Request.fates_of_not_searches hse, Round.Drops, and_iff_right hs]
  cases q.round env d i <;> simp

/-- **Which requests mean what they return**: those that end before they reach a replica; and those
that reach one and, if they change something on one, reach every enabled replica. -/
theorem successIsReal_iff (hrel : q.releases = false) (ho : handle q env d = some o) :
    SuccessIsReal q d o ↔ (∃ e, q.early env d.config = some e) ∨
      (∃ i ∈ q.tries env d, q.Reaches env d i) ∧
        (q.mutates = true → (q.round env d).Succeeded →
          ∀ i, d.config.enabled i → q.Reaches env d i) := by
  have hmut : q.mutates = true ↔ q.searches = false := by simp [Request.mutates, hrel]
  have hsplit : SuccessIsReal q d o ↔ (0 ≤ o.response.ret → ∃ i, o.CallOk i) ∧
      (q.mutates = true → (∃ j, o.CallOk j) → ∀ i, d.config.enabled i → ¬ o.CallOk i →
        ¬ o.daemon.config.enabled i) :=
    ⟨fun h => ⟨h.1, h.2⟩, fun h => ⟨h.1, h.2⟩⟩
  rcases handle_cases ho with ⟨e, he, rfl⟩ | ⟨fh, fd, rfl, -⟩ | ⟨he, -, tried, h⟩
  · have hno : ∀ i, ¬ (earlyOutcome env d e).CallOk i := by
      rintro i ⟨cr, c, r, hmem⟩
      cases isCred_of_mem_earlyOutcome hmem
    refine iff_of_true ⟨?_, ?_⟩ (Or.inl ⟨e, he⟩)
    · intro hret
      exact absurd e.neg_lt_zero (not_lt.mpr hret)
    · intro _ hj
      obtain ⟨j, hj⟩ := hj
      exact absurd hj (hno j)
  · cases hrel
  · rw [hsplit, h.somebody_iff, hmut, he]
    simp only [reduceCtorEq, exists_false, false_or]
    exact and_congr_right fun _ => forall_congr' fun hse => h.nobody_missed_iff hse

end success

/-- `mkdir` failing on the second replica reaches both. -/
theorem successIsReal_iff_mkdir :
    ∃ o, handle (.mkdir fileF 0o755) (secondFails {} EACCES) rootDaemon = some o ∧
      SuccessIsReal (.mkdir fileF 0o755) rootDaemon o := by
  obtain ⟨o, ho⟩ : ∃ o, handle (.mkdir fileF 0o755) (secondFails {} EACCES) rootDaemon = some o :=
    ⟨_, rfl⟩
  have hreach : ∀ i, (Request.mkdir fileF 0o755).Reaches (secondFails {} EACCES) rootDaemon i :=
    fun i => ⟨rfl, Or.inr (Option.some_ne_none _)⟩
  refine ⟨o, ho, (successIsReal_iff rfl ho).mpr (Or.inr ⟨⟨0, ?_, hreach 0⟩,
    fun _ _ i _ => hreach i⟩)⟩
  rw [Request.tries_of_not_searches rfl]
  exact List.mem_finRange 0

end ChironFs
