import ChironFs.Model.Sample
import ChironFs.Spec.Tries

/-!
# What a request writes to the log

* `Outcome.LogsWell`: every `_log` call of the request stays inside `errtab`, and the error text it
  writes for a replica is the one of the `errno` that replica's call set.
* `mkdir_logs_outside`: the handlers hand `-errno` to `_log`, which takes a negative value for an
  index into its own table.
* `logsWell_iff`: so the log is right exactly when the request writes about no failed replica.
-/

namespace ChironFs

open Posix Replication

variable {n : ℕ}

/-- A `_log` call with this error value reads `errtab` inside the table, if at all. -/
def InsideErrtab (err : ℤ) : Prop := err < 0 → errtabIndex err < errtab.length

/-- The `_log` calls of a request are safe, and name the error of the replica they are about. -/
structure Outcome.LogsWell (strerror : ℕ → String) (o : Outcome n) : Prop where
  inside : ∀ who fnname resource err, .log who fnname resource err ∈ o.trace → InsideErrtab err
  names : ∀ i fnname resource err, .log (some i) fnname resource err ∈ o.trace → err ≠ 0 →
    ∀ cr c e, .call cr i c (.error e) ∈ o.trace → errText strerror err = some (strerror e.val)

/-- `mkdir`, failing with `EACCES` on the second replica, reads behind the end of `errtab`. -/
theorem mkdir_logs_outside :
    ∃ o, handle (.mkdir fileF 0o755) (secondFails {} EACCES) rootDaemon = some o ∧
      .log (some 1) "mkdir" (.path (some [47, 98])) (-13) ∈ o.trace ∧ ¬ InsideErrtab (-13) ∧
      ∀ strerror, ¬ o.LogsWell strerror := by
  have hout : ¬ InsideErrtab (-13) := by
    unfold InsideErrtab
    decide
  have ho : handle (.mkdir fileF 0o755) (secondFails {} EACCES) rootDaemon = some _ := rfl
  obtain ⟨tried, h⟩ := handle_served rfl rfl ho
  have hlog : .log (some 1) "mkdir" (.path (some [47, 98])) (-13) ∈
      dropLogs "mkdir" rootDaemon.config
        ((Request.mkdir fileF 0o755).roundOn (secondFails {} EACCES) rootDaemon tried) := by
    rw [h.all rfl, Request.roundOn_finRange, mem_dropLogs_iff]
    exact ⟨⟨0, rfl⟩, 1, EACCES, rfl, Or.inl rfl⟩
  refine ⟨_, rfl, h.dropLogs_subset hlog, hout, ?_⟩
  intro strerror hw
  exact hout (hw.inside _ _ _ _ (h.dropLogs_subset hlog))

section logging

variable {q : Request} {env : Env n} {d : Daemon n} {o : Outcome n} {strerror : ℕ → String}

/-- The text `_log` writes for the value the handlers store. -/
theorem errText_neg (e : Errno) : errText strerror e.neg = errtab[e.val - 1]? := by
  have hpos := e.pos
  have hidx : errtabIndex e.neg = e.val - 1 := by
    unfold errtabIndex Errno.neg
    omega
  rw [errText, if_neg (not_lt.mpr e.neg_lt_zero.le), hidx]

/-- The table has seven entries. -/
theorem insideErrtab_neg_iff (e : Errno) : InsideErrtab e.neg ↔ e.val ≤ 7 := by
  have hpos := e.pos
  unfold InsideErrtab errtabIndex
  rw [show errtab.length = 7 from rfl]
  unfold Errno.neg
  omega

theorem Request.round_release (fh : ℕ) (i : Fin n) :
    (Request.release fh).round env d i = .skipped := by
  have hcall : (Request.release fh).call env d.config i = none := rfl
  rw [← not_not (a := _ = _), ← Ne, Request.round_ne_skipped_iff, Request.Reaches, hcall]
  simp [Request.opens]

/-- A request that drops a replica logs its failure badly: the index is outside the table, or the
text there is not the one of the error. -/
theorem not_logsWell_of_drops (hstr : ∀ e : Errno, errtab[e.val - 1]? ≠ some (strerror e.val))
    {tried : List (Fin n)} (h : Served q env d tried o) {i : Fin n}
    (hi : (q.roundOn env d tried).Drops i) : ¬ o.LogsWell strerror := by
  intro hw
  obtain ⟨hs, hf⟩ := hi
  obtain ⟨e, he⟩ := Fate.isFailed_iff.mp hf
  have hlog := h.dropLogs_subset (mem_dropLogs_iff.mpr ⟨hs, i, e, he, Or.inl rfl⟩)
  have hle := (insideErrtab_neg_iff e).mp (hw.inside _ _ _ _ hlog)
  by_cases htr : i ∈ tried
  · rw [Request.roundOn, if_pos htr, Request.round_eq_failed_iff] at he
    rcases he with ⟨c, hask, herr⟩ | ⟨-, -, -, rfl⟩
    · have hcall := h.call_mem_iff.mpr ⟨htr, rfl, hask, herr.symm⟩
      have htext := hw.names _ _ _ _ hlog e.neg_ne_zero _ _ _ hcall
      rw [errText_neg] at htext
      exact hstr e htext
    · -- the error of a name that could not be built is `ENOMEM`, that is `12`
      exact absurd hle (by decide)
  · rw [Request.roundOn, if_neg htr] at he
    cases he

/-- **When the log is right**: exactly when no replica the request goes over fails while another
one answers, the C library's texts being different from those of the table. -/
theorem logsWell_iff (hstr : ∀ e : Errno, errtab[e.val - 1]? ≠ some (strerror e.val))
    (ho : handle q env d = some o) :
    o.LogsWell strerror ↔ (q.early env d.config = none → ∀ i, ¬ (q.fates env d).Drops i) := by
  constructor
  · intro hw he i hi
    rcases handle_cases ho with ⟨e, he', -⟩ | ⟨fh, fd, rfl, -, -⟩ | ⟨-, -, tried, h⟩
    · rw [he] at he'
      cases he'
    · have hf := hi.2
      rw [Request.fates_of_not_searches rfl, Request.round_release] at hf
      cases hf
    · rw [← h.roundOn_eq] at hi
      exact not_logsWell_of_drops hstr h hi hw
  · intro hno
    -- without a dropped replica the only log line is the one for a full table
    have hzero : ∀ who fnname resource err, .log who fnname resource err ∈ o.trace →
        who = none ∧ err = 0 := by
      intro who fnname resource err hmem
      rcases handle_cases ho with ⟨e, -, rfl⟩ | ⟨fh, fd, -, -, rfl⟩ | ⟨he, -, tried, h⟩
      · cases isCred_of_mem_earlyOutcome hmem
      · obtain ⟨_, -, heq⟩ := mem_releaseOutcome rfl hmem
        cases heq
      · rcases h.log_mem hmem with ⟨hwho, -, herr⟩ | ⟨hs, i, e, hi, -⟩
        · exact ⟨hwho, herr⟩
        · rw [h.roundOn_eq] at hs hi
          exact absurd (Round.drops_of_eq_failed hs hi) (hno he i)
    constructor
    · intro who fnname resource err hmem hneg
      rw [(hzero _ _ _ _ hmem).2] at hneg
      exact absurd hneg (lt_irrefl 0)
    · intro i fnname resource err hmem hne
      exact absurd (hzero _ _ _ _ hmem).2 hne

end logging

/-- The texts of the first errors. -/
def strerrorC : ℕ → String
  | 1 => "Operation not permitted"
  | 2 => "No such file or directory"
  | 3 => "No such process"
  | 4 => "Interrupted system call"
  | 5 => "Input/output error"
  | 6 => "No such device or address"
  | 7 => "Argument list too long"
  | _ => "Permission denied"

/-- `mkdir` failing on both replicas: the log is right, there being nothing to log. -/
theorem logsWell_iff_mkdir :
    ∃ o, handle (.mkdir fileF 0o755) (plainEnv fun _ _ => .error EACCES) rootDaemon = some o ∧
      o.LogsWell strerrorC := by
  obtain ⟨o, ho⟩ : ∃ o, handle (.mkdir fileF 0o755) (plainEnv fun _ _ => .error EACCES) rootDaemon
      = some o := ⟨_, rfl⟩
  refine ⟨o, ho, (logsWell_iff ?_ ho).mpr ?_⟩
  · intro e
    obtain ⟨v, hv⟩ := e
    rcases v with _ | _ | _ | _ | _ | _ | _ | _ | v
    · cases hv
    all_goals simp [errtab, strerrorC]
  · intro _ i hi
    obtain ⟨j, r, hr⟩ := Round.succeeded_iff.mp hi.1
    rw [Request.fates_of_not_searches rfl] at hr
    obtain ⟨c, -, hcall⟩ := Request.round_eq_ok_iff.mp hr
    cases hcall

end ChironFs
