import ChironFs.Model.Sample
import ChironFs.Spec.Outcomes

/-!
# Which replicas a request disables

Read off the trace: a replica's call failed, or succeeded, or was never made.

* `newlyDisabled_iff`: for every request and configuration, what is disabled in addition to the
  rule below is a replica that `open` or `create` could not build a name for.
* `disabling_rule`: when every enabled replica can be named, the newly disabled replicas are those
  whose own call failed while another's succeeded.
-/

namespace ChironFs

open Posix Replication

variable {n : ℕ}

section rule

variable {q : Request} {env : Env n} {d : Daemon n} {o : Outcome n}

/-- A replica failed by its own call, or in `open` and `create` for want of a name. -/
theorem Served.failed_iff {tried : List (Fin n)} (h : Served q env d tried o) (i : Fin n) :
    (q.roundOn env d tried i).isFailed = true ↔
      o.CallFailed i ∨
        (q.opens = true ∧ d.config.enabled i ∧ q.call env d.config i = none ∧ i ∈ tried) := by
  unfold Outcome.CallFailed Request.roundOn
  simp only [h.call_mem_iff, Fate.isFailed_iff]
  by_cases hi : i ∈ tried
  · simp only [hi, if_true, true_and, and_true, Request.round_eq_failed_iff]
    constructor
    · rintro ⟨e, ⟨c, hask, herr⟩ | ⟨hop, hen, hnone, -⟩⟩
      · exact Or.inl ⟨_, c, e, rfl, hask, herr.symm⟩
      · exact Or.inr ⟨hop, hen, hnone⟩
    · rintro (⟨_, c, e, -, hask, herr⟩ | ⟨hop, hen, hnone⟩)
      · exact ⟨e, Or.inl ⟨c, hask, herr.symm⟩⟩
      · exact ⟨ENOMEM, Or.inr ⟨hop, hen, hnone, rfl⟩⟩
  · simp [hi]

/-- **The disabling rule, whatever `xlate` does.** A request disables an enabled replica when
somebody's call succeeded and either its own call failed or, in `open` and `create`, it could not
be named. -/
theorem newlyDisabled_iff (ho : handle q env d = some o) (i : Fin n) :
    o.NewlyDisabled i d ↔
      d.config.enabled i ∧ (∃ j, o.CallOk j) ∧
        (o.CallFailed i ∨ (q.opens = true ∧ q.call env d.config i = none)) := by
  by_cases hsv : ∃ tried, Served q env d tried o
  · obtain ⟨tried, h⟩ := hsv
    have hmem : q.opens = true → i ∈ tried := fun hop =>
      h.mem_tried (Request.searches_of_opens hop) i
    rw [h.newlyDisabled_iff, Round.Drops, h.succeeded_iff, h.failed_iff]
    unfold Outcome.CallOk
    constructor
    · rintro ⟨hen, ⟨cr, j, c, r, hok⟩, hf⟩
      exact ⟨hen, ⟨j, cr, c, r, hok⟩, hf.imp_right fun hl => ⟨hl.1, hl.2.2.1⟩⟩
    · rintro ⟨hen, ⟨j, cr, c, r, hok⟩, hf⟩
      exact ⟨hen, ⟨cr, j, c, r, hok⟩, hf.imp_right fun hl => ⟨hl.1, hen, hl.2, hmem hl.1⟩⟩
  · obtain ⟨htried, hrep⟩ := handle_no_round ho hsv
    unfold Outcome.NewlyDisabled Config.enabled
    rw [hrep]
    constructor
    · exact fun h => absurd h.1 h.2
    · rintro ⟨-, ⟨j, hj⟩, -⟩
      exact absurd hj.tried (htried j)

/-- A replica gets one call in a request, with one result. -/
theorem not_callFailed_of_callOk (ho : handle q env d = some o) {i : Fin n} (hok : o.CallOk i) :
    ¬ o.CallFailed i := by
  rintro ⟨cr', c', e, hmem'⟩
  by_cases hsv : ∃ tried, Served q env d tried o
  · obtain ⟨tried, h⟩ := hsv
    obtain ⟨cr, c, r, hmem⟩ := hok
    obtain ⟨-, -, hask, hr⟩ := h.call_mem_iff.mp hmem
    obtain ⟨-, -, hask', he⟩ := h.call_mem_iff.mp hmem'
    obtain rfl : c = c' := Option.some.inj (hask.symm.trans hask')
    cases hr.trans he.symm
  · exact absurd hok.tried ((handle_no_round ho hsv).1 i)

/-- A call was made, so there was one to make. -/
theorem call_ne_none_of_tried (ho : handle q env d = some o) {i : Fin n} (ht : o.Tried i) :
    q.call env d.config i ≠ none := by
  by_cases hsv : ∃ tried, Served q env d tried o
  · obtain ⟨tried, h⟩ := hsv
    obtain ⟨cr, c, res, hmem⟩ := ht
    obtain ⟨-, -, hask, -⟩ := h.call_mem_iff.mp hmem
    rw [(Request.ask_eq_some_iff.mp hask).2]
    exact Option.some_ne_none _
  · exact absurd ht ((handle_no_round ho hsv).1 i)

/-- In `open` and `create`, when the memory is there, only a replica without a path has no call. -/
theorem call_eq_none_iff (hmalloc : ∀ i k, env.malloc i k = true) (hop : q.opens = true)
    (i : Fin n) : q.call env d.config i = none ↔ (d.config.replicas i).path = none := by
  cases q with
  | «open» path | create path =>
      simp only [Request.call, openCall, Option.map_eq_none_iff, Env.xlate, hmalloc]
      cases (d.config.replicas i).path <;> simp [xlate]
  | _ => cases hop

/-- **The disabling rule.** When `xlate` gets its memory, a request disables exactly the enabled
replicas whose own call failed, and in `open` and `create` those that have no path, if some
replica's call succeeded: none whose call succeeded, none with a path that was not tried, nobody
when everything failed; and it leaves an enabled replica where there was one. -/
theorem disabling_rule (hmalloc : ∀ i k, env.malloc i k = true) (ho : handle q env d = some o) :
    (∀ i, o.NewlyDisabled i d ↔ d.config.enabled i ∧
        (o.CallFailed i ∨ (q.opens = true ∧ (d.config.replicas i).path = none)) ∧
        ∃ j, o.CallOk j) ∧
      (∀ i, o.CallOk i → ¬ o.NewlyDisabled i d) ∧
      (∀ i, (d.config.replicas i).path ≠ none → ¬ o.Tried i → ¬ o.NewlyDisabled i d) ∧
      ((∀ j, ¬ o.CallOk j) → ∀ i, ¬ o.NewlyDisabled i d) ∧
      ((∃ i, d.config.enabled i) → ∃ i, o.daemon.config.enabled i) := by
  have hrule : ∀ i, o.NewlyDisabled i d ↔ d.config.enabled i ∧
      (o.CallFailed i ∨ (q.opens = true ∧ (d.config.replicas i).path = none)) ∧
      ∃ j, o.CallOk j := by
    intro i
    have hnone : (q.opens = true ∧ q.call env d.config i = none) ↔
        (q.opens = true ∧ (d.config.replicas i).path = none) :=
      and_congr_right fun hop => call_eq_none_iff hmalloc hop i
    rw [newlyDisabled_iff ho, hnone, and_comm (a := ∃ j, o.CallOk j)]
  refine ⟨hrule, ?_, ?_, ?_,
    exists_enabled ho⟩
  · intro i hok hnew
    obtain ⟨-, -, hf | ⟨-, hnone⟩⟩ := (newlyDisabled_iff ho i).mp hnew
    · exact not_callFailed_of_callOk ho hok hf
    · exact call_ne_none_of_tried ho hok.tried hnone
  · intro i hpath htried hnew
    obtain ⟨-, hf | ⟨-, hnone⟩, -⟩ := (hrule i).mp hnew
    · exact htried hf.tried
    · exact hpath hnone
  · intro hno i hnew
    obtain ⟨j, hj⟩ := ((hrule i).mp hnew).2.2
    exact hno j hj

end rule

/-- `mkdir` on the small daemon, failing on the second replica. -/
theorem disabling_rule_mkdir :
    ∃ o, handle (.mkdir fileF 0o755) (secondFails {} EACCES) rootDaemon = some o ∧
      ∀ i, o.NewlyDisabled i rootDaemon ↔ rootDaemon.config.enabled i ∧
        (o.CallFailed i ∨ ((Request.mkdir fileF 0o755).opens = true ∧
          (rootDaemon.config.replicas i).path = none)) ∧ ∃ j, o.CallOk j :=
  ⟨_, rfl, (disabling_rule (fun _ _ => rfl) rfl).1⟩

/-- The replica list `/a=/b=`: its last component is empty. -/
def listABEmpty : Path := [47, 97, 61, 47, 98, 61]

/-- `/a=/b=` makes three replicas, the third without a path: `open` disables it although it made no
call on it. -/
theorem open_disables_untried :
    ∃ c : Config 3, doMount plainMount 0 0 listABEmpty (fun _ => none) = some c ∧
      ∃ o, handle (.open fileF 0) (plainEnv fun _ _ => .ok { ret := 5 })
          { config := c, creds := .ofUser 0 0 } = some o ∧
        (∃ j, o.CallOk j) ∧ ¬ o.Tried 2 ∧
        o.NewlyDisabled 2 { config := c, creds := .ofUser 0 0 } := by
  refine ⟨_, rfl, _, rfl, ?_⟩
  have ho : handle (n := 3) (.open fileF 0) (plainEnv fun _ _ => .ok { ret := 5 })
      { config := (doMount plainMount 0 0 listABEmpty fun _ => none).get rfl
        creds := .ofUser 0 0 } = some _ := rfl
  obtain ⟨tried, h⟩ := handle_served rfl rfl ho
  refine ⟨⟨0, _, _, _, h.call_mem_iff.mpr ⟨h.mem_tried rfl 0, rfl, rfl, rfl⟩⟩,
    h.not_tried_of_ask rfl, rfl, ?_⟩
  intro hen
  cases (show true = false from hen)

end ChironFs
