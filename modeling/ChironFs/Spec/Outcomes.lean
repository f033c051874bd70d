import ChironFs.Spec.Served

/-!
# What a request did, read off its outcome

* `Served.call_mem_iff`, `Served.close_mem`, `Served.log_mem`: the calls, the closes and the log
  lines of a request.
* `Outcome.CallOk`, `Outcome.CallFailed`, `Outcome.Tried`, `Outcome.NewlyDisabled`: what became of
  one replica.
* `exists_enabled`, `enabled_of_enabled`, `handle_sameLayout`: what no request does.
-/

namespace ChironFs

open Posix Replication

variable {n : ℕ}

/-! ## The calls and the log lines of a request -/

/-- A call of `setegid` or `seteuid`. -/
def Event.isCred : Event n → Bool
  | .setegid .. | .seteuid .. => true
  | _ => false

/-- An event that is neither a call on a replica nor a `close`. -/
def Event.isSilent : Event n → Bool
  | .call .. | .close .. => false
  | _ => true

/-- A credential call is about no store. -/
theorem Event.isSilent_of_isCred {ev : Event n} (h : ev.isCred = true) : ev.isSilent = true := by
  cases ev <;> first | rfl | cases h

/-- `drop_priv` makes credential calls. -/
theorem isCred_of_mem_dropPriv {env : Env n} {cr : Creds} {ev : Event n}
    (h : ev ∈ (dropPriv env cr).trace) : ev.isCred = true := by
  unfold dropPriv at h
  split at h
  · simp_all [Event.isCred]
  · split at h <;> simp only [List.mem_cons, List.not_mem_nil, or_false] at h <;>
      rcases h with rfl | rfl <;> rfl

/-- So does `reacquire_priv`. -/
theorem isCred_of_mem_reacquirePriv {env : Env n} {c : Config n} {cr : Creds} {ev : Event n}
    (h : ev ∈ (reacquirePriv env c cr).trace) : ev.isCred = true := by
  unfold reacquirePriv at h
  split at h
  · simp_all [Event.isCred]
  · split at h <;> simp only [List.mem_cons, List.not_mem_nil, or_false] at h <;>
      rcases h with rfl | rfl <;> rfl

/-- The log lines of a round: two for each replica it drops. -/
theorem mem_dropLogs_iff {operation : String} {c : Config n} {R : Round (Fin n) Reply Errno}
    {ev : Event n} :
    ev ∈ dropLogs operation c R ↔
      R.Succeeded ∧ ∃ i e, R i = .failed e ∧
        (ev = .log (some i) operation (.path (c.replicas i).path) e.neg ∨
          ev = .log (some i) "disabling replica" (.path (c.replicas i).path) 0) := by
  unfold dropLogs
  by_cases hs : R.Succeeded
  · rw [if_pos hs, List.mem_flatMap]
    simp only [List.mem_finRange, true_and, hs]
    apply exists_congr
    intro i
    cases hR : R i with
    | failed e => simp [dropLog]
    | _ => simp [dropLog]
  · simp [hs]

/-- Log lines are about no store. -/
theorem isSilent_of_mem_dropLogs {operation : String} {c : Config n}
    {R : Round (Fin n) Reply Errno} {ev : Event n} (h : ev ∈ dropLogs operation c R) :
    ev.isSilent = true := by
  obtain ⟨-, _, _, -, rfl | rfl⟩ := mem_dropLogs_iff.mp h
  · rfl
  · rfl

/-- An early exit makes only credential calls. -/
theorem isCred_of_mem_earlyOutcome {env : Env n} {d : Daemon n} {e : Errno} {ev : Event n}
    (h : ev ∈ (earlyOutcome env d e).trace) : ev.isCred = true := by
  rcases List.mem_append.mp h with h | h
  · exact isCred_of_mem_dropPriv h
  · exact isCred_of_mem_reacquirePriv h

/-- Besides its credential calls `release` makes only its `close` calls. -/
theorem mem_releaseOutcome {env : Env n} {d : Daemon n} {fh : ℕ} {fd : Fin n → ℤ} {ev : Event n}
    (hev : ev.isCred = false) (h : ev ∈ (releaseOutcome env d fh fd).trace) :
    ∃ i, d.config.closes fd i = true ∧
      ev = .close (dropPriv env d.creds).creds i (fd i) (env.close i (fd i)) := by
  rcases List.mem_append.mp h with h | h
  · rcases List.mem_append.mp h with h | h
    · rw [isCred_of_mem_dropPriv h] at hev
      cases hev
    · obtain ⟨i, hi, rfl⟩ := List.mem_map.mp h
      exact ⟨i, (List.mem_filter.mp hi).2, rfl⟩
  · rw [isCred_of_mem_reacquirePriv h] at hev
    cases hev

namespace Served

variable {q : Request} {env : Env n} {d : Daemon n} {tried : List (Fin n)} {o : Outcome n}

/-- A request that does not search goes over all replicas. -/
theorem mem_tried (h : Served q env d tried o) (hse : q.searches = false) (i : Fin n) :
    i ∈ tried := by
  rw [h.all hse]
  exact List.mem_finRange i

/-- The events of a request that are not credential calls. -/
theorem mem_trace (h : Served q env d tried o) {ev : Event n} (hev : ev.isCred = false)
    (hmem : ev ∈ o.trace) :
    (∃ i ∈ tried, ev ∈ q.events env d i) ∨
      ev ∈ dropLogs q.operation d.config (q.roundOn env d tried) ∨
      (q.opens = true ∧ (ev = .log none "hash allocation" (.text "too many opened files") 0 ∨
        ∃ i r, q.round env d i = .ok r ∧
          ev = .close (dropPriv env d.creds).creds i r.ret (env.close i r.ret))) := by
  obtain ⟨tail, htr, hnil, htail⟩ := h.trace
  have hnot : ∀ {l : List (Event n)}, (∀ x ∈ l, x.isCred = true) → ev ∉ l := fun hl hin => by
    rw [hl ev hin] at hev
    cases hev
  rw [htr, List.mem_append, List.mem_append, List.mem_append, List.mem_append,
    List.mem_flatMap] at hmem
  rcases hmem with (hd | (hcalls | hlogs) | ht) | hb
  · exact absurd hd (hnot fun _ => isCred_of_mem_dropPriv)
  · exact Or.inl hcalls
  · exact Or.inr (Or.inl hlogs)
  · refine Or.inr (Or.inr ⟨?_, htail ev ht⟩)
    cases hop : q.opens with
    | true => rfl
    | false => rw [hnil hop] at ht; cases ht
  · exact absurd hb (hnot fun _ => isCred_of_mem_reacquirePriv)

/-- The events of every replica it went over are in the trace. -/
theorem events_subset (h : Served q env d tried o) {i : Fin n} (hi : i ∈ tried) :
    q.events env d i ⊆ o.trace := by
  obtain ⟨tail, htr, -, -⟩ := h.trace
  intro ev hev
  rw [htr]
  exact List.mem_append_left _ (List.mem_append_right _
    (List.mem_append_left _ (List.mem_append_left _ (List.mem_flatMap.mpr ⟨i, hi, hev⟩))))

/-- So are the log lines. -/
theorem dropLogs_subset (h : Served q env d tried o) :
    dropLogs q.operation d.config (q.roundOn env d tried) ⊆ o.trace := by
  obtain ⟨tail, htr, -, -⟩ := h.trace
  intro ev hev
  rw [htr]
  exact List.mem_append_left _ (List.mem_append_right _
    (List.mem_append_left _ (List.mem_append_right _ hev)))

/-- **The calls of a request**: one for each replica it went over, where it has one to make, under
the credentials `drop_priv` left. -/
theorem call_mem_iff (h : Served q env d tried o) {cr : Creds} {i : Fin n} {c : Call}
    {res : Except Errno Reply} :
    .call cr i c res ∈ o.trace ↔
      i ∈ tried ∧ cr = (dropPriv env d.creds).creds ∧ q.ask env d.config i = some c ∧
        res = env.call (dropPriv env d.creds).creds i c := by
  constructor
  · intro hmem
    rcases h.mem_trace rfl hmem with ⟨j, hj, hev⟩ | hlog | ⟨-, heq | ⟨_, _, -, heq⟩⟩
    · obtain ⟨rfl, hcr, hask, hres⟩ := Request.call_mem_events_iff.mp hev
      exact ⟨hj, hcr, hask, hres⟩
    · obtain ⟨-, _, _, -, heq | heq⟩ := mem_dropLogs_iff.mp hlog <;> cases heq
    · cases heq
    · cases heq
  · rintro ⟨hi, hcr, hask, hres⟩
    exact h.events_subset hi (Request.call_mem_events_iff.mpr ⟨rfl, hcr, hask, hres⟩)

/-- Only descriptors that the request itself opened are closed. -/
theorem close_mem (h : Served q env d tried o) {cr : Creds} {i : Fin n} {fd : ℤ}
    {res : Except Errno Unit} (hmem : .close cr i fd res ∈ o.trace) :
    cr = (dropPriv env d.creds).creds ∧ ∃ r, q.roundOn env d tried i = .ok r ∧ fd = r.ret := by
  rcases h.mem_trace rfl hmem with ⟨j, hj, hev⟩ | hlog | ⟨hop, heq | ⟨_, r, hr, heq⟩⟩
  · obtain ⟨rfl, hcr, hr⟩ := Request.close_mem_events hev
    rw [Request.roundOn, if_pos hj]
    exact ⟨hcr, hr⟩
  · obtain ⟨-, _, _, -, heq | heq⟩ := mem_dropLogs_iff.mp hlog <;> cases heq
  · cases heq
  · cases heq
    rw [h.all (Request.searches_of_opens hop), Request.roundOn_finRange]
    exact ⟨rfl, r, hr, rfl⟩

/-- The log lines of a request: about a replica the round drops, or the one for a full table. -/
theorem log_mem (h : Served q env d tried o) {who : Option (Fin n)} {fnname : String}
    {resource : Resource} {err : ℤ} (hmem : .log who fnname resource err ∈ o.trace) :
    (who = none ∧ resource = .text "too many opened files" ∧ err = 0) ∨
      ((q.roundOn env d tried).Succeeded ∧ ∃ i e, q.roundOn env d tried i = .failed e ∧
        who = some i ∧ resource = .path (d.config.replicas i).path ∧
        (fnname = q.operation ∧ err = e.neg ∨ fnname = "disabling replica" ∧ err = 0)) := by
  rcases h.mem_trace rfl hmem with ⟨i, -, hev⟩ | hlog | ⟨-, heq | ⟨_, _, -, heq⟩⟩
  · exact absurd hev (Request.log_not_mem_events env d q i _ _ _ _)
  · obtain ⟨hs, i, e, hR, heq | heq⟩ := mem_dropLogs_iff.mp hlog
    · cases heq
      exact Or.inr ⟨hs, i, e, hR, rfl, rfl, Or.inl ⟨rfl, rfl⟩⟩
    · cases heq
      exact Or.inr ⟨hs, i, e, hR, rfl, rfl, Or.inr ⟨rfl, rfl⟩⟩
  · cases heq
    exact Or.inl ⟨rfl, rfl, rfl⟩
  · cases heq

/-! ### Fates and calls -/

/-- A replica answered when its call is in the trace with a success. -/
theorem roundOn_eq_ok_iff (h : Served q env d tried o) {i : Fin n} {r : Reply} :
    q.roundOn env d tried i = .ok r ↔ ∃ cr c, .call cr i c (.ok r) ∈ o.trace := by
  simp only [h.call_mem_iff, Request.roundOn]
  by_cases hi : i ∈ tried
  · simp only [hi, if_true, true_and, Request.round_eq_ok_iff]
    constructor
    · rintro ⟨c, hask, hok⟩
      exact ⟨_, c, rfl, hask, hok.symm⟩
    · rintro ⟨_, c, -, hask, hok⟩
      exact ⟨c, hask, hok.symm⟩
  · simp [hi]

/-- Somebody answered when a call of the trace succeeded. -/
theorem succeeded_iff (h : Served q env d tried o) :
    (q.roundOn env d tried).Succeeded ↔ ∃ cr i c r, .call cr i c (.ok r) ∈ o.trace := by
  rw [Round.succeeded_iff]
  constructor
  · rintro ⟨i, r, hr⟩
    obtain ⟨cr, c, hmem⟩ := h.roundOn_eq_ok_iff.mp hr
    exact ⟨cr, i, c, r, hmem⟩
  · rintro ⟨cr, i, c, r, hmem⟩
    exact ⟨i, r, h.roundOn_eq_ok_iff.mpr ⟨cr, c, hmem⟩⟩

end Served

/-! ## Every request: its calls and the replicas it disables -/

namespace Outcome

variable (o : Outcome n) (i : Fin n)

/-- The request made a call on replica `i` that succeeded. -/
def CallOk : Prop := ∃ cr c r, Event.call cr i c (.ok r) ∈ o.trace

/-- The request made a call on replica `i` that failed. -/
def CallFailed : Prop := ∃ cr c e, Event.call cr i c (.error e) ∈ o.trace

/-- The request made a call on replica `i`. -/
def Tried : Prop := ∃ cr c res, Event.call cr i c res ∈ o.trace

/-- Replica `i` was enabled before the request and is not any more. -/
def NewlyDisabled (d : Daemon n) : Prop := d.config.enabled i ∧ ¬ o.daemon.config.enabled i

end Outcome

/-- A call on a replica that succeeded. -/
def Event.isOk : Event n → Bool
  | .call _ _ _ (.ok _) => true
  | _ => false

section outcome

variable {q : Request} {env : Env n} {d : Daemon n} {o : Outcome n}

/-- A call that succeeded, found by evaluation. -/
theorem exists_callOk_of_any (h : o.trace.any Event.isOk = true) : ∃ i, o.CallOk i := by
  obtain ⟨ev, hmem, hev⟩ := List.any_eq_true.mp h
  cases ev with
  | call cr i c res =>
      cases res with
      | ok r => exact ⟨i, cr, c, r, hmem⟩
      | error e => cases hev
  | _ => cases hev

/-- A served request disables the replicas its round drops. -/
theorem Served.newlyDisabled_iff {tried : List (Fin n)} (h : Served q env d tried o) (i : Fin n) :
    o.NewlyDisabled i d ↔ d.config.enabled i ∧ (q.roundOn env d tried).Drops i := by
  unfold Outcome.NewlyDisabled
  rw [Config.not_enabled_iff, h.disabled_iff, ← Config.not_enabled_iff]
  tauto

/-- Without a round there is no call and nothing changes. -/
theorem handle_no_round (ho : handle q env d = some o)
    (h : ¬ ∃ tried, Served q env d tried o) :
    (∀ i, ¬ o.Tried i) ∧ o.daemon.config.replicas = d.config.replicas := by
  rcases handle_cases ho with ⟨e, -, rfl⟩ | ⟨fh, fd, -, -, rfl⟩ | ⟨-, -, hsv⟩
  · refine ⟨?_, rfl⟩
    rintro i ⟨cr, c, res, hmem⟩
    cases isCred_of_mem_earlyOutcome hmem
  · refine ⟨?_, rfl⟩
    rintro i ⟨cr, c, res, hmem⟩
    obtain ⟨_, -, heq⟩ := mem_releaseOutcome rfl hmem
    cases heq
  · exact absurd hsv h

/-- Who answered was tried. -/
theorem Outcome.CallOk.tried {i : Fin n} : o.CallOk i → o.Tried i :=
  fun ⟨cr, c, _, hmem⟩ => ⟨cr, c, _, hmem⟩

/-- Who failed was tried. -/
theorem Outcome.CallFailed.tried {i : Fin n} : o.CallFailed i → o.Tried i :=
  fun ⟨cr, c, _, hmem⟩ => ⟨cr, c, _, hmem⟩

/-- A replica on which a request has no call to make is not tried. -/
theorem Served.not_tried_of_ask {tried : List (Fin n)} (h : Served q env d tried o) {i : Fin n}
    (hask : q.ask env d.config i = none) : ¬ o.Tried i := by
  rintro ⟨cr, c, res, hmem⟩
  obtain ⟨-, -, hsome, -⟩ := h.call_mem_iff.mp hmem
  rw [hask] at hsome
  cases hsome

/-- **An enabled replica is left**: a request that starts with one ends with one. -/
theorem exists_enabled (ho : handle q env d = some o) (h : ∃ i, d.config.enabled i) :
    ∃ i, o.daemon.config.enabled i := by
  by_cases hsv : ∃ tried, Served q env d tried o
  · obtain ⟨tried, hsv⟩ := hsv
    have hlive : ∀ i, (q.roundOn env d tried i).isOk = true → i ∈ {i | d.config.enabled i} := by
      intro i hi
      obtain ⟨r, hr⟩ := Fate.isOk_iff.mp hi
      obtain ⟨cr, c, hmem⟩ := hsv.roundOn_eq_ok_iff.mp hr
      exact (Request.ask_eq_some_iff.mp (hsv.call_mem_iff.mp hmem).2.2.1).1
    obtain ⟨i, hen, hdrop⟩ := Round.survivors_nonempty hlive h
    refine ⟨i, ?_⟩
    by_contra hdis
    exact hdrop ((hsv.newlyDisabled_iff i).mp ⟨hen, hdis⟩).2
  · unfold Config.enabled
    rwa [(handle_no_round ho hsv).2]

/-- No request enables a replica. -/
theorem enabled_of_enabled (ho : handle q env d = some o) {i : Fin n}
    (h : o.daemon.config.enabled i) : d.config.enabled i := by
  by_cases hsv : ∃ tried, Served q env d tried o
  · obtain ⟨tried, hsv⟩ := hsv
    by_contra hdis
    exact Config.not_enabled_iff.mpr
      ((hsv.disabled_iff i).mpr (Or.inl (Config.not_enabled_iff.mp hdis))) h
  · unfold Config.enabled at h ⊢
    rwa [(handle_no_round ho hsv).2] at h

/-- A request that is no `release` and opens nothing leaves the handle table as it is. -/
theorem handle_tabFd_eq (hrel : q.releases = false) (hop : q.opens = false)
    (ho : handle q env d = some o) : o.daemon.config.tabFd = d.config.tabFd := by
  rcases handle_cases ho with ⟨e, -, rfl⟩ | ⟨_, _, rfl, -⟩ | ⟨-, -, tried, hsv⟩
  · rfl
  · cases hrel
  · exact hsv.tabFd hop

/-- No request changes the layout. -/
theorem handle_sameLayout (ho : handle q env d = some o) :
    d.config.SameLayout o.daemon.config := by
  rcases handle_cases ho with ⟨e, -, rfl⟩ | ⟨fh, fd, -, -, rfl⟩ | ⟨-, -, tried, h⟩
  · exact .refl _
  · exact .setSlot _ _ _
  · exact h.layout

end outcome

end ChironFs
