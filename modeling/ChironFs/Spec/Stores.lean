import ChironFs.Model.Stores
import ChironFs.Spec.Outcomes

/-!
# What a request does to the stores

* `storeAfter_flatMap`: a trace made of the events of one replica after another.
* `Served.storeAfter_eq`: a request that is neither `open` nor `create` does to the store of a
  replica what its events there do.
-/

namespace ChironFs

open Posix Replication

variable {n : ℕ} {S : Type*} {E : ChironFs.Effect S} {i : Fin n}

theorem storeAfter_append (l₁ l₂ : List (Event n)) (s : S) :
    storeAfter E i (l₁ ++ l₂) s = storeAfter E i l₂ (storeAfter E i l₁ s) := by
  unfold storeAfter
  rw [List.filter_append, List.foldl_append]

/-- Events about other replicas, or about none. -/
theorem storeAfter_of_ne {l : List (Event n)} (h : ∀ ev ∈ l, ev.replica ≠ some i) (s : S) :
    storeAfter E i l s = s := by
  unfold storeAfter
  rw [List.filter_eq_nil_iff.mpr fun ev hev => by simpa using h ev hev]
  rfl

/-- Events that leave a store alone. -/
theorem storeAfter_eq_self {l : List (Event n)} {s : S}
    (h : ∀ ev ∈ l, ev.replica = some i → ev.onStore E s = s) : storeAfter E i l s = s := by
  unfold storeAfter
  induction l with
  | nil => rfl
  | cons ev l ih =>
      have hl := ih fun x hx => h x (List.mem_cons_of_mem ev hx)
      rw [List.filter_cons]
      split_ifs with hrep
      · rw [List.foldl_cons, h ev List.mem_cons_self (by simpa using hrep), hl]
      · exact hl

/-- Events that do the same to every store. -/
theorem storeAfter_congr {E' : Effect S} {l : List (Event n)}
    (h : ∀ ev ∈ l, ∀ u, ev.onStore E u = ev.onStore E' u) (s : S) :
    storeAfter E i l s = storeAfter E' i l s := by
  unfold storeAfter
  induction l generalizing s with
  | nil => rfl
  | cons ev l ih =>
      have hl := ih fun x hx => h x (List.mem_cons_of_mem ev hx)
      rw [List.filter_cons]
      split_ifs
      · rw [List.foldl_cons, List.foldl_cons, h ev List.mem_cons_self, hl]
      · exact hl s

/-- The events of replicas on which they change nothing. -/
theorem storeAfter_flatMap_eq_self {events : Fin n → List (Event n)} {l : List (Fin n)} {s : S}
    (h : ∀ j ∈ l, storeAfter E i (events j) s = s) : storeAfter E i (l.flatMap events) s = s := by
  induction l with
  | nil => rfl
  | cons j l ih =>
      rw [List.flatMap_cons, storeAfter_append, h j List.mem_cons_self,
        ih fun x hx => h x (List.mem_cons_of_mem j hx)]

/-- The events of one replica after another. -/
theorem storeAfter_flatMap {events : Fin n → List (Event n)}
    (hrep : ∀ j, ∀ ev ∈ events j, ev.replica = some j) {l : List (Fin n)} (hl : l.Nodup) (s : S) :
    storeAfter E i (l.flatMap events) s = if i ∈ l then storeAfter E i (events i) s else s := by
  have hother : ∀ {j}, j ≠ i → ∀ s, storeAfter E i (events j) s = s := fun hne s =>
    storeAfter_of_ne (fun ev hev heq => hne (Option.some.inj ((hrep _ ev hev).symm.trans heq))) s
  induction l generalizing s with
  | nil => rfl
  | cons j l ih =>
      obtain ⟨hj, hl⟩ := List.nodup_cons.mp hl
      rw [List.flatMap_cons, storeAfter_append, ih hl]
      by_cases hji : j = i
      · subst hji
        rw [if_neg hj, if_pos List.mem_cons_self]
      · rw [hother hji]
        exact if_congr (by simp [Ne.symm hji]) rfl rfl

theorem Event.replica_of_isSilent {ev : Event n} (h : ev.isSilent = true) : ev.replica = none := by
  cases ev <;> first | rfl | cases h

section served

variable {q : Request} {env : Env n} {d : Daemon n} {o : Outcome n} {tried : List (Fin n)}

/-- The events of asking a replica are about that replica. -/
theorem Request.replica_of_mem_events {ev : Event n} (h : ev ∈ q.events env d i) :
    ev.replica = some i := by
  rcases Request.events_cases env d q i with ⟨-, heq⟩ | ⟨_, _, -, -, heq⟩ |
    ⟨_, _, -, -, ⟨-, heq⟩ | ⟨-, -, -, heq⟩⟩
  all_goals rw [heq] at h
  · cases h
  · rw [List.mem_singleton.mp h]
    rfl
  · rw [List.mem_singleton.mp h]
    rfl
  · rcases List.mem_pair.mp h with rfl | rfl
    · rfl
    · rfl

/-- Without an event about a replica its store stays as it is. -/
theorem storeAfter_of_silent {l : List (Event n)} (h : ∀ ev ∈ l, ev.isSilent = true) (s : S) :
    storeAfter E i l s = s :=
  storeAfter_of_ne (fun ev hev heq => by rw [Event.replica_of_isSilent (h ev hev)] at heq; cases heq) s

/-- Asking another replica. -/
theorem Request.storeAfter_events_of_ne {j : Fin n} (h : j ≠ i) (s : S) :
    storeAfter E i (q.events env d j) s = s :=
  storeAfter_of_ne (fun _ hev heq =>
    h (Option.some.inj ((Request.replica_of_mem_events hev).symm.trans heq))) s

/-- The stores after a search: asking a replica that did not answer changed nothing. -/
theorem EndsWith.storeAfter_eq {ans : Option (Fin n × Reply)}
    (hend : EndsWith (q.round env d) tried ans) {s : S}
    (hfail : (q.round env d i).isOk = false → storeAfter E i (q.events env d i) s = s) :
    storeAfter E i (tried.flatMap (q.events env d)) s =
      if i ∈ tried then storeAfter E i (q.events env d i) s else s := by
  have hno : ∀ l : List (Fin n), (∀ j ∈ l, (q.round env d j).isOk = false) →
      ∀ j ∈ l, storeAfter E i (q.events env d j) s = s := by
    intro l hl j hj
    by_cases hji : j = i
    · subst hji
      exact hfail (hl j hj)
    · exact Request.storeAfter_events_of_ne hji s
  cases ans with
  | none =>
      rw [storeAfter_flatMap_eq_self (hno tried hend)]
      split_ifs with hi
      · rw [hno tried hend i hi]
      · rfl
  | some ar =>
      obtain ⟨-, l₀, rfl, hl₀⟩ := hend
      rw [List.flatMap_append, storeAfter_append, storeAfter_flatMap_eq_self (hno l₀ hl₀),
        List.flatMap_singleton]
      by_cases hai : ar.1 = i
      · rw [hai, if_pos (by simp)]
      · rw [Request.storeAfter_events_of_ne hai]
        split_ifs with hi
        · rw [List.mem_append, List.mem_singleton, or_iff_left (Ne.symm hai)] at hi
          rw [hno l₀ hl₀ i hi]
        · rfl

/-- **What a request does to the store of a replica**, past its early exits. A search may ask a
replica again that did not answer: this must not have changed its store. -/
theorem Served.storeAfter_eq (h : Served q env d tried o) (hop : q.opens = false) {s : S}
    (hfail : q.searches = true → (q.round env d i).isOk = false →
      storeAfter E i (q.events env d i) s = s) :
    storeAfter E i o.trace s =
      if i ∈ tried then storeAfter E i (q.events env d i) s else s := by
  have hcalls : storeAfter E i (tried.flatMap (q.events env d)) s =
      if i ∈ tried then storeAfter E i (q.events env d i) s else s := by
    cases hse : q.searches with
    | false =>
        apply storeAfter_flatMap fun _ _ => Request.replica_of_mem_events
        rw [h.all hse]
        exact List.nodup_finRange n
    | true =>
        obtain ⟨_, _, _, ans, -, -, -, hend, -⟩ := h.search hse
        exact hend.storeAfter_eq (hfail hse)
  obtain ⟨tail, htr, hnil, -⟩ := h.trace
  rw [htr, hnil hop]
  simp only [storeAfter_append]
  rw [storeAfter_of_silent fun _ h => Event.isSilent_of_isCred (isCred_of_mem_reacquirePriv h),
    storeAfter_of_silent (l := []) (fun _ h => absurd h List.not_mem_nil),
    storeAfter_of_silent fun _ h => isSilent_of_mem_dropLogs h,
    storeAfter_of_silent fun _ h => Event.isSilent_of_isCred (isCred_of_mem_dropPriv h), hcalls]

/-- A call leaves what its effect says. -/
theorem storeAfter_attemptEvents (cr : Creds) (a : Option Call) (s : S) :
    storeAfter E i (attemptEvents env cr i a) s =
      a.elim s fun c => E.call cr c (env.call cr i c) s := by
  cases a with
  | none => rfl
  | some c => simp [storeAfter, attemptEvents, Event.replica, Event.onStore]

/-- **What `open` and `create` do to the store of a replica**: what their call does, and the `close`
that follows it when there is no slot. -/
theorem storeAfter_openOutcome (hop : q.opens = true) (s : S) :
    storeAfter E i (q.openOutcome env d).trace s =
      storeAfter E i (if (q.round env d).Succeeded ∧ (q.store env d).1 < 0 then q.closed env d else [])
        (storeAfter E i (q.events env d i) s) := by
  have hcred : ∀ c cr s, storeAfter E i (reacquirePriv env c cr).trace s = s := fun c cr =>
    storeAfter_of_silent fun _ h => Event.isSilent_of_isCred (isCred_of_mem_reacquirePriv h)
  have hcalls : ∀ s, storeAfter E i ((dropPriv env d.creds).trace ++
      (List.finRange n).flatMap (fun i =>
        attemptEvents env (dropPriv env d.creds).creds i (q.ask env d.config i)) ++
      dropLogs q.operation d.config (q.round env d)) s = storeAfter E i (q.events env d i) s := by
    intro s
    have hev : (fun i => attemptEvents env (dropPriv env d.creds).creds i (q.ask env d.config i)) =
        q.events env d := funext fun i => (Request.events_of_opens hop).symm
    rw [hev, storeAfter_append, storeAfter_append,
      storeAfter_of_silent fun _ h => isSilent_of_mem_dropLogs h,
      storeAfter_flatMap (fun _ _ => Request.replica_of_mem_events) (List.nodup_finRange n),
      if_pos (List.mem_finRange i),
      storeAfter_of_silent fun _ h => Event.isSilent_of_isCred (isCred_of_mem_dropPriv h)]
  have hlogs : ∀ s, storeAfter E i (q.store env d).2.2 s = s :=
    storeAfter_of_silent fun ev h => by rw [Config.fdHashset_logs _ _ h]; rfl
  unfold Request.openOutcome
  simp only
  by_cases hs : (q.round env d).Succeeded
  · by_cases hfull : (q.store env d).1 < 0
    · rw [if_pos hs, if_pos hfull, if_pos ⟨hs, hfull⟩, leave]
      simp only
      rw [storeAfter_append, hcred, storeAfter_append, storeAfter_append, hlogs, hcalls]
    · rw [if_pos hs, if_neg hfull, if_neg fun h => hfull h.2, leave]
      simp only
      rw [storeAfter_append, hcred, storeAfter_append, hlogs, hcalls]
      rfl
  · rw [if_neg hs, if_neg fun h => hs h.1, leave]
    simp only
    rw [storeAfter_append, hcred, hcalls]
    rfl

/-- An early exit leaves the stores. -/
theorem storeAfter_earlyOutcome (e : Errno) (s : S) :
    storeAfter E i (earlyOutcome env d e).trace s = s :=
  storeAfter_of_silent (fun _ h => Event.isSilent_of_isCred (isCred_of_mem_earlyOutcome h)) s

end served

/-- What a request leaves, put together. -/
theorem Cluster.after_eq_of {s t : Cluster n S} {x : Setting n S} {o : Outcome n}
    (hd : o.daemon = t.daemon)
    (hst : ∀ i, storeAfter (x.backend i).toEffect i o.trace (s.store i) = t.store i) :
    s.after x o = t := by
  obtain ⟨d, st⟩ := t
  rw [Cluster.after, hd, funext hst]

end ChironFs
