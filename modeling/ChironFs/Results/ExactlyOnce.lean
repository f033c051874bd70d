import ChironFs.Results.Availability

/-!
# Once on every replica

* `Pool.answers`: how often a replica answered a request.
* `Pool.Settled`: what the replicas did for a request that returned.
* `Pool.Tallied`, `Pool.Once`: what they have done for a request at its stage.
* `exactly_once`: in every interleaving an enabled replica has answered every request that succeeded, no
  replica answered one that failed, and none answered a request twice.
-/

namespace ChironFs

open Posix Replication

variable {n : ℕ} {T : Type*}

/-- A call may be made at this stage. -/
def Stage.calls : Stage n → Bool
  | .loop (_ :: _) _ | .ask .. => true
  | _ => false

/-- There are no answers at the other stages. -/
theorem Request.okOn_of_advance {q : Request} {env : Env n} {cr : Creds} {c c' : Config n}
    {st st' : Stage n} {evs : List (Event n)} (h : q.advance env cr c st = some (c', st', evs))
    (hst : st.calls = false) : evs.filterMap Event.okOn = [] := by
  rw [List.filterMap_eq_nil_iff]
  intro ev hev
  cases htouch : st.touches with
  | false => exact Event.okOn_of_isSilent (silent_of_advance h htouch hev)
  | true =>
      cases st with
      | loop todo =>
          cases todo with
          | nil => cases htouch
          | cons => cases hst
      | ask => cases hst
      | unwind todo x =>
          cases todo with
          | nil => cases htouch
          | cons i todo =>
              cases h
              exact (closes_of_mem_closeOpened hev).okOn
      | close todo r =>
          cases todo with
          | nil => cases htouch
          | cons i todo =>
              obtain ⟨fd, -, h⟩ := Option.bind_eq_some_iff.mp h
              cases h
              exact (closes_of_mem_releaseLoop hev).okOn
      | _ => cases htouch

variable [DecidableEq T]

namespace Pool

/-- How often replica `i` answered request `t`. -/
def answers (s : Pool T n) (t : T) (i : Fin n) : ℕ :=
  s.trace.countP fun a => a.1 = t ∧ a.2.okOn = some i

variable (req : T → Request) (s : Pool T n) (t : T)

/-- Replica `i` did its part: one answer, and a descriptor where a file is opened. -/
def Part (x : Locals n) (i : Fin n) : Prop :=
  s.answers t i = 1 ∧ ((req t).opens = true → 0 ≤ x.fd i)

/-- The tally a request keeps is that of its answers. -/
structure Tallied (x : Locals n) : Prop where
  le_one : ∀ i, s.answers t i ≤ 1
  none : x.tally.succCnt = 0 → ∀ i, s.answers t i = 0
  supported : x.tally.succCnt ≠ 0 → (req t).supported = true
  failed : ∀ i, x.tally.errList i ≠ 0 → x.tally.failCnt ≠ 0
  err_le : ∀ i, x.tally.errList i ≤ 0
  wMax : (req t).searches = false → 0 ≤ x.wMax
  searched : (req t).searches = true → ∑ i, s.answers t i ≤ 1

/-- What the replicas did for a request that returned `r`. An `open` or `create` without a slot was
answered, but failed. -/
structure Settled (r : Response) : Prop where
  le_one : ∀ i, s.answers t i ≤ 1
  everywhere : (req t).searches = false → (req t).releases = false → 0 ≤ r.ret →
    ∀ i, s.config.enabled i → s.answers t i = 1
  nowhere : (req t).releases = false → r.ret < 0 →
    ((req t).opens = true ∧ r.ret = EMFILE.neg) ∨ ∀ i, s.answers t i = 0
  searched : (req t).searches = true → ∑ i, s.answers t i ≤ 1

/-- What the replicas have done for a request at its stage. -/
def Once : Prop :=
  match s.stage t with
  | .start => ∀ i, s.answers t i = 0
  | .loop todo x => (req t).searches = false ∧ s.Tallied req t x ∧ todo.Nodup ∧
      (∀ i ∈ todo, s.answers t i = 0) ∧
      ∀ i, s.config.enabled i → i ∈ todo ∨ x.tally.errList i ≠ 0 ∨ s.Part req t x i
  | .choose _ x | .ask _ _ x => (req t).searches = true ∧ s.Tallied req t x ∧ x.tally.succCnt = 0
  | .disable todo x => s.Tallied req t x ∧ x.tally.succCnt ≠ 0 ∧
      ((req t).searches = false → ∀ i, s.config.enabled i →
        (i ∈ todo ∧ x.tally.errList i ≠ 0) ∨ s.Part req t x i)
  | .finish x => s.Tallied req t x ∧
      ((req t).searches = false → ∀ i, s.config.enabled i →
        if x.tally.succCnt = 0 then x.tally.errList i ≠ 0 else s.Part req t x i)
  | .store _ x => (req t).opens = true ∧ (∀ i, s.answers t i ≤ 1) ∧
      ∀ i, s.config.enabled i → s.Part req t x i
  | .unwind .. => (req t).opens = true ∧ ∀ i, s.answers t i ≤ 1
  | .close .. => (req t).releases = true ∧ ∀ i, s.answers t i = 0
  | .done r _ => s.Settled req t r

/-- Nothing is missing on the enabled replicas, and nothing was done twice. -/
structure Complete : Prop where
  files : ∀ f ∈ s.live, ∀ i, s.config.enabled i → 0 ≤ f.fd i
  once : ∀ t, s.Once req t

/-- A step that is orderly, with memory for the names. -/
structure Named (a : T × Env n) : Prop where
  orderly : s.Orderly req a
  malloc : ∀ i k, a.2.malloc i k = true

variable {req s t} {s' : Pool T n} {u : T} {env : Env n} {x x' : Locals n} {i : Fin n}
  {evs : List (Event n)}

/-! ## Counting -/

theorem count_okOn (evs : List (Event n)) (i : Fin n) :
    (evs.filterMap Event.okOn).count i = evs.countP fun ev => ev.okOn = some i := by
  induction evs with
  | nil => rfl
  | cons ev evs ih =>
      cases h : ev.okOn with
      | none => rw [List.filterMap_cons_none h, ih, List.countP_cons_of_neg (by simp [h])]
      | some j =>
          rw [List.filterMap_cons_some h, List.count_cons, List.countP_cons, ih]
          simp [h]

theorem answers_append (h : s'.trace = s.trace ++ evs.map fun ev => (t, ev)) (u : T) (i : Fin n) :
    s'.answers u i = s.answers u i + if u = t then (evs.filterMap Event.okOn).count i else 0 := by
  unfold answers
  rw [h, List.countP_append, List.countP_map, count_okOn]
  congr 1
  split_ifs with hu
  · subst hu
    simp [Function.comp_def]
  · simp [Function.comp_def, Ne.symm hu]

/-- The answers after a round. -/
theorem answers_of_round {f : Fate Reply Errno}
    (h : s'.trace = s.trace ++ evs.map fun ev => (t, ev))
    (hok : evs.filterMap Event.okOn = if f.isOk then [i] else []) (j : Fin n) :
    s'.answers t j = s.answers t j + if f.isOk = true ∧ j = i then 1 else 0 := by
  rw [answers_append h, if_pos rfl, hok]
  by_cases hf : f.isOk = true
  · by_cases hj : j = i
    · simp [hf, hj]
    · simp [hf, hj, Ne.symm hj]
  · simp [hf]

/-! ## What a step does not touch -/

theorem Tallied.congr (h : s.Tallied req t x) (hans : ∀ i, s'.answers t i = s.answers t i) :
    s'.Tallied req t x where
  le_one := fun i => hans i ▸ h.le_one i
  none := fun hz i => hans i ▸ h.none hz i
  supported := h.supported
  failed := h.failed
  err_le := h.err_le
  wMax := h.wMax
  searched := fun hse => by simpa only [hans] using h.searched hse

theorem Settled.congr {r : Response} (h : s.Settled req t r)
    (hans : ∀ i, s'.answers t i = s.answers t i)
    (hen : ∀ i, s'.config.enabled i → s.config.enabled i) : s'.Settled req t r where
  le_one := fun i => hans i ▸ h.le_one i
  everywhere := fun hse hrel hret i hi => hans i ▸ h.everywhere hse hrel hret i (hen i hi)
  nowhere := fun hrel hret => by simpa only [hans] using h.nowhere hrel hret
  searched := fun hse => by simpa only [hans] using h.searched hse

/-- The other requests stay as they are. -/
theorem Once.congr (h : s.Once req u) (hstage : s'.stage u = s.stage u)
    (hans : ∀ i, s'.answers u i = s.answers u i)
    (hen : ∀ i, s'.config.enabled i → s.config.enabled i) : s'.Once req u := by
  unfold Once at h ⊢
  rw [hstage]
  cases hst : s.stage u with
  | start =>
      rw [hst] at h
      exact fun i => (hans i).trans (h i)
  | loop todo x =>
      rw [hst] at h
      obtain ⟨hse, htal, hnodup, htodo, hrest⟩ := h
      exact ⟨hse, htal.congr hans, hnodup, fun i hi => (hans i).trans (htodo i hi), fun i hi => by
        simpa only [Part, hans] using hrest i (hen i hi)⟩
  | choose | ask =>
      rw [hst] at h
      exact ⟨h.1, h.2.1.congr hans, h.2.2⟩
  | disable todo x =>
      rw [hst] at h
      exact ⟨h.1.congr hans, h.2.1, fun hse i hi => by
        simpa only [Part, hans] using h.2.2 hse i (hen i hi)⟩
  | finish x =>
      rw [hst] at h
      exact ⟨h.1.congr hans, fun hse i hi => by
        simpa only [Part, hans] using h.2 hse i (hen i hi)⟩
  | store k x =>
      rw [hst] at h
      exact ⟨h.1, fun i => hans i ▸ h.2.1 i, fun i hi => by
        simpa only [Part, hans] using h.2.2 i (hen i hi)⟩
  | unwind =>
      rw [hst] at h
      exact ⟨h.1, fun i => hans i ▸ h.2 i⟩
  | close =>
      rw [hst] at h
      exact ⟨h.1, fun i => (hans i).trans (h.2 i)⟩
  | done r fh =>
      rw [hst] at h
      exact Settled.congr h hans hen

/-! ## A round -/

theorem Tallied.round (h : s.Tallied req t x) {f : Fate Reply Errno}
    (hans : ∀ j, s'.answers t j = s.answers t j + if f.isOk = true ∧ j = i then 1 else 0)
    (hzero : f.isOk = true → s.answers t i = 0)
    (hsearch : (req t).searches = true → f.isOk = true → ∀ j, s.answers t j = 0)
    (hsup : f.isOk = true → (req t).supported = true)
    (htally : x'.tally = x.tally.add i f evs) (hw : (req t).searches = false → x.wMax ≤ x'.wMax) :
    s'.Tallied req t x' := by
  refine ⟨fun j => ?_, fun hz j => ?_, fun hz => ?_, fun j hj => ?_, fun j => ?_,
    fun hse => (h.wMax hse).trans (hw hse), fun hse => ?_⟩
  · rw [hans]
    split_ifs with hj
    · rw [hj.2, hzero hj.1]
    · exact h.le_one j
  · have hno : ¬ f.isOk = true := fun hok => Tally.succCnt_add_of_isOk hok (htally ▸ hz)
    rw [hans, if_neg fun hj => hno hj.1, add_zero]
    refine h.none ?_ j
    by_contra hz'
    exact Tally.succCnt_add_ne_zero hz' (htally ▸ hz)
  · rw [htally] at hz
    exact (Tally.add_succCnt_ne_zero hz).elim hsup h.supported
  · rw [htally] at hj ⊢
    cases f with
    | failed e => exact Nat.succ_ne_zero _
    | ok | skipped => exact h.failed j hj
  · rw [htally]
    cases f with
    | failed e =>
        by_cases hj : j = i
        · subst hj
          exact (Function.update_self j e.neg x.tally.errList).trans_le e.neg_lt_zero.le
        · exact (Function.update_of_ne hj e.neg x.tally.errList).trans_le (h.err_le j)
    | ok | skipped => exact h.err_le j
  · by_cases hok : f.isOk = true
    · simp [hans, hsearch hse hok, hok]
    · simpa [hans, hok] using h.searched hse

/-- A round of the loop over all replicas, which an enabled replica answers or fails. -/
theorem Once.visited (h : s.Once req t) (hc : s.Complete req) (hs : s.Sound req)
    (hall : s.config.AllNamed) (hP : s.Named req (t, env)) (hst : Stepped req s s' t env)
    {todo : List (Fin n)} (hat : s.stage t = .loop (i :: todo) x) (hat' : s'.stage t = .loop todo x')
    (hadv : (req t).visit env s.creds s.config i todo x = some (s'.config, .loop todo x', evs))
    (htrace : s'.trace = s.trace ++ evs.map fun ev => (t, ev))
    (hevs : evs = (req t).visitEvents env s.creds s.config i)
    (htally : x'.tally = x.tally.add i ((req t).visitFate env s.creds s.config i) evs) :
    s'.Once req t := by
  have hrel : (req t).releases = false := hs.not_releases hat
  unfold Once at h ⊢
  rw [hat] at h
  rw [hat']
  obtain ⟨hse, htal, hnodup, htodo, hrest⟩ := h
  obtain ⟨hi, hnodup⟩ := List.nodup_cons.mp hnodup
  obtain ⟨hzero, htodo⟩ := List.forall_mem_cons.mp htodo
  have hans := answers_of_round htrace (hevs ▸ Request.okOn_visitEvents (req t) env s.creds s.config i)
  have hsame : ∀ j, j ≠ i → s'.answers t j = s.answers t j := fun j hj => by
    rw [hans, if_neg fun hyes => hj hyes.2, add_zero]
  refine ⟨hse, ?_, hnodup, fun j hj => ?_, fun j hen' => ?_⟩
  · exact htal.round hans (fun _ => hzero) (fun hyes => by rw [hse] at hyes; cases hyes)
      Request.supported_of_visitFate htally fun _ => Request.wMax_le_visit hadv
  · rw [hsame j (ne_of_mem_of_not_mem hj hi)]
    exact htodo j hj
  · have hen := hst.effect.enabled_of_enabled hen'
    by_cases hj : j = i
    · subst hj
      have hne := Request.visitFate_ne_skipped hen hrel (Env.names_of_malloc hall hP.malloc j hen)
        (fun fh hfh => by
          obtain ⟨f, hf, rfl, -⟩ := hs.inUse t fh (by rw [busy, hat]) hfh hrel
          exact ⟨f.fd, hs.slots.distinct.slot f hf, hc.files f hf j hen⟩) hadv
      cases hfate : (req t).visitFate env s.creds s.config j with
      | skipped => exact absurd hfate hne
      | failed e =>
          refine Or.inr (Or.inl ?_)
          rw [htally, hfate]
          exact ((Function.update_self j e.neg x.tally.errList).trans_lt e.neg_lt_zero).ne
      | ok r =>
          refine Or.inr (Or.inr ⟨?_, fun hop => ?_⟩)
          · rw [hans, hzero, hfate]
            simp [Fate.isOk]
          · rw [(Request.visit_fd hop hadv).1, hfate]
            exact Int.natCast_nonneg _
    · rcases hrest j hen with hmem | herr | ⟨hone, hfd⟩
      · exact Or.inl ((List.mem_cons.mp hmem).resolve_left hj)
      · exact Or.inr (Or.inl (by rwa [htally, Tally.errList_add_of_ne hj]))
      · refine Or.inr (Or.inr ⟨by rw [hsame j hj, hone], fun hop => ?_⟩)
        rw [(Request.visit_fd hop hadv).2 j hj]
        exact hfd hop

/-- A round of a search. -/
theorem Once.attended (h : s.Once req t) {todo : List ℕ} (hat : s.stage t = .ask i todo x)
    (hat' : s'.stage t = if (attempt env s.creds i ((req t).ask env s.config i)).isOk then x'.conclude
      else .choose todo x')
    (htrace : s'.trace = s.trace ++ evs.map fun ev => (t, ev))
    (hevs : evs = attemptEvents env s.creds i ((req t).ask env s.config i))
    (htally : x'.tally =
      x.tally.add i (attempt env s.creds i ((req t).ask env s.config i)) evs) :
    s'.Once req t := by
  unfold Once at h ⊢
  rw [hat] at h
  obtain ⟨hse, htal, hzero⟩ := h
  have hno := htal.none hzero
  have hgoes : (req t).searches = false → False := fun hf => by
    rw [hse] at hf
    cases hf
  have htal' : s'.Tallied req t x' :=
    htal.round (answers_of_round htrace (hevs ▸ okOn_attemptEvents ..)) (fun _ => hno i)
      (fun _ _ => hno) (fun _ => Request.supported_of_searches hse) htally fun hf => (hgoes hf).elim
  rw [hat']
  by_cases hok : (attempt env s.creds i ((req t).ask env s.config i)).isOk = true
  · rw [if_pos hok]
    have hne : x'.tally.succCnt ≠ 0 := htally ▸ Tally.succCnt_add_of_isOk hok
    rcases x'.conclude_cases with hx | hx <;> rw [hx]
    · exact ⟨htal', hne, fun hf => (hgoes hf).elim⟩
    · exact ⟨htal', fun hf => (hgoes hf).elim⟩
  · rw [if_neg hok]
    refine ⟨hse, htal', ?_⟩
    by_contra hne
    rw [htally] at hne
    exact (Tally.add_succCnt_ne_zero hne).elim hok fun hyes => hyes hzero

/-! ## One step -/

/-- A request nobody answered. -/
theorem settled_of_none {r : Response} (hzero : ∀ i, s.answers t i = 0)
    (hret : (req t).searches = false → (req t).releases = false → 0 ≤ r.ret →
      ∀ i, ¬ s.config.enabled i) : s.Settled req t r where
  le_one := fun i => (hzero i).trans_le zero_le_one
  everywhere := fun hse hrel hge i hi => absurd hi (hret hse hrel hge i)
  nowhere := fun _ _ => Or.inr hzero
  searched := fun _ => by simp [hzero]

/-- **One step of a request.** -/
theorem Once.step (h : s.Once req t) (hc : s.Complete req) (hs : s.Sound req)
    (hall : s.config.AllNamed) (hP : s.Named req (t, env)) (hst : Stepped req s s' t env)
    (hadv : (req t).advance env s.creds s.config (s.stage t) = some (s'.config, s'.stage t, evs))
    (htrace : s'.trace = s.trace ++ evs.map fun ev => (t, ev)) : s'.Once req t := by
  have hsame : (s.stage t).calls = false → ∀ i, s'.answers t i = s.answers t i := fun hno i => by
    rw [answers_append htrace, Request.okOn_of_advance hadv hno]
    simp
  have hmove := Request.move_of_advance hadv
  have hen : ∀ i, s'.config.enabled i → s.config.enabled i := fun i =>
    hst.effect.enabled_of_enabled
  have hwas := h
  generalize hat : s.stage t = st at hadv hmove hsame
  generalize hat' : s'.stage t = st' at hadv hmove
  generalize hc' : s'.config = c' at hadv hmove hen
  unfold Once at h ⊢
  rw [hat] at h
  rw [hat']
  cases hmove with
  | refused e =>
      exact settled_of_none (fun i => (hsame rfl i).trans (h i)) fun _ _ hge =>
        absurd hge (not_le.mpr e.neg_lt_zero)
  | goesOver hse =>
      have hzero : ∀ i, s'.answers t i = 0 := fun i => (hsame rfl i).trans (h i)
      refine ⟨hse, ?_, List.nodup_finRange n, fun i _ => hzero i, fun i _ =>
        Or.inl (List.mem_finRange i)⟩
      exact ⟨fun i => by rw [hzero]; exact zero_le_one, fun _ => hzero, fun hne => absurd rfl hne,
        fun i hne => absurd rfl hne, fun _ => le_rfl, fun _ => le_rfl, fun _ => by simp [hzero]⟩
  | searches hse =>
      have hzero : ∀ i, s'.answers t i = 0 := fun i => (hsame rfl i).trans (h i)
      refine ⟨hse, ?_, rfl⟩
      exact ⟨fun i => by rw [hzero]; exact zero_le_one, fun _ => hzero, fun hne => absurd rfl hne,
        fun i hne => absurd rfl hne, fun _ => le_rfl, fun _ => le_rfl, fun _ => by simp [hzero]⟩
  | releases hrel => exact ⟨hrel, fun i => (hsame rfl i).trans (h i)⟩
  | @gaveUp i todo x hsup =>
      obtain ⟨-, htal, -⟩ := h
      have hz : x.tally.succCnt = 0 := by
        by_contra hne
        have hyes := htal.supported hne
        rw [hsup] at hyes
        cases hyes
      refine settled_of_none (fun j => ?_) fun _ _ hge =>
        absurd hge (not_le.mpr ENOSYS.neg_lt_zero)
      simp [answers_append htrace, htal.none hz]
  | visited _ htally =>
      have hgoal := hwas.visited hc hs hall hP hst hat hat' (hc' ▸ hadv) htrace rfl htally
      simpa only [Once, hat'] using hgoal
  | @loopEnd x =>
      obtain ⟨hse, htal, -, -, hrest⟩ := h
      have htal' := htal.congr (hsame rfl)
      unfold Locals.conclude
      split_ifs with hboth
      · refine ⟨htal', hboth.2, fun _ i hi => ?_⟩
        rcases hrest i (hen i (hc' ▸ hi)) with hmem | herr | hpart
        · exact absurd hmem List.not_mem_nil
        · exact Or.inl ⟨List.mem_finRange i, herr⟩
        · exact Or.inr (by simpa only [Part, hsame rfl] using hpart)
      · refine ⟨htal', fun _ i hi => ?_⟩
        have hdone := (hrest i (hen i (hc' ▸ hi))).resolve_left List.not_mem_nil
        split_ifs with hz
        · refine hdone.resolve_right fun hpart => ?_
          have hzero := htal.none hz i
          rw [hpart.1] at hzero
          cases hzero
        · have hpart := hdone.resolve_left fun herr => hboth ⟨htal.failed i herr, hz⟩
          simpa only [Part, hsame rfl] using hpart
  | chose => exact ⟨h.1, h.2.1.congr (hsame rfl), h.2.2⟩
  | @triesEnd x =>
      obtain ⟨hse, htal, hz⟩ := h
      have hx : x.conclude = .finish x := if_neg fun hboth => hboth.2 hz
      rw [hx]
      exact ⟨htal.congr (hsame rfl), fun hf => by rw [hse] at hf; cases hf⟩
  | attended _ htally =>
      have hgoal := hwas.attended hat hat' htrace rfl htally
      simpa only [Once, hat'] using hgoal
  | spared hno =>
      refine ⟨h.1.congr (hsame rfl), h.2.1, fun hse i hi => ?_⟩
      have hi := hen i (hc' ▸ hi)
      rcases h.2.2 hse i hi with ⟨hmem, herr⟩ | hpart
      · refine Or.inl ⟨(List.mem_cons.mp hmem).resolve_left ?_, herr⟩
        rintro rfl
        exact herr (hno hi)
      · exact Or.inr (by simpa only [Part, hsame rfl] using hpart)
  | disabled =>
      refine ⟨h.1.congr (hsame rfl), h.2.1, fun hse j hj => ?_⟩
      rw [hc'] at hj
      rcases h.2.2 hse j (hen j hj) with ⟨hmem, herr⟩ | hpart
      · refine Or.inl ⟨(List.mem_cons.mp hmem).resolve_left ?_, herr⟩
        rintro rfl
        simp [Config.enabled, Config.disableReplica] at hj
      · exact Or.inr (by simpa only [Part, hsame rfl] using hpart)
  | @disableEnd x =>
      refine ⟨h.1.congr (hsame rfl), fun hse i hi => ?_⟩
      rw [if_neg h.2.1]
      have hpart := (h.2.2 hse i (hen i (hc' ▸ hi))).resolve_left fun hno => List.not_mem_nil hno.1
      simpa only [Part, hsame rfl] using hpart
  | failed hz =>
      obtain ⟨htal, hrest⟩ := h
      refine settled_of_none (fun i => (hsame rfl i).trans (htal.none hz i)) fun hse _ hge i hi => ?_
      have herr := hrest hse i (hen i (hc' ▸ hi))
      rw [if_pos hz] at herr
      exact absurd hge (not_le.mpr
        (Config.getFirstError_neg htal.err_le ⟨i, hen i (hc' ▸ hi), herr⟩))
  | answered hne hop =>
      obtain ⟨htal, hrest⟩ := h
      have htal' := htal.congr (hsame rfl)
      refine ⟨htal'.le_one, fun hse _ _ i hi => ?_, fun _ hneg => ?_, htal'.searched⟩
      · have hpart := hrest hse i (hen i (hc' ▸ hi))
        rw [if_neg hne] at hpart
        exact (hsame rfl i).trans hpart.1
      · exact absurd (Request.result_nonneg htal.wMax) (not_le.mpr hneg)
  | sought hne hop =>
      obtain ⟨htal, hrest⟩ := h
      refine ⟨hop, (htal.congr (hsame rfl)).le_one, fun i hi => ?_⟩
      have hpart := hrest (Request.searches_of_opens hop) i (hen i (hc' ▸ hi))
      rw [if_neg hne] at hpart
      simpa only [Part, hsame rfl] using hpart
  | stored =>
      obtain ⟨hop, hle, hpart⟩ := h
      refine ⟨fun i => (hsame rfl i).trans_le (hle i), fun _ _ _ i hi =>
        (hsame rfl i).trans (hpart i (hen i (hc' ▸ hi))).1, fun _ hneg => absurd hneg (lt_irrefl _),
        fun hse => ?_⟩
      rw [Request.opens_of_searches hse] at hop
      cases hop
  | noSlot => exact ⟨h.1, fun i => (hsame rfl i).trans_le (h.2.1 i)⟩
  | unwound => exact ⟨h.1, fun i => (hsame rfl i).trans_le (h.2 i)⟩
  | unwindEnd =>
      refine ⟨fun i => (hsame rfl i).trans_le (h.2 i), fun _ _ hge =>
        absurd hge (not_le.mpr EMFILE.neg_lt_zero), fun _ _ => Or.inl ⟨h.1, rfl⟩, fun hse => ?_⟩
      have hop := h.1
      rw [Request.opens_of_searches hse] at hop
      cases hop
  | closed => exact ⟨h.1, fun i => (hsame rfl i).trans (h.2 i)⟩
  | emptied =>
      refine settled_of_none (fun i => (hsame rfl i).trans (h.2 i)) fun _ hrel => ?_
      rw [h.1] at hrel
      cases hrel

/-- **One step of the pool.** -/
theorem Complete.step (hc : s.Complete req) (hs : s.Sound req) (hall : s.config.AllNamed)
    (hP : s.Named req (t, env)) (hstep : s.step req (t, env) = some s') : s'.Complete req := by
  have hst := stepped_of_step hstep
  obtain ⟨evs, hadv, htrace⟩ := advance_of_step hstep
  have hen : ∀ i, s'.config.enabled i → s.config.enabled i := fun i =>
    hst.effect.enabled_of_enabled
  refine ⟨fun f hf i hi => ?_, fun u => ?_⟩
  · rcases hst.fd_of_live hf with ⟨g, hg, hfd⟩ | ⟨k, x, hat, hfd⟩
    · rw [hfd]
      exact hc.files g hg i (hen i hi)
    · have hone := hc.once t
      simp only [Once, hat] at hone
      rw [hfd]
      exact (hone.2.2 i (hen i hi)).2 hone.1
  · by_cases hu : u = t
    · subst hu
      exact (hc.once u).step hc hs hall hP hst hadv htrace
    · refine (hc.once u).congr (hst.stage_of_ne u hu) (fun i => ?_) hen
      rw [answers_append htrace, if_neg hu, add_zero]

theorem EmptyTable.complete (h : s.EmptyTable) (htrace : s.trace = []) : s.Complete req := by
  refine ⟨fun f hf => ?_, fun t => ?_⟩
  · rw [h.live] at hf
    cases hf
  · simp only [Once, h.start t]
    intro i
    rw [answers, htrace]
    rfl

end Pool

/-- **Once on every replica.** In every run whose steps are orderly and have memory for the names,
whatever calls fail: an enabled replica has answered, once, every request that returned without an
error after going over all replicas; a request that returned an error was answered by no replica, if
it is not a `release` or an `open` or `create` that found no slot; and none was ever answered
twice by a replica, or by two replicas if it is a search. -/
theorem exactly_once {req : T → Request} {s₀ s : Pool T n} (h₀ : s₀.EmptyTable)
    (htrace : s₀.trace = []) (hall : s₀.config.AllNamed) {l : List (T × Env n)}
    (hmeets : Machine.Meets (Pool.step req) (Pool.Named req) s₀ l)
    (hrun : Machine.runFrom (Pool.step req) s₀ l = some s) {t : T} {r : Response} {fh : Option ℕ}
    (hdone : s.stage t = .done r fh) : s.Settled req t r := by
  obtain ⟨-, -, hc⟩ : s.Sound req ∧ s.config.AllNamed ∧ s.Complete req := by
    refine Machine.invariant_of_meets
      (I := fun s => s.Sound req ∧ s.config.AllNamed ∧ s.Complete req) ?_ l s₀ s hmeets
      ⟨h₀.sound, hall, h₀.complete htrace⟩ hrun
    rintro s₁ ⟨t, env⟩ s₂ hP ⟨hs, hall, hc⟩ hstep
    have hst := Pool.stepped_of_step hstep
    exact ⟨hs.step hP.orderly hst, hst.effect.sameLayout.allNamed hall, hc.step hs hall hP hstep⟩
  have honce := hc.once t
  simp only [Pool.Once, hdone] at honce
  exact honce

/-- Of two requests made at once the first replica answered both, once each; the second one failed
them and is lost. -/
theorem exactly_once_bothAtOnce :
    ∃ s, Machine.runFrom (Pool.step twoTruncates) (rootPool Bool) bothAtOnce = some s ∧
      s.config.enabled 0 ∧ ∀ t, s.answers t 0 = 1 := by
  have hmeets : Machine.Meets (Pool.step twoTruncates) (Pool.Named twoTruncates) (rootPool Bool)
      bothAtOnce := by
    have hord : Machine.Meets (Pool.step twoTruncates) (Pool.Orderly twoTruncates) (rootPool Bool)
        bothAtOnce := by decide
    refine hord.imp_of_mem fun a ha s hs => ⟨hs, ?_⟩
    simp only [bothAtOnce, List.mem_flatten, List.mem_replicate] at ha
    obtain ⟨m, ⟨-, rfl⟩, ha⟩ := ha
    rcases List.mem_pair.mp ha with rfl | rfl <;> exact fun _ _ => rfl
  obtain ⟨s, hrun, hen, hdone⟩ :
      ∃ s, Machine.runFrom (Pool.step twoTruncates) (rootPool Bool) bothAtOnce = some s ∧
        s.config.enabled 0 ∧ ∀ t, s.stage t = .done { ret := 0 } none := by
    refine ⟨_, rfl, rfl, ?_⟩
    rintro (_ | _) <;> rfl
  have h₀ : (rootPool Bool).EmptyTable := ⟨fun _ => rfl, rfl, by decide, fun _ _ => rfl⟩
  refine ⟨s, hrun, hen, fun t => ?_⟩
  have hsettled := exactly_once h₀ rfl (fun _ => Option.some_ne_none _) hmeets hrun (hdone t)
  exact hsettled.everywhere rfl rfl le_rfl 0 hen

end ChironFs
