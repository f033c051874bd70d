import ChironFs.Model.Sample
import ChironFs.Spec.Interleaved

/-!
# Disabling while other requests disable

* `Pool.Answered`: a replica answered a request. `Pool.deciding`: the request may still disable.
* `lastReplica_lost`: two requests that overlap disable both replicas of the small daemon.
* `Pool.SparesEvidence`: no request that may still disable loses the last enabled replica that
  answered it.
* `lastReplica_kept`: then some replica is enabled in every state of every run.
-/

namespace ChironFs

open Posix Replication

variable {n : ℕ} {T : Type*}

namespace Pool

/-- Replica `j` answered request `t`. -/
def Answered (s : Pool T n) (t : T) (j : Fin n) : Prop := s.Did t fun ev => ev.okOn = some j

/-- The request goes over the replicas, or disables those that failed. -/
def deciding (s : Pool T n) (t : T) : Bool :=
  match s.stage t with
  | .loop .. | .choose .. | .ask .. | .disable .. => true
  | _ => false

/-- The replica that the next step of a request disables. -/
def disables (s : Pool T n) (t : T) : Option (Fin n) :=
  match s.stage t with
  | .disable (i :: _) x => if s.config.enabled i ∧ x.tally.errList i ≠ 0 then some i else none
  | _ => none

instance (s : Pool T n) (t : T) (j : Fin n) [DecidableEq T] : Decidable (s.Answered t j) := by
  unfold Answered
  infer_instance

/-- Nothing was begun yet, and some replica is enabled. -/
structure Fresh (s : Pool T n) : Prop where
  start : ∀ t, s.stage t = .start
  enabled : ∃ i, s.config.enabled i

/-- What is assumed of a step: the replica it disables is not the last enabled one among those that
answered a request which is still deciding. -/
def SparesEvidence (s : Pool T n) (a : T × Env n) : Prop :=
  ∀ i, s.disables a.1 = some i → ∀ u, s.deciding u = true → s.Answered u i →
    ∃ j, j ≠ i ∧ s.Answered u j ∧ s.config.enabled j

instance [DecidableEq T] [Fintype T] (s : Pool T n) (a : T × Env n) :
    Decidable (s.SparesEvidence a) :=
  match h : s.disables a.1 with
  | none => isTrue (by simp [SparesEvidence, h])
  | some i =>
      decidable_of_iff (∀ u, s.deciding u = true → s.Answered u i →
        ∃ j, j ≠ i ∧ s.Answered u j ∧ s.config.enabled j) (by simp [SparesEvidence, h])

end Pool

/-! ## Two requests that overlap -/

theorem rootPool_fresh (T : Type*) : (rootPool T).Fresh := ⟨fun _ => rfl, 0, rfl⟩

/-- Two requests to truncate `/f`. -/
def twoTruncates : Bool → Request := fun _ => .truncate fileF 0

/-- Both requests go over the replicas, then both disable. -/
def bothThenDisable : List (Bool × Env 2) :=
  List.replicate 4 (false, secondFails {} EACCES) ++
    List.replicate 4 (true, firstFails {} EACCES) ++
    List.replicate 2 (false, secondFails {} EACCES) ++ [(true, firstFails {} EACCES)]

/-- Each of the two requests was answered by one replica and disables the other. -/
theorem lastReplica_lost :
    (rootPool Bool).Fresh ∧
      ∃ s, Machine.runFrom (Pool.step twoTruncates) (rootPool Bool) bothThenDisable = some s ∧
        ∀ i, ¬ s.config.enabled i :=
  ⟨rootPool_fresh Bool, _, rfl, by decide⟩

namespace Pool

/-! ## The invariant -/

/-- Some replica that answered the request is enabled. -/
def Evidence (s : Pool T n) (t : T) : Prop := ∃ j, s.Answered t j ∧ s.config.enabled j

/-- What a request counted as a success is still there. -/
def Backed (s : Pool T n) (t : T) : Prop :=
  match s.stage t with
  | .loop _ x | .choose _ x | .ask _ _ x => x.tally.succCnt ≠ 0 → s.Evidence t
  | .disable .. => s.Evidence t
  | _ => True

variable {req : T → Request} {s s' : Pool T n} {t : T} {env : Env n}

/-- A step disables no replica but the one it is about to. -/
theorem Stepped.enabled_of_ne (h : Stepped req s s' t env) {j : Fin n} (hj : s.config.enabled j)
    (hne : s.disables t ≠ some j) : s'.config.enabled j := by
  have heff := h.effect
  unfold disables at hne
  generalize s.stage t = st at heff hne
  generalize s'.stage t = st' at heff
  generalize s'.config = c' at heff
  cases heff with
  | quiet hq => exact (hq.enabled_iff j).mpr hj
  | chose hk =>
      unfold Config.enabled
      rwa [(Config.chooseReplica_sameButCursors hk).replicas_eq]
  | @disabled i todo x hi herr =>
      have hji : j ≠ i := fun h => hne (by simp [h, hi, herr])
      simpa [Config.enabled, Config.disableReplica, hji] using hj
  | stored => exact hj
  | emptied => exact hj

/-- **A step that spares the evidence of the others leaves each deciding request its own.** -/
theorem Evidence.step {u : T} (hev : s.Evidence u) (hu : s.deciding u = true)
    (hspare : s.SparesEvidence (t, env)) (h : Stepped req s s' t env) : s'.Evidence u := by
  obtain ⟨evs, -, htr⟩ := h.move
  have hkept : ∀ {j}, s.Answered u j → s'.Answered u j := fun hj =>
    (did_append htr u _).mpr (Or.inl hj)
  obtain ⟨j, hj, hen⟩ := hev
  by_cases hdis : s.disables t = some j
  · obtain ⟨k, hkj, hk, hken⟩ := hspare j hdis u hu hj
    refine ⟨k, hkept hk, h.enabled_of_ne hken ?_⟩
    rw [hdis]
    exact fun h => hkj (Option.some.inj h).symm
  · exact ⟨j, hkept hj, h.enabled_of_ne hen hdis⟩

/-- A round keeps what was counted: a replica that answers in it is enabled. -/
theorem evidence_of_round {x x' : Locals n} {i : Fin n} {f : Fate Reply Errno}
    {evs : List (Event n)} (hx : x.tally.succCnt ≠ 0 → s'.Evidence t)
    (htr : s'.trace = s.trace ++ evs.map fun ev => (t, ev))
    (htally : x'.tally = x.tally.add i f evs)
    (hok : evs.filterMap Event.okOn = if f.isOk then [i] else [])
    (hen : f.isOk = true → s'.config.enabled i) (hx' : x'.tally.succCnt ≠ 0) : s'.Evidence t := by
  rw [htally] at hx'
  rcases Tally.add_succCnt_ne_zero hx' with hf | hx'
  · refine ⟨i, (did_append htr t _).mpr (Or.inr ⟨rfl, List.mem_filterMap.mp ?_⟩), hen hf⟩
    rw [hok, if_pos hf]
    exact List.mem_singleton_self i
  · exact hx hx'

theorem backed_of_conclude {x : Locals n} (hst : s.stage t = x.conclude)
    (hx : x.tally.succCnt ≠ 0 → s.Evidence t) : s.Backed t := by
  unfold Backed Locals.conclude at *
  rw [hst]
  split_ifs with h
  · exact hx h.2
  · trivial

/-- A step of the request itself. -/
theorem Backed.step_self (hb : s.Backed t) (hspare : s.SparesEvidence (t, env))
    (h : Stepped req s s' t env) : s'.Backed t := by
  obtain ⟨evs, hmove, htr⟩ := h.move
  -- what the request had counted before the step is there after it
  have hkept : s.deciding t = true → s.Evidence t → s'.Evidence t := fun hu hev =>
    hev.step hu hspare h
  have hen : ∀ {j}, s.config.enabled j → s.disables t = none → s'.config.enabled j := by
    intro j hj hdis
    exact h.enabled_of_ne hj (by simp [hdis])
  unfold Backed at hb
  generalize hst : s.stage t = st at hmove hb
  generalize hst' : s'.stage t = st' at hmove
  generalize hc' : s'.config = c' at hmove
  cases hmove with
  | goesOver | searches => simp [Backed, hst']
  | @visited i todo x x' _ hq htally =>
      have hdec : s.deciding t = true := by simp [deciding, hst]
      simp only [Backed, hst']
      refine evidence_of_round (fun hx => hkept hdec (hb hx)) htr htally
        (Request.okOn_visitEvents ..) fun hf => ?_
      exact hen (Request.enabled_of_visitFate_isOk hf) (by simp [disables, hst])
  | loopEnd | triesEnd =>
      have hdec : s.deciding t = true := by simp [deciding, hst]
      exact backed_of_conclude hst' fun hx => hkept hdec (hb hx)
  | @chose k todo x i _ hk =>
      have hdec : s.deciding t = true := by simp [deciding, hst]
      simp only [Backed, hst']
      exact fun hx => hkept hdec (hb hx)
  | @attended i todo x x' _ hq htally =>
      have hdec : s.deciding t = true := by simp [deciding, hst]
      have hround : x'.tally.succCnt ≠ 0 → s'.Evidence t :=
        evidence_of_round (fun hx => hkept hdec (hb hx)) htr htally (okOn_attemptEvents ..)
          fun hf => hen (Request.enabled_of_attempt_isOk hf) (by simp [disables, hst])
      split_ifs at hst'
      · exact backed_of_conclude hst' hround
      · simpa only [Backed, hst'] using hround
  | spared | disabled =>
      simp only [Backed, hst']
      exact hkept (by simp [deciding, hst]) hb
  | _ => simp [Backed, hst']

/-- A step of another request. -/
theorem Backed.step_of_ne {u : T} (hb : s.Backed u) (hu : u ≠ t)
    (hspare : s.SparesEvidence (t, env)) (h : Stepped req s s' t env) : s'.Backed u := by
  unfold Backed at hb ⊢
  rw [h.stage_of_ne u hu]
  cases hst : s.stage u with
  | loop todo x | choose todo x | ask i todo x =>
      simp only [hst] at hb ⊢
      exact fun hx => (hb hx).step (by simp [deciding, hst]) hspare h
  | disable todo x =>
      simp only [hst] at hb ⊢
      exact hb.step (by simp [deciding, hst]) hspare h
  | _ => trivial

/-! ## Every state of every run -/

/-- **One step.** -/
theorem enabled_and_backed_of_step [DecidableEq T]
    (hi : (∃ i, s.config.enabled i) ∧ ∀ u, s.Backed u) (hspare : s.SparesEvidence (t, env))
    (hstep : s.step req (t, env) = some s') :
    (∃ i, s'.config.enabled i) ∧ ∀ u, s'.Backed u := by
  have h := stepped_of_step hstep
  obtain ⟨⟨i, hen⟩, hb⟩ := hi
  refine ⟨?_, fun u => ?_⟩
  · cases hdis : s.disables t with
    | none => exact ⟨i, h.enabled_of_ne hen (by simp [hdis])⟩
    | some k =>
        -- a request disables only when somebody answered it
        obtain ⟨hdec, hev⟩ : s.deciding t = true ∧ s.Evidence t := by
          have hbt := hb t
          unfold disables at hdis
          split at hdis
          · rename_i hst
            simp only [Backed, hst] at hbt
            exact ⟨by simp [deciding, hst], hbt⟩
          · cases hdis
        obtain ⟨j, -, hj⟩ := hev.step hdec hspare h
        exact ⟨j, hj⟩
  · by_cases hu : u = t
    · subst hu
      exact (hb u).step_self hspare h
    · exact (hb u).step_of_ne hu hspare h

end Pool

/-- **When the evidence of deciding requests is spared, a replica is left**: in every run whose
steps disable no last enabled replica of those that answered a request still deciding, every state
has an enabled replica. -/
theorem lastReplica_kept [DecidableEq T] {req : T → Request} {s : Pool T n}
    (h : Machine.ReachableBy (Pool.step req) Pool.SparesEvidence Pool.Fresh s) :
    ∃ i, s.config.enabled i :=
  (h.invariant (I := fun s => (∃ i, s.config.enabled i) ∧ ∀ u, s.Backed u)
    (fun s h₀ => ⟨h₀.enabled, fun u => by simp [Pool.Backed, h₀.start]⟩)
    fun _ _ _ hspare hi hstep => Pool.enabled_and_backed_of_step hi hspare hstep).1

/-- The first request disables before the second one goes over the replicas. -/
def disableThenOther : List (Bool × Env 2) :=
  List.replicate 6 (false, secondFails {} EACCES) ++ List.replicate 5 (true, firstFails {} EACCES)

theorem lastReplica_kept_disableThenOther :
    ∃ s, Machine.runFrom (Pool.step twoTruncates) (rootPool Bool) disableThenOther = some s ∧
      ¬ s.config.enabled 1 ∧ ∃ i, s.config.enabled i := by
  have hmeets : Machine.Meets (Pool.step twoTruncates) Pool.SparesEvidence (rootPool Bool)
      disableThenOther := by decide
  exact ⟨_, rfl, by decide,
    lastReplica_kept ⟨rootPool Bool, disableThenOther, rootPool_fresh Bool, hmeets, rfl⟩⟩

end ChironFs
