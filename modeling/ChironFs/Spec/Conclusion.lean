import ChironFs.Spec.Loops

/-!
# How a request ends: the disabling rule in closed form

* `Config.dropFaulty c R`: the configuration after a round, by the fail-drop rule of
  `ChironFs.Lib.Round`.
* `disableFaultyReplicas_eq`: counters that report a round make `disable_faulty_replicas` apply
  that rule and write two log lines for each replica it drops.
* `firstError R`, `getFirstError_eq`: the value returned when nobody succeeded.
* `conclude_eq`: the common end of the requests.
-/

namespace ChironFs

open Posix Replication

variable {n : ℕ}

/-! ## Disabling -/

/-- Disable the replicas that failed in a round in which somebody succeeded. -/
def Config.dropFaulty (c : Config n) (R : Round (Fin n) Reply Errno) : Config n :=
  { c with
    replicas := fun i =>
      if R.Drops i then { c.replicas i with disabled := true } else c.replicas i }

/-- The log lines about replica `i`: its failure, and that it is disabled. -/
def dropLog (operation : String) (c : Config n) (i : Fin n) : Fate Reply Errno → List (Event n)
  | .failed e =>
      [.log (some i) operation (.path (c.replicas i).path) e.neg,
       .log (some i) "disabling replica" (.path (c.replicas i).path) 0]
  | _ => []

/-- The log lines of a round. -/
def dropLogs (operation : String) (c : Config n) (R : Round (Fin n) Reply Errno) :
    List (Event n) :=
  if R.Succeeded then (List.finRange n).flatMap fun i => dropLog operation c i (R i) else []

/-- Only enabled replicas take part in the round. -/
def Config.Covers (c : Config n) (R : Round (Fin n) Reply Errno) : Prop :=
  ∀ i, (c.replicas i).disabled = true → R i = .skipped

/-- Those that the round drops are disabled, besides those that were. -/
@[simp] theorem Config.dropFaulty_disabled (c : Config n) (R : Round (Fin n) Reply Errno)
    (i : Fin n) :
    ((c.dropFaulty R).replicas i).disabled = true ↔
      (c.replicas i).disabled = true ∨ R.Drops i := by
  unfold dropFaulty
  by_cases h : R.Drops i <;> simp [h]

/-- Disabling leaves the paths. -/
@[simp] theorem Config.dropFaulty_path (c : Config n) (R : Round (Fin n) Reply Errno)
    (i : Fin n) : ((c.dropFaulty R).replicas i).path = (c.replicas i).path := by
  unfold dropFaulty
  by_cases h : R.Drops i <;> simp [h]

/-- A round that drops nobody disables nobody. -/
theorem Config.dropFaulty_of_not_drops (c : Config n) {R : Round (Fin n) Reply Errno}
    (h : ∀ i, ¬ R.Drops i) : c.dropFaulty R = c := by
  simp [dropFaulty, h]

/-- Nor does one that nobody answered. -/
theorem Config.dropFaulty_of_not_succeeded (c : Config n) {R : Round (Fin n) Reply Errno}
    (h : ¬ R.Succeeded) : c.dropFaulty R = c :=
  c.dropFaulty_of_not_drops (Round.not_drops_of_not_succeeded h)

/-- Nor one in which nobody failed. -/
theorem Config.dropFaulty_of_no_failure (c : Config n) {R : Round (Fin n) Reply Errno}
    (h : ∀ i, (R i).isFailed = false) : c.dropFaulty R = c :=
  c.dropFaulty_of_not_drops fun i hd => Bool.eq_false_iff.mp (h i) hd.2

/-- The loop of `disable_faulty_replicas` in closed form. -/
theorem disableLoop_eq (operation : String) (errList : Fin n → ℤ) (l : List (Fin n))
    (hl : l.Nodup) (c : Config n) :
    Config.disableLoop operation errList l c =
      ({ c with
          replicas := fun i =>
            if i ∈ l ∧ errList i ≠ 0 then { c.replicas i with disabled := true }
            else c.replicas i },
        l.flatMap fun i =>
          if (c.replicas i).disabled = false ∧ errList i ≠ 0 then
            [.log (some i) operation (.path (c.replicas i).path) (errList i),
             .log (some i) "disabling replica" (.path (c.replicas i).path) 0]
          else []) := by
  induction l generalizing c with
  | nil => simp [Config.disableLoop]
  | cons i is ih =>
      obtain ⟨hi, his⟩ := List.nodup_cons.mp hl
      rw [Config.disableLoop, List.flatMap_cons]
      by_cases hd : (c.replicas i).disabled = true
      · rw [if_pos hd, ih his]
        refine Prod.ext ?_ (by simp [hd])
        -- disabling a replica again changes nothing
        simp only [Config.mk.injEq, true_and, and_true]
        funext j
        by_cases hj : j = i
        · subst hj
          have hsame : { c.replicas j with disabled := true } = c.replicas j := by rw [← hd]
          simp [hi, hsame]
        · simp [hj]
      · rw [if_neg hd]
        by_cases he : errList i ≠ 0
        · rw [if_pos he]
          simp only [Config.disableReplica, ih his, Config.setReplica_replicas]
          refine Prod.ext ?_ ?_
          · simp only [Config.setReplica, Config.mk.injEq, true_and, and_true]
            funext j
            by_cases hj : j = i
            · subst hj; simp [hi, he]
            · simp [hj]
          · simp only [hd, he, ne_eq, not_false_eq_true, and_self, if_true, List.cons_append,
              List.nil_append, List.cons.injEq, true_and]
            apply List.flatMap_congr
            intro j hj
            have hne : j ≠ i := fun h => hi (h ▸ hj)
            simp [hne]
        · rw [if_neg he, ih his]
          refine Prod.ext ?_ (by simp [he])
          simp only [Config.mk.injEq, true_and, and_true]
          funext j
          by_cases hj : j = i
          · subst hj; simp [he]
          · simp [hj]

/-- **`disable_faulty_replicas` is the fail-drop rule**: given counters that report the round. -/
theorem disableFaultyReplicas_eq (operation : String) {c : Config n} {t : Tally n}
    {R : Round (Fin n) Reply Errno} (ht : t.Reports R) (hc : c.Covers R) :
    c.disableFaultyReplicas operation t.succCnt t.failCnt t.errList =
      (c.dropFaulty R, dropLogs operation c R) := by
  unfold Config.disableFaultyReplicas
  by_cases hs : R.Succeeded
  · by_cases hf : ∃ i, (R i).isFailed = true
    · rw [if_pos ⟨ht.fail_iff.mpr hf, ht.succ_iff.mpr hs⟩,
        disableLoop_eq _ _ _ (List.nodup_finRange n)]
      refine Prod.ext ?_ ?_
      · simp only [Config.dropFaulty, Config.mk.injEq, true_and, and_true]
        funext i
        simp [ht.err_eq, errCode_ne_zero_iff, Round.Drops, hs, -ne_eq]
      · simp only [dropLogs, if_pos hs]
        apply List.flatMap_congr
        intro i _
        cases hR : R i with
        | skipped => simp [ht.err_eq, hR, dropLog]
        | ok r => simp [ht.err_eq, hR, dropLog]
        | failed e =>
            have hen : (c.replicas i).disabled = false := by
              by_contra hd
              rw [hc i (by simpa using hd)] at hR
              cases hR
            simp [ht.err_eq, hR, dropLog, hen, e.neg_ne_zero]
    · have hno : ∀ i, (R i).isFailed = false := fun i => by
        by_contra h
        exact hf ⟨i, by simpa using h⟩
      rw [if_neg (fun h => hf (ht.fail_iff.mp h.1)), c.dropFaulty_of_no_failure hno, dropLogs,
        if_pos hs]
      refine Prod.ext rfl ?_
      show [] = List.flatMap _ _
      symm
      rw [List.flatMap_eq_nil_iff]
      intro i _
      have := hno i
      cases hR : R i with
      | failed e => rw [hR] at this; cases this
      | _ => rfl
  · rw [if_neg (fun h => hs (ht.succ_iff.mp h.2)), c.dropFaulty_of_not_succeeded hs, dropLogs,
      if_neg hs]

/-! ## The first error -/

/-- The error of the first replica that failed, `0` if none did. -/
def firstError (R : Round (Fin n) Reply Errno) : ℤ :=
  match (List.finRange n).find? fun i => (R i).isFailed with
  | none => 0
  | some i => errCode (R i)

/-- The loop of `get_first_error` in closed form. -/
theorem firstErrorLoop_eq (c : Config n) (errList : Fin n → ℤ) (l : List (Fin n))
    (h : ∀ i ∈ l, errList i ≠ 0 → c.enabled i) :
    c.firstErrorLoop errList l =
      match l.find? fun i => decide (errList i ≠ 0) with
      | none => 0
      | some i => errList i := by
  induction l with
  | nil => rfl
  | cons i is ih =>
      rw [Config.firstErrorLoop]
      by_cases he : errList i ≠ 0
      · have hen : (c.replicas i).disabled = false := h i List.mem_cons_self he
        rw [if_pos ⟨hen, he⟩, List.find?_cons_of_pos (by simpa using he)]
      · rw [if_neg (fun hc => he hc.2), List.find?_cons_of_neg (by simpa using he),
          ih fun j hj => h j (List.mem_cons_of_mem i hj)]

/-- `get_first_error` on an error list that reports a round. -/
theorem getFirstError_eq {c : Config n} {t : Tally n} {R : Round (Fin n) Reply Errno}
    (ht : t.Reports R) (hc : c.Covers R) : c.getFirstError t.errList = firstError R := by
  have hfun : (fun i => decide (t.errList i ≠ 0)) = fun i => (R i).isFailed := by
    funext i
    rw [ht.err_eq]
    cases h : (R i).isFailed with
    | true => simpa using (errCode_ne_zero_iff (R i)).mpr h
    | false =>
        have : ¬ errCode (R i) ≠ 0 := fun hne => by
          rw [(errCode_ne_zero_iff (R i)).mp hne] at h
          cases h
        simpa using this
  unfold Config.getFirstError firstError
  rw [firstErrorLoop_eq, hfun]
  · cases (List.finRange n).find? fun i => (R i).isFailed with
    | none => rfl
    | some i => exact ht.err_eq i
  · intro i _ he
    rw [ht.err_eq] at he
    by_contra hd
    unfold Config.enabled at hd
    rw [hc i (by simpa using hd)] at he
    exact he rfl

/-- Without a failure the returned value is `0`, whoever was asked. -/
theorem firstError_eq_zero {R : Round (Fin n) Reply Errno} (h : ∀ i, (R i).isFailed = false) :
    firstError R = 0 := by
  unfold firstError
  have hnone : (List.finRange n).find? (fun i => (R i).isFailed) = none := by
    rw [List.find?_eq_none]
    intro i _
    simp [h i]
  rw [hnone]

/-- The returned value is the error of one that failed. -/
theorem exists_firstError_eq {R : Round (Fin n) Reply Errno} (h : ∃ i, (R i).isFailed = true) :
    ∃ i e, R i = .failed e ∧ firstError R = e.neg := by
  obtain ⟨i, hi⟩ := h
  have hsome : ((List.finRange n).find? fun i => (R i).isFailed).isSome := by
    rw [List.find?_isSome]
    exact ⟨i, List.mem_finRange i, hi⟩
  obtain ⟨j, hj⟩ := Option.isSome_iff_exists.mp hsome
  have hfail := List.find?_some hj
  obtain ⟨e, he⟩ := Fate.isFailed_iff.mp hfail
  refine ⟨j, e, he, ?_⟩
  unfold firstError
  simp only [hj, he, errCode_failed]

/-- The returned value is negative exactly when somebody failed. -/
theorem firstError_neg_iff {R : Round (Fin n) Reply Errno} :
    firstError R < 0 ↔ ∃ i, (R i).isFailed = true := by
  constructor
  · intro h
    by_contra hno
    have hzero : firstError R = 0 := firstError_eq_zero fun i => by
      simpa using fun hi => hno ⟨i, hi⟩
    omega
  · intro h
    obtain ⟨_, e, -, heq⟩ := exists_firstError_eq h
    rw [heq]
    exact e.neg_lt_zero

/-- A round that asked somebody and that nobody answered returns a negative value. -/
theorem firstError_neg_of_not_succeeded {R : Round (Fin n) Reply Errno} (hs : ¬ R.Succeeded)
    {i : Fin n} (hi : R i ≠ .skipped) : firstError R < 0 :=
  firstError_neg_iff.mpr ⟨i, Round.isFailed_of_not_succeeded hs hi⟩

/-! ## The common end -/

/-- The common end of the handlers, for the tally of a round. -/
theorem conclude_eq (operation : String) (env : Env n) {c : Config n} (cr : Creds)
    (trace : List (Event n)) {t : Tally n} {R : Round (Fin n) Reply Errno} (ht : t.Reports R)
    (hc : c.Covers R) (r : Response) :
    conclude operation env c cr trace t r =
      leave env (c.dropFaulty R) cr (trace ++ t.calls ++ dropLogs operation c R)
        (if R.Succeeded then r else { ret := firstError R }) := by
  unfold conclude
  rw [disableFaultyReplicas_eq operation ht hc]
  simp only
  by_cases hs : R.Succeeded
  · rw [if_neg (ht.succ_iff.mpr hs), if_pos hs]
  · have h0 : t.succCnt = 0 := by
      by_contra h
      exact hs (ht.succ_iff.mp h)
    rw [if_pos h0, if_neg hs, c.dropFaulty_of_not_succeeded hs, getFirstError_eq ht hc]

end ChironFs
