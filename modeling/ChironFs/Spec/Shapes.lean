import ChironFs.Spec.Conclusion

/-!
# The shapes of the handlers, past their early exits

One equation for each shape of handler, once its memory is there and its handle is good: the round
it plays, the configuration and the trace it leaves, the value it returns.

* `onEveryReplica_eq`, `chironMknod_eq`, `chironWrite_eq`: the requests that ask every replica.
* `openOnReplicas_eq`: `open` and `create`, whose round also counts the names that could not be
  built.
* `onFirstReplica_spec`, `chironRead_spec`: the requests that stop at the first answer.
-/

namespace ChironFs

open Posix Replication

variable {n : ℕ}

/-! ## Rounds over all replicas -/

/-- A round that asks only enabled replicas. -/
theorem Config.covers_attempt (c : Config n) (env : Env n) (cr : Creds)
    (call : Fin n → Option Call) :
    c.Covers fun i => attempt env cr i (c.guarded call i) := by
  intro i hd
  show attempt env cr i (c.guarded call i) = .skipped
  rw [c.guarded_of_disabled hd, attempt_none]

/-- The counters of a loop over all replicas report the round of their fates. -/
theorem Tally.reports_finRange (F : Fin n → Fate Reply Errno) (ev : Fin n → List (Event n)) :
    (addAll F ev (List.finRange n) {}).Reports F :=
  reports_addAll (List.finRange n) (fun _ _ => rfl)
    fun i hi => absurd (List.mem_finRange i) hi

/-- The calls over all replicas, from an empty tally. -/
theorem Tally.addAll_calls_finRange (F : Fin n → Fate Reply Errno)
    (ev : Fin n → List (Event n)) :
    (addAll F ev (List.finRange n) {}).calls = (List.finRange n).flatMap ev := by
  rw [addAll_calls]
  rfl

/-- A handler that asks every replica, past its early exit, as a round. -/
theorem onEveryReplica_eq (operation : String) (call : Config n → Fin n → Option Call)
    (env : Env n) (d : Daemon n) (h : env.calloc 0 = true) :
    onEveryReplica operation call env d =
      let cr := (dropPriv env d.creds).creds
      let ask := d.config.guarded (call d.config)
      let R : Round (Fin n) Reply Errno := fun i => attempt env cr i (ask i)
      leave env (d.config.dropFaulty R) cr
        ((dropPriv env d.creds).trace ++
          (List.finRange n).flatMap (fun i => attemptEvents env cr i (ask i)) ++
          dropLogs operation d.config R)
        (if R.Succeeded then { ret := 0 } else { ret := firstError R }) := by
  unfold onEveryReplica
  simp only [h, Bool.true_eq_false, if_false, everyLoop_eq]
  rw [conclude_eq operation env _ _ (Tally.reports_finRange _ _)
    (d.config.covers_attempt env _ _), Tally.addAll_calls_finRange]

/-- `mknod`, past its early exits, as a round. -/
theorem chironMknod_eq (path : Path) (mode rdev : ℕ) (env : Env n) (d : Daemon n)
    (h : env.calloc 0 = true)
    (hr : mknodRefuses env d.config path mode (List.finRange n) = false) :
    chironMknod path mode rdev env d =
      let cr := (dropPriv env d.creds).creds
      let ask := d.config.guarded (mknodCall env d.config path mode)
      let R : Round (Fin n) Reply Errno := fun i => attempt env cr i (ask i)
      leave env (d.config.dropFaulty R) cr
        ((dropPriv env d.creds).trace ++
          (List.finRange n).flatMap (fun i => mknodEvents env cr i (ask i)) ++
          dropLogs "mknod" d.config R)
        (if R.Succeeded then { ret := 0 } else { ret := firstError R }) := by
  unfold chironMknod
  simp only [h, Bool.true_eq_false, Bool.false_eq_true, if_false, mknodLoop_eq, hr]
  rw [conclude_eq "mknod" env _ _ (Tally.reports_finRange _ _)
    (d.config.covers_attempt env _ _), Tally.addAll_calls_finRange]

/-! ## `write` -/

/-- Counting disables nobody. -/
@[simp] theorem Config.countWrites_disabled (c : Config n) (p : Fin n → Bool) (i : Fin n) :
    ((c.countWrites p).replicas i).disabled = (c.replicas i).disabled := by
  cases h : p i <;> simp [countWrites, h]

/-- Counting leaves the paths. -/
@[simp] theorem Config.countWrites_path (c : Config n) (p : Fin n → Bool) (i : Fin n) :
    ((c.countWrites p).replicas i).path = (c.replicas i).path := by
  cases h : p i <;> simp [countWrites, h]

/-- `maxCount` is the largest of the counts it sees. -/
theorem maxCount_spec (F : Fin n → Fate Reply Errno) (l : List (Fin n)) (w : ℤ) :
    w ≤ maxCount F l w ∧ (∀ i ∈ l, ∀ r, F i = .ok r → (r.ret : ℤ) ≤ maxCount F l w) ∧
      (maxCount F l w = w ∨ ∃ i ∈ l, ∃ r, F i = .ok r ∧ maxCount F l w = r.ret) := by
  induction l generalizing w with
  | nil => exact ⟨le_rfl, by simp, Or.inl rfl⟩
  | cons i is ih =>
      rw [maxCount]
      cases hF : F i with
      | ok r =>
          obtain ⟨hw, hall, hsome⟩ := ih (max r.ret w)
          show w ≤ maxCount F is (max r.ret w) ∧ _
          refine ⟨le_trans (le_max_right _ _) hw, ?_, ?_⟩
          · intro j hj r' hr'
            rcases List.mem_cons.mp hj with rfl | hj
            · obtain rfl : r = r' := by simpa [hF] using hr'
              exact le_trans (le_max_left _ _) hw
            · exact hall j hj r' hr'
          · rcases hsome with heq | ⟨j, hj, r', hr', heq⟩
            · rcases max_choice (r.ret : ℤ) w with hm | hm
              · exact Or.inr ⟨i, List.mem_cons_self, r, hF, heq.trans hm⟩
              · exact Or.inl (heq.trans hm)
            · exact Or.inr ⟨j, List.mem_cons_of_mem i hj, r', hr', heq⟩
      | _ =>
          obtain ⟨hw, hall, hsome⟩ := ih w
          refine ⟨hw, ?_, ?_⟩
          · intro j hj r' hr'
            rcases List.mem_cons.mp hj with rfl | hj
            · rw [hF] at hr'
              cases hr'
            · exact hall j hj r' hr'
          · rcases hsome with heq | ⟨j, hj, r', hr', heq⟩
            · exact Or.inl heq
            · exact Or.inr ⟨j, List.mem_cons_of_mem i hj, r', hr', heq⟩

/-- `w_max`, when somebody wrote: the largest number of bytes a replica stored. -/
theorem maxCount_of_succeeded {R : Round (Fin n) Reply Errno} (h : R.Succeeded) :
    ∃ i r, R i = .ok r ∧ maxCount R (List.finRange n) 0 = r.ret := by
  obtain ⟨_, hall, hsome⟩ := maxCount_spec R (List.finRange n) 0
  rcases hsome with h0 | ⟨i, -, r, hr, heq⟩
  · -- a maximum of `0` is the count of the replica that answered
    obtain ⟨i, hi⟩ := h
    obtain ⟨r, hr⟩ := Fate.isOk_iff.mp hi
    have hle := hall i (List.mem_finRange i) r hr
    exact ⟨i, r, hr, by omega⟩
  · exact ⟨i, r, hr, heq⟩

/-- What is logged does not depend on the counters. -/
theorem dropLogs_countWrites (operation : String) (c : Config n) (p : Fin n → Bool)
    (R : Round (Fin n) Reply Errno) :
    dropLogs operation (c.countWrites p) R = dropLogs operation c R := by
  unfold dropLogs
  refine if_congr Iff.rfl (List.flatMap_congr ?_) rfl
  intro i _
  cases R i <;> simp [dropLog]

/-- `write`, past its early exits, as a round; its successes are counted. -/
theorem chironWrite_eq {fh : ℕ} (buf : List UInt8) (offset : ℤ) {env : Env n} {d : Daemon n}
    {fd : Fin n → ℤ} (hfd : d.config.tabFd fh = some fd) (h : env.calloc 0 = true) :
    chironWrite fh buf offset env d =
      let cr := (dropPriv env d.creds).creds
      let ask := d.config.guarded (writeCall fd buf offset)
      let R : Round (Fin n) Reply Errno := fun i => attempt env cr i (ask i)
      leave env ((d.config.countWrites fun i => (R i).isOk).dropFaulty R) cr
        ((dropPriv env d.creds).trace ++
          (List.finRange n).flatMap (fun i => attemptEvents env cr i (ask i)) ++
          dropLogs "write" d.config R)
        (if R.Succeeded then { ret := maxCount R (List.finRange n) 0 }
          else { ret := firstError R }) := by
  have hcov : ∀ p, (d.config.countWrites p).Covers fun i =>
      attempt env (dropPriv env d.creds).creds i
        (d.config.guarded (writeCall fd buf offset) i) := fun p i hd =>
    d.config.covers_attempt env _ _ i (by simpa using hd)
  unfold chironWrite
  simp only [hfd, h, Bool.true_eq_false, if_false, writeLoop_eq _ _ _ _ _ _ (List.nodup_finRange n),
    List.mem_finRange, decide_true, Bool.true_and]
  rw [conclude_eq "write" env _ _ (Tally.reports_finRange _ _) (hcov _),
    Tally.addAll_calls_finRange, dropLogs_countWrites]

/-! ## `open` and `create` -/

/-- A disabled replica has no part in an `open`. -/
theorem Config.covers_openFate (c : Config n) (env : Env n) (cr : Creds) (path : Path)
    (call : Path → Call) : c.Covers (openFate env c cr path call) := by
  intro i hd
  simp [openFate, hd]

/-- The descriptor vector after the loop of `open` or `create`: `0` where no call was made on a
disabled replica, `-1` where the replica failed. -/
def fdVector (R : Round (Fin n) Reply Errno) (i : Fin n) : ℤ := fdEntry 0 (R i)

/-- `open` and `create` once both vectors are allocated. -/
theorem openOnReplicas_eq (operation : String) (path : Path) (call : Path → Call) (env : Env n)
    (d : Daemon n) (h₀ : env.calloc 0 = true) (h₁ : env.calloc 1 = true) :
    openOnReplicas operation path call env d =
      let cr := (dropPriv env d.creds).creds
      let ask := d.config.guarded (openCall env d.config path call)
      let R : Round (Fin n) Reply Errno := openFate env d.config cr path call
      let trace := (dropPriv env d.creds).trace ++
        (List.finRange n).flatMap (fun i => attemptEvents env cr i (ask i)) ++
        dropLogs operation d.config R
      let s := (d.config.dropFaulty R).fdHashset (fdVector R)
      if R.Succeeded then
        if s.1 < 0 then
          leave env s.2.1 cr
            (trace ++ s.2.2 ++ closeOpened env s.2.1 cr (fdVector R) (List.finRange n))
            { ret := EMFILE.neg }
        else leave env s.2.1 cr (trace ++ s.2.2) { ret := 0 } (some s.1.toNat)
      else leave env d.config cr trace { ret := firstError R } := by
  have hrep := Tally.reports_finRange (openFate env d.config (dropPriv env d.creds).creds path call)
    (fun i => attemptEvents env (dropPriv env d.creds).creds i
      (d.config.guarded (openCall env d.config path call) i))
  have hcov := d.config.covers_openFate env (dropPriv env d.creds).creds path call
  unfold openOnReplicas
  simp only [h₀, h₁, Bool.true_eq_false, if_false, openLoop_eq _ _ _ _ _ _ (List.nodup_finRange n),
    List.mem_finRange, if_true, disableFaultyReplicas_eq operation hrep hcov,
    Tally.addAll_calls_finRange]
  by_cases hs : Round.Succeeded (openFate env d.config (dropPriv env d.creds).creds path call)
  · rw [if_neg (hrep.succ_iff.mpr hs), if_pos hs]
    rfl
  · have h0 := not_ne_iff.mp (mt hrep.succ_iff.mp hs)
    rw [if_pos h0, if_neg hs, d.config.dropFaulty_of_not_succeeded hs, getFirstError_eq hrep hcov]

/-! ## Requests answered by one replica -/

/-- The round of a search that asks only the replicas of a list. -/
def Config.searched (c : Config n) (env : Env n) (cr : Creds) (call : Fin n → Option Call)
    (l : List (Fin n)) : Round (Fin n) Reply Errno :=
  fun i => if i ∈ l then attempt env cr i (c.guarded call i) else .skipped

/-- Nor in a search. -/
theorem Config.covers_searched (c : Config n) (env : Env n) (cr : Creds)
    (call : Fin n → Option Call) (l : List (Fin n)) : c.Covers (c.searched env cr call l) := by
  intro i hd
  unfold searched
  rw [c.guarded_of_disabled hd, attempt_none, ite_self]

/-- The counters of a search report its round. -/
theorem Config.reports_searched (c : Config n) (env : Env n) (cr : Creds)
    (call : Fin n → Option Call) (l : List (Fin n)) :
    (Tally.addAll (fun i => attempt env cr i (c.guarded call i))
      (fun i => attemptEvents env cr i (c.guarded call i)) l {}).Reports
        (c.searched env cr call l) :=
  Tally.reports_addAll l (fun _ hi => if_pos hi) fun _ hi => if_neg hi

/-- The response of a search: the answer it ended with, or the first error. -/
theorem EndsWith.succeeded_iff {c : Config n} {env : Env n} {cr : Creds}
    {call : Fin n → Option Call} {l : List (Fin n)} {ans : Option (Fin n × Reply)}
    (h : EndsWith (fun i => attempt env cr i (c.guarded call i)) l ans) :
    (c.searched env cr call l).Succeeded ↔ ans.isSome = true := by
  unfold Config.searched
  cases ans with
  | none =>
      simp only [Option.isSome_none, Bool.false_eq_true, iff_false]
      rintro ⟨i, hi⟩
      by_cases hl : i ∈ l
      · simp only [hl, if_true, h i hl] at hi
        cases hi
      · simp [hl] at hi
  | some ar =>
      obtain ⟨hF, l₀, rfl, -⟩ := h
      simp only [Option.isSome_some, iff_true]
      exact ⟨ar.1, by simp [hF]⟩

/-- What is logged does not depend on the cursors. -/
theorem Config.SameButCursors.dropLogs_eq {c c' : Config n} (h : c.SameButCursors c')
    (operation : String) (R : Round (Fin n) Reply Errno) :
    dropLogs operation c' R = dropLogs operation c R := by
  obtain ⟨_, _, rfl⟩ := h
  rfl

/-- Moving the cursors leaves the replicas. -/
theorem Config.SameButCursors.replicas_eq {c c' : Config n} (h : c.SameButCursors c') :
    c'.replicas = c.replicas := by
  obtain ⟨_, _, rfl⟩ := h
  rfl

/-- Moving the cursors leaves the handle table. -/
theorem Config.SameButCursors.tabFd_eq {c c' : Config n} (h : c.SameButCursors c') :
    c'.tabFd = c.tabFd := by
  obtain ⟨_, _, rfl⟩ := h
  rfl

/-- Moving the cursors leaves who may have a part in a round. -/
theorem Config.SameButCursors.covers {c c' : Config n} (h : c.SameButCursors c')
    {R : Round (Fin n) Reply Errno} (hc : c.Covers R) : c'.Covers R := by
  obtain ⟨_, _, rfl⟩ := h
  exact hc

/-- **A request answered by one replica**: the tries it made, whom it asked in them, who
answered. -/
theorem onFirstReplica_spec {operation : String} {call : Config n → Fin n → Option Call}
    {respond : Reply → Response} {env : Env n} {d : Daemon n} {o : Outcome n}
    (h : env.calloc 0 = true) (ho : onFirstReplica operation call respond env d = some o) :
    ∃ ks₁ ks₂ l c' ans, List.range n = ks₁ ++ ks₂ ∧ d.config.choices ks₁ = some (l, c') ∧
      (ans = none → ks₂ = []) ∧
      EndsWith (fun i => attempt env (dropPriv env d.creds).creds i
        (d.config.guarded (call d.config) i)) l ans ∧
      let cr := (dropPriv env d.creds).creds
      let R := d.config.searched env cr (call d.config) l
      o = leave env (c'.dropFaulty R) cr
        ((dropPriv env d.creds).trace ++
          l.flatMap (fun i => attemptEvents env cr i (d.config.guarded (call d.config) i)) ++
          dropLogs operation d.config R)
        (if R.Succeeded then answer respond ans else { ret := firstError R }) := by
  unfold onFirstReplica at ho
  simp only [h, Bool.true_eq_false, if_false, Option.bind_eq_bind, Option.bind_eq_some_iff,
    Prod.exists, Option.some.injEq] at ho
  obtain ⟨c', t, ans, hloop, rfl⟩ := ho
  obtain ⟨ks₁, ks₂, l, hks, hch, hall, hend, rfl⟩ := firstLoop_spec hloop
  have hcur := Config.choices_sameButCursors hch
  refine ⟨ks₁, ks₂, l, c', ans, hks, hch, hall, hend, ?_⟩
  rw [conclude_eq operation env _ _ (d.config.reports_searched env _ _ l)
    (hcur.covers (d.config.covers_searched env _ _ l)), hcur.dropLogs_eq, Tally.addAll_calls]
  rfl

/-- The statistics of the replica that answered. -/
def Config.countAnswer (c : Config n) : Option (Fin n × Reply) → Config n
  | none => c
  | some (i, _) => c.countRead i

/-- Counting the answer of a search disables nobody. -/
@[simp] theorem Config.countAnswer_disabled (c : Config n) (ans : Option (Fin n × Reply))
    (j : Fin n) : ((c.countAnswer ans).replicas j).disabled = (c.replicas j).disabled := by
  cases ans with
  | none => rfl
  | some ar =>
      by_cases hj : j = ar.1
      · subst hj; simp [countAnswer, countRead]
      · simp [countAnswer, countRead, hj]

/-- It leaves the paths. -/
@[simp] theorem Config.countAnswer_path (c : Config n) (ans : Option (Fin n × Reply))
    (j : Fin n) : ((c.countAnswer ans).replicas j).path = (c.replicas j).path := by
  cases ans with
  | none => rfl
  | some ar =>
      by_cases hj : j = ar.1
      · subst hj; simp [countAnswer, countRead]
      · simp [countAnswer, countRead, hj]

/-- It leaves the handle table. -/
@[simp] theorem Config.countAnswer_tabFd (c : Config n) (ans : Option (Fin n × Reply)) :
    (c.countAnswer ans).tabFd = c.tabFd := by
  cases ans <;> rfl

/-- What is logged does not depend on it. -/
theorem dropLogs_countAnswer (operation : String) (c : Config n) (ans : Option (Fin n × Reply))
    (R : Round (Fin n) Reply Errno) :
    dropLogs operation (c.countAnswer ans) R = dropLogs operation c R := by
  unfold dropLogs
  refine if_congr Iff.rfl (List.flatMap_congr ?_) rfl
  intro i _
  cases R i <;> simp [dropLog]

/-- `read` through a good handle. -/
theorem chironRead_spec {fh size : ℕ} {offset : ℤ} {env : Env n} {d : Daemon n} {o : Outcome n}
    {fd : Fin n → ℤ} (hfd : d.config.tabFd fh = some fd) (h : env.calloc 0 = true)
    (ho : chironRead fh size offset env d = some o) :
    ∃ ks₁ ks₂ l c' ans, List.range n = ks₁ ++ ks₂ ∧ d.config.choices ks₁ = some (l, c') ∧
      (ans = none → ks₂ = []) ∧
      EndsWith (fun i => attempt env (dropPriv env d.creds).creds i
        (d.config.guarded (readCall fd size offset) i)) l ans ∧
      let cr := (dropPriv env d.creds).creds
      let R := d.config.searched env cr (readCall fd size offset) l
      o = leave env ((c'.countAnswer ans).dropFaulty R) cr
        ((dropPriv env d.creds).trace ++
          l.flatMap (fun i => attemptEvents env cr i
            (d.config.guarded (readCall fd size offset) i)) ++
          dropLogs "read" d.config R)
        (if R.Succeeded then answer (fun r => { ret := r.ret, out := r.out }) ans
          else { ret := firstError R }) := by
  unfold chironRead at ho
  simp only [hfd, h, Bool.true_eq_false, if_false, Option.bind_eq_bind, Option.bind_eq_some_iff,
    Prod.exists, Option.some.injEq] at ho
  obtain ⟨c', t, ans, hloop, rfl⟩ := ho
  obtain ⟨ks₁, ks₂, l, hks, hch, hall, hend, rfl⟩ := firstLoop_spec hloop
  have hcur := Config.choices_sameButCursors hch
  refine ⟨ks₁, ks₂, l, c', ans, hks, hch, hall, hend, ?_⟩
  have hcov : (c'.countAnswer ans).Covers (d.config.searched env (dropPriv env d.creds).creds
      (readCall fd size offset) l) := fun i hd =>
    hcur.covers (d.config.covers_searched env _ _ l) i (by simpa using hd)
  apply (conclude_eq "read" env _ _ (d.config.reports_searched env _ _ l) hcov _).trans
  rw [dropLogs_countAnswer, hcur.dropLogs_eq, Tally.addAll_calls]
  rfl

end ChironFs
