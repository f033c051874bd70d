import ChironFs.Spec.Outcomes

/-!
# The handle table across `open`, `create` and `release`

* `hashFd_lt`: the hash address lies inside the table.
* `fdHashseekfree_free`, `fdHashseekfree_lt`: the slot found is free and inside the bounds of the
  probing; `fdHashseekfree_nonneg_iff`: one is found where one is free.
* `openedFds`, `closedFds`: the descriptors a trace opens and closes.
* `store_nonneg_iff`: when `open` and `create` get a slot.
* `openOutcome_cases`: the three ends of `open` and `create`, with the slot, the vector and the
  descriptors.
-/

namespace ChironFs

open Posix Replication

variable {n : ℕ}

/-! ## Hashing and probing -/

/-- **The hash address lies inside the table.** -/
theorem hashFd_lt {size : UInt64} (h : 0 < size.toNat) (x : UInt32) :
    (hashFd size x).toNat < size.toNat := by
  have hmask : ∀ y : UInt64, (y &&& (size - 1)).toNat < size.toNat := by
    intro y
    have hone : (1 : UInt64) ≤ size := by
      rw [UInt64.le_iff_toNat_le]
      exact h
    have hsub : (size - 1).toNat = size.toNat - 1 := UInt64.toNat_sub_of_le _ _ hone
    rw [UInt64.toNat_and, hsub]
    exact lt_of_le_of_lt Nat.and_le_right (by omega)
  unfold hashFd
  split_ifs
  all_goals
    rw [UInt64.toNat_toUInt32]
    exact lt_of_le_of_lt (Nat.mod_le _ _) (hmask _)

namespace Config

variable {c : Config n} {i : ℕ}

/-- The probing finds a free slot. -/
theorem fdHashseekfree_free (h : 0 ≤ (c.fdHashseekfree i).1) :
    c.tabFd (c.fdHashseekfree i).1.toNat = none := by
  unfold fdHashseekfree at h ⊢
  simp only at h ⊢
  split_ifs at h ⊢ with h₁ h₂
  · simpa [slotUsed] using Probe.free_of_scanFrom_lt h₁
  · simpa [slotUsed] using Probe.free_of_scanFrom_lt h₂
  · simp [CHIRONFS_ERR_TOO_MANY_FOPENS] at h

/-- The probing stays below its two bounds. -/
theorem fdHashseekfree_lt (h : 0 ≤ (c.fdHashseekfree i).1) :
    (c.fdHashseekfree i).1.toNat < max c.fdBufSize.toNat i := by
  unfold fdHashseekfree at h ⊢
  simp only at h ⊢
  split_ifs at h ⊢ with h₁ h₂
  · exact lt_max_of_lt_left (by simpa using h₁)
  · exact lt_max_of_lt_right (by simpa using h₂)
  · simp [CHIRONFS_ERR_TOO_MANY_FOPENS] at h

/-- **The probing is complete**: it finds a cell where one is free. What the first scan walks over
is used up to the end of the table, so a free cell lies before the hash address. -/
theorem fdHashseekfree_nonneg_iff :
    0 ≤ (c.fdHashseekfree i).1 ↔ ∃ k < max c.fdBufSize.toNat i, c.tabFd k = none := by
  refine ⟨fun h => ⟨_, fdHashseekfree_lt h, fdHashseekfree_free h⟩, ?_⟩
  rintro ⟨k, hk, hnone⟩
  have hunused : c.slotUsed k = false := by simp [slotUsed, hnone]
  unfold fdHashseekfree
  simp only
  split_ifs with h₁ h₂
  · exact Int.natCast_nonneg _
  · exact Int.natCast_nonneg _
  · obtain ⟨-, -, hup, -⟩ := Probe.scanFrom_spec c.slotUsed c.fdBufSize.toNat i
    obtain ⟨-, -, hdown, -⟩ := Probe.scanFrom_spec c.slotUsed i 0
    have hused : c.slotUsed k = true := by
      rcases Nat.lt_or_ge k i with hlt | hge
      · exact hdown k (Nat.zero_le k) (by omega)
      · exact hup k hge (by omega)
    rw [hunused] at hused
    cases hused

/-- Storing succeeds where the probing does. -/
theorem fdHashset_nonneg_iff {fd : Fin n → ℤ} :
    0 ≤ (c.fdHashset fd).1 ↔ ∃ v, c.mainFd fd (List.finRange n) = some v ∧
      0 ≤ (c.fdHashseekfree (hashFd c.fdBufSize (UInt32.ofNat v.toNat)).toNat).1 := by
  unfold fdHashset
  cases c.mainFd fd (List.finRange n) with
  | none => simp
  | some v =>
      simp only [Option.some.injEq, exists_eq_left']
      split_ifs with h
      · rfl
      · rfl

/-- The slot a vector gets goes by the descriptors of the enabled replicas. -/
theorem fdHashset_fst_congr {fd fd' : Fin n → ℤ}
    (h : ∀ i, c.enabled i → fd' i = fd i) : (c.fdHashset fd').1 = (c.fdHashset fd).1 := by
  have hmain : ∀ l, c.mainFd fd' l = c.mainFd fd l := by
    intro l
    induction l with
    | nil => rfl
    | cons i l ih =>
        rw [mainFd, mainFd, ih]
        by_cases hen : (c.replicas i).disabled = false
        · rw [h i hen]
        · rw [if_neg fun hi => hen hi.1, if_neg fun hi => hen hi.1]
  unfold fdHashset
  rw [hmain]
  cases c.mainFd fd (List.finRange n) with
  | none => rfl
  | some d =>
      simp only
      split_ifs <;> rfl

/-- The slot that is given was free. -/
theorem fdHashset_free {fd : Fin n → ℤ} (h : 0 ≤ (c.fdHashset fd).1) :
    c.tabFd (c.fdHashset fd).1.toNat = none := by
  unfold fdHashset at h ⊢
  cases hm : c.mainFd fd (List.finRange n) with
  | none => simp [hm] at h
  | some d =>
      simp only [hm] at h ⊢
      split_ifs at h ⊢ with hge
      · exact fdHashseekfree_free hge
      · exact fdHashseekfree_free h

/-- It lies inside the table. -/
theorem fdHashset_lt (hsize : 0 < c.fdBufSize.toNat) {fd : Fin n → ℤ}
    (h : 0 ≤ (c.fdHashset fd).1) : (c.fdHashset fd).1.toNat < c.fdBufSize.toNat := by
  unfold fdHashset at h ⊢
  cases hm : c.mainFd fd (List.finRange n) with
  | none => simp [hm] at h
  | some d =>
      simp only [hm] at h ⊢
      split_ifs at h ⊢ with hge
      · exact (fdHashseekfree_lt hge).trans_eq (max_eq_left (hashFd_lt hsize _).le)
      · exact (fdHashseekfree_lt h).trans_eq (max_eq_left (hashFd_lt hsize _).le)

end Config

/-! ## Descriptors in a trace -/

/-- What a trace opened, in two parts. -/
@[simp] theorem openedFds_append (l₁ l₂ : List (Event n)) :
    openedFds (l₁ ++ l₂) = openedFds l₁ ++ openedFds l₂ := List.filterMap_append

/-- What it closed, in two parts. -/
@[simp] theorem closedFds_append (l₁ l₂ : List (Event n)) :
    closedFds (l₁ ++ l₂) = closedFds l₁ ++ closedFds l₂ := List.filterMap_append

/-- Events about no replica open nothing. -/
theorem openedFds_of_silent {l : List (Event n)} (h : ∀ ev ∈ l, ev.isSilent = true) :
    openedFds l = [] := by
  apply List.filterMap_eq_nil_iff.mpr
  intro ev hev
  have := h ev hev
  cases ev <;> first | rfl | cases this

/-- They close nothing. -/
theorem closedFds_of_silent {l : List (Event n)} (h : ∀ ev ∈ l, ev.isSilent = true) :
    closedFds l = [] := by
  apply List.filterMap_eq_nil_iff.mpr
  intro ev hev
  have := h ev hev
  cases ev <;> first | rfl | cases this

section quiet

variable (env : Env n) (c : Config n) (cr : Creds) (operation : String)
  (R : Round (Fin n) Reply Errno)

/-- `drop_priv` opens nothing. -/
@[simp] theorem openedFds_dropPriv : openedFds (dropPriv env cr).trace = [] :=
  openedFds_of_silent fun _ h => Event.isSilent_of_isCred (isCred_of_mem_dropPriv h)

/-- It closes nothing. -/
@[simp] theorem closedFds_dropPriv : closedFds (dropPriv env cr).trace = [] :=
  closedFds_of_silent fun _ h => Event.isSilent_of_isCred (isCred_of_mem_dropPriv h)

/-- `reacquire_priv` opens nothing. -/
@[simp] theorem openedFds_reacquirePriv : openedFds (reacquirePriv env c cr).trace = [] :=
  openedFds_of_silent fun _ h => Event.isSilent_of_isCred (isCred_of_mem_reacquirePriv h)

/-- It closes nothing. -/
@[simp] theorem closedFds_reacquirePriv : closedFds (reacquirePriv env c cr).trace = [] :=
  closedFds_of_silent fun _ h => Event.isSilent_of_isCred (isCred_of_mem_reacquirePriv h)

/-- Disabling opens nothing. -/
@[simp] theorem openedFds_dropLogs : openedFds (dropLogs operation c R) = [] :=
  openedFds_of_silent fun _ h => isSilent_of_mem_dropLogs h

/-- It closes nothing. -/
@[simp] theorem closedFds_dropLogs : closedFds (dropLogs operation c R) = [] :=
  closedFds_of_silent fun _ h => isSilent_of_mem_dropLogs h

/-- Looking for a slot opens nothing. -/
@[simp] theorem openedFds_hashLogs (fd : Fin n → ℤ) : openedFds (c.fdHashset fd).2.2 = [] :=
  openedFds_of_silent fun _ h => by rw [c.fdHashset_logs fd h]; rfl

/-- It closes nothing. -/
@[simp] theorem closedFds_hashLogs (fd : Fin n → ℤ) : closedFds (c.fdHashset fd).2.2 = [] :=
  closedFds_of_silent fun _ h => by rw [c.fdHashset_logs fd h]; rfl

end quiet

/-! ## `open` and `create` -/

/-- The descriptor a fate stands for. -/
def fateFd (i : Fin n) : Fate Reply Errno → Option (Fin n × ℤ)
  | .ok r => some (i, r.ret)
  | _ => none

/-- The descriptors of a round of `open` or `create`. -/
def roundFds (R : Round (Fin n) Reply Errno) : List (Fin n × ℤ) :=
  (List.finRange n).filterMap fun i => fateFd i (R i)

/-- The descriptors of a round are those its replicas answered with. -/
theorem mem_roundFds {R : Round (Fin n) Reply Errno} {i : Fin n} {v : ℤ} :
    (i, v) ∈ roundFds R ↔ ∃ r, R i = .ok r ∧ v = r.ret := by
  simp only [roundFds, List.mem_filterMap, List.mem_finRange, true_and]
  constructor
  · rintro ⟨j, hj⟩
    cases hR : R j with
    | ok r =>
        rw [hR] at hj
        cases hj
        exact ⟨r, hR, rfl⟩
    | _ => rw [hR] at hj; cases hj
  · rintro ⟨r, hR, rfl⟩
    exact ⟨i, by rw [hR]; rfl⟩

/-- A descriptor is kept with its replica. -/
theorem fst_of_fateFd {i : Fin n} {f : Fate Reply Errno} {p : Fin n × ℤ} (h : fateFd i f = some p) :
    p.1 = i := by
  cases f with
  | ok r => cases h; rfl
  | _ => cases h

/-- Each replica has at most one. -/
theorem roundFds_nodup (R : Round (Fin n) Reply Errno) : (roundFds R).Nodup :=
  (List.nodup_finRange n).filterMap fun _ _ _ h h' =>
    (fst_of_fateFd h).symm.trans (fst_of_fateFd h')

section opening

variable {q : Request} {env : Env n} {d : Daemon n}

/-- The descriptor of a successful `open` or `creat`. -/
theorem openedFd_of_opens (hop : q.opens = true) {i : Fin n} {c : Call}
    (hask : q.ask env d.config i = some c) (cr : Creds) (res : Except Errno Reply) :
    Event.openedFd (.call cr i c res) = match res with
      | .ok r => some (i, r.ret)
      | .error _ => none := by
  have hcall := (Request.ask_eq_some_iff.mp hask).2
  cases q with
  | «open» | create =>
      obtain ⟨fname, -, rfl⟩ := Option.map_eq_some_iff.mp hcall
      cases res <;> rfl
  | _ => cases hop

/-- The descriptor `open` or `create` gets from one replica. -/
theorem openedFds_attemptEvents (hop : q.opens = true) (i : Fin n) :
    openedFds (attemptEvents env (dropPriv env d.creds).creds i (q.ask env d.config i)) =
      (fateFd i (q.round env d i)).toList := by
  cases hask : q.ask env d.config i with
  | none =>
      have hR : ∀ r, q.round env d i ≠ .ok r := fun r hr => by
        obtain ⟨c, hc, -⟩ := Request.round_eq_ok_iff.mp hr
        rw [hask] at hc
        cases hc
      cases h : q.round env d i with
      | ok r => exact absurd h (hR r)
      | _ => rfl
  | some c =>
      have hev := openedFd_of_opens hop hask (dropPriv env d.creds).creds
        (env.call (dropPriv env d.creds).creds i c)
      simp only [attemptEvents, openedFds, List.filterMap_cons, hev, List.filterMap_nil]
      cases henv : env.call (dropPriv env d.creds).creds i c with
      | ok r => rw [Request.round_eq_ok_iff.mpr ⟨c, hask, henv⟩]; rfl
      | error e => rw [Request.round_eq_failed_iff.mpr (Or.inl ⟨c, hask, henv⟩)]; rfl

/-- The calls of `open` and `create` open the descriptors of their round. -/
theorem openedFds_calls (hop : q.opens = true) :
    openedFds ((List.finRange n).flatMap fun i =>
      attemptEvents env (dropPriv env d.creds).creds i (q.ask env d.config i)) =
        roundFds (q.round env d) := by
  rw [openedFds, List.filterMap_flatMap, roundFds, List.filterMap_eq_flatMap_toList]
  exact List.flatMap_congr fun i _ => openedFds_attemptEvents hop i

/-- They close none. -/
theorem closedFds_calls :
    closedFds ((List.finRange n).flatMap fun i =>
      attemptEvents env (dropPriv env d.creds).creds i (q.ask env d.config i)) = [] := by
  rw [closedFds, List.filterMap_flatMap, List.flatMap_eq_nil_iff]
  intro i _
  cases q.ask env d.config i <;> rfl

/-- Closing in a loop opens nothing. -/
theorem openedFds_closeOpened (c : Config n) (cr : Creds) (fd : Fin n → ℤ) (l : List (Fin n)) :
    openedFds (closeOpened env c cr fd l) = [] := by
  apply List.filterMap_eq_nil_iff.mpr
  intro ev hev
  obtain ⟨_, -, -, rfl⟩ := mem_closeOpened hev
  rfl

/-- After the round, the enabled replicas with a descriptor are those that answered. -/
theorem enabled_and_fdVector_iff (hop : q.opens = true) (i : Fin n) :
    ((d.config.dropFaulty (q.round env d)).replicas i).disabled = false ∧
      fdVector (q.round env d) i ≥ 0 ↔ (q.round env d i).isOk = true := by
  rw [← Bool.not_eq_true, Config.dropFaulty_disabled]
  cases hR : q.round env d i with
  | skipped =>
      have := (Request.round_eq_skipped_iff.mp hR).2 hop
      simp [fdVector, hR, fdEntry, Config.not_enabled_iff.mp this]
  | failed e => simp [fdVector, hR, fdEntry]
  | ok r =>
      have hcov : ¬ (d.config.replicas i).disabled = true := fun hd => by
        rw [Request.covers_round env d q i hd] at hR
        cases hR
      have hdrop : ¬ (q.round env d).Drops i := Round.not_drops_of_ok (by rw [hR]; rfl)
      simp [fdVector, hR, fdEntry, hcov, hdrop]

/-- When there is no slot, exactly what was opened is closed. -/
theorem closedFds_closed (hop : q.opens = true) :
    closedFds (q.closed env d) = roundFds (q.round env d) := by
  have hmem : ∀ i, ((q.store env d).2.1.replicas i).disabled = false ∧
      fdVector (q.round env d) i ≥ 0 ↔ (q.round env d i).isOk = true := by
    intro i
    rw [Request.store, Config.fdHashset_replicas]
    exact enabled_and_fdVector_iff hop i
  unfold Request.closed roundFds
  induction List.finRange n with
  | nil => rfl
  | cons i is ih =>
      rw [closeOpened, List.filterMap_cons]
      by_cases h : (q.round env d i).isOk = true
      · obtain ⟨r, hr⟩ := Fate.isOk_iff.mp h
        rw [if_pos ((hmem i).mpr h)]
        simp only [closedFds, List.filterMap_cons, Event.closedFd, hr, fateFd, fdVector, fdEntry]
        exact congrArg _ ih
      · rw [if_neg ((hmem i).not.mpr h), ih]
        cases hR : q.round env d i with
        | ok r => rw [hR] at h; exact absurd rfl h
        | _ => rfl

/-- What is hashed is the first descriptor opened. -/
theorem mainFd_eq (hop : q.opens = true) (l : List (Fin n)) :
    (d.config.dropFaulty (q.round env d)).mainFd (fdVector (q.round env d)) l =
      (l.filterMap fun i => fateFd i (q.round env d i)).head?.map Prod.snd := by
  induction l with
  | nil => rfl
  | cons i is ih =>
      rw [Config.mainFd]
      by_cases h : (q.round env d i).isOk = true
      · obtain ⟨r, hr⟩ := Fate.isOk_iff.mp h
        rw [if_pos ((enabled_and_fdVector_iff hop i).mpr h)]
        simp [fateFd, hr, fdVector, fdEntry]
      · rw [if_neg ((enabled_and_fdVector_iff hop i).not.mpr h), ih]
        cases hR : q.round env d i with
        | ok r => rw [hR] at h; exact absurd rfl h
        | _ => simp [fateFd, hR]

/-- **When `open` and `create` get a slot** for what they opened: when a cell is free among those
probed from the hash of the first descriptor. -/
theorem store_nonneg_iff (hop : q.opens = true) :
    0 ≤ (q.store env d).1 ↔ ∃ p, (roundFds (q.round env d)).head? = some p ∧
      ∃ k < max d.config.fdBufSize.toNat
        (hashFd d.config.fdBufSize (UInt32.ofNat p.2.toNat)).toNat, d.config.tabFd k = none := by
  rw [Request.store, Config.fdHashset_nonneg_iff, mainFd_eq hop]
  simp only [Config.fdHashseekfree_nonneg_iff, Option.map_eq_some_iff]
  constructor
  · rintro ⟨_, ⟨p, hp, rfl⟩, hfree⟩
    exact ⟨p, hp, hfree⟩
  · rintro ⟨p, hp, hfree⟩
    exact ⟨p.2, ⟨p, hp, rfl⟩, hfree⟩

/-- In a table with a free slot there is a cell for what somebody opened. -/
theorem store_nonneg_of_free (hop : q.opens = true) (hs : (q.round env d).Succeeded)
    (hfree : ∃ k < d.config.fdBufSize.toNat, d.config.tabFd k = none) :
    0 ≤ (q.store env d).1 := by
  obtain ⟨i, r, hr⟩ := Round.succeeded_iff.mp hs
  have hne : roundFds (q.round env d) ≠ [] := List.ne_nil_of_mem (mem_roundFds.mpr ⟨r, hr, rfl⟩)
  obtain ⟨k, hk, hnone⟩ := hfree
  exact (store_nonneg_iff hop).mpr
    ⟨_, List.head?_eq_some_head hne, k, lt_max_of_lt_left hk, hnone⟩

/-- The descriptors `open` and `create` get. -/
theorem openedFds_openOutcome (env : Env n) (d : Daemon n) (hop : q.opens = true) :
    openedFds (q.openOutcome env d).trace = roundFds (q.round env d) := by
  unfold Request.openOutcome
  simp only
  split_ifs
  all_goals
    simp only [leave, openedFds_append, openedFds_calls hop, openedFds_dropPriv,
      openedFds_reacquirePriv, openedFds_dropLogs, Request.store, openedFds_hashLogs,
      Request.closed, openedFds_closeOpened, List.nil_append, List.append_nil]

/-- What `open` and `create` return when somebody opened the file. -/
theorem ret_openOutcome (hs : (q.round env d).Succeeded) :
    (q.openOutcome env d).response.ret = if (q.store env d).1 < 0 then EMFILE.neg else 0 := by
  unfold Request.openOutcome
  simp only [if_pos hs]
  split_ifs <;> rfl

/-- **The three ends of `open` and `create`.** Nobody opened the file; or there is no slot, and
everything opened is closed again; or the vector went into a free slot. -/
theorem openOutcome_cases (env : Env n) (d : Daemon n) (hop : q.opens = true) :
    (¬ (q.round env d).Succeeded ∧
        (q.openOutcome env d).response.ret = firstError (q.round env d) ∧
        (q.openOutcome env d).daemon.config.tabFd = d.config.tabFd ∧
        closedFds (q.openOutcome env d).trace = roundFds (q.round env d)) ∨
      ((q.round env d).Succeeded ∧ (q.openOutcome env d).response.ret = EMFILE.neg ∧
        (q.openOutcome env d).daemon.config.tabFd = d.config.tabFd ∧
        closedFds (q.openOutcome env d).trace = roundFds (q.round env d)) ∨
      ((q.round env d).Succeeded ∧ (q.openOutcome env d).response.ret = 0 ∧
        closedFds (q.openOutcome env d).trace = [] ∧
        ∃ fh, (q.openOutcome env d).fh = some fh ∧ d.config.tabFd fh = none ∧
          (0 < d.config.fdBufSize.toNat → fh < d.config.fdBufSize.toNat) ∧
          (q.openOutcome env d).daemon.config.tabFd =
            Function.update d.config.tabFd fh (some (fdVector (q.round env d)))) := by
  have hcases := (d.config.dropFaulty (q.round env d)).fdHashset_cases (fdVector (q.round env d))
  unfold Request.openOutcome
  by_cases hs : (q.round env d).Succeeded
  · simp only [if_pos hs]
    split_ifs with hfull
    · refine Or.inr (Or.inl ⟨hs, rfl, ?_, ?_⟩)
      · rcases hcases with ⟨-, h⟩ | ⟨hge, -⟩
        · show (q.store env d).2.1.tabFd = _
          rw [Request.store, h]
          rfl
        · exact absurd hfull (not_lt.mpr hge)
      · simp only [leave, closedFds_append, closedFds_calls, closedFds_dropPriv,
          closedFds_reacquirePriv, closedFds_dropLogs, closedFds_closed hop, List.nil_append,
          List.append_nil]
        rw [Request.store, closedFds_hashLogs, List.nil_append]
    · refine Or.inr (Or.inr ⟨hs, rfl, ?_, (q.store env d).1.toNat, rfl, ?_, ?_, ?_⟩)
      · simp only [leave, closedFds_append, closedFds_calls, closedFds_dropPriv,
          closedFds_reacquirePriv, closedFds_dropLogs, List.nil_append, List.append_nil]
        rw [Request.store, closedFds_hashLogs]
      · exact Config.fdHashset_free (c := d.config.dropFaulty (q.round env d)) (not_lt.mp hfull)
      · exact fun hsize => Config.fdHashset_lt (c := d.config.dropFaulty (q.round env d)) hsize
          (not_lt.mp hfull)
      · rcases hcases with ⟨hlt, -⟩ | ⟨-, h⟩
        · exact absurd hlt hfull
        · show (q.store env d).2.1.tabFd = _
          rw [Request.store, h]
          rfl
  · simp only [if_neg hs]
    refine Or.inl ⟨hs, rfl, rfl, ?_⟩
    have hnil : roundFds (q.round env d) = [] := by
      apply List.filterMap_eq_nil_iff.mpr
      intro i _
      cases hR : q.round env d i with
      | ok r => exact absurd (Round.succeeded_of_eq_ok hR) hs
      | _ => rfl
    simp only [leave, closedFds_append, closedFds_calls, closedFds_dropPriv,
      closedFds_reacquirePriv, closedFds_dropLogs, List.append_nil, hnil]

end opening

/-! ## The other requests -/

section others

variable {q : Request} {env : Env n} {d : Daemon n} {o : Outcome n}

/-- `mknod` closes what it opens, and the other requests open nothing. -/
theorem openedFds_events (hop : q.opens = false) (i : Fin n) :
    openedFds (q.events env d i) = closedFds (q.events env d i) := by
  rcases Request.events_cases env d q i with ⟨-, h⟩ | ⟨c, e, -, -, h⟩ |
    ⟨c, r, -, -, ⟨hc, h⟩ | ⟨hc, -, -, h⟩⟩
  all_goals rw [h]
  · rfl
  · cases c <;> rfl
  · rw [hop] at hc
    cases c <;> first | rfl | cases hc
  · cases c <;> first | rfl | cases hc

/-- A request that is neither `open`, `create` nor `release` closes what it opens. -/
theorem Served.openedFds_eq (hop : q.opens = false) {tried : List (Fin n)}
    (h : Served q env d tried o) : openedFds o.trace = closedFds o.trace := by
  obtain ⟨tail, htr, hnil, -⟩ := h.trace
  rw [htr, hnil hop]
  simp only [openedFds_append, closedFds_append, openedFds_dropPriv, closedFds_dropPriv,
    openedFds_reacquirePriv, closedFds_reacquirePriv, openedFds_dropLogs, closedFds_dropLogs]
  have hcalls : openedFds (tried.flatMap (q.events env d)) =
      closedFds (tried.flatMap (q.events env d)) := by
    rw [openedFds, closedFds, List.filterMap_flatMap, List.filterMap_flatMap]
    exact List.flatMap_congr fun i _ => openedFds_events hop i
  rw [hcalls]
  rfl

/-- An early exit opens nothing. -/
theorem openedFds_earlyOutcome (e : Errno) : openedFds (earlyOutcome env d e).trace = [] := by
  simp [earlyOutcome, leave]

/-- It closes nothing. -/
theorem closedFds_earlyOutcome (e : Errno) : closedFds (earlyOutcome env d e).trace = [] := by
  simp [earlyOutcome, leave]

/-- `release` opens nothing. -/
theorem openedFds_releaseOutcome (fh : ℕ) (fd : Fin n → ℤ) :
    openedFds (releaseOutcome env d fh fd).trace = [] := by
  simp only [releaseOutcome, leave, openedFds_append, openedFds_dropPriv,
    openedFds_reacquirePriv, List.nil_append, List.append_nil]
  rw [openedFds, List.filterMap_map]
  exact List.filterMap_eq_nil_iff.mpr fun _ _ => rfl

/-- What `release` closes. -/
theorem closedFds_releaseOutcome (fh : ℕ) (fd : Fin n → ℤ) :
    closedFds (releaseOutcome env d fh fd).trace =
      ((List.finRange n).filter (d.config.closes fd)).map fun i => (i, fd i) := by
  simp only [releaseOutcome, leave, closedFds_append, closedFds_dropPriv,
    closedFds_reacquirePriv, List.nil_append, List.append_nil]
  rw [closedFds, List.filterMap_map]
  exact congrFun (List.filterMap_eq_map (f := fun i => (i, fd i))) _

end others

end ChironFs
