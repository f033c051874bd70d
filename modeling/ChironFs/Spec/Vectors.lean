import ChironFs.Spec.Outcomes

/-!
# What `read` and `write` see of the handle table

They read their own slot, and of its vector the descriptors of the enabled replicas.

* `Config.withTab`: the same configuration with another handle table.
* `handle_withTab`: a `read` or `write` does the same with both tables when the vectors agree on the
  enabled replicas.
-/

namespace ChironFs

open Posix Replication

variable {n : ℕ}

/-- The same configuration with another handle table. -/
def Config.withTab (tab : ℕ → Option (Fin n → ℤ)) (c : Config n) : Config n :=
  { c with tabFd := tab }

/-- The same outcome with another handle table. -/
def Outcome.withTab (tab : ℕ → Option (Fin n → ℤ)) (o : Outcome n) : Outcome n :=
  { o with daemon := { o.daemon with config := o.daemon.config.withTab tab } }

section withTab

variable {tab : ℕ → Option (Fin n → ℤ)} {c : Config n} {env : Env n} {cr : Creds}

/-! ## Functions that do not read the table -/

/-- The cursor of the high replicas does not read the table. -/
theorem Config.advanceHigh_withTab (k : ℕ) :
    (c.withTab tab).advanceHigh k = (c.advanceHigh k).map (Config.withTab tab) := by
  unfold advanceHigh
  show (if k = 0 then if c.maxReplicaHigh = 0 then none else _ else _) = _
  split_ifs <;> rfl

/-- Nor does the cursor of the low ones. -/
theorem Config.advanceLow_withTab (k : ℕ) :
    (c.withTab tab).advanceLow k = (c.advanceLow k).map (Config.withTab tab) := by
  unfold advanceLow
  show (if k = c.maxReplicaHigh then if c.maxReplicaLow = 0 then none else _ else _) = _
  split_ifs <;> rfl

/-- So the choice is the same whatever the table holds. -/
theorem Config.chooseReplica_withTab (k : ℕ) :
    (c.withTab tab).chooseReplica k = (c.chooseReplica k).map fun p => (p.1, p.2.withTab tab) := by
  unfold chooseReplica
  rw [advanceHigh_withTab]
  cases c.advanceHigh k with
  | none => rfl
  | some c₁ =>
      simp only [Option.map_some, Option.bind_eq_bind, Option.bind_some, advanceLow_withTab]
      cases c₁.advanceLow k with
      | none => rfl
      | some c₂ =>
          simp only [Option.map_some, Option.bind_some]
          show (if k < c₂.maxReplicaHigh then _ else if c₂.maxReplicaLow = 0 then none else _) = _
          split_ifs
          · rw [Option.map_bind]
            rfl
          · rfl
          · rw [Option.map_bind]
            rfl

/-- Disabling one replica after another does not read the table. -/
theorem Config.disableLoop_withTab (operation : String) (errList : Fin n → ℤ) (l : List (Fin n)) :
    (c.withTab tab).disableLoop operation errList l =
      ((c.disableLoop operation errList l).1.withTab tab,
        (c.disableLoop operation errList l).2) := by
  induction l generalizing c with
  | nil => rfl
  | cons i l ih =>
      have hdis : ((c.withTab tab).disableReplica i).1 = (c.disableReplica i).1.withTab tab := rfl
      unfold disableLoop
      show (if (c.replicas i).disabled then _ else if errList i ≠ 0 then _ else _) = _
      split_ifs
      · exact ih
      · simp only [hdis, ih]
        rfl
      · exact ih

/-- Nor does `disable_faulty_replicas`. -/
theorem Config.disableFaultyReplicas_withTab (operation : String) (succCnt failCnt : ℕ)
    (errList : Fin n → ℤ) :
    (c.withTab tab).disableFaultyReplicas operation succCnt failCnt errList =
      ((c.disableFaultyReplicas operation succCnt failCnt errList).1.withTab tab,
        (c.disableFaultyReplicas operation succCnt failCnt errList).2) := by
  unfold disableFaultyReplicas
  split_ifs
  · exact disableLoop_withTab operation errList _
  · rfl

/-- Nor the search for the first error. -/
theorem Config.getFirstError_withTab (errList : Fin n → ℤ) :
    (c.withTab tab).getFirstError errList = c.getFirstError errList := by
  have hloop : ∀ l, (c.withTab tab).firstErrorLoop errList l = c.firstErrorLoop errList l := by
    intro l
    induction l with
    | nil => rfl
    | cons i l ih =>
        rw [firstErrorLoop, firstErrorLoop, ih]
        rfl
  exact hloop _

/-- Nor the common end of the handlers. -/
theorem conclude_withTab (operation : String) (trace : List (Event n)) (t : Tally n)
    (r : Response) :
    conclude operation env (c.withTab tab) cr trace t r =
      (conclude operation env c cr trace t r).withTab tab := by
  unfold conclude
  simp only [Config.disableFaultyReplicas_withTab, Config.getFirstError_withTab]
  split_ifs <;> rfl

/-! ## Loops over the vectors -/

section vectors

variable {call call' : Fin n → Option Call}

/-- A search goes the same way where the calls on enabled replicas are the same. -/
theorem firstLoop_withTab {ks : List ℕ} (h : ∀ i, c.enabled i → call' i = call i) (t : Tally n) :
    firstLoop env cr call' ks (c.withTab tab) t =
      (firstLoop env cr call ks c t).map fun x => (x.1.withTab tab, x.2.1, x.2.2) := by
  induction ks generalizing c t with
  | nil => rfl
  | cons k ks ih =>
      rw [firstLoop, firstLoop, Config.chooseReplica_withTab]
      cases hch : c.chooseReplica k with
      | none => rfl
      | some ic =>
          obtain ⟨i, c₁⟩ := ic
          have hrep := (Config.chooseReplica_sameButCursors hch).replicas_eq
          have h₁ : ∀ i, c₁.enabled i → call' i = call i := by
            intro j hj
            unfold Config.enabled at hj
            exact h j (by rwa [hrep] at hj)
          simp only [Option.map_some]
          show (if (c₁.replicas i).disabled then _ else _) = _
          by_cases hd : (c₁.replicas i).disabled = true
          · rw [if_pos hd, if_pos hd]
            exact ih h₁ t
          · rw [if_neg hd, if_neg hd, h₁ i (by simpa [Config.enabled] using hd)]
            cases call i with
            | none => exact ih h₁ t
            | some cl =>
                simp only
                cases env.call cr i cl with
                | error e => exact ih h₁ _
                | ok r => rfl

end vectors

/-! ## Requests -/

/-- Two tables with the same descriptors of enabled replicas behind a handle. -/
def Config.SameVectors (c : Config n) (tab : ℕ → Option (Fin n → ℤ)) (fh : ℕ) : Prop :=
  Option.Rel (fun fd fd' => ∀ i, c.enabled i → fd' i = fd i) (c.tabFd fh) (tab fh)

variable {d : Daemon n} {fh : ℕ}

/-- `read` sees of the table the descriptors of enabled replicas. -/
theorem chironRead_withTab (size : ℕ) (offset : ℤ) (h : d.config.SameVectors tab fh) :
    chironRead fh size offset env { d with config := d.config.withTab tab } =
      (chironRead fh size offset env d).map (Outcome.withTab tab) := by
  unfold Config.SameVectors at h
  unfold chironRead
  have htab : (d.config.withTab tab).tabFd fh = tab fh := rfl
  simp only [htab]
  generalize tab fh = x, d.config.tabFd fh = y at h ⊢
  cases h with
  | none => rfl
  | @some fd fd' hfd =>
      have hcall : ∀ i, d.config.enabled i →
          readCall fd' size offset i = readCall fd size offset i := by
        intro i hi
        rw [readCall, readCall, hfd i hi]
      simp only
      split_ifs
      · rfl
      · rw [firstLoop_withTab hcall]
        cases firstLoop env (dropPriv env d.creds).creds (readCall fd size offset) (List.range n)
            d.config {} with
        | none => rfl
        | some r =>
            obtain ⟨c, t, ans⟩ := r
            simp only [Option.map_some, Option.bind_eq_bind, Option.bind_some]
            cases ans with
            | none => exact congrArg some (conclude_withTab _ _ _ _)
            | some ar => exact congrArg some (conclude_withTab (c := c.countRead ar.1) _ _ _ _)

/-- The loop of `write` goes the same way where the descriptors of enabled replicas are the same. -/
theorem writeLoop_withTab {fd fd' : Fin n → ℤ} {buf : List UInt8} {offset : ℤ} {l : List (Fin n)}
    (h : ∀ i, c.enabled i → fd' i = fd i) (t : Tally n) (w : ℤ) :
    writeLoop env cr fd' buf offset l (c.withTab tab) t w =
      ((writeLoop env cr fd buf offset l c t w).1.withTab tab,
        (writeLoop env cr fd buf offset l c t w).2) := by
  induction l generalizing c t w with
  | nil => rfl
  | cons i l ih =>
      rw [writeLoop, writeLoop]
      show (if (c.replicas i).disabled = true ∨ fd' i < 0 then _ else _) = _
      by_cases hd : (c.replicas i).disabled = true
      · rw [if_pos (Or.inl hd), if_pos (Or.inl hd)]
        exact ih h t w
      · rw [h i (by simpa [Config.enabled] using hd)]
        split_ifs
        · exact ih h t w
        · simp only
          cases env.call cr i (.pwrite (fd i) buf offset) with
          | error e => exact ih h _ w
          | ok r =>
              have hc : ∀ j, (c.countWrite i).enabled j → fd' j = fd j := by
                intro j hj
                apply h j
                by_cases hji : j = i
                · subst hji
                  simpa [Config.enabled, Config.countWrite] using hj
                · simpa [Config.enabled, Config.countWrite, hji] using hj
              exact ih (c := c.countWrite i) hc _ _

/-- `write` sees of the table the descriptors of enabled replicas. -/
theorem chironWrite_withTab (buf : List UInt8) (offset : ℤ) (h : d.config.SameVectors tab fh) :
    chironWrite fh buf offset env { d with config := d.config.withTab tab } =
      (chironWrite fh buf offset env d).withTab tab := by
  unfold Config.SameVectors at h
  unfold chironWrite
  have htab : (d.config.withTab tab).tabFd fh = tab fh := rfl
  simp only [htab]
  generalize tab fh = x, d.config.tabFd fh = y at h ⊢
  cases h with
  | none => rfl
  | @some fd fd' hfd =>
      simp only
      split_ifs
      · rfl
      · rw [writeLoop_withTab hfd]
        exact conclude_withTab _ _ _ _

/-- **A `read` or `write` with both tables.** -/
theorem handle_withTab {q : Request} (hrel : q.releases = false) (hu : q.uses = some fh)
    (h : d.config.SameVectors tab fh) :
    handle q env { d with config := d.config.withTab tab } =
      (handle q env d).map (Outcome.withTab tab) := by
  cases q with
  | read _ size offset =>
      obtain rfl := Option.some.inj hu
      exact chironRead_withTab size offset h
  | write _ buf offset =>
      obtain rfl := Option.some.inj hu
      exact congrArg some (chironWrite_withTab buf offset h)
  | release => cases hrel
  | _ => cases hu

/-- The vectors agree afterwards: no request enables a replica. -/
theorem Config.SameVectors.handle {q : Request} {o : Outcome n} (h : d.config.SameVectors tab fh)
    (hrel : q.releases = false) (hop : q.opens = false) (ho : handle q env d = some o) :
    o.daemon.config.SameVectors tab fh := by
  unfold SameVectors at h ⊢
  rw [handle_tabFd_eq hrel hop ho]
  generalize tab fh = x, d.config.tabFd fh = y at h ⊢
  cases h with
  | none => exact .none
  | some hfd => exact .some fun i hi => hfd i (enabled_of_enabled ho hi)

end withTab

end ChironFs
