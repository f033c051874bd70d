import ChironFs.Results.ReplicaList

/-!
# The replica list as a format

* `ReplicaEntry`: one replica as the user means it; `writeList`: the text that stands for a list of
  them.
* `exists_entries`: every text without an empty component stands for such a list, and
  `entries_unique`: for one only.
* `doMount_mounts_iff`, `doMount_entries`: when `do_mount` comes back, and what it reads.
* `replicaList_round_trip`: the texts and the lists, both ways.
-/

namespace ChironFs

variable {n : ℕ}

/-! ## Entries and their text -/

/-- One replica: where it is, and whether its priority is low. -/
structure ReplicaEntry where
  path : Path
  low : Bool
deriving DecidableEq, Repr

namespace ReplicaEntry

/-- The component that stands for it. -/
def component (r : ReplicaEntry) : Path := if r.low then lowMark :: r.path else r.path

/-- Some component stands for it: no separator is in its path, which does not look like the
component of a low-priority replica, nor like none. -/
def Writable (r : ReplicaEntry) : Prop :=
  separator ∉ r.path ∧ (r.low = false → r.path ≠ [] ∧ r.path.head? ≠ some lowMark)

instance (r : ReplicaEntry) : Decidable r.Writable := by unfold Writable; infer_instance

/-- What a component stands for. -/
def ofComponent (p : Path) : ReplicaEntry := ⟨tokenPath p, isLow p⟩

variable {r : ReplicaEntry}

/-- A replica's component is not empty. -/
theorem component_ne_nil (h : r.Writable) : r.component ≠ [] := by
  unfold component
  split_ifs with hlow
  · exact List.cons_ne_nil _ _
  · exact (h.2 (by simpa using hlow)).1

/-- It has no separator in it. -/
theorem separator_not_mem_component (h : r.Writable) : separator ∉ r.component := by
  unfold component
  split_ifs with hlow
  · exact List.not_mem_cons_of_ne_of_not_mem (by decide) h.1
  · exact h.1

/-- It is read as it was written. -/
theorem ofComponent_component (h : r.Writable) : ofComponent r.component = r := by
  obtain ⟨path, low⟩ := r
  cases low with
  | true => rfl
  | false =>
      have hlow : isLow path = false := decide_eq_false (h.2 rfl).2
      simp [ofComponent, component, tokenPath, hlow]

/-- And written as it was read. -/
theorem component_ofComponent (p : Path) : (ofComponent p).component = p := by
  cases hlow : isLow p with
  | true =>
      obtain ⟨tail, rfl⟩ : ∃ tail, p = lowMark :: tail :=
        List.head?_eq_some_iff.mp (of_decide_eq_true hlow)
      rfl
  | false => simp [ofComponent, component, tokenPath, hlow]

/-- What is read can be written. -/
theorem writable_ofComponent {p : Path} (hne : p ≠ []) (hsep : separator ∉ p) :
    (ofComponent p).Writable := by
  cases hlow : isLow p with
  | true =>
      refine ⟨fun hmem => hsep ?_, fun h => ?_⟩
      · rw [ofComponent, tokenPath, if_pos hlow] at hmem
        exact List.mem_of_mem_tail hmem
      · exact absurd (hlow.symm.trans h) (by decide)
  | false =>
      have hp : tokenPath p = p := if_neg (by simp [hlow])
      refine ⟨?_, fun _ => ⟨?_, ?_⟩⟩
      · rwa [ofComponent, hp]
      · rwa [ofComponent, hp]
      · rw [ofComponent, hp]
        exact of_decide_eq_false hlow

end ReplicaEntry

/-- The text of a list of entries. -/
def writeList (rs : List ReplicaEntry) : Path :=
  [separator].intercalate (rs.map ReplicaEntry.component)

/-- The text `fs` stands for the entries `rs`. -/
def Writes (rs : List ReplicaEntry) (fs : Path) : Prop :=
  rs ≠ [] ∧ (∀ r ∈ rs, r.Writable) ∧ writeList rs = fs

section writes

variable {rs rs' : List ReplicaEntry} {fs : Path}

/-- The components of a list that is written. -/
theorem Writes.components (h : Writes rs fs) :
    components fs = rs.map ReplicaEntry.component := by
  obtain ⟨hne, hw, rfl⟩ := h
  refine List.splitOn_intercalate separator ?_ (by simpa using hne)
  intro p hp
  obtain ⟨r, hr, rfl⟩ := List.mem_map.mp hp
  exact ReplicaEntry.separator_not_mem_component (hw r hr)

/-- None of them is empty. -/
theorem Writes.components_ne_nil (h : Writes rs fs) : ∀ p ∈ ChironFs.components fs, p ≠ [] := by
  rw [h.components]
  intro p hp
  obtain ⟨r, hr, rfl⟩ := List.mem_map.mp hp
  exact ReplicaEntry.component_ne_nil (h.2.1 r hr)

/-- So they are its tokens. -/
theorem Writes.tokens (h : Writes rs fs) : tokens fs = rs.map ReplicaEntry.component := by
  rw [tokens_eq_components h.components_ne_nil, h.components]

/-- There are as many as replicas. -/
theorem Writes.maxReplica_eq (h : Writes rs fs) : maxReplica fs = rs.length := by
  rw [← length_components, h.components, List.length_map]

/-- **A text stands for one list only.** -/
theorem entries_unique (h : Writes rs fs) (h' : Writes rs' fs) : rs' = rs := by
  have hread : ∀ {l : List ReplicaEntry}, Writes l fs →
      (components fs).map ReplicaEntry.ofComponent = l := by
    intro l hl
    rw [hl.components, List.map_map, List.map_congr_left (g := id), List.map_id]
    exact fun r hr => ReplicaEntry.ofComponent_component (hl.2.1 r hr)
  rw [← hread h, ← hread h']

/-- No component has a separator in it. By induction on the bytes of the text. -/
theorem separator_not_mem_of_components {p : Path} (hp : p ∈ components fs) : separator ∉ p := by
  unfold components at hp
  induction fs generalizing p with
  | nil =>
      obtain rfl : p = [] := by simpa using hp
      exact List.not_mem_nil
  | cons b rest ih =>
      rw [List.splitOn_cons_eq_if_modifyHead] at hp
      split_ifs at hp with hb
      · rcases List.mem_cons.mp hp with rfl | hp
        · exact List.not_mem_nil
        · exact ih hp
      · obtain ⟨first, others, hrest⟩ :=
          List.exists_cons_of_ne_nil (List.splitOn_ne_nil separator rest)
        rw [hrest, List.modifyHead_cons] at hp
        rw [hrest] at ih
        rcases List.mem_cons.mp hp with rfl | hp
        · refine List.not_mem_cons_of_ne_of_not_mem ?_ (ih List.mem_cons_self)
          rintro rfl
          exact hb (beq_self_eq_true _)
        · exact ih (List.mem_cons_of_mem first hp)

/-- **Every text without an empty component stands for a list.** -/
theorem exists_entries (hfs : ∀ p ∈ components fs, p ≠ []) : ∃ rs, Writes rs fs := by
  refine ⟨(components fs).map ReplicaEntry.ofComponent, ?_, ?_, ?_⟩
  · exact List.map_eq_nil_iff.not.mpr (List.splitOn_ne_nil separator fs)
  · intro r hr
    obtain ⟨p, hp, rfl⟩ := List.mem_map.mp hr
    exact ReplicaEntry.writable_ofComponent (hfs p hp) (separator_not_mem_of_components hp)
  · rw [writeList, List.map_map, List.map_congr_left (g := id), List.map_id]
    · exact List.intercalate_splitOn separator
    · exact fun p _ => ReplicaEntry.component_ofComponent p

end writes

/-! ## Reading it back -/

section loop

variable {realpath : Path → Option Path} {l done : List Path} {i : ℕ} {c c' : Config n}

/-- The paths the loop has entered after the tokens `done`. By induction on the tokens left. -/
theorem replicaLoop_path
    (hc : ∀ j : Fin n, (c.replicas j).path = done[j.val]?.bind fun t => realpath (tokenPath t))
    (h : replicaLoop realpath l done.length c = some c') (j : Fin n) :
    (c'.replicas j).path = (done ++ l)[j.val]?.bind fun t => realpath (tokenPath t) := by
  induction l generalizing done c with
  | nil =>
      cases h
      rw [List.append_nil]
      exact hc j
  | cons token rest ih =>
      obtain ⟨hi, p, hp, hrest⟩ := replicaLoop_cons_eq_some.mp h
      have hlen : (done ++ [token]).length = done.length + 1 := List.length_append
      rw [List.append_cons]
      refine ih (fun j' => ?_) (hlen ▸ hrest)
      by_cases hj : j' = ⟨done.length, hi⟩
      · subst hj
        simp [Config.addReplica, hp]
      · have hne : j'.val ≠ done.length := fun he => hj (Fin.ext he)
        have hget : (done ++ [token])[j'.val]? = done[j'.val]? := by
          rcases Nat.lt_or_gt_of_ne hne with hlt | hgt
          · exact List.getElem?_append_left hlt
          · rw [List.getElem?_eq_none hgt.le, List.getElem?_eq_none (by simpa using hgt)]
        rw [hget, ← hc j']
        cases isLow token <;> simp [Config.addReplica, Config.enroll, hj]

/-- The loop comes to its end if there is room for the tokens and every path resolves. -/
theorem isSome_replicaLoop_iff (hroom : i + l.length ≤ n) :
    (replicaLoop realpath l i c).isSome = true ↔
      ∀ t ∈ l, (realpath (tokenPath t)).isSome = true := by
  induction l generalizing i c with
  | nil => simp [replicaLoop]
  | cons token rest ih =>
      rw [List.length_cons] at hroom
      rw [replicaLoop, dif_pos (by omega), List.forall_mem_cons]
      cases hp : realpath (tokenPath token) with
      | none => simp
      | some p => simpa using ih (by omega)

end loop

/-- What the replica table says of each replica: its path and whether its priority is low. -/
def Config.entries (c : Config n) : List (Option Path × Bool) :=
  (List.finRange n).map fun i => ((c.replicas i).path, (c.replicas i).priority)

section mount

variable {rs : List ReplicaEntry} {fs : Path} {menv : MountEnv} {uid gid : ℕ}
  {memory : ℕ → Option (Fin (maxReplica fs) → ℤ)}

/-- **When `do_mount` comes back**: the limit is known, it gives a table of fewer than `2 ^ 32` slots,
the memory is there, and every path resolves. -/
theorem doMount_mounts_iff (h : Writes rs fs) :
    (doMount menv uid gid fs memory).isSome = true ↔
      (∃ size, menv.rlimCur.bind (fdBufSizeFor · rs.length) = some size ∧ size.toNat < 2 ^ 32) ∧
        (List.range 4).all menv.calloc = true ∧ ∀ r ∈ rs, (menv.realpath r.path).isSome = true := by
  have hroom : 0 + (tokens fs).length ≤ maxReplica fs := by
    rw [Nat.zero_add]
    exact length_tokens_le fs
  have hpaths : (∀ t ∈ tokens fs, (menv.realpath (tokenPath t)).isSome = true) ↔
      ∀ r ∈ rs, (menv.realpath r.path).isSome = true := by
    rw [h.tokens, List.forall_mem_map]
    refine forall₂_congr fun r hr => ?_
    rw [show tokenPath r.component = r.path from
      congrArg ReplicaEntry.path (ReplicaEntry.ofComponent_component (h.2.1 r hr))]
  rw [doMount, ← hpaths, ← h.maxReplica_eq]
  cases menv.rlimCur with
  | none => simp
  | some rlimCur =>
      cases hsize : fdBufSizeFor rlimCur (maxReplica fs) with
      | none => simp [hsize]
      | some size =>
          have hclears : clears size = true ↔ size.toNat < 2 ^ 32 := decide_eq_true_iff
          simp only [Option.bind_eq_bind, Option.bind_some, hsize, Option.some.injEq,
            exists_eq_left', ← hclears, ← and_assoc, ← Bool.and_eq_true]
          split_ifs with hall
          · simp only [isSome_replicaLoop_iff hroom, hall, true_and]
          · simp only [hall, false_and, Option.isSome_none, Bool.false_eq_true]

/-- **`do_mount` reads back what was written**: the replicas of the configuration are those of the
list the text stands for, in its order, each with its path resolved and with its priority. -/
theorem doMount_entries (h : Writes rs fs) {c : Config (maxReplica fs)}
    (hc : doMount menv uid gid fs memory = some c) :
    c.entries = rs.map fun r => (menv.realpath r.path, r.low) := by
  obtain ⟨size, -, hloop⟩ := exists_loop_of_doMount hc
  have hpath : ∀ j : Fin (maxReplica fs), (c.replicas j).path =
      ([] ++ tokens fs)[j.val]?.bind fun t => menv.realpath (tokenPath t) :=
    replicaLoop_path (fun _ => rfl) hloop
  have hpriority := (doMount_entered hc).priority
  refine List.ext_getElem ?_ fun k hk hk' => ?_
  · rw [Config.entries, List.length_map, List.length_finRange, List.length_map, h.maxReplica_eq]
  · rw [List.length_map] at hk'
    have hr := ReplicaEntry.ofComponent_component (h.2.1 rs[k] (List.getElem_mem hk'))
    have htoken : (tokens fs)[k]? = some rs[k].component := by
      rw [h.tokens, List.getElem?_map, List.getElem?_eq_getElem hk', Option.map_some]
    simp only [Config.entries, List.getElem_map, List.getElem_finRange, hpath, hpriority,
      List.nil_append, Fin.val_cast, htoken, Option.bind_some, Option.any_some]
    exact congrArg (fun r : ReplicaEntry => (menv.realpath r.path, r.low)) hr

/-- **The replica list, written and read**: the texts without an empty component are those that stand
for a list of entries, each for one; on such a text `do_mount` comes back just when nothing outside
fails it, with the entries the text stands for. -/
theorem replicaList_round_trip (fs : Path) (menv : MountEnv) (uid gid : ℕ)
    (memory : ℕ → Option (Fin (maxReplica fs) → ℤ)) :
    ((∀ p ∈ components fs, p ≠ []) ↔ ∃ rs, Writes rs fs) ∧
      ∀ rs, Writes rs fs → (∀ rs', Writes rs' fs → rs' = rs) ∧
        ((doMount menv uid gid fs memory).isSome = true ↔
          (∃ size, menv.rlimCur.bind (fdBufSizeFor · rs.length) = some size ∧
              size.toNat < 2 ^ 32) ∧
            (List.range 4).all menv.calloc = true ∧
            ∀ r ∈ rs, (menv.realpath r.path).isSome = true) ∧
        ∀ c, doMount menv uid gid fs memory = some c →
          c.entries = rs.map fun r => (menv.realpath r.path, r.low) := by
  refine ⟨⟨exists_entries, fun ⟨rs, h⟩ => h.components_ne_nil⟩, fun rs h => ?_⟩
  exact ⟨fun rs' h' => entries_unique h h', doMount_mounts_iff h, fun c hc => doMount_entries h hc⟩

end mount

/-- The entries `/a` and, of low priority, `/b`. -/
def entriesAB : List ReplicaEntry := [⟨[47, 97], false⟩, ⟨[47, 98], true⟩]

example : Writes entriesAB listAB := ⟨by decide, by decide, rfl⟩

end ChironFs
