import ChironFs.Model.Sample
import ChironFs.Spec.Tables

/-!
# The replica list, as `do_mount` reads it

The list is scanned twice: once to count the replicas, once to split it. The second scan passes over
empty components, the first does not.

* `Parsed`: what a complete reading of the list leaves in the configuration.
* `replicaLoop_entered`: what the splitting loop keeps.
* `parsed_gap`: `/a==/b` is counted as three replicas, of which the last never gets a path.
* `parsed_iff`: the reading is complete exactly on the lists without an empty component.
-/

namespace ChironFs

variable {n : ℕ}

/-- **A complete reading** of the replica list: the count is the number of paths, every replica has
one, and the two tables share the replicas out by priority, each in the order of the list. -/
structure Parsed (fs : Path) (c : Config (maxReplica fs)) : Prop where
  count_ends : ∃ rounds i, countRounds fs rounds 0 0 = some i ∧ maxReplica fs = i + 1
  count : maxReplica fs = (tokens fs).length
  named : ∀ i, ∃ p, (c.replicas i).path = some p ∧ (c.replicas i).pathlen = p.length
  priority : ∀ i, (c.replicas i).priority = true ↔
    ∃ p, (components fs)[i.val]? = some p ∧ p.head? = some lowMark
  high_sorted : c.roundRobinHigh.Pairwise (· < ·)
  low_sorted : c.roundRobinLow.Pairwise (· < ·)
  disjoint : c.roundRobinHigh.Disjoint c.roundRobinLow
  once : ∀ i, (c.roundRobinHigh ++ c.roundRobinLow).count i = 1
  sum : c.maxReplicaHigh + c.maxReplicaLow = maxReplica fs

/-- The replica list `/a==/b`. -/
def listGap : Path := [47, 97, 61, 61, 47, 98]

/-- On `/a==/b` there are three replicas, and the third has no path. -/
theorem parsed_gap :
    ∃ c : Config (maxReplica listGap), separator ∈ listGap ∧
      doMount plainMount 0 0 listGap (fun _ => none) = some c ∧ maxReplica listGap = 3 ∧
        (c.replicas ⟨2, by decide⟩).path = none ∧ ¬ Parsed listGap c := by
  refine ⟨_, by decide, rfl, rfl, rfl, ?_⟩
  intro hparsed
  obtain ⟨p, hp, -⟩ := hparsed.named ⟨2, by decide⟩
  cases hp

/-! ## The splitting loop -/

/-- The invariant of the loop besides `FilledTo`: the tables are in order, and the replicas have the
priority of their tokens. -/
structure Config.Entered (c : Config n) (done : List Path) : Prop where
  high_sorted : c.roundRobinHigh.Pairwise (· < ·)
  low_sorted : c.roundRobinLow.Pairwise (· < ·)
  priority : ∀ j : Fin n, (c.replicas j).priority = done[j.val]?.any isLow

/-- One token: the next replica goes to the end of its table. -/
theorem Config.Entered.addReplica {c : Config n} {done : List Path} (hfill : c.FilledTo done.length)
    (hc : c.Entered done) (h : done.length < n) (token p : Path) :
    (c.addReplica ⟨done.length, h⟩ (isLow token) p).Entered (done ++ [token]) := by
  have hhigh : ∀ j ∈ c.roundRobinHigh, j < ⟨done.length, h⟩ := fun j hj =>
    (hfill.path_iff j).mp ((hfill.wellFormed.mem_high j).mp hj).1
  have hlow : ∀ j ∈ c.roundRobinLow, j < ⟨done.length, h⟩ := fun j hj =>
    (hfill.path_iff j).mp ((hfill.wellFormed.mem_low j).mp hj).1
  have hpri : ∀ j : Fin n,
      ((c.addReplica ⟨done.length, h⟩ (isLow token) p).replicas j).priority =
        (done ++ [token])[j.val]?.any isLow := by
    intro j
    by_cases hj : j = ⟨done.length, h⟩
    · subst hj
      simp [Config.addReplica]
    · have hne : j.val ≠ done.length := fun he => hj (Fin.ext he)
      have hget : (done ++ [token])[j.val]? = done[j.val]? := by
        rcases Nat.lt_or_gt_of_ne hne with hlt | hgt
        · exact List.getElem?_append_left hlt
        · rw [List.getElem?_eq_none hgt.le, List.getElem?_eq_none (by simpa using hgt)]
      rw [hget, ← hc.priority j]
      cases isLow token <;> simp [Config.addReplica, Config.enroll, hj]
  cases hl : isLow token with
  | true =>
      rw [hl] at hpri
      refine ⟨hc.high_sorted, ?_, hpri⟩
      exact List.pairwise_append.mpr ⟨hc.low_sorted, List.pairwise_singleton _ _,
        fun j hj k hk => List.mem_singleton.mp hk ▸ hlow j hj⟩
  | false =>
      rw [hl] at hpri
      refine ⟨?_, hc.low_sorted, hpri⟩
      exact List.pairwise_append.mpr ⟨hc.high_sorted, List.pairwise_singleton _ _,
        fun j hj k hk => List.mem_singleton.mp hk ▸ hhigh j hj⟩

/-- The token loop, by induction on the tokens left. -/
theorem replicaLoop_entered {realpath : Path → Option Path} {l done : List Path} {c c' : Config n}
    (hfill : c.FilledTo done.length) (hc : c.Entered done)
    (h : replicaLoop realpath l done.length c = some c') : c'.Entered (done ++ l) := by
  induction l generalizing done c with
  | nil =>
      cases h
      rw [List.append_nil]
      exact hc
  | cons token rest ih =>
      obtain ⟨hi, p, -, hrest⟩ := replicaLoop_cons_eq_some.mp h
      rw [List.append_cons]
      have hlen : (done ++ [token]).length = done.length + 1 := List.length_append
      refine ih ?_ (hc.addReplica hfill hi token p) ?_
      · rw [hlen]
        exact hfill.addReplica hi (isLow token) p
      · rw [hlen]
        exact hrest

/-! ## Complete readings -/

section lists

variable {fs : Path} {menv : MountEnv} {uid gid : ℕ}
  {memory : ℕ → Option (Fin (maxReplica fs) → ℤ)} {c : Config (maxReplica fs)}

theorem doMount_entered (hc : doMount menv uid gid fs memory = some c) : c.Entered (tokens fs) := by
  obtain ⟨size, -, hloop⟩ := exists_loop_of_doMount hc
  have hfill : (blankConfig (maxReplica fs) uid gid size memory).FilledTo ([] : List Path).length :=
    blankConfig_filledTo uid gid size memory
  exact replicaLoop_entered hfill
    ⟨List.Pairwise.nil, List.Pairwise.nil, fun _ => rfl⟩ hloop

/-- **Which replica lists are read completely**: those without an empty component. -/
theorem parsed_iff (hc : doMount menv uid gid fs memory = some c) :
    Parsed fs c ↔ ∀ p ∈ components fs, p ≠ [] := by
  refine ⟨fun h => (length_tokens_eq_iff fs).mp h.count.symm, fun hfs => ?_⟩
  have hm := doMount_mounted hc
  have he := doMount_entered hc
  have hwf := hm.wellFormed
  have hall := hm.allNamed hfs
  have hperm := hwf.perm_finRange hall
  refine ⟨?_, ((length_tokens_eq_iff fs).mpr hfs).symm, fun i => ?_, fun i => ?_, he.high_sorted,
    he.low_sorted, List.disjoint_of_nodup_append hwf.nodup, fun i => ?_, hwf.sum_eq hall⟩
  · exact ⟨fs.length + 1, _, countRounds_eq rfl (Nat.lt_succ_self _), rfl⟩
  · obtain ⟨p, hp⟩ := Option.ne_none_iff_exists'.mp (hall i)
    refine ⟨p, hp, ?_⟩
    rw [pathlen_of_doMount hc i, hp]
    rfl
  · rw [he.priority i, tokens_eq_components hfs, Option.any_eq_true]
    simp only [isLow, decide_eq_true_eq]
  · rw [hperm.count_eq]
    exact List.count_eq_one_of_mem (List.nodup_finRange _) (List.mem_finRange i)

end lists

/-- The list `/a=:/b` is read completely. -/
theorem parsed_iff_listAB :
    ∃ c : Config (maxReplica listAB),
      doMount plainMount 0 0 listAB (fun _ => none) = some c ∧ Parsed listAB c :=
  have hc : doMount plainMount 0 0 listAB (fun _ => none) = some _ := rfl
  ⟨_, hc, (parsed_iff hc).mpr (by decide)⟩

end ChironFs
