import ChironFs.Model.Sample
import ChironFs.Spec.Control

/-!
# The path `chironctl` prints

The server sends a path without its terminating NUL, and `get_path` stores what it reads and nothing
behind it.

* `Buffer.string_eq_some_iff`: when the string at the start of a block is what was stored there.
* `printedPath_garbage`: a path of two bytes printed with a third.
* `printedPath_iff`: when the string `get_path` returns is the server's path.
-/

namespace ChironFs

variable {n : ℕ}

/-- **When a block that begins with `p` holds the string `p`**: the byte behind is a NUL. -/
theorem Buffer.string_eq_some_iff {b : Buffer} (hnul : 0 ∉ b.filled) :
    b.string = some b.filled ↔ b.rest.head? = some 0 := by
  have hne : ∀ x ∈ b.filled, decide (x ≠ 0) = true := fun x hx =>
    decide_eq_true fun h => hnul (h ▸ hx)
  unfold Buffer.string
  cases hrest : b.rest with
  | nil => simp [hnul]
  | cons x rest =>
      rw [List.head?_cons, Option.some.injEq]
      constructor
      · intro h
        split_ifs at h
        have htake := Option.some.inj h
        rw [List.takeWhile_append_of_pos hne] at htake
        by_contra hx
        rw [List.takeWhile_cons_of_pos (by simpa using hx)] at htake
        simpa using congrArg List.length htake
      · rintro rfl
        rw [if_pos (by simp), List.takeWhile_append_of_pos hne, List.takeWhile_cons_of_neg (by simp),
          List.append_nil]

/-- The byte behind the path is what was in the heap there, if the block goes so far. -/
theorem head?_rest (heap : ℕ → UInt8) (len : ℕ) :
    (((List.range (len * 2)).map heap).drop len).head? = some 0 ↔ 0 < len ∧ heap len = 0 := by
  rw [List.head?_drop, List.getElem?_map]
  rcases Nat.eq_zero_or_pos len with rfl | hpos
  · simp
  · rw [List.getElem?_range (by omega)]
    simp [hpos]

/-- With other bytes than NULs in the memory, the path `/a` is printed as `/aX`. -/
theorem printedPath_garbage :
    ∃ b, getPath lp64 (fun k => if k = 3 then 0 else 88) (served lp64 twoReplicas) 0 {} =
        some (b, {}) ∧ (twoReplicas.replicas 0).path = some [47, 97] ∧
          b.string = some [47, 97, 88] := by
  have hc : twoReplicas.Sendable lp64 := ⟨by decide, by decide, by decide⟩
  exact ⟨_, getPath_served hc 0, rfl, by decide⟩

/-- **The path `chironctl` prints.** The string that `get_path` returns is the server's path, and
lies in the block, exactly if the path is not empty and the byte of the new block behind it happens
to be a NUL. -/
theorem printedPath_iff {abi : Abi} (heap : ℕ → UInt8) {c : Config n} (hc : c.Sendable abi)
    {i : Fin n} {p : Path} (hp : (c.replicas i).path = some p)
    (hlen : (c.replicas i).pathlen = p.length) (hnul : 0 ∉ p) :
    ∃ b, getPath abi heap (served abi c) i {} = some (b, {}) ∧
      (b.string = some p ↔ p ≠ [] ∧ heap p.length = 0) := by
  refine ⟨_, getPath_served hc i, ?_⟩
  have hfilled : (Query.pathBuffer heap (c.replicas i)).filled = p := by
    rw [Query.pathBuffer, hp, hlen]
    exact List.take_length
  have hstring := Buffer.string_eq_some_iff (b := Query.pathBuffer heap (c.replicas i))
    (by rw [hfilled]; exact hnul)
  rw [hfilled] at hstring
  rw [hstring, Query.pathBuffer, hlen, head?_rest, List.length_pos_iff]

/-- With NULs in the memory, the path `/b` is printed. -/
theorem printedPath_iff_two :
    ∃ b, getPath lp64 (fun _ => 0) (served lp64 twoReplicas) 1 {} = some (b, {}) ∧
      b.string = some [47, 98] := by
  have hc : twoReplicas.Sendable lp64 := ⟨by decide, by decide, by decide⟩
  have hp : (twoReplicas.replicas 1).path = some [47, 98] := rfl
  obtain ⟨b, hb, hiff⟩ := printedPath_iff (fun _ => 0) hc hp rfl (by decide)
  exact ⟨b, hb, hiff.mpr ⟨by decide, rfl⟩⟩

end ChironFs
