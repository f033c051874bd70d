import ChironFs.Model.Sample
import ChironFs.Spec.Control
import ChironFs.Spec.Tables

/-!
# What `chironctl` learns

* `queries_round_trip`: every sequence of queries is answered with the values of the configuration,
  one round of the server for each, and after each no byte is left in either direction.
* `chironctl_prints`: so `chironctl` prints the configuration.
* `sendable_of_doMount`: a configuration that `do_mount` builds can be sent.
-/

namespace ChironFs

variable {n : ℕ}

/-- `do_mount` counts the bytes of the paths; that the counts fit is what their types say. -/
theorem sendable_of_doMount {env : MountEnv} {uid gid : ℕ} {fs : Path}
    {memory : ℕ → Option (Fin (maxReplica fs) → ℤ)} {c : Config (maxReplica fs)} {abi : Abi}
    (h : doMount env uid gid fs memory = some c) (hn : maxReplica fs < 256 ^ abi.int)
    (hlen : ∀ i, (c.replicas i).pathlen < 256 ^ abi.size) : c.Sendable abi where
  replicas_lt := hn
  pathlen_lt := hlen
  pathlen_le i := (pathlen_of_doMount h i).le

/-- **Every query is answered, and nothing is left over**: on one connection, whatever is asked and
in whatever order, the server takes one round for each query; the client gets the value of the
configuration; and after each the connection is as it was before. -/
theorem queries_round_trip (abi : Abi) (heap : ℕ → UInt8) {c : Config n} (hc : c.Sendable abi)
    (qs : List (Query n)) :
    converse abi heap c qs {} = some (qs.map fun q => (q.answer heap c, {})) := by
  induction qs with
  | nil => rfl
  | cons q qs ih =>
      have hask : q.ask abi heap (served abi c) {} = some (q.answer heap c, {}) := ask_served hc q
      simp only [converse, hask, ih, Option.bind_eq_bind, Option.bind_some, List.map_cons]

/-- Both replicas of a small daemon can be asked about. -/
theorem queries_round_trip_two :
    twoReplicas.Sendable lp64 ∧
      converse lp64 (fun _ => 0) twoReplicas [.maxReplica, .path 1, .status 0] {} =
        some
          [(.number 2, {}), (.path { filled := [47, 98], rest := [0, 0] }, {}),
            (.number 0, {})] := by
  have hc : twoReplicas.Sendable lp64 := ⟨by decide, by decide, by decide⟩
  exact ⟨hc, queries_round_trip lp64 (fun _ => 0) hc [.maxReplica, .path 1, .status 0]⟩

/-! ## The client's own sequence -/

section Chironctl

variable {abi : Abi} {heap : ℕ → UInt8} {c : Config n}

/-- What there is to print about a replica. -/
def Config.report (heap : ℕ → UInt8) (c : Config n) (i : Fin n) : Report where
  path := Query.pathBuffer heap (c.replicas i)
  status := (c.replicas i).disabled.toNat
  priority := (c.replicas i).priority.toNat
  totalRead := (c.replicas i).totrd.toNat
  totalWrite := (c.replicas i).totwr.toNat

/-- A function that returns what a query asks for returns the answer to that query. -/
theorem eq_of_map_number {o : Option (ℕ × Conn)} {v : ℕ} {k : Conn}
    (h : o.map (Prod.map QueryAnswer.number id) = some (.number v, k)) : o = some (v, k) := by
  obtain ⟨⟨w, k'⟩, rfl, heq⟩ := Option.map_eq_some_iff.mp h
  cases heq
  rfl

/-- The query loop, by induction on the replicas left. -/
theorem reportLoop_served (hc : c.Sendable abi) {left i : ℕ} (h : i + left = n) :
    reportLoop abi heap (served abi c) left i {} =
      some (((List.finRange n).drop i).map (c.report heap), {}) := by
  induction left generalizing i with
  | zero =>
      have hdrop : (List.finRange n).drop i = [] := List.drop_eq_nil_of_le (by simp; omega)
      rw [hdrop]
      rfl
  | succ left ih =>
      have hi : i < n := by omega
      have hdrop : (List.finRange n).drop i = ⟨i, hi⟩ :: (List.finRange n).drop (i + 1) := by
        rw [List.drop_eq_getElem_cons (by simpa using hi), List.getElem_finRange]
        rfl
      have hask : ∀ q : Query n, q.ask abi heap (served abi c) {} = some (q.answer heap c, {}) :=
        ask_served hc
      have hpath : getPath abi heap (served abi c) i {} =
          some (Query.pathBuffer heap (c.replicas ⟨i, hi⟩), {}) := getPath_served hc ⟨i, hi⟩
      have hstatus := eq_of_map_number (hask (.status ⟨i, hi⟩))
      have hpriority := eq_of_map_number (hask (.priority ⟨i, hi⟩))
      have hread := eq_of_map_number (hask (.totalRead ⟨i, hi⟩))
      have hwrite := eq_of_map_number (hask (.totalWrite ⟨i, hi⟩))
      rw [hdrop, List.map_cons]
      simp only [reportLoop, hpath, hstatus, hpriority, hread, hwrite, ih (i := i + 1) (by omega),
        Option.bind_eq_bind, Option.bind_some]
      rfl

/-- **`chironctl` prints the configuration**, replica by replica. -/
theorem chironctl_prints (hc : c.Sendable abi) :
    chironctl abi heap (served abi c) {} =
      some (n, (List.finRange n).map (c.report heap), {}) := by
  have hask : (Query.maxReplica : Query n).ask abi heap (served abi c) {} = some (.number n, {}) :=
    ask_served hc .maxReplica
  have hloop : reportLoop abi heap (served abi c) n 0 {} =
      some (((List.finRange n).drop 0).map (c.report heap), {}) :=
    reportLoop_served hc (Nat.zero_add n)
  rw [List.drop_zero] at hloop
  simp only [chironctl, eq_of_map_number hask, hloop, Option.bind_eq_bind, Option.bind_some]

end Chironctl

end ChironFs
