import ChironFs.Spec.Tries

/-!
# What a request does to the records and the cursors

* `Request.countsReads`, `Request.countsWrites`: the two requests that keep statistics.
* `handle_search`, `handle_every`: the configuration a search leaves, with its tries, and the one a
  request made on every replica leaves.
* `handle_record`: the record of every replica after a request, its counters included.
* `handle_cursors`: the cursors after it.
-/

namespace ChironFs

open Posix Replication

variable {n : ℕ}

namespace Request

/-- `read`, which counts in `totrd`. -/
def countsReads : Request → Bool
  | .read .. => true
  | _ => false

/-- `write`, which counts in `totwr`. -/
def countsWrites : Request → Bool
  | .write .. => true
  | _ => false

variable {q : Request}

/-- Reads are counted in searches. -/
theorem searches_of_countsReads (h : q.countsReads = true) : q.searches = true := by
  cases q <;> first | rfl | cases h

/-- They go through a handle. -/
theorem uses_of_countsReads (h : q.countsReads = true) : ∃ fh, q.uses = some fh := by
  cases q with
  | read fh => exact ⟨fh, rfl⟩
  | _ => cases h

/-- So do the writes that are counted. -/
theorem uses_of_countsWrites (h : q.countsWrites = true) : ∃ fh, q.uses = some fh := by
  cases q with
  | write fh => exact ⟨fh, rfl⟩
  | _ => cases h

/-- Elsewhere no read is counted. -/
theorem countsReads_of_not_searches (h : q.searches = false) : q.countsReads = false := by
  cases q <;> first | rfl | cases h

/-- What the statistics do not count. -/
theorem kinds_of_countsWrites (h : q.countsWrites = true) :
    q.searches = false ∧ q.opens = false ∧ q.releases = false ∧ q.countsReads = false := by
  cases q <;> first | exact ⟨rfl, rfl, rfl, rfl⟩ | cases h

end Request

/-- The record of a replica after the request counted on it, if it did. -/
def Replica.count (r : Replica) (rd wr : Bool) : Replica :=
  { r with totrd := r.totrd + if rd then 1 else 0, totwr := r.totwr + if wr then 1 else 0 }

/-- Nothing is counted. -/
@[simp] theorem Replica.count_false (r : Replica) : r.count false false = r := by
  simp [count]

/-- The record of a replica after a round that may have dropped it. -/
def Replica.drop (r : Replica) (dropped : Bool) : Replica :=
  { r with disabled := r.disabled || dropped }

/-- A round changes the records of those it drops. -/
theorem Config.dropFaulty_replicas (c : Config n) (R : Round (Fin n) Reply Errno) (i : Fin n) :
    (c.dropFaulty R).replicas i = (c.replicas i).drop (R.Drops i) := by
  unfold dropFaulty Replica.drop
  by_cases h : R.Drops i <;> simp [h]

section handle

variable {q : Request} {env : Env n} {d : Daemon n} {o : Outcome n}

/-- **A search**: its tries, the replicas asked in them, the answer, and the configuration it
leaves. -/
theorem handle_search (hse : q.searches = true) (he : q.early env d.config = none)
    (ho : handle q env d = some o) :
    ∃ ks₁ ks₂ c' ans, List.range n = ks₁ ++ ks₂ ∧
      d.config.choices ks₁ = some (q.tries env d, c') ∧ (ans = none → ks₂ = []) ∧
      EndsWith (q.round env d) (q.tries env d) ans ∧
      o.daemon.config =
        (if q.countsReads then c'.countAnswer ans else c').dropFaulty (q.fates env d) := by
  have hround : q.round env d = fun i => attempt env (dropPriv env d.creds).creds i
      (d.config.guarded (q.call env d.config) i) :=
    Request.round_of_not_opens (Request.opens_of_searches hse)
  obtain ⟨ks₁, ks₂, l, c', ans, hks, hch, hnone, hend, hcfg⟩ :
      ∃ ks₁ ks₂ l c' ans, List.range n = ks₁ ++ ks₂ ∧ d.config.choices ks₁ = some (l, c') ∧
        (ans = none → ks₂ = []) ∧ EndsWith (q.round env d) l ans ∧
        o.daemon.config =
          (if q.countsReads then c'.countAnswer ans else c').dropFaulty (q.roundOn env d l) := by
    have hR : ∀ l, q.roundOn env d l =
        d.config.searched env (dropPriv env d.creds).creds (q.call env d.config) l := by
      intro l
      unfold Request.roundOn Config.searched
      rw [hround]
    cases q with
    | read fh size offset =>
        obtain ⟨fd, hfd, h₀⟩ := tabFd_of_early_eq_none he
        have hcall : readCall fd size offset = (Request.read fh size offset).call env d.config := by
          funext i
          simp [Request.call, hfd]
        obtain ⟨ks₁, ks₂, l, c', ans, hks, hch, hnone, hend, rfl⟩ := chironRead_spec hfd h₀ ho
        rw [hcall] at hend
        refine ⟨ks₁, ks₂, l, c', ans, hks, hch, hnone, by rw [hround]; exact hend, ?_⟩
        rw [hR, ← hcall]
        rfl
    | getattr | access | readlink | readdir =>
        simp only [Request.early, ite_eq_right_iff, reduceCtorEq, imp_false,
          Bool.not_eq_false] at he
        simp only [handle, chironGetattr, chironAccess, chironReadlink, chironReaddir] at ho
        obtain ⟨ks₁, ks₂, l, c', ans, hks, hch, hnone, hend, rfl⟩ := onFirstReplica_spec he ho
        refine ⟨ks₁, ks₂, l, c', ans, hks, hch, hnone, by rw [hround]; exact hend, ?_⟩
        rw [hR]
        rfl
    | _ => cases hse
  have hl := Request.tries_eq hse hks hch hnone hend
  rw [hl] at hch hend hcfg
  exact ⟨ks₁, ks₂, c', ans, hks, hch, hnone, hend, hcfg⟩

/-- The one replica that answers a search is the one it ends with. -/
theorem fates_isOk_iff {ans : Option (Fin n × Reply)}
    (hend : EndsWith (q.round env d) (q.tries env d) ans) (i : Fin n) :
    (q.fates env d i).isOk = true ↔ ∃ r, ans = some (i, r) := by
  have hno : i ∉ q.tries env d → (q.fates env d i).isOk = false := fun hi => by
    rw [Request.fates_eq_skipped_of_not_mem hi]
    rfl
  cases ans with
  | none =>
      simp only [reduceCtorEq, exists_false, iff_false, Bool.not_eq_true]
      by_cases hi : i ∈ q.tries env d
      · rw [Request.fates_eq_of_mem hi]
        exact hend i hi
      · exact hno hi
  | some ar =>
      obtain ⟨hok, l₀, hl, hl₀⟩ := hend
      constructor
      · intro h
        by_cases hi : i ∈ q.tries env d
        · rw [hl, List.mem_append, List.mem_singleton] at hi
          rcases hi with hi | rfl
          · rw [Request.fates_eq_of_mem (by rw [hl]; exact List.mem_append_left _ hi),
              hl₀ i hi] at h
            cases h
          · exact ⟨ar.2, rfl⟩
        · rw [hno hi] at h
          cases h
      · rintro ⟨r, hr⟩
        obtain rfl := Option.some.inj hr
        rw [Request.fates_eq_of_mem (by rw [hl]; simp), hok]
        rfl

/-- Only who answered is counted. -/
theorem Config.countAnswer_replicas (c : Config n) {ans : Option (Fin n × Reply)} {i : Fin n}
    (h : ∀ r, ans ≠ some (i, r)) : (c.countAnswer ans).replicas i = c.replicas i := by
  cases ans with
  | none => rfl
  | some ar =>
      have hne : i ≠ ar.1 := by
        rintro rfl
        exact h ar.2 rfl
      simp [countAnswer, countRead, hne]

/-- The statistics of a search. -/
theorem Config.countAnswer_record (c : Config n) {ans : Option (Fin n × Reply)} {i : Fin n}
    {p : Bool} (h : p = true ↔ ∃ r, ans = some (i, r)) :
    (c.countAnswer ans).replicas i = (c.replicas i).count p false := by
  by_cases hi : ∃ r, ans = some (i, r)
  · obtain ⟨r, rfl⟩ := hi
    rw [h.mpr ⟨r, rfl⟩]
    simp [countAnswer, countRead, Replica.count]
  · have hp : p = false := by
      rw [← Bool.not_eq_true]
      exact fun hp => hi (h.mp hp)
    rw [hp, Replica.count_false]
    exact c.countAnswer_replicas fun r hr => hi ⟨r, hr⟩

/-- The response of a request made on every replica, when somebody answered. -/
def Request.everyResponse (R : Round (Fin n) Reply Errno) : Request → Response
  | .write .. => { ret := maxCount R (List.finRange n) 0 }
  | _ => { ret := 0 }

/-- The response of a round that somebody answered is no error. -/
theorem Request.everyResponse_nonneg (q : Request) (R : Round (Fin n) Reply Errno) :
    0 ≤ (q.everyResponse R).ret := by
  cases q with
  | write => exact (maxCount_spec R (List.finRange n) 0).1
  | _ => exact le_rfl

/-- **A request made on every replica**: the configuration it leaves, and its response. -/
theorem handle_every (hse : q.searches = false) (hop : q.opens = false) (hrel : q.releases = false)
    (he : q.early env d.config = none) (ho : handle q env d = some o) :
    o.daemon.config = (d.config.countWrites fun i =>
        q.countsWrites && (q.round env d i).isOk).dropFaulty (q.round env d) ∧
      o.response = if (q.round env d).Succeeded then q.everyResponse (q.round env d)
        else { ret := firstError (q.round env d) } := by
  have hno : q.countsWrites = false →
      (d.config.countWrites fun i => q.countsWrites && (q.round env d i).isOk) = d.config :=
    fun h => d.config.countWrites_none fun i => by rw [h, Bool.false_and]
  cases q with
  | write fh buf offset =>
      obtain ⟨fd, hfd, h₀⟩ := tabFd_of_early_eq_none he
      obtain rfl := Option.some.inj ho
      have hcall : writeCall fd buf offset =
          (Request.write fh buf offset).call env d.config := by
        funext i
        simp [Request.call, hfd]
      rw [chironWrite_eq buf offset hfd h₀, hcall, Request.round_of_not_opens rfl]
      exact ⟨rfl, rfl⟩
  | mknod path mode rdev =>
      simp only [Request.early] at he
      split_ifs at he with h₀ hr
      obtain rfl := Option.some.inj ho
      rw [hno rfl, Request.round_of_not_opens rfl,
        chironMknod_eq path mode rdev env d (by simpa using h₀) (by simpa using hr)]
      exact ⟨rfl, rfl⟩
  | «open» | create => cases hop
  | read | getattr | access | readlink | readdir => cases hse
  | release => cases hrel
  | _ =>
      simp only [Request.early, ite_eq_right_iff, reduceCtorEq, imp_false, Bool.not_eq_false] at he
      obtain rfl := Option.some.inj ((congrArg some (onEveryReplica_eq _ _ env d he)).symm.trans ho)
      rw [hno rfl, Request.round_of_not_opens rfl]
      exact ⟨rfl, rfl⟩

/-- **The record of a replica after a request** that got past its early exits: counted, and disabled
if the round drops it. -/
theorem handle_record (hrel : q.releases = false) (he : q.early env d.config = none)
    (ho : handle q env d = some o) (i : Fin n) :
    o.daemon.config.replicas i =
      ((d.config.replicas i).count (q.countsReads && (q.fates env d i).isOk)
        (q.countsWrites && (q.fates env d i).isOk)).drop ((q.fates env d).Drops i) := by
  cases hse : q.searches with
  | true =>
      obtain ⟨ks₁, ks₂, c', ans, -, hch, -, hend, hcfg⟩ := handle_search hse he ho
      have hrep := (Config.choices_sameButCursors hch).replicas_eq
      have hwr : q.countsWrites = false := by cases q <;> first | rfl | cases hse
      rw [hcfg, Config.dropFaulty_replicas, hwr, Bool.false_and]
      congr 1
      cases hrd : q.countsReads with
      | false => simp [hrep]
      | true =>
          rw [if_pos rfl, Bool.true_and, Config.countAnswer_record _ (fates_isOk_iff hend i), hrep]
  | false =>
      rw [Request.countsReads_of_not_searches hse, Bool.false_and,
        Request.fates_of_not_searches hse]
      cases hop : q.opens with
      | true =>
          obtain rfl := Option.some.inj ((handle_opens hop he).symm.trans ho)
          have hwr : q.countsWrites = false := by cases q <;> first | rfl | cases hop
          rw [hwr, Bool.false_and, Replica.count_false, ← Config.dropFaulty_replicas]
          unfold Request.openOutcome
          simp only
          split_ifs with hs
          · exact congrFun (Config.fdHashset_replicas _ _) i
          · exact congrFun (Config.fdHashset_replicas _ _) i
          · rw [d.config.dropFaulty_of_not_succeeded hs]
            rfl
      | false =>
          rw [(handle_every hse hop hrel he ho).1, Config.dropFaulty_replicas]
          congr 1
          unfold Config.countWrites Replica.count
          cases hc : q.countsWrites && (q.round env d i).isOk <;> simp [hc]

/-- **No request changes the record of a disabled replica**: its flag, its counters, its path. -/
theorem handle_replicas_of_disabled (ho : handle q env d = some o) {i : Fin n}
    (hi : (d.config.replicas i).disabled = true) :
    o.daemon.config.replicas i = d.config.replicas i := by
  by_cases hsv : ∃ tried, Served q env d tried o
  · have hskip : q.fates env d i = .skipped := by
      unfold Request.fates Request.roundOn
      rw [Request.covers_round env d q i hi, ite_self]
    rcases handle_cases ho with ⟨e, he, rfl⟩ | ⟨fh, fd, rfl, -, rfl⟩ | ⟨he, hrel, -⟩
    · rfl
    · rfl
    · rw [handle_record hrel he ho]
      simp [hskip, Round.Drops, Replica.drop]
  · rw [(handle_no_round ho hsv).2]

/-! ## The cursors -/

/-- The cursors after a request: where its tries left them, for a search past its early exits;
otherwise where they were. -/
theorem handle_cursors (ho : handle q env d = some o) :
    (q.searches = true ∧ q.early env d.config = none ∧
        ∃ ks₁ ks₂ c' ans, List.range n = ks₁ ++ ks₂ ∧
          d.config.choices ks₁ = some (q.tries env d, c') ∧ (ans = none → ks₂ = []) ∧
          EndsWith (q.round env d) (q.tries env d) ans ∧
          o.daemon.config.currReplicaHigh = c'.currReplicaHigh ∧
          o.daemon.config.currReplicaLow = c'.currReplicaLow) ∨
      ((q.searches = false ∨ q.early env d.config ≠ none) ∧
        o.daemon.config.currReplicaHigh = d.config.currReplicaHigh ∧
        o.daemon.config.currReplicaLow = d.config.currReplicaLow) := by
  cases he : q.early env d.config with
  | some e =>
      obtain rfl := Option.some.inj (ho.symm.trans (handle_early he))
      exact Or.inr ⟨Or.inr (Option.some_ne_none e), rfl, rfl⟩
  | none =>
  cases hse : q.searches with
  | true =>
      obtain ⟨ks₁, ks₂, c', ans, hks, hch, hnone, hend, hcfg⟩ := handle_search hse he ho
      have hcount : ∀ b : Bool, (if b then c'.countAnswer ans else c').currReplicaHigh =
          c'.currReplicaHigh ∧ (if b then c'.countAnswer ans else c').currReplicaLow =
          c'.currReplicaLow := by
        intro b
        cases b <;> cases ans <;> exact ⟨rfl, rfl⟩
      refine Or.inl ⟨rfl, rfl, ks₁, ks₂, c', ans, hks, hch, hnone, hend, ?_, ?_⟩
      · rw [hcfg]
        exact (hcount _).1
      · rw [hcfg]
        exact (hcount _).2
  | false =>
      refine Or.inr ⟨Or.inl rfl, ?_⟩
      cases hop : q.opens with
      | true =>
          obtain rfl := Option.some.inj ((handle_opens hop he).symm.trans ho)
          have hset : (q.store env d).2.1.currReplicaHigh = d.config.currReplicaHigh ∧
              (q.store env d).2.1.currReplicaLow = d.config.currReplicaLow := by
            unfold Request.store
            rcases Config.fdHashset_cases (d.config.dropFaulty (q.round env d))
              (fdVector (q.round env d)) with ⟨-, h⟩ | ⟨-, h⟩
            all_goals
              rw [h]
              exact ⟨rfl, rfl⟩
          unfold Request.openOutcome
          simp only
          split_ifs
          · exact hset
          · exact hset
          · exact ⟨rfl, rfl⟩
      | false =>
          rcases handle_cases ho with ⟨e, he', rfl⟩ | ⟨fh, fd, rfl, -, rfl⟩ | ⟨-, hrel, -⟩
          · exact ⟨rfl, rfl⟩
          · exact ⟨rfl, rfl⟩
          · rw [(handle_every hse hop hrel he ho).1]
            exact ⟨rfl, rfl⟩

end handle

end ChironFs
