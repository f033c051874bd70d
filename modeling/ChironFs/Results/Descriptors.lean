import ChironFs.Model.Sample
import ChironFs.Spec.Session

/-!
# Descriptors on the replicas

* `Session.Conserved`: what was opened on the replicas and not closed is what the live handles
  hold; `Session.ClosesOnce`: a `release` closes what was opened for its handle.
* `not_conserved_leakRun`: it fails, because `release` passes over replicas that were disabled in
  the meantime and over descriptor `0`.
* `ReleasesAll`, `conserved`: it holds in every run in which the descriptors of a handle are
  positive and their replicas still enabled when the handle is released.
* `release_conserves_iff`: at a `release` that condition is also needed.
-/

namespace ChironFs

open Posix Replication

variable {n : ℕ}

namespace Session

/-- The descriptors the live handles hold. -/
def held (s : Session n) : List (Fin n × ℤ) := s.live.flatMap Handle.opened

/-- The descriptors opened on the replicas are those closed and those held, each as often; so none
is open when no handle is live. -/
structure Conserved (s : Session n) : Prop where
  balance : (openedFds s.trace).Perm (closedFds s.trace ++ s.held)
  none_open : s.live = [] → (openedFds s.trace).Perm (closedFds s.trace)

/-- The step from `s` to `s'` closes exactly once what was opened for `x`. -/
def ClosesOnce (s s' : Session n) (x : Handle n) : Prop :=
  ∃ l, closedFds s'.trace = closedFds s.trace ++ l ∧ l.Perm x.opened

/-- Every descriptor of the handle a request releases is positive, and its replica is enabled. -/
def ReleasesAll (s : Session n) (a : Request × Env n) : Prop :=
  ∀ x ∈ s.live, a.1 = .release x.fh → ∀ i v, (i, v) ∈ x.opened →
    0 < v ∧ s.daemon.config.enabled i

/-- Open `/f` on both replicas; write to it, which fails on the second; release it. -/
def leakRun : List (Request × Env 2) :=
  [(.open fileF 0, plainEnv fun i _ => .ok { ret := 5 + i.val }),
   (.write 6 [1, 2] 0, secondFails { ret := 2 } EACCES),
   (.release 6, plainEnv fun _ _ => .ok {})]

/-- After `leakRun` nothing is live, and the second replica's descriptor is still open. -/
theorem not_conserved_leakRun :
    ∃ s, Machine.runFrom step rootSession leakRun = some s ∧ s.live = [] ∧
      openedFds s.trace = [(0, 5), (1, 6)] ∧ closedFds s.trace = [(0, 5)] ∧ ¬ s.Conserved := by
  refine ⟨_, rfl, rfl, rfl, rfl, ?_⟩
  intro h
  have hlen : ([(0, 5), (1, 6)] : List (Fin 2 × ℤ)).length = ([(0, 5)] ++ []).length :=
    h.balance.length_eq
  cases hlen

section release

variable {s s' : Session n} {x : Handle n} {env : Env n}

/-- A live handle stands beside those that a `release` of it leaves. -/
theorem perm_cons_filter {l : List (Handle n)} (hx : x ∈ l) (hl : (l.map Handle.fh).Nodup) :
    l.Perm (x :: l.filter fun y => y.fh ≠ x.fh) := by
  induction l with
  | nil => cases hx
  | cons y l ih =>
      obtain ⟨hy, hl⟩ := List.nodup_cons.mp hl
      rcases List.mem_cons.mp hx with rfl | hx
      · -- no other handle has the slot of `x`
        have hall : (l.filter fun y => y.fh ≠ x.fh) = l := List.filter_eq_self.mpr fun z hz => by
          have : z.fh ≠ x.fh := fun h => hy (h ▸ List.mem_map_of_mem hz)
          simpa using this
        rw [List.filter_cons_of_neg (by simp), hall]
      · have hne : y.fh ≠ x.fh := fun h => hy (h ▸ List.mem_map_of_mem hx)
        rw [List.filter_cons_of_pos (by simpa using hne)]
        exact ((ih hx hl).cons y).trans (List.Perm.swap x y _)

/-- The descriptors `release` closes are those opened for the handle exactly when all of these are
positive and on enabled replicas. -/
theorem closes_perm_iff (hi : s.Inv) (hx : x ∈ s.live) :
    (((List.finRange n).filter (s.daemon.config.closes x.fd)).map fun i => (i, x.fd i)).Perm
        x.opened ↔
      ∀ i v, (i, v) ∈ x.opened → 0 < v ∧ s.daemon.config.enabled i := by
  have hcl : ∀ i, s.daemon.config.closes x.fd i = true ↔
      0 < x.fd i ∧ s.daemon.config.enabled i := fun i => by
    simp [Config.closes, Config.enabled]
  have hmem : ∀ i v, (i, v) ∈ ((List.finRange n).filter (s.daemon.config.closes x.fd)).map
      (fun i => (i, x.fd i)) ↔ v = x.fd i ∧ 0 < x.fd i ∧ s.daemon.config.enabled i := by
    intro i v
    simp only [List.mem_map, List.mem_filter, List.mem_finRange, true_and, hcl, Prod.mk.injEq]
    constructor
    · rintro ⟨j, hj, rfl, rfl⟩
      exact ⟨rfl, hj⟩
    · rintro ⟨rfl, hi⟩
      exact ⟨i, hi, rfl, rfl⟩
  constructor
  · intro hperm i v hv
    obtain ⟨rfl, h⟩ := (hmem i v).mp (hperm.mem_iff.mpr hv)
    exact h
  · intro h
    refine (List.perm_ext_iff_of_nodup ?_ (hi.opened_nodup x hx)).mpr ?_
    · exact ((List.nodup_finRange n).filter _).map fun i j hij => (Prod.mk.inj hij).1
    · intro p
      obtain ⟨i, v⟩ := p
      rw [hmem]
      constructor
      · rintro ⟨rfl, -, hen⟩
        exact hi.covers x hx i hen
      · intro hv
        obtain ⟨rfl, -⟩ := hi.opened_fd x hx i v hv
        exact ⟨rfl, h i _ hv⟩

/-- What a `release` of a live handle does to the account of the descriptors. -/
theorem release_account (hi : s.Inv) (hx : x ∈ s.live)
    (h : s.step (.release x.fh, env) = some s') :
    openedFds s'.trace = openedFds s.trace ∧
      closedFds s'.trace = closedFds s.trace ++
        ((List.finRange n).filter (s.daemon.config.closes x.fd)).map (fun i => (i, x.fd i)) ∧
      s.held.Perm (x.opened ++ s'.held) := by
  rcases step_cases hi h with ⟨fh, hop⟩ | ⟨y, hrel⟩ | hkept
  · cases hop.opens
  · obtain rfl : y = x := by
      have hfh : x.fh = y.fh := by
        have := hrel.request
        simpa using this
      exact (List.inj_on_of_nodup_map hi.nodup hrel.mem hx hfh.symm)
    refine ⟨hrel.opened, hrel.closed, ?_⟩
    unfold held
    rw [hrel.live]
    exact (perm_cons_filter hx hi.nodup).flatMap_right _
  · cases hkept.releases

/-- **`release` conserves descriptors exactly under the condition**: when the account was right
before it, it is right after it if and only if the handle's descriptors are positive and on enabled
replicas. -/
theorem release_conserves_iff (hi : s.Inv) (hx : x ∈ s.live)
    (hbal : (openedFds s.trace).Perm (closedFds s.trace ++ s.held))
    (h : s.step (.release x.fh, env) = some s') :
    (openedFds s'.trace).Perm (closedFds s'.trace ++ s'.held) ↔
      ∀ i v, (i, v) ∈ x.opened → 0 < v ∧ s.daemon.config.enabled i := by
  obtain ⟨hop, hcl, hheld⟩ := release_account hi hx h
  rw [← closes_perm_iff hi hx, hop, hcl]
  have hbal' : (openedFds s.trace).Perm (closedFds s.trace ++ (x.opened ++ s'.held)) :=
    hbal.trans (hheld.append_left _)
  rw [hbal'.congr_left, List.append_assoc, List.perm_append_left_iff, List.perm_append_right_iff,
    List.perm_comm]

end release

/-- One request that meets the condition keeps the account right. -/
theorem step_balance {s s' : Session n} {a : Request × Env n} (hi : s.Inv) (hall : ReleasesAll s a)
    (hbal : (openedFds s.trace).Perm (closedFds s.trace ++ s.held)) (h : s.step a = some s') :
    (openedFds s'.trace).Perm (closedFds s'.trace ++ s'.held) := by
  obtain ⟨q, env⟩ := a
  rcases step_cases hi h with ⟨fh, hop⟩ | ⟨x, hrel⟩ | hkept
  · have hheld : s'.held = roundFds (q.round env s.daemon) ++ s.held := by
      unfold held
      rw [hop.live]
      rfl
    rw [hop.opened, hop.closed, hheld]
    calc List.Perm (openedFds s.trace ++ roundFds (q.round env s.daemon))
          (roundFds (q.round env s.daemon) ++ openedFds s.trace) := List.perm_append_comm
      List.Perm _ (roundFds (q.round env s.daemon) ++ (closedFds s.trace ++ s.held)) :=
          hbal.append_left _
      List.Perm _ (closedFds s.trace ++ (roundFds (q.round env s.daemon) ++ s.held)) :=
          List.perm_append_comm_assoc _ _ _
  · have hq := hrel.request
    subst hq
    exact (release_conserves_iff hi hrel.mem hbal h).mpr (hall x hrel.mem rfl)
  · obtain ⟨l, hl, hl'⟩ := hkept.balance
    have hheld : s'.held = s.held := by
      unfold held
      rw [hkept.live]
    rw [hl, hl', hheld, List.append_assoc]
    exact (hbal.append_right l).trans
      ((List.append_assoc _ _ _).symm ▸ List.perm_append_comm.append_left _)

/-- **Descriptors are conserved in every run whose releases meet the condition**, in every state
it reaches, and each of these releases closes what was opened for its handle. -/
theorem conserved {s : Session n}
    (h : Machine.ReachableBy Session.step Session.ReleasesAll Session.Fresh s) :
    s.Conserved ∧ ∀ x ∈ s.live, ∀ env s', s.ReleasesAll (.release x.fh, env) →
      s.step (.release x.fh, env) = some s' → s.ClosesOnce s' x := by
  have hinv : s.Inv ∧ (openedFds s.trace).Perm (closedFds s.trace ++ s.held) := by
    refine h.invariant (I := fun s => s.Inv ∧ (openedFds s.trace).Perm
      (closedFds s.trace ++ s.held)) (fun s₀ h₀ => ⟨h₀.inv, ?_⟩) ?_
    · simp [h₀.trace, h₀.live, held, openedFds, closedFds]
    · rintro s a s' hall ⟨hi, hbal⟩ hstep
      exact ⟨step_inv hi hstep, step_balance hi hall hbal hstep⟩
  obtain ⟨hi, hbal⟩ := hinv
  refine ⟨⟨hbal, ?_⟩, ?_⟩
  · intro hnone
    simpa [held, hnone] using hbal
  · intro x hx env s' hall hstep
    obtain ⟨-, hcl, -⟩ := release_account hi hx hstep
    exact ⟨_, hcl, (closes_perm_iff hi hx).mpr (hall x hx rfl)⟩

/-- Open `/f` on both replicas and release it, with nothing disabled in between. -/
def openRelease : List (Request × Env 2) :=
  [(.open fileF 0, plainEnv fun i _ => .ok { ret := 5 + i.val }),
   (.release 6, plainEnv fun _ _ => .ok {})]

theorem conserved_openRelease :
    ∃ s, Machine.runFrom step rootSession openRelease = some s ∧ s.Conserved := by
  have hmeets : Machine.Meets step ReleasesAll rootSession openRelease := by
    refine ⟨fun _ hx => absurd hx List.not_mem_nil, fun s' hs' => ⟨?_, fun _ _ => trivial⟩⟩
    obtain rfl := Option.some.inj hs'
    intro x hx _ i v hv
    obtain rfl := List.mem_singleton.mp hx
    have hv' : (i, v) ∈ ([(0, 5), (1, 6)] : List (Fin 2 × ℤ)) := hv
    simp only [List.mem_cons, Prod.mk.injEq, List.not_mem_nil, or_false] at hv'
    rcases hv' with ⟨rfl, rfl⟩ | ⟨rfl, rfl⟩
    · exact ⟨by decide, rfl⟩
    · exact ⟨by decide, rfl⟩
  exact ⟨_, rfl, (conserved ⟨rootSession, openRelease, ⟨rfl, rfl, ⟨0, rfl⟩, fun _ _ => rfl⟩,
    hmeets, rfl⟩).1⟩

end Session

end ChironFs
