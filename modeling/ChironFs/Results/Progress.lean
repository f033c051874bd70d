import ChironFs.Results.Slots
import ChironFs.Spec.Tables

/-!
# Every request comes to its end

The handlers share the configuration and hold no lock.

* `Stage.left`: how many steps a request still has before it at most. `Request.Move.left_lt`: each of
  its own steps takes from it; those of the others leave it.
* `Pool.Orderly`: the step stores into a free slot, and a file is released when nobody else uses it.
* `Pool.exists_step`: then a request that was begun and has not returned can make its next step,
  whatever it finds.
* `requests_return`: so each returns after at most `4 * n + 6` steps of its own.
-/

namespace ChironFs

open Posix Replication

variable {n : ℕ} {T : Type*}

/-! ## How far it is to the end -/

/-- So many steps a request makes from here on at most. -/
def Stage.left : Stage n → ℕ
  | .start => 4 * n + 6
  | .loop todo _ => todo.length + 2 * n + 5
  | .choose todo _ => 2 * todo.length + 2 * n + 5
  | .ask _ todo _ => 2 * todo.length + 2 * n + 6
  | .disable todo _ => todo.length + n + 4
  | .finish _ => n + 3
  | .store _ _ => n + 2
  | .unwind todo _ => todo.length + 1
  | .close todo _ => todo.length + 1
  | .done _ _ => 0

theorem Locals.left_conclude_lt (x : Locals n) : x.conclude.left < 2 * n + 5 := by
  rcases x.conclude_cases with h | h <;> rw [h] <;> simp only [Stage.left, List.length_finRange] <;>
    omega

/-- **Each step of a request takes from what it has before it.** -/
theorem Request.Move.left_lt {q : Request} {env : Env n} {cr : Creds} {c c' : Config n}
    {st st' : Stage n} {evs : List (Event n)} (h : q.Move env cr c st c' st' evs) :
    st'.left < st.left := by
  cases h with
  | @loopEnd x | @triesEnd x =>
      refine x.left_conclude_lt.trans_le ?_
      simp only [Stage.left, List.length_nil]
      omega
  | @attended i todo x x' =>
      split_ifs
      · refine x'.left_conclude_lt.trans_le ?_
        simp only [Stage.left]
        omega
      · simp only [Stage.left]
        omega
  | _ =>
      simp only [Stage.left, List.length_cons, List.length_nil, List.length_finRange,
        List.length_range]
      omega

namespace Pool

variable [DecidableEq T] {req : T → Request} {s s' : Pool T n} {t : T} {env : Env n}

/-- A step takes from what the request that makes it has before it, and from nothing else. -/
theorem left_of_step {a : T × Env n} (h : s.step req a = some s') (t : T) :
    (if a.1 = t then 1 else 0) + (s'.stage t).left ≤ (s.stage t).left := by
  obtain ⟨u, env⟩ := a
  have hst := stepped_of_step h
  split_ifs with hu
  · obtain rfl : u = t := hu
    obtain ⟨evs, hmove, -⟩ := hst.move
    have := hmove.left_lt
    omega
  · rw [hst.stage_of_ne t (Ne.symm hu), Nat.zero_add]

/-- The steps of one request in a run. -/
theorem countP_steps_le {l : List (T × Env n)} (hrun : Machine.runFrom (step req) s l = some s')
    (t : T) : (l.countP fun a => a.1 = t) + (s'.stage t).left ≤ (s.stage t).left :=
  Machine.countP_add_le (μ := fun s => (s.stage t).left)
    (fun _ _ _ h => by simpa using left_of_step h t) l s s' hrun

/-! ## The next step can be made -/

/-- The request was begun and has not returned. -/
def busy (s : Pool T n) (t : T) : Bool :=
  match s.stage t with
  | .start | .done .. => false
  | _ => true

/-- What is assumed of a step: it stores into a free slot, and a release begins when no other request
with that handle is under way. -/
structure Orderly (req : T → Request) (s : Pool T n) (a : T × Env n) : Prop where
  stores : s.StoresIntoFree a
  releases : s.busy a.1 = false → ∀ fh ∈ (req a.1).releasedFh,
    ∀ u, (req u).uses = some fh → s.busy u = false

instance [Fintype T] (req : T → Request) (s : Pool T n) (a : T × Env n) :
    Decidable (s.Orderly req a) :=
  decidable_of_iff (s.StoresIntoFree a ∧ (s.busy a.1 = false → ∀ fh ∈ (req a.1).releasedFh,
    ∀ u, (req u).uses = some fh → s.busy u = false)) ⟨fun h => ⟨h.1, h.2⟩, fun h => ⟨h.1, h.2⟩⟩

/-- What a request has before it fits what it is: only `release` closes, and a search tries numbers
below `n`. -/
def Underway (q : Request) : Stage n → Prop
  | .start | .done .. => True
  | .close .. => q.releases = true
  | .choose todo _ | .ask _ todo _ => q.releases = false ∧ ∀ k ∈ todo, k < n
  | _ => q.releases = false

theorem underway_conclude {q : Request} (h : q.releases = false) (x : Locals n) :
    Underway q x.conclude := by
  rcases x.conclude_cases with hx | hx <;> rw [hx] <;> exact h

theorem Underway.move {q : Request} {cr : Creds} {c c' : Config n} {st st' : Stage n}
    {evs : List (Event n)} (hu : Underway q st) (h : q.Move env cr c st c' st' evs) :
    Underway q st' := by
  cases h with
  | goesOver hse hrel => exact hrel
  | searches hse => exact ⟨Request.releases_of_searches hse, fun k hk => List.mem_range.mp hk⟩
  | releases hrel => exact hrel
  | loopEnd => exact underway_conclude hu _
  | triesEnd => exact underway_conclude hu.1 _
  | chose => exact ⟨hu.1, fun k hk => hu.2 k (List.mem_cons_of_mem _ hk)⟩
  | attended =>
      split_ifs
      · exact underway_conclude hu.1 _
      · exact hu
  | sought => exact hu
  | refused | gaveUp | failed | answered | stored | unwindEnd | emptied => trivial
  | _ => exact hu

/-- The slot of a request that was begun with a handle is in use, and unless it is a release nobody
releases it. -/
def InUse (req : T → Request) (s : Pool T n) : Prop :=
  ∀ u fh, s.busy u = true → (req u).uses = some fh → (req u).releases = false →
    ∃ f ∈ s.live, f.fh = fh ∧ f.releasing = false

omit [DecidableEq T] in
/-- A request that was not under way before its step was passed by FUSE. -/
theorem exists_live_of_begun (h : Stepped req s s' t env) (hwas : s.busy t = false) {fh : ℕ}
    (hfh : (req t).uses = some fh) : ∃ f ∈ s.live, f.fh = fh ∧ f.releasing = false := by
  obtain ⟨evs, hmove, -⟩ := h.move
  have hstart : s.stage t = .start := by
    unfold busy at hwas
    generalize s.stage t = st at hmove hwas ⊢
    generalize s'.stage t = st' at hmove
    generalize s'.config = c' at hmove
    cases hmove <;> first | rfl | cases hwas
  have hmay := h.may
  simp only [mayStep, hstart, admits, hfh, Option.all_some, List.any_eq_true, Bool.and_eq_true,
    decide_eq_true_eq, Bool.not_eq_true'] at hmay
  exact hmay

theorem InUse.step (hu : s.InUse req) (hi : s.SlotsInv req) (hord : s.Orderly req (t, env))
    (h : Stepped req s s' t env) : s'.InUse req := by
  intro u fh hbusy hfh hrel
  -- the file was there before the step
  obtain ⟨f, hf, hffh, hfrel⟩ : ∃ f ∈ s.live, f.fh = fh ∧ f.releasing = false := by
    by_cases hwas : s.busy u = true
    · exact hu u fh hwas hfh hrel
    · have hut : u = t := by
        by_contra hne
        unfold busy at hbusy hwas
        rw [h.stage_of_ne u hne] at hbusy
        exact hwas hbusy
      subst hut
      exact exists_live_of_begun h (by simpa using hwas) hfh
  rcases table_cases hi.size_pos h with ⟨hstart, htrel, -, -, hlive⟩ | ⟨k, x, -, -, -, -, -, hlive⟩ |
    ⟨fh', -, -, -, -, -, hlive⟩ | ⟨-, hlive, -, -⟩
  · -- a release begins, of a file that nobody else uses
    have hne : (req t).releasedFh ≠ some f.fh := by
      intro hfh'
      have hidle := hord.releases (by simp [busy, hstart]) f.fh hfh' u (hffh ▸ hfh)
      have hut : u ≠ t := by
        rintro rfl
        rw [hrel] at htrel
        cases htrel
      unfold busy at hbusy hidle
      rw [h.stage_of_ne u hut] at hbusy
      rw [hbusy] at hidle
      cases hidle
    refine ⟨f, ?_, hffh, hfrel⟩
    rw [hlive, List.mem_map]
    exact ⟨f, hf, if_neg hne⟩
  · exact ⟨f, hlive ▸ List.mem_cons_of_mem _ hf, hffh, hfrel⟩
  · refine ⟨f, ?_, hffh, hfrel⟩
    rw [hlive, List.mem_filter]
    exact ⟨hf, by simp [hfrel]⟩
  · exact ⟨f, hlive ▸ hf, hffh, hfrel⟩

/-- What holds of the requests and the handles while the steps are orderly. -/
structure Sound (req : T → Request) (s : Pool T n) : Prop where
  slots : s.SlotsInv req
  inUse : s.InUse req
  underway : ∀ t, Underway (req t) (s.stage t)

theorem Sound.step (h : s.Sound req) (hord : s.Orderly req (t, env)) (hst : Stepped req s s' t env) :
    s'.Sound req where
  slots := h.slots.step hord.stores hst
  inUse := h.inUse.step h.slots hord hst
  underway := fun u => by
    by_cases hu : u = t
    · subst hu
      obtain ⟨evs, hmove, -⟩ := hst.move
      exact (h.underway u).move hmove
    · rw [hst.stage_of_ne u hu]
      exact h.underway u

omit [DecidableEq T] in
theorem EmptyTable.sound (h : s.EmptyTable) : s.Sound req where
  slots := h.slotsInv
  inUse := fun u fh hb => by simp [busy, h.start u] at hb
  underway := fun t => by
    rw [h.start t]
    trivial

omit [DecidableEq T] in
/-- A request whose turn is over the replicas is no release. -/
theorem Sound.not_releases (hs : s.Sound req) {todo : List (Fin n)} {x : Locals n}
    (hat : s.stage t = .loop todo x) : (req t).releases = false := by
  have hund := hs.underway t
  rw [hat] at hund
  exact hund

omit [DecidableEq T] in
/-- A request that closes is a release, and opens nothing. -/
theorem Sound.not_opens (hs : s.Sound req) {todo : List (Fin n)} {r : ℤ}
    (hat : s.stage t = .close todo r) : (req t).opens = false := by
  have hund := hs.underway t
  rw [hat] at hund
  obtain ⟨fh, hq⟩ := Request.eq_release hund
  rw [hq]
  rfl

omit [DecidableEq T] in
/-- A release under way closes. -/
theorem closing_of_busy (hund : Underway (req t) (s.stage t)) (hbusy : s.busy t = true)
    (hrel : (req t).releases = true) : s.closing t = true := by
  unfold busy at hbusy
  unfold closing
  cases hst : s.stage t with
  | close => rfl
  | start | done => simp [hst] at hbusy
  | choose | ask =>
      rw [hst] at hund
      exact absurd (hrel.symm.trans hund.1) (by decide)
  | _ =>
      rw [hst] at hund
      exact absurd (hrel.symm.trans hund) (by decide)

omit [DecidableEq T] in
/-- **The slot of a handle is there as long as a request with it is under way.** -/
theorem slot_ne_none (hi : s.SlotsInv req) (hu : s.InUse req)
    (hund : Underway (req t) (s.stage t)) (hbusy : s.busy t = true) {fh : ℕ}
    (hfh : (req t).uses = some fh) : s.config.tabFd fh ≠ none := by
  suffices ∃ fd, s.config.tabFd fh = some fd from Option.ne_none_iff_exists'.mpr this
  cases hrel : (req t).releases with
  | true =>
      obtain ⟨fh', hq⟩ := Request.eq_release hrel
      obtain ⟨f, hf, hffh, -⟩ := hi.closing t (closing_of_busy hund hbusy hrel)
      rw [hq] at hfh hffh
      obtain rfl := Option.some.inj hfh
      obtain rfl := Option.some.inj hffh
      exact ⟨f.fd, hi.distinct.slot f hf⟩
  | false =>
      obtain ⟨f, hf, rfl, -⟩ := hu t fh hbusy hfh hrel
      exact ⟨f.fd, hi.distinct.slot f hf⟩

end Pool

/-- A round of the loop can always be made, but for a `write` whose slot was emptied. -/
theorem Request.visit_isSome {q : Request} {env : Env n} {cr : Creds} {c : Config n} {i : Fin n}
    {todo : List (Fin n)} {x : Locals n} (hslot : ∀ fh, q.uses = some fh → c.tabFd fh ≠ none) :
    (q.visit env cr c i todo x).isSome = true := by
  cases q with
  | write fh buf offset =>
      obtain ⟨fd, hfd⟩ := Option.ne_none_iff_exists'.mp (hslot fh rfl)
      simp only [visit, hfd]
      split_ifs <;> rfl
  | mknod path mode rdev =>
      simp only [visit]
      split <;> rfl
  | _ => rfl

namespace Pool

variable [DecidableEq T] {req : T → Request} {s s' : Pool T n} {t : T} {env : Env n}

/-- **A request under way can make its next step.** -/
theorem exists_step (hwf : s.config.WellFormed) (hall : s.config.AllNamed)
    (hhigh : 0 < s.config.maxReplicaHigh) (hi : s.SlotsInv req) (hu : s.InUse req)
    (hund : Underway (req t) (s.stage t)) (hbusy : s.busy t = true) (env : Env n) :
    ∃ s', s.step req (t, env) = some s' := by
  have hslot : ∀ fh, (req t).uses = some fh → s.config.tabFd fh ≠ none :=
    fun fh hfh => slot_ne_none hi hu hund hbusy hfh
  unfold busy at hbusy
  suffices hadv : ((req t).advance env s.creds s.config (s.stage t)).isSome = true by
    obtain ⟨r, hr⟩ := Option.isSome_iff_exists.mp hadv
    refine ⟨_, step_eq_some_iff.mpr ⟨?_, r, hr, rfl⟩⟩
    unfold mayStep
    split at hbusy
    · cases hbusy
    · cases hbusy
    · split
      · contradiction
      · rfl
  cases hst : s.stage t with
  | start => rfl
  | done r fh => simp [hst] at hbusy
  | loop todo x =>
      cases todo with
      | nil => rfl
      | cons i todo => exact Request.visit_isSome hslot
  | choose todo x =>
      cases todo with
      | nil => rfl
      | cons k todo =>
          rw [hst] at hund
          have hk : k < n := hund.2 k List.mem_cons_self
          have hsum := hwf.sum_eq hall
          have hsome := hwf.chooseReplica_isSome hhigh (k := k) (by omega)
          simpa [Request.advance] using hsome
  | ask i todo x =>
      have hlost : (req t).lostSlot s.config = false := by
        cases hq : req t with
        | read fh size offset =>
            simpa [Request.lostSlot] using Option.ne_none_iff_isSome.mp (hslot fh (by rw [hq]; rfl))
        | _ => rfl
      simp [Request.advance, hlost]
  | disable todo x => cases todo <;> rfl
  | finish x => rfl
  | store k x =>
      simp only [Request.advance]
      split_ifs <;> rfl
  | unwind todo x => cases todo <;> rfl
  | close todo r =>
      rw [hst] at hund
      obtain ⟨fh, hq⟩ := Request.eq_release hund
      obtain ⟨fd, hfd⟩ := Option.ne_none_iff_exists'.mp (hslot fh (by rw [hq]; rfl))
      cases todo <;> simp [Request.advance, hq, Request.releasedFh, hfd]

end Pool

section mounted

variable {fs : Path} {menv : MountEnv} {uid gid : ℕ}
  {memory : ℕ → Option (Fin (maxReplica fs) → ℤ)} {c : Config (maxReplica fs)}
  {s₀ s : Pool T (maxReplica fs)} {req : T → Request} [DecidableEq T]

/-- **Every request returns**: on a daemon that was mounted on a list without an empty component and
with a replica of high priority, in every run whose steps are orderly, a request makes at most
`4 * n + 6` steps; and as long as it is under way, its next one can be made, whatever it finds. -/
theorem requests_return (hfs : ∀ p ∈ components fs, p ≠ [])
    (hlow : ∃ p ∈ components fs, p.head? ≠ some lowMark)
    (hc : doMount menv uid gid fs memory = some c) (hsize : 0 < c.fdBufSize.toNat)
    (h₀ : s₀.config = c ∧ s₀.live = [] ∧ ∀ t, s₀.stage t = .start)
    {l : List (T × Env (maxReplica fs))}
    (hmeets : Machine.Meets (Pool.step req) (Pool.Orderly req) s₀ l)
    (hrun : Machine.runFrom (Pool.step req) s₀ l = some s) (t : T) :
    (l.countP fun a => a.1 = t) ≤ 4 * maxReplica fs + 6 ∧
      (s.busy t = true → ∀ env, ∃ s', s.step req (t, env) = some s') := by
  have hm := doMount_mounted hc
  obtain ⟨rfl, hlive, hstart⟩ := h₀
  constructor
  · have hcount := Pool.countP_steps_le hrun t
    rw [hstart t] at hcount
    exact (Nat.le_add_right _ _).trans hcount
  · have hinv : s₀.config.SameLayout s.config ∧ s.Sound req := by
      refine Machine.invariant_of_meets (I := fun s => s₀.config.SameLayout s.config ∧ s.Sound req)
        ?_ l s₀ s hmeets ⟨.refl _, ?_⟩ hrun
      · rintro s₁ ⟨u, env⟩ s₂ hord ⟨hlay, hs⟩ hstep
        have hst := Pool.stepped_of_step hstep
        exact ⟨hlay.trans hst.effect.sameLayout, hs.step hord hst⟩
      · exact Pool.EmptyTable.sound ⟨hstart, hlive, hsize, hm.table_empty⟩
    obtain ⟨hlay, hi, hu, hund⟩ := hinv
    intro hbusy env
    exact Pool.exists_step (hlay.wellFormed hm.wellFormed) (hlay.allNamed (hm.allNamed hfs))
      (hlay.maxReplicaHigh ▸ hm.high_pos hfs hlow) hi hu (hund t) hbusy env

end mounted

/-- An `open` and a `getattr`. -/
def openAndGetattr : Bool → Request := fun t => if t then .getattr fileF else .open fileF 0

/-- Their steps by turns, with every call answered. -/
def byTurns : List (Bool × Env (maxReplica listAB)) :=
  (List.replicate 4 [(false, plainEnv fun _ _ => .ok {}), (true, plainEnv fun _ _ => .ok {})]).flatten

/-- After four steps each, of at most fourteen, the `open` can go on. -/
theorem requests_return_byTurns :
    ∃ c : Config (maxReplica listAB), doMount plainMount 0 0 listAB (fun _ => none) = some c ∧
      ∃ s, Machine.runFrom (Pool.step openAndGetattr)
          { config := c, creds := .ofUser 0 0, stage := fun _ => .start } byTurns = some s ∧
        (byTurns.countP fun a => a.1 = false) = 4 ∧ 4 ≤ 4 * maxReplica listAB + 6 ∧
        ∀ env, ∃ s', s.step openAndGetattr (false, env) = some s' := by
  obtain ⟨c, hc, hsize, s, hrun, hmeets, hbusy⟩ :
      ∃ c : Config (maxReplica listAB), doMount plainMount 0 0 listAB (fun _ => none) = some c ∧
        0 < c.fdBufSize.toNat ∧
        ∃ s, Machine.runFrom (Pool.step openAndGetattr)
            { config := c, creds := .ofUser 0 0, stage := fun _ => .start } byTurns = some s ∧
          Machine.Meets (Pool.step openAndGetattr) (Pool.Orderly openAndGetattr)
            { config := c, creds := .ofUser 0 0, stage := fun _ => .start } byTurns ∧
          s.busy false = true :=
    ⟨_, rfl, by decide, _, rfl, by decide, rfl⟩
  obtain ⟨hcount, hstep⟩ :=
    requests_return (by decide) (by decide) hc hsize ⟨rfl, rfl, fun _ => rfl⟩ hmeets hrun false
  exact ⟨c, hc, s, hrun, rfl, hcount, hstep hbusy⟩

end ChironFs
