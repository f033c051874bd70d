import ChironFs.Model.Sample
import ChironFs.Spec.Interleaved
import ChironFs.Spec.Tables

/-!
# Searches that overlap

The tries of a search ask every replica only while the cursors stand still, and the cursors belong
to all requests.

* `Pool.Asked`: a request made its call on a replica.
* `search_misses`: two requests that overlap; one fails without having asked an enabled replica.
* `Pool.Steady`: a search gets its memory, and no other request moves a cursor between its first and
  its last try among the replicas of that cursor.
* `readers_reach_all`: then a search that fails has asked every enabled replica.
-/

namespace ChironFs

open Posix Replication

variable {n : ℕ} {T : Type*}

namespace Pool

/-- Request `t` made its call on replica `j`. -/
def Asked (s : Pool T n) (t : T) (j : Fin n) : Prop := s.Did t fun ev => ev.calledOn = some j

instance [DecidableEq T] (s : Pool T n) (t : T) (j : Fin n) : Decidable (s.Asked t j) := by
  unfold Asked
  infer_instance

/-- The request was begun. -/
def begun (s : Pool T n) (t : T) : Bool :=
  match s.stage t with
  | .start => false
  | _ => true

/-- The try whose `choose_replica` is the next step of a search. -/
def choosing (s : Pool T n) (t : T) : Option ℕ :=
  match s.stage t with
  | .choose (k :: _) _ => some k
  | _ => none

/-- The replica whose call is the next step of a search. -/
def asking (s : Pool T n) (t : T) : Option (Fin n) :=
  match s.stage t with
  | .ask i _ _ => some i
  | _ => none

/-- The next try of a search. -/
def nextTry (s : Pool T n) (t : T) : Option ℕ :=
  match s.stage t with
  | .choose (k :: _) _ | .ask _ (k :: _) _ => some k
  | _ => none

/-- What is assumed of a step. A search that begins gets its memory and its handle; one that asks an
enabled replica has a name or a descriptor for it; a call of `choose_replica` that moves a cursor is
made while no other request is between its first and its last try at the replicas of that cursor. -/
structure Steady (req : T → Request) (s : Pool T n) (a : T × Env n) : Prop where
  begins : s.begun a.1 = false → (req a.1).searches = true → (req a.1).early a.2 s.config = none
  asks : ∀ i ∈ s.asking a.1, s.config.enabled i → (req a.1).call a.2 s.config i ≠ none
  high : s.choosing a.1 = some 0 → ∀ u, u ≠ a.1 → ∀ m ∈ s.nextTry u,
    m = 0 ∨ s.config.maxReplicaHigh ≤ m
  low : s.choosing a.1 = some s.config.maxReplicaHigh → ∀ u, u ≠ a.1 → ∀ m ∈ s.nextTry u,
    m ≤ s.config.maxReplicaHigh

instance [DecidableEq T] [Fintype T] (req : T → Request) (s : Pool T n) (a : T × Env n) :
    Decidable (s.Steady req a) :=
  decidable_of_iff
    ((s.begun a.1 = false → (req a.1).searches = true →
        (req a.1).early a.2 s.config = none) ∧
      (∀ i ∈ s.asking a.1, s.config.enabled i → (req a.1).call a.2 s.config i ≠ none) ∧
      (s.choosing a.1 = some 0 → ∀ u, u ≠ a.1 → ∀ m ∈ s.nextTry u,
        m = 0 ∨ s.config.maxReplicaHigh ≤ m) ∧
      (s.choosing a.1 = some s.config.maxReplicaHigh → ∀ u, u ≠ a.1 → ∀ m ∈ s.nextTry u,
        m ≤ s.config.maxReplicaHigh))
    ⟨fun ⟨h₁, h₂, h₃, h₄⟩ => ⟨h₁, h₂, h₃, h₄⟩, fun ⟨h₁, h₂, h₃, h₄⟩ => ⟨h₁, h₂, h₃, h₄⟩⟩

/-- Nothing was begun yet on the configuration `c`. -/
structure StartsOn (c : Config n) (s : Pool T n) : Prop where
  config : s.config = c
  start : ∀ t, s.stage t = .start

/-! ## The replicas still to come -/

/-- The replica is disabled, or request `t` asked it. -/
def Covered (s : Pool T n) (t : T) (j : Fin n) : Prop := s.config.enabled j → s.Asked t j

/-- A try from the `m`-th on asks replica `j` if the cursors stand still. -/
def ToCome (c : Config n) (m : ℕ) (j : Fin n) : Prop :=
  ∃ p, m ≤ p ∧ p < n ∧ c.tryReplica p = some j

/-- What a search still has to do: every replica is covered or to come. -/
def Searching (s : Pool T n) (t : T) : Prop :=
  match s.stage t with
  | .start => True
  | .choose todo x => x.tally.succCnt = 0 ∧ ∃ m, todo = List.range' m (n - m) ∧
      ∀ j, s.Covered t j ∨ ToCome s.config m j
  | .ask i todo x => x.tally.succCnt = 0 ∧ ∃ m, todo = List.range' m (n - m) ∧
      ∀ j, s.Covered t j ∨ j = i ∨ ToCome s.config m j
  | .disable _ x | .finish x => x.tally.succCnt = 0 → ∀ j, s.Covered t j
  | .done r _ => r.ret < 0 → ∀ j, s.Covered t j
  | _ => False

variable {req : T → Request} {s s' : Pool T n} {t : T} {env : Env n}

/-- Replicas stay covered. -/
theorem Covered.step {u : T} {j : Fin n} (hcov : s.Covered u j) (h : Stepped req s s' t env) :
    s'.Covered u j := by
  obtain ⟨evs, -, htr⟩ := h.move
  exact fun hen => (did_append htr u _).mpr (Or.inl (hcov (h.effect.enabled_of_enabled hen)))

/-- A step moves no cursor but by `choose_replica`. -/
theorem choose_or_tryReplica_eq {q : Request} {c c' : Config n} {st st' : Stage n}
    (h : q.Effect c st c' st') :
    (∃ k todo x i, st = .choose (k :: todo) x ∧ c.chooseReplica k = some (i, c')) ∨
      ∀ p, c'.tryReplica p = c.tryReplica p := by
  have hsame : ∀ {c' : Config n}, c.SameLayout c' → c'.currReplicaHigh = c.currReplicaHigh →
      c'.currReplicaLow = c.currReplicaLow → ∀ p, c'.tryReplica p = c.tryReplica p := by
    intro c' hlay hhigh hlow p
    simp only [Config.tryReplica, hlay.maxReplicaHigh, hlay.maxReplicaLow, hlay.roundRobinHigh,
      hlay.roundRobinLow, hhigh, hlow]
  have hlay := h.sameLayout
  cases h with
  | quiet hq => exact Or.inr (hsame hlay hq.high hq.low)
  | chose hk => exact Or.inl ⟨_, _, _, _, rfl, hk⟩
  | disabled | stored | emptied => exact Or.inr (hsame hlay rfl rfl)

/-- **A step leaves what is to come to a request at try `m`** that is not between two tries at the
replicas whose cursor the step moves. -/
theorem ToCome.step {m : ℕ} {j : Fin n} (hto : ToCome s.config m j) (hwf : s.config.WellFormed)
    (hall : s.config.AllNamed) (h : Stepped req s s' t env)
    (hhigh : ∀ todo x, s.stage t = .choose (0 :: todo) x → m = 0 ∨ s.config.maxReplicaHigh ≤ m)
    (hlow : ∀ todo x, s.stage t = .choose (s.config.maxReplicaHigh :: todo) x →
      m ≤ s.config.maxReplicaHigh) : ToCome s'.config m j := by
  rcases choose_or_tryReplica_eq h.effect with ⟨k, todo, x, i, hst, hk⟩ | hsame
  · refine hwf.exists_try_of_chooseReplica hall hk ?_ ?_ hto
    · rintro rfl
      exact hhigh todo x hst
    · rintro rfl
      exact hlow todo x hst
  · obtain ⟨p, hmp, hpn, hp⟩ := hto
    exact ⟨p, hmp, hpn, (hsame p).trans hp⟩

/-! ## One step -/

theorem eq_of_cons_eq_range' {k m : ℕ} {todo : List ℕ} (h : k :: todo = List.range' m (n - m)) :
    k = m ∧ m < n ∧ todo = List.range' (m + 1) (n - (m + 1)) := by
  have hpos : m < n := by
    by_contra hle
    rw [Nat.sub_eq_zero_of_le (not_lt.mp hle)] at h
    cases h
  obtain ⟨l, hl⟩ : ∃ l, n - m = l + 1 := ⟨n - m - 1, by omega⟩
  rw [hl, List.range'_succ, List.cons.injEq] at h
  refine ⟨h.1, hpos, ?_⟩
  rw [h.2]
  congr 1
  omega

/-- Another request's step. -/
theorem Searching.step_of_ne {u : T} (hi : s.Searching u) (hwf : s.config.WellFormed)
    (hall : s.config.AllNamed) (hu : u ≠ t) (hst : s.Steady req (t, env))
    (h : Stepped req s s' t env) : s'.Searching u := by
  -- what is to come to `u` stays, since `u` is not between two tries of a cursor that moves
  have hto : ∀ {todo m j}, todo = List.range' m (n - m) →
      (∀ k rest, todo = k :: rest → s.nextTry u = some k) → ToCome s.config m j →
      ToCome s'.config m j := by
    rintro todo m j htodo hnext hj
    have hmn : m < n := by
      obtain ⟨p, hmp, hpn, -⟩ := hj
      omega
    obtain ⟨rest, hrest⟩ : ∃ rest, todo = m :: rest := by
      obtain ⟨l, hl⟩ : ∃ l, n - m = l + 1 := ⟨n - m - 1, by omega⟩
      exact ⟨_, by rw [htodo, hl, List.range'_succ]⟩
    have hm := hnext m rest hrest
    exact hj.step hwf hall h (fun todo x hc => hst.high (by simp [choosing, hc]) u hu m hm)
      fun todo x hc => hst.low (by simp [choosing, hc]) u hu m hm
  unfold Searching at hi ⊢
  rw [h.stage_of_ne u hu]
  cases hs : s.stage u with
  | start => trivial
  | choose todo x =>
      simp only [hs] at hi ⊢
      obtain ⟨hsucc, m, htodo, hj⟩ := hi
      refine ⟨hsucc, m, htodo, fun j => (hj j).imp (fun hc => hc.step h) (hto htodo ?_)⟩
      rintro k rest rfl
      simp [nextTry, hs]
  | ask i todo x =>
      simp only [hs] at hi ⊢
      obtain ⟨hsucc, m, htodo, hj⟩ := hi
      refine ⟨hsucc, m, htodo, fun j => (hj j).imp (fun hc => hc.step h)
        (Or.imp_right (hto htodo ?_))⟩
      rintro k rest rfl
      simp [nextTry, hs]
  | disable todo x | finish x =>
      simp only [hs] at hi ⊢
      exact fun hsucc j => (hi hsucc j).step h
  | done r fh =>
      simp only [hs] at hi ⊢
      exact fun hret j => (hi hret j).step h
  | loop | store | unwind | close => simp only [hs] at hi

/-- The request's own step. -/
theorem Searching.step_self (hi : s.Searching t) (hse : (req t).searches = true)
    (hwf : s.config.WellFormed) (hall : s.config.AllNamed) (hst : s.Steady req (t, env))
    (h : Stepped req s s' t env) : s'.Searching t := by
  obtain ⟨evs, hmove, htr⟩ := h.move
  have hcov : ∀ {j}, s.Covered t j → s'.Covered t j := fun hc => hc.step h
  unfold Searching at hi
  generalize hs : s.stage t = st at hmove hi
  generalize hs' : s'.stage t = st' at hmove
  generalize hc' : s'.config = c' at hmove
  cases hmove with
  | refused e he =>
      rw [hst.begins (by simp [begun, hs]) hse] at he
      cases he
  | goesOver hno =>
      rw [hse] at hno
      cases hno
  | releases hrel =>
      rw [Request.releases_of_searches hse] at hrel
      cases hrel
  | searches =>
      simp only [Searching, hs']
      refine ⟨trivial, 0, by rw [Nat.sub_zero, List.range_eq_range'], fun j => Or.inr ?_⟩
      obtain ⟨p, hp, htry⟩ := hwf.exists_try hall j
      exact ⟨p, p.zero_le, hp, by rw [hc']; exact htry⟩
  | triesEnd =>
      obtain ⟨hsucc, m, htodo, hj⟩ := hi
      have hnm : n ≤ m := by
        have hlen := congrArg List.length htodo
        rw [List.length_range', List.length_nil] at hlen
        omega
      have hall' : ∀ j, s'.Covered t j := fun j => hcov ((hj j).resolve_right fun ⟨p, _, _, _⟩ => by
        omega)
      rcases Locals.conclude_cases _ with hx | hx
      all_goals
        rw [hx] at hs'
        simp only [Searching, hs']
        exact fun _ => hall'
  | @chose k todo x i _ hk =>
      obtain ⟨hsucc, m, htodo, hj⟩ := hi
      obtain ⟨rfl, hmn, htodo⟩ := eq_of_cons_eq_range' htodo
      simp only [Searching, hs']
      refine ⟨hsucc, k + 1, htodo, fun j => (hj j).imp hcov fun hto => ?_⟩
      have hto' : ToCome s'.config k j := by
        refine hto.step hwf hall h (fun todo' x' heq => ?_) fun todo' x' heq => ?_
        all_goals
          rw [hs] at heq
          cases heq
        · exact Or.inl rfl
        · exact le_rfl
      obtain ⟨p, hkp, hpn, hp⟩ := hto'
      rcases Nat.eq_or_lt_of_le hkp with rfl | hlt
      · left
        rw [hc', (Config.chooseReplica_eq hk).1] at hp
        exact (Option.some.inj hp).symm
      · exact Or.inr ⟨p, hlt, hpn, hp⟩
  | @attended i todo x x' _ hq htally =>
      obtain ⟨hsucc, m, htodo, hj⟩ := hi
      split_ifs at hs' with hok
      · -- the search is answered
        have hne : x'.tally.succCnt ≠ 0 := by
          obtain ⟨r, hr⟩ := Fate.isOk_iff.mp hok
          rw [htally, hr]
          exact Nat.succ_ne_zero _
        rcases Locals.conclude_cases x' with hx | hx
        all_goals
          rw [hx] at hs'
          simp only [Searching, hs']
          exact fun h0 => absurd h0 hne
      · simp only [Searching, hs']
        refine ⟨?_, m, htodo, fun j => ?_⟩
        · by_contra hne
          rw [htally] at hne
          exact (Tally.add_succCnt_ne_zero hne).elim hok fun h0 => h0 hsucc
        · rcases hj j with hj | rfl | hto
          · exact Or.inl (hcov hj)
          · -- an enabled replica that was asked
            refine Or.inl fun hen => ?_
            have hen := h.effect.enabled_of_enabled hen
            obtain ⟨cl, hcl⟩ :=
              Option.ne_none_iff_exists'.mp (hst.asks j (by simp [asking, hs]) hen)
            refine (did_append htr t _).mpr (Or.inr ⟨rfl, ?_⟩)
            rw [Request.ask, Config.guarded_of_enabled hen, hcl]
            exact ⟨_, List.mem_singleton_self _, rfl⟩
          · refine Or.inr (hto.step hwf hall h (fun todo' x' heq => ?_) fun todo' x' heq => ?_)
            all_goals
              rw [hs] at heq
              cases heq
  | spared | disabled | disableEnd =>
      simp only [Searching, hs']
      exact fun hsucc j => hcov (hi hsucc j)
  | failed hsucc =>
      simp only [Searching, hs']
      exact fun _ j => hcov (hi hsucc j)
  | @answered x hne =>
      simp only [Searching, hs']
      exact fun hret => absurd (Request.result_ret_nonneg hse x) (not_le.mpr hret)
  | sought hne hop =>
      rw [Request.opens_of_searches hse] at hop
      cases hop
  | _ => cases hi

/-- **One step** of whatever request. -/
theorem searching_of_step [DecidableEq T]
    (hi : ∀ u, (req u).searches = true → s.Searching u) (hwf : s.config.WellFormed)
    (hall : s.config.AllNamed) (hst : s.Steady req (t, env))
    (hstep : s.step req (t, env) = some s') : ∀ u, (req u).searches = true → s'.Searching u := by
  intro u hse
  have h := stepped_of_step hstep
  by_cases hu : u = t
  · subst hu
    exact (hi u hse).step_self hse hwf hall hst h
  · exact (hi u hse).step_of_ne hwf hall hu hst h

end Pool

/-! ## Two searches that overlap -/

/-- Two requests for the attributes of `/f`. -/
def twoGetattrs : Bool → Request := fun _ => .getattr fileF

/-- The first request fails on replica `1`; the second one moves the cursor; the first one asks
replica `1` again. -/
def cursorMoves : List (Bool × Env 2) :=
  List.replicate 3 (false, secondFails {} EACCES) ++
    List.replicate 2 (true, secondFails {} EACCES) ++
    List.replicate 4 (false, secondFails {} EACCES)

/-- The first request fails although replica `0` is enabled and would have answered. -/
theorem search_misses :
    (rootPool Bool).StartsOn twoReplicas ∧
      ∃ s, Machine.runFrom (Pool.step twoGetattrs) (rootPool Bool) cursorMoves = some s ∧
        s.stage false = .done { ret := -13 } none ∧ s.config.enabled 0 ∧ ¬ s.Asked false 0 :=
  ⟨⟨rfl, fun _ => rfl⟩, _, rfl, rfl, by decide, by decide⟩

section mounted

variable {fs : Path} {menv : MountEnv} {uid gid : ℕ}
  {memory : ℕ → Option (Fin (maxReplica fs) → ℤ)} {c : Config (maxReplica fs)}
  {s : Pool T (maxReplica fs)} {req : T → Request} [DecidableEq T]

/-- **When cursors stand still, searches reach every replica.** On a replica list without empty
components and with a high-priority one, in every run whose steps are steady: a request that stops
at the first answer and returns an error has asked every replica that is enabled. -/
theorem readers_reach_all (hfs : ∀ p ∈ components fs, p ≠ [])
    (hc : doMount menv uid gid fs memory = some c)
    (hs : Machine.ReachableBy (Pool.step req) (Pool.Steady req) (Pool.StartsOn c) s) {t : T}
    (hse : (req t).searches = true) {r : Response} {fh : Option ℕ} (hdone : s.stage t = .done r fh)
    (hret : r.ret < 0) (i : Fin (maxReplica fs)) (hen : s.config.enabled i) : s.Asked t i := by
  have hm := doMount_mounted hc
  have hinv : c.SameLayout s.config ∧ ∀ u, (req u).searches = true → s.Searching u := by
    refine hs.invariant (I := fun s => c.SameLayout s.config ∧
      ∀ u, (req u).searches = true → s.Searching u) ?_ ?_
    · rintro s₀ ⟨rfl, hstart⟩
      exact ⟨.refl _, fun u _ => by simp [Pool.Searching, hstart]⟩
    · rintro s₁ ⟨u, env⟩ s₂ hst ⟨hlay, hi⟩ hstep
      exact ⟨hlay.trans (Pool.stepped_of_step hstep).effect.sameLayout,
        Pool.searching_of_step hi (hlay.wellFormed hm.wellFormed)
          (hlay.allNamed (hm.allNamed hfs)) hst hstep⟩
  have hsearch := hinv.2 t hse
  simp only [Pool.Searching, hdone] at hsearch
  exact hsearch hret i hen

end mounted

/-- A `getattr` on `/a=:/b` that fails on both. -/
def failsTwice : List (Bool × Env (maxReplica listAB)) :=
  List.replicate 7 (false, plainEnv fun _ _ => .error EACCES)

theorem readers_reach_all_listAB :
    ∃ c : Config (maxReplica listAB), doMount plainMount 0 0 listAB (fun _ => none) = some c ∧
      ∃ s, Machine.runFrom (Pool.step twoGetattrs)
          { config := c, creds := .ofUser 0 0, stage := fun _ => .start } failsTwice = some s ∧
        ∀ i, s.Asked false i := by
  obtain ⟨c, hc, s, hrun, hmeets, hdone, hen⟩ :
      ∃ c : Config (maxReplica listAB), doMount plainMount 0 0 listAB (fun _ => none) = some c ∧
        ∃ s, Machine.runFrom (Pool.step twoGetattrs)
            { config := c, creds := .ofUser 0 0, stage := fun _ => .start } failsTwice = some s ∧
          Machine.Meets (Pool.step twoGetattrs) (Pool.Steady twoGetattrs)
            { config := c, creds := .ofUser 0 0, stage := fun _ => .start } failsTwice ∧
          s.stage false = .done { ret := -13 } none ∧ ∀ i, s.config.enabled i :=
    ⟨_, rfl, _, rfl, by decide, rfl, by decide⟩
  exact ⟨c, hc, s, hrun, fun i => readers_reach_all (by decide) hc
    ⟨_, _, ⟨rfl, fun _ => rfl⟩, hmeets, hrun⟩ rfl hdone (by decide) i (hen i)⟩

end ChironFs
