import ChironFs.Results.LastReplica
import ChironFs.Results.Progress
import ChironFs.Spec.Parallel

/-!
# One good replica is enough

* `Pool.Serves`: what is assumed of a step: it is orderly, memory is there, and replica `k` answers
  whatever it is called for. The other replicas may do what they like.
* `Pool.Carries`: then a request that goes over the replicas is answered by replica `k`, stage by stage.
* `good_replica_carries`: so replica `k` is never disabled, and what programs ask is done.
-/

namespace ChironFs

open Posix Replication

variable {n : ℕ} {T : Type*}

namespace Pool

/-- The request made a call on replica `k`. -/
def Called (s : Pool T n) (t : T) (k : Fin n) : Prop := s.Did t fun ev => ev.calledOn = some k

/-- What is assumed of a step. -/
structure Serves (req : T → Request) (k : Fin n) (s : Pool T n) (a : T × Env n) : Prop where
  orderly : s.Orderly req a
  calloc : ∀ j, a.2.calloc j = true
  malloc : ∀ j, a.2.malloc k j = true
  answers : ∀ cr cl, ∃ r, a.2.call cr k cl = .ok r

/-- What replica `k` has done for a request at its stage. -/
def Carries (req : T → Request) (k : Fin n) (s : Pool T n) (t : T) : Prop :=
  match s.stage t with
  | .start => ¬ s.Called t k
  | .loop todo x => (req t).searches = false ∧ x.tally.errList k = 0 ∧ 0 ≤ x.wMax ∧
      (k ∈ todo ∨ x.tally.succCnt ≠ 0 ∧ ((req t).opens = true → 0 ≤ x.fd k))
  | .choose _ x | .ask _ _ x =>
      (req t).searches = true ∧ x.tally.errList k = 0 ∧ ¬ s.Called t k
  | .disable _ x => x.tally.errList k = 0 ∧ x.tally.succCnt ≠ 0 ∧
      ((req t).searches = false → 0 ≤ x.wMax) ∧ ((req t).opens = true → 0 ≤ x.fd k)
  | .finish x => (x.tally.succCnt = 0 → (req t).searches = true ∧ ¬ s.Called t k) ∧
      ((req t).searches = false → 0 ≤ x.wMax) ∧ ((req t).opens = true → 0 ≤ x.fd k)
  | .store _ x => (req t).opens = true ∧ 0 ≤ x.fd k
  | .unwind .. => (req t).opens = true
  | .close .. => (req t).releases = true
  | .done r _ => (req t).releases = true ∨ 0 ≤ r.ret ∨
      ((req t).opens = true ∧ r.ret = EMFILE.neg) ∨
      ((req t).supported = false ∧ r.ret = ENOSYS.neg) ∨
      ((req t).searches = true ∧ ¬ s.Called t k)

/-- Replica `k` is in service: it has a path and is enabled, every open file has a descriptor there, and
it carries every request. -/
structure InService (req : T → Request) (k : Fin n) (s : Pool T n) : Prop where
  named : (s.config.replicas k).path ≠ none
  enabled : s.config.enabled k
  files : ∀ f ∈ s.live, 0 ≤ f.fd k
  carries : ∀ t, s.Carries req k t

end Pool

/-! ## One round -/

namespace Tally

variable {t : Tally n} {i j : Fin n} {f : Fate Reply Errno} {evs : List (Event n)}

theorem errList_add_of_ne (h : j ≠ i) : (t.add i f evs).errList j = t.errList j := by
  cases f with
  | failed e => exact Function.update_of_ne h _ _
  | ok | skipped => rfl

theorem errList_add_of_isOk (h : f.isOk = true) : (t.add i f evs).errList = t.errList := by
  cases f with
  | ok r => rfl
  | skipped | failed => cases h

theorem succCnt_add_of_isOk (h : f.isOk = true) : (t.add i f evs).succCnt ≠ 0 := by
  cases f with
  | ok r => exact Nat.succ_ne_zero _
  | skipped | failed => cases h

theorem succCnt_add_ne_zero (h : t.succCnt ≠ 0) : (t.add i f evs).succCnt ≠ 0 := by
  cases f with
  | ok r => exact Nat.succ_ne_zero _
  | skipped | failed => exact h

end Tally

namespace Request

variable {q : Request} {env : Env n} {cr : Creds} {c c' : Config n} {i : Fin n}
  {todo todo' : List (Fin n)} {x x' : Locals n} {evs : List (Event n)}

/-- The largest count of a write only grows. -/
theorem wMax_le_visit (h : q.visit env cr c i todo x = some (c', .loop todo' x', evs)) :
    x.wMax ≤ x'.wMax := by
  cases q with
  | write fh buf offset =>
      simp only [visit] at h
      split_ifs at h
      · cases h
        exact le_rfl
      · obtain ⟨fd, hfd, h⟩ := Option.bind_eq_some_iff.mp h
        rw [writeLoop_eq _ _ _ _ _ _ (List.nodup_singleton i)] at h
        cases h
        simp only [maxCount]
        split
        · exact le_max_right _ _
        · exact le_rfl
  | mknod path mode rdev =>
      simp only [visit] at h
      split at h <;> cases h
      exact le_rfl
  | _ =>
      cases h
      exact le_rfl

/-- With its memory, and with a slot for its handle, a request is not refused. -/
theorem begin_ne_done (hcalloc : ∀ j, env.calloc j = true)
    (hslot : ∀ fh, q.uses = some fh → c.tabFd fh ≠ none) (r : Response) (fh : Option ℕ) :
    q.begin env c ≠ .done r fh := by
  cases q with
  | release fh | read fh | write fh =>
      have hsome := hslot fh rfl
      simp [begin, hcalloc, hsome]
  | _ => simp [begin, hcalloc]

/-- What was answered is not an error. -/
theorem result_nonneg (h : q.searches = false → 0 ≤ x.wMax) : 0 ≤ (q.result x).ret := by
  have hans : 0 ≤ (answer q.respond x.found).ret := by
    cases x.found with
    | none => exact le_rfl
    | some a => exact q.respond_ret_nonneg a.2
  cases q with
  | write => exact h rfl
  | _ => exact hans

end Request

namespace Pool

variable {req : T → Request} {s s' : Pool T n} {t u : T} {env : Env n} {k : Fin n} {x : Locals n}
  {evs : List (Event n)}

/-! ## One step -/

/-- The descriptors of the open files after a step. -/
theorem Stepped.fd_of_live (hst : Stepped req s s' t env) {f : OpenFile n} (hf : f ∈ s'.live) :
    (∃ g ∈ s.live, f.fd = g.fd) ∨ ∃ j x, s.stage t = .store j x ∧ f.fd = x.fd := by
  rw [hst.live] at hf
  unfold liveAfter at hf
  split at hf
  · obtain ⟨g, hg, rfl⟩ := List.mem_map.mp hf
    refine Or.inl ⟨g, hg, ?_⟩
    split_ifs <;> rfl
  · rename_i j x r fh hs _
    rcases List.mem_cons.mp hf with rfl | hf
    · exact Or.inr ⟨j, x, hs, rfl⟩
    · exact Or.inl ⟨f, hf, rfl⟩
  · exact Or.inl ⟨f, List.mem_of_mem_filter hf, rfl⟩
  · exact Or.inl ⟨f, hf, rfl⟩

/-- The other requests are carried as before. -/
theorem Carries.of_ne (h : s.Carries req k u) (hst : Stepped req s s' t env)
    (htrace : s'.trace = s.trace ++ evs.map fun ev => (t, ev)) (hu : u ≠ t) : s'.Carries req k u := by
  have hcalled : s'.Called u k ↔ s.Called u k := by
    rw [Called, Called, did_append htrace]
    simp [hu]
  unfold Carries at h ⊢
  rw [hst.stage_of_ne u hu]
  simpa only [hcalled] using h

/-- A call on replica `k` is answered. -/
theorem Serves.attempt_eq (h : s.Serves req k (t, env)) (cr : Creds) {a : Option Call} :
    (a = none ∧ attempt env cr k a = .skipped ∧ attemptEvents env cr k a = []) ∨
      (attempt env cr k a).isOk = true := by
  cases a with
  | none => exact Or.inl ⟨rfl, rfl, rfl⟩
  | some cl =>
      obtain ⟨r, hr⟩ := h.answers cr cl
      refine Or.inr ?_
      rw [attempt_some, hr]
      rfl

/-- **A round of the loop over all replicas.** -/
theorem Carries.visited (h : s.Carries req k t) (hk : s.InService req k) (hs : s.Sound req)
    (hserves : s.Serves req k (t, env)) {i : Fin n} {todo : List (Fin n)} {x' : Locals n}
    (hat : s.stage t = .loop (i :: todo) x) (hat' : s'.stage t = .loop todo x')
    (hadv : (req t).visit env s.creds s.config i todo x = some (s'.config, .loop todo x', evs))
    (htally : x'.tally = x.tally.add i ((req t).visitFate env s.creds s.config i) evs) :
    s'.Carries req k t := by
  have hrel : (req t).releases = false := hs.not_releases hat
  simp only [Carries, hat] at h
  simp only [Carries, hat']
  obtain ⟨hse, herr, hw, hmine⟩ := h
  -- replica `k` answers when it is its turn
  have hok : i = k → ((req t).visitFate env s.creds s.config i).isOk = true := by
    rintro rfl
    have hx : ∀ path j, env.xlate s.config path i j ≠ none := fun path j => by
      obtain ⟨r, hr⟩ := Option.ne_none_iff_exists'.mp hk.named
      have hmem := hserves.malloc j
      simp only at hmem
      simp [Env.xlate, xlate, hr, hmem]
    have hcall := Request.call_ne_none (Request.supported_of_visit hk.enabled hx hadv) hrel hx
      fun fh hfh => by
        obtain ⟨f, hf, rfl, -⟩ := hs.inUse t fh (by rw [busy, hat]) hfh hrel
        exact ⟨f.fd, hs.slots.distinct.slot f hf, hk.files f hf⟩
    unfold Request.visitFate
    rw [if_neg fun hno => hcall hno.2.2]
    refine (hserves.attempt_eq s.creds).resolve_left fun hno => hcall ?_
    have hask := hno.1
    rwa [Request.ask, Config.guarded_of_enabled hk.enabled] at hask
  refine ⟨hse, ?_, hw.trans (Request.wMax_le_visit hadv), ?_⟩
  · rw [htally]
    by_cases hik : i = k
    · rw [Tally.errList_add_of_isOk (hok hik), herr]
    · rw [Tally.errList_add_of_ne (Ne.symm hik), herr]
  · by_cases hik : i = k
    · refine Or.inr ⟨htally ▸ Tally.succCnt_add_of_isOk (hok hik), fun hop => ?_⟩
      obtain ⟨r, hr⟩ := Fate.isOk_iff.mp (hok hik)
      rw [← hik, (Request.visit_fd hop hadv).1, hr]
      exact Int.natCast_nonneg _
    · refine hmine.imp (fun hmem => (List.mem_cons.mp hmem).resolve_left (Ne.symm hik))
        fun hand => ⟨htally ▸ Tally.succCnt_add_ne_zero hand.1, fun hop => ?_⟩
      rw [(Request.visit_fd hop hadv).2 k (Ne.symm hik)]
      exact hand.2 hop

/-- **A round of a search.** -/
theorem Carries.attended (h : s.Carries req k t) (hserves : s.Serves req k (t, env))
    {i : Fin n} {todo : List ℕ} {x' : Locals n} (hat : s.stage t = .ask i todo x)
    (hat' : s'.stage t = if (attempt env s.creds i ((req t).ask env s.config i)).isOk then x'.conclude
      else .choose todo x')
    (htrace : s'.trace = s.trace ++ evs.map fun ev => (t, ev))
    (hevs : evs = attemptEvents env s.creds i ((req t).ask env s.config i))
    (htally : x'.tally =
      x.tally.add i (attempt env s.creds i ((req t).ask env s.config i)) evs) :
    s'.Carries req k t := by
  simp only [Carries, hat] at h
  obtain ⟨hse, herr, hnot⟩ := h
  have hop : (req t).opens = true → False := fun hop => by
    rw [Request.opens_of_searches hse] at hop
    cases hop
  have hno : (req t).searches = false → False := fun hno => by
    rw [hse] at hno
    cases hno
  have herr' : (attempt env s.creds i ((req t).ask env s.config i)).isOk = true ∨ i ≠ k →
      x'.tally.errList k = 0 := by
    rintro (hok | hik)
    · rw [htally, Tally.errList_add_of_isOk hok, herr]
    · rw [htally, Tally.errList_add_of_ne (Ne.symm hik), herr]
  by_cases hok : (attempt env s.creds i ((req t).ask env s.config i)).isOk = true
  · rw [if_pos hok] at hat'
    have hne : x'.tally.succCnt ≠ 0 := htally ▸ Tally.succCnt_add_of_isOk hok
    rcases x'.conclude_cases with hx | hx
    · simp only [Carries, hat', hx]
      exact ⟨herr' (Or.inl hok), hne, fun hf => (hno hf).elim, fun hf => (hop hf).elim⟩
    · simp only [Carries, hat', hx]
      exact ⟨fun hz => absurd hz hne, fun hf => (hno hf).elim, fun hf => (hop hf).elim⟩
  · rw [if_neg hok] at hat'
    simp only [Carries, hat']
    by_cases hik : i = k
    · -- replica `k` was passed over
      subst hik
      obtain ⟨-, hskip, hnil⟩ := (hserves.attempt_eq s.creds).resolve_right hok
      rw [hnil] at hevs
      rw [hskip, hevs, Tally.add_skipped] at htally
      rw [hevs, List.map_nil, List.append_nil] at htrace
      exact ⟨hse, htally ▸ herr, by rw [Called, Did, htrace]; exact hnot⟩
    · refine ⟨hse, herr' (Or.inr hik), ?_⟩
      rw [Called, did_append htrace]
      rintro (hold | ⟨-, ev, hev, hcalled⟩)
      · exact hnot hold
      · rw [hevs] at hev
        cases ha : (req t).ask env s.config i with
        | none =>
            rw [ha] at hev
            cases hev
        | some cl =>
            rw [ha, attemptEvents] at hev
            obtain rfl := List.mem_singleton.mp hev
            exact hik (Option.some.inj hcalled)

/-- **One step of a request** that replica `k` carries. -/
theorem Carries.step (h : s.Carries req k t) (hk : s.InService req k) (hs : s.Sound req)
    (hserves : s.Serves req k (t, env)) (hst : Stepped req s s' t env)
    (hadv : (req t).advance env s.creds s.config (s.stage t) = some (s'.config, s'.stage t, evs))
    (htrace : s'.trace = s.trace ++ evs.map fun ev => (t, ev)) : s'.Carries req k t := by
  have hcalled : evs = [] → (s'.Called t k ↔ s.Called t k) := by
    rintro rfl
    rw [Called, Called, Did, Did, htrace, List.map_nil, List.append_nil]
  have hmove := Request.move_of_advance hadv
  have hwas := h
  generalize hat : s.stage t = st at hadv hmove
  generalize hat' : s'.stage t = st' at hadv hmove
  generalize hc : s'.config = c' at hadv hmove
  unfold Carries at h ⊢
  rw [hat] at h
  rw [hat']
  cases hmove with
  | refused e he =>
      refine absurd (congrArg (fun p => p.2.1) (Option.some.inj hadv))
        (Request.begin_ne_done hserves.calloc (fun fh hfh => ?_) _ _)
      obtain ⟨f, hf, rfl, -⟩ := exists_live_of_begun hst (by rw [busy, hat]) hfh
      rw [hs.slots.distinct.slot f hf]
      exact Option.some_ne_none _
  | goesOver hse => exact ⟨hse, rfl, le_rfl, Or.inl (List.mem_finRange k)⟩
  | searches hse => exact ⟨hse, rfl, (hcalled rfl).not.mpr h⟩
  | releases hrel => exact hrel
  | gaveUp hsup => exact Or.inr (Or.inr (Or.inr (Or.inl ⟨hsup, rfl⟩)))
  | visited _ htally =>
      have hgoal := hwas.visited hk hs hserves hat hat' (hc ▸ hadv) htally
      simpa only [Carries, hat'] using hgoal
  | @loopEnd x =>
      obtain ⟨hse, herr, hw, hmine⟩ := h
      obtain ⟨hne, hfd⟩ := hmine.resolve_left List.not_mem_nil
      rcases x.conclude_cases with hx | hx
      · rw [hx]
        exact ⟨herr, hne, fun _ => hw, hfd⟩
      · rw [hx]
        exact ⟨fun hz => absurd hz hne, fun _ => hw, hfd⟩
  | chose => exact ⟨h.1, h.2.1, (hcalled rfl).not.mpr h.2.2⟩
  | @triesEnd x =>
      obtain ⟨hse, herr, hnot⟩ := h
      have hop : (req t).opens ≠ true := by simp [Request.opens_of_searches hse]
      have hno : (req t).searches ≠ false := by simp [hse]
      unfold Locals.conclude
      split_ifs with hboth
      · exact ⟨herr, hboth.2, fun hf => absurd hf hno, fun hf => absurd hf hop⟩
      · exact ⟨fun _ => ⟨hse, (hcalled rfl).not.mpr hnot⟩, fun hf => absurd hf hno,
          fun hf => absurd hf hop⟩
  | attended _ htally =>
      have hgoal := hwas.attended hserves hat hat' htrace rfl htally
      simpa only [Carries, hat'] using hgoal
  | spared | disabled => exact h
  | disableEnd => exact ⟨fun hz => absurd hz h.2.1, h.2.2⟩
  | failed hz =>
      obtain ⟨hse, hnot⟩ := h.1 hz
      exact Or.inr (Or.inr (Or.inr (Or.inr ⟨hse, (hcalled rfl).not.mpr hnot⟩)))
  | answered hne hop => exact Or.inr (Or.inl (Request.result_nonneg h.2.1))
  | sought hne hop => exact ⟨hop, h.2.2 hop⟩
  | stored => exact Or.inr (Or.inl le_rfl)
  | noSlot => exact h.1
  | unwound => exact h
  | unwindEnd => exact Or.inr (Or.inr (Or.inl ⟨h, rfl⟩))
  | closed => exact h
  | emptied => exact Or.inl h

/-- **Replica `k` stays in service.** -/
theorem InService.step [DecidableEq T] (hk : s.InService req k) (hs : s.Sound req)
    (hserves : s.Serves req k (t, env)) (hstep : s.step req (t, env) = some s') :
    s'.InService req k := by
  have hst := stepped_of_step hstep
  obtain ⟨evs, hadv, htrace⟩ := advance_of_step hstep
  refine ⟨?_, hst.enabled_of_ne hk.enabled ?_, fun f hf => ?_, fun u => ?_⟩
  · rw [hst.effect.sameLayout.path]
    exact hk.named
  · -- it did not fail, so it is not disabled
    unfold disables
    split
    · rename_i i todo x hat
      have hcar := hk.carries t
      simp only [Carries, hat] at hcar
      split_ifs with hdis
      · intro hik
        obtain rfl := Option.some.inj hik
        exact hdis.2 hcar.1
      · exact fun hik => by cases hik
    · exact fun hik => by cases hik
  · rcases hst.fd_of_live hf with ⟨g, hg, hfd⟩ | ⟨j, x, hat, hfd⟩
    · rw [hfd]
      exact hk.files g hg
    · have hcar := hk.carries t
      simp only [Carries, hat] at hcar
      rw [hfd]
      exact hcar.2
  · by_cases hu : u = t
    · subst hu
      exact (hk.carries u).step hk hs hserves hst hadv htrace
    · exact (hk.carries u).of_ne hst htrace hu

end Pool

/-- **One good replica is enough.** In every run whose steps are orderly, in which memory is there and
replica `k`, which has a path, answers whatever it is called for, whatever the other replicas do:
replica `k` is never disabled, and of the requests that returned only these failed: a release; an
`open` or `create` without a slot; a `mknod` of a kind it does not make; a search that did not come
to replica `k`. -/
theorem good_replica_carries [DecidableEq T] {req : T → Request} {s₀ s : Pool T n} {k : Fin n}
    (h₀ : s₀.EmptyTable) (htrace : s₀.trace = []) (hpath : (s₀.config.replicas k).path ≠ none)
    (hk : s₀.config.enabled k) {l : List (T × Env n)}
    (hmeets : Machine.Meets (Pool.step req) (Pool.Serves req k) s₀ l)
    (hrun : Machine.runFrom (Pool.step req) s₀ l = some s) :
    s.config.enabled k ∧ ∀ t r fh, s.stage t = .done r fh → r.ret < 0 →
      (req t).releases = true ∨ ((req t).opens = true ∧ r.ret = EMFILE.neg) ∨
        ((req t).supported = false ∧ r.ret = ENOSYS.neg) ∨
        ((req t).searches = true ∧ ¬ s.Called t k) := by
  obtain ⟨-, hin⟩ : s.Sound req ∧ s.InService req k := by
    refine Machine.invariant_of_meets (I := fun s => s.Sound req ∧ s.InService req k) ?_ l s₀ s
      hmeets ⟨h₀.sound, hpath, hk, fun f hf => ?_, fun t => ?_⟩ hrun
    · rintro s₁ ⟨t, env⟩ s₂ hserves ⟨hs, hin⟩ hstep
      exact ⟨hs.step hserves.orderly (Pool.stepped_of_step hstep), hin.step hs hserves hstep⟩
    · rw [h₀.live] at hf
      cases hf
    · simp only [Pool.Carries, h₀.start t]
      rintro ⟨a, ha, -⟩
      rw [htrace] at ha
      cases ha
  refine ⟨hin.enabled, fun t r fh hdone hneg => ?_⟩
  have hcar := hin.carries t
  simp only [Pool.Carries, hdone] at hcar
  exact hcar.imp_right fun hrest => hrest.resolve_left (not_le.mpr hneg)

/-- Both requests at once, on replicas of which the second one fails every call. -/
def bothAtOnce : List (Bool × Env 2) :=
  (List.replicate 8 [(false, secondFails {} EACCES), (true, secondFails {} EACCES)]).flatten

/-- The second replica is lost, the first one is not, and both requests are done. -/
theorem good_replica_carries_bothAtOnce :
    ∃ s, Machine.runFrom (Pool.step twoTruncates) (rootPool Bool) bothAtOnce = some s ∧
      ¬ s.config.enabled 1 ∧ s.config.enabled 0 ∧
      ∀ t r fh, s.stage t = .done r fh → 0 ≤ r.ret := by
  have hmeets : Machine.Meets (Pool.step twoTruncates) (Pool.Serves twoTruncates 0) (rootPool Bool)
      bothAtOnce := by
    have hord : Machine.Meets (Pool.step twoTruncates) (Pool.Orderly twoTruncates) (rootPool Bool)
        bothAtOnce := by decide
    refine hord.imp_of_mem fun a ha s hs => ?_
    obtain ⟨t, rfl⟩ : ∃ t, a = (t, secondFails {} EACCES) := by
      simp only [bothAtOnce, List.mem_flatten, List.mem_replicate] at ha
      obtain ⟨m, ⟨-, rfl⟩, ha⟩ := ha
      rcases List.mem_pair.mp ha with rfl | rfl
      · exact ⟨false, rfl⟩
      · exact ⟨true, rfl⟩
    exact ⟨hs, fun _ => rfl, fun _ => rfl, fun _ _ => ⟨_, rfl⟩⟩
  obtain ⟨s, hrun, hdis⟩ : ∃ s, Machine.runFrom (Pool.step twoTruncates) (rootPool Bool) bothAtOnce =
      some s ∧ ¬ s.config.enabled 1 := ⟨_, rfl, by decide⟩
  have h₀ : (rootPool Bool).EmptyTable := ⟨fun _ => rfl, rfl, by decide, fun _ _ => rfl⟩
  obtain ⟨hen, hdone⟩ :=
    good_replica_carries h₀ rfl (k := 0) (Option.some_ne_none _) rfl hmeets hrun
  refine ⟨s, hrun, hdis, hen, fun t r fh hd => ?_⟩
  by_contra hneg
  rcases hdone t r fh hd (not_le.mp hneg) with h | ⟨h, -⟩ | ⟨h, -⟩ | ⟨h, -⟩ <;> cases h

end ChironFs
