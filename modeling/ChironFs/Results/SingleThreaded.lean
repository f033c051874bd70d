import ChironFs.Lib.Simulation
import ChironFs.Results.Ownership
import ChironFs.Spec.Alone
import ChironFs.Spec.Session

/-!
# One request at a time

With `-s` FUSE has a single thread, which serves a request to its end before it takes the next one.

* `Serial`: the daemon of a sequential run, and the requests that were made; `Serial.step`: one more.
* `Serial.Matches`: a pool in the state that a sequential run is in.
* `Serial.simulates`: what a handler does, the steps of the request do when nobody comes between.
* `single_threaded`: so every sequential run is an interleaving, and shows programs the same.
-/

namespace ChironFs

open Machine Posix

variable {n : ℕ} {T : Type*}

/-! ## The events of a step -/

theorem isCred_of_mem_attemptEvents {env : Env n} {cr : Creds} {i : Fin n} {a : Option Call}
    {ev : Event n} (h : ev ∈ attemptEvents env cr i a) : ev.isCred = false := by
  cases a with
  | none => cases h
  | some cl =>
      obtain rfl := List.mem_singleton.mp h
      rfl

theorem isCred_of_mem_mknodEvents {env : Env n} {cr : Creds} {i : Fin n} {a : Option Call}
    {ev : Event n} (h : ev ∈ mknodEvents env cr i a) : ev.isCred = false := by
  unfold mknodEvents at h
  split at h
  · simp only at h
    split at h
    · rcases List.mem_pair.mp h with rfl | rfl <;> rfl
    · obtain rfl := List.mem_singleton.mp h
      rfl
  · exact isCred_of_mem_attemptEvents h

/-- A step of a request leaves the ids of the process alone. -/
theorem Request.isCred_of_advance {q : Request} {env : Env n} {cr : Creds} {c c' : Config n}
    {st st' : Stage n} {evs : List (Event n)} (h : q.advance env cr c st = some (c', st', evs))
    {ev : Event n} (hev : ev ∈ evs) : ev.isCred = false := by
  have hcloses : ∀ {i : Fin n} {v : ℤ}, ev.Closes c i v → ev.isCred = false := by
    rintro i v ⟨-, cr, res, rfl⟩
    rfl
  cases htouch : st.touches with
  | false =>
      have hlog := isLog_of_advance h htouch hev
      cases ev <;> first | rfl | cases hlog
  | true =>
      cases st with
      | loop todo x =>
          cases todo with
          | nil => cases htouch
          | cons i todo =>
              rcases visit_cases h with ⟨-, -, -, rfl⟩ | ⟨rfl, -⟩
              · cases hev
              · unfold visitEvents at hev
                split at hev
                · exact isCred_of_mem_mknodEvents hev
                · exact isCred_of_mem_attemptEvents hev
      | ask i todo x =>
          simp only [advance] at h
          split_ifs at h
          obtain ⟨rfl, -⟩ := attend_cases (Option.some.inj h)
          exact isCred_of_mem_attemptEvents hev
      | unwind todo x =>
          cases todo with
          | nil => cases htouch
          | cons i todo =>
              cases h
              exact hcloses (closes_of_mem_closeOpened hev)
      | close todo r =>
          cases todo with
          | nil => cases htouch
          | cons i todo =>
              obtain ⟨fd, -, h⟩ := Option.bind_eq_some_iff.mp h
              cases h
              exact hcloses (closes_of_mem_releaseLoop hev)
      | _ => cases htouch

/-! ## The open files while a request runs alone -/

theorem Request.uses_of_releasedFh {q : Request} {fh : ℕ} (h : q.releasedFh = some fh) :
    q.uses = some fh := by
  cases q <;> cases h
  rfl

/-- The request that begins a release marks its file. -/
def OpenFile.mark (q : Request) (f : OpenFile n) : OpenFile n :=
  if q.releasedFh = some f.fh then { f with releasing := true } else f

namespace Pool

variable {req : T → Request} {s s' : Pool T n} {t : T} {env : Env n}

/-- The open files at a stage of a request that began with `files` and the table `tab`, and that
nobody interrupted. -/
def FilesAlone (req : T → Request) (files : List (OpenFile n)) (tab : ℕ → Option (Fin n → ℤ)) (t : T)
    (s : Pool T n) : Prop :=
  match s.stage t with
  | .start => s.config.tabFd = tab ∧ s.live = files
  | .close .. => (req t).releases = true ∧ s.live = files.map (OpenFile.mark (req t))
  | .done r (some k) => (req t).opens = true ∧ r.ret = 0 ∧
      ∃ fd, s.config.tabFd k = some fd ∧ s.live = { fh := k, fd := fd } :: files
  | .done _ none => s.live = if (req t).releases = true then
      (files.map (OpenFile.mark (req t))).filter fun f =>
        ¬ ((req t).releasedFh = some f.fh ∧ f.releasing = true)
      else files
  | .store .. => (req t).opens = true ∧ s.live = files
  | _ => (req t).releases = false ∧ s.live = files

theorem FilesAlone.step {files : List (OpenFile n)} {tab : ℕ → Option (Fin n → ℤ)}
    (h : s.FilesAlone req files tab t)
    (hslot : ∀ fh, (req t).releasedFh = some fh → tab fh ≠ none) (hst : Stepped req s s' t env) :
    s'.FilesAlone req files tab t := by
  obtain ⟨evs, hmove, -⟩ := hst.move
  have hlive := hst.live
  unfold FilesAlone at h ⊢
  generalize hat : s.stage t = st at h hmove hlive
  generalize hat' : s'.stage t = st' at hmove hlive
  generalize hc : s.config = c at h hmove
  generalize hc' : s'.config = c' at hmove
  have hkept : ∀ {L : List (OpenFile n)}, (req t).releases = false → L = files →
      L = if (req t).releases = true then (files.map (OpenFile.mark (req t))).filter fun f =>
        ¬ ((req t).releasedFh = some f.fh ∧ f.releasing = true) else files := fun hrel hL => by
    rw [hrel, hL]
    rfl
  cases hmove with
  | refused e he =>
      refine hkept ?_ (hlive.trans h.2)
      cases hq : req t with
      | release fh =>
          rw [hq, Request.early, h.1] at he
          obtain ⟨fd, hfd⟩ := Option.ne_none_iff_exists'.mp (hslot fh (by rw [hq]; rfl))
          rw [hfd] at he
          cases he
      | _ => rfl
  | goesOver hse hrel => exact ⟨hrel, hlive.trans h.2⟩
  | searches hse => exact ⟨Request.releases_of_searches hse, hlive.trans h.2⟩
  | releases hrel => exact ⟨hrel, hlive.trans (h.2 ▸ rfl)⟩
  | gaveUp | failed | answered | unwindEnd => exact hkept h.1 (hlive.trans h.2)
  | @loopEnd x | @triesEnd x =>
      rcases x.conclude_cases with hx | hx
      all_goals
        rw [hx] at hlive ⊢
        exact ⟨h.1, hlive.trans h.2⟩
  | @attended i todo x x' =>
      by_cases hok : (attempt env s.creds i ((req t).ask env c i)).isOk = true
      · rw [if_pos hok] at hlive ⊢
        rcases x'.conclude_cases with hx | hx
        all_goals
          rw [hx] at hlive ⊢
          exact ⟨h.1, hlive.trans h.2⟩
      · rw [if_neg hok] at hlive ⊢
        exact ⟨h.1, hlive.trans h.2⟩
  | visited | chose | spared | disabled | disableEnd | unwound | closed =>
      exact ⟨h.1, hlive.trans h.2⟩
  | sought hne hop => exact ⟨hop, hlive.trans h.2⟩
  | @stored k x =>
      exact ⟨h.1, rfl, x.fd, Function.update_self .., hlive.trans (h.2 ▸ rfl)⟩
  | noSlot => exact ⟨Request.releases_of_opens h.1, hlive.trans h.2⟩
  | emptied hfh =>
      rw [if_pos h.1, ← h.2]
      exact hlive

/-! ## A run of one request -/

variable [DecidableEq T]

/-- The response that a step returns. -/
def replies (req : T → Request) (s : Pool T n) (a : T × Env n) : Option (T × Response × Option ℕ) :=
  ((req a.1).advance a.2 s.creds s.config (s.stage a.1)).bind fun r =>
    match r.2.1 with
    | .done resp fh => some (a.1, resp, fh)
    | _ => none

/-- What the steps of one request keep, a run of them keeps. -/
theorem invariant_of_alone {I : Pool T n → Prop}
    (hI : ∀ s s', I s → s.step req (t, env) = some s' → I s') {k : ℕ} (h : I s)
    (hrun : runFrom (Pool.step req) s (List.replicate k (t, env)) = some s') : I s' :=
  Machine.invariant_of_meets (P := fun _ a => a = (t, env))
    (fun s _ s' ha h hstep => hI s s' h (ha ▸ hstep)) _ s s'
    (.of_forall_mem (fun _ ha _ => (List.mem_replicate.mp ha).2) s) h hrun

/-- A request that runs to its end returns once. -/
theorem observe_alone {r : Response} {fh : Option ℕ} (hdone : s'.stage t = .done r fh) :
    ∀ {k : ℕ} {s : Pool T n}, (∀ r fh, s.stage t ≠ .done r fh) →
      runFrom (Pool.step req) s (List.replicate k (t, env)) = some s' →
      observe (Pool.step req) (replies req) s (List.replicate k (t, env)) = [(t, r, fh)] := by
  intro k
  induction k with
  | zero =>
      intro s hne hrun
      cases hrun
      exact absurd hdone (hne r fh)
  | succ k ih =>
      intro s hne hrun
      rw [List.replicate_succ, runFrom_cons, Option.bind_eq_some_iff] at hrun
      obtain ⟨s₁, hs₁, hrun⟩ := hrun
      rw [List.replicate_succ, observe_cons hs₁]
      obtain ⟨evs, hadv, -⟩ := advance_of_step hs₁
      by_cases hend : ∃ r₁ fh₁, s₁.stage t = .done r₁ fh₁
      · -- then there are no more steps
        obtain ⟨r₁, fh₁, hend⟩ := hend
        cases k with
        | zero =>
            cases hrun
            obtain ⟨rfl, rfl⟩ := Stage.done.inj (hend.symm.trans hdone)
            simp [replies, hadv, hend, observe]
        | succ k =>
            rw [List.replicate_succ, runFrom_cons, Option.bind_eq_some_iff] at hrun
            obtain ⟨s₂, hs₂, -⟩ := hrun
            obtain ⟨evs', hadv', -⟩ := advance_of_step hs₂
            rw [hend] at hadv'
            cases hadv'
      · have hne' : ∀ r fh, s₁.stage t ≠ .done r fh := fun r fh heq => hend ⟨r, fh, heq⟩
        rw [ih hne' hrun]
        have hnone : replies req s (t, env) = none := by
          rw [replies, hadv, Option.bind_some]
          split
          · rename_i r₁ fh₁ heq
            exact absurd heq (hne' r₁ fh₁)
          · rfl
        rw [hnone]
        rfl

end Pool

/-! ## The daemon with one thread -/

/-- The open file of a live handle. -/
def Handle.file (x : Handle n) : OpenFile n := { fh := x.fh, fd := x.fd }

/-- A sequential run, and the requests made in it. -/
structure Serial (T : Type*) (n : ℕ) where
  session : Session n
  made : List T := []

namespace Serial

/-- A request that was not made yet is served to its end. -/
def step [DecidableEq T] (req : T → Request) (σ : Serial T n) (a : T × Env n) :
    Option (Serial T n) :=
  if a.1 ∈ σ.made then none
  else (σ.session.step (req a.1, a.2)).map fun s => { session := s, made := a.1 :: σ.made }

/-- The response it returns. -/
def replies (req : T → Request) (σ : Serial T n) (a : T × Env n) :
    Option (T × Response × Option ℕ) :=
  (handle (req a.1) a.2 σ.session.daemon).map fun o => (a.1, o.response, o.fh)

/-- The pool is where the sequential run is, with nothing under way. It does not record the calls
that set the ids of the process. -/
structure Matches (σ : Serial T n) (s : Pool T n) : Prop where
  config : s.config = σ.session.daemon.config
  live : s.live = σ.session.live.map Handle.file
  trace : s.trace.map Prod.snd = σ.session.trace.filter fun ev => !ev.isCred
  waiting : ∀ t ∉ σ.made, s.stage t = .start
  returned : ∀ t ∈ σ.made, ∃ r fh, s.stage t = .done r fh

/-- The calls of the request are made under these ids. -/
def RunsUnder (cr : Creds) (σ : Serial T n) (a : T × Env n) : Prop :=
  (dropPriv a.2 σ.session.daemon.creds).creds = cr

instance (cr : Creds) (σ : Serial T n) (a : T × Env n) : Decidable (RunsUnder cr σ a) := by
  unfold RunsUnder
  infer_instance

variable {req : T → Request} {σ : Serial T n} {s s' : Pool T n} {t : T} {env : Env n}
  {o : Outcome n}

theorem Matches.admits (h : σ.Matches s) {q : Request} (hadm : σ.session.admits q = true) :
    s.admits q = true := by
  have hany : ∀ fh, (s.live.any fun f => f.fh = fh && !f.releasing) =
      σ.session.live.any fun x => x.fh = fh := fun fh => by
    rw [h.live, List.any_map]
    congr 1
    funext x
    exact Bool.and_true _
  unfold Pool.admits
  simp only [hany]
  exact hadm

/-- An `open` or `create` that succeeds has a handle. -/
theorem fh_of_opens (hi : σ.session.Inv) {q : Request} (hop : q.opens = true)
    (ho : handle q env σ.session.daemon = some o) (hret : 0 ≤ o.response.ret) : ∃ k, o.fh = some k := by
  rcases handle_cases ho with ⟨e, -, rfl⟩ | ⟨fh, fd, rfl, -, -⟩ | ⟨he, -, -⟩
  · exact absurd hret (not_le.mpr e.neg_lt_zero)
  · cases hop
  · obtain rfl := Option.some.inj ((handle_opens hop he).symm.trans ho)
    rcases openOutcome_cases env σ.session.daemon hop with ⟨hs, hneg, -⟩ | ⟨-, hneg, -⟩ |
      ⟨-, -, -, k, hk, -⟩
    · rw [hneg] at hret
      exact absurd hret (not_le.mpr (Session.firstError_neg_of_opens hop hi.enabled hs))
    · rw [hneg] at hret
      exact absurd hret (not_le.mpr EMFILE.neg_lt_zero)
    · exact ⟨k, hk⟩

/-- The files that are left by a release. -/
theorem filter_marked (q : Request) (l : List (Handle n)) :
    ((l.map Handle.file).map (OpenFile.mark q)).filter
        (fun f => ¬ (q.releasedFh = some f.fh ∧ f.releasing = true)) =
      (l.filter fun x => q.releasedFh ≠ some x.fh).map Handle.file := by
  induction l with
  | nil => rfl
  | cons x l ih =>
      rw [List.map_cons, List.map_cons, List.filter_cons, List.filter_cons, ih]
      by_cases hx : q.releasedFh = some x.fh
      · simp [OpenFile.mark, Handle.file, hx]
      · simp [OpenFile.mark, Handle.file, hx]

/-- The open files after a request. -/
theorem Matches.live_after (h : σ.Matches s) (hi : σ.session.Inv) {q : Request}
    (hq : req t = q) (hadm : σ.session.admits q = true)
    (ho : handle q env σ.session.daemon = some o) (hconf : s'.config = o.daemon.config)
    (hdone : s'.stage t = .done o.response o.fh)
    (hfiles : s'.FilesAlone req s.live s.config.tabFd t) :
    s'.live = (σ.session.after q o).live.map Handle.file := by
  show _ = (σ.session.liveAfter q o).map Handle.file
  unfold Pool.FilesAlone at hfiles
  rw [hdone] at hfiles
  unfold Session.liveAfter
  cases hfh : o.fh with
  | some k =>
      rw [hfh] at hfiles
      obtain ⟨hop, hret, fd, hfd, hlive⟩ := hfiles
      rw [hq] at hop
      rw [if_pos ⟨hop, hret.ge⟩, hlive, h.live, List.map_cons]
      simp [Outcome.handle, Handle.file, hfh, ← hconf, hfd]
  | none =>
      rw [hfh] at hfiles
      have hno : ¬ (q.opens = true ∧ 0 ≤ o.response.ret) := by
        rintro ⟨hop, hret⟩
        obtain ⟨k, hk⟩ := fh_of_opens hi hop ho hret
        rw [hfh] at hk
        cases hk
      rw [if_neg hno, hfiles, hq, h.live]
      split_ifs with hrel
      · exact filter_marked q _
      · have hnone : q.releasedFh = none := by
          cases q <;> first | rfl | exact absurd rfl hrel
        simp [hnone]

/-- **One request**: the pool follows with the steps of its handler. -/
theorem simulates [DecidableEq T] (cr : Creds) :
    Simulates (step req) (Pool.step req) (RunsUnder cr) (replies req) (Pool.replies req)
      fun σ s => σ.session.Inv ∧ s.creds = cr ∧ (σ : Serial T n).Matches s := by
  rintro σ ⟨t, env⟩ σ' s hunder ⟨hi, hcr, hm⟩ hstep
  unfold step at hstep
  split_ifs at hstep with hmade
  obtain ⟨ses, hses, rfl⟩ := Option.map_eq_some_iff.mp hstep
  obtain ⟨hadm, o, ho, rfl⟩ := Session.step_eq_some_iff.mp hses
  have hstart := hm.waiting t hmade
  obtain ⟨k, s', body, hrun, hconf, hdone, hothers, htrace, hout⟩ :=
    Pool.run_alone hstart (hm.admits hadm) hm.config (hcr.trans hunder.symm) ho
  -- what the steps of the request keep
  have hcreds : s'.creds = cr := Pool.invariant_of_alone (I := fun s => s.creds = cr)
    (fun _ _ h hstep => (Pool.stepped_of_step hstep).creds.trans h) hcr hrun
  have hnot : ∀ a ∈ s'.trace, a.2.isCred = false := by
    refine Pool.invariant_of_alone (I := fun s => ∀ a ∈ s.trace, a.2.isCred = false)
      (fun s₁ s₂ h hstep a ha => ?_) (fun a ha => ?_) hrun
    · obtain ⟨evs, hadv, htr⟩ := Pool.advance_of_step hstep
      rw [htr, List.mem_append, List.mem_map] at ha
      rcases ha with ha | ⟨ev, hev, rfl⟩
      · exact h a ha
      · exact Request.isCred_of_advance hadv hev
    · have hmem := List.mem_map_of_mem (f := Prod.snd) ha
      rw [hm.trace, List.mem_filter] at hmem
      simpa using hmem.2
  have hfiles : s'.FilesAlone req s.live s.config.tabFd t := by
    refine Pool.invariant_of_alone (I := Pool.FilesAlone req s.live s.config.tabFd t)
      (fun s₁ s₂ h hstep => h.step (fun fh hfh => ?_) (Pool.stepped_of_step hstep)) ?_ hrun
    · obtain ⟨x, -, -, hslot⟩ := hi.slot_of_admits hadm (Request.uses_of_releasedFh hfh)
      rw [hm.config, hslot]
      exact Option.some_ne_none _
    · unfold Pool.FilesAlone
      rw [hstart]
      exact ⟨rfl, rfl⟩
  refine ⟨_, s', hrun, ?_, Session.step_inv hi hses, hcreds, hconf, ?_, ?_, fun u hu => ?_,
    fun u hu => ?_⟩
  · rw [Pool.observe_alone hdone (fun r fh heq => by rw [hstart] at heq; cases heq) hrun, replies,
      ho]
    rfl
  · exact hm.live_after hi rfl hadm ho hconf hdone hfiles
  · have hbody : body.filter (fun ev => !ev.isCred) = body := List.filter_eq_self.mpr fun ev hev => by
      have hmem : (t, ev) ∈ s'.trace := by
        rw [htrace]
        exact List.mem_append_right _ (List.mem_map_of_mem hev)
      simpa using hnot _ hmem
    have hnil : ∀ {l : List (Event n)}, (∀ ev ∈ l, ev.isCred = true) →
        l.filter (fun ev => !ev.isCred) = [] := fun h => List.filter_eq_nil_iff.mpr fun ev hev => by
      simp [h ev hev]
    show _ = (σ.session.trace ++ o.trace).filter _
    rw [htrace, hout, List.map_append, hm.trace, List.filter_append, List.filter_append,
      List.filter_append, hnil fun _ => isCred_of_mem_dropPriv,
      hnil fun _ => isCred_of_mem_reacquirePriv, hbody]
    simp [Function.comp_def]
  · obtain ⟨hne, hu⟩ := not_or.mp (List.mem_cons.not.mp hu)
    rw [hothers u hne]
    exact hm.waiting u hu
  · by_cases hne : u = t
    · subst hne
      exact ⟨_, _, hdone⟩
    · rw [hothers u hne]
      exact hm.returned u ((List.mem_cons.mp hu).resolve_left hne)

end Serial

/-- **A daemon with one thread is one of the pool's interleavings.** Every sequential run in which each
request is made once, and all under the same ids, is matched by steps of the pool that return
the same responses and handles in the same order, and lead to the same configuration, the same open
files and the same calls on the replicas. -/
theorem single_threaded [DecidableEq T] {req : T → Request} {σ₀ σ : Serial T n} {s₀ : Pool T n}
    (h₀ : σ₀.session.Inv) (hm : σ₀.Matches s₀) {l : List (T × Env n)}
    (hmeets : Meets (Serial.step req) (Serial.RunsUnder s₀.creds) σ₀ l)
    (hrun : runFrom (Serial.step req) σ₀ l = some σ) :
    ∃ bs s, runFrom (Pool.step req) s₀ bs = some s ∧
      observe (Pool.step req) (Pool.replies req) s₀ bs =
        observe (Serial.step req) (Serial.replies req) σ₀ l ∧ σ.Matches s := by
  obtain ⟨bs, s, hrun', hshow, -, -, hm'⟩ :=
    (Serial.simulates s₀.creds).run l σ₀ σ s₀ hmeets ⟨h₀, rfl, hm⟩ hrun
  exact ⟨bs, s, hrun', hshow, hm'⟩

/-- One after the other. -/
def oneEach : List (Fin 3 × Env 2) :=
  (List.finRange 3).zip
    [openEnv false, plainEnv fun _ _ => .ok { ret := 2 }, plainEnv fun _ _ => .ok {}]

/-- The pool with the ids of the caller. -/
def callerPool : Pool (Fin 3) 2 :=
  { rootPool (Fin 3) with creds := (dropPriv (openEnv false) rootDaemon.creds).creds }

/-- The pool returns what the daemon with one thread returns, and nothing is left open. -/
theorem single_threaded_oneEach :
    ∃ bs s, runFrom (Pool.step openWriteRelease) callerPool bs = some s ∧
      (observe (Pool.step openWriteRelease) (Pool.replies openWriteRelease) callerPool bs).map
        (fun a => (a.1, a.2.1.ret, a.2.2)) = [(0, 0, some 4), (1, 2, none), (2, 0, none)] ∧
      s.live = [] := by
  have hmeets : Meets (Serial.step openWriteRelease) (Serial.RunsUnder callerPool.creds)
      { session := rootSession } oneEach := by decide
  obtain ⟨σ, hrun, hlive⟩ : ∃ σ, runFrom (Serial.step openWriteRelease) { session := rootSession }
      oneEach = some σ ∧ σ.session.live = [] := ⟨_, rfl, rfl⟩
  have hfresh : rootSession.Fresh := ⟨rfl, rfl, ⟨0, rfl⟩, fun _ _ => rfl⟩
  have h₀ : Serial.Matches { session := rootSession } callerPool :=
    ⟨rfl, rfl, rfl, fun _ _ => rfl, fun _ h => absurd h List.not_mem_nil⟩
  obtain ⟨bs, s, hrun', hshow, hm⟩ := single_threaded hfresh.inv h₀ hmeets hrun
  refine ⟨bs, s, hrun', ?_, ?_⟩
  · rw [hshow]
    rfl
  · rw [hm.live, hlive]
    rfl

end ChironFs
