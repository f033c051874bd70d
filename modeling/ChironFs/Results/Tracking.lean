import ChironFs.Results.LastReplica
import ChironFs.Results.Progress
import ChironFs.Spec.Parallel

/-!
# Replicas that lag behind one copy

How the replicas stand to a single copy while requests are under way. The copy executes a request at
its first answer; a replica that has not answered it yet still has it to do.

* `Parallel.Harmony`: what is assumed of a step. A request begins when it commutes with all that are
  under way.
* `Parallel.Lags`: every enabled replica lags behind the copy by the requests it has still to do.
* `Parallel.OnTrack`: what a request knows of its answers, stage by stage.
* `Parallel.Files`: what the handles refer to, and who owns the descriptors.
* `Parallel.Tracks`: all of it.
-/

namespace ChironFs

open Posix Replication

variable {n : ℕ} {T S F : Type*}

/-! ## What is assumed of a step -/

/-- Somebody answered the request. -/
def Stage.answered : Stage n → Bool
  | .loop _ x | .choose _ x | .ask _ _ x | .disable _ x | .finish x => x.tally.succCnt ≠ 0
  | .store .. | .unwind .. => true
  | _ => false

namespace Parallel

/-- The file the handle of a request refers to. -/
def FileOf (σ : Parallel T n S F) (q : Request) (f : Option F) : Prop :=
  match q.uses with
  | none => f = none
  | some fh => ∃ x ∈ σ.pool.live, x.fh = fh ∧
      ∃ i g, σ.pool.config.enabled i ∧ σ.world.file (x.fd i) = some (i, g) ∧ f = some g

/-- What is assumed of a step: it is orderly and has its memory; some replica is enabled; a search that
comes to its end without an answer failed on a replica that is still enabled; and a request begins
when it commutes with every one under way. -/
structure Harmony (fs : FileSystem S F) (req : T → Request) (σ : Parallel T n S F)
    (a : T × Env n) : Prop where
  orderly : σ.pool.Orderly req a
  memory : ∀ i k, a.2.malloc i k = true
  enabled : ∃ i, σ.pool.config.enabled i
  searched : ∀ x, σ.pool.stage a.1 = .finish x → (req a.1).searches = true →
    x.tally.succCnt = 0 → ∃ i, σ.pool.config.enabled i ∧ x.tally.errList i ≠ 0
  commutes : σ.pool.stage a.1 = .start → ∀ u, σ.pool.busy u = true →
    ∀ f g, σ.FileOf (req a.1) f → σ.FileOf (req u) g →
      Lagging.Commute (fs.act σ.pool.creds (req a.1) f) (fs.act σ.pool.creds (req u) g)

/-! ## How the replicas stand to the copy -/

/-- Who a descriptor belongs to: an open file, or the request that is opening one. -/
inductive Owner (T : Type*)
  | file (fh : ℕ)
  | request (t : T)

/-- An open file is no request. -/
theorem Owner.file_ne_request {fh : ℕ} {t : T} : (.file fh : Owner T) ≠ .request t :=
  fun h => by cases h

/-- The descriptors a request holds become those of the file under its new handle. -/
def handOver [DecidableEq T] (own : ℤ → Option (Fin n × Owner T)) (t : T) (fh : ℕ) (v : ℤ) :
    Option (Fin n × Owner T) :=
  (own v).map fun p =>
    (p.1, match p.2 with
      | .request u => if u = t then .file fh else .request u
      | .file fh' => .file fh')

/-- What the request held is now the file's. -/
theorem handOver_self [DecidableEq T] {own : ℤ → Option (Fin n × Owner T)} {t : T} {fh : ℕ} {i : Fin n}
    {v : ℤ} (h : own v = some (i, .request t)) : handOver own t fh v = some (i, .file fh) := by
  simp [handOver, h]

/-- What others held stays theirs. -/
theorem handOver_of_ne [DecidableEq T] {own : ℤ → Option (Fin n × Owner T)} {t : T} {fh : ℕ} {i : Fin n}
    {v : ℤ} {o : Owner T} (h : own v = some (i, o)) (ho : o ≠ .request t) :
    handOver own t fh v = some (i, o) := by
  cases o with
  | file => simp [handOver, h]
  | request u =>
      have hu : u ≠ t := fun hut => ho (congrArg Owner.request hut)
      simp [handOver, h, hu]

variable (fs : FileSystem S F) (req : T → Request) (σ : Parallel T n S F) (α : Atomic T S F)
  (own : ℤ → Option (Fin n × Owner T)) (pend : Fin n → List T)

/-- The owner holds the descriptor `v` of replica `i`, which refers to `g`. -/
structure Held (i : Fin n) (v : ℤ) (o : Owner T) (g : F) : Prop where
  own : own v = some (i, o)
  file : σ.world.file v = some (i, g)
  nonneg : 0 ≤ v

/-- The copy has executed the request, replica `i` has not. -/
def Outstanding (t : T) (i : Fin n) : Prop :=
  (req t).searches = false ∧ (σ.pool.stage t).answered = true ∧ ¬ σ.pool.Answered t i

/-- Before the first answer nothing is outstanding. -/
theorem not_outstanding {req : T → Request} {σ : Parallel T n S F} {t : T}
    (h : (σ.pool.stage t).answered = false) (i : Fin n) : ¬ σ.Outstanding req t i := fun ho =>
  Bool.false_ne_true (h.symm.trans ho.2.1)

/-- An enabled replica lags behind the copy by the requests outstanding there. -/
structure Lags [DecidableEq T] : Prop where
  leads : ∀ i, σ.pool.config.enabled i →
    Lagging.Leads (α.act fs σ.pool.creds req) α.result (pend i) (σ.world.store i) α.copy.store
  mem : ∀ i, σ.pool.config.enabled i → ∀ t, t ∈ pend i ↔ σ.Outstanding req t i
  nodup : ∀ i, σ.pool.config.enabled i → (pend i).Nodup

/-- What a request has counted fits its answers, and what it was served fits its phase. -/
structure Fits (t : T) (x : Locals n) : Prop where
  counted : ∀ i, σ.pool.Answered t i → x.tally.succCnt ≠ 0
  failed : ∀ i, x.tally.errList i ≠ 0 → x.tally.failCnt ≠ 0
  err_le : ∀ i, x.tally.errList i ≤ 0
  found : (req t).searches = false → x.found = none
  supported : x.tally.succCnt ≠ 0 → (req t).supported = true
  asked : x.tally.succCnt = 0 → α.phase t = .asked ∧ x.wMax = 0
  served : x.tally.succCnt ≠ 0 → ∃ r g, α.phase t = .served r g ∧
    ((req t).opens = false → (req t).result x = r) ∧
    ((req t).opens = true → r = { ret := 0 } ∧ ∃ f, g = some f ∧
      ∀ i, σ.pool.config.enabled i → σ.pool.Answered t i →
        σ.Held own i (x.fd i) (.request t) f)

/-- What a request knows at its stage. -/
def OnTrack (t : T) : Prop :=
  match σ.pool.stage t with
  | .start => α.phase t = .idle ∧ ∀ i, ¬ σ.pool.Answered t i
  | .loop todo x => (req t).searches = false ∧ σ.Fits req α own t x ∧ todo.Nodup ∧
      (∀ i, σ.pool.Answered t i → i ∉ todo) ∧
      ∀ i, σ.pool.config.enabled i →
        i ∈ todo ∨ x.tally.errList i ≠ 0 ∨ σ.pool.Answered t i
  | .choose _ x | .ask _ _ x => (req t).searches = true ∧ σ.Fits req α own t x ∧
      x.tally.succCnt = 0
  | .disable todo x => σ.Fits req α own t x ∧ x.tally.succCnt ≠ 0 ∧
      ((req t).searches = false → ∀ i, σ.pool.config.enabled i →
        (i ∈ todo ∧ x.tally.errList i ≠ 0) ∨ σ.pool.Answered t i)
  | .finish x => σ.Fits req α own t x ∧
      ((req t).searches = false → ∀ i, σ.pool.config.enabled i →
        if x.tally.succCnt = 0 then x.tally.errList i ≠ 0 else σ.pool.Answered t i)
  | .store _ x => (req t).opens = true ∧ σ.Fits req α own t x ∧ x.tally.succCnt ≠ 0 ∧
      ∀ i, σ.pool.config.enabled i → σ.pool.Answered t i
  | .unwind todo x => (req t).opens = true ∧ todo.Nodup ∧ (∃ r g, α.phase t = .served r g) ∧
      (∀ i, σ.pool.config.enabled i → σ.pool.Answered t i) ∧
      ∀ i ∈ todo, σ.pool.config.enabled i → ∃ g, σ.Held own i (x.fd i) (.request t) g
  | .close todo _ => (req t).releases = true ∧ todo.Nodup ∧ α.phase t = .asked ∧
      (∀ i, ¬ σ.pool.Answered t i)
  | .done .. => α.phase t = .returned

/-- Every open file refers to the file of the copy under its handle, on every enabled replica; one that
is being closed still owns the descriptors to come. -/
structure Files : Prop where
  kept : ∀ f ∈ σ.pool.live, f.releasing = false → ∃ g, α.copy.file f.fh = some g ∧
    ∀ i, σ.pool.config.enabled i → σ.Held own i (f.fd i) (.file f.fh) g
  closing : ∀ t todo r, σ.pool.stage t = .close todo r →
    ∀ f ∈ σ.pool.live, (req t).releasedFh = some f.fh → f.releasing = true →
      ∀ i ∈ todo, σ.pool.config.enabled i → ∃ g, σ.Held own i (f.fd i) (.file f.fh) g

/-- What holds of the pool alone. -/
structure Sound : Prop extends σ.pool.Sound req where
  named : σ.pool.config.AllNamed

/-- **The replicas follow the copy.** -/
structure Tracks [DecidableEq T] : Prop where
  sound : σ.Sound req
  lags : σ.Lags fs req α pend
  commutes : ∀ t u, t ≠ u → σ.pool.busy t = true → σ.pool.busy u = true →
    Lagging.Commute (α.act fs σ.pool.creds req t) (α.act fs σ.pool.creds req u)
  onTrack : ∀ t, σ.OnTrack req α own t
  files : σ.Files req α own

/-! ## What a step leaves alone -/

variable {fs req σ α own pend} {σ' : Parallel T n S F} {α' : Atomic T S F}
  {own' : ℤ → Option (Fin n × Owner T)} {t u : T} {env : Env n} {evs : List (Event n)}
  {x : Locals n}

/-- What a request has of its answers stays. -/
structure Keeps (σ σ' : Parallel T n S F) (α α' : Atomic T S F)
    (own own' : ℤ → Option (Fin n × Owner T)) (u : T) : Prop where
  enabled : ∀ i, σ'.pool.config.enabled i → σ.pool.config.enabled i
  answered : ∀ i, σ'.pool.Answered u i ↔ σ.pool.Answered u i
  phase : α'.phase u = α.phase u
  held : ∀ i v g, σ'.pool.config.enabled i → σ.Held own i v (.request u) g →
    σ'.Held own' i v (.request u) g

/-- A stage that fits still does, where nothing it reads changed. -/
theorem Fits.keep (hk : Keeps σ σ' α α' own own' u) (h : σ.Fits req α own u x) :
    σ'.Fits req α' own' u x where
  counted := fun i hi => h.counted i ((hk.answered i).mp hi)
  failed := h.failed
  err_le := h.err_le
  found := h.found
  supported := h.supported
  asked := fun hs => by
    rw [hk.phase]
    exact h.asked hs
  served := fun hs => by
    obtain ⟨r, g, hph, hres, hop⟩ := h.served hs
    refine ⟨r, g, hk.phase.trans hph, hres, fun ho => ?_⟩
    obtain ⟨hr, f, hf, hheld⟩ := hop ho
    exact ⟨hr, f, hf, fun i hen hans =>
      hk.held i _ _ hen (hheld i (hk.enabled i hen) ((hk.answered i).mp hans))⟩

/-- A request on its track stays there. -/
theorem OnTrack.keep (hk : Keeps σ σ' α α' own own' u) (hst : σ'.pool.stage u = σ.pool.stage u)
    (h : σ.OnTrack req α own u) : σ'.OnTrack req α' own' u := by
  have hans := fun i => hk.answered i
  have hnot : (∀ i, ¬ σ.pool.Answered u i) → ∀ i, ¬ σ'.pool.Answered u i :=
    fun hno i => mt (hans i).mp (hno i)
  unfold OnTrack at h ⊢
  rw [hst]
  cases hs : σ.pool.stage u with
  | start =>
      simp only [hs] at h ⊢
      exact ⟨hk.phase.trans h.1, hnot h.2⟩
  | loop todo x =>
      simp only [hs] at h ⊢
      obtain ⟨hse, hfits, hnodup, hpast, hcov⟩ := h
      refine ⟨hse, hfits.keep hk, hnodup, fun i hi => hpast i ((hans i).mp hi), fun i hen => ?_⟩
      rw [hans i]
      exact hcov i (hk.enabled i hen)
  | choose todo x | ask i todo x =>
      simp only [hs] at h ⊢
      exact ⟨h.1, h.2.1.keep hk, h.2.2⟩
  | disable todo x =>
      simp only [hs] at h ⊢
      obtain ⟨hfits, hne, hcov⟩ := h
      refine ⟨hfits.keep hk, hne, fun hse i hen => ?_⟩
      rw [hans i]
      exact hcov hse i (hk.enabled i hen)
  | finish x =>
      simp only [hs] at h ⊢
      refine ⟨h.1.keep hk, fun hse i hen => ?_⟩
      rw [hans i]
      exact h.2 hse i (hk.enabled i hen)
  | store k x =>
      simp only [hs] at h ⊢
      obtain ⟨hop, hfits, hne, hall⟩ := h
      exact ⟨hop, hfits.keep hk, hne, fun i hen => (hans i).mpr (hall i (hk.enabled i hen))⟩
  | unwind todo x =>
      simp only [hs] at h ⊢
      obtain ⟨hop, hnodup, hserved, hall, hheld⟩ := h
      rw [hk.phase]
      refine ⟨hop, hnodup, hserved, fun i hen => (hans i).mpr (hall i (hk.enabled i hen)),
        fun i hi hen => ?_⟩
      obtain ⟨g, hg⟩ := hheld i hi (hk.enabled i hen)
      exact ⟨g, hk.held i _ _ hen hg⟩
  | close todo r =>
      simp only [hs] at h ⊢
      exact ⟨h.1, h.2.1, hk.phase.trans h.2.2.1, hnot h.2.2.2⟩
  | done r fh =>
      simp only [hs] at h ⊢
      exact hk.phase.trans h

/-- The files stay what they are. -/
theorem Files.keep (h : σ.Files req α own)
    (hen : ∀ i, σ'.pool.config.enabled i → σ.pool.config.enabled i)
    (hlive : σ'.pool.live = σ.pool.live) (hfile : α'.copy.file = α.copy.file)
    (hheld : ∀ i v fh g, σ'.pool.config.enabled i → σ.Held own i v (.file fh) g →
      σ'.Held own' i v (.file fh) g)
    (hclose : ∀ u todo r, σ'.pool.stage u = .close todo r →
      ∃ todo' r', σ.pool.stage u = .close todo' r' ∧ todo ⊆ todo') : σ'.Files req α' own' where
  kept := fun f hf hrel => by
    obtain ⟨g, hg, hall⟩ := h.kept f (hlive ▸ hf) hrel
    exact ⟨g, by rw [hfile, hg], fun i hi => hheld i _ _ _ hi (hall i (hen i hi))⟩
  closing := fun u todo r hs f hf hfh hrel i hi hen' => by
    obtain ⟨todo', r', hs', hsub⟩ := hclose u todo r hs
    obtain ⟨g, hg⟩ := h.closing u todo' r' hs' f (hlive ▸ hf) hfh hrel i (hsub hi) (hen i hen')
    exact ⟨g, hheld i _ _ _ hen' hg⟩

section step

variable [DecidableEq T]

/-- Nothing new is outstanding, and the copy's store stays. -/
theorem Lags.keep (h : σ.Lags fs req α pend) (hcreds : σ'.pool.creds = σ.pool.creds)
    (hen : ∀ i, σ'.pool.config.enabled i → σ.pool.config.enabled i)
    (hstore : ∀ i, σ'.pool.config.enabled i → σ'.world.store i = σ.world.store i)
    (hcopy : α'.copy.store = α.copy.store)
    (hout : ∀ i, σ'.pool.config.enabled i → ∀ u, σ'.Outstanding req u i ↔ σ.Outstanding req u i)
    (hact : ∀ i, σ'.pool.config.enabled i → ∀ u, σ.Outstanding req u i →
      α'.act fs σ.pool.creds req u = α.act fs σ.pool.creds req u ∧ α'.phase u = α.phase u) :
    σ'.Lags fs req α' pend where
  leads := fun i hi => by
    rw [hcreds, hstore i hi, hcopy]
    refine (h.leads i (hen i hi)).congr (fun u hu => ?_) fun u hu => ?_
    · exact (hact i hi u ((h.mem i (hen i hi) u).mp hu)).1
    · rw [Atomic.result, (hact i hi u ((h.mem i (hen i hi) u).mp hu)).2]
      rfl
  mem := fun i hi u => by rw [h.mem i (hen i hi), hout i hi]
  nodup := fun i hi => h.nodup i (hen i hi)

/-- A step keeps the pool and the descriptors sound. -/
theorem Sound.step (h : σ.Sound req) (hord : σ.pool.Orderly req (t, env))
    (hst : Pool.Stepped req σ.pool σ'.pool t env) : σ'.Sound req where
  toSound := h.toSound.step hord hst
  named := hst.effect.sameLayout.allNamed h.named

omit [DecidableEq T] in
/-- No step enables a replica. -/
theorem Stepped.enabled (hst : Stepped fs req σ σ' t env evs) {i : Fin n}
    (hi : σ'.pool.config.enabled i) : σ.pool.config.enabled i :=
  hst.pool.effect.enabled_of_enabled hi

omit [DecidableEq T] in
/-- Who answered after a step: who had, and who did in it. -/
theorem Stepped.answered_iff (hst : Stepped fs req σ σ' t env evs) (u : T) (i : Fin n) :
    σ'.pool.Answered u i ↔
      σ.pool.Answered u i ∨ (u = t ∧ i ∈ evs.filterMap Event.okOn) := by
  rw [Pool.Answered, Pool.did_append hst.trace, List.mem_filterMap]
  rfl

omit [DecidableEq T] in
/-- A step without an answer. -/
theorem Stepped.answered_of_no_ok (hst : Stepped fs req σ σ' t env evs)
    (hno : evs.filterMap Event.okOn = []) (u : T) (i : Fin n) :
    σ'.pool.Answered u i ↔ σ.pool.Answered u i := by
  rw [hst.answered_iff, hno]
  simp

omit [DecidableEq T] in
/-- Nobody answers another request. -/
theorem Stepped.answered_of_ne (hst : Stepped fs req σ σ' t env evs) (hu : u ≠ t) (i : Fin n) :
    σ'.pool.Answered u i ↔ σ.pool.Answered u i := by
  rw [hst.answered_iff]
  simp [hu]

omit [DecidableEq T] in
/-- What is outstanding of another request stays so. -/
theorem Stepped.outstanding_of_ne (hst : Stepped fs req σ σ' t env evs) (hu : u ≠ t) (i : Fin n) :
    σ'.Outstanding req u i ↔ σ.Outstanding req u i := by
  rw [Outstanding, Outstanding, hst.pool.stage_of_ne u hu, hst.answered_of_ne hu]

omit [DecidableEq T] in
/-- Another request stays busy or idle. -/
theorem Stepped.busy_of_ne (hst : Stepped fs req σ σ' t env evs) (hu : u ≠ t) :
    σ'.pool.busy u = σ.pool.busy u := by
  rw [Pool.busy, Pool.busy, hst.pool.stage_of_ne u hu]

omit [DecidableEq T] in
/-- What another request reads is kept. -/
theorem Stepped.keeps_of_ne (hst : Stepped fs req σ σ' t env evs) (hu : u ≠ t)
    (hphase : α'.phase u = α.phase u)
    (hheld : ∀ i v g, σ'.pool.config.enabled i → σ.Held own i v (.request u) g →
      σ'.Held own' i v (.request u) g) : Keeps σ σ' α α' own own' u where
  enabled := fun _ hi => hst.enabled hi
  answered := fun i => hst.answered_of_ne hu i
  phase := hphase
  held := hheld

omit [DecidableEq T] in
/-- A file stays held while the stores stay as they are. -/
theorem Held.of_world (hw : σ'.world = σ.world) {i : Fin n} {v : ℤ} {o : Owner T} {g : F}
    (h : σ.Held own i v o g) : σ'.Held own i v o g := ⟨h.own, by rw [hw]; exact h.file, h.nonneg⟩

omit [DecidableEq T] in
/-- What a request does depends on the files of the copy. -/
theorem act_of_file (h : α'.copy.file = α.copy.file) (cr : Creds) (u : T) :
    α'.act fs cr req u = α.act fs cr req u := by
  rw [Atomic.act, Atomic.act, h]

/-- The copy's store and all but the request that steps stay. -/
theorem Tracks.of_step {pend' : Fin n → List T} (h : σ.Tracks fs req α own pend)
    (hord : σ.pool.Orderly req (t, env)) (hst : Stepped fs req σ σ' t env evs)
    (hlags : σ'.Lags fs req α' pend')
    (hact : ∀ u, u ≠ t → σ.pool.busy u = true →
      α'.act fs σ.pool.creds req u = α.act fs σ.pool.creds req u)
    (hcomm : σ'.pool.busy t = true → ∀ u, u ≠ t → σ.pool.busy u = true →
      Lagging.Commute (α'.act fs σ.pool.creds req t) (α.act fs σ.pool.creds req u))
    (hphase : ∀ u, u ≠ t → α'.phase u = α.phase u)
    (hheld : ∀ u, u ≠ t → ∀ i v g, σ'.pool.config.enabled i → σ.Held own i v (.request u) g →
      σ'.Held own' i v (.request u) g)
    (hon : σ'.OnTrack req α' own' t) (hfiles : σ'.Files req α' own') :
    σ'.Tracks fs req α' own' pend' where
  sound := h.sound.step hord hst.pool
  lags := hlags
  commutes := fun u v huv hu hv => by
    rw [hst.pool.creds]
    by_cases hut : u = t
    · subst hut
      rw [hst.busy_of_ne (Ne.symm huv)] at hv
      rw [hact v (Ne.symm huv) hv]
      exact hcomm hu v (Ne.symm huv) hv
    · rw [hst.busy_of_ne hut] at hu
      rw [hact u hut hu]
      by_cases hvt : v = t
      · subst hvt
        exact (hcomm hv u hut hu).symm
      · rw [hst.busy_of_ne hvt] at hv
        rw [hact v hvt hv]
        exact h.commutes u v huv hu hv
  onTrack := fun u => by
    by_cases hu : u = t
    · rw [hu]
      exact hon
    · exact (h.onTrack u).keep (hst.keeps_of_ne hu (hphase u hu) (hheld u hu))
        (hst.pool.stage_of_ne u hu)
  files := hfiles

/-- A step that does not touch the replicas. -/
theorem Tracks.of_silent (h : σ.Tracks fs req α own pend) (hord : σ.pool.Orderly req (t, env))
    (hst : Stepped fs req σ σ' t env evs) (hw : σ'.world = σ.world) (hcopy : α'.copy = α.copy)
    (hphase : ∀ u, u ≠ t → α'.phase u = α.phase u)
    (hout : ∀ i, σ'.pool.config.enabled i → (σ'.Outstanding req t i ↔ σ.Outstanding req t i) ∧
      (σ.Outstanding req t i → α'.phase t = α.phase t))
    (hcomm : σ'.pool.busy t = true → ∀ u, u ≠ t → σ.pool.busy u = true →
      Lagging.Commute (α.act fs σ.pool.creds req t) (α.act fs σ.pool.creds req u))
    (hon : σ'.OnTrack req α' own t) (hfiles : σ'.Files req α' own) :
    σ'.Tracks fs req α' own pend := by
  have hact : ∀ u, α'.act fs σ.pool.creds req u = α.act fs σ.pool.creds req u :=
    act_of_file (congrArg Copy.file hcopy) _
  refine h.of_step hord hst ?_ (fun u _ _ => hact u) (fun hb u hu hbu => ?_) hphase
    (fun u _ i v g _ hheld => hheld.of_world hw) hon hfiles
  · refine h.lags.keep hst.pool.creds (fun i => hst.enabled) (fun i _ => by rw [hw])
      (congrArg Copy.store hcopy) (fun i hi u => ?_) fun i hi u hu => ⟨hact u, ?_⟩
    · by_cases hut : u = t
      · rw [hut]
        exact (hout i hi).1
      · exact hst.outstanding_of_ne hut i
    · by_cases hut : u = t
      · subst hut
        exact (hout i hi).2 hu
      · exact hphase u hut
  · rw [hact]
    exact hcomm hb u hu hbu

/-- A step of a request that stays where it is with its answers, and does not touch the replicas. -/
theorem Tracks.inner (h : σ.Tracks fs req α own pend) (hord : σ.pool.Orderly req (t, env))
    (hst : Stepped fs req σ σ' t env evs) (hw : σ'.world = σ.world)
    (hno : evs.filterMap Event.okOn = []) (hbusy : σ.pool.busy t = true)
    (hlive : σ'.pool.live = σ.pool.live)
    (hans : (σ'.pool.stage t).answered = (σ.pool.stage t).answered)
    (hclose : ∀ todo r, σ'.pool.stage t ≠ .close todo r)
    (hon : Keeps σ σ' α α own own t → σ'.OnTrack req α own t) : σ'.Tracks fs req α own pend := by
  refine h.of_silent hord hst hw rfl (fun _ _ => rfl) (fun i _ => ⟨?_, fun _ => rfl⟩)
    (fun _ u hu hb => h.commutes t u (Ne.symm hu) hbusy hb) (hon ?_) ?_
  · rw [Outstanding, Outstanding, hans, hst.answered_of_no_ok hno]
  · exact ⟨fun i => hst.enabled, hst.answered_of_no_ok hno t, rfl,
      fun i v g _ hheld => hheld.of_world hw⟩
  · refine h.files.keep (fun i => hst.enabled) hlive rfl (fun i v fh g _ hheld => hheld.of_world hw) ?_
    intro u todo r hs
    by_cases hu : u = t
    · subst hu
      exact absurd hs (hclose todo r)
    · exact ⟨todo, r, (hst.pool.stage_of_ne u hu).symm.trans hs, List.Subset.refl _⟩

omit [DecidableEq T] in
/-- The files of a pool in which no request closes or opens anything by this step. -/
theorem Files.of_stage (h : σ.Files req α own) (hst : Stepped fs req σ σ' t env evs)
    (hw : σ'.world = σ.world) (hlive : σ'.pool.live = σ.pool.live)
    (hfile : α'.copy.file = α.copy.file) (hclose : ∀ todo r, σ'.pool.stage t ≠ .close todo r) :
    σ'.Files req α' own := by
  refine h.keep (fun i => hst.enabled) hlive hfile (fun i v fh g _ hheld => hheld.of_world hw) ?_
  intro u todo r hs
  by_cases hu : u = t
  · subst hu
    exact absurd hs (hclose todo r)
  · exact ⟨todo, r, (hst.pool.stage_of_ne u hu).symm.trans hs, List.Subset.refl _⟩

/-- A request that returns. -/
theorem Tracks.returns (h : σ.Tracks fs req α own pend) (hord : σ.pool.Orderly req (t, env))
    (hst : Stepped fs req σ σ' t env evs) (hw : σ'.world = σ.world) {r : Response} {fh : Option ℕ}
    (hdone : σ'.pool.stage t = .done r fh)
    (hnone : ∀ i, σ'.pool.config.enabled i → ¬ σ.Outstanding req t i)
    (hfiles : σ'.Files req (α.go t .returned) own) : σ'.Tracks fs req (α.go t .returned) own pend := by
  refine h.of_silent hord hst hw rfl (fun u hu => Function.update_of_ne hu _ _)
    (fun i hi => ⟨iff_of_false (not_outstanding (by rw [hdone]; rfl) i) (hnone i hi),
      fun hout => absurd hout (hnone i hi)⟩) ?_ ?_ hfiles
  · intro hb
    rw [Pool.busy, hdone] at hb
    cases hb
  · simp only [OnTrack, hdone]
    exact Function.update_self ..

/-- A request that returns and keeps the files as they are. -/
theorem Tracks.leaves (h : σ.Tracks fs req α own pend) (hord : σ.pool.Orderly req (t, env))
    (hst : Stepped fs req σ σ' t env evs) (hw : σ'.world = σ.world)
    (hlive : σ'.pool.live = σ.pool.live) {r : Response} {fh : Option ℕ}
    (hdone : σ'.pool.stage t = .done r fh)
    (hnone : ∀ i, σ'.pool.config.enabled i → ¬ σ.Outstanding req t i) :
    σ'.Tracks fs req (α.go t .returned) own pend := by
  refine h.returns hord hst hw hdone hnone (h.files.of_stage hst hw hlive rfl ?_)
  rw [hdone]
  exact fun _ _ h => by cases h

/-! ## A request begins -/

omit [DecidableEq T] in
/-- A single copy has nothing to do for a `release`. -/
theorem act_of_releases {q : Request} (hrel : q.releases = true) (cr : Creds) (f : Option F) (s : S) :
    fs.act cr q f s = none := by
  obtain ⟨fh, rfl⟩ := Request.eq_release hrel
  rfl

omit [DecidableEq T] in
/-- The copy's file of a request is the one its handle refers to. -/
theorem Files.fileOf (h : σ.Files req α own) (hen : ∃ i, σ.pool.config.enabled i) {q : Request}
    (hlive : ∀ fh, q.uses = some fh → ∃ f ∈ σ.pool.live, f.fh = fh ∧ f.releasing = false) :
    σ.FileOf q (q.uses.bind α.copy.file) := by
  unfold FileOf
  cases hu : q.uses with
  | none => rfl
  | some fh =>
      obtain ⟨f, hf, rfl, hrel⟩ := hlive fh hu
      obtain ⟨g, hg, hheld⟩ := h.kept f hf hrel
      obtain ⟨i, hi⟩ := hen
      exact ⟨f, hf, rfl, i, g, hi, (hheld i hi).file, hg⟩

omit [DecidableEq T] in
/-- A request that begins commutes with those under way. -/
theorem Sound.commute_of_begins (h : σ.Sound req) (hf : σ.Files req α own)
    (hP : σ.Harmony fs req (t, env)) (hst : Stepped fs req σ σ' t env evs)
    (hs : σ.pool.stage t = .start) (hbusy : σ.pool.busy u = true) :
    Lagging.Commute (α.act fs σ.pool.creds req t) (α.act fs σ.pool.creds req u) := by
  cases hrel : (req t).releases with
  | true =>
      intro s s₁ s₂ r₁ r₂ h₁
      rw [Atomic.act, act_of_releases hrel] at h₁
      cases h₁
  | false =>
      cases hrelu : (req u).releases with
      | true =>
          intro s s₁ s₂ r₁ r₂ _ h₂
          rw [Atomic.act, act_of_releases hrelu] at h₂
          cases h₂
      | false =>
          refine hP.commutes hs u hbusy _ _ (hf.fileOf hP.enabled fun fh hfh => ?_)
            (hf.fileOf hP.enabled fun fh hfh => h.inUse u fh hbusy hfh hrelu)
          exact Pool.exists_live_of_begun hst.pool (by rw [Pool.busy, hs]) hfh

/-- A request begins and goes over the replicas. -/
theorem Tracks.begins (h : σ.Tracks fs req α own pend) (hP : σ.Harmony fs req (t, env))
    (hst : Stepped fs req σ σ' t env evs) (hw : σ'.world = σ.world)
    (hno : evs.filterMap Event.okOn = []) (hs : σ.pool.stage t = .start)
    (hans : (σ'.pool.stage t).answered = false) (hfiles : σ'.Files req (α.go t .asked) own)
    (hon : (∀ i, ¬ σ'.pool.Answered t i) → σ'.Fits req (α.go t .asked) own t {} →
      (α.go t (.asked : Phase F)).phase t = .asked → σ'.OnTrack req (α.go t .asked) own t) :
    σ'.Tracks fs req (α.go t .asked) own pend := by
  have hwas := h.onTrack t
  simp only [OnTrack, hs] at hwas
  have hph : (α.go t (.asked : Phase F)).phase t = .asked := Function.update_self ..
  have hnot : ∀ i, ¬ σ'.pool.Answered t i := fun i hi =>
    hwas.2 i ((hst.answered_of_no_ok hno t i).mp hi)
  have hidle : ∀ i, ¬ σ.Outstanding req t i := not_outstanding (by rw [hs]; rfl)
  refine h.of_silent hP.orderly hst hw rfl (fun u hu => Function.update_of_ne hu _ _)
    (fun i _ => ⟨iff_of_false (not_outstanding hans i) (hidle i), fun hout => absurd hout (hidle i)⟩)
    (fun _ u _ hb => h.sound.commute_of_begins h.files hP hst hs hb) (hon hnot ?_ hph) hfiles
  exact
    { counted := fun i hi => absurd hi (hnot i)
      failed := fun i hi => absurd rfl hi
      err_le := fun i => le_rfl
      found := fun _ => rfl
      supported := fun hne => absurd rfl hne
      asked := fun _ => ⟨hph, rfl⟩
      served := fun hne => absurd rfl hne }

omit [DecidableEq T] in
/-- The files when a release begins. -/
theorem Files.of_release (h : σ.Files req α own) (hsound : σ.Sound req)
    (hst : Stepped fs req σ σ' t env evs) (hw : σ'.world = σ.world)
    (hfile : α'.copy.file = α.copy.file) (hs : σ.pool.stage t = .start) {fh : ℕ}
    (hq : req t = .release fh) (hs' : ∃ todo r, σ'.pool.stage t = .close todo r)
    (hlive : σ'.pool.live = σ.pool.live.map fun f =>
      if (req t).releasedFh = some f.fh then { f with releasing := true } else f) :
    σ'.Files req α' own := by
  -- the file that is released was not being released before
  have hwas : ∀ f ∈ σ.pool.live, f.fh = fh → f.releasing = false := by
    intro f hf hfh
    have huses : (req t).uses = some fh := by rw [hq]; rfl
    obtain ⟨f₀, hf₀, hfh₀, hrel₀⟩ :=
      Pool.exists_live_of_begun hst.pool (by rw [Pool.busy, hs]) huses
    obtain rfl : f = f₀ := List.inj_on_of_nodup_map hsound.slots.distinct.nodup hf hf₀
      (hfh.trans hfh₀.symm)
    exact hrel₀
  have hmem : ∀ f' ∈ σ'.pool.live, ∃ f ∈ σ.pool.live, f'.fh = f.fh ∧ f'.fd = f.fd ∧
      (f'.releasing = f.releasing ∨ f.fh = fh) ∧ (f'.releasing = false → f.releasing = false) := by
    intro f' hf'
    rw [hlive, List.mem_map] at hf'
    obtain ⟨f, hf, rfl⟩ := hf'
    refine ⟨f, hf, ?_⟩
    split_ifs with hfh
    · rw [hq] at hfh
      exact ⟨rfl, rfl, Or.inr (Option.some.inj hfh).symm, fun hrel => by cases hrel⟩
    · exact ⟨rfl, rfl, Or.inl rfl, id⟩
  refine ⟨fun f' hf' hrel' => ?_, fun u todo r hcl f' hf' hfh' hrel' i hi hen => ?_⟩
  · obtain ⟨f, hf, hfh, hfd, -, hrel⟩ := hmem f' hf'
    obtain ⟨g, hg, hheld⟩ := h.kept f hf (hrel hrel')
    rw [hfh, hfd, hfile]
    exact ⟨g, hg, fun i hi => (hheld i (hst.enabled hi)).of_world hw⟩
  · obtain ⟨f, hf, hfh, hfd, hcase, -⟩ := hmem f' hf'
    rw [hfh, hfd]
    rw [hfh] at hfh'
    by_cases hu : u = t
    · subst hu
      rw [hq] at hfh'
      have hfalse := hwas f hf (Option.some.inj hfh').symm
      obtain ⟨g, -, hheld⟩ := h.kept f hf hfalse
      exact ⟨g, (hheld i (hst.enabled hen)).of_world hw⟩
    · have hcl' := (hst.pool.stage_of_ne u hu).symm.trans hcl
      have hrel : f.releasing = true := by
        rcases hcase with heq | hff
        · rw [← heq]
          exact hrel'
        · -- then it is released by two requests
          obtain ⟨f₁, hf₁, hfh₁, hrel₁⟩ := hsound.slots.closing u (by rw [Pool.closing, hcl'])
          obtain rfl : f = f₁ := List.inj_on_of_nodup_map hsound.slots.distinct.nodup hf hf₁
            (Option.some.inj (hfh'.symm.trans hfh₁))
          exact hrel₁
      obtain ⟨g, hheld⟩ := h.closing u todo r hcl' f hf hfh' hrel i hi (hst.enabled hen)
      exact ⟨g, hheld.of_world hw⟩

/-! ## A round of a loop -/

omit [DecidableEq T] in
/-- The handle of a request under way is in use, and its vector is held. -/
theorem Files.held_of_uses (h : σ.Files req α own) (hsound : σ.Sound req)
    (hbusy : σ.pool.busy t = true) (hrel : (req t).releases = false) {fh : ℕ}
    (hfh : (req t).uses = some fh) :
    ∃ fd g, σ.pool.config.tabFd fh = some fd ∧ α.copy.file fh = some g ∧
      ∀ i, σ.pool.config.enabled i → σ.Held own i (fd i) (.file fh) g := by
  obtain ⟨f, hf, rfl, hnot⟩ := hsound.inUse t fh hbusy hfh hrel
  obtain ⟨g, hg, hheld⟩ := h.kept f hf hnot
  exact ⟨f.fd, g, hsound.slots.distinct.slot f hf, hg, hheld⟩

omit [DecidableEq T] in
/-- The calls of a request are about their own replicas, and about the file of its handle. -/
theorem Files.targets (h : σ.Files req α own) (hsound : σ.Sound req)
    (hbusy : σ.pool.busy t = true) (hrel : (req t).releases = false) {i : Fin n} {cl : Call}
    (hask : (req t).ask env σ.pool.config i = some cl) :
    σ.world.Targets i cl ((req t).uses.bind α.copy.file) := by
  obtain ⟨hen, hcl⟩ := Config.guarded_eq_some_iff.mp hask
  have hfd := Request.fd?_of_callAt (Request.callAt_of_call hcl)
  unfold World.Targets
  rw [hfd]
  cases hu : (req t).uses with
  | none => rfl
  | some fh =>
      obtain ⟨fd, g, hslot, hg, hheld⟩ := h.held_of_uses hsound hbusy hrel hu
      have hfdOn : (req t).fdOn σ.pool.config i = fd i := by simp [Request.fdOn, hu, hslot]
      exact ⟨g, by rw [hfdOn, (hheld i hen).file], hg⟩

omit [DecidableEq T] in
/-- The replicas after a round. -/
theorem Stepped.visited (hst : Stepped fs req σ σ' t env evs) (hf : σ.Files req α own)
    (hsound : σ.Sound req) (hbusy : σ.pool.busy t = true) (hrel : (req t).releases = false)
    {i : Fin n} (hevs : evs = (req t).visitEvents env σ.pool.creds σ.pool.config i) :
    World.Visited fs σ.pool.creds (req t) ((req t).uses.bind α.copy.file) i
      ((req t).visitFate env σ.pool.creds σ.pool.config i) σ.world σ'.world :=
  World.asked_of_visit (fun _ hask => hf.targets hsound hbusy hrel hask) (hevs ▸ hst.world)

omit [DecidableEq T] in
/-- Counting a failure, or nothing. -/
theorem Fits.of_failure (h : σ.Fits req α own t x) (hk : Keeps σ σ' α α own own t) {i : Fin n}
    {f : Fate Reply Errno} {x' : Locals n} (htally : x'.tally = x.tally.add i f evs)
    (hno : f.isOk = false) (hw : x'.wMax = x.wMax) (hfound : x'.found = x.found)
    (hfd : (req t).opens = true → ∀ j, σ.pool.Answered t j → x'.fd j = x.fd j) :
    σ'.Fits req α own t x' := by
  have hsucc : x'.tally.succCnt = x.tally.succCnt := by
    rw [htally]
    cases f with
    | ok r => cases hno
    | skipped | failed => rfl
  have herr : ∀ j, x'.tally.errList j ≠ 0 → x'.tally.failCnt ≠ 0 ∧ x'.tally.errList j ≤ 0 := by
    rw [htally]
    cases f with
    | ok r => cases hno
    | skipped => exact fun j hj => ⟨h.failed j hj, h.err_le j⟩
    | failed e =>
        refine fun j _ => ⟨Nat.succ_ne_zero _, ?_⟩
        by_cases hj : j = i
        · subst hj
          simpa using e.neg_lt_zero.le
        · simpa [hj] using h.err_le j
  exact
    { counted := fun j hj => by
        rw [hsucc]
        exact h.counted j ((hk.answered j).mp hj)
      failed := fun j hj => (herr j hj).1
      err_le := fun j => by
        by_cases hj : x'.tally.errList j = 0
        · exact hj.le
        · exact (herr j hj).2
      found := fun hse => hfound.trans (h.found hse)
      supported := fun hne => h.supported (hsucc ▸ hne)
      asked := fun hz => by
        rw [hw]
        exact h.asked (hsucc ▸ hz)
      served := fun hne => by
        obtain ⟨r, g, hph, hres, hop⟩ := h.served (hsucc ▸ hne)
        refine ⟨r, g, hph, fun ho => (Request.result_congr hw hfound).trans (hres ho), fun ho => ?_⟩
        obtain ⟨hr, f, hf, hheld⟩ := hop ho
        refine ⟨hr, f, hf, fun j hen hj => ?_⟩
        have hj' := (hk.answered j).mp hj
        rw [hfd ho j hj']
        exact hk.held j _ _ hen (hheld j (hk.enabled j hen) hj') }

/-- **A round without an answer.** -/
theorem Tracks.visit_failed (h : σ.Tracks fs req α own pend) (hP : σ.Harmony fs req (t, env))
    (hst : Stepped fs req σ σ' t env evs) {i : Fin n} {todo : List (Fin n)} {x' : Locals n}
    (hs : σ.pool.stage t = .loop (i :: todo) x) (hs' : σ'.pool.stage t = .loop todo x')
    (hevs : evs = (req t).visitEvents env σ.pool.creds σ.pool.config i)
    (htally : x'.tally =
      x.tally.add i ((req t).visitFate env σ.pool.creds σ.pool.config i) evs)
    (hno : ((req t).visitFate env σ.pool.creds σ.pool.config i).isOk = false) :
    σ'.Tracks fs req α own pend := by
  have hbusy : σ.pool.busy t = true := by rw [Pool.busy, hs]
  have hrel : (req t).releases = false := h.sound.not_releases hs
  have hon := h.onTrack t
  simp only [OnTrack, hs] at hon
  obtain ⟨hse, hfits, hnodup, hpast, hcov⟩ := hon
  obtain ⟨hi, hnodup⟩ := List.nodup_cons.mp hnodup
  have hadv := hst.advance
  rw [hs, hs'] at hadv
  have hw := (hst.visited h.files h.sound hbusy hrel hevs).unchanged hno
  have hok : evs.filterMap Event.okOn = [] := by rw [hevs, Request.okOn_visitEvents, hno]; rfl
  refine h.inner hP.orderly hst hw hok hbusy ?_ ?_ ?_ fun hk => ?_
  · rw [hst.pool.live, hs, hs']
    rfl
  · have hsucc : x'.tally.succCnt = x.tally.succCnt := by
      rw [htally]
      cases hf : (req t).visitFate env σ.pool.creds σ.pool.config i with
      | ok r =>
          rw [hf] at hno
          cases hno
      | skipped | failed => rfl
    rw [hs, hs']
    simp only [Stage.answered, hsucc]
  · rw [hs']
    exact fun _ _ h => by cases h
  · simp only [OnTrack, hs']
    refine ⟨hse, ?_, hnodup, fun j hj hjt => ?_, fun j hen => ?_⟩
    · refine hfits.of_failure hk htally hno (Request.visit_wMax hadv hno)
        (Request.visit_found hadv) fun hop j hj => (Request.visit_fd hop hadv).2 j ?_
      rintro rfl
      exact hpast j hj List.mem_cons_self
    · exact hpast j ((hk.answered j).mp hj) (List.mem_cons_of_mem i hjt)
    · by_cases hji : j = i
      · subst hji
        -- an enabled replica is not passed over, so it failed
        have hskip := Request.visitFate_ne_skipped (hst.enabled hen) hrel
          (fun path k => Env.names_of_malloc h.sound.named hP.memory j (hst.enabled hen) path k)
          (fun fh hfh => by
            obtain ⟨fd, g, hslot, -, hheld⟩ := h.files.held_of_uses h.sound hbusy hrel hfh
            exact ⟨fd, hslot, (hheld j (hst.enabled hen)).nonneg⟩) hadv
        refine Or.inr (Or.inl ?_)
        rw [htally]
        cases hf : (req t).visitFate env σ.pool.creds σ.pool.config j with
        | ok r =>
            rw [hf] at hno
            cases hno
        | skipped => exact absurd hf hskip
        | failed e => simpa using e.neg_ne_zero
      · rcases hcov j (hst.enabled hen) with hmem | herr | hans
        · exact Or.inl ((List.mem_cons.mp hmem).resolve_left hji)
        · refine Or.inr (Or.inl ?_)
          rw [htally]
          cases hf : (req t).visitFate env σ.pool.creds σ.pool.config i with
          | failed e => simpa [hji] using herr
          | ok | skipped => exact herr
        · exact Or.inr (Or.inr ((hk.answered j).mpr hans))

/-- What a step comes to: the copy makes steps of its own that show the same, and the replicas follow
it. -/
def Matched (fs : FileSystem S F) (req : T → Request) (σ σ' : Parallel T n S F) (t : T)
    (α : Atomic T S F) : Prop :=
  ∃ acts α' own' pend', Machine.runFrom (Atomic.step fs σ.pool.creds req) α acts = some α' ∧
    Machine.observe (Atomic.step fs σ.pool.creds req) (fun _ a => Atomic.Act.shown a) α acts =
      ((σ.pool.stage t).shows t (σ'.pool.stage t)).toList ∧
    σ'.Tracks fs req α' own' pend'

/-- A step that shows nothing is matched by none of the copy. -/
theorem Tracks.matched (h : σ'.Tracks fs req α own pend)
    (hshow : (σ.pool.stage t).shows t (σ'.pool.stage t) = none) : Matched fs req σ σ' t α :=
  ⟨[], α, own, pend, rfl, by rw [hshow]; rfl, h⟩

/-- Or by one of the copy that shows the same. -/
theorem Tracks.matched_act (h : σ'.Tracks fs req α' own pend) (a : Atomic.Act T)
    (hstep : Atomic.step fs σ.pool.creds req α a = some α')
    (hshow : (σ.pool.stage t).shows t (σ'.pool.stage t) = a.shown) : Matched fs req σ σ' t α := by
  refine ⟨[a], α', own, pend, ?_, ?_, h⟩
  · rw [Machine.runFrom_cons, hstep, Option.bind_some, Machine.runFrom_nil]
  · rw [Machine.observe_singleton, hshow]

omit [DecidableEq T] in
/-- Counting an answer that is the result so far, or the first. -/
theorem Fits.of_answer (h : σ.Fits req α own t x) (hse : (req t).searches = false) {cr : Creds}
    {c c' : Config n} {i : Fin n} {todo : List (Fin n)} {x' : Locals n} {r : Reply} {o : Option F}
    (hvisit : (req t).visit env cr c i todo x = some (c', .loop todo x', evs))
    (htally : x'.tally = x.tally.add i (.ok r) evs)
    (hfate : (req t).visitFate env cr c i = .ok r)
    (hph : α'.phase t = .served ((req t).respond r) o)
    (hwas : x.wMax = 0 ∨ ((req t).opens = false → (req t).result x = (req t).respond r))
    (hans : ∀ j, σ'.pool.Answered t j → σ.pool.Answered t j ∨ j = i)
    (hheld : (req t).opens = true → ∃ f, o = some f ∧ σ'.Held own' i r.ret (.request t) f ∧
      ∀ j, j ≠ i → σ'.pool.config.enabled j → σ.pool.Answered t j →
        σ'.Held own' j (x.fd j) (.request t) f) :
    σ'.Fits req α' own' t x' where
  counted := fun j _ => by rw [htally]; exact Nat.succ_ne_zero _
  failed := by rw [htally]; exact h.failed
  err_le := by rw [htally]; exact h.err_le
  found := fun hse => (Request.visit_found hvisit).trans (h.found hse)
  supported := fun _ => Request.supported_of_visitFate (by rw [hfate]; rfl)
  asked := fun hz => by rw [htally] at hz; exact absurd hz (Nat.succ_ne_zero _)
  served := fun _ => by
    refine ⟨_, o, hph, fun hop => ?_, fun hop => ?_⟩
    · exact Request.visit_result hse hop (h.found hse) hvisit hfate (hwas.imp_right fun h => h hop)
    · obtain ⟨f, hf, hnew, hold⟩ := hheld hop
      obtain ⟨hfdi, hfdj⟩ := Request.visit_fd hop hvisit
      refine ⟨?_, f, hf, fun j hen hj => ?_⟩
      · cases hq : req t with
        | «open» | create => rfl
        | _ =>
            rw [hq] at hop
            cases hop
      · by_cases hji : j = i
        · subst hji
          rw [hfdi, hfate]
          exact hnew
        · rw [hfdj j hji]
          exact hold j hji hen ((hans j hj).resolve_right hji)

omit [DecidableEq T] in
/-- A request with something outstanding is busy. -/
theorem busy_of_outstanding {i : Fin n} (h : σ.Outstanding req u i) : σ.pool.busy u = true := by
  obtain ⟨-, hans, -⟩ := h
  unfold Pool.busy
  cases hs : σ.pool.stage u with
  | start | done =>
      rw [hs] at hans
      cases hans
  | _ => rfl

/-- Serving a request leaves the results of others. -/
theorem result_serve_of_ne (a : S × Response × Option F) (hu : u ≠ t) :
    (α.serve t a).result u = α.result u := by
  simp only [Atomic.result, Atomic.serve, Function.update_of_ne hu]

/-- It sets its own. -/
theorem result_serve_self (a : S × Response × Option F) : (α.serve t a).result t = a.2 := by
  simp only [Atomic.result, Atomic.serve, Function.update_self]

/-- The first answer: the copy executes the request, which is outstanding on all other replicas. -/
theorem Lags.serve (h : σ.Lags fs req α pend) (hst : Stepped fs req σ σ' t env evs) {i : Fin n}
    (hse : (req t).searches = false) (hnone : ∀ j, ¬ σ.Outstanding req t j)
    (hans : (σ'.pool.stage t).answered = true) (hi : ∀ j, σ'.pool.Answered t j ↔ j = i)
    (hother : ∀ j, j ≠ i → σ'.world.store j = σ.world.store j) {a : S × Response × Option F}
    (hact : α.act fs σ.pool.creds req t α.copy.store = some a)
    (hleads : Lagging.Leads (α.act fs σ.pool.creds req) α.result (pend i) (σ'.world.store i) a.1) :
    σ'.Lags fs req (α.serve t a) fun j => if j = i then pend j else pend j ++ [t] := by
  have hne : ∀ j, σ.pool.config.enabled j → ∀ u ∈ pend j, u ≠ t := by
    rintro j hj u hu rfl
    exact hnone j ((h.mem j hj u).mp hu)
  refine ⟨fun j hj => ?_, fun j hj u => ?_, fun j hj => ?_⟩
  · rw [hst.pool.creds]
    have hj' := hst.enabled hj
    by_cases hji : j = i
    · subst hji
      rw [if_pos rfl]
      exact hleads.congr (fun u _ => rfl) fun u hu => result_serve_of_ne a (hne j hj' u hu)
    · rw [if_neg hji, hother j hji]
      have hlast : α.act fs σ.pool.creds req t α.copy.store = some (a.1, (α.serve t a).result t) := by
        rw [hact, result_serve_self]
      exact ((h.leads j hj').congr (fun u _ => rfl)
        fun u hu => result_serve_of_ne a (hne j hj' u hu)).concat hlast
  · by_cases hu : u = t
    · subst hu
      have hout : σ'.Outstanding req u j ↔ j ≠ i := by
        rw [Outstanding, hi]
        exact ⟨fun ho => ho.2.2, fun ho => ⟨hse, hans, ho⟩⟩
      rw [hout]
      split_ifs with hji
      · exact iff_of_false (fun hm => hne j (hst.enabled hj) u hm rfl) (not_not.mpr hji)
      · exact iff_of_true (List.mem_append_right _ (List.mem_singleton_self u)) hji
    · rw [hst.outstanding_of_ne hu, ← h.mem j (hst.enabled hj)]
      split_ifs
      · rfl
      · simp [hu]
  · have hnd := h.nodup j (hst.enabled hj)
    split_ifs
    · exact hnd
    · exact hnd.append (List.nodup_singleton t)
        (List.disjoint_singleton.mpr fun hm => hne j (hst.enabled hj) t hm rfl)

/-- A later answer: the replica catches up with the copy, by one request. -/
theorem Lags.catch_up (h : σ.Lags fs req α pend) (hst : Stepped fs req σ σ' t env evs) {i : Fin n}
    (hen : σ.pool.config.enabled i) (hout : σ.Outstanding req t i)
    (hans : (σ'.pool.stage t).answered = true)
    (hi : ∀ j, σ'.pool.Answered t j ↔ σ.pool.Answered t j ∨ j = i)
    (hother : ∀ j, j ≠ i → σ'.world.store j = σ.world.store j)
    (hcomm : ∀ u ∈ pend i, u ≠ t →
      Lagging.Commute (α.act fs σ.pool.creds req t) (α.act fs σ.pool.creds req u))
    {res : Response × Option F}
    (hact : α.act fs σ.pool.creds req t (σ.world.store i) = some (σ'.world.store i, res)) :
    res = α.result t ∧ ∃ pend', σ'.Lags fs req α pend' := by
  obtain ⟨l₁, l₂, hpend⟩ := List.append_of_mem ((h.mem i hen t).mpr hout)
  have hnd := h.nodup i hen
  have hleads := h.leads i hen
  rw [hpend] at hnd hleads
  have hnot : t ∉ l₁ ++ l₂ := (List.nodup_middle.mp hnd).notMem
  obtain ⟨hres, hleads'⟩ := hleads.catch_up (fun u hu => hcomm u (hpend ▸ List.mem_append_left _ hu) (by
    rintro rfl
    exact hnot (List.mem_append_left _ hu))) hact
  refine ⟨hres, Function.update pend i (l₁ ++ l₂), fun j hj => ?_, fun j hj u => ?_, fun j hj => ?_⟩
  · rw [hst.pool.creds]
    by_cases hji : j = i
    · subst hji
      rw [Function.update_self]
      exact hleads'
    · rw [Function.update_of_ne hji, hother j hji]
      exact h.leads j (hst.enabled hj)
  · by_cases hu : u = t
    · subst hu
      have hout' : σ'.Outstanding req u j ↔ j ≠ i ∧ σ.Outstanding req u j := by
        rw [Outstanding, Outstanding, hi]
        constructor
        · rintro ⟨hs, -, hno⟩
          exact ⟨fun hji => hno (Or.inr hji), hs, hout.2.1, fun hj => hno (Or.inl hj)⟩
        · rintro ⟨hji, hs, -, hno⟩
          exact ⟨hs, hans, fun hor => hor.elim hno hji⟩
      rw [hout', ← h.mem j (hst.enabled hj)]
      by_cases hji : j = i
      · subst hji
        rw [Function.update_self]
        exact iff_of_false hnot fun hand => hand.1 rfl
      · rw [Function.update_of_ne hji]
        exact ⟨fun hm => ⟨hji, hm⟩, And.right⟩
    · rw [hst.outstanding_of_ne hu, ← h.mem j (hst.enabled hj)]
      by_cases hji : j = i
      · subst hji
        rw [Function.update_self, hpend]
        simp [hu]
      · rw [Function.update_of_ne hji]
  · by_cases hji : j = i
    · subst hji
      rw [Function.update_self]
      exact (List.nodup_middle.mp hnd).of_cons
    · rw [Function.update_of_ne hji]
      exact h.nodup j (hst.enabled hj)

/-- **A round with an answer.** -/
theorem Tracks.visit_answered (h : σ.Tracks fs req α own pend) (hP : σ.Harmony fs req (t, env))
    (hst : Stepped fs req σ σ' t env evs) {i : Fin n} {todo : List (Fin n)} {x' : Locals n}
    {r : Reply} (hs : σ.pool.stage t = .loop (i :: todo) x) (hs' : σ'.pool.stage t = .loop todo x')
    (hevs : evs = (req t).visitEvents env σ.pool.creds σ.pool.config i)
    (htally : x'.tally = x.tally.add i (.ok r) evs)
    (hfate : (req t).visitFate env σ.pool.creds σ.pool.config i = .ok r) :
    Matched fs req σ σ' t α := by
  have hbusy : σ.pool.busy t = true := by rw [Pool.busy, hs]
  have hrel : (req t).releases = false := h.sound.not_releases hs
  have hon := h.onTrack t
  simp only [OnTrack, hs] at hon
  obtain ⟨hse, hfits, hnodup, hpast, hcov⟩ := hon
  obtain ⟨hi, hnodup⟩ := List.nodup_cons.mp hnodup
  have hnot : ¬ σ.pool.Answered t i := fun hans => hpast i hans List.mem_cons_self
  have hadv := hst.advance
  rw [hs, hs'] at hadv
  have hen : σ.pool.config.enabled i := Request.enabled_of_visitFate_isOk (by rw [hfate]; rfl)
  have hv := hst.visited h.files h.sound hbusy hrel hevs
  obtain ⟨o, hact, hopen⟩ := (hv.answered r hfate).act
  have hans : ∀ j, σ'.pool.Answered t j ↔ σ.pool.Answered t j ∨ j = i := by
    intro j
    rw [hst.answered_iff, hevs, Request.okOn_visitEvents, hfate]
    simp
  have hans' : (σ'.pool.stage t).answered = true := by
    rw [hs']
    simp [Stage.answered, htally]
  -- the new descriptor belongs to the request
  obtain ⟨own', hown', hheld⟩ : ∃ own' : ℤ → Option (Fin n × Owner T),
      ((req t).opens = true → own' r.ret = some (i, .request t)) ∧
      ∀ j v ow g, σ.Held own j v ow g → σ'.Held own' j v ow g := by
    cases hop : (req t).opens with
    | false =>
        refine ⟨own, fun hno => absurd hno Bool.false_ne_true,
          fun j v ow g hh => ⟨hh.own, ?_, hh.nonneg⟩⟩
        rw [hv.kept v (by rw [hh.file]; exact Option.some_ne_none _), hh.file]
    | true =>
        obtain ⟨f, -, hfree, -⟩ := hopen hop
        refine ⟨Function.update own r.ret (some (i, .request t)),
          fun _ => Function.update_self .., fun j v ow g hh => ⟨?_, ?_, hh.nonneg⟩⟩
        · rw [Function.update_of_ne ?_, hh.own]
          rintro rfl
          exact absurd (hfree.symm.trans hh.file) (Option.some_ne_none _).symm
        · rw [hv.kept v (by rw [hh.file]; exact Option.some_ne_none _), hh.file]
  have hnew : (req t).opens = true → ∃ f, o = some f ∧ σ'.Held own' i r.ret (.request t) f :=
    fun hop => by
      obtain ⟨f, hf, -, hfile⟩ := hopen hop
      exact ⟨f, hf, hown' hop, hfile, Int.natCast_nonneg _⟩
  have hlive : σ'.pool.live = σ.pool.live := by
    rw [hst.pool.live, hs, hs']
    rfl
  have hfiles : ∀ α' : Atomic T S F, α'.copy.file = α.copy.file → σ'.Files req α' own' :=
    fun α' hfile => by
      refine h.files.keep (fun j => hst.enabled) hlive hfile (fun j v fh g _ => hheld j v _ g) ?_
      intro u todo' r' hcl
      by_cases hu : u = t
      · subst hu
        rw [hs'] at hcl
        cases hcl
      · exact ⟨todo', r', (hst.pool.stage_of_ne u hu).symm.trans hcl, List.Subset.refl _⟩
  have hon' : ∀ α' : Atomic T S F, σ'.Fits req α' own' t x' → σ'.OnTrack req α' own' t := by
    intro α' hfits'
    simp only [OnTrack, hs']
    refine ⟨hse, hfits', hnodup, fun j hj hjt => ?_, fun j hen => ?_⟩
    · rcases (hans j).mp hj with hold | rfl
      · exact hpast j hold (List.mem_cons_of_mem i hjt)
      · exact hi hjt
    · by_cases hji : j = i
      · exact Or.inr (Or.inr ((hans j).mpr (Or.inr hji)))
      · rcases hcov j (hst.enabled hen) with hmem | herr | hold
        · exact Or.inl ((List.mem_cons.mp hmem).resolve_left hji)
        · exact Or.inr (Or.inl (by rw [htally]; exact herr))
        · exact Or.inr (Or.inr ((hans j).mpr (Or.inl hold)))
  by_cases hsucc : x.tally.succCnt = 0
  · -- the first answer: now the copy executes the request
    obtain ⟨hph, hw⟩ := hfits.asked hsucc
    have hnone : ∀ j, ¬ σ.pool.Answered t j := fun j hj => hfits.counted j hj hsucc
    have hout : ∀ j, ¬ σ.Outstanding req t j := by
      rintro j ⟨-, ht, -⟩
      rw [hs] at ht
      simp [Stage.answered, hsucc] at ht
    have hne : ∀ u ∈ pend i, t ≠ u := by
      rintro u hu rfl
      exact hout i ((h.lags.mem i hen t).mp hu)
    obtain ⟨k₁, hk, hleads⟩ := (h.lags.leads i hen).ahead (fun u hu =>
      h.commutes t u (hne u hu) hbusy (busy_of_outstanding ((h.lags.mem i hen u).mp hu))) hact
    have hph' : (α.serve t (k₁, (req t).respond r, o)).phase t =
        .served ((req t).respond r) o := Function.update_self ..
    have htracks : σ'.Tracks fs req (α.serve t (k₁, (req t).respond r, o)) own'
        fun j => if j = i then pend j else pend j ++ [t] := by
      refine h.of_step hP.orderly hst
        (h.lags.serve hst hse hout hans' (fun j => ?_) hv.other hk hleads) (fun _ _ _ => rfl)
        (fun _ u hu hb => h.commutes t u (Ne.symm hu) hbusy hb)
        (fun u hu => Function.update_of_ne hu _ _) (fun u _ j v g _ => hheld j v _ g) (hon' _ ?_)
        (hfiles _ rfl)
      · rw [hans]
        exact or_iff_right (hnone j)
      · refine hfits.of_answer hse hadv htally hfate hph' (Or.inl hw) (fun j => (hans j).mp)
          fun hop => ?_
        obtain ⟨f, hf, hh⟩ := hnew hop
        exact ⟨f, hf, hh, fun j _ _ hj => absurd hj (hnone j)⟩
    refine htracks.matched_act (.serves t) ?_ ?_
    · simp only [Atomic.step, hph, hk, Option.map_some]
    · rw [hs, hs']
      rfl
  · -- a later one
    obtain ⟨r₀, g₀, hph, hres, hop⟩ := hfits.served hsucc
    have hout : σ.Outstanding req t i := by
      refine ⟨hse, ?_, hnot⟩
      rw [hs]
      simpa [Stage.answered] using hsucc
    obtain ⟨heq, pend', hlags⟩ := h.lags.catch_up hst hen hout hans' hans hv.other
      (fun u hu hne => h.commutes t u (Ne.symm hne) hbusy
        (busy_of_outstanding ((h.lags.mem i hen u).mp hu))) hact
    have hres₀ : α.result t = (r₀, g₀) := by rw [Atomic.result, hph]
    obtain ⟨hr₀, rfl⟩ := Prod.mk.inj (heq.trans hres₀)
    have htracks : σ'.Tracks fs req α own' pend' := by
      refine h.of_step hP.orderly hst hlags (fun _ _ _ => rfl)
        (fun _ u hu hb => h.commutes t u (Ne.symm hu) hbusy hb) (fun _ _ => rfl)
        (fun u _ j v g _ => hheld j v _ g) (hon' _ ?_) (hfiles _ rfl)
      refine hfits.of_answer hse hadv htally hfate (hr₀ ▸ hph)
        (Or.inr fun hno => (hres hno).trans hr₀.symm) (fun j => (hans j).mp) fun hopens => ?_
      obtain ⟨f, hf, hh⟩ := hnew hopens
      obtain ⟨-, f', hf', hheld'⟩ := hop hopens
      obtain rfl := Option.some.inj (hf.symm.trans hf')
      exact ⟨f, hf, hh, fun j _ hj hans => hheld j _ _ _ (hheld' j (hst.enabled hj) hans)⟩
    refine htracks.matched ?_
    rw [hs, hs']
    rfl

/-! ## A round of a search -/

/-- A round of a search that does not end it. -/
theorem Tracks.attend_failed (h : σ.Tracks fs req α own pend) (hP : σ.Harmony fs req (t, env))
    (hst : Stepped fs req σ σ' t env evs) {i : Fin n} {todo : List ℕ} {x' : Locals n}
    (hs : σ.pool.stage t = .ask i todo x) (hs' : σ'.pool.stage t = .choose todo x')
    (hevs : evs = (req t).visitEvents env σ.pool.creds σ.pool.config i)
    (htally : x'.tally =
      x.tally.add i ((req t).visitFate env σ.pool.creds σ.pool.config i) evs)
    (hno : ((req t).visitFate env σ.pool.creds σ.pool.config i).isOk = false)
    (hw : x'.wMax = x.wMax) (hfound : x'.found = x.found) :
    σ'.Tracks fs req α own pend := by
  have hbusy : σ.pool.busy t = true := by rw [Pool.busy, hs]
  have hon := h.onTrack t
  simp only [OnTrack, hs] at hon
  obtain ⟨hse, hfits, hzero⟩ := hon
  have hworld := (hst.visited h.files h.sound hbusy (Request.releases_of_searches hse)
    hevs).unchanged hno
  have hsucc : x'.tally.succCnt = x.tally.succCnt := by
    rw [htally]
    cases hf : (req t).visitFate env σ.pool.creds σ.pool.config i with
    | ok r =>
        rw [hf] at hno
        cases hno
    | skipped | failed => rfl
  refine h.inner hP.orderly hst hworld ?_ hbusy ?_ ?_ ?_ fun hk => ?_
  · rw [hevs, Request.okOn_visitEvents, hno]
    rfl
  · rw [hst.pool.live, hs, hs']
    rfl
  · rw [hs, hs']
    simp only [Stage.answered, hsucc]
  · rw [hs']
    exact fun _ _ h => by cases h
  · simp only [OnTrack, hs']
    refine ⟨hse, hfits.of_failure hk htally hno hw hfound fun hop => ?_, hsucc.trans hzero⟩
    rw [Request.opens_of_searches hse] at hop
    cases hop

/-- **A search is answered.** -/
theorem Tracks.attend_answered (h : σ.Tracks fs req α own pend) (hP : σ.Harmony fs req (t, env))
    (hst : Stepped fs req σ σ' t env evs) {i : Fin n} {todo : List ℕ} {x' : Locals n} {r : Reply}
    (hs : σ.pool.stage t = .ask i todo x) (hs' : σ'.pool.stage t = x'.conclude)
    (hevs : evs = (req t).visitEvents env σ.pool.creds σ.pool.config i)
    (htally : x'.tally = x.tally.add i (.ok r) evs)
    (hfate : (req t).visitFate env σ.pool.creds σ.pool.config i = .ok r)
    (hfound : x'.found = some (i, r)) : Matched fs req σ σ' t α := by
  have hbusy : σ.pool.busy t = true := by rw [Pool.busy, hs]
  have hon := h.onTrack t
  simp only [OnTrack, hs] at hon
  obtain ⟨hse, hfits, hzero⟩ := hon
  have hop := Request.opens_of_searches hse
  have hen : σ.pool.config.enabled i := Request.enabled_of_visitFate_isOk (by rw [hfate]; rfl)
  have hv := hst.visited h.files h.sound hbusy (Request.releases_of_searches hse) hevs
  have hworld := hv.searched hse
  obtain ⟨o, hact, -⟩ := (hv.answered r hfate).act
  obtain ⟨hph, -⟩ := hfits.asked hzero
  have hout : ∀ τ : Parallel T n S F, ∀ j, ¬ τ.Outstanding req t j := by
    rintro τ j ⟨hno, -⟩
    rw [hse] at hno
    cases hno
  have hne : ∀ u ∈ pend i, t ≠ u := by
    rintro u hu rfl
    exact hout σ i ((h.lags.mem i hen t).mp hu)
  -- the answer is the copy's, which it leaves as it is
  obtain ⟨k₁, hk, -⟩ := (h.lags.leads i hen).ahead (fun u hu =>
    h.commutes t u (hne u hu) hbusy (busy_of_outstanding ((h.lags.mem i hen u).mp hu))) hact
  obtain rfl : k₁ = α.copy.store := by
    obtain ⟨a, ha, hak⟩ := Option.map_eq_some_iff.mp hk
    obtain ⟨rfl, -⟩ := Prod.mk.inj hak
    exact (FileSystem.answer_of_searches hse ha).1
  have hph' : (α.serve t (α.copy.store, (req t).respond r, o)).phase t =
      .served ((req t).respond r) o := Function.update_self ..
  have hne' : x'.tally.succCnt ≠ 0 := by
    rw [htally]
    exact Nat.succ_ne_zero _
  have hfits' : σ'.Fits req (α.serve t (α.copy.store, (req t).respond r, o)) own t x' :=
    { counted := fun _ _ => hne'
      failed := by rw [htally]; exact hfits.failed
      err_le := by rw [htally]; exact hfits.err_le
      found := fun hno => by rw [hse] at hno; cases hno
      supported := fun _ => Request.supported_of_searches hse
      asked := fun hz => absurd hz hne'
      served := fun _ => ⟨_, o, hph', fun _ => by rw [Request.result_of_searches hse, hfound]; rfl,
        fun hopens => by rw [hop] at hopens; cases hopens⟩ }
  have hnot : (req t).searches = false → False := fun hno => by
    rw [hse] at hno
    cases hno
  have htracks : σ'.Tracks fs req (α.serve t (α.copy.store, (req t).respond r, o)) own pend := by
    refine h.of_silent hP.orderly hst hworld rfl (fun u hu => Function.update_of_ne hu _ _)
      (fun j _ => ⟨iff_of_false (hout σ' j) (hout σ j), fun ho => absurd ho (hout σ j)⟩)
      (fun _ u hu hb => h.commutes t u (Ne.symm hu) hbusy hb) ?_ ?_
    · rcases x'.conclude_cases with hx | hx
      · simp only [OnTrack, hs'.trans hx]
        exact ⟨hfits', hne', fun hno => (hnot hno).elim⟩
      · simp only [OnTrack, hs'.trans hx]
        exact ⟨hfits', fun hno => (hnot hno).elim⟩
    · refine h.files.of_stage hst hworld ?_ rfl ?_
      · rw [hst.pool.live, hs, hs']
        rfl
      · rcases x'.conclude_cases with hx | hx
        all_goals
          rw [hs', hx]
          exact fun _ _ h => by cases h
  refine htracks.matched_act (.serves t) ?_ ?_
  · simp only [Atomic.step, hph, hk, Option.map_some]
  · rcases x'.conclude_cases with hx | hx
    all_goals
      rw [hs, hs', hx]
      rfl

/-! ## Steps that leave the replicas alone -/

omit [DecidableEq T] in
/-- A stage that touches no replica leaves the stores. -/
theorem Stepped.silent (hst : Stepped fs req σ σ' t env evs)
    (htouch : (σ.pool.stage t).touches = false) :
    σ'.world = σ.world ∧ evs.filterMap Event.okOn = [] := by
  have hsil : ∀ ev ∈ evs, ev.isSilent = true := fun _ hev =>
    Request.silent_of_advance hst.advance htouch hev
  refine ⟨?_, List.filterMap_eq_nil_iff.mpr fun ev hev => Event.okOn_of_isSilent (hsil ev hev)⟩
  have hrun := hst.world
  rw [World.runFrom_of_isSilent hsil] at hrun
  exact (Option.some.inj hrun).symm

/-- A step inside a request that leaves the replicas alone. -/
theorem Tracks.silent (h : σ.Tracks fs req α own pend) (hP : σ.Harmony fs req (t, env))
    (hst : Stepped fs req σ σ' t env evs) (htouch : (σ.pool.stage t).touches = false)
    (hbusy : σ.pool.busy t = true) (hlive : σ'.pool.live = σ.pool.live)
    (hans : (σ'.pool.stage t).answered = (σ.pool.stage t).answered)
    (hclose : ∀ todo r, σ'.pool.stage t ≠ .close todo r)
    (hon : Keeps σ σ' α α own own t → σ'.OnTrack req α own t)
    (hshow : (σ.pool.stage t).shows t (σ'.pool.stage t) = none) : Matched fs req σ σ' t α :=
  (h.inner hP.orderly hst (hst.silent htouch).1 (hst.silent htouch).2 hbusy hlive hans hclose
    hon).matched hshow

omit [DecidableEq T] in
/-- The end of a loop over all replicas. -/
theorem OnTrack.of_loop_end (hfits : σ.Fits req α own t x)
    (hcov : ∀ i, σ.pool.config.enabled i → x.tally.errList i ≠ 0 ∨ σ.pool.Answered t i)
    (hs : σ.pool.stage t = x.conclude) : σ.OnTrack req α own t := by
  unfold Locals.conclude at hs
  split_ifs at hs with hboth
  · simp only [OnTrack, hs]
    exact ⟨hfits, hboth.2, fun _ i hen =>
      (hcov i hen).imp_left fun herr => ⟨List.mem_finRange i, herr⟩⟩
  · simp only [OnTrack, hs]
    refine ⟨hfits, fun _ i hen => ?_⟩
    split_ifs with hz
    · exact (hcov i hen).resolve_right fun hans => hfits.counted i hans hz
    · refine (hcov i hen).resolve_left fun herr => hboth ⟨hfits.failed i herr, hz⟩

/-- The loop over all replicas ends. -/
theorem Tracks.loop_end (h : σ.Tracks fs req α own pend) (hP : σ.Harmony fs req (t, env))
    (hst : Stepped fs req σ σ' t env evs) (hs : σ.pool.stage t = .loop [] x)
    (hs' : σ'.pool.stage t = x.conclude) : Matched fs req σ σ' t α := by
  have hon := h.onTrack t
  simp only [OnTrack, hs] at hon
  obtain ⟨-, hfits, -, -, hcov⟩ := hon
  refine h.silent hP hst (by rw [hs]; rfl) (by rw [Pool.busy, hs]) ?_ ?_ ?_ (fun hk => ?_) ?_
  · rw [hst.pool.live, hs, hs']
    rfl
  · rcases x.conclude_cases with hx | hx <;> rw [hs, hs', hx] <;> rfl
  · rcases x.conclude_cases with hx | hx <;> rw [hs', hx] <;> exact fun _ _ h => by cases h
  · refine OnTrack.of_loop_end (hfits.keep hk) (fun i hen => ?_) hs'
    rw [hk.answered i]
    exact (hcov i (hk.enabled i hen)).resolve_left List.not_mem_nil
  · rcases x.conclude_cases with hx | hx <;> rw [hs, hs', hx] <;> rfl

/-- A search has no more tries. -/
theorem Tracks.tries_end (h : σ.Tracks fs req α own pend) (hP : σ.Harmony fs req (t, env))
    (hst : Stepped fs req σ σ' t env evs) (hs : σ.pool.stage t = .choose [] x)
    (hs' : σ'.pool.stage t = x.conclude) : Matched fs req σ σ' t α := by
  have hon := h.onTrack t
  simp only [OnTrack, hs] at hon
  obtain ⟨hse, hfits, hz⟩ := hon
  have hx : x.conclude = .finish x := by simp [Locals.conclude, hz]
  rw [hx] at hs'
  refine h.silent hP hst (by rw [hs]; rfl) (by rw [Pool.busy, hs]) ?_ (by rw [hs, hs']; rfl)
    (by rw [hs']; exact fun _ _ h => by cases h) (fun hk => ?_) (by rw [hs, hs']; rfl)
  · rw [hst.pool.live, hs, hs']
    rfl
  · simp only [OnTrack, hs']
    refine ⟨hfits.keep hk, fun hno => ?_⟩
    rw [hse] at hno
    cases hno

/-- A search chooses a replica. -/
theorem Tracks.choose (h : σ.Tracks fs req α own pend) (hP : σ.Harmony fs req (t, env))
    (hst : Stepped fs req σ σ' t env evs) {i : Fin n} {k : ℕ} {todo : List ℕ}
    (hs : σ.pool.stage t = .choose (k :: todo) x) (hs' : σ'.pool.stage t = .ask i todo x) :
    Matched fs req σ σ' t α := by
  have hon := h.onTrack t
  simp only [OnTrack, hs] at hon
  refine h.silent hP hst (by rw [hs]; rfl) (by rw [Pool.busy, hs]) ?_ (by rw [hs, hs']; rfl)
    (by rw [hs']; exact fun _ _ h => by cases h) (fun hk => ?_) (by rw [hs, hs']; rfl)
  · rw [hst.pool.live, hs, hs']
    rfl
  · simp only [OnTrack, hs']
    exact ⟨hon.1, hon.2.1.keep hk, hon.2.2⟩

/-- A request goes on with its disabling. Replica `i` is disabled, or did not fail. -/
theorem Tracks.disable (h : σ.Tracks fs req α own pend) (hP : σ.Harmony fs req (t, env))
    (hst : Stepped fs req σ σ' t env evs) {i : Fin n} {todo : List (Fin n)}
    (hs : σ.pool.stage t = .disable (i :: todo) x) (hs' : σ'.pool.stage t = .disable todo x)
    (hi : σ'.pool.config.enabled i → x.tally.errList i = 0) : Matched fs req σ σ' t α := by
  have hon := h.onTrack t
  simp only [OnTrack, hs] at hon
  obtain ⟨hfits, hne, hcov⟩ := hon
  refine h.silent hP hst (by rw [hs]; rfl) (by rw [Pool.busy, hs]) ?_ (by rw [hs, hs']; rfl)
    (by rw [hs']; exact fun _ _ h => by cases h) (fun hk => ?_) (by rw [hs, hs']; rfl)
  · rw [hst.pool.live, hs, hs']
    rfl
  · simp only [OnTrack, hs']
    refine ⟨hfits.keep hk, hne, fun hse j hen => ?_⟩
    rw [hk.answered j]
    refine (hcov hse j (hk.enabled j hen)).imp_left fun hand => ⟨?_, hand.2⟩
    refine (List.mem_cons.mp hand.1).resolve_left ?_
    rintro rfl
    exact hand.2 (hi hen)

/-- The disabling ends. -/
theorem Tracks.disable_end (h : σ.Tracks fs req α own pend) (hP : σ.Harmony fs req (t, env))
    (hst : Stepped fs req σ σ' t env evs) (hs : σ.pool.stage t = .disable [] x)
    (hs' : σ'.pool.stage t = .finish x) : Matched fs req σ σ' t α := by
  have hon := h.onTrack t
  simp only [OnTrack, hs] at hon
  obtain ⟨hfits, hne, hcov⟩ := hon
  refine h.silent hP hst (by rw [hs]; rfl) (by rw [Pool.busy, hs]) ?_ (by rw [hs, hs']; rfl)
    (by rw [hs']; exact fun _ _ h => by cases h) (fun hk => ?_) (by rw [hs, hs']; rfl)
  · rw [hst.pool.live, hs, hs']
    rfl
  · simp only [OnTrack, hs']
    refine ⟨hfits.keep hk, fun hse j hen => ?_⟩
    rw [if_neg hne, hk.answered j]
    exact (hcov hse j (hk.enabled j hen)).resolve_left fun hand => List.not_mem_nil hand.1

/-- `open` or `create` looks for a slot. -/
theorem Tracks.seek (h : σ.Tracks fs req α own pend) (hP : σ.Harmony fs req (t, env))
    (hst : Stepped fs req σ σ' t env evs) {k : ℤ} (hs : σ.pool.stage t = .finish x)
    (hs' : σ'.pool.stage t = .store k x) (hne : x.tally.succCnt ≠ 0)
    (hop : (req t).opens = true) : Matched fs req σ σ' t α := by
  have hon := h.onTrack t
  simp only [OnTrack, hs] at hon
  obtain ⟨hfits, hcov⟩ := hon
  refine h.silent hP hst (by rw [hs]; rfl) (by rw [Pool.busy, hs]) ?_ ?_
    (by rw [hs']; exact fun _ _ h => by cases h) (fun hk => ?_) (by rw [hs, hs']; rfl)
  · rw [hst.pool.live, hs, hs']
    rfl
  · rw [hs, hs']
    simp [Stage.answered, hne]
  · simp only [OnTrack, hs']
    refine ⟨hop, hfits.keep hk, hne, fun j hen => ?_⟩
    have hj := hcov (Request.searches_of_opens hop) j (hk.enabled j hen)
    rw [if_neg hne] at hj
    exact (hk.answered j).mpr hj

/-- There is no slot. -/
theorem Tracks.no_slot (h : σ.Tracks fs req α own pend) (hP : σ.Harmony fs req (t, env))
    (hst : Stepped fs req σ σ' t env evs) {k : ℤ} (hs : σ.pool.stage t = .store k x)
    (hs' : σ'.pool.stage t = .unwind (List.finRange n) x) : Matched fs req σ σ' t α := by
  have hon := h.onTrack t
  simp only [OnTrack, hs] at hon
  obtain ⟨hop, hfits, hne, hall⟩ := hon
  obtain ⟨r, g, hph, -, hopen⟩ := hfits.served hne
  obtain ⟨-, f, -, hheld⟩ := hopen hop
  refine h.silent hP hst (by rw [hs]; rfl) (by rw [Pool.busy, hs]) ?_ (by rw [hs, hs']; rfl)
    (by rw [hs']; exact fun _ _ h => by cases h) (fun hk => ?_) (by rw [hs, hs']; rfl)
  · rw [hst.pool.live, hs, hs']
    rfl
  · simp only [OnTrack, hs']
    refine ⟨hop, List.nodup_finRange n, ⟨r, g, hph⟩,
      fun j hen => (hk.answered j).mpr (hall j (hk.enabled j hen)), fun j _ hen => ⟨f, ?_⟩⟩
    have hen' := hk.enabled j hen
    exact hk.held j _ _ hen (hheld j hen' (hall j hen'))

end step

end Parallel

end ChironFs
