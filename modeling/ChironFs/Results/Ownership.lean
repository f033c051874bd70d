import ChironFs.Model.Administration
import ChironFs.Results.Tracking

/-!
# Descriptors while requests run at the same time

* `Fds.absorb`: the descriptors the process has open. The kernel gives out one that is not in use.
* `Fds.Own`: a call or a `close` is given an open descriptor of its own replica.
* `Pool.Owns`: on an enabled replica each open descriptor has one owner, an open file or the request
  that is opening it, and only its owner has it.
* `descriptors_own`: so nothing is read, written or closed through a descriptor of another file or
  another replica, or one that was closed before.
-/

namespace ChironFs

open Posix Replication
open Parallel (Owner handOver handOver_self handOver_of_ne)

variable {n : ℕ} {T : Type*}

/-! ## The descriptors of the process -/

/-- The replica each open descriptor of the process is of. -/
abbrev Fds (n : ℕ) := ℤ → Option (Fin n)

theorem Event.usedFd_call (cr : Creds) (i : Fin n) (cl : Call) (res : Except Errno Reply) :
    (Event.call cr i cl res).usedFd = cl.fd?.map fun v => (i, v) := by
  cases cl <;> rfl

theorem Request.ask_keepIds (q : Request) (env : Env n) (c : Config n) (i : Fin n) :
    q.ask env.keepIds c i = q.ask env c i := by
  rw [ask, ask, call_keepIds]

/-- The descriptor of a call is that of the request's handle. -/
theorem Request.fd_of_ask {q : Request} {env : Env n} {c : Config n} {i : Fin n} {cl : Call} {v : ℤ}
    (hask : q.ask env c i = some cl) (hv : cl.fd? = some v) :
    ∃ fh fd, q.uses = some fh ∧ c.tabFd fh = some fd ∧ fd i = v ∧ 0 ≤ v ∧ c.enabled i := by
  obtain ⟨hen, hcl⟩ := Config.guarded_eq_some_iff.mp hask
  have huses := Request.fd?_of_callAt (Request.callAt_of_call hcl)
  rw [hv] at huses
  cases q with
  | read fh size offset | write fh buf offset =>
      obtain ⟨fd, hslot, hcl⟩ := Option.bind_eq_some_iff.mp hcl
      simp only [readCall, writeCall] at hcl
      split_ifs at hcl with hneg
      cases hcl
      cases hv
      exact ⟨fh, fd, rfl, hslot, rfl, not_lt.mp hneg, hen⟩
  | release => cases hcl
  | _ => cases huses

theorem Request.supported_of_opens {q : Request} (h : q.opens = true) : q.supported = true := by
  cases q <;> first | rfl | cases h

theorem Request.visitFate_ne_skipped_of_opens {q : Request} {env : Env n} {cr : Creds} {c : Config n}
    {i : Fin n} (hop : q.opens = true) (hen : c.enabled i) : q.visitFate env cr c i ≠ .skipped := by
  unfold visitFate
  split_ifs with hno
  · exact fun hf => by cases hf
  · rw [Ne, attempt_eq_skipped_iff, ask, Config.guarded_of_enabled hen]
    exact fun hcall => hno ⟨hop, hen, hcall⟩

namespace Fds

/-- What an event does to them; `none` when a new descriptor was in use. A `close` that reports an
error has freed its descriptor. -/
def absorb (d : Fds n) : Event n → Option (Fds n)
  | .call _ i cl (.ok r) =>
      if cl.opens then
        if d r.ret = none then some (Function.update d r.ret (some i)) else none
      else some d
  | .close _ _ v _ => some (Function.update d v none)
  | _ => some d

/-- What an event is given is an open descriptor of its replica. -/
def Own (d : Fds n) (ev : Event n) : Prop := ∀ i v, ev.usedFd = some (i, v) → d v = some i

variable {d d' : Fds n} {q : Request} {env : Env n} {cr : Creds} {c : Config n} {i : Fin n}

theorem runFrom_of_isSilent {l : List (Event n)} (h : ∀ ev ∈ l, ev.isSilent = true) :
    Machine.runFrom absorb d l = some d ∧ Machine.Meets absorb Own d l := by
  induction l with
  | nil => exact ⟨rfl, trivial⟩
  | cons ev l ih =>
      obtain ⟨hev, hl⟩ := List.forall_mem_cons.mp h
      obtain ⟨hrun, hmeets⟩ := ih hl
      have habs : d.absorb ev = some d := by cases ev <;> first | rfl | cases hev
      have hused : ev.usedFd = none := by cases ev <;> first | rfl | cases hev
      have hown : d.Own ev := fun i v h => by
        rw [hused] at h
        cases h
      refine ⟨by rw [Machine.runFrom_cons, habs, Option.bind_some, hrun], hown, fun d' hd' => ?_⟩
      obtain rfl := Option.some.inj (habs.symm.trans hd')
      exact hmeets

/-- One round: a call on an open descriptor leaves the descriptors alone, and `open` and `create` add
the one they got. -/
theorem absorb_visit (huse : ∀ cl v, q.ask env c i = some cl → cl.fd? = some v → d v = some i)
    (h : Machine.runFrom absorb d (q.visitEvents env cr c i) = some d') :
    Machine.Meets absorb Own d (q.visitEvents env cr c i) ∧
      ((d' = d ∧ (q.opens = true → (q.visitFate env cr c i).isOk = false)) ∨
        q.opens = true ∧ ∃ r, q.visitFate env cr c i = .ok r ∧ d r.ret = none ∧
          d' = Function.update d r.ret (some i)) := by
  have hcall : ∀ cl res, q.ask env c i = some cl → d.Own (.call cr i cl res) := by
    intro cl res hask j v hfd
    rw [Event.usedFd_call, Option.map_eq_some_iff] at hfd
    obtain ⟨v', hv', heq⟩ := hfd
    obtain ⟨rfl, rfl⟩ := Prod.mk.inj heq
    exact huse cl v' hask hv'
  have hround : ∀ r, q.visitFate env cr c i = .ok r ↔
      ∃ cl, q.ask env c i = some cl ∧ env.call cr i cl = .ok r := by
    intro r
    rw [← Request.round_keepIds, Request.round_eq_ok_iff]
    simp only [Request.ask_keepIds]
    rfl
  have hcases := Request.events_cases env.keepIds { config := c, creds := cr } q i
  simp only [Request.ask_keepIds, Request.events_keepIds, Request.creds_keepIds] at hcases
  have hno : (∀ cl r, q.ask env c i = some cl → env.call cr i cl ≠ .ok r) →
      (q.visitFate env cr c i).isOk = false := by
    intro hne
    by_contra hok
    obtain ⟨r, hr⟩ := Fate.isOk_iff.mp (by simpa using hok)
    obtain ⟨cl, hask, hcl⟩ := (hround r).mp hr
    exact hne cl r hask hcl
  rcases hcases with ⟨hask, hev⟩ | ⟨cl, e, hask, henv, hev⟩ | ⟨cl, r, hask, henv, hcases⟩
  · rw [hev] at h ⊢
    refine ⟨trivial, Or.inl ⟨(Option.some.inj h).symm, fun _ => hno fun cl r hcl => ?_⟩⟩
    rw [hask] at hcl
    cases hcl
  · rw [hev] at h ⊢
    refine ⟨⟨hcall cl _ hask, fun _ _ => trivial⟩,
      Or.inl ⟨(Option.some.inj h).symm, fun _ => hno fun cl' r hcl => ?_⟩⟩
    obtain rfl := Option.some.inj (hask.symm.trans hcl)
    change env.call cr i cl = .error e at henv
    rw [henv]
    exact fun hf => by cases hf
  · change env.call cr i cl = .ok r at henv
    have hfate := (hround r).mpr ⟨cl, hask, henv⟩
    rcases hcases with ⟨hop, hev⟩ | ⟨hcl, hop, -, hev⟩
    · rw [hev] at h ⊢
      refine ⟨⟨hcall cl _ hask, fun _ _ => trivial⟩, ?_⟩
      simp only [Machine.runFrom_cons, absorb, hop] at h
      split_ifs at h with hopens hfree
      · exact Or.inr ⟨hopens, r, hfate, hfree, (Option.some.inj h).symm⟩
      · cases h
      · exact Or.inl ⟨(Option.some.inj h).symm, fun hyes => absurd hyes hopens⟩
    · -- `mknod` closes what it opened on the spot
      rw [hev] at h ⊢
      simp only [Machine.runFrom_cons, absorb, hcl, if_true] at h
      split_ifs at h with hfree
      · refine ⟨⟨hcall cl _ hask, fun d₁ hd₁ => ⟨fun j v hfd => ?_, fun _ _ => trivial⟩⟩,
          Or.inl ⟨?_, fun hyes => ?_⟩⟩
        · simp only [absorb, hcl, if_true, if_pos hfree] at hd₁
          obtain rfl := Option.some.inj hd₁
          obtain ⟨rfl, rfl⟩ := Prod.mk.inj (Option.some.inj hfd)
          exact Function.update_self ..
        · rw [← Option.some.inj h, Function.update_idem, ← hfree, Function.update_eq_self]
        · rw [hop] at hyes
          cases hyes
      · cases h

end Fds

/-! ## Who has a descriptor -/

/-- The entry of replica `i` in the vector of a request at this stage is the descriptor `v`. -/
def Stage.Has (i : Fin n) (v : ℤ) : Stage n → Prop
  | .loop todo x => i ∉ todo ∧ x.fd i = v ∧ 0 ≤ v
  | .disable _ x | .finish x | .store _ x => x.fd i = v ∧ 0 ≤ v
  | .unwind todo x => i ∈ todo ∧ x.fd i = v ∧ 0 ≤ v
  | _ => False

/-- A request goes to no replica twice, only a search chooses its replicas, and only `open` and `create`
have a vector to store. -/
def Stage.Sane (q : Request) : Stage n → Prop
  | .loop todo _ | .close todo _ => todo.Nodup
  | .choose .. | .ask .. => q.searches = true
  | .store .. => q.opens = true
  | .unwind todo _ => q.opens = true ∧ todo.Nodup
  | _ => True

/-- The request closes what it releases. -/
def Stage.closes : Stage n → Bool
  | .close .. => true
  | _ => false

namespace Pool

variable (req : T → Request) (s : Pool T n)

/-- A release of the handle `fh` that is under way has still to come to replica `i`. -/
def Pending (fh : ℕ) (i : Fin n) : Prop :=
  ∀ t todo r, s.stage t = .close todo r → (req t).releasedFh = some fh → i ∈ todo

/-- The owner has the descriptor `v` of replica `i`. -/
def Has (i : Fin n) (v : ℤ) : Owner T → Prop
  | .file fh => ∃ f ∈ s.live, f.fh = fh ∧ f.fd i = v ∧ 0 ≤ v ∧ s.Pending req fh i
  | .request t => (req t).opens = true ∧ (s.stage t).Has i v

/-- **Every descriptor has its owner**, on the enabled replicas. Descriptor `0`, which `release` leaves
open, may have none. -/
structure Owns (own : ℤ → Option (Fin n × Owner T)) (d : Fds n) : Prop where
  held : ∀ i v o, s.config.enabled i → s.Has req i v o → own v = some (i, o) ∧ d v = some i
  kept : ∀ i v, 0 < v → s.config.enabled i → d v = some i → ∃ o, s.Has req i v o
  answered : ∀ t i v, s.config.enabled i → s.Has req i v (.request t) →
    (s.stage t).answered = true
  sane : ∀ t, (s.stage t).Sane (req t)

variable {req s} {s' : Pool T n} {t u : T} {env : Env n} {own own' : ℤ → Option (Fin n × Owner T)}
  {d d' : Fds n} {i : Fin n} {v : ℤ} {x : Locals n} {evs : List (Event n)}

theorem Stepped.enabled (hst : Stepped req s s' t env) (hi : s'.config.enabled i) :
    s.config.enabled i :=
  hst.effect.enabled_of_enabled hi

theorem Stepped.has_request_of_ne (hst : Stepped req s s' t env) (hu : u ≠ t) :
    s'.Has req i v (.request u) ↔ s.Has req i v (.request u) := by
  simp only [Has, hst.stage_of_ne u hu]

/-- The open files of a step that closes none. -/
theorem Stepped.has_file (hst : Stepped req s s' t env) (hlive : s'.live = s.live)
    (hcl : s.closing t = false) (hcl' : s'.closing t = false) (fh : ℕ) :
    s'.Has req i v (.file fh) ↔ s.Has req i v (.file fh) := by
  have hpend : s'.Pending req fh i ↔ s.Pending req fh i := by
    refine forall_congr' fun u => ?_
    by_cases hu : u = t
    · subst hu
      unfold closing at hcl hcl'
      refine iff_of_true (fun todo r hs => ?_) fun todo r hs => ?_
      · rw [hs] at hcl'
        cases hcl'
      · rw [hs] at hcl
        cases hcl
    · rw [hst.stage_of_ne u hu]
  simp only [Has, hlive, hpend]

/-- A step after which everybody has what they had. -/
theorem Owns.congr (h : s.Owns req own d) (hst : Stepped req s s' t env)
    (hhas : ∀ i v o, s'.config.enabled i → (s'.Has req i v o ↔ s.Has req i v o))
    (hans : (req t).opens = true → (s.stage t).answered = true → (s'.stage t).answered = true ∨
      ∀ i v, s'.config.enabled i → ¬ (s'.stage t).Has i v)
    (hsane : (s'.stage t).Sane (req t)) : s'.Owns req own d where
  held := fun i v o hen hh => h.held i v o (hst.enabled hen) ((hhas i v o hen).mp hh)
  kept := fun i v hv hen hd =>
    (h.kept i v hv (hst.enabled hen) hd).imp fun o => (hhas i v o hen).mpr
  answered := fun u i v hen hh => by
    have hwas := h.answered u i v (hst.enabled hen) ((hhas i v _ hen).mp hh)
    by_cases hu : u = t
    · subst hu
      exact (hans hh.1 hwas).resolve_right fun hno => hno i v hen hh.2
    · rw [hst.stage_of_ne u hu]
      exact hwas
  sane := fun u => by
    by_cases hu : u = t
    · exact hu ▸ hsane
    · rw [hst.stage_of_ne u hu]
      exact h.sane u

/-- A step of a request that keeps what it has. -/
theorem Owns.quiet (h : s.Owns req own d) (hst : Stepped req s s' t env)
    (hlive : s'.live = s.live) (hcl : s.closing t = false) (hcl' : s'.closing t = false)
    (hhas : (req t).opens = true → ∀ i v, s'.config.enabled i →
      ((s'.stage t).Has i v ↔ (s.stage t).Has i v))
    (hans : (req t).opens = true → (s.stage t).answered = true → (s'.stage t).answered = true ∨
      ∀ i v, s'.config.enabled i → ¬ (s'.stage t).Has i v)
    (hsane : (s'.stage t).Sane (req t)) : s'.Owns req own d := by
  refine h.congr hst (fun i v o hen => ?_) hans hsane
  cases o with
  | file fh => exact hst.has_file hlive hcl hcl' fh
  | request u =>
      by_cases hu : u = t
      · subst hu
        exact and_congr_right fun hop => hhas hop i v hen
      · exact hst.has_request_of_ne hu

/-- A request gets a new descriptor. -/
theorem Owns.opened (h : s.Owns req own d) (hst : Stepped req s s' t env) (hlive : s'.live = s.live)
    (hcl : s.closing t = false) (hcl' : s'.closing t = false) {i₀ : Fin n} {v₀ : ℤ}
    (hfree : d v₀ = none) (hop : (req t).opens = true)
    (hhas : ∀ i v, s'.config.enabled i →
      ((s'.stage t).Has i v ↔ (s.stage t).Has i v ∨ (i = i₀ ∧ v = v₀)))
    (hans : (s'.stage t).answered = true) (hsane : (s'.stage t).Sane (req t)) :
    s'.Owns req (Function.update own v₀ (some (i₀, .request t)))
      (Function.update d v₀ (some i₀)) := by
  have hiff : ∀ i v o, s'.config.enabled i →
      (s'.Has req i v o ↔ s.Has req i v o ∨ (o = .request t ∧ i = i₀ ∧ v = v₀)) := by
    intro i v o hen
    cases o with
    | file fh => simp [hst.has_file hlive hcl hcl']
    | request u =>
        by_cases hu : u = t
        · subst hu
          simp [Has, hop, hhas i v hen]
        · simp [hst.has_request_of_ne hu, hu]
  refine ⟨fun i v o hen hh => ?_, fun i v hv hen hd => ?_, fun u i v hen hh => ?_, fun u => ?_⟩
  · rcases (hiff i v o hen).mp hh with hold | ⟨rfl, rfl, rfl⟩
    · obtain ⟨hown, hd⟩ := h.held i v o (hst.enabled hen) hold
      have hne : v ≠ v₀ := by
        rintro rfl
        rw [hfree] at hd
        cases hd
      rw [Function.update_of_ne hne, Function.update_of_ne hne]
      exact ⟨hown, hd⟩
    · exact ⟨Function.update_self .., Function.update_self ..⟩
  · by_cases hne : v = v₀
    · subst hne
      rw [Function.update_self] at hd
      obtain rfl := Option.some.inj hd
      exact ⟨.request t, (hiff _ _ _ hen).mpr (Or.inr ⟨rfl, rfl, rfl⟩)⟩
    · rw [Function.update_of_ne hne] at hd
      obtain ⟨o, ho⟩ := h.kept i v hv (hst.enabled hen) hd
      exact ⟨o, (hiff i v o hen).mpr (Or.inl ho)⟩
  · by_cases hu : u = t
    · rw [hu]
      exact hans
    · rw [hst.stage_of_ne u hu]
      exact h.answered u i v (hst.enabled hen) ((hst.has_request_of_ne hu).mp hh)
  · by_cases hu : u = t
    · exact hu ▸ hsane
    · rw [hst.stage_of_ne u hu]
      exact h.sane u

/-- What a request has goes over to its new file. -/
theorem Owns.stored [DecidableEq T] (h : s.Owns req own d) (hs : s.Sound req)
    (hord : s.Orderly req (t, env)) (hst : Stepped req s s' t env) {k : ℤ} (hk : 0 ≤ k) (hat : s.stage t = .store k x)
    (hat' : s'.stage t = .done { ret := 0 } (some k.toNat)) (hop : (req t).opens = true) :
    s'.Owns req (handOver own t k.toNat) d := by
  have hlive : s'.live = { fh := k.toNat, fd := x.fd } :: s.live := by
    rw [hst.live, hat, hat']
    rfl
  have hnew : ∀ f ∈ s.live, f.fh ≠ k.toNat := by
    intro f hf hfh
    have hslot := hs.slots.distinct.slot f hf
    rw [hfh, hord.stores k x hat hk] at hslot
    cases hslot
  have hpend : ∀ fh i, s'.Pending req fh i ↔ s.Pending req fh i := by
    refine fun fh i => forall_congr' fun u => ?_
    by_cases hu : u = t
    · subst hu
      simp [hat, hat']
    · rw [hst.stage_of_ne u hu]
  have hpend' : ∀ i, s.Pending req k.toNat i := by
    intro i u todo r hcl hfh
    obtain ⟨f, hf, hfh', -⟩ := hs.slots.closing u (by rw [closing, hcl])
    exact absurd (Option.some.inj (hfh'.symm.trans hfh)) (hnew f hf)
  have hno : ∀ i v, ¬ s'.Has req i v (.request t) := by
    rintro i v ⟨-, hh⟩
    rw [hat'] at hh
    exact hh
  have hiff : ∀ i v o, s'.Has req i v o ↔
      (o ≠ .request t ∧ s.Has req i v o) ∨ (o = .file k.toNat ∧ s.Has req i v (.request t)) := by
    intro i v o
    cases o with
    | file fh =>
        simp only [Has, hlive, hpend, hat, Stage.Has, hop, List.exists_mem_cons_iff, true_and,
          Owner.file.injEq, ne_eq, Owner.file_ne_request, not_false_eq_true]
        rw [or_comm]
        refine or_congr_right ?_
        constructor
        · rintro ⟨rfl, hv, hge, -⟩
          exact ⟨rfl, hv, hge⟩
        · rintro ⟨rfl, hv, hge⟩
          exact ⟨rfl, hv, hge, hpend' i⟩
    | request u =>
        by_cases hu : u = t
        · subst hu
          simp [hno]
        · simp [hst.has_request_of_ne hu, hu]
  refine ⟨fun i v o hen hh => ?_, fun i v hv hen hd => ?_, fun u i v hen hh => ?_, fun u => ?_⟩
  · rcases (hiff i v o).mp hh with ⟨hne, hold⟩ | ⟨rfl, hold⟩
    · obtain ⟨hown, hd⟩ := h.held i v o (hst.enabled hen) hold
      exact ⟨handOver_of_ne hown hne, hd⟩
    · obtain ⟨hown, hd⟩ := h.held i v _ (hst.enabled hen) hold
      exact ⟨handOver_self hown, hd⟩
  · obtain ⟨o, ho⟩ := h.kept i v hv (hst.enabled hen) hd
    by_cases hot : o = .request t
    · subst hot
      exact ⟨_, (hiff i v _).mpr (Or.inr ⟨rfl, ho⟩)⟩
    · exact ⟨o, (hiff i v o).mpr (Or.inl ⟨hot, ho⟩)⟩
  · by_cases hu : u = t
    · subst hu
      exact absurd hh (hno i v)
    · rw [hst.stage_of_ne u hu]
      exact h.answered u i v (hst.enabled hen) ((hst.has_request_of_ne hu).mp hh)
  · by_cases hu : u = t
    · rw [hu, hat']
      trivial
    · rw [hst.stage_of_ne u hu]
      exact h.sane u

/-- The owner `o₀` gives up what it has of replica `i₀`: the descriptor is closed, or there was none. -/
theorem Owns.gives_up (h : s.Owns req own d) (hst : Stepped req s s' t env) {i₀ : Fin n} {v₀ : ℤ}
    {o₀ : Owner T}
    (hhas : ∀ i v o, s'.config.enabled i →
      (s'.Has req i v o ↔ s.Has req i v o ∧ ¬ (i = i₀ ∧ o = o₀)))
    (hd : (s.Has req i₀ v₀ o₀ ∧ s.config.enabled i₀ ∧ d' = Function.update d v₀ none) ∨
      (d' = d ∧ ∀ v, 0 < v → s.config.enabled i₀ → ¬ s.Has req i₀ v o₀))
    (hone : ∀ v, s.Has req i₀ v o₀ → v = v₀)
    (hans : (req t).opens = true → (s.stage t).answered = true → (s'.stage t).answered = true)
    (hsane : (s'.stage t).Sane (req t)) : s'.Owns req own d' := by
  refine ⟨fun i v o hen hh => ?_, fun i v hv hen hd' => ?_, fun u i v hen hh => ?_, fun u => ?_⟩
  · obtain ⟨hold, hne⟩ := (hhas i v o hen).mp hh
    obtain ⟨hown, hdv⟩ := h.held i v o (hst.enabled hen) hold
    refine ⟨hown, ?_⟩
    rcases hd with ⟨hhas₀, hen₀, rfl⟩ | ⟨rfl, -⟩
    · rw [Function.update_of_ne ?_, hdv]
      rintro rfl
      obtain ⟨rfl, rfl⟩ := Prod.mk.inj (Option.some.inj (hown.symm.trans (h.held _ _ _ hen₀ hhas₀).1))
      exact hne ⟨rfl, rfl⟩
    · exact hdv
  · have hdv : d v = some i := by
      rcases hd with ⟨-, -, rfl⟩ | ⟨rfl, -⟩
      · by_cases hvv : v = v₀
        · rw [hvv, Function.update_self] at hd'
          cases hd'
        · rwa [Function.update_of_ne hvv] at hd'
      · exact hd'
    obtain ⟨o, ho⟩ := h.kept i v hv (hst.enabled hen) hdv
    refine ⟨o, (hhas i v o hen).mpr ⟨ho, ?_⟩⟩
    rintro ⟨rfl, rfl⟩
    rcases hd with ⟨-, -, rfl⟩ | ⟨rfl, hno⟩
    · rw [hone v ho, Function.update_self] at hd'
      cases hd'
    · exact hno v hv (hst.enabled hen) ho
  · have hwas := h.answered u i v (hst.enabled hen) ((hhas i v _ hen).mp hh).1
    by_cases hu : u = t
    · subst hu
      exact hans hh.1 hwas
    · rw [hst.stage_of_ne u hu]
      exact hwas
  · by_cases hu : u = t
    · exact hu ▸ hsane
    · rw [hst.stage_of_ne u hu]
      exact h.sane u

/-- A release begins. -/
theorem Owns.release_begins (h : s.Owns req own d) (hst : Stepped req s s' t env)
    (hat : s.stage t = .start) (hrel : (req t).releases = true)
    (hat' : s'.stage t = .close (List.finRange n) (-1)) : s'.Owns req own d := by
  have hop : (req t).opens = false := by
    obtain ⟨fh, hq⟩ := Request.eq_release hrel
    rw [hq]
    rfl
  refine h.congr hst (fun i v o hen => ?_) (fun hyes => absurd (hop.symm.trans hyes) (by decide))
    (by rw [hat']; exact List.nodup_finRange n)
  cases o with
  | file fh =>
      have hpend : s'.Pending req fh i ↔ s.Pending req fh i := by
        refine forall_congr' fun u => ?_
        by_cases hu : u = t
        · subst hu
          refine iff_of_true (fun todo r hs _ => ?_) fun todo r hs => ?_
          · obtain ⟨rfl, -⟩ := Stage.close.inj (hat'.symm.trans hs)
            exact List.mem_finRange i
          · rw [hat] at hs
            cases hs
        · rw [hst.stage_of_ne u hu]
      have hlive : s'.live = s.live.map fun f =>
          if (req t).releasedFh = some f.fh then { f with releasing := true } else f := by
        rw [hst.live, hat, hat']
        rfl
      simp only [Has, hpend, hlive, List.mem_map, exists_exists_and_eq_and]
      refine exists_congr fun f => and_congr_right fun _ => ?_
      split_ifs <;> rfl
  | request u =>
      by_cases hu : u = t
      · subst hu
        simp [Has, hop]
      · exact hst.has_request_of_ne hu

/-- A release ends. -/
theorem Owns.emptied (h : s.Owns req own d) (hs : s.Sound req) (hst : Stepped req s s' t env) {r : ℤ}
    (hat : s.stage t = .close [] r) (hat' : s'.stage t = .done { ret := r } none) :
    s'.Owns req own d := by
  have hop : (req t).opens = false := hs.not_opens hat
  obtain ⟨f₀, hf₀, hfh₀, hrel₀⟩ := hs.slots.closing t (by rw [closing, hat])
  refine h.congr hst (fun i v o hen => ?_) (fun hyes => absurd (hop.symm.trans hyes) (by decide))
    (by rw [hat']; trivial)
  cases o with
  | file fh =>
      by_cases hfh : (req t).releasedFh = some fh
      · -- the file that was released is nowhere any more
        refine iff_of_false ?_ ?_
        · rintro ⟨f, hf, rfl, -⟩
          rw [hst.live, hat, hat'] at hf
          obtain ⟨hf, hno⟩ := List.mem_filter.mp hf
          obtain rfl := hs.slots.distinct.eq_of_fh_eq hf hf₀ (Option.some.inj (hfh.symm.trans hfh₀))
          simp [hfh, hrel₀] at hno
        · rintro ⟨f, -, -, -, -, hpend⟩
          exact List.not_mem_nil (hpend t [] r hat hfh)
      · have hpend : s'.Pending req fh i ↔ s.Pending req fh i := by
          refine forall_congr' fun u => ?_
          by_cases hu : u = t
          · subst hu
            simp [hfh]
          · rw [hst.stage_of_ne u hu]
        have hlive : ∀ f, f.fh = fh → (f ∈ s'.live ↔ f ∈ s.live) := by
          rintro f rfl
          rw [hst.live, hat, hat']
          simp [liveAfter, hfh]
        simp only [Has, hpend]
        refine exists_congr fun f => ?_
        constructor
        · rintro ⟨hf, hffh, hrest⟩
          exact ⟨(hlive f hffh).mp hf, hffh, hrest⟩
        · rintro ⟨hf, hffh, hrest⟩
          exact ⟨(hlive f hffh).mpr hf, hffh, hrest⟩
  | request u =>
      by_cases hu : u = t
      · subst hu
        simp [Has, hop]
      · exact hst.has_request_of_ne hu

/-! ## One step -/

/-- An open file that nobody releases has the descriptors of its vector. -/
theorem has_of_live (hs : s.Sound req) {f : OpenFile n} (hf : f ∈ s.live) (hnot : f.releasing = false)
    (hge : 0 ≤ f.fd i) : s.Has req i (f.fd i) (.file f.fh) := by
  refine ⟨f, hf, rfl, rfl, hge, fun u todo r hcl hfh => ?_⟩
  obtain ⟨f', hf', hfh', hrel⟩ := hs.slots.closing u (by rw [closing, hcl])
  obtain rfl := hs.slots.distinct.eq_of_fh_eq hf' hf (Option.some.inj (hfh'.symm.trans hfh))
  rw [hnot] at hrel
  cases hrel

/-- A request reads and writes through descriptors of its open file. -/
theorem Owns.uses (h : s.Owns req own d) (hs : s.Sound req) (hbusy : s.busy t = true)
    (hrel : (req t).releases = false) {cl : Call} (hask : (req t).ask env s.config i = some cl)
    (hv : cl.fd? = some v) : d v = some i := by
  obtain ⟨fh, fd, hfh, hslot, rfl, hge, hen⟩ := Request.fd_of_ask hask hv
  obtain ⟨f, hf, rfl, hnot⟩ := hs.inUse t fh hbusy hfh hrel
  obtain rfl := Option.some.inj ((hs.slots.distinct.slot f hf).symm.trans hslot)
  exact (h.held i _ _ hen (has_of_live hs hf hnot hge)).2

/-- A round of the loop over all replicas. -/
theorem Owns.visited (h : s.Owns req own d) (hs : s.Sound req) (hst : Stepped req s s' t env)
    {todo : List (Fin n)} {x' : Locals n} (hat : s.stage t = .loop (i :: todo) x)
    (hat' : s'.stage t = .loop todo x')
    (hadv : (req t).advance env s.creds s.config (.loop (i :: todo) x) =
      some (s'.config, .loop todo x', evs))
    (htally : x'.tally = x.tally.add i ((req t).visitFate env s.creds s.config i) evs)
    (hevs : evs = (req t).visitEvents env s.creds s.config i)
    (hrun : Machine.runFrom Fds.absorb d evs = some d') :
    Machine.Meets Fds.absorb Fds.Own d evs ∧ ∃ own', s'.Owns req own' d' := by
  have hbusy : s.busy t = true := by rw [busy, hat]
  have hrel : (req t).releases = false := hs.not_releases hat
  have hsane := h.sane t
  rw [hat] at hsane
  obtain ⟨hi, hnodup⟩ := List.nodup_cons.mp hsane
  have hlive : s'.live = s.live := by
    rw [hst.live, hat, hat']
    rfl
  have hcl : s.closing t = false := by rw [closing, hat]
  have hcl' : s'.closing t = false := by rw [closing, hat']
  have hsane' : (s'.stage t).Sane (req t) := by
    rw [hat']
    exact hnodup
  rw [hevs] at hrun
  obtain ⟨hmeets, hcase⟩ := Fds.absorb_visit (fun cl v hask hv => h.uses hs hbusy hrel hask hv) hrun
  refine ⟨hevs ▸ hmeets, ?_⟩
  rcases hcase with ⟨rfl, hno⟩ | ⟨hop, r, hr, hfree, rfl⟩
  · refine ⟨own, h.quiet hst hlive hcl hcl' (fun hop j v hen => ?_) (fun hop hans => Or.inl ?_)
      hsane'⟩
    · obtain ⟨hfdi, hfdj⟩ := Request.visit_fd hop hadv
      simp only [hat, hat', Stage.Has, List.mem_cons, not_or]
      by_cases hji : j = i
      · subst hji
        refine iff_of_false ?_ fun hh => hh.1.1 rfl
        -- its entry is not a descriptor
        rintro ⟨-, rfl, hge⟩
        rw [hfdi] at hge
        cases hf : (req t).visitFate env s.creds s.config j with
        | ok r =>
            have := hno hop
            rw [hf] at this
            cases this
        | skipped => exact Request.visitFate_ne_skipped_of_opens hop (hst.enabled hen) hf
        | failed e =>
            rw [hf] at hge
            simp [fdEntry] at hge
      · rw [hfdj j hji]
        simp [hji]
    · rw [hat', Stage.answered]
      rw [hat] at hans
      simp only [Stage.answered, decide_eq_true_eq] at hans ⊢
      rw [htally]
      cases hf : (req t).visitFate env s.creds s.config i with
      | ok r => exact Nat.succ_ne_zero _
      | skipped | failed => exact hans
  · obtain ⟨hfdi, hfdj⟩ := Request.visit_fd hop hadv
    refine ⟨_, h.opened hst hlive hcl hcl' hfree hop (fun j v hen => ?_) ?_ hsane'⟩
    · simp only [hat, hat', Stage.Has, List.mem_cons, not_or]
      by_cases hji : j = i
      · subst hji
        rw [hfdi, hr]
        simp only [fdEntry, hi, not_false_eq_true, true_and, not_true_eq_false, false_and, false_or]
        constructor
        · rintro ⟨rfl, -⟩
          rfl
        · rintro rfl
          exact ⟨rfl, Int.natCast_nonneg _⟩
      · rw [hfdj j hji]
        simp [hji]
    · rw [hat', Stage.answered, htally, hr]
      simp

/-- A round of a search. -/
theorem Owns.attended (h : s.Owns req own d) (hs : s.Sound req) (hst : Stepped req s s' t env)
    {todo : List ℕ} {x' : Locals n} (hat : s.stage t = .ask i todo x)
    (hat' : s'.stage t = x'.conclude ∨ s'.stage t = .choose todo x')
    (hevs : evs = attemptEvents env s.creds i ((req t).ask env s.config i))
    (hrun : Machine.runFrom Fds.absorb d evs = some d') :
    Machine.Meets Fds.absorb Fds.Own d evs ∧ s'.Owns req own d' := by
  have hse := h.sane t
  rw [hat] at hse
  have hop : (req t).opens = false := Request.opens_of_searches hse
  have hbusy : s.busy t = true := by rw [busy, hat]
  rw [← Request.visitEvents_of_searches hse] at hevs
  rw [hevs] at hrun
  obtain ⟨hmeets, hcase⟩ := Fds.absorb_visit (fun cl v hask hv =>
    h.uses hs hbusy (Request.releases_of_searches hse) hask hv) hrun
  obtain rfl : d' = d := by
    rcases hcase with ⟨hd, -⟩ | ⟨hyes, -⟩
    · exact hd
    · rw [hop] at hyes
      cases hyes
  refine ⟨hevs ▸ hmeets, h.quiet hst ?_ (by rw [closing, hat]) ?_ (fun hyes => ?_) (fun hyes => ?_) ?_⟩
  · rw [hst.live, hat]
    rfl
  · rcases hat' with hx | hx
    · rcases x'.conclude_cases with hc | hc <;> rw [closing, hx, hc]
    · rw [closing, hx]
  · rw [hop] at hyes
    cases hyes
  · rw [hop] at hyes
    cases hyes
  · rcases hat' with hx | hx
    · rcases x'.conclude_cases with hc | hc <;> rw [hx, hc] <;> trivial
    · rw [hx]
      exact hse

/-- One entry of a vector is closed, if it is a descriptor of an enabled replica. -/
theorem Owns.closes (h : s.Owns req own d) (hst : Stepped req s s' t env) (i : Fin n)
    (fd : Fin n → ℤ) (o : Owner T) (cond : Prop)
    (hevs : (cond ∧ ∃ cr res, evs = [.close cr i (fd i) res]) ∨ (¬ cond ∧ evs = []))
    (hcond : cond → s.config.enabled i ∧ s.Has req i (fd i) o)
    (hnot : ¬ cond → s.config.enabled i → fd i ≤ 0)
    (hone : ∀ v, s.Has req i v o → v = fd i)
    (hhas : ∀ j v o', s'.config.enabled j →
      (s'.Has req j v o' ↔ s.Has req j v o' ∧ ¬ (j = i ∧ o' = o)))
    (hans : (req t).opens = true → (s.stage t).answered = true → (s'.stage t).answered = true)
    (hsane : (s'.stage t).Sane (req t)) (hrun : Machine.runFrom Fds.absorb d evs = some d') :
    Machine.Meets Fds.absorb Fds.Own d evs ∧ s'.Owns req own d' := by
  rcases hevs with ⟨hyes, cr, res, rfl⟩ | ⟨hno, rfl⟩
  · obtain ⟨hen, hmine⟩ := hcond hyes
    refine ⟨⟨fun j v hfd => ?_, fun _ _ => trivial⟩,
      h.gives_up hst hhas (Or.inl ⟨hmine, hen, (Option.some.inj hrun).symm⟩) hone hans hsane⟩
    obtain ⟨rfl, rfl⟩ := Prod.mk.inj (Option.some.inj hfd)
    exact (h.held _ _ _ hen hmine).2
  · refine ⟨trivial, h.gives_up hst hhas (Or.inr ⟨(Option.some.inj hrun).symm, ?_⟩) hone hans hsane⟩
    intro v hv hen hhas
    have := hone v hhas
    have := hnot hno hen
    omega

/-- A request that has no slot closes an entry of its vector. -/
theorem Owns.unwound (h : s.Owns req own d) (hst : Stepped req s s' t env) {todo : List (Fin n)}
    (hat : s.stage t = .unwind (i :: todo) x)
    (hat' : s'.stage t = .unwind todo x)
    (hevs : evs = closeOpened env s.config s.creds x.fd [i])
    (hrun : Machine.runFrom Fds.absorb d evs = some d') :
    Machine.Meets Fds.absorb Fds.Own d evs ∧ s'.Owns req own d' := by
  have hsane := h.sane t
  rw [hat] at hsane
  obtain ⟨hop, hsane⟩ := hsane
  obtain ⟨hi, hnodup⟩ := List.nodup_cons.mp hsane
  have hlive : s'.live = s.live := by
    rw [hst.live, hat, hat']
    rfl
  have hhas : ∀ j v, s.Has req j v (.request t) ↔ j ∈ i :: todo ∧ x.fd j = v ∧ 0 ≤ v := fun j v => by
    simp only [Has, hat, hop, true_and, Stage.Has]
  refine h.closes hst i x.fd (.request t) (s.config.enabled i ∧ 0 ≤ x.fd i) ?_ (fun hyes => ?_)
    (fun hno hen => ?_) (fun v hv => ?_) (fun j v o _ => ?_) (fun _ _ => by rw [hat']; rfl)
    (by rw [hat']; exact ⟨hop, hnodup⟩) hrun
  · rw [hevs]
    simp only [closeOpened, Config.enabled, ge_iff_le]
    split_ifs with hc
    · exact Or.inl ⟨hc, _, _, rfl⟩
    · exact Or.inr ⟨hc, rfl⟩
  · exact ⟨hyes.1, (hhas i _).mpr ⟨List.mem_cons_self, rfl, hyes.2⟩⟩
  · exact (not_le.mp fun hge => hno ⟨hen, hge⟩).le
  · exact ((hhas i v).mp hv).2.1.symm
  · cases o with
    | file fh =>
        rw [hst.has_file hlive (by rw [closing, hat]) (by rw [closing, hat'])]
        simp
    | request u =>
        by_cases hu : u = t
        · subst hu
          rw [hhas]
          simp only [Has, hat', hop, true_and, Stage.Has, List.mem_cons]
          by_cases hji : j = i
          · subst hji
            simp [hi]
          · simp [hji]
        · rw [hst.has_request_of_ne hu]
          simp [hu]

/-- A release closes an entry of the vector of its file. -/
theorem Owns.closed (h : s.Owns req own d) (hs : s.Sound req) (hst : Stepped req s s' t env)
    {todo : List (Fin n)} {r r' : ℤ} (hat : s.stage t = .close (i :: todo) r)
    (hat' : s'.stage t = .close todo r')
    (hadv : (req t).advance env s.creds s.config (.close (i :: todo) r) =
      some (s'.config, .close todo r', evs))
    (hrun : Machine.runFrom Fds.absorb d evs = some d') :
    Machine.Meets Fds.absorb Fds.Own d evs ∧ s'.Owns req own d' := by
  have hsane := h.sane t
  rw [hat] at hsane
  obtain ⟨hi, hnodup⟩ := List.nodup_cons.mp hsane
  have hop : (req t).opens = false := hs.not_opens hat
  have hclosing : s.closing t = true := by rw [closing, hat]
  obtain ⟨f, hf, hfh, hrel⟩ := hs.slots.closing t hclosing
  have hslot := hs.slots.distinct.slot f hf
  have hlive : s'.live = s.live := by
    rw [hst.live, hat, hat']
    rfl
  -- nobody else releases this file
  have halone : ∀ u, u ≠ t → ∀ todo r, s.stage u = .close todo r →
      (req u).releasedFh ≠ some f.fh := fun u hu todo r hcl hfh' =>
    hu (hs.slots.alone u t (by rw [closing, hcl]) hclosing (hfh'.trans hfh.symm))
  have hpend : ∀ j, s.Pending req f.fh j ↔ j ∈ i :: todo := by
    intro j
    refine ⟨fun hp => hp t _ r hat hfh, fun hj u todo' r'' hcl hfh' => ?_⟩
    by_cases hu : u = t
    · subst hu
      obtain ⟨rfl, -⟩ := Stage.close.inj (hat.symm.trans hcl)
      exact hj
    · exact absurd hfh' (halone u hu _ _ hcl)
  have hpend' : ∀ j, s'.Pending req f.fh j ↔ j ∈ todo := by
    intro j
    refine ⟨fun hp => hp t _ r' hat' hfh, fun hj u todo' r'' hcl hfh' => ?_⟩
    by_cases hu : u = t
    · subst hu
      obtain ⟨rfl, -⟩ := Stage.close.inj (hat'.symm.trans hcl)
      exact hj
    · rw [hst.stage_of_ne u hu] at hcl
      exact absurd hfh' (halone u hu _ _ hcl)
  have hother : ∀ fh, fh ≠ f.fh → ∀ j, s'.Pending req fh j ↔ s.Pending req fh j := by
    intro fh hne j
    refine forall_congr' fun u => ?_
    by_cases hu : u = t
    · subst hu
      have hno : (req u).releasedFh ≠ some fh := fun heq => hne (Option.some.inj (heq.symm.trans hfh))
      simp [hno]
    · rw [hst.stage_of_ne u hu]
  have hhas : ∀ j v, s.Has req j v (.file f.fh) ↔ f.fd j = v ∧ 0 ≤ v ∧ j ∈ i :: todo := by
    intro j v
    simp only [Has, hpend]
    refine ⟨?_, fun hh => ⟨f, hf, rfl, hh⟩⟩
    rintro ⟨f', hf', hfh', hh⟩
    obtain rfl := hs.slots.distinct.eq_of_fh_eq hf' hf hfh'
    exact hh
  simp only [Request.advance, hfh, Option.bind_eq_bind, Option.bind_some, hslot, Option.some.injEq,
    Prod.mk.injEq, releaseLoop] at hadv
  refine h.closes hst i f.fd (.file f.fh) (0 < f.fd i ∧ s.config.enabled i) ?_
    (fun hyes => ?_) (fun hno hen => ?_) (fun v hv => ?_) (fun j v o _ => ?_)
    (fun hyes => by rw [hop] at hyes; cases hyes) (by rw [hat']; exact hnodup) hrun
  · rw [← hadv.2.2]
    simp only [Config.enabled, gt_iff_lt, List.nil_append]
    split_ifs with hc
    · exact Or.inl ⟨hc, _, _, rfl⟩
    · exact Or.inr ⟨hc, rfl⟩
  · exact ⟨hyes.2, (hhas i _).mpr ⟨rfl, hyes.1.le, List.mem_cons_self⟩⟩
  · exact not_lt.mp fun hlt => hno ⟨hlt, hen⟩
  · exact ((hhas i v).mp hv).1.symm
  · cases o with
    | file fh =>
        by_cases hff : fh = f.fh
        · subst hff
          rw [hhas]
          have hhas' : s'.Has req j v (.file f.fh) ↔ f.fd j = v ∧ 0 ≤ v ∧ j ∈ todo := by
            simp only [Has, hlive, hpend']
            refine ⟨?_, fun hh => ⟨f, hf, rfl, hh⟩⟩
            rintro ⟨f', hf', hfh', hh⟩
            obtain rfl := hs.slots.distinct.eq_of_fh_eq hf' hf hfh'
            exact hh
          rw [hhas', List.mem_cons]
          by_cases hji : j = i
          · subst hji
            simp [hi]
          · simp [hji]
        · simp only [Has, hlive, hother fh hff]
          simp [hff]
    | request u =>
        by_cases hu : u = t
        · subst hu
          simp [Has, hop]
        · rw [hst.has_request_of_ne hu]
          simp

theorem closing_of_closes (h : (s.stage t).closes = false) : s.closing t = false := by
  unfold closing
  split
  · rename_i hc
    rw [hc] at h
    cases h
  · rfl

/-- A step that neither calls nor closes. -/
theorem Owns.silent (h : s.Owns req own d) (hst : Stepped req s s' t env) {st st' : Stage n}
    (hat : s.stage t = st) (hat' : s'.stage t = st')
    (hlive : s.liveAfter (req t) st st' = s.live)
    (hcl : st.closes = false) (hcl' : st'.closes = false)
    (hhas : (req t).opens = true → ∀ i v, s.config.enabled i →
      (∀ v, st.Has i v → st.answered = true) → (st'.Has i v ↔ st.Has i v))
    (hans : st.answered = true → st'.answered = true ∨ ∀ i v, ¬ st'.Has i v)
    (hsane : st.Sane (req t) → st'.Sane (req t)) : s'.Owns req own d := by
  refine h.quiet hst (by rw [hst.live, hat, hat', hlive]) (closing_of_closes (hat ▸ hcl))
    (closing_of_closes (hat' ▸ hcl')) (fun hop i v hen => ?_) (fun _ hwas => ?_) ?_
  · rw [hat, hat']
    refine hhas hop i v (hst.enabled hen) fun v hh => ?_
    rw [← hat]
    exact h.answered t i v (hst.enabled hen) ⟨hop, hat ▸ hh⟩
  · rw [hat']
    exact (hans (hat ▸ hwas)).imp_right fun hn i v _ => hn i v
  · rw [hat']
    exact hsane (hat ▸ h.sane t)

/-- **One step**, whatever it is. -/
theorem Owns.step [DecidableEq T] (h : s.Owns req own d) (hs : s.Sound req)
    (hord : s.Orderly req (t, env)) (hst : Stepped req s s' t env)
    (hadv : (req t).advance env s.creds s.config (s.stage t) = some (s'.config, s'.stage t, evs))
    (hrun : Machine.runFrom Fds.absorb d evs = some d') :
    Machine.Meets Fds.absorb Fds.Own d evs ∧ ∃ own', s'.Owns req own' d' := by
  have hmove := Request.move_of_advance hadv
  have hsilent : (s.stage t).touches = false → (∃ own', s'.Owns req own' d) →
      Machine.Meets Fds.absorb Fds.Own d evs ∧ ∃ own', s'.Owns req own' d' := by
    intro htouch hown
    obtain ⟨hrun', hmeets⟩ := Fds.runFrom_of_isSilent (d := d) fun ev hev =>
      Request.silent_of_advance hadv htouch hev
    obtain rfl := Option.some.inj (hrun'.symm.trans hrun)
    exact ⟨hmeets, hown⟩
  generalize hat : s.stage t = st at hadv hmove hsilent
  generalize hat' : s'.stage t = st' at hadv hmove
  generalize hc : s'.config = c' at hadv hmove
  cases hmove with
  | refused e =>
      exact hsilent rfl ⟨own, h.silent hst hat hat' rfl rfl rfl
        (fun _ _ _ _ _ => Iff.rfl) (fun hno => by cases hno) fun _ => trivial⟩
  | goesOver hse =>
      exact hsilent rfl ⟨own, h.silent hst hat hat' rfl rfl rfl
        (fun _ i _ _ _ => by simp [Stage.Has]) (fun hno => by cases hno)
        fun _ => List.nodup_finRange n⟩
  | searches hse =>
      exact hsilent rfl ⟨own, h.silent hst hat hat' rfl rfl rfl
        (fun _ _ _ _ _ => Iff.rfl) (fun hno => by cases hno) fun _ => hse⟩
  | releases hrel => exact hsilent rfl ⟨own, h.release_begins hst hat hrel hat'⟩
  | @gaveUp i todo x hsup =>
      obtain rfl := Option.some.inj hrun
      refine ⟨trivial, own, h.silent hst hat hat' rfl rfl rfl
        (fun hop _ _ _ _ => ?_) (fun _ => Or.inr fun _ _ hh => hh) fun _ => trivial⟩
      rw [Request.supported_of_opens hop] at hsup
      cases hsup
  | visited _ htally => exact h.visited hs hst hat hat' (hc ▸ hadv) htally rfl hrun
  | @loopEnd x =>
      refine hsilent rfl ⟨own, ?_⟩
      rcases x.conclude_cases with hx | hx
      all_goals
        rw [hx] at hat'
        exact h.silent hst hat hat' rfl rfl rfl
          (fun _ _ _ _ _ => by simp [Stage.Has]) Or.inl fun _ => trivial
  | chose =>
      exact hsilent rfl ⟨own, h.silent hst hat hat' rfl rfl rfl
        (fun _ _ _ _ _ => Iff.rfl) Or.inl id⟩
  | @triesEnd x =>
      have hse := h.sane t
      rw [hat] at hse
      have hop : (req t).opens ≠ true := by simp [Request.opens_of_searches hse]
      refine hsilent rfl ⟨own, ?_⟩
      rcases x.conclude_cases with hx | hx
      all_goals
        rw [hx] at hat'
        exact h.silent hst hat hat' rfl rfl rfl
          (fun hyes => absurd hyes hop) Or.inl fun _ => trivial
  | @attended i todo x x' =>
      have hx : s'.stage t = x'.conclude ∨ s'.stage t = .choose todo x' := by
        rw [hat']
        split_ifs
        · exact Or.inl rfl
        · exact Or.inr rfl
      obtain ⟨hmeets, hown⟩ := h.attended hs hst hat hx rfl hrun
      exact ⟨hmeets, own, hown⟩
  | spared hno =>
      exact hsilent rfl ⟨own, h.silent hst hat hat' rfl rfl rfl
        (fun _ _ _ _ _ => Iff.rfl) Or.inl id⟩
  | disabled hen herr =>
      exact hsilent rfl ⟨own, h.silent hst hat hat' rfl rfl rfl
        (fun _ _ _ _ _ => Iff.rfl) Or.inl id⟩
  | disableEnd =>
      exact hsilent rfl ⟨own, h.silent hst hat hat' rfl rfl rfl
        (fun _ _ _ _ _ => Iff.rfl) Or.inl id⟩
  | failed hz =>
      -- without an answer there is no descriptor
      exact hsilent rfl ⟨own, h.silent hst hat hat' rfl rfl rfl
        (fun _ _ v _ hwas => iff_of_false id fun hh => by simpa [Stage.answered, hz] using hwas v hh)
        (fun _ => Or.inr fun _ _ hh => hh) fun _ => trivial⟩
  | answered hne hop =>
      refine hsilent rfl ⟨own, h.silent hst hat hat' rfl rfl rfl
        (fun hyes => ?_) (fun _ => Or.inr fun _ _ hh => hh) fun _ => trivial⟩
      rw [hop] at hyes
      cases hyes
  | sought hne hop =>
      exact hsilent rfl ⟨own, h.silent hst hat hat' rfl rfl rfl
        (fun _ _ _ _ _ => Iff.rfl) (fun _ => Or.inl rfl) fun _ => hop⟩
  | stored hk =>
      have hop := h.sane t
      rw [hat] at hop
      exact hsilent rfl ⟨_, h.stored hs hord hst hk hat hat' hop⟩
  | noSlot =>
      exact hsilent rfl ⟨own, h.silent hst hat hat' rfl rfl rfl
        (fun _ _ _ _ _ => by simp [Stage.Has]) (fun _ => Or.inl rfl)
        fun hop => ⟨hop, List.nodup_finRange n⟩⟩
  | unwound =>
      obtain ⟨hmeets, hown⟩ := h.unwound hst hat hat' rfl hrun
      exact ⟨hmeets, own, hown⟩
  | unwindEnd =>
      exact hsilent rfl ⟨own, h.silent hst hat hat' rfl rfl rfl
        (fun _ _ _ _ _ => by simp [Stage.Has]) (fun _ => Or.inr fun _ _ hh => hh) fun _ => trivial⟩
  | closed =>
      obtain ⟨hmeets, hown⟩ := h.closed hs hst hat hat' (hc ▸ hadv) hrun
      exact ⟨hmeets, own, hown⟩
  | emptied => exact hsilent rfl ⟨own, h.emptied hs hst hat hat'⟩

/-! ## Runs -/

/-- Nothing is open and nothing was asked. -/
theorem EmptyTable.owns (h : s.EmptyTable) : s.Owns req (fun _ => none) fun _ => none := by
  refine ⟨fun i v o _ hh => ?_, fun i v _ _ hd => ?_, fun t i v _ hh => ?_, fun t => ?_⟩
  · cases o with
    | file fh =>
        obtain ⟨f, hf, -⟩ := hh
        rw [h.live] at hf
        cases hf
    | request t =>
        obtain ⟨-, hh⟩ := hh
        rw [h.start t] at hh
        cases hh
  · cases hd
  · obtain ⟨-, hh⟩ := hh
    rw [h.start t] at hh
    cases hh
  · rw [h.start t]
    trivial

/-- What a run has done to the descriptors, and who has them now. -/
def Accounted (req : T → Request) (s : Pool T n) : Prop :=
  ∀ d, Machine.runFrom Fds.absorb (fun _ => none) (s.trace.map Prod.snd) = some d →
    Machine.Meets Fds.absorb Fds.Own (fun _ => none) (s.trace.map Prod.snd) ∧
      ∃ own, s.Owns req own d

theorem Accounted.step [DecidableEq T] (h : s.Accounted req) (hs : s.Sound req)
    (hord : s.Orderly req (t, env)) (hstep : s.step req (t, env) = some s') :
    s'.Accounted req := by
  obtain ⟨evs, hadv, htrace⟩ := advance_of_step hstep
  have hsplit : s'.trace.map Prod.snd = s.trace.map Prod.snd ++ evs := by
    simp [htrace, Function.comp_def]
  intro d' hd'
  rw [hsplit, Machine.runFrom_append] at hd'
  obtain ⟨d, hd, hd'⟩ := Option.bind_eq_some_iff.mp hd'
  obtain ⟨hmeets, own, hown⟩ := h d hd
  obtain ⟨hmeets', hown'⟩ := hown.step hs hord (stepped_of_step hstep) hadv hd'
  refine ⟨?_, hown'⟩
  rw [hsplit]
  refine hmeets.append fun d₁ hd₁ => ?_
  obtain rfl := Option.some.inj (hd.symm.trans hd₁)
  exact hmeets'

end Pool

/-- **Nobody touches the descriptors of others.** In every run whose steps are orderly, and in which the
kernel gives out descriptors that are not in use: what a `pread`, a `pwrite` or a `close` is given is an
open descriptor of its own replica; two open files share none; and when no request is under way,
the descriptors open on an enabled replica are those of the open files. -/
theorem descriptors_own [DecidableEq T] {req : T → Request} {s₀ s : Pool T n} (h₀ : s₀.EmptyTable)
    (htrace : s₀.trace = []) {l : List (T × Env n)}
    (hmeets : Machine.Meets (Pool.step req) (Pool.Orderly req) s₀ l)
    (hrun : Machine.runFrom (Pool.step req) s₀ l = some s) {d : Fds n}
    (hd : Machine.runFrom Fds.absorb (fun _ => none) (s.trace.map Prod.snd) = some d) :
    Machine.Meets Fds.absorb Fds.Own (fun _ => none) (s.trace.map Prod.snd) ∧
      (∀ f ∈ s.live, ∀ g ∈ s.live, f.releasing = false → g.releasing = false →
        ∀ i j, s.config.enabled i → s.config.enabled j → 0 ≤ f.fd i → f.fd i = g.fd j →
          f = g ∧ i = j) ∧
      ((∀ t, s.busy t = false) → ∀ i v, 0 < v → s.config.enabled i →
        (d v = some i ↔ ∃ f ∈ s.live, f.fd i = v)) := by
  obtain ⟨hs, hacc⟩ : s.Sound req ∧ s.Accounted req := by
    refine Machine.invariant_of_meets (I := fun s => s.Sound req ∧ s.Accounted req) ?_ l s₀ s hmeets
      ⟨h₀.sound, fun d hd => ?_⟩ hrun
    · rintro s₁ ⟨t, env⟩ s₂ hord ⟨hs, hacc⟩ hstep
      exact ⟨hs.step hord (Pool.stepped_of_step hstep), hacc.step hs hord hstep⟩
    · rw [htrace] at hd ⊢
      obtain rfl := Option.some.inj hd
      exact ⟨trivial, _, h₀.owns⟩
  obtain ⟨hown, own, h⟩ := hacc d hd
  refine ⟨hown, fun f hf g hg hfrel hgrel i j hi hj hge heq => ?_, fun hidle i v hv hi => ?_⟩
  · obtain ⟨hof, -⟩ := h.held i _ _ hi (Pool.has_of_live hs hf hfrel hge)
    obtain ⟨hog, -⟩ := h.held j _ _ hj (Pool.has_of_live hs hg hgrel (heq ▸ hge))
    rw [heq, hog] at hof
    obtain ⟨rfl, hfh⟩ := Prod.mk.inj (Option.some.inj hof)
    exact ⟨hs.slots.distinct.eq_of_fh_eq hf hg (Owner.file.inj hfh).symm, rfl⟩
  · constructor
    · intro hdv
      obtain ⟨o, ho⟩ := h.kept i v hv hi hdv
      cases o with
      | file fh =>
          obtain ⟨f, hf, -, hfd, -⟩ := ho
          exact ⟨f, hf, hfd⟩
      | request t =>
          obtain ⟨-, hhas⟩ := ho
          have hno := hidle t
          unfold Pool.busy at hno
          cases hst : s.stage t <;> simp [hst, Stage.Has] at hno hhas
    · rintro ⟨f, hf, rfl⟩
      refine (h.held i _ (.file f.fh) hi ⟨f, hf, rfl, rfl, hv.le, fun t todo r hcl => ?_⟩).2
      have hno := hidle t
      rw [Pool.busy, hcl] at hno
      cases hno

/-- `/f` is opened, written to and released. -/
def openWriteRelease : Fin 3 → Request
  | 0 => .open fileF 0
  | 1 => .write 4 [1, 2] 0
  | 2 => .release 4

/-- One after the other. -/
def inOrder : List (Fin 3 × Env 2) :=
  List.replicate 6 (0, openEnv false) ++
    List.replicate 5 (1, plainEnv fun _ _ => .ok { ret := 2 }) ++
    List.replicate 4 (2, plainEnv fun _ _ => .ok {})

/-- All descriptors are closed in the end. -/
theorem descriptors_own_inOrder :
    ∃ s d, Machine.runFrom (Pool.step openWriteRelease) (rootPool (Fin 3)) inOrder = some s ∧
      Machine.runFrom Fds.absorb (fun _ => none) (s.trace.map Prod.snd) = some d ∧
      s.trace.length = 6 ∧ Machine.Meets Fds.absorb Fds.Own (fun _ => none) (s.trace.map Prod.snd) ∧
      ∀ i v, 0 < v → d v ≠ some i := by
  have hmeets : Machine.Meets (Pool.step openWriteRelease) (Pool.Orderly openWriteRelease)
      (rootPool (Fin 3)) inOrder := by decide
  obtain ⟨s, d, hrun, hd, hlen, hlive, hidle, hen⟩ :
      ∃ s d, Machine.runFrom (Pool.step openWriteRelease) (rootPool (Fin 3)) inOrder = some s ∧
        Machine.runFrom Fds.absorb (fun _ => none) (s.trace.map Prod.snd) = some d ∧
        s.trace.length = 6 ∧ s.live.length = 0 ∧ (∀ t, s.busy t = false) ∧
        ∀ i, s.config.enabled i := ⟨_, _, rfl, rfl, rfl, rfl, by decide, by decide⟩
  obtain ⟨hown, -, hopen⟩ :=
    descriptors_own ⟨fun _ => rfl, rfl, by decide, fun _ _ => rfl⟩ rfl hmeets hrun hd
  refine ⟨s, d, hrun, hd, hlen, hown, fun i v hv hdv => ?_⟩
  obtain ⟨f, hf, -⟩ := (hopen hidle i v hv (hen i)).mp hdv
  rw [List.length_eq_zero_iff.mp hlive] at hf
  cases hf

end ChironFs
