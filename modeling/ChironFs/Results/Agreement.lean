import ChironFs.Model.Sample
import ChironFs.Spec.Session
import ChironFs.Spec.Tables
import ChironFs.Spec.Tries
import ChironFs.Spec.World

/-!
# The replicas are one file system

Runs of the daemon over replicas that are stores, any call of which may be made to fail.

* `System.step`: one more request, whose trace the replicas take part in.
* `System.Agrees σ k`: the enabled replicas hold the store of the copy `k`, and every live handle
  refers to the same file of it on each of them.
* `System.Agrees.follows_early`, `_release`, `_search`, `_every`, `_opens`: what each kind of request
  does to the copy; `System.step_follows`: one request.
* `one_file_system`: in every reachable state the replicas agree with a copy, and a request that
  succeeds returns what the copy returns.
-/

namespace ChironFs

open Posix Replication

variable {n : ℕ} {S F : Type*}

/-! ## The system -/

/-- A run of the daemon together with its replicas. -/
structure System (n : ℕ) (S F : Type*) where
  session : Session n
  world : World n S F

namespace System

variable (fs : FileSystem S F)

/-- One more request; `none` as for `Session.step`, or if the answers it finds are not those of the
replicas. -/
def step (σ : System n S F) (a : Request × Env n) : Option (System n S F) :=
  if σ.session.admits a.1 then
    (handle a.1 a.2 σ.session.daemon).bind fun o =>
      (Machine.runFrom (World.absorb fs σ.session.daemon.config.root) σ.world o.trace).map fun w =>
        { session := σ.session.after a.1 o, world := w }
  else none

/-- A start: nothing open, tables that list every replica, all of them enabled, with identical
stores. -/
structure Start (σ : System n S F) : Prop where
  fresh : σ.session.Fresh
  tables : σ.session.daemon.config.WellFormed
  named : σ.session.daemon.config.AllNamed
  enabled : ∀ i, σ.session.daemon.config.enabled i
  same : ∀ i j, σ.world.store i = σ.world.store j

/-- The request gets all the memory it asks for. -/
def Allocates (_ : System n S F) (a : Request × Env n) : Prop :=
  (∀ k, a.2.calloc k = true) ∧ ∀ i k, a.2.malloc i k = true

/-- The enabled replicas hold the store of the copy; a live handle refers to the same file of it on
each of them; on one replica different handles have different descriptors. -/
structure Agrees (σ : System n S F) (k : Copy S F) : Prop where
  store : Agree {i | σ.session.daemon.config.enabled i} σ.world.store k.store
  file : ∀ x ∈ σ.session.live, ∃ f, k.file x.fh = some f ∧
    ∀ i, σ.session.daemon.config.enabled i → σ.world.file (x.fd i) = some (i, f)
  apart : ∀ x ∈ σ.session.live, ∀ y ∈ σ.session.live, ∀ i,
    σ.session.daemon.config.enabled i → x.fd i = y.fd i → x.fh = y.fh

variable {fs} {σ σ' : System n S F} {k : Copy S F} {q : Request} {env : Env n}

theorem step_eq_some_iff :
    σ.step fs (q, env) = some σ' ↔
      σ.session.admits q = true ∧ ∃ o w, handle q env σ.session.daemon = some o ∧
        Machine.runFrom (World.absorb fs σ.session.daemon.config.root) σ.world o.trace = some w ∧
        σ' = { session := σ.session.after q o, world := w } := by
  unfold step
  split_ifs with hadm
  · simp only [hadm, true_and, Option.bind_eq_some_iff, Option.map_eq_some_iff]
    exact ⟨fun ⟨o, ho, w, hw, he⟩ => ⟨o, w, ho, hw, he.symm⟩,
      fun ⟨o, w, ho, hw, he⟩ => ⟨o, ho, w, hw, he.symm⟩⟩
  · simp [hadm]

theorem Start.agrees (h : σ.Start) : ∃ k, σ.Agrees k := by
  obtain ⟨i₀, -⟩ := h.fresh.enabled
  refine ⟨{ store := σ.world.store i₀, file := fun _ => none }, fun i _ => h.same i i₀, ?_, ?_⟩
  · simp [h.fresh.live]
  · simp [h.fresh.live]

/-- Agreement after a request that opened no handle. -/
theorem Agrees.of_live_subset (hk : σ.Agrees k) {c : S}
    (hlive : ∀ x ∈ σ'.session.live, x ∈ σ.session.live)
    (hen : ∀ i, σ'.session.daemon.config.enabled i → σ.session.daemon.config.enabled i)
    (hstore : Agree {i | σ'.session.daemon.config.enabled i} σ'.world.store c)
    (hfile : ∀ x ∈ σ'.session.live, ∀ i, σ'.session.daemon.config.enabled i →
      σ'.world.file (x.fd i) = σ.world.file (x.fd i)) :
    σ'.Agrees { k with store := c } where
  store := hstore
  file := fun x hx => by
    obtain ⟨f, hf, hfd⟩ := hk.file x (hlive x hx)
    exact ⟨f, hf, fun i hi => by rw [hfile x hx i hi, hfd i (hen i hi)]⟩
  apart := fun x hx y hy i hi => hk.apart x (hlive x hx) y (hlive y hy) i (hen i hi)

/-- An open file of a live handle is not unused. -/
theorem Agrees.file_ne_none (hk : σ.Agrees k) {x : Handle n} (hx : x ∈ σ.session.live) {i : Fin n}
    (hi : σ.session.daemon.config.enabled i) : σ.world.file (x.fd i) ≠ none := by
  obtain ⟨f, -, hfd⟩ := hk.file x hx
  rw [hfd i hi]
  exact Option.some_ne_none _

/-- The calls of an admitted request are about their own replicas, and about the file of its
handle. -/
theorem Agrees.targets (hk : σ.Agrees k) (hi : σ.session.Inv) (hadm : σ.session.admits q = true)
    {i : Fin n} {cl : Call} (hask : q.ask env σ.session.daemon.config i = some cl) :
    σ.world.Targets i cl (q.uses.bind k.file) := by
  obtain ⟨hen, hcl⟩ := Request.ask_eq_some_iff.mp hask
  have hfd := Request.fd?_of_callAt (Request.callAt_of_call hcl)
  unfold World.Targets
  rw [hfd]
  cases hu : q.uses with
  | none => rfl
  | some fh =>
      obtain ⟨x, hx, rfl, hslot⟩ := hi.slot_of_admits hadm hu
      obtain ⟨f, hf, hfd⟩ := hk.file x hx
      have hfdOn : q.fdOn σ.session.daemon.config i = x.fd i := by simp [Request.fdOn, hu, hslot]
      exact ⟨f, by rw [hfdOn, hfd i hen], hf⟩

end System

/-! ## The calls of a request -/

section calls

variable {fs : FileSystem S F} {σ : System n S F} {k : Copy S F} {q : Request} {env : Env n}
  {o : Outcome n} {tried : List (Fin n)} {w w' : World n S F}

/-- The part of a trace the replicas take part in: the calls, and what `open` and `create` close
again. -/
theorem Served.exists_run {d : Daemon n} {root : Fin n → Path} (h : Served q env d tried o)
    (hrun : Machine.runFrom (World.absorb fs root) w o.trace = some w') :
    ∃ w₁ tail, Machine.runFrom (World.absorb fs root) w (tried.flatMap (q.events env d)) = some w₁ ∧
      Machine.runFrom (World.absorb fs root) w₁ tail = some w' ∧ (q.opens = false → tail = []) ∧
      tail ⊆ o.trace ∧ ∀ ev ∈ tail, ev.isSilent = true ∨
        ∃ i r, q.round env d i = .ok r ∧
          ev = .close (dropPriv env d.creds).creds i r.ret (env.close i r.ret) := by
  obtain ⟨tail, htr, hnil, htail⟩ := h.trace
  have hsub : tail ⊆ o.trace := fun ev hev => by
    rw [htr]
    exact List.mem_append_left _ (List.mem_append_right _ (List.mem_append_right _ hev))
  rw [htr, World.runFrom_append_silent fun _ hm =>
      Event.isSilent_of_isCred (isCred_of_mem_reacquirePriv hm),
    World.runFrom_silent_append fun _ hm => Event.isSilent_of_isCred (isCred_of_mem_dropPriv hm),
    Machine.runFrom_append, World.runFrom_append_silent fun _ hm =>
      isSilent_of_mem_dropLogs hm] at hrun
  obtain ⟨w₁, h₁, h₂⟩ := Option.bind_eq_some_iff.mp hrun
  refine ⟨w₁, tail, h₁, h₂, hnil, hsub, fun ev hev => (htail ev hev).imp_left ?_⟩
  rintro rfl
  rfl

/-- **A round on agreeing replicas**, when it asks every enabled one: if nobody answers all stores
stay; otherwise those that are not dropped hold the store that the copy gets, and every answer is
the copy's. -/
theorem System.Agrees.round (hk : σ.Agrees k) (hi : σ.session.Inv)
    (hadm : σ.session.admits q = true)
    (hasked : ∀ i, σ.session.daemon.config.enabled i → q.round env σ.session.daemon i ≠ .skipped)
    (hrun : Machine.runFrom (World.absorb fs σ.session.daemon.config.root) σ.world
      ((List.finRange n).flatMap (q.events env σ.session.daemon)) = some w) :
    (∀ v, σ.world.file v ≠ none → w.file v = σ.world.file v) ∧
      (¬ (q.round env σ.session.daemon).Succeeded →
        Agree ((q.round env σ.session.daemon).survivors {i | σ.session.daemon.config.enabled i})
          w.store k.store) ∧
      ((q.round env σ.session.daemon).Succeeded →
        ∃ a, fs.answer (dropPriv env σ.session.daemon.creds).creds q (q.uses.bind k.file) k.store =
            some a ∧
          Agree ((q.round env σ.session.daemon).survivors
            {i | σ.session.daemon.config.enabled i}) w.store a.store ∧
          ∀ i r, q.round env σ.session.daemon i = .ok r → q.respond r = q.respond a.reply ∧
            (q.opens = true → ∃ f, a.opened = some f ∧ σ.world.file r.ret = none ∧
              w.file r.ret = some (i, f))) := by
  obtain ⟨hstay, hfile, hok⟩ := World.calls_spec (List.nodup_finRange n)
    (fun i cl hask => hk.targets hi hadm hask) hrun
  have hkeep : ∀ i ∈ {i | σ.session.daemon.config.enabled i},
      (q.round env σ.session.daemon i).isOk = false → w.store i = σ.world.store i :=
    fun i _ hno => hstay i (Or.inr hno)
  refine ⟨hfile, ?_, ?_⟩
  · intro hns
    exact agree_survivors_of_not_succeeded hk.store hkeep hns
  · -- the answer of any replica that succeeded is the one of the copy
    intro hs
    have hans : ∀ i r, q.round env σ.session.daemon i = .ok r →
        ∃ a, fs.answer (dropPriv env σ.session.daemon.creds).creds q (q.uses.bind k.file) k.store =
            some a ∧ w.store i = a.store ∧ q.respond r = q.respond a.reply ∧
          (q.opens = true → ∃ f, a.opened = some f ∧ σ.world.file r.ret = none ∧
            w.file r.ret = some (i, f)) := by
      intro i r hr
      obtain ⟨a, ha, hrest⟩ := hok i (List.mem_finRange i) r hr
      have hen : σ.session.daemon.config.enabled i := by
        obtain ⟨c, hask, -⟩ := Request.round_eq_ok_iff.mp hr
        exact (Request.ask_eq_some_iff.mp hask).1
      rw [hk.store i hen] at ha
      exact ⟨a, ha, hrest⟩
    obtain ⟨i₀, r₀, hr₀⟩ := Round.succeeded_iff.mp hs
    obtain ⟨a, ha, -⟩ := hans i₀ r₀ hr₀
    have hall : ∀ i r, q.round env σ.session.daemon i = .ok r → w.store i = a.store ∧
        q.respond r = q.respond a.reply ∧ (q.opens = true → ∃ f, a.opened = some f ∧
          σ.world.file r.ret = none ∧ w.file r.ret = some (i, f)) := by
      intro i r hr
      obtain ⟨a', ha', hrest⟩ := hans i r hr
      obtain rfl : a = a' := Option.some.inj (ha.symm.trans ha')
      exact hrest
    refine ⟨a, ha, agree_survivors hasked ?_ hs,
      fun i r hr => (hall i r hr).2⟩
    intro i _ hi
    obtain ⟨r, hr⟩ := Fate.isOk_iff.mp hi
    exact (hall i r hr).1

end calls

/-! ## What each kind of request does -/

namespace System

variable {fs : FileSystem S F} {σ : System n S F} {k : Copy S F} {q : Request} {env : Env n}
  {o : Outcome n} {tried : List (Fin n)} {w : World n S F}

/-- After the request the replicas agree with a copy; if the request succeeded, with the one that
served it, with the same response. -/
def Follows (fs : FileSystem S F) (σ : System n S F) (k : Copy S F) (q : Request) (env : Env n)
    (o : Outcome n) (w : World n S F) : Prop :=
  ∃ k', ({ session := σ.session.after q o, world := w } : System n S F).Agrees k' ∧
    (q.releases = false → 0 ≤ o.response.ret →
      fs.serve (dropPriv env σ.session.daemon.creds).creds (o.fh.getD 0) q k =
        some (k', o.response))

/-- An early exit changes nothing. -/
theorem Agrees.follows_early (hk : σ.Agrees k) (hi : σ.session.Inv)
    (hadm : σ.session.admits q = true) {e : Errno}
    (he : q.early env σ.session.daemon.config = some e)
    (hrun : Machine.runFrom (World.absorb fs σ.session.daemon.config.root) σ.world
      (earlyOutcome env σ.session.daemon e).trace = some w) :
    Follows fs σ k q env (earlyOutcome env σ.session.daemon e) w := by
  have hrel : q.releases = false := by
    cases q with
    | release fh =>
        obtain ⟨x, -, -, hfd⟩ := hi.slot_of_admits hadm rfl
        rw [Request.early, hfd] at he
        cases he
    | _ => rfl
  rw [World.runFrom_of_isSilent fun _ hm =>
    Event.isSilent_of_isCred (isCred_of_mem_earlyOutcome hm)] at hrun
  obtain rfl := Option.some.inj hrun
  refine ⟨k, ?_, fun _ hret => absurd e.neg_lt_zero (not_lt.mpr hret)⟩
  refine hk.of_live_subset ?_ (fun _ h => h) hk.store fun _ _ _ _ => rfl
  intro x hx
  have hlive := Session.liveAfter_eq (s := σ.session) (o := earlyOutcome env σ.session.daemon e)
    hrel fun _ => e.neg_lt_zero
  exact hlive ▸ hx

/-- `release` closes descriptors of its own handle only. -/
theorem Agrees.follows_release (hk : σ.Agrees k) {x : Handle n} (hx : x ∈ σ.session.live)
    (hrun : Machine.runFrom (World.absorb fs σ.session.daemon.config.root) σ.world
      (releaseOutcome env σ.session.daemon x.fh x.fd).trace = some w) :
    Follows fs σ k (.release x.fh) env (releaseOutcome env σ.session.daemon x.fh x.fd) w := by
  obtain ⟨hstore, hfile⟩ := World.runFrom_of_closes
    (X := {v | ∃ i, σ.session.daemon.config.enabled i ∧ v = x.fd i}) (fun ev hev => by
      cases hcred : ev.isCred with
      | true => exact Or.inl (Event.isSilent_of_isCred hcred)
      | false =>
          obtain ⟨i, hcl, rfl⟩ := mem_releaseOutcome hcred hev
          simp only [Config.closes, Bool.and_eq_true, Bool.not_eq_true'] at hcl
          exact Or.inr ⟨_, i, x.fd i, _, ⟨i, hcl.2, rfl⟩, rfl⟩) hrun
  have hlive : ∀ y ∈ (σ.session.after (.release x.fh)
      (releaseOutcome env σ.session.daemon x.fh x.fd)).live, y ∈ σ.session.live ∧ y.fh ≠ x.fh := by
    intro y hy
    have hmem : y ∈ σ.session.liveAfter (.release x.fh)
        (releaseOutcome env σ.session.daemon x.fh x.fd) := hy
    rw [Session.liveAfter, if_neg (fun h => by cases h.1), List.mem_filter] at hmem
    refine ⟨hmem.1, ?_⟩
    intro heq
    simp [Request.releasedFh, heq] at hmem
  refine ⟨k, ?_, fun hrel => by cases hrel⟩
  refine hk.of_live_subset (fun y hy => (hlive y hy).1) (fun _ h => h) ?_
    fun y hy i hen => hfile _ ?_
  · intro i hen
    show w.store i = k.store
    rw [hstore]
    exact hk.store i hen
  · rintro ⟨j, hj, heq⟩
    obtain ⟨hy, hne⟩ := hlive y hy
    obtain ⟨f, -, hf⟩ := hk.file y hy
    obtain ⟨g, -, hg⟩ := hk.file x hx
    have hyi := hf i hen
    rw [heq, hg j hj] at hyi
    obtain rfl : j = i := (Prod.mk.inj (Option.some.inj hyi)).1
    exact hne (hk.apart y hy x hx j hj heq)

/-- A request that stops at the first answer gives the answer of the copy and changes nothing. -/
theorem Agrees.follows_search (hk : σ.Agrees k) (hi : σ.session.Inv)
    (hadm : σ.session.admits q = true) (hwf : σ.session.daemon.config.WellFormed)
    (hall : σ.session.daemon.config.AllNamed)
    (hcall : ∀ i, σ.session.daemon.config.enabled i → q.call env σ.session.daemon.config i ≠ none)
    (hse : q.searches = true) (ho : handle q env σ.session.daemon = some o)
    (h : Served q env σ.session.daemon tried o)
    (hrun : Machine.runFrom (World.absorb fs σ.session.daemon.config.root) σ.world o.trace = some w) :
    Follows fs σ k q env o w := by
  have hop := Request.opens_of_searches hse
  have hrel := Request.releases_of_searches hse
  obtain ⟨w₁, tail, hcalls, htail, hnil, -⟩ := h.exists_run hrun
  rw [hnil hop] at htail
  obtain rfl := Option.some.inj htail
  obtain ⟨rfl, hans⟩ := World.searched_spec hse (fun i cl hask => hk.targets hi hadm hask) hcalls
  refine ⟨k, ?_, ?_⟩
  · have hlive := Session.liveAfter_eq (s := σ.session) (o := o) hrel
      fun hopens => by rw [hop] at hopens; cases hopens
    exact hk.of_live_subset (fun x hx => hlive ▸ hx) (fun i => enabled_of_enabled ho)
      (fun i hen => hk.store i (enabled_of_enabled ho hen)) fun _ _ _ _ => rfl
  · intro _ hret
    have hs : (q.roundOn env σ.session.daemon tried).Succeeded := by
      by_contra hns
      exact absurd hret (not_le.mpr
        (h.ret_neg_of_not_succeeded hwf (fun i _ => hall i) hi.enabled hcall hns))
    obtain ⟨i, r, hr, hresp⟩ := h.answered hop hs
    have hmem : i ∈ tried := by
      by_contra hnot
      rw [Request.roundOn, if_neg hnot] at hr
      cases hr
    rw [Request.roundOn, if_pos hmem] at hr
    obtain ⟨c, hask, -⟩ := Request.round_eq_ok_iff.mp hr
    obtain ⟨a, ha, hstore, hra, -⟩ := hans i hmem r hr
    rw [hk.store i (Request.ask_eq_some_iff.mp hask).1] at ha hstore
    rw [FileSystem.serve, ha, Option.map_some, hop, hresp, hra, ← hstore]
    rfl

/-- The replicas that are enabled after a round are its survivors. -/
theorem mem_survivors (ho : handle q env σ.session.daemon = some o)
    (h : Served q env σ.session.daemon (List.finRange n) o) {i : Fin n}
    (hi : o.daemon.config.enabled i) :
    i ∈ (q.round env σ.session.daemon).survivors {i | σ.session.daemon.config.enabled i} := by
  have hen := enabled_of_enabled ho hi
  refine ⟨hen, ?_⟩
  intro hdrop
  rw [← Request.roundOn_finRange] at hdrop
  exact ((h.newlyDisabled_iff i).mpr ⟨hen, hdrop⟩).2 hi

/-- A request that is made on every replica moves those that stay enabled with the copy. -/
theorem Agrees.follows_every (hk : σ.Agrees k) (hi : σ.session.Inv)
    (hadm : σ.session.admits q = true) (hwf : σ.session.daemon.config.WellFormed)
    (hall : σ.session.daemon.config.AllNamed)
    (hcall : ∀ i, σ.session.daemon.config.enabled i → q.call env σ.session.daemon.config i ≠ none)
    (hop : q.opens = false) (hrel : q.releases = false) (ho : handle q env σ.session.daemon = some o)
    (h : Served q env σ.session.daemon (List.finRange n) o)
    (hrun : Machine.runFrom (World.absorb fs σ.session.daemon.config.root) σ.world o.trace = some w) :
    Follows fs σ k q env o w := by
  obtain ⟨w₁, tail, hcalls, htail, hnil, -⟩ := h.exists_run hrun
  rw [hnil hop] at htail
  obtain rfl := Option.some.inj htail
  obtain ⟨hfile, hfail, hsucc⟩ := hk.round hi hadm
    (fun i hen => Request.round_ne_skipped_iff.mpr ⟨hen, Or.inr (hcall i hen)⟩) hcalls
  have hlive := Session.liveAfter_eq (s := σ.session) (o := o) hrel
    fun hopens => by rw [hop] at hopens; cases hopens
  have hagree : ∀ {c}, Agree ((q.round env σ.session.daemon).survivors
      {i | σ.session.daemon.config.enabled i}) w₁.store c →
      ({ session := σ.session.after q o, world := w₁ } : System n S F).Agrees
        { k with store := c } := fun hc =>
    hk.of_live_subset (fun x hx => hlive ▸ hx) (fun i => enabled_of_enabled ho)
      (fun i hen => hc i (mem_survivors ho h hen))
      fun x hx i hen => hfile _ (hk.file_ne_none (hlive ▸ hx) (enabled_of_enabled ho hen))
  by_cases hs : (q.round env σ.session.daemon).Succeeded
  · obtain ⟨a, ha, hsurv, hans⟩ := hsucc hs
    refine ⟨_, hagree hsurv, ?_⟩
    intro _ _
    rw [← Request.roundOn_finRange] at hs
    obtain ⟨i, r, hr, hresp⟩ := h.answered hop hs
    rw [Request.roundOn_finRange] at hr
    rw [FileSystem.serve, ha, Option.map_some, hop, hresp, (hans i r hr).1]
    rfl
  · refine ⟨_, hagree (hfail hs), fun _ hret => absurd hret (not_le.mpr ?_)⟩
    rw [← Request.roundOn_finRange] at hs
    exact h.ret_neg_of_not_succeeded hwf (fun i _ => hall i) hi.enabled hcall hs

/-- What the calls of an `open` or `create`, and the closes that follow when there is no slot, do to
agreeing replicas. -/
structure OpenRun (fs : FileSystem S F) (σ : System n S F) (k : Copy S F) (q : Request) (env : Env n)
    (w : World n S F) : Prop where
  kept : ∀ x ∈ σ.session.live, ∀ i, σ.session.daemon.config.enabled i →
    w.file (x.fd i) = σ.world.file (x.fd i)
  failed : ¬ (q.round env σ.session.daemon).Succeeded →
    Agree ((q.round env σ.session.daemon).survivors {i | σ.session.daemon.config.enabled i})
      w.store k.store
  answered : (q.round env σ.session.daemon).Succeeded →
    ∃ a f, fs.answer (dropPriv env σ.session.daemon.creds).creds q (q.uses.bind k.file) k.store =
        some a ∧ a.opened = some f ∧
      Agree ((q.round env σ.session.daemon).survivors {i | σ.session.daemon.config.enabled i})
        w.store a.store ∧
      ∀ i r, q.round env σ.session.daemon i = .ok r → σ.world.file r.ret = none ∧
        (closedFds (q.openOutcome env σ.session.daemon).trace = [] → w.file r.ret = some (i, f))

theorem Agrees.openRun (hk : σ.Agrees k) (hi : σ.session.Inv) (hadm : σ.session.admits q = true)
    (hop : q.opens = true)
    (h : Served q env σ.session.daemon (List.finRange n) (q.openOutcome env σ.session.daemon))
    (hrun : Machine.runFrom (World.absorb fs σ.session.daemon.config.root) σ.world
      (q.openOutcome env σ.session.daemon).trace = some w) : OpenRun fs σ k q env w := by
  obtain ⟨w₁, tail, hcalls, htail, -, hsub, htailev⟩ := h.exists_run hrun
  obtain ⟨hfile, hfail, hsucc⟩ := hk.round hi hadm
    (fun i hen => Request.round_ne_skipped_iff.mpr ⟨hen, Or.inl hop⟩) hcalls
  -- what is closed again are descriptors this request got
  obtain ⟨hstore, hclosed⟩ := World.runFrom_of_closes
    (X := {v | ∃ i r, q.round env σ.session.daemon i = .ok r ∧ v = r.ret})
    (fun ev hev => (htailev ev hev).imp_right
      fun ⟨i, r, hr, heq⟩ => ⟨_, i, _, _, ⟨i, r, hr, rfl⟩, heq⟩) htail
  refine ⟨?_, fun hns => hstore ▸ hfail hns, ?_⟩
  · intro x hx i hen
    have hne := hk.file_ne_none hx hen
    rw [hclosed _ ?_, hfile _ hne]
    rintro ⟨j, r, hr, heq⟩
    obtain ⟨a, -, -, hans⟩ := hsucc (Round.succeeded_of_eq_ok hr)
    obtain ⟨f, -, hfree, -⟩ := (hans j r hr).2 hop
    rw [heq] at hne
    exact hne hfree
  · intro hs
    obtain ⟨a, ha, hsurv, hans⟩ := hsucc hs
    obtain ⟨f, hf⟩ := FileSystem.opened_of_opens hop ha
    refine ⟨a, f, ha, hf, hstore ▸ hsurv, ?_⟩
    intro i r hr
    obtain ⟨f', hf', hfree, hnew⟩ := (hans i r hr).2 hop
    obtain rfl : f = f' := Option.some.inj (hf.symm.trans hf')
    refine ⟨hfree, ?_⟩
    intro hnil
    have hsilent : ∀ ev ∈ tail, ev.isSilent = true := by
      intro ev hev
      apply (htailev ev hev).resolve_right
      rintro ⟨j, r', -, rfl⟩
      have hmem : (j, (r'.ret : ℤ)) ∈ closedFds (q.openOutcome env σ.session.daemon).trace :=
        List.mem_filterMap.mpr ⟨_, hsub hev, rfl⟩
      rw [hnil] at hmem
      cases hmem
    rw [World.runFrom_of_isSilent hsilent] at htail
    rw [← Option.some.inj htail, hnew]

/-- The handle an `open` or `create` stored refers to the file the copy opened, on every replica
that stays enabled. -/
theorem Agrees.of_opened (hk : σ.Agrees k) (hi : σ.session.Inv) {fh : ℕ} {a : Answer S F} {f : F}
    (ho : handle q env σ.session.daemon = some o)
    (h : Session.Opened σ.session (σ.session.after q o) q env fh) (hf : a.opened = some f)
    (hstore : Agree {i | o.daemon.config.enabled i} w.store a.store)
    (hkept : ∀ x ∈ σ.session.live, ∀ i, σ.session.daemon.config.enabled i →
      w.file (x.fd i) = σ.world.file (x.fd i))
    (hnew : ∀ i r, q.round env σ.session.daemon i = .ok r →
      σ.world.file r.ret = none ∧ w.file r.ret = some (i, f)) :
    ({ session := σ.session.after q o, world := w } : System n S F).Agrees
      { store := a.store, file := Function.update k.file fh a.opened } := by
  have hvec : ∀ i, o.daemon.config.enabled i → ∃ r, q.round env σ.session.daemon i = .ok r ∧
      fdVector (q.round env σ.session.daemon) i = r.ret := fun i hen => by
    obtain ⟨r, hr⟩ := h.ok_of_enabled i hen
    exact ⟨r, hr, by simp only [fdVector, hr, fdEntry]⟩
  -- the new descriptors were unused, those of the live handles are not
  have hne : ∀ y ∈ σ.session.live, ∀ i, o.daemon.config.enabled i →
      fdVector (q.round env σ.session.daemon) i ≠ y.fd i := by
    intro y hy i hen heq
    obtain ⟨r, hr, hv⟩ := hvec i hen
    rw [hv] at heq
    exact hk.file_ne_none hy (enabled_of_enabled ho hen) (heq ▸ (hnew i r hr).1)
  refine ⟨hstore, ?_, ?_⟩
  · intro x hx
    rw [h.live] at hx
    rcases List.mem_cons.mp hx with rfl | hold
    · refine ⟨f, by rw [← hf]; exact Function.update_self .., ?_⟩
      intro i hen
      obtain ⟨r, hr, hv⟩ := hvec i hen
      show w.file (fdVector (q.round env σ.session.daemon) i) = some (i, f)
      rw [hv]
      exact (hnew i r hr).2
    · obtain ⟨g, hg, hgfd⟩ := hk.file x hold
      have hfh : x.fh ≠ fh := fun heq => by
        have hfree := h.slot_free
        rw [← heq, hi.slot x hold] at hfree
        cases hfree
      refine ⟨g, by rw [← hg]; exact Function.update_of_ne hfh _ _, ?_⟩
      intro i hen
      have hen' := enabled_of_enabled ho hen
      exact (hkept x hold i hen').trans (hgfd i hen')
  · intro x hx y hy i hen heq
    rw [h.live] at hx hy
    rcases List.mem_cons.mp hx with rfl | hx <;> rcases List.mem_cons.mp hy with rfl | hy
    · rfl
    · exact absurd heq (hne y hy i hen)
    · exact absurd heq.symm (hne x hx i hen)
    · exact hk.apart x hx y hy i (enabled_of_enabled ho hen) heq

/-- `open` and `create`. -/
theorem Agrees.follows_opens (hk : σ.Agrees k) (hi : σ.session.Inv)
    (hadm : σ.session.admits q = true) (hop : q.opens = true)
    (ho : handle q env σ.session.daemon = some (q.openOutcome env σ.session.daemon))
    (h : Served q env σ.session.daemon (List.finRange n) (q.openOutcome env σ.session.daemon))
    (hrun : Machine.runFrom (World.absorb fs σ.session.daemon.config.root) σ.world
      (q.openOutcome env σ.session.daemon).trace = some w) :
    Follows fs σ k q env (q.openOutcome env σ.session.daemon) w := by
  obtain ⟨hkept, hfail, hsucc⟩ := hk.openRun hi hadm hop h hrun
  -- a success adds its handle
  have hlive : 0 ≤ (q.openOutcome env σ.session.daemon).response.ret →
      (σ.session.after q (q.openOutcome env σ.session.daemon)).live =
        (q.openOutcome env σ.session.daemon).handle :: σ.session.live := fun hret => by
    show σ.session.liveAfter q _ = _
    rw [Session.liveAfter, if_pos ⟨hop, hret⟩]
  rcases Session.after_openOutcome hi.enabled hop with ⟨fh, hopened⟩ | hkeep
  · obtain ⟨i₀, hi₀⟩ := exists_enabled ho hi.enabled
    obtain ⟨r₀, hr₀⟩ := hopened.ok_of_enabled i₀ hi₀
    have hs := Round.succeeded_of_eq_ok hr₀
    obtain ⟨a, f, ha, hf, hsurv, hans⟩ := hsucc hs
    have hnil : closedFds (q.openOutcome env σ.session.daemon).trace = [] := by
      have hcl : closedFds (σ.session.trace ++ (q.openOutcome env σ.session.daemon).trace) =
        closedFds σ.session.trace := hopened.closed
      simpa using hcl
    refine ⟨_, hk.of_opened hi ho hopened hf (fun i hen => hsurv i (mem_survivors ho h hen)) hkept
      fun i r hr => ⟨(hans i r hr).1, (hans i r hr).2 hnil⟩, ?_⟩
    intro _ hret
    have hfh : (q.openOutcome env σ.session.daemon).fh.getD 0 = fh :=
      congrArg Handle.fh (List.cons.inj ((hlive hret).symm.trans hopened.live)).1
    have hresp : (q.openOutcome env σ.session.daemon).response = q.respond a.reply := by
      rcases h.opened hop (by rwa [Request.roundOn_finRange]) with hr | hr
      · rw [hr]
        cases q with
        | «open» | create => rfl
        | _ => cases hop
      · rw [hr] at hret
        exact absurd EMFILE.neg_lt_zero (not_lt.mpr hret)
    rw [FileSystem.serve, ha, Option.map_some, hop, hfh, hresp]
    rfl
  · have hneg : ¬ 0 ≤ (q.openOutcome env σ.session.daemon).response.ret := fun hret =>
      List.cons_ne_self _ _ ((hlive hret).symm.trans hkeep.live)
    have hagree : ∀ {c}, Agree ((q.round env σ.session.daemon).survivors
        {i | σ.session.daemon.config.enabled i}) w.store c →
        ({ session := σ.session.after q (q.openOutcome env σ.session.daemon), world := w } :
          System n S F).Agrees { k with store := c } := fun hc =>
      hk.of_live_subset (fun x hx => hkeep.live ▸ hx) (fun i => enabled_of_enabled ho)
        (fun i hen => hc i (mem_survivors ho h hen))
        fun x hx i hen => hkept x (hkeep.live ▸ hx) i (enabled_of_enabled ho hen)
    by_cases hs : (q.round env σ.session.daemon).Succeeded
    · obtain ⟨a, f, -, -, hsurv, -⟩ := hsucc hs
      exact ⟨_, hagree hsurv, fun _ hret => absurd hret hneg⟩
    · exact ⟨_, hagree (hfail hs), fun _ hret => absurd hret hneg⟩

/-! ## Runs -/

/-- A request that gets past its early exits, with an enabled replica that can be named, is of a
kind that can be served. -/
theorem supported_of_early_eq_none {d : Daemon n} (he : q.early env d.config = none)
    (hnames : env.Names d.config) (hen : ∃ i, d.config.enabled i) : q.supported = true := by
  cases q with
  | mknod path mode rdev =>
      obtain ⟨i, hi⟩ := hen
      obtain ⟨p, hp⟩ := Option.ne_none_iff_exists'.mp (hnames i hi path 0)
      simp only [Request.early] at he
      split_ifs at he with h₀ hr
      by_contra hsup
      simp only [Request.supported, Bool.or_eq_true, not_or, Bool.not_eq_true] at hsup
      apply hr
      simp only [mknodRefuses, hsup.1, hsup.2, Bool.not_false, Bool.true_and, List.any_eq_true]
      have hdis : (d.config.replicas i).disabled = false := by simpa [Config.enabled] using hi
      exact ⟨i, List.mem_finRange i, by rw [hdis, hp]; rfl⟩
  | _ => rfl

/-- **One request on agreeing replicas.** -/
theorem Agrees.follows (hk : σ.Agrees k) (hi : σ.session.Inv)
    (hadm : σ.session.admits q = true) (hwf : σ.session.daemon.config.WellFormed)
    (hall : σ.session.daemon.config.AllNamed) (hA : σ.Allocates (q, env))
    (ho : handle q env σ.session.daemon = some o)
    (hrun : Machine.runFrom (World.absorb fs σ.session.daemon.config.root) σ.world o.trace = some w) :
    Follows fs σ k q env o w := by
  rcases handle_cases ho with ⟨e, he, rfl⟩ | ⟨fh, fd, rfl, hfd, rfl⟩ | ⟨he, hrel, tried, h⟩
  · exact hk.follows_early hi hadm he hrun
  · obtain ⟨x, hx, rfl, hslot⟩ := hi.slot_of_admits hadm rfl
    obtain rfl : x.fd = fd := Option.some.inj (hslot.symm.trans hfd)
    exact hk.follows_release hx hrun
  · have hnames := Env.names_of_malloc hall hA.2
    have hsup := supported_of_early_eq_none he hnames hi.enabled
    have hcall : ∀ i, σ.session.daemon.config.enabled i →
        q.call env σ.session.daemon.config i ≠ none := fun i hen =>
      hi.call_ne_none hadm hsup hrel hnames hen
    cases hse : q.searches with
    | true => exact hk.follows_search hi hadm hwf hall hcall hse ho h hrun
    | false =>
        obtain rfl := h.all hse
        cases hop : q.opens with
        | false => exact hk.follows_every hi hadm hwf hall hcall hop hrel ho h hrun
        | true =>
            obtain rfl := Option.some.inj ((handle_opens hop he).symm.trans ho)
            exact hk.follows_opens hi hadm hop ho h hrun

/-- The invariant of a run: that of the daemon, tables that list every replica, and replicas that
agree. -/
structure Inv (σ : System n S F) : Prop where
  session : σ.session.Inv
  tables : σ.session.daemon.config.WellFormed
  named : σ.session.daemon.config.AllNamed
  agrees : ∃ k, σ.Agrees k

/-- A mounted file system over identical stores is a start. -/
theorem start_of_mounted {p : Path} {uid gid : ℕ} {c : Config (maxReplica p)}
    (hp : ∀ token ∈ components p, token ≠ []) (hc : c.Mounted p uid gid)
    {σ : System (maxReplica p) S F} (hs : σ.session.StartsOn c)
    (hsame : ∀ i j, σ.world.store i = σ.world.store j) : σ.Start where
  fresh := hc.fresh hs
  tables := by rw [hs.1]; exact hc.wellFormed
  named := by rw [hs.1]; exact hc.allNamed hp
  enabled := by rw [hs.1]; exact hc.enabled
  same := hsame

theorem Start.inv (h : σ.Start) : σ.Inv := ⟨h.fresh.inv, h.tables, h.named, h.agrees⟩

/-- **One request keeps the invariant**, and answers like the copy. -/
theorem step_follows (hi : σ.Inv) (hk : σ.Agrees k) (hA : σ.Allocates (q, env))
    {σ' : System n S F} (hstep : σ.step fs (q, env) = some σ') :
    ∃ o, handle q env σ.session.daemon = some o ∧ ∃ k', σ'.Agrees k' ∧
      (q.releases = false → 0 ≤ o.response.ret →
        fs.serve (dropPriv env σ.session.daemon.creds).creds (o.fh.getD 0) q k =
          some (k', o.response)) := by
  obtain ⟨hadm, o, w, ho, hrun, rfl⟩ := step_eq_some_iff.mp hstep
  exact ⟨o, ho, hk.follows hi.session hadm hi.tables hi.named hA ho hrun⟩

theorem step_inv (hi : σ.Inv) (hA : σ.Allocates (q, env)) {σ' : System n S F}
    (hstep : σ.step fs (q, env) = some σ') : σ'.Inv := by
  obtain ⟨k, hk⟩ := hi.agrees
  obtain ⟨-, -, k', hk', -⟩ := step_follows hi hk hA hstep
  obtain ⟨hadm, o, w, ho, -, rfl⟩ := step_eq_some_iff.mp hstep
  have hlay : σ.session.daemon.config.SameLayout o.daemon.config := handle_sameLayout ho
  exact ⟨Session.step_inv hi.session (Session.step_eq_some_iff.mpr ⟨hadm, o, ho, rfl⟩),
    hlay.wellFormed hi.tables, hlay.allNamed hi.named, k', hk'⟩

theorem inv_of_reachable (h : Machine.ReachableBy (step fs) Allocates Start σ) : σ.Inv :=
  h.invariant (fun _ h₀ => h₀.inv) fun _ _ _ hA hi hstep => step_inv hi hA hstep

end System

/-- **The replicas are one file system.** In every state of every run with enough memory, whatever
calls fail: some replica is enabled; the enabled ones have the same store, in which every live
handle refers to the same file; and a request that succeeds, `release` apart, has the response of a
single fault-free copy of that store, which the enabled replicas then agree with again. -/
theorem one_file_system {fs : FileSystem S F} {σ : System n S F}
    (h : Machine.ReachableBy (System.step fs) System.Allocates System.Start σ) :
    (∃ i, σ.session.daemon.config.enabled i) ∧ (∃ k, σ.Agrees k) ∧
      ∀ k q env σ', σ.Agrees k → σ.Allocates (q, env) → σ.step fs (q, env) = some σ' →
        ∃ o, handle q env σ.session.daemon = some o ∧ ∃ k', σ'.Agrees k' ∧
          (q.releases = false → 0 ≤ o.response.ret →
            fs.serve (dropPriv env σ.session.daemon.creds).creds (o.fh.getD 0) q k =
              some (k', o.response)) := by
  have hi := System.inv_of_reachable h
  exact ⟨hi.session.enabled, hi.agrees, fun k q env σ' hk hA hstep =>
    System.step_follows hi hk hA hstep⟩

/-- A store of one file that everybody may open, read and write; it has no directories to change. -/
def oneFile : FileSystem (List UInt8) Unit where
  openFile := fun _ _ s => .ok (s, ())
  pread := fun _ size offset s =>
    let out := (s.drop offset.toNat).take size
    .ok { ret := out.length, out := out }
  pwrite := fun _ buf offset s => .ok (s.take offset.toNat ++ buf)
  query := fun _ _ _ => .ok {}
  update := fun _ _ _ => .error EACCES

/-- Two empty files. -/
def emptyFiles : System 2 (List UInt8) Unit where
  session := rootSession
  world := { store := fun _ => [], file := fun _ => none }

/-- Open `/f`, and write two bytes that the second replica refuses. -/
def openWrite : List (Request × Env 2) :=
  [(.open fileF 0, plainEnv fun i _ => .ok { ret := 5 + i.val }),
   (.write 6 [1, 2] 0, secondFails { ret := 2 } EACCES)]

/-- Read from the handle; the first replica has two bytes for it. -/
def readBack : Request × Env 2 :=
  (.read 6 8 0, plainEnv fun _ _ => .ok { ret := 2, out := [1, 2] })

/-- The bytes come back from the replica that stored them, as from a single file. -/
theorem one_file_system_openWrite :
    ∃ σ σ', Machine.runFrom (System.step oneFile) emptyFiles openWrite = some σ ∧
      σ.step oneFile readBack = some σ' ∧ ∃ k k' : Copy (List UInt8) Unit,
        σ.Agrees k ∧ σ'.Agrees k' ∧
          oneFile.serve (dropPriv readBack.2 σ.session.daemon.creds).creds 0 readBack.1 k =
            some (k', { ret := 2, out := [1, 2] }) := by
  have hmeets : Machine.Meets (System.step oneFile) System.Allocates emptyFiles openWrite :=
    ⟨⟨fun _ => rfl, fun _ _ => rfl⟩, fun _ _ => ⟨⟨fun _ => rfl, fun _ _ => rfl⟩,
      fun _ _ => trivial⟩⟩
  have hstart : emptyFiles.Start :=
    { fresh := ⟨rfl, rfl, ⟨0, rfl⟩, fun _ _ => rfl⟩
      tables := ⟨rfl, rfl, by decide, by decide, by decide⟩
      named := fun _ => Option.some_ne_none _
      enabled := fun _ => rfl
      same := fun _ _ => rfl }
  obtain ⟨-, ⟨k, hk⟩, hnext⟩ := one_file_system ⟨emptyFiles, openWrite, hstart, hmeets, rfl⟩
  obtain ⟨o, ho, k', hk', hserve⟩ := hnext k readBack.1 readBack.2 _ hk
    ⟨fun _ => rfl, fun _ _ => rfl⟩ rfl
  obtain rfl := Option.some.inj ho
  exact ⟨_, _, rfl, rfl, k, k', hk, hk', hserve rfl (by decide)⟩

end ChironFs
