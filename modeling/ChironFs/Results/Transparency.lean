import ChironFs.Results.Agreement
import ChironFs.Results.Choice

/-!
# Replicas without faults of their own

* `FileSystem.Refuses`: a single file system refuses a request with this error.
* `System.Faithful`: a replica fails a call only where its own store refuses it, and with that error.
* `System.Truthful`: what the replicas answer is what their stores do; then the request has its step.
* `System.Mirrors`: how a request of the mirror goes when a single copy serves it, and when it refuses
  it.
* `transparent_mirror`: faithful replicas are never disabled, one of them is enough for every request
  that the copy serves, and when all are faithful programs get the errors of the copy.
-/

namespace ChironFs

open Posix Replication

variable {n : ℕ} {S F : Type*}

/-! ## Refusals -/

/-- One store refuses with `e` a request whose handle, if any, refers to the file `f`. -/
def FileSystem.Refuses (fs : FileSystem S F) (cr : Creds) (q : Request) (f : Option F) (s : S)
    (e : Errno) : Prop :=
  ∃ c, q.plainCall = some c ∧ fs.exec cr c f s = .error e

theorem FileSystem.Refuses.answer_eq_none {fs : FileSystem S F} {cr : Creds} {q : Request}
    {f : Option F} {s : S} {e : Errno} (h : fs.Refuses cr q f s e) : fs.answer cr q f s = none := by
  obtain ⟨c, hc, he⟩ := h
  rw [answer, hc, Option.bind_some, he]
  rfl

theorem Request.roundOn_eq_ok {q : Request} {env : Env n} {d : Daemon n} {tried : List (Fin n)}
    {i : Fin n} {r : Reply} :
    q.roundOn env d tried i = .ok r ↔ i ∈ tried ∧ q.round env d i = .ok r := by
  unfold roundOn
  split_ifs with h <;> simp [h]

namespace World

variable {fs : FileSystem S F} {q : Request} {env : Env n} {d : Daemon n} {w w' : World n S F}
  {g : Option F}

/-- Where nobody answers nothing moves. -/
theorem eq_of_no_answer {l : List (Fin n)}
    (htgt : ∀ i cl, q.ask env d.config i = some cl → w.Targets i cl g)
    (hno : ∀ i ∈ l, (q.round env d i).isOk = false)
    (h : Machine.runFrom (absorb fs d.config.root) w (l.flatMap (q.events env d)) = some w') :
    w' = w := by
  induction l with
  | nil => exact (Option.some.inj h).symm
  | cons i l ih =>
      obtain ⟨hi, hl⟩ := List.forall_mem_cons.mp hno
      rw [List.flatMap_cons, Machine.runFrom_append] at h
      obtain ⟨w₁, h₁, h₂⟩ := Option.bind_eq_some_iff.mp h
      obtain rfl := (asked_of_events (htgt i) h₁).unchanged hi
      exact ih hl h₂

end World

namespace System

/-- Where replica `i` fails the call of a request, its store refuses it with the same error. -/
def Faithful (fs : FileSystem S F) (σ : System n S F) (i : Fin n) (a : Request × Env n) : Prop :=
  let cr := (dropPriv a.2 σ.session.daemon.creds).creds
  ∀ cl e, a.1.ask a.2 σ.session.daemon.config i = some cl → a.2.call cr i cl = .error e →
    let t := σ.world.target i cl
    fs.exec cr (cl.relative (σ.session.daemon.config.root i)) t.2 (σ.world.store t.1) = .error e

/-- What the replicas answer to a request is what their stores do, and those that open a file for it get
different descriptors. -/
structure Truthful (fs : FileSystem S F) (σ : System n S F) (a : Request × Env n) : Prop where
  answers : ∀ i, σ.world.Truthful fs a.2 σ.session.daemon a.1 i
  apart : a.1.opens = true → ∀ i j, i ≠ j → ∀ r r', a.1.round a.2 σ.session.daemon i = .ok r →
    a.1.round a.2 σ.session.daemon j = .ok r' → r.ret ≠ r'.ret

/-- A start with a replica of high priority. -/
def ServesStart (σ : System n S F) : Prop := σ.Start ∧ 0 < σ.session.daemon.config.maxReplicaHigh

/-- The mirror does what the copy does. `open` and `create` may also find no slot. -/
structure Mirrors (fs : FileSystem S F) (σ σ' : System n S F) (k : Copy S F) (q : Request)
    (env : Env n) (o : Outcome n) : Prop where
  served : ∀ k' r, fs.serve (dropPriv env σ.session.daemon.creds).creds (o.fh.getD 0) q k =
    some (k', r) → (o.response = r ∧ σ'.Agrees k') ∨
      (q.opens = true ∧ o.response = { ret := EMFILE.neg } ∧ σ'.Agrees { k with store := k'.store })
  refused : fs.serve (dropPriv env σ.session.daemon.creds).creds (o.fh.getD 0) q k = none →
    o.response.ret < 0 ∧ σ'.Agrees k
  error : fs.serve (dropPriv env σ.session.daemon.creds).creds (o.fh.getD 0) q k = none →
    (∀ i, σ.session.daemon.config.enabled i → σ.Faithful fs i (q, env)) →
    ∃ e, fs.Refuses (dropPriv env σ.session.daemon.creds).creds q (q.uses.bind k.file) k.store e ∧
      o.response = { ret := e.neg }

variable {fs : FileSystem S F} {σ : System n S F} {k : Copy S F} {q : Request} {env : Env n}
  {o : Outcome n} {tried : List (Fin n)} {w : World n S F} {i : Fin n}

/-! ## One request -/

/-- **A faithful replica fails** only what the copy refuses. -/
theorem Agrees.refuses (hk : σ.Agrees k) (hi : σ.session.Inv) (hadm : σ.session.admits q = true)
    (hf : σ.Faithful fs i (q, env)) (hcall : q.call env σ.session.daemon.config i ≠ none) {e : Errno}
    (h : q.round env σ.session.daemon i = .failed e) :
    fs.Refuses (dropPriv env σ.session.daemon.creds).creds q (q.uses.bind k.file) k.store e := by
  rcases Request.round_eq_failed_iff.mp h with ⟨cl, hask, herr⟩ | ⟨-, -, hnone, -⟩
  · obtain ⟨hen, hcl⟩ := Request.ask_eq_some_iff.mp hask
    have hexec := hf cl e hask herr
    simp only [(hk.targets hi hadm hask).target, hk.store i hen] at hexec
    obtain ⟨c₀, hc₀, heq⟩ := Request.exec_relative fs (Request.callAt_of_call hcl)
    exact ⟨c₀, hc₀, by rw [← heq, hexec]⟩
  · exact absurd hnone hcall

/-- What a replica answers the copy answers. -/
theorem Agrees.answer_of_succeeded (hk : σ.Agrees k) (hi : σ.session.Inv)
    (hadm : σ.session.admits q = true)
    (hcall : ∀ i, σ.session.daemon.config.enabled i → q.call env σ.session.daemon.config i ≠ none)
    (h : Served q env σ.session.daemon tried o)
    (hrun : Machine.runFrom (World.absorb fs σ.session.daemon.config.root) σ.world o.trace = some w)
    (hs : (q.roundOn env σ.session.daemon tried).Succeeded) :
    ∃ a, fs.answer (dropPriv env σ.session.daemon.creds).creds q (q.uses.bind k.file) k.store =
      some a := by
  obtain ⟨w₁, tail, hcalls, -⟩ := h.exists_run hrun
  cases hse : q.searches with
  | true =>
      obtain ⟨-, hans⟩ := World.searched_spec hse (fun i cl hask => hk.targets hi hadm hask) hcalls
      obtain ⟨i, r, hr⟩ := Round.succeeded_iff.mp hs
      obtain ⟨hmem, hr⟩ := Request.roundOn_eq_ok.mp hr
      obtain ⟨c, hask, -⟩ := Request.round_eq_ok_iff.mp hr
      obtain ⟨a, ha, -⟩ := hans i hmem r hr
      rw [hk.store i (Request.ask_eq_some_iff.mp hask).1] at ha
      exact ⟨a, ha⟩
  | false =>
      obtain rfl := h.all hse
      rw [Request.roundOn_finRange] at hs
      obtain ⟨-, -, hsucc⟩ := hk.round hi hadm
        (fun i hen => Request.round_ne_skipped_iff.mpr ⟨hen, Or.inr (hcall i hen)⟩) hcalls
      obtain ⟨a, ha, -⟩ := hsucc hs
      exact ⟨a, ha⟩

/-- **One faithful replica is enough**: a request that the copy serves is answered. -/
theorem Agrees.succeeded_of_answer (hk : σ.Agrees k) (hi : σ.session.Inv)
    (hadm : σ.session.admits q = true) (hwf : σ.session.daemon.config.WellFormed)
    (hall : σ.session.daemon.config.AllNamed)
    (hcall : ∀ i, σ.session.daemon.config.enabled i → q.call env σ.session.daemon.config i ≠ none)
    (h : Served q env σ.session.daemon tried o) (hen : σ.session.daemon.config.enabled i)
    (hf : σ.Faithful fs i (q, env)) {a : Answer S F}
    (ha : fs.answer (dropPriv env σ.session.daemon.creds).creds q (q.uses.bind k.file) k.store =
      some a) : (q.roundOn env σ.session.daemon tried).Succeeded := by
  by_contra hns
  have hmem := h.mem_tried_of_not_succeeded hwf hns (hall i)
  have hround : q.roundOn env σ.session.daemon tried i = q.round env σ.session.daemon i :=
    if_pos hmem
  obtain ⟨e, he⟩ := Fate.isFailed_iff.mp (Round.isFailed_of_not_succeeded hns
    (hround ▸ Request.round_ne_skipped_iff.mpr ⟨hen, Or.inr (hcall i hen)⟩))
  have hno := (hk.refuses hi hadm hf (hcall i hen) (hround ▸ he)).answer_eq_none
  rw [ha] at hno
  cases hno

/-- What stays as it is agrees with a copy that has the store of the replicas. -/
theorem Agrees.after_error (hk : σ.Agrees k) (hrel : q.releases = false) (hret : o.response.ret < 0)
    (ho : handle q env σ.session.daemon = some o) {c : S}
    (hstore : Agree {i | o.daemon.config.enabled i} w.store c)
    (hkept : ∀ x ∈ σ.session.live, ∀ i, σ.session.daemon.config.enabled i →
      w.file (x.fd i) = σ.world.file (x.fd i)) :
    ({ session := σ.session.after q o, world := w } : System n S F).Agrees { k with store := c } := by
  have hlive := Session.liveAfter_eq (s := σ.session) (o := o) hrel fun _ => hret
  exact hk.of_live_subset (fun x hx => hlive ▸ hx) (fun i => enabled_of_enabled ho) hstore
    fun x hx i hen => hkept x (hlive ▸ hx) i (enabled_of_enabled ho hen)

/-- Nothing moves in a request that nobody answers. -/
theorem Agrees.world_eq (hk : σ.Agrees k) (hi : σ.session.Inv) (hadm : σ.session.admits q = true)
    (h : Served q env σ.session.daemon tried o)
    (hrun : Machine.runFrom (World.absorb fs σ.session.daemon.config.root) σ.world o.trace = some w)
    (hns : ¬ (q.roundOn env σ.session.daemon tried).Succeeded) : w = σ.world := by
  obtain ⟨w₁, tail, hcalls, htail, hnil, -, hev⟩ := h.exists_run hrun
  have hno : ∀ i ∈ tried, (q.round env σ.session.daemon i).isOk = false := fun i hmem => by
    cases hR : q.round env σ.session.daemon i with
    | ok r =>
        exact absurd (Round.succeeded_of_eq_ok (Request.roundOn_eq_ok.mpr ⟨hmem, hR⟩)) hns
    | skipped | failed => rfl
  obtain rfl := World.eq_of_no_answer (fun i cl hask => hk.targets hi hadm hask) hno hcalls
  -- what `open` and `create` close they got from an answer
  refine Option.some.inj (htail.symm.trans (World.runFrom_of_isSilent fun ev hmem => ?_))
  refine (hev ev hmem).resolve_right ?_
  rintro ⟨i, r, hr, -⟩
  have hop : q.opens = true := by
    by_contra hop
    rw [hnil (by simpa using hop)] at hmem
    cases hmem
  obtain rfl := h.all (Request.searches_of_opens hop)
  have hfalse := hno i (List.mem_finRange i)
  rw [hr] at hfalse
  cases hfalse

/-- **One request** of a mirror in which an enabled replica is faithful. -/
theorem Agrees.mirrors (hk : σ.Agrees k) (hi : σ.Inv) (hA : σ.Allocates (q, env))
    (hrel : q.releases = false) (hsup : q.supported = true)
    (hgood : ∃ i, σ.session.daemon.config.enabled i ∧ σ.Faithful fs i (q, env))
    {σ' : System n S F} (hstep : σ.step fs (q, env) = some σ') :
    ∃ o, handle q env σ.session.daemon = some o ∧ σ.Mirrors fs σ' k q env o := by
  obtain ⟨hadm, o, w, ho, hrun, rfl⟩ := step_eq_some_iff.mp hstep
  have hcall : ∀ i, σ.session.daemon.config.enabled i →
      q.call env σ.session.daemon.config i ≠ none := fun i hen =>
    hi.session.call_ne_none hadm hsup hrel (Env.names_of_malloc hi.named hA.2) hen
  obtain ⟨tried, h⟩ := handle_served hrel (hi.session.early_eq_none hadm hsup hA.1) ho
  have hnone : fs.serve (dropPriv env σ.session.daemon.creds).creds (o.fh.getD 0) q k = none →
      ¬ (q.roundOn env σ.session.daemon tried).Succeeded := by
    intro hserve hs
    obtain ⟨a, ha⟩ := hk.answer_of_succeeded hi.session hadm hcall h hrun hs
    rw [FileSystem.serve, ha] at hserve
    cases hserve
  refine ⟨o, ho, ?_, ?_, ?_⟩
  · intro k' r hserve
    obtain ⟨a, ha, heq⟩ := Option.map_eq_some_iff.mp hserve
    obtain ⟨i, hen, hf⟩ := hgood
    have hs := hk.succeeded_of_answer hi.session hadm hi.tables hi.named hcall h hen hf ha
    by_cases hret : 0 ≤ o.response.ret
    · obtain ⟨k'', hk'', hfollows⟩ := hk.follows hi.session hadm hi.tables hi.named hA ho hrun
      obtain ⟨rfl, rfl⟩ := Prod.mk.inj (Option.some.inj (hserve.symm.trans (hfollows hrel hret)))
      exact Or.inl ⟨rfl, hk''⟩
    · -- an answer came, but there was no slot for the handle
      have hop : q.opens = true := by
        by_contra hop
        obtain ⟨_, r', -, hresp⟩ := h.answered (by simpa using hop) hs
        rw [hresp] at hret
        exact hret (q.respond_ret_nonneg r')
      have hresp : o.response = { ret := EMFILE.neg } := by
        refine (h.opened hop hs).resolve_left fun hzero => hret ?_
        rw [hzero]
      obtain rfl := h.all (Request.searches_of_opens hop)
      have hearly := hi.session.early_eq_none hadm hsup hA.1
      obtain rfl := Option.some.inj ((handle_opens hop hearly).symm.trans ho)
      rw [Request.roundOn_finRange] at hs
      obtain ⟨hkept, -, hans⟩ := hk.openRun hi.session hadm hop h hrun
      obtain ⟨a', f, ha', -, hsurv, -⟩ := hans hs
      obtain rfl := Option.some.inj (ha.symm.trans ha')
      obtain ⟨rfl, -⟩ := Prod.mk.inj heq
      exact Or.inr ⟨hop, hresp, hk.after_error hrel (not_le.mp hret) ho
        (fun i hen => hsurv i (mem_survivors ho h hen)) hkept⟩
  · intro hserve
    have hneg := h.ret_neg_of_not_succeeded hi.tables (fun i _ => hi.named i) hi.session.enabled hcall
      (hnone hserve)
    obtain rfl := hk.world_eq hi.session hadm h hrun (hnone hserve)
    exact ⟨hneg, hk.after_error hrel hneg ho (fun i hen => hk.store i (enabled_of_enabled ho hen))
      fun _ _ _ _ => rfl⟩
  · intro hserve hall
    obtain ⟨i, hen⟩ := hi.session.enabled
    have hmem := h.mem_tried_of_not_succeeded hi.tables (hnone hserve) (hi.named i)
    have hskip : q.roundOn env σ.session.daemon tried i ≠ .skipped := by
      rw [Request.roundOn, if_pos hmem]
      exact Request.round_ne_skipped_iff.mpr ⟨hen, Or.inr (hcall i hen)⟩
    obtain ⟨j, e, hj, hfirst⟩ :=
      exists_firstError_eq ⟨i, Round.isFailed_of_not_succeeded (hnone hserve) hskip⟩
    have hround : q.round env σ.session.daemon j = .failed e := by
      unfold Request.roundOn at hj
      split_ifs at hj
      exact hj
    have hasked : q.round env σ.session.daemon j ≠ .skipped := by simp [hround]
    have henj := (Request.round_ne_skipped_iff.mp hasked).1
    exact ⟨e, hk.refuses hi.session hadm (hall j henj) (hcall j henj) hround, by
      rw [h.failed (hnone hserve), hfirst]⟩

/-- **Truthful replicas make a step** of what the daemon returns. -/
theorem Agrees.exists_step (hk : σ.Agrees k) (hi : σ.session.Inv) (hadm : σ.session.admits q = true)
    (ho : handle q env σ.session.daemon = some o) (h : Served q env σ.session.daemon tried o)
    (ht : σ.Truthful fs (q, env)) : ∃ σ', σ.step fs (q, env) = some σ' := by
  obtain ⟨w₁, h₁⟩ := World.exists_run_of_round (l := tried)
    (fun hse => h.all hse ▸ List.nodup_finRange n) (fun i cl hask => hk.targets hi hadm hask)
    (fun i _ => ht.answers i) ht.apart
  obtain ⟨tail, htr, -, htail⟩ := h.trace
  -- what follows the calls closes descriptors, or is nothing to the replicas
  obtain ⟨w, hw⟩ : ∃ w, Machine.runFrom (World.absorb fs σ.session.daemon.config.root) w₁ tail =
      some w := by
    refine World.exists_run_of_closes fun ev hev => (htail ev hev).imp ?_ ?_
    · rintro rfl
      rfl
    · rintro ⟨i, r, -, rfl⟩
      exact ⟨_, _, _, _, rfl⟩
  refine ⟨_, step_eq_some_iff.mpr ⟨hadm, o, w, ho, ?_, rfl⟩⟩
  rw [htr, World.runFrom_append_silent fun _ hm =>
      Event.isSilent_of_isCred (isCred_of_mem_reacquirePriv hm),
    World.runFrom_silent_append fun _ hm => Event.isSilent_of_isCred (isCred_of_mem_dropPriv hm),
    Machine.runFrom_append, World.runFrom_append_silent fun _ hm =>
      isSilent_of_mem_dropLogs hm, h₁, Option.bind_some, hw]

/-- A request returns: a daemon with a replica of high priority is not killed. -/
theorem Inv.exists_handle (hi : σ.Inv) (hpos : 0 < σ.session.daemon.config.maxReplicaHigh)
    (q : Request) (env : Env n) : ∃ o, handle q env σ.session.daemon = some o := by
  obtain ⟨i, -⟩ := hi.session.enabled
  have hsum := hi.tables.sum_eq hi.named
  have hnever := (hi.tables.neverKilled_iff_pos i.pos).mpr ⟨hpos, by omega⟩
  exact Option.isSome_iff_exists.mp (hnever _ (.start rfl) q env)

/-- **A faithful replica stays enabled.** -/
theorem enabled_of_faithful (hi : σ.Inv) (hA : σ.Allocates (q, env))
    (hen : σ.session.daemon.config.enabled i) (hf : σ.Faithful fs i (q, env)) {σ' : System n S F}
    (hstep : σ.step fs (q, env) = some σ') : σ'.session.daemon.config.enabled i := by
  obtain ⟨k, hk⟩ := hi.agrees
  obtain ⟨hadm, o, w, ho, hrun, rfl⟩ := step_eq_some_iff.mp hstep
  show o.daemon.config.enabled i
  rcases handle_cases ho with ⟨e, -, rfl⟩ | ⟨fh, fd, rfl, -, rfl⟩ | ⟨he, hrel, tried, h⟩
  · exact hen
  · exact hen
  · have hnames := Env.names_of_malloc hi.named hA.2
    have hcall : ∀ i, σ.session.daemon.config.enabled i →
        q.call env σ.session.daemon.config i ≠ none := fun i hen =>
      hi.session.call_ne_none hadm (supported_of_early_eq_none he hnames hi.session.enabled) hrel
        hnames hen
    by_contra hdis
    obtain ⟨-, hs, hfail⟩ := (h.newlyDisabled_iff i).mp ⟨hen, hdis⟩
    obtain ⟨e, he⟩ := Fate.isFailed_iff.mp hfail
    obtain ⟨a, ha⟩ := hk.answer_of_succeeded hi.session hadm hcall h hrun hs
    have hround : q.round env σ.session.daemon i = .failed e := by
      unfold Request.roundOn at he
      split_ifs at he
      exact he
    have hno := (hk.refuses hi.session hadm hf (hcall i hen) hround).answer_eq_none
    rw [ha] at hno
    cases hno

end System

/-- **The mirror is transparent.** In every run with enough memory, of a daemon that starts with
identical replicas, all of them named and enabled and one of high priority, and in which the replicas
`H` are faithful, whatever the others do: none of `H` is ever disabled; and every request that can be
made (`release` apart) returns. Those that a single copy serves are served, with its response, unless a
handle finds no slot, and those that it refuses fail and change nothing; if all enabled replicas are
faithful they fail with the error of the copy. -/
theorem transparent_mirror {fs : FileSystem S F} {σ : System n S F} {H : Set (Fin n)}
    (hne : H.Nonempty)
    (h : Machine.ReachableBy (System.step fs)
      (fun σ a => σ.Allocates a ∧ ∀ i ∈ H, σ.Faithful fs i a) System.ServesStart σ) :
    (∀ i ∈ H, σ.session.daemon.config.enabled i) ∧ (∃ k, σ.Agrees k) ∧
      ∀ k q env, σ.Agrees k → σ.session.admits q = true → σ.Allocates (q, env) →
        (∀ i ∈ H, σ.Faithful fs i (q, env)) → q.releases = false → q.supported = true →
        ∃ o, handle q env σ.session.daemon = some o ∧
          (σ.Truthful fs (q, env) → ∃ σ', σ.step fs (q, env) = some σ') ∧
          ∀ σ', σ.step fs (q, env) = some σ' → σ.Mirrors fs σ' k q env o := by
  obtain ⟨hi, hpos, hen⟩ : σ.Inv ∧ 0 < σ.session.daemon.config.maxReplicaHigh ∧
      ∀ i ∈ H, σ.session.daemon.config.enabled i := by
    refine Machine.ReachableBy.invariant
      (I := fun σ => σ.Inv ∧ 0 < σ.session.daemon.config.maxReplicaHigh ∧
        ∀ i ∈ H, σ.session.daemon.config.enabled i)
      (fun _ h₀ => ⟨h₀.1.inv, h₀.2, fun i _ => h₀.1.enabled i⟩) ?_ h
    rintro σ₁ ⟨q, env⟩ σ₂ ⟨hA, hf⟩ ⟨hi, hpos, hen⟩ hstep
    refine ⟨System.step_inv hi hA hstep, ?_, fun i hmem =>
      System.enabled_of_faithful hi hA (hen i hmem) (hf i hmem) hstep⟩
    obtain ⟨-, o, w, ho, -, rfl⟩ := System.step_eq_some_iff.mp hstep
    exact (handle_sameLayout ho).maxReplicaHigh ▸ hpos
  refine ⟨hen, hi.agrees, fun k q env hk hadm hA hf hrel hsup => ?_⟩
  obtain ⟨o, ho⟩ := hi.exists_handle hpos q env
  obtain ⟨tried, hsv⟩ := handle_served hrel (hi.session.early_eq_none hadm hsup hA.1) ho
  refine ⟨o, ho, hk.exists_step hi.session hadm ho hsv, fun σ' hstep => ?_⟩
  obtain ⟨i, hmem⟩ := hne
  obtain ⟨o', ho', hmirrors⟩ := hk.mirrors hi hA hrel hsup ⟨i, hen i hmem, hf i hmem⟩ hstep
  obtain rfl := Option.some.inj (ho.symm.trans ho')
  exact hmirrors

/-- The file cannot be truncated. -/
def truncateRefused : Request × Env 2 := (.truncate fileF 0, plainEnv fun _ _ => .error EACCES)

/-- The second replica fails a write and is lost; then programs get the error of the first one. -/
theorem transparent_mirror_truncateRefused :
    ∃ σ o, Machine.runFrom (System.step oneFile) emptyFiles openWrite = some σ ∧
      handle truncateRefused.1 truncateRefused.2 σ.session.daemon = some o ∧
      σ.session.daemon.config.enabled 0 ∧ ¬ σ.session.daemon.config.enabled 1 ∧
      o.response = { ret := EACCES.neg } := by
  have hok : ∀ {σ : System 2 (List UInt8) Unit} {q : Request} {env : Env 2} {r : Reply},
      (∀ cr cl, env.call cr 0 cl = .ok r) →
        ∀ i ∈ ({0} : Set (Fin 2)), σ.Faithful oneFile i (q, env) := by
    rintro σ q env r hcall i rfl cl e - herr
    cases (hcall _ cl).symm.trans herr
  have hmeets : Machine.Meets (System.step oneFile)
      (fun σ a => σ.Allocates a ∧ ∀ i ∈ ({0} : Set (Fin 2)), σ.Faithful oneFile i a) emptyFiles
      openWrite :=
    ⟨⟨⟨fun _ => rfl, fun _ _ => rfl⟩, hok fun _ _ => rfl⟩, fun _ _ =>
      ⟨⟨⟨fun _ => rfl, fun _ _ => rfl⟩, hok fun _ _ => rfl⟩, fun _ _ => trivial⟩⟩
  have hrefused : ∀ (σ : System 2 (List UInt8) Unit) i, σ.Faithful oneFile i truncateRefused := by
    intro σ i cl e hask herr
    cases herr
    obtain ⟨-, hcl⟩ := Request.ask_eq_some_iff.mp hask
    cases Request.callAt_of_call hcl
    rfl
  have hstart : emptyFiles.Start :=
    { fresh := ⟨rfl, rfl, ⟨0, rfl⟩, fun _ _ => rfl⟩
      tables := ⟨rfl, rfl, by decide, by decide, by decide⟩
      named := fun _ => Option.some_ne_none _
      enabled := fun _ => rfl
      same := fun _ _ => rfl }
  obtain ⟨hen, ⟨k, hk⟩, hnext⟩ :=
    transparent_mirror (Set.singleton_nonempty 0)
      ⟨emptyFiles, openWrite, ⟨hstart, by decide⟩, hmeets, rfl⟩
  obtain ⟨o, ho, -, hmirrors⟩ := hnext k truncateRefused.1 truncateRefused.2 hk rfl
    ⟨fun _ => rfl, fun _ _ => rfl⟩ (fun i _ => hrefused _ i) rfl rfl
  obtain ⟨e, ⟨c, hc, he⟩, hresp⟩ := (hmirrors _ rfl).error rfl fun i _ => hrefused _ i
  cases hc
  cases he
  exact ⟨_, o, rfl, ho, hen 0 rfl, by decide, hresp⟩

end ChironFs
