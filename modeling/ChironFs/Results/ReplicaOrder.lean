import ChironFs.Lib.TwoRuns
import ChironFs.Model.Sample
import ChironFs.Spec.Records
import ChironFs.Spec.Stores

/-!
# The order of the replicas does not matter to writers

* `Cluster.Permuted`: two daemons that have the same replicas, with their stores, in another order.
* `Setting.permute`, `Request.Corresponds`: the same request, in the same circumstances, to the other
  one.
* `Cluster.Permuted.step`: requests that change files keep the correspondence.
* `order_irrelevant`: so do runs of them, and the responses agree.
-/

namespace ChironFs

open Posix Replication

variable {n : ℕ} {S : Type*}

/-! ## Two orders -/

/-- Replica `i` of `t` is replica `σ i` of `s`, with its store. -/
structure Cluster.Permuted (σ : Equiv.Perm (Fin n)) (s t : Cluster n S) : Prop where
  replicas : ∀ i, t.daemon.config.replicas i = s.daemon.config.replicas (σ i)
  store : ∀ i, t.store i = s.store (σ i)
  creds : t.daemon.creds = s.daemon.creds
  uid : t.daemon.config.uid = s.daemon.config.uid
  gid : t.daemon.config.gid = s.daemon.config.gid

/-- The same circumstances for the other order: the file systems, with the calls they fail, and the
allocations go with the replicas. -/
def Setting.permute (σ : Equiv.Perm (Fin n)) (x : Setting n S) : Setting n S where
  env := { x.env with
    malloc := fun i => x.env.malloc (σ i)
    close := fun i => x.env.close (σ i) }
  backend := fun i => x.backend (σ i)

namespace Request

/-- The requests that change files or directories, and `write`. -/
def changesFiles (q : Request) : Bool := !q.searches && !q.opens && !q.releases

theorem kinds_of_changesFiles {q : Request} (h : q.changesFiles = true) :
    q.searches = false ∧ q.opens = false ∧ q.releases = false := by
  simpa [changesFiles, and_assoc] using h

/-- The same request; a `write` comes with the handle whose slot holds the same descriptors. -/
def Corresponds (σ : Equiv.Perm (Fin n)) (c c' : Config n) : Request → Request → Prop
  | .write fh buf offset, .write fh' buf' offset' =>
      buf' = buf ∧ offset' = offset ∧ c'.tabFd fh' = (c.tabFd fh).map fun fd i => fd (σ i)
  | q, q' => q' = q

/-- What `Corresponds` means: the same request but for the handle of a `write`. -/
theorem Corresponds.cases {σ : Equiv.Perm (Fin n)} {c c' : Config n} {q q' : Request}
    (h : q.Corresponds σ c c' q') :
    (∃ fh fh' buf offset, q = .write fh buf offset ∧ q' = .write fh' buf offset ∧
        c'.tabFd fh' = (c.tabFd fh).map fun fd i => fd (σ i)) ∨
      (q' = q ∧ q.countsWrites = false) := by
  cases q with
  | write fh buf offset =>
      cases q' with
      | write fh' buf' offset' =>
          obtain ⟨rfl, rfl, htab⟩ := h
          exact Or.inl ⟨fh, fh', buf', offset', rfl, rfl, htab⟩
      | _ => cases h
  | _ => exact Or.inr ⟨h, rfl⟩

theorem Corresponds.changesFiles {σ : Equiv.Perm (Fin n)} {c c' : Config n} {q q' : Request}
    (h : q.Corresponds σ c c' q') (hch : q.changesFiles = true) : q'.changesFiles = true := by
  rcases h.cases with ⟨_, _, _, _, -, rfl, -⟩ | ⟨rfl, -⟩
  · rfl
  · exact hch

/-- `Corresponds` reads the handle tables and nothing else of the configurations. -/
theorem Corresponds.of_tabFd {σ : Equiv.Perm (Fin n)} {c c' c₁ c₁' : Config n} {q q' : Request}
    (h : q.Corresponds σ c c' q') (hc : c.tabFd = c₁.tabFd) (hc' : c'.tabFd = c₁'.tabFd) :
    q.Corresponds σ c₁ c₁' q' := by
  cases q with
  | write =>
      cases q' with
      | write =>
          obtain ⟨hbuf, hoff, htab⟩ := h
          exact ⟨hbuf, hoff, by rw [← hc, ← hc', htab]⟩
      | _ => cases h
  | _ => exact h

theorem Corresponds.countsWrites {σ : Equiv.Perm (Fin n)} {c c' : Config n} {q q' : Request}
    (h : q.Corresponds σ c c' q') : q'.countsWrites = q.countsWrites := by
  rcases h.cases with ⟨_, _, _, _, rfl, rfl, -⟩ | ⟨rfl, -⟩
  · rfl
  · rfl

end Request

/-! ## One request -/

section step

variable {σ : Equiv.Perm (Fin n)} {s t : Cluster n S} {x : Setting n S} {q q' : Request}

/-- The replicas answer the other daemon as they answer this one. -/
theorem call_permute (h : s.Permuted σ t) (cr : Creds) (i : Fin n) (c : Call) :
    ((x.permute σ).on t.store).call cr i c = (x.on s.store).call cr (σ i) c := by
  show (x.backend (σ i)).answer cr c (t.store i) = (x.backend (σ i)).answer cr c (s.store (σ i))
  rw [h.store]

theorem xlate_permute (h : s.Permuted σ t) (path : Path) (i : Fin n) (k : ℕ) :
    ((x.permute σ).on t.store).xlate t.daemon.config path i k =
      (x.on s.store).xlate s.daemon.config path (σ i) k := by
  unfold Env.xlate
  rw [h.replicas]
  rfl

/-- The call of a request on a replica goes with the replica. -/
theorem callOn_permute (h : s.Permuted σ t) (hch : q.changesFiles = true)
    (hq : q.Corresponds σ s.daemon.config t.daemon.config q') (i : Fin n) :
    q'.call ((x.permute σ).on t.store) t.daemon.config i =
      q.call (x.on s.store) s.daemon.config (σ i) := by
  have hx := fun path k => xlate_permute (x := x) h path i k
  rcases hq.cases with ⟨fh, fh', buf, offset, rfl, rfl, htab⟩ | ⟨rfl, hwr⟩
  · simp only [Request.call, htab]
    cases s.daemon.config.tabFd fh with
    | none => rfl
    | some fd => rfl
  · cases q' with
    | «open» | create | release | read | getattr | access | readlink | readdir => cases hch
    | write => cases hwr
    | mknod => simp only [Request.call, mknodCall, hx]
    | rename | link => simp only [Request.call, Env.xlate₂, hx]
    | _ => simp only [Request.call, hx]

/-- A request that changes files ends before it reaches a replica for both daemons or for none. -/
theorem early_permute (h : s.Permuted σ t) (hch : q.changesFiles = true)
    (hq : q.Corresponds σ s.daemon.config t.daemon.config q') :
    q'.early ((x.permute σ).on t.store) t.daemon.config =
      q.early (x.on s.store) s.daemon.config := by
  rcases hq.cases with ⟨fh, fh', buf, offset, rfl, rfl, htab⟩ | ⟨rfl, hwr⟩
  · simp only [Request.early, htab, Option.isNone_map]
    rfl
  · cases q' with
    | «open» | create | release | read | getattr | access | readlink | readdir => cases hch
    | write => cases hwr
    | mknod path mode rdev =>
        have hany : mknodRefuses ((x.permute σ).on t.store) t.daemon.config path mode
            (List.finRange n) = mknodRefuses (x.on s.store) s.daemon.config path mode
            (List.finRange n) := by
          unfold mknodRefuses
          congr 1
          rw [Bool.eq_iff_iff, List.any_eq_true, List.any_eq_true]
          simp only [List.mem_finRange, true_and, xlate_permute h, h.replicas]
          exact (σ.surjective.exists (p := fun i => (!(s.daemon.config.replicas i).disabled &&
            ((x.on s.store).xlate s.daemon.config path i).isSome) = true)).symm
        simp only [Request.early, hany]
        rfl
    | _ => rfl

/-- The fates go with the replicas. -/
theorem round_permute (h : s.Permuted σ t) (hch : q.changesFiles = true)
    (hq : q.Corresponds σ s.daemon.config t.daemon.config q') (i : Fin n) :
    q'.ask ((x.permute σ).on t.store) t.daemon.config i =
        q.ask (x.on s.store) s.daemon.config (σ i) ∧
      q'.round ((x.permute σ).on t.store) t.daemon i = q.round (x.on s.store) s.daemon (σ i) := by
  have hask : q'.ask ((x.permute σ).on t.store) t.daemon.config i =
      q.ask (x.on s.store) s.daemon.config (σ i) := by
    unfold Request.ask Config.guarded
    rw [callOn_permute h hch hq, h.replicas]
  have hop := (Request.kinds_of_changesFiles hch).2.1
  have hop' := (Request.kinds_of_changesFiles (hq.changesFiles hch)).2.1
  refine ⟨hask, ?_⟩
  have hcr : (dropPriv ((x.permute σ).on t.store) t.daemon.creds).creds =
      (dropPriv (x.on s.store) s.daemon.creds).creds := by
    rw [h.creds]
    rfl
  rw [Request.round_of_not_opens hop, Request.round_of_not_opens hop']
  simp only [hask, hcr]
  cases q.ask (x.on s.store) s.daemon.config (σ i) with
  | none => rfl
  | some c => simp only [attempt, call_permute h]

/-- The record of a replica goes with it. -/
theorem record_permute (h : s.Permuted σ t) (hch : q.changesFiles = true)
    (hq : q.Corresponds σ s.daemon.config t.daemon.config q')
    (he : q.early (x.on s.store) s.daemon.config = none) {o o' : Outcome n}
    (ho : s.serve (q, x) = some o) (ho' : t.serve (q', x.permute σ) = some o') (i : Fin n) :
    o'.daemon.config.replicas i = o.daemon.config.replicas (σ i) := by
  obtain ⟨hse, -, hrel⟩ := Request.kinds_of_changesFiles hch
  obtain ⟨hse', -, hrel'⟩ := Request.kinds_of_changesFiles (hq.changesFiles hch)
  have hround : q'.round ((x.permute σ).on t.store) t.daemon =
      fun i => q.round (x.on s.store) s.daemon (σ i) :=
    funext fun i => (round_permute h hch hq i).2
  rw [handle_record hrel he ho, handle_record hrel' ((early_permute h hch hq).trans he) ho',
    Request.fates_of_not_searches hse, Request.fates_of_not_searches hse',
    Request.countsReads_of_not_searches hse, Request.countsReads_of_not_searches hse',
    hq.countsWrites, hround, h.replicas]
  congr 1
  exact decide_eq_decide.mpr (Round.drops_comp σ i)

/-- What a request does to a store goes with the replica. -/
theorem storeAfter_permute (h : s.Permuted σ t) (hch : q.changesFiles = true)
    (hq : q.Corresponds σ s.daemon.config t.daemon.config q') (E : Effect S) (i : Fin n) (u : S) :
    storeAfter E i (q'.events ((x.permute σ).on t.store) t.daemon i) u =
      storeAfter E (σ i) (q.events (x.on s.store) s.daemon (σ i)) u := by
  have hcr : (dropPriv ((x.permute σ).on t.store) t.daemon.creds).creds =
      (dropPriv (x.on s.store) s.daemon.creds).creds := by
    rw [h.creds]
    rfl
  have hask := (round_permute (x := x) h hch hq i).1
  have hattempt : ∀ cr a, storeAfter E i (attemptEvents ((x.permute σ).on t.store) cr i a) u =
      storeAfter E (σ i) (attemptEvents (x.on s.store) cr (σ i) a) u := by
    intro cr a
    rw [storeAfter_attemptEvents, storeAfter_attemptEvents]
    cases a with
    | none => rfl
    | some c => simp only [Option.elim_some, call_permute h]
  have hmknod : ∀ cr a, storeAfter E i (mknodEvents ((x.permute σ).on t.store) cr i a) u =
      storeAfter E (σ i) (mknodEvents (x.on s.store) cr (σ i) a) u := by
    intro cr a
    unfold mknodEvents
    split
    · simp only [call_permute h]
      split <;> simp [storeAfter, Event.replica, Event.onStore]
    · exact hattempt cr _
  rcases hq.cases with ⟨fh, fh', buf, offset, rfl, rfl, -⟩ | ⟨rfl, -⟩
  · simp only [Request.events, hask, hcr, hattempt]
  · cases q' with
    | mknod => simp only [Request.events, hask, hcr, hmknod]
    | _ => simp only [Request.events, hask, hcr, hattempt]

/-- The largest count does not depend on the order. -/
theorem maxCount_permute (R : Round (Fin n) Reply Errno) :
    maxCount (fun i => R (σ i)) (List.finRange n) 0 = maxCount R (List.finRange n) 0 := by
  obtain ⟨hge, hall, hsome⟩ := maxCount_spec R (List.finRange n) 0
  obtain ⟨hge', hall', hsome'⟩ := maxCount_spec (fun i => R (σ i)) (List.finRange n) 0
  apply le_antisymm
  · rcases hsome' with hzero | ⟨i, -, r, hr, hmax⟩
    · rw [hzero]
      exact hge
    · rw [hmax]
      exact hall (σ i) (List.mem_finRange _) r hr
  · rcases hsome with hzero | ⟨i, -, r, hr, hmax⟩
    · rw [hzero]
      exact hge'
    · rw [hmax]
      exact hall' (σ.symm i) (List.mem_finRange _) r (by rw [σ.apply_symm_apply, hr])

/-- What a request returns when somebody answered does not depend on the order. -/
theorem Request.Corresponds.everyResponse {c c' : Config n} (h : q.Corresponds σ c c' q')
    (R : Round (Fin n) Reply Errno) :
    q'.everyResponse (fun i => R (σ i)) = q.everyResponse R := by
  rcases h.cases with ⟨_, _, _, _, rfl, rfl, -⟩ | ⟨rfl, hwr⟩
  · simp only [Request.everyResponse, maxCount_permute]
  · cases q' with
    | write => cases hwr
    | _ => rfl

/-- The same value, or an error for both. -/
def Response.Agrees (r r' : Response) : Prop := 0 ≤ r.ret ∧ r' = r ∨ r.ret < 0 ∧ r'.ret < 0

/-- The responses to a round in two orders. -/
theorem agrees_permute {R : Round (Fin n) Reply Errno}
    (hq : q'.everyResponse (fun i => R (σ i)) = q.everyResponse R)
    (hret : 0 ≤ (q.everyResponse R).ret) :
    Response.Agrees (if R.Succeeded then q.everyResponse R else { ret := firstError R })
      (if Round.Succeeded (fun i => R (σ i)) then q'.everyResponse fun i => R (σ i)
        else { ret := firstError fun i => R (σ i) }) := by
  have hs := Round.succeeded_comp (R := R) σ
  by_cases hR : R.Succeeded
  · rw [if_pos hR, if_pos (hs.mpr hR), hq]
    exact Or.inl ⟨hret, rfl⟩
  · rw [if_neg hR, if_neg (hs.not.mpr hR)]
    by_cases hfail : ∃ i, (R i).isFailed = true
    · refine Or.inr ⟨firstError_neg_iff.mpr hfail, firstError_neg_iff.mpr ?_⟩
      exact (σ.surjective.exists (p := fun i => (R i).isFailed = true)).mp hfail
    · push Not at hfail
      have hzero := firstError_eq_zero fun i => Bool.eq_false_iff.mpr (hfail i)
      have hzero' := firstError_eq_zero (R := fun i => R (σ i))
        fun i => Bool.eq_false_iff.mpr (hfail (σ i))
      rw [hzero, hzero']
      exact Or.inl ⟨le_rfl, rfl⟩

/-- **One request that changes files**, in both orders. -/
theorem Cluster.Permuted.step (h : s.Permuted σ t) (hch : q.changesFiles = true)
    (hq : q.Corresponds σ s.daemon.config t.daemon.config q') :
    ∃ o o', s.serve (q, x) = some o ∧ t.serve (q', x.permute σ) = some o' ∧
      (s.after x o).Permuted σ (t.after (x.permute σ) o') ∧ o.response.Agrees o'.response ∧
        o.daemon.config.tabFd = s.daemon.config.tabFd ∧
        o'.daemon.config.tabFd = t.daemon.config.tabFd := by
  have hch' := hq.changesFiles hch
  obtain ⟨hse, hop, hrel⟩ := Request.kinds_of_changesFiles hch
  obtain ⟨hse', hop', hrel'⟩ := Request.kinds_of_changesFiles hch'
  obtain ⟨o, ho⟩ := Option.isSome_iff_exists.mp
    (handle_isSome_of_not_searches hse (x.on s.store) s.daemon)
  obtain ⟨o', ho'⟩ := Option.isSome_iff_exists.mp
    (handle_isSome_of_not_searches hse' ((x.permute σ).on t.store) t.daemon)
  refine ⟨o, o', ho, ho', ?_⟩
  have hearly := early_permute (x := x) h hch hq
  have hback : (reacquirePriv ((x.permute σ).on t.store) t.daemon.config
      (dropPriv ((x.permute σ).on t.store) t.daemon.creds).creds).creds =
      (reacquirePriv (x.on s.store) s.daemon.config
        (dropPriv (x.on s.store) s.daemon.creds).creds).creds := by
    unfold reacquirePriv
    rw [h.creds, h.uid, h.gid]
    rfl
  have hlay := handle_sameLayout ho
  have hlay' := handle_sameLayout ho'
  cases he : q.early (x.on s.store) s.daemon.config with
  | some e =>
      rw [he] at hearly
      obtain rfl := Option.some.inj (ho.symm.trans (handle_early he))
      obtain rfl := Option.some.inj (ho'.symm.trans (handle_early hearly))
      refine ⟨⟨h.replicas, fun i => ?_, hback, h.uid, h.gid⟩, ?_, rfl, rfl⟩
      · show storeAfter _ i _ (t.store i) = storeAfter _ (σ i) _ (s.store (σ i))
        rw [storeAfter_earlyOutcome, storeAfter_earlyOutcome, h.store]
      · exact Or.inr ⟨e.neg_lt_zero, e.neg_lt_zero⟩
  | none =>
      rw [he] at hearly
      have hround : q'.round ((x.permute σ).on t.store) t.daemon =
          fun i => q.round (x.on s.store) s.daemon (σ i) :=
        funext fun i => (round_permute h hch hq i).2
      obtain ⟨o₁, ho₁, hsv⟩ := handle_served_every hop hse hrel he
      obtain ⟨o₁', ho₁', hsv'⟩ := handle_served_every hop' hse' hrel' hearly
      obtain rfl := Option.some.inj (ho₁.symm.trans ho)
      obtain rfl := Option.some.inj (ho₁'.symm.trans ho')
      refine ⟨⟨fun i => ?_, fun i => ?_, ?_, ?_, ?_⟩, ?_, hsv.tabFd hop, hsv'.tabFd hop'⟩
      · exact record_permute h hch hq he ho ho' i
      · show storeAfter _ i _ (t.store i) = storeAfter _ (σ i) _ (s.store (σ i))
        rw [hsv.storeAfter_eq hop fun h => absurd h (Bool.not_eq_true _ ▸ hse),
          hsv'.storeAfter_eq hop' fun h => absurd h (Bool.not_eq_true _ ▸ hse'),
          if_pos (List.mem_finRange _), if_pos (List.mem_finRange _),
          storeAfter_permute h hch hq, h.store]
        rfl
      · exact hsv'.creds.trans (hback.trans hsv.creds.symm)
      · exact hsv'.layout.uid.trans (h.uid.trans hsv.layout.uid.symm)
      · exact hsv'.layout.gid.trans (h.gid.trans hsv.layout.gid.symm)
      · rw [(handle_every hse hop hrel he ho).2, (handle_every hse' hop' hrel' hearly ho').2,
          hround]
        exact agrees_permute (hq.everyResponse _) (Request.everyResponse_nonneg q _)

end step

/-! ## Runs -/

/-- **The order of the replicas does not matter to writers.** -/
theorem order_irrelevant {σ : Equiv.Perm (Fin n)} {s t : Cluster n S} (h : s.Permuted σ t)
    {as bs : List (Request × Setting n S)}
    (hab : List.Forall₂ (fun a b => a.1.changesFiles = true ∧
      a.1.Corresponds σ s.daemon.config t.daemon.config b.1 ∧ b.2 = a.2.permute σ) as bs) :
    ∃ s' t', Machine.runFrom Cluster.step s as = some s' ∧
      Machine.runFrom Cluster.step t bs = some t' ∧ s'.Permuted σ t' ∧
      List.Forall₂ Response.Agrees (Machine.observe Cluster.step Cluster.respond s as)
        (Machine.observe Cluster.step Cluster.respond t bs) := by
  -- the handles still name the descriptors they named at the start
  let R : Cluster n S → Cluster n S → Prop := fun s₁ t₁ => s₁.Permuted σ t₁ ∧
    s.daemon.config.tabFd = s₁.daemon.config.tabFd ∧
    t.daemon.config.tabFd = t₁.daemon.config.tabFd
  have hstep : ∀ (s₁ t₁ : Cluster n S) (a b : Request × Setting n S), R s₁ t₁ →
      (a.1.changesFiles = true ∧ a.1.Corresponds σ s.daemon.config t.daemon.config b.1 ∧
        b.2 = a.2.permute σ) →
      ∃ s' t' r r', Cluster.step s₁ a = some s' ∧ Cluster.step t₁ b = some t' ∧
        Cluster.respond s₁ a = some r ∧ Cluster.respond t₁ b = some r' ∧ R s' t' ∧
        r.Agrees r' := by
    rintro s₁ t₁ ⟨q, x⟩ ⟨q', _⟩ ⟨hperm, hs, ht⟩ ⟨hch, hq, rfl⟩
    obtain ⟨o, o', ho, ho', hperm', hresp, htab, htab'⟩ :=
      hperm.step (x := x) hch (hq.of_tabFd hs ht)
    refine ⟨s₁.after x o, t₁.after (x.permute σ) o', o.response, o'.response, ?_, ?_, ?_, ?_,
      ⟨hperm', hs.trans htab.symm, ht.trans htab'.symm⟩, hresp⟩
    · rw [Cluster.step, ho, Option.map_some]
    · rw [Cluster.step, ho', Option.map_some]
    · rw [Cluster.respond, ho, Option.map_some]
    · rw [Cluster.respond, ho', Option.map_some]
  obtain ⟨s', t', hs', ht', hR', hobs⟩ := Machine.runs_related hstep hab ⟨h, rfl, rfl⟩
  exact ⟨s', t', hs', ht', hR'.1, hobs⟩

/-! ## Two replicas the other way round -/

/-- The same daemon with its replicas in another order. -/
def Cluster.permute (σ : Equiv.Perm (Fin n)) (s : Cluster n S) : Cluster n S where
  daemon :=
    { s.daemon with
      config :=
        { s.daemon.config with
          roundRobinHigh := s.daemon.config.roundRobinHigh.map σ.symm
          roundRobinLow := s.daemon.config.roundRobinLow.map σ.symm
          replicas := fun i => s.daemon.config.replicas (σ i)
          tabFd := fun k => (s.daemon.config.tabFd k).map fun fd i => fd (σ i) } }
  store := fun i => s.store (σ i)

theorem Cluster.permuted_permute (σ : Equiv.Perm (Fin n)) (s : Cluster n S) :
    s.Permuted σ (s.permute σ) := ⟨fun _ => rfl, fun _ => rfl, rfl, rfl, rfl⟩

/-- A replica that keeps the calls that it did not refuse. -/
def journal (refused : Call → Bool) : Backend (List Call) where
  call _ c res calls := if res.isOk then calls ++ [c] else calls
  answer _ c _ := if refused c then .error EACCES else .ok {}

/-- `/a` and `/b`, with a file open in slot `0`: descriptor `5` on `/a`, `7` on `/b`. -/
def journals : Cluster 2 (List Call) where
  daemon :=
    { rootDaemon with
      config := { twoReplicas with tabFd := fun _ => some fun i => if i.val = 0 then 5 else 7 } }
  store := fun _ => []

/-- `/b` refuses `mkdir`. -/
def secondRefuses : Setting 2 (List Call) where
  env := plainEnv fun _ _ => .ok {}
  backend := fun i => journal fun c => i.val = 1 && c matches .mkdir ..

theorem order_irrelevant_swapped :
    let σ : Equiv.Perm (Fin 2) := Equiv.swap 0 1
    let q : List Request := [.write 0 [88] 0, .mkdir fileF 493, .truncate fileF 0]
    ∃ s' t', Machine.runFrom Cluster.step journals (q.map (·, secondRefuses)) = some s' ∧
      Machine.runFrom Cluster.step (journals.permute σ)
        (q.map (·, secondRefuses.permute σ)) = some t' ∧ s'.Permuted σ t' ∧
      List.Forall₂ Response.Agrees
        (Machine.observe Cluster.step Cluster.respond journals (q.map (·, secondRefuses)))
        (Machine.observe Cluster.step Cluster.respond (journals.permute σ)
          (q.map (·, secondRefuses.permute σ))) := by
  intro σ q
  apply order_irrelevant (journals.permuted_permute σ)
  refine .cons ⟨rfl, ⟨rfl, rfl, rfl⟩, rfl⟩ (.cons ⟨rfl, rfl, rfl⟩ (.cons ⟨rfl, rfl, rfl⟩ .nil))

end ChironFs
