import ChironFs.Lib.Run
import ChironFs.Model.Sample
import ChironFs.Spec.Identity

/-!
# Privileges given up and given back

* `privileges_restored`: after every request of every run the daemon has its own ids again.
* `Outcome.NoWork`: no call on a replica, and a negative value.
* `unlink_unprivileged`: the handlers do not look at the value of `drop_priv`.
* `Request.Idle`, `noWork_iff`: the requests that do no work and fail whatever the identity.
* `refused_drop_iff`: so a failed `drop_priv` stops exactly these.
-/

namespace ChironFs

open Posix Replication

variable {n : ℕ}

/-! ## After a request -/

/-- A request gives the daemon its own ids back. -/
theorem handle_creds {q : Request} {env : Env n} {d : Daemon n} {o : Outcome n}
    (hcr : d.config.OwnCreds d.creds) (hback : env.AllowsReturn) (ho : handle q env d = some o) :
    o.daemon.creds = d.creds := by
  obtain ⟨-, -, -, hcreds⟩ := handle_bracket ho
  rw [hcreds]
  exact (reacquirePriv_dropPriv hcr hback).2

/-- The ids a configuration calls its own stay the same. -/
theorem Config.SameLayout.ownCreds {c c' : Config n} (h : c.SameLayout c') {cr : Creds}
    (hcr : c.OwnCreds cr) : c'.OwnCreds cr where
  euid := by rw [h.uid]; exact hcr.euid
  suid := by rw [h.uid]; exact hcr.suid
  egid := by rw [h.gid]; exact hcr.egid
  sgid := by rw [h.gid]; exact hcr.sgid

/-- **Privileges are always given back.** Starting with its own ids, whatever the callers, the
allocations, the replicas and `drop_priv` do in a run, the daemon has the ids it started with after
every request: the effective ones are its own and the saved ones are unchanged. -/
theorem privileges_restored {c : Config n} {cr : Creds} (hcr : c.OwnCreds cr) {d : Daemon n}
    (hd : Machine.ReachableBy Daemon.step (fun _ a => a.2.AllowsReturn)
      (fun d => d.config = c ∧ d.creds = cr) d) :
    (d.creds = cr ∧ d.config.OwnCreds d.creds) ∧
      ∀ q env o, env.AllowsReturn → handle q env d = some o →
        o.daemon.creds = cr ∧ o.daemon.config.OwnCreds o.daemon.creds := by
  have hstep : ∀ {d : Daemon n} {q env o}, d.creds = cr ∧ d.config.OwnCreds d.creds →
      env.AllowsReturn → handle q env d = some o →
      o.daemon.creds = cr ∧ o.daemon.config.OwnCreds o.daemon.creds := by
    rintro d q env o ⟨hd, hown⟩ hback ho
    have hsame := handle_creds hown hback ho
    rw [hsame]
    exact ⟨hd, (handle_sameLayout ho).ownCreds hown⟩
  have hinv : d.creds = cr ∧ d.config.OwnCreds d.creds := by
    refine hd.invariant (I := fun d => d.creds = cr ∧ d.config.OwnCreds d.creds) ?_ ?_
    · rintro d ⟨rfl, rfl⟩
      exact ⟨rfl, hcr⟩
    · rintro d ⟨q, env⟩ d' hback hd hrun
      obtain ⟨o, ho, rfl⟩ := Option.map_eq_some_iff.mp hrun
      exact hstep hd hback ho
  exact ⟨hinv, fun q env o => hstep hinv⟩

/-- A `mkdir` whose `drop_priv` takes on the group and is then refused the user. -/
theorem privileges_restored_mkdir :
    ∃ o, handle (.mkdir fileF 0o755)
        { secondFails {} EACCES with refuse := fun k => k = .dropUid } rootDaemon = some o ∧
      o.daemon.creds = Creds.ofUser 0 0 := by
  have hown : twoReplicas.OwnCreds (.ofUser 0 0) := ⟨rfl, rfl, rfl, rfl⟩
  have hstart : Machine.ReachableBy Daemon.step (fun _ a => a.2.AllowsReturn)
      (fun d => d.config = twoReplicas ∧ d.creds = .ofUser 0 0) rootDaemon := .start ⟨rfl, rfl⟩
  exact ⟨_, rfl, ((privileges_restored hown hstart).2 (.mkdir fileF 0o755) _ _ ⟨rfl, rfl⟩ rfl).1⟩

/-! ## Requests whose `drop_priv` fails -/

/-- The request called no replica and returned an error. -/
def Outcome.NoWork (o : Outcome n) : Prop :=
  (∀ ev ∈ o.trace, ev.isSilent = true) ∧ o.response.ret < 0

/-- The requests that fail before they call a replica: by an early exit; by a `release` with no
descriptor to close; by an `open` or `create` that cannot name any of the enabled replicas. -/
def Request.Idle (env : Env n) (d : Daemon n) (q : Request) : Prop :=
  (∃ e, q.early env d.config = some e) ∨
    (∃ fh fd, q = .release fh ∧ d.config.tabFd fh = some fd ∧
      ∀ i, d.config.closes fd i = false) ∨
    (q.opens = true ∧ (∃ i, d.config.enabled i) ∧
      ∀ i, d.config.enabled i → q.call env d.config i = none)

/-- The daemon of the user `500`. -/
def userDaemon : Daemon 2 where
  config := { twoReplicas with uid := 500, gid := 500 }
  creds := Creds.ofUser 500 500

/-- The caller `1000` asks the daemon of the user `500` to unlink `/f`: the ids cannot be taken on,
and the file is unlinked on both replicas, with the daemon's ids. -/
theorem unlink_unprivileged :
    ∃ o, handle (.unlink fileF) (plainEnv fun _ _ => .ok {}) userDaemon = some o ∧
      (dropPriv (plainEnv fun _ _ => .ok {}) userDaemon.creds : CredOutcome 2).ret ≠ 0 ∧
      (∀ i, ∃ c r, .call (Creds.ofUser 500 500) i c (.ok r) ∈ o.trace) ∧ o.response.ret = 0 ∧
      ¬ o.NoWork := by
  have ho : handle (.unlink fileF) (plainEnv fun _ _ => .ok {}) userDaemon = some _ := rfl
  obtain ⟨tried, h⟩ := handle_served rfl rfl ho
  have hcall : ∀ i : Fin 2, ∃ c r, .call (Creds.ofUser 500 500) i c (.ok r) ∈
      (chironUnlink fileF (plainEnv fun _ _ => .ok {}) userDaemon : Outcome 2).trace := by
    intro i
    exact ⟨_, _, h.call_mem_iff.mpr ⟨h.mem_tried rfl i, rfl, rfl, rfl⟩⟩
  refine ⟨_, rfl, by decide, hcall, rfl, ?_⟩
  intro hno
  obtain ⟨c, r, hmem⟩ := hcall 0
  cases hno.1 _ hmem

section noWork

variable {q : Request} {env : Env n} {d : Daemon n} {o : Outcome n} {i : Fin n}

/-- A request that asks replicas does no work when there is no call to make on any it asks. -/
theorem Served.forall_isSilent_iff {tried : List (Fin n)} (h : Served q env d tried o) :
    (∀ ev ∈ o.trace, ev.isSilent = true) ↔ ∀ i ∈ tried, q.ask env d.config i = none := by
  constructor
  · intro hno i hi
    cases hask : q.ask env d.config i with
    | none => rfl
    | some c => cases hno _ (h.call_mem_iff.mpr ⟨hi, rfl, hask, rfl⟩)
  · intro hnone ev hev
    cases ev with
    | call cr i c res =>
        obtain ⟨hi, -, hask, -⟩ := h.call_mem_iff.mp hev
        rw [hnone i hi] at hask
        cases hask
    | close cr i fd res =>
        obtain ⟨-, r, hr, -⟩ := h.close_mem hev
        obtain ⟨_, c, hcall⟩ := h.roundOn_eq_ok_iff.mp hr
        obtain ⟨hi, -, hask, -⟩ := h.call_mem_iff.mp hcall
        rw [hnone i hi] at hask
        cases hask
    | _ => rfl

/-- A round in which nobody has a call to make fails in `open` and `create` only, for want of
names. -/
theorem Request.round_isFailed_iff_of_ask (hask : q.ask env d.config i = none) :
    (q.round env d i).isFailed = true ↔ q.opens = true ∧ d.config.enabled i := by
  have hcall : d.config.enabled i → q.call env d.config i = none := fun hen => by
    rwa [ask, Config.guarded_of_enabled hen] at hask
  simp only [Fate.isFailed_iff, round_eq_failed_iff, hask, reduceCtorEq, false_and, exists_false,
    false_or]
  constructor
  · rintro ⟨_, hop, hen, -⟩
    exact ⟨hop, hen⟩
  · rintro ⟨hop, hen⟩
    exact ⟨ENOMEM, hop, hen, hcall hen, rfl⟩

/-- `release` does no work and fails when it has no descriptor to close. -/
theorem noWork_releaseOutcome_iff {fh : ℕ} {fd : Fin n → ℤ} :
    (releaseOutcome env d fh fd).NoWork ↔ ∀ i, d.config.closes fd i = false := by
  constructor
  · intro hno i
    by_contra hcl
    have hmem : Event.close (dropPriv env d.creds).creds i (fd i) (env.close i (fd i)) ∈
        (releaseOutcome env d fh fd).trace :=
      List.mem_append_left _ (List.mem_append_right _ (List.mem_map.mpr
        ⟨i, List.mem_filter.mpr ⟨List.mem_finRange i, by simpa using hcl⟩, rfl⟩))
    cases hno.1 _ hmem
  · refine fun hcl => ⟨?_, ?_⟩
    · intro ev hev
      cases hcred : ev.isCred with
      | true => exact Event.isSilent_of_isCred hcred
      | false =>
          obtain ⟨i, hi, -⟩ := mem_releaseOutcome hcred hev
          rw [hcl i] at hi
          cases hi
    · have hnone : ¬ ∃ i, d.config.closes fd i = true ∧ env.close i (fd i) = .ok () := by
        rintro ⟨i, hi, -⟩
        rw [hcl i] at hi
        cases hi
      show (if _ then (0 : ℤ) else -1) < 0
      rw [if_neg hnone]
      exact Int.negSucc_lt_zero 0

/-- A round does no work and fails when it is that of an `open` or `create` that names nobody. -/
theorem Served.noWork_iff {tried : List (Fin n)} (h : Served q env d tried o) :
    o.NoWork ↔ q.opens = true ∧ (∃ i, d.config.enabled i) ∧
      ∀ i, d.config.enabled i → q.call env d.config i = none := by
  unfold Outcome.NoWork
  rw [h.forall_isSilent_iff]
  have hns : (∀ i ∈ tried, q.ask env d.config i = none) →
      ¬ (q.roundOn env d tried).Succeeded := by
    intro hask hs
    obtain ⟨_, i, c, r, hcall⟩ := h.succeeded_iff.mp hs
    obtain ⟨hit, -, hc, -⟩ := h.call_mem_iff.mp hcall
    rw [hask i hit] at hc
    cases hc
  have hmem : q.opens = true → ∀ i, i ∈ tried := fun hop =>
    h.mem_tried (Request.searches_of_opens hop)
  constructor
  · rintro ⟨hask, hret⟩
    rw [h.failed (hns hask)] at hret
    obtain ⟨i, hi⟩ := firstError_neg_iff.mp hret
    by_cases htr : i ∈ tried
    · rw [Request.roundOn, if_pos htr, Request.round_isFailed_iff_of_ask (hask i htr)] at hi
      refine ⟨hi.1, ⟨i, hi.2⟩, ?_⟩
      intro j hj
      have hj' := hask j (hmem hi.1 j)
      rwa [Request.ask, Config.guarded_of_enabled hj] at hj'
    · rw [Request.roundOn, if_neg htr] at hi
      cases hi
  · rintro ⟨hop, ⟨i, hi⟩, hnone⟩
    have hask : ∀ j ∈ tried, q.ask env d.config j = none := by
      intro j _
      by_cases hj : d.config.enabled j
      · rw [Request.ask, Config.guarded_of_enabled hj]
        exact hnone j hj
      · exact Config.guarded_of_disabled (Config.not_enabled_iff.mp hj) _
    refine ⟨hask, ?_⟩
    rw [h.failed (hns hask)]
    refine firstError_neg_iff.mpr ⟨i, ?_⟩
    rw [Request.roundOn, if_pos (hmem hop i),
      Request.round_isFailed_iff_of_ask (hask i (hmem hop i))]
    exact ⟨hop, hi⟩

/-- **Which requests do no work and fail**, under whatever credentials. -/
theorem noWork_iff (ho : handle q env d = some o) : o.NoWork ↔ q.Idle env d := by
  unfold Request.Idle
  rcases handle_cases ho with ⟨e, he, rfl⟩ | ⟨fh, fd, rfl, hfd, rfl⟩ | ⟨he, hrel, tried, h⟩
  · refine iff_of_true ⟨?_, e.neg_lt_zero⟩ (Or.inl ⟨e, he⟩)
    intro ev hev
    exact Event.isSilent_of_isCred (isCred_of_mem_earlyOutcome hev)
  · have hearly : (Request.release fh).early env d.config = none := by simp [Request.early, hfd]
    rw [noWork_releaseOutcome_iff]
    constructor
    · exact fun hcl => Or.inr (Or.inl ⟨fh, fd, rfl, hfd, hcl⟩)
    · rintro (⟨e, he⟩ | ⟨fh', fd', heq, hfd', hcl⟩ | ⟨hop, -⟩)
      · rw [hearly] at he
        cases he
      · cases heq
        cases hfd.symm.trans hfd'
        exact hcl
      · cases hop
  · rw [h.noWork_iff]
    constructor
    · exact fun hidle => Or.inr (Or.inr hidle)
    · rintro (⟨e, he'⟩ | ⟨fh, fd, rfl, -⟩ | hidle)
      · rw [he] at he'
        cases he'
      · cases hrel
      · exact hidle

/-- **When a failed `drop_priv` stops a request**: exactly when the request does no work and fails
anyway. -/
theorem refused_drop_iff (ho : handle q env d = some o) :
    ((dropPriv env d.creds).ret ≠ 0 → o.NoWork) ↔
      ((dropPriv env d.creds).ret = 0 ∨ q.Idle env d) := by
  rw [noWork_iff ho, ← or_iff_not_imp_left]

end noWork

/-- A `write` through an empty slot is stopped, by its own check. -/
theorem refused_drop_iff_write :
    ∃ o, handle (.write 3 [1] 0) (plainEnv fun _ _ => .ok {}) userDaemon = some o ∧ o.NoWork := by
  obtain ⟨o, ho⟩ : ∃ o, handle (.write 3 [1] 0) (plainEnv fun _ _ => .ok {}) userDaemon = some o :=
    ⟨_, rfl⟩
  exact ⟨o, ho, (refused_drop_iff ho).mpr (Or.inr (Or.inl ⟨EINVAL, rfl⟩)) (by decide)⟩

end ChironFs
