import ChironFs.Lib.Run
import ChironFs.Spec.Handles
import ChironFs.Spec.Tables

/-!
# The invariant of a sequential run

* `Session.Fresh`: nothing open, an empty handle table, an enabled replica.
* `Session.Inv`: the invariant; `Session.step_inv`: every request keeps it, `Session.inv_of_reachable`:
  it holds in every state of every run from a fresh start.
* `Session.step_cases_of_slots`, `Session.step_cases`: what one request does to the handles, in a
  state with a sound table and in one that meets the invariant.
* `Session.Rooted`: open files are on replicas that have a path.
* `Session.StartsOn`: a start on a mounted file system.
-/

namespace ChironFs

open Posix Replication

variable {n : ℕ}

namespace Session

/-- A start: nothing open, the handle table empty, some replica enabled. -/
structure Fresh (s : Session n) : Prop where
  live : s.live = []
  trace : s.trace = []
  enabled : ∃ i, s.daemon.config.enabled i
  table : ∀ k < s.daemon.config.fdBufSize.toNat, s.daemon.config.tabFd k = none

/-- The invariant of a run: an enabled replica is left; the slot of a live handle holds its vector;
handles have slots of their own; the vector of a handle holds what was opened for it, and every
replica still enabled has a descriptor in it. -/
structure Inv (s : Session n) : Prop where
  enabled : ∃ i, s.daemon.config.enabled i
  slot : ∀ h ∈ s.live, s.daemon.config.tabFd h.fh = some h.fd
  nodup : (s.live.map Handle.fh).Nodup
  opened_nodup : ∀ h ∈ s.live, h.opened.Nodup
  opened_fd : ∀ h ∈ s.live, ∀ i v, (i, v) ∈ h.opened → h.fd i = v ∧ 0 ≤ v
  covers : ∀ h ∈ s.live, ∀ i, s.daemon.config.enabled i → (i, h.fd i) ∈ h.opened

theorem Fresh.inv {s : Session n} (h : s.Fresh) : s.Inv where
  enabled := h.enabled
  slot := by simp [h.live]
  nodup := by simp [h.live]
  opened_nodup := by simp [h.live]
  opened_fd := by simp [h.live]
  covers := by simp [h.live]

/-! ## One request -/

section step

variable {s s' : Session n} {q : Request} {env : Env n}

theorem step_eq_some_iff :
    s.step (q, env) = some s' ↔
      s.admits q = true ∧ ∃ o, handle q env s.daemon = some o ∧ s' = s.after q o := by
  unfold step
  split_ifs with h
  · simp [h, eq_comm]
  · simp [h]

/-- An admitted request comes with a live handle, if with any. -/
theorem exists_live_of_admits (h : s.admits q = true) {fh : ℕ} (hu : q.uses = some fh) :
    ∃ h ∈ s.live, h.fh = fh := by
  unfold admits at h
  rw [hu] at h
  simpa using h

/-- A request that is not `release` and opens nothing. -/
theorem filter_live_of_releasedFh_eq_none (h : q.releasedFh = none) :
    (s.live.filter fun x => q.releasedFh ≠ some x.fh) = s.live := by
  simp [h]

/-- What a request opened in a free slot. -/
structure Opened (s s' : Session n) (q : Request) (env : Env n) (fh : ℕ) : Prop where
  opens : q.opens = true
  slot_free : s.daemon.config.tabFd fh = none
  slot_lt : 0 < s.daemon.config.fdBufSize.toNat → fh < s.daemon.config.fdBufSize.toNat
  tabFd : s'.daemon.config.tabFd = Function.update s.daemon.config.tabFd fh
    (some (fdVector (q.round env s.daemon)))
  ok_of_enabled : ∀ i, s'.daemon.config.enabled i → ∃ r, q.round env s.daemon i = .ok r
  live : s'.live = { fh := fh
                     fd := fdVector (q.round env s.daemon)
                     opened := roundFds (q.round env s.daemon) } :: s.live
  opened : openedFds s'.trace = openedFds s.trace ++ roundFds (q.round env s.daemon)
  closed : closedFds s'.trace = closedFds s.trace

/-- What `release` of the live handle `x` does. -/
structure Released (s s' : Session n) (q : Request) (x : Handle n) : Prop where
  request : q = .release x.fh
  mem : x ∈ s.live
  tabFd : s'.daemon.config.tabFd = Function.update s.daemon.config.tabFd x.fh none
  replicas : s'.daemon.config.replicas = s.daemon.config.replicas
  live : s'.live = s.live.filter fun y => y.fh ≠ x.fh
  opened : openedFds s'.trace = openedFds s.trace
  closed : closedFds s'.trace = closedFds s.trace ++
    ((List.finRange n).filter (s.daemon.config.closes x.fd)).map fun i => (i, x.fd i)

/-- What every other request does to the handles: nothing. -/
structure Kept (s s' : Session n) (q : Request) : Prop where
  releases : q.releases = false
  tabFd : s'.daemon.config.tabFd = s.daemon.config.tabFd
  live : s'.live = s.live
  balance : ∃ l, openedFds s'.trace = openedFds s.trace ++ l ∧
    closedFds s'.trace = closedFds s.trace ++ l

/-- An `open` or `create` that was asked of an enabled replica fails with a negative value when
nobody opens the file. -/
theorem firstError_neg_of_opens (hop : q.opens = true) {d : Daemon n}
    (hen : ∃ i, d.config.enabled i) (hs : ¬ (q.round env d).Succeeded) :
    firstError (q.round env d) < 0 := by
  obtain ⟨i, hi⟩ := hen
  exact firstError_neg_of_not_succeeded hs (Request.round_ne_skipped_iff.mpr ⟨hi, Or.inl hop⟩)

/-- A request that is not `release` and opens nothing keeps the handles. -/
theorem liveAfter_eq {o : Outcome n} (hrel : q.releases = false)
    (hopen : q.opens = true → o.response.ret < 0) : s.liveAfter q o = s.live := by
  have hfh : q.releasedFh = none := by cases q <;> first | rfl | cases hrel
  rw [liveAfter, if_neg (fun h => absurd h.2 (not_le.mpr (hopen h.1))),
    filter_live_of_releasedFh_eq_none hfh]

/-- A request that keeps the table and closes what it opened. -/
theorem kept_after {o : Outcome n} (hrel : q.releases = false)
    (htab : o.daemon.config.tabFd = s.daemon.config.tabFd)
    (hopen : q.opens = true → o.response.ret < 0)
    (hbal : openedFds o.trace = closedFds o.trace) : Kept s (s.after q o) q where
  releases := hrel
  tabFd := htab
  live := liveAfter_eq hrel hopen
  balance := ⟨closedFds o.trace, (openedFds_append _ _).trans (by rw [hbal]),
    closedFds_append _ _⟩

/-- `open` and `create` past their early exits. -/
theorem after_openOutcome (hen : ∃ i, s.daemon.config.enabled i) (hop : q.opens = true) :
    (∃ fh, Opened s (s.after q (q.openOutcome env s.daemon)) q env fh) ∨
      Kept s (s.after q (q.openOutcome env s.daemon)) q := by
  have hrel := Request.releases_of_opens hop
  have hopened := openedFds_openOutcome env s.daemon hop
  rcases openOutcome_cases env s.daemon hop with
    ⟨hs, hret, htab, hcl⟩ | ⟨hs, hret, htab, hcl⟩ | ⟨hs, hret, hcl, fh, hfh, hfree, hlt, htab⟩
  · refine Or.inr (kept_after hrel htab ?_ (hopened.trans hcl.symm))
    intro _
    rw [hret]
    exact firstError_neg_of_opens hop hen hs
  · refine Or.inr (kept_after hrel htab ?_ (hopened.trans hcl.symm))
    intro _
    rw [hret]
    exact EMFILE.neg_lt_zero
  · refine Or.inl ⟨fh, hop, hfree, hlt, htab, ?_, ?_, ?_, ?_⟩
    · intro i hi
      have hsv : Served q env s.daemon (List.finRange n) (q.openOutcome env s.daemon) :=
        served_opens hop
      have hdis := Config.not_enabled_iff.not.mp (not_not.mpr hi)
      have hdis := (hsv.disabled_iff i).not.mp hdis
      rw [Request.roundOn_finRange, not_or] at hdis
      cases hR : q.round env s.daemon i with
      | skipped =>
          exact absurd (by simpa [Config.enabled] using hdis.1)
            ((Request.round_eq_skipped_iff.mp hR).2 hop)
      | failed e => exact absurd (Round.drops_of_eq_failed hs hR) hdis.2
      | ok r => exact ⟨r, rfl⟩
    · show s.liveAfter q _ = _
      rw [liveAfter, if_pos ⟨hop, hret.ge⟩, Outcome.handle, hfh, hopened, Option.getD_some, htab,
        Function.update_self, Option.getD_some]
    · exact (openedFds_append _ _).trans (by rw [hopened])
    · exact (closedFds_append _ _).trans (by rw [hcl, List.append_nil])

/-- **What one request does to the handles**, where the slots of the live ones hold their vectors and
nothing is opened with every replica disabled: it opens one in a free slot; or it releases one; or it
leaves them alone. -/
theorem step_cases_of_slots (hslot : ∀ x ∈ s.live, s.daemon.config.tabFd x.fh = some x.fd)
    (hen : q.opens = true → ∃ i, s.daemon.config.enabled i) (h : s.step (q, env) = some s') :
    (∃ fh, Opened s s' q env fh) ∨ (∃ x, Released s s' q x) ∨ Kept s s' q := by
  obtain ⟨hadm, o, ho, rfl⟩ := step_eq_some_iff.mp h
  rcases handle_cases ho with ⟨e, he, rfl⟩ | ⟨fh, fd, rfl, hfd, rfl⟩ | ⟨he, hrel, tried, hsv⟩
  · refine Or.inr (Or.inr (kept_after ?_ rfl (fun _ => e.neg_lt_zero) ?_))
    · -- a live handle has its slot, so `release` does not end early
      cases q with
      | release fh =>
          obtain ⟨x, hx, rfl⟩ := exists_live_of_admits hadm rfl
          rw [Request.early, hslot x hx] at he
          cases he
      | _ => rfl
    · rw [openedFds_earlyOutcome, closedFds_earlyOutcome]
  · obtain ⟨x, hx, rfl⟩ := exists_live_of_admits hadm rfl
    obtain rfl : x.fd = fd := Option.some.inj ((hslot x hx).symm.trans hfd)
    refine Or.inr (Or.inl ⟨x, rfl, hx, rfl, rfl, ?_, ?_, ?_⟩)
    · show s.liveAfter (.release x.fh) (releaseOutcome env s.daemon x.fh x.fd) = _
      rw [liveAfter, if_neg (fun h => by cases h.1)]
      simp [Request.releasedFh, eq_comm]
    · exact (openedFds_append _ _).trans (by rw [openedFds_releaseOutcome, List.append_nil])
    · exact (closedFds_append _ _).trans (by rw [closedFds_releaseOutcome])
  · cases hop : q.opens with
    | true =>
        obtain rfl := Option.some.inj ((handle_opens hop he).symm.trans ho)
        exact (after_openOutcome (hen hop) hop).imp_right Or.inr
    | false =>
        exact Or.inr (Or.inr (kept_after hrel (hsv.tabFd hop) (fun h => by rw [hop] at h; cases h)
          (hsv.openedFds_eq hop)))

/-- **What one request does to the handles** in a run. -/
theorem step_cases (hi : s.Inv) (h : s.step (q, env) = some s') :
    (∃ fh, Opened s s' q env fh) ∨ (∃ x, Released s s' q x) ∨ Kept s s' q :=
  step_cases_of_slots hi.slot (fun _ => hi.enabled) h

/-! ## The invariant -/

/-- **One request keeps the invariant.** -/
theorem step_inv (hi : s.Inv) (h : s.step (q, env) = some s') : s'.Inv := by
  have hmono : ∀ i, s'.daemon.config.enabled i → s.daemon.config.enabled i := by
    obtain ⟨-, o, ho, rfl⟩ := step_eq_some_iff.mp h
    exact fun i => enabled_of_enabled ho
  have hen : ∃ i, s'.daemon.config.enabled i := by
    obtain ⟨-, o, ho, rfl⟩ := step_eq_some_iff.mp h
    exact exists_enabled ho hi.enabled
  rcases step_cases hi h with ⟨fh, hop⟩ | ⟨x, hrel⟩ | hkept
  · have hne : ∀ y ∈ s.live, y.fh ≠ fh := by
      rintro y hy rfl
      have hfree := hop.slot_free
      rw [hi.slot y hy] at hfree
      cases hfree
    have hvec : ∀ {i r}, q.round env s.daemon i = .ok r →
        fdVector (q.round env s.daemon) i = r.ret := fun h => by simp only [fdVector, h, fdEntry]
    refine ⟨hen, ?_, ?_, ?_, ?_, ?_⟩
    all_goals rw [hop.live]
    · rintro y hy
      rw [hop.tabFd]
      rcases List.mem_cons.mp hy with rfl | hy
      · exact Function.update_self ..
      · rw [Function.update_of_ne (hne y hy)]
        exact hi.slot y hy
    · refine List.nodup_cons.mpr ⟨?_, hi.nodup⟩
      intro hmem
      obtain ⟨y, hy, hfh⟩ := List.mem_map.mp hmem
      exact hne y hy hfh
    · exact List.forall_mem_cons.mpr ⟨roundFds_nodup _, hi.opened_nodup⟩
    · refine List.forall_mem_cons.mpr ⟨?_, hi.opened_fd⟩
      intro i v hv
      obtain ⟨r, hr, rfl⟩ := mem_roundFds.mp hv
      exact ⟨hvec hr, Int.natCast_nonneg _⟩
    · refine List.forall_mem_cons.mpr ⟨?_, fun y hy i hien =>
        hi.covers y hy i (hmono i hien)⟩
      intro i hien
      obtain ⟨r, hr⟩ := hop.ok_of_enabled i hien
      exact mem_roundFds.mpr ⟨r, hr, hvec hr⟩
  · have hmem : ∀ y ∈ s'.live, y ∈ s.live ∧ y.fh ≠ x.fh := by
      intro y hy
      rw [hrel.live, List.mem_filter] at hy
      simpa using hy
    refine ⟨hen, ?_, ?_, fun y hy => hi.opened_nodup y (hmem y hy).1,
      fun y hy => hi.opened_fd y (hmem y hy).1,
      fun y hy i hien => hi.covers y (hmem y hy).1 i (hmono i hien)⟩
    · intro y hy
      rw [hrel.tabFd, Function.update_of_ne (hmem y hy).2]
      exact hi.slot y (hmem y hy).1
    · rw [hrel.live]
      exact hi.nodup.sublist (List.filter_sublist.map _)
  · refine ⟨hen, ?_, ?_, ?_, ?_, ?_⟩
    all_goals rw [hkept.live]
    · rw [hkept.tabFd]
      exact hi.slot
    · exact hi.nodup
    · exact hi.opened_nodup
    · exact hi.opened_fd
    · exact fun y hy i hien => hi.covers y hy i (hmono i hien)

end step

/-- **The invariant holds in every state of every run** from a fresh start, whatever is assumed of
its steps. -/
theorem inv_of_reachable {P : Session n → Request × Env n → Prop} {s : Session n}
    (h : Machine.ReachableBy Session.step P Fresh s) : s.Inv :=
  h.invariant (fun _ h₀ => h₀.inv) fun _ _ _ _ hi hstep => step_inv hi hstep

/-! ## Replicas without a path -/

/-- While a file is open, every replica still enabled has a path: `open` and `create` fail on the
others. -/
def Rooted (s : Session n) : Prop :=
  s.live ≠ [] → ∀ i, s.daemon.config.enabled i → (s.daemon.config.replicas i).path ≠ none

/-- A replica that opened a file has a path. -/
theorem path_ne_none_of_opens {q : Request} {env : Env n} {d : Daemon n} (hop : q.opens = true)
    {i : Fin n} {r : Reply} (h : q.round env d i = .ok r) : (d.config.replicas i).path ≠ none := by
  obtain ⟨c, hask, -⟩ := Request.round_eq_ok_iff.mp h
  have hcall := (Request.ask_eq_some_iff.mp hask).2
  have hname : ∀ path, (∃ c, env.xlate d.config path i = some c) →
      (d.config.replicas i).path ≠ none := by
    rintro path ⟨p, hp⟩
    obtain ⟨root, hroot, -⟩ := Env.exists_root_of_xlate hp
    rw [hroot]
    exact Option.some_ne_none root
  cases q with
  | «open» path | create path =>
      obtain ⟨p, hp, -⟩ := Option.map_eq_some_iff.mp hcall
      exact hname path ⟨p, hp⟩
  | _ => cases hop

theorem step_rooted {s s' : Session n} {q : Request} {env : Env n} (hi : s.Inv) (hr : s.Rooted)
    (h : s.step (q, env) = some s') : s'.Rooted := by
  have hcases := step_cases hi h
  obtain ⟨-, o, ho, rfl⟩ := step_eq_some_iff.mp h
  have hlay : s.daemon.config.SameLayout (s.after q o).daemon.config := handle_sameLayout ho
  have hmono : ∀ i, (s.after q o).daemon.config.enabled i → s.daemon.config.enabled i :=
    fun i => enabled_of_enabled ho
  intro hlive i hen
  rw [hlay.path]
  rcases hcases with ⟨fh, hopened⟩ | ⟨x, hrel⟩ | hkept
  · obtain ⟨r, hok⟩ := hopened.ok_of_enabled i hen
    exact path_ne_none_of_opens hopened.opens hok
  · exact hr (List.ne_nil_of_mem hrel.mem) i (hmono i hen)
  · rw [hkept.live] at hlive
    exact hr hlive i (hmono i hen)

/-! ## What an admitted request can do -/

section admitted

variable {s : Session n} {q : Request} {env : Env n}

/-- The slot of an admitted request's handle holds the handle's vector. -/
theorem Inv.slot_of_admits (hi : s.Inv) (hadm : s.admits q = true) {fh : ℕ}
    (hu : q.uses = some fh) : ∃ x ∈ s.live, x.fh = fh ∧ s.daemon.config.tabFd fh = some x.fd := by
  obtain ⟨x, hx, rfl⟩ := exists_live_of_admits hadm hu
  exact ⟨x, hx, rfl, hi.slot x hx⟩

/-- With its memory, an admitted request of a kind that can be served gets past its early exits. -/
theorem Inv.early_eq_none (hi : s.Inv) (hadm : s.admits q = true) (hsup : q.supported = true)
    (hcalloc : ∀ k, env.calloc k = true) : q.early env s.daemon.config = none := by
  cases q with
  | release fh =>
      obtain ⟨x, -, -, hfd⟩ := hi.slot_of_admits hadm rfl
      simp [Request.early, hfd]
  | read fh | write fh =>
      obtain ⟨x, -, -, hfd⟩ := hi.slot_of_admits hadm rfl
      simp [Request.early, hfd, hcalloc]
  | mknod path mode rdev =>
      have hno : (!sIsReg mode && !sIsFifo mode) = false := by
        rw [← Bool.not_or, show (sIsReg mode || sIsFifo mode) = true from hsup]
        rfl
      simp [Request.early, hcalloc, mknodRefuses, hno]
  | _ => simp [Request.early, hcalloc]

/-- An admitted request through a handle has a call to make on every enabled replica. -/
theorem Inv.call_ne_none_of_uses (hi : s.Inv) (hadm : s.admits q = true)
    (hrel : q.releases = false) {fh : ℕ} (hu : q.uses = some fh) {i : Fin n}
    (hen : s.daemon.config.enabled i) : q.call env s.daemon.config i ≠ none := by
  obtain ⟨x, hx, rfl, hslot⟩ := hi.slot_of_admits hadm hu
  have hge : 0 ≤ x.fd i := (hi.opened_fd x hx i _ (hi.covers x hx i hen)).2
  cases q with
  | release => cases hrel
  | read fh size offset =>
      cases hu
      simp [Request.call, hslot, readCall, not_lt.mpr hge]
  | write fh buf offset =>
      cases hu
      simp [Request.call, hslot, writeCall, not_lt.mpr hge]
  | _ => cases hu

/-- With its names, an admitted request has a call to make on every enabled replica. -/
theorem Inv.call_ne_none (hi : s.Inv) (hadm : s.admits q = true) (hsup : q.supported = true)
    (hrel : q.releases = false) (hx : env.Names s.daemon.config) {i : Fin n}
    (hen : s.daemon.config.enabled i) : q.call env s.daemon.config i ≠ none := by
  cases q with
  | release => cases hrel
  | read | write => exact hi.call_ne_none_of_uses hadm hrel rfl hen
  | mknod path mode rdev =>
      obtain ⟨fname, hname⟩ := Option.ne_none_iff_exists'.mp (hx i hen path 0)
      simp only [Request.supported, Bool.or_eq_true] at hsup
      simp only [Request.call, mknodCall, hname, Option.bind_some]
      split_ifs with h₁ h₂
      · exact Option.some_ne_none _
      · exact Option.some_ne_none _
      · exact absurd hsup (not_or.mpr ⟨h₁, h₂⟩)
  | rename a b | link a b =>
      obtain ⟨fa, ha⟩ := Option.ne_none_iff_exists'.mp (hx i hen a 0)
      obtain ⟨fb, hb⟩ := Option.ne_none_iff_exists'.mp (hx i hen b 1)
      simp [Request.call, Env.xlate₂, ha, hb]
  | symlink a b => simpa [Request.call] using hx i hen b 0
  | «open» path | create path => simpa [Request.call, openCall] using hx i hen path 0
  | getattr path | access path | readlink path | readdir path | truncate path | chmod path
  | chown path | utime path | rmdir path | unlink path | mkdir path =>
      simpa [Request.call] using hx i hen path 0

end admitted

end Session

/-! ## On a mounted file system -/

/-- A start on the configuration `c`: nothing open, nothing done. -/
def Session.StartsOn (c : Config n) (s : Session n) : Prop :=
  s.daemon.config = c ∧ s.live = [] ∧ s.trace = []

/-- What `do_mount` builds is a fresh start. -/
theorem Config.Mounted.fresh {fs : Path} {uid gid : ℕ} {c : Config (maxReplica fs)}
    (hc : c.Mounted fs uid gid) {s : Session (maxReplica fs)} (hs : s.StartsOn c) : s.Fresh where
  live := hs.2.1
  trace := hs.2.2
  enabled := ⟨⟨0, Nat.succ_pos _⟩, by rw [hs.1]; exact hc.enabled _⟩
  table := by rw [hs.1]; exact hc.table_empty

/-- The layout a run starts with stays. -/
theorem Session.sameLayout_of_reachable {c : Config n} {P : Session n → Request × Env n → Prop}
    {s : Session n} (h : Machine.ReachableBy Session.step P (StartsOn c) s) :
    c.SameLayout s.daemon.config := by
  refine h.invariant (I := fun s => c.SameLayout s.daemon.config)
    (fun s₀ h₀ => h₀.1 ▸ .refl _) ?_
  rintro s ⟨q, env⟩ s' - hlay hstep
  obtain ⟨-, o, ho, rfl⟩ := step_eq_some_iff.mp hstep
  exact hlay.trans (handle_sameLayout ho)

end ChironFs
