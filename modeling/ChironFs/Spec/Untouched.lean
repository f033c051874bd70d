import ChironFs.Model.Stores
import ChironFs.Spec.Session

/-!
# Replicas a request does not touch

* `replica_of_mem_handle`: a request makes no call on a disabled replica.
* `Event.IsOn`: the paths and the descriptors of an event are those of its replica.
  `Session.isOn_of_step`: they are, for every event of every request FUSE passes.
-/

namespace ChironFs

open Posix Replication

variable {n : ℕ}

theorem Event.replica_of_isCred {ev : Event n} (h : ev.isCred = true) : ev.replica = none := by
  cases ev <;> first | rfl | cases h

/-! ## Disabled replicas -/

section disabled

variable {q : Request} {env : Env n} {d : Daemon n} {o : Outcome n} {i : Fin n}

/-- A served request touches replicas that it asked. -/
theorem Served.enabled_of_replica {tried : List (Fin n)} (h : Served q env d tried o)
    {ev : Event n} (hev : ev ∈ o.trace) (hi : ev.replica = some i) : d.config.enabled i := by
  cases ev with
  | call cr j c res =>
      cases hi
      exact (Request.ask_eq_some_iff.mp (h.call_mem_iff.mp hev).2.2.1).1
  | close cr j fd res =>
      cases hi
      obtain ⟨-, r, hr, -⟩ := h.close_mem hev
      obtain ⟨_, c, hcall⟩ := h.roundOn_eq_ok_iff.mp hr
      exact (Request.ask_eq_some_iff.mp (h.call_mem_iff.mp hcall).2.2.1).1
  | _ => cases hi

/-- **No request touches a disabled replica.** -/
theorem replica_of_mem_handle (ho : handle q env d = some o) {ev : Event n} (hev : ev ∈ o.trace)
    (hi : ev.replica = some i) : d.config.enabled i := by
  rcases handle_cases ho with ⟨e, -, rfl⟩ | ⟨fh, fd, -, -, rfl⟩ | ⟨-, -, tried, h⟩
  · rw [Event.replica_of_isCred (isCred_of_mem_earlyOutcome hev)] at hi
    cases hi
  · cases hcred : ev.isCred with
    | true =>
        rw [Event.replica_of_isCred hcred] at hi
        cases hi
    | false =>
        obtain ⟨j, hj, rfl⟩ := mem_releaseOutcome hcred hev
        cases hi
        simpa [Config.closes, Config.enabled] using And.right (by simpa [Config.closes] using hj)
  · exact h.enabled_of_replica hev hi

end disabled

/-! ## Whose paths and whose descriptors -/

/-- The file names a call passes; the text of a symbolic link is not one. -/
def Call.names : Call → List Path
  | .open p _ _ | .creat p _ | .lstat p | .access p _ | .readlink p _ | .opendir p _
  | .mkfifo p _ | .truncate p _ | .chmod p _ | .lchown p _ _ | .utime p _ | .rmdir p | .unlink p
  | .mkdir p _ | .symlink _ p => [p]
  | .rename a b | .link a b => [a, b]
  | .pread .. | .pwrite .. => []

/-- The descriptor a call passes. -/
def Call.descriptor : Call → Option ℤ
  | .pread fd .. | .pwrite fd .. => some fd
  | _ => none

/-- The names an event passes are below the path of its replica, and the descriptor it passes was
opened on that replica. -/
def Event.IsOn (c : Config n) (opened : List (Fin n × ℤ)) : Event n → Prop
  | .call _ i cl _ =>
      (∀ p ∈ cl.names, ∃ root tail, (c.replicas i).path = some root ∧ p = root ++ tail) ∧
        ∀ fd, cl.descriptor = some fd → (i, fd) ∈ opened
  | .close _ i fd _ => (i, fd) ∈ opened
  | _ => True

section calls

variable {q : Request} {env : Env n} {c : Config n} {i : Fin n} {cl : Call}

theorem Env.below_of_xlate {fname p : Path} {k : ℕ} (h : env.xlate c fname i k = some p) :
    ∃ root tail, (c.replicas i).path = some root ∧ p = root ++ tail :=
  let ⟨root, hroot, hp⟩ := Env.exists_root_of_xlate h
  ⟨root, fname, hroot, hp⟩

/-- The names a request passes to a replica are below its path. -/
theorem Request.names_of_call (h : q.call env c i = some cl) {p : Path} (hp : p ∈ cl.names) :
    ∃ root tail, (c.replicas i).path = some root ∧ p = root ++ tail := by
  cases q with
  | release => cases h
  | read fh size offset =>
      obtain ⟨fd, -, h⟩ := Option.bind_eq_some_iff.mp h
      unfold readCall at h
      split_ifs at h
      cases h
      cases hp
  | write fh buf offset =>
      obtain ⟨fd, -, h⟩ := Option.bind_eq_some_iff.mp h
      unfold writeCall at h
      split_ifs at h
      cases h
      cases hp
  | mknod path mode rdev =>
      obtain ⟨fname, hname, h⟩ := Option.bind_eq_some_iff.mp h
      split_ifs at h
      all_goals
        cases h
        obtain rfl := List.mem_singleton.mp hp
        exact Env.below_of_xlate hname
  | rename a b | link a b =>
      obtain ⟨⟨x, y⟩, hxy, rfl⟩ := Option.map_eq_some_iff.mp h
      simp only [Env.xlate₂, Option.bind_eq_bind, Option.bind_eq_some_iff, Option.some.injEq,
        Prod.mk.injEq] at hxy
      obtain ⟨_, hx, _, hy, rfl, rfl⟩ := hxy
      rcases List.mem_pair.mp hp with rfl | rfl
      · exact Env.below_of_xlate hx
      · exact Env.below_of_xlate hy
  | _ =>
      obtain ⟨fname, hname, rfl⟩ := Option.map_eq_some_iff.mp h
      obtain rfl := List.mem_singleton.mp hp
      exact Env.below_of_xlate hname

/-- The descriptor a request passes is the one its handle has for the replica. -/
theorem Request.descriptor_of_call (h : q.call env c i = some cl) {v : ℤ}
    (hv : cl.descriptor = some v) :
    ∃ fh fd, q.uses = some fh ∧ c.tabFd fh = some fd ∧ fd i = v := by
  cases q with
  | release => cases h
  | read fh size offset =>
      obtain ⟨fd, hfd, h⟩ := Option.bind_eq_some_iff.mp h
      unfold readCall at h
      split_ifs at h
      cases h
      exact ⟨fh, fd, rfl, hfd, Option.some.inj hv⟩
  | write fh buf offset =>
      obtain ⟨fd, hfd, h⟩ := Option.bind_eq_some_iff.mp h
      unfold writeCall at h
      split_ifs at h
      cases h
      exact ⟨fh, fd, rfl, hfd, Option.some.inj hv⟩
  | mknod path mode rdev =>
      obtain ⟨fname, -, h⟩ := Option.bind_eq_some_iff.mp h
      split_ifs at h
      all_goals
        cases h
        cases hv
  | _ =>
      obtain ⟨_, -, rfl⟩ := Option.map_eq_some_iff.mp h
      cases hv

end calls

namespace Session

variable {s s' : Session n} {q : Request} {env : Env n}

/-- What is recorded as opened for a live handle was opened. -/
def Traced (s : Session n) : Prop := ∀ h ∈ s.live, h.opened ⊆ openedFds s.trace

theorem step_traced (hi : s.Inv) (htr : s.Traced) (h : s.step (q, env) = some s') :
    s'.Traced := by
  rcases step_cases hi h with ⟨fh, hop⟩ | ⟨x, hrel⟩ | hkept
  · intro y hy
    rw [hop.live] at hy
    rw [hop.opened]
    rcases List.mem_cons.mp hy with rfl | hy
    · exact List.subset_append_right _ _
    · exact List.Subset.trans (htr y hy) (List.subset_append_left _ _)
  · intro y hy
    rw [hrel.live] at hy
    rw [hrel.opened]
    exact htr y (List.mem_filter.mp hy).1
  · intro y hy
    obtain ⟨l, hopened, -⟩ := hkept.balance
    rw [hkept.live] at hy
    rw [hopened]
    exact List.Subset.trans (htr y hy) (List.subset_append_left _ _)

/-- What a request closes was opened. -/
theorem closedFds_subset (hi : s.Inv) (htr : s.Traced) (h : s.step (q, env) = some s')
    {o : Outcome n} (ho : s'.trace = s.trace ++ o.trace) : closedFds o.trace ⊆ openedFds s'.trace := by
  have hcl : closedFds s'.trace = closedFds s.trace ++ closedFds o.trace := by
    rw [ho, closedFds_append]
  rcases step_cases hi h with ⟨fh, hop⟩ | ⟨x, hrel⟩ | hkept
  · rw [hop.closed, List.self_eq_append_right] at hcl
    rw [hcl]
    exact List.nil_subset _
  · rw [hrel.closed, List.append_cancel_left_eq] at hcl
    rw [← hcl, hrel.opened]
    intro p hp
    obtain ⟨i, hi', rfl⟩ := List.mem_map.mp hp
    have hen : s.daemon.config.enabled i := by
      simpa [Config.enabled] using And.right (by
        simpa [Config.closes] using (List.mem_filter.mp hi').2)
    exact htr x hrel.mem (hi.covers x hrel.mem i hen)
  · obtain ⟨l, hopened, hclosed⟩ := hkept.balance
    rw [hclosed, List.append_cancel_left_eq] at hcl
    rw [← hcl, hopened]
    exact List.subset_append_right _ _

/-- **The replica of an event is the one it works on**: for every request FUSE passes. -/
theorem isOn_of_step (hi : s.Inv) (htr : s.Traced) (h : s.step (q, env) = some s') :
    ∃ o, handle q env s.daemon = some o ∧ s' = s.after q o ∧
      ∀ ev ∈ o.trace, ev.IsOn s.daemon.config (openedFds s'.trace) := by
  obtain ⟨hadm, o, ho, rfl⟩ := step_eq_some_iff.mp h
  refine ⟨o, ho, rfl, ?_⟩
  intro ev hev
  cases ev with
  | call cr i cl res =>
      have hask : ∃ tried, Served q env s.daemon tried o := by
        by_contra hno
        exact (handle_no_round ho hno).1 i ⟨cr, cl, res, hev⟩
      obtain ⟨tried, hsv⟩ := hask
      obtain ⟨hen, hcall⟩ := Request.ask_eq_some_iff.mp (hsv.call_mem_iff.mp hev).2.2.1
      refine ⟨fun p hp => Request.names_of_call hcall hp, ?_⟩
      intro v hv
      obtain ⟨fh, fd, hu, hfd, rfl⟩ := Request.descriptor_of_call hcall hv
      obtain ⟨x, hx, rfl, hslot⟩ := hi.slot_of_admits hadm hu
      obtain rfl := Option.some.inj (hslot.symm.trans hfd)
      show _ ∈ openedFds (s.trace ++ o.trace)
      rw [openedFds_append]
      exact List.mem_append_left _ (htr x hx (hi.covers x hx i hen))
  | close cr i fd res =>
      exact closedFds_subset hi htr h rfl (List.mem_filterMap.mpr ⟨_, hev, rfl⟩)
  | _ => trivial

end Session

end ChironFs
