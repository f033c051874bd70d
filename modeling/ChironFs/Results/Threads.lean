import ChironFs.Model.Sample
import ChironFs.Model.Threads
import ChironFs.Spec.Identity

/-!
# The caller's identity when requests overlap

* `run_of_handle`: every request of `handle` is a run of its thread, under the same ids.
* `OwnIdentity`: every call on a replica ran under the ids of its own caller.
* `not_ownIdentity_overlap`: two requests that overlap, one of whose calls runs as the superuser.
* `Exclusive`, `ownIdentity_of_exclusive`: no credential call between another request's first
  credential call and its last call on a replica, and every call has its caller's identity.
-/

namespace ChironFs

open Posix Replication

variable {n : ℕ} {T : Type*} [DecidableEq T]

/-! ## The steps of a request -/

/-- The step of a thread an event is; a log line is none. -/
def Event.act : Event n → Option Act
  | .setegid .. | .seteuid .. => some .cred
  | .call .. | .close .. => some .call
  | .log .. => none

/-- The ids a call on a replica ran under. -/
def Event.ranUnder : Event n → Option Creds
  | .call cr .. | .close cr .. => some cr
  | _ => none

/-- The steps request `t` takes in a trace. -/
def actsOf (t : T) (trace : List (Event n)) : List (T × Act) :=
  (trace.filterMap Event.act).map fun a => (t, a)

section alone

variable {caller : T → Ids} {daemon : Ids} {t : T} {env : Env n} {p p' : Process T}

omit [DecidableEq T] in
theorem actsOf_append (l₁ l₂ : List (Event n)) :
    actsOf t (l₁ ++ l₂) = actsOf t l₁ ++ actsOf t l₂ := by
  simp [actsOf]

theorem Process.step_call (h : p.next t = some .backUid) :
    p.step caller daemon (t, .call) = some { p with made := p.made ++ [(t, p.creds)] } := by
  simp [step, h]

/-- `drop_priv` on its thread. -/
theorem run_dropPriv (hrefuse : ∀ k, env.refuse k = false)
    (hcaller : caller t = { uid := env.uid, gid := env.gid }) (hnext : p.next t = some .dropGid) :
    Machine.runFrom (Process.step caller daemon) p (actsOf t (dropPriv env p.creds).trace) =
      some { p with
        creds := (dropPriv env p.creds).creds
        next := Function.update p.next t (some .backUid) } := by
  unfold dropPriv
  simp only [hrefuse, Bool.false_eq_true, if_false]
  cases h₁ : p.creds.setegid env.gid with
  | none => simp [actsOf, Event.act, Process.step, hnext, credStep, hcaller, h₁]
  | some cr₁ =>
      cases h₂ : cr₁.seteuid env.uid <;>
        simp [actsOf, Event.act, Process.step, hnext, credStep, hcaller, h₁, h₂]

/-- `reacquire_priv` on its thread. -/
theorem run_reacquirePriv {c : Config n} (hrefuse : ∀ k, env.refuse k = false)
    (hdaemon : daemon = { uid := c.uid, gid := c.gid }) (hnext : p.next t = some .backUid) :
    Machine.runFrom (Process.step caller daemon) p (actsOf t (reacquirePriv env c p.creds).trace) =
      some { p with
        creds := (reacquirePriv env c p.creds).creds
        next := Function.update p.next t none } := by
  subst hdaemon
  unfold reacquirePriv
  simp only [hrefuse, Bool.false_eq_true, if_false]
  cases h₁ : p.creds.seteuid c.uid with
  | none => simp [actsOf, Event.act, Process.step, hnext, credStep, h₁]
  | some cr₁ =>
      cases h₂ : cr₁.setegid c.gid <;>
        simp [actsOf, Event.act, Process.step, hnext, credStep, h₁, h₂]

/-- What a request does between the two, on its thread. -/
theorem run_body {body : List (Event n)} (hbody : ∀ ev ∈ body, ev.RunsUnder p.creds)
    (hnext : p.next t = some .backUid) :
    Machine.runFrom (Process.step caller daemon) p (actsOf t body) =
      some { p with
        made := p.made ++ (body.filterMap Event.ranUnder).map fun cr => (t, cr) } := by
  induction body generalizing p with
  | nil => simp [actsOf]
  | cons ev body ih =>
      obtain ⟨hev, hmem⟩ := List.forall_mem_cons.mp hbody
      have hrest := ih (p := { p with made := p.made ++ [(t, p.creds)] }) hmem hnext
      cases ev with
      | setegid | seteuid => cases hev
      | call cr i c res =>
          obtain rfl : cr = p.creds := hev
          simpa [actsOf, Event.act, Event.ranUnder, Process.step_call hnext] using hrest
      | close cr i fd res =>
          obtain rfl : cr = p.creds := hev
          simpa [actsOf, Event.act, Event.ranUnder, Process.step_call hnext] using hrest
      | log who fnname resource err =>
          rw [actsOf, List.filterMap_cons_none rfl, List.filterMap_cons_none rfl]
          exact ih hmem hnext

/-- Credential calls are no calls on a replica. -/
theorem ranUnder_of_isCred {l : List (Event n)} (h : ∀ ev ∈ l, ev.isCred = true) :
    l.filterMap Event.ranUnder = [] :=
  List.filterMap_eq_nil_iff.mpr fun ev hev => by
    have := h ev hev
    cases ev <;> first | rfl | cases this

/-- **Every request is a run of its thread**: made alone, it takes the steps of its trace, ends with
the ids the handler ends with, and its calls ran under the ids the handler made them under. -/
theorem run_of_handle {q : Request} {d : Daemon n} {o : Outcome n} (ho : handle q env d = some o)
    (hrefuse : ∀ k, env.refuse k = false)
    (hcaller : caller t = { uid := env.uid, gid := env.gid })
    (hdaemon : daemon = { uid := d.config.uid, gid := d.config.gid }) (hcreds : p.creds = d.creds)
    (hnext : p.next t = some .dropGid) :
    Machine.runFrom (Process.step caller daemon) p (actsOf t o.trace) =
      some { creds := o.daemon.creds
             next := Function.update p.next t none
             made := p.made ++ (o.trace.filterMap Event.ranUnder).map fun cr => (t, cr) } := by
  obtain ⟨body, htr, hbody, hend⟩ := handle_bracket ho
  rw [← hcreds] at htr hbody hend
  have hmade : o.trace.filterMap Event.ranUnder = body.filterMap Event.ranUnder := by
    rw [htr, List.filterMap_append, List.filterMap_append,
      ranUnder_of_isCred fun _ => isCred_of_mem_dropPriv,
      ranUnder_of_isCred fun _ => isCred_of_mem_reacquirePriv, List.nil_append, List.append_nil]
  rw [hmade, hend, htr, actsOf_append, actsOf_append, Machine.runFrom_append,
    Machine.runFrom_append, run_dropPriv hrefuse hcaller hnext, Option.bind_some,
    run_body hbody (Function.update_self ..), Option.bind_some]
  apply (run_reacquirePriv hrefuse hdaemon (Function.update_self ..)).trans
  simp

end alone

/-! ## Identity -/

/-- Every call on a replica ran under the ids of the caller it was made for. -/
def OwnIdentity (caller : T → Ids) (p : Process T) : Prop :=
  ∀ x ∈ p.made, x.2.euid = (caller x.1).uid ∧ x.2.egid = (caller x.1).gid

/-- The superuser. -/
def root : Ids := { uid := 0, gid := 0 }

/-- Two callers: `1000` and `1001`. -/
def twoCallers (t : Bool) : Ids :=
  if t then { uid := 1001, gid := 1001 } else { uid := 1000, gid := 1000 }

/-- Nothing was asked of the daemon yet. -/
def rootProcess : Process Bool :=
  { creds := Creds.ofUser 0 0, next := fun _ => some .dropGid, made := [] }

/-- The second request starts while the first one works, and works while the first one ends. -/
def overlap : List (Bool × Act) :=
  [(false, .cred), (false, .cred), (true, .cred), (false, .call), (false, .cred), (true, .call),
   (false, .cred), (true, .cred), (true, .cred)]

/-- When two requests overlap, a call made for the caller `1001` runs as the superuser. -/
theorem not_ownIdentity_overlap :
    ∃ p, Machine.runFrom (Process.step twoCallers root) rootProcess overlap = some p ∧
      (∃ cr, (true, cr) ∈ p.made ∧ cr.euid = 0 ∧ cr.egid = 1000) ∧ ¬ OwnIdentity twoCallers p := by
  have hmem : (true, { Creds.ofUser 0 0 with egid := 1000 }) ∈
      [(false, { Creds.ofUser 0 0 with euid := 1000, egid := 1000 }),
       (true, { Creds.ofUser 0 0 with egid := 1000 })] := by decide
  refine ⟨_, rfl, ⟨_, hmem, rfl, rfl⟩, ?_⟩
  intro hown
  exact absurd (hown _ hmem).1 (by decide)

/-- A credential call is made only while no other request is between its first credential call and
its last call on a replica. -/
def Exclusive (p : Process T) (a : T × Act) : Prop :=
  a.2 = .cred → ∀ t, t ≠ a.1 → p.next t ≠ some .dropUid ∧ p.next t ≠ some .backUid

instance [Fintype T] (p : Process T) (a : T × Act) : Decidable (Exclusive p a) := by
  unfold Exclusive
  infer_instance

/-- The request called `setegid` or `seteuid` for its caller and not yet for the daemon. -/
def Process.Busy (p : Process T) (t : T) : Prop :=
  p.next t = some .dropUid ∨ p.next t = some .backUid

/-- The ids of the process in an exclusive run, by how far the one busy request got. -/
structure Process.Inv (caller : T → Ids) (p : Process T) : Prop where
  saved : p.creds.suid = 0
  alone : ∀ t t', p.Busy t → p.Busy t' → t = t'
  idle : (∀ t, ¬ p.Busy t) → p.creds.euid = 0
  dropping : ∀ t, p.next t = some .dropUid → p.creds.euid = 0 ∧ p.creds.egid = (caller t).gid
  working : ∀ t, p.next t = some .backUid →
    p.creds.euid = (caller t).uid ∧ p.creds.egid = (caller t).gid
  made : OwnIdentity caller p

section exclusive

variable {caller : T → Ids} {daemon : Ids} {p p' : Process T}

/-- **What a step does**: the next credential call of a request, or a call on a replica between
`drop_priv` and `reacquire_priv`. -/
theorem Process.step_cases {a : T × Act} (h : p.step caller daemon a = some p') :
    (∃ k, a.2 = .cred ∧ p.next a.1 = some k ∧
      p' = { p with
        creds := (credStep (caller a.1) daemon p.creds k).1
        next := Function.update p.next a.1 (credStep (caller a.1) daemon p.creds k).2 }) ∨
      (a.2 = .call ∧ p.next a.1 = some .backUid ∧
        p' = { p with made := p.made ++ [(a.1, p.creds)] }) := by
  unfold step at h
  split at h
  · exact Or.inl ⟨_, ‹_›, ‹_›, (Option.some.inj h).symm⟩
  · exact Or.inr ⟨‹_›, ‹_›, (Option.some.inj h).symm⟩
  · cases h

omit [DecidableEq T] in
theorem Process.Start.inv (h : p.Start) : p.Inv caller := by
  obtain ⟨hcreds, hnext, hmade⟩ := h
  refine ⟨by rw [hcreds]; rfl, fun t t' ht => ?_, fun _ => by rw [hcreds]; rfl, fun t ht => ?_,
    fun t ht => ?_, by simp [OwnIdentity, hmade]⟩
  · simp [Busy, hnext] at ht
  all_goals simp [hnext] at ht

/-- After a credential call that was made while no other request was busy, the invariant is about
the one that made it. -/
theorem Process.inv_update {t : T} {k : Option CredCall} {cr : Creds}
    (hothers : ∀ t', t' ≠ t → ¬ p.Busy t') (hmade : OwnIdentity caller p) (hsaved : cr.suid = 0)
    (hidle : k ≠ some .dropUid → k ≠ some .backUid → cr.euid = 0)
    (hdrop : k = some .dropUid → cr.euid = 0 ∧ cr.egid = (caller t).gid)
    (hwork : k = some .backUid → cr.euid = (caller t).uid ∧ cr.egid = (caller t).gid) :
    ({ p with creds := cr, next := Function.update p.next t k } : Process T).Inv caller := by
  have hbusy : ∀ t', ({ p with creds := cr, next := Function.update p.next t k } :
      Process T).Busy t' → t' = t := by
    intro t' ht'
    by_contra hne
    exact hothers t' hne (by simpa [Busy, Function.update_of_ne hne] using ht')
  refine ⟨hsaved, fun t₁ t₂ h₁ h₂ => (hbusy t₁ h₁).trans (hbusy t₂ h₂).symm, ?_, ?_, ?_, hmade⟩
  · intro hno
    have ht := hno t
    simp only [Busy, Function.update_self, not_or] at ht
    exact hidle ht.1 ht.2
  · intro t' ht'
    obtain rfl := hbusy t' (Or.inl ht')
    exact hdrop (by simpa using ht')
  · intro t' ht'
    obtain rfl := hbusy t' (Or.inr ht')
    exact hwork (by simpa using ht')

/-- **One exclusive step keeps the invariant.** -/
theorem Process.Inv.step (hi : p.Inv caller) {a : T × Act} (hex : Exclusive p a)
    (h : p.step caller root a = some p') : p'.Inv caller := by
  obtain ⟨t, act⟩ := a
  rcases step_cases h with ⟨k, hact, hk, rfl⟩ | ⟨-, hwork, rfl⟩
  · have hothers : ∀ t', t' ≠ t → ¬ p.Busy t' := fun t' hne hb => by
      obtain ⟨h₁, h₂⟩ := hex hact t' hne
      exact hb.elim h₁ h₂
    cases k with
    | dropGid =>
        -- nobody is busy, so `setegid` is the superuser's
        have hroot : p.creds.euid = 0 := hi.idle fun t' hb => by
          by_cases hne : t' = t
          · subst hne
            simp [Busy, show p.next t' = some .dropGid from hk] at hb
          · exact hothers t' hne hb
        simp only [credStep, Creds.setegid_of_root hroot]
        exact inv_update hothers hi.made hi.saved (by simp) (fun _ => ⟨hroot, rfl⟩) (by simp)
    | dropUid =>
        obtain ⟨hroot, hgid⟩ := hi.dropping t hk
        simp only [credStep, Creds.seteuid_of_root hroot, Option.getD_some]
        exact inv_update hothers hi.made hi.saved (by simp) (by simp) (fun _ => ⟨rfl, hgid⟩)
    | backUid =>
        have hback : p.creds.seteuid root.uid = some { p.creds with euid := 0 } :=
          Creds.seteuid_eq_some_iff.mpr ⟨Or.inr (Or.inr hi.saved.symm), rfl⟩
        simp only [credStep, hback]
        exact inv_update hothers hi.made hi.saved (by simp) (by simp) (by simp)
    | backGid =>
        have hroot : p.creds.euid = 0 := hi.idle fun t' hb => by
          by_cases hne : t' = t
          · subst hne
            simp [Busy, show p.next t' = some .backGid from hk] at hb
          · exact hothers t' hne hb
        simp only [credStep, Creds.setegid_of_root hroot, Option.getD_some]
        exact inv_update hothers hi.made hi.saved (fun _ _ => hroot) (by simp) (by simp)
  · refine ⟨hi.saved, hi.alone, hi.idle, hi.dropping, hi.working, ?_⟩
    intro x hx
    rcases List.mem_append.mp hx with hx | hx
    · exact hi.made x hx
    · obtain rfl := List.mem_singleton.mp hx
      exact hi.working t hwork

/-- **When requests do not get in each other's way every call has its caller's identity**: in every
run of a superuser's daemon in which a credential call is made only while no other request is
between its first credential call and its last call on a replica. -/
theorem ownIdentity_of_exclusive
    (h : Machine.ReachableBy (Process.step caller root) Exclusive Process.Start p) :
    OwnIdentity caller p :=
  (h.invariant (I := Process.Inv caller) (fun _ h₀ => h₀.inv)
    fun _ _ _ hex hi hstep => hi.step hex hstep).made

end exclusive

/-- The second request starts when the first one has called `seteuid` for the daemon. -/
def inTurn : List (Bool × Act) :=
  [(false, .cred), (false, .cred), (false, .call), (false, .cred), (true, .cred), (true, .cred),
   (true, .call), (true, .cred), (false, .cred), (true, .cred)]

theorem ownIdentity_of_exclusive_inTurn :
    ∃ p, Machine.runFrom (Process.step twoCallers root) rootProcess inTurn = some p ∧
      p.made.length = 2 ∧ OwnIdentity twoCallers p := by
  have hmeets : Machine.Meets (Process.step twoCallers root) Exclusive rootProcess inTurn := by decide
  exact ⟨_, rfl, rfl, ownIdentity_of_exclusive ⟨rootProcess, inTurn,
    ⟨rfl, fun _ => rfl, rfl⟩, hmeets, rfl⟩⟩

end ChironFs
