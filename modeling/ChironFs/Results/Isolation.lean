import ChironFs.Model.Sample
import ChironFs.Spec.Records
import ChironFs.Spec.Untouched

/-!
# A disabled replica is isolated

* `Session.Isolates s i s'`: between the states `s` and `s'` of a run nothing was done with
  replica `i`; `Isolates.step`: one more request keeps that while `i` is disabled.
* `disabled_isolated`: so it is for the rest of every run.
-/

namespace ChironFs

open Posix Replication

variable {n : ℕ}

namespace Session

/-- From `s` to `s'` the record of replica `i` did not change, and no event is on `i`; every event
is on the replica it names. -/
structure Isolates (s : Session n) (i : Fin n) (s' : Session n) : Prop where
  record : s'.daemon.config.replicas i = s.daemon.config.replicas i
  layout : s.daemon.config.SameLayout s'.daemon.config
  events : ∃ new, s'.trace = s.trace ++ new ∧ (∀ ev ∈ new, ev.replica ≠ some i) ∧
    ∀ ev ∈ new, ev.IsOn s.daemon.config (openedFds s'.trace)

theorem Isolates.refl (s : Session n) (i : Fin n) : s.Isolates i s where
  record := rfl
  layout := .refl _
  events := ⟨[], by simp, by simp, by simp⟩

end Session

/-- What an event is on stays true as more descriptors are opened. -/
theorem Event.IsOn.mono {c c' : Config n} {l l' : List (Fin n × ℤ)} {ev : Event n}
    (h : ev.IsOn c' l) (hlay : c.SameLayout c') (hl : l ⊆ l') : ev.IsOn c l' := by
  cases ev with
  | call cr i cl res =>
      refine ⟨?_, fun fd hfd => hl (h.2 fd hfd)⟩
      intro p hp
      rw [← hlay.path]
      exact h.1 p hp
  | close cr i fd res => exact hl h
  | _ => trivial

/-- **One more request** leaves a disabled replica alone. -/
theorem Session.Isolates.step {s s₁ s₂ : Session n} {i : Fin n} {q : Request} {env : Env n}
    (h : s.Isolates i s₁) (hdis : (s.daemon.config.replicas i).disabled = true) (hi : s₁.Inv)
    (htr : s₁.Traced) (hstep : s₁.step (q, env) = some s₂) : s.Isolates i s₂ := by
  obtain ⟨o, ho, rfl, hon⟩ := isOn_of_step hi htr hstep
  have hdis₁ : (s₁.daemon.config.replicas i).disabled = true := by rw [h.record, hdis]
  obtain ⟨new, hnew, hnot, hprev⟩ := h.events
  have hopened : openedFds s₁.trace ⊆ openedFds (s₁.after q o).trace := by
    show _ ⊆ openedFds (s₁.trace ++ o.trace)
    rw [openedFds_append]
    exact List.subset_append_left _ _
  refine ⟨?_, h.layout.trans (handle_sameLayout ho), new ++ o.trace, ?_, ?_, ?_⟩
  · exact (handle_replicas_of_disabled ho hdis₁).trans h.record
  · show s₁.trace ++ o.trace = _
    rw [hnew, List.append_assoc]
  · intro ev hev hrep
    rcases List.mem_append.mp hev with hev | hev
    · exact hnot ev hev hrep
    · have hen := replica_of_mem_handle ho hev hrep
      exact Config.not_enabled_iff.mpr hdis₁ hen
  · intro ev hev
    rcases List.mem_append.mp hev with hev | hev
    · exact (hprev ev hev).mono (.refl _) hopened
    · exact (hon ev hev).mono h.layout (List.Subset.refl _)

/-- **A disabled replica is isolated for the rest of the run.** Once replica `i` is disabled, in
every later state it is disabled, its counters are what they were, and no request since then made a
call on it or on a descriptor of it: every event is on the path, or on a descriptor, of a replica
other than `i`. -/
theorem disabled_isolated {s s' : Session n} {i : Fin n} {l : List (Request × Env n)}
    (hs : Machine.ReachableBy Session.step (fun _ _ => True) Session.Fresh s)
    (hi : ¬ s.daemon.config.enabled i) (hrun : Machine.runFrom Session.step s l = some s') :
    ¬ s'.daemon.config.enabled i ∧
      (s'.daemon.config.replicas i).totrd = (s.daemon.config.replicas i).totrd ∧
      (s'.daemon.config.replicas i).totwr = (s.daemon.config.replicas i).totwr ∧
      ∃ new, s'.trace = s.trace ++ new ∧ (∀ ev ∈ new, ev.replica ≠ some i) ∧
        ∀ ev ∈ new, ev.IsOn s.daemon.config (openedFds s'.trace) := by
  have htr : s.Inv ∧ s.Traced := by
    refine hs.invariant (I := fun s => s.Inv ∧ s.Traced) ?_ ?_
    · intro s₀ h₀
      exact ⟨h₀.inv, by simp [Session.Traced, h₀.live]⟩
    · rintro s₁ ⟨q, env⟩ s₂ - ⟨hinv, htr⟩ hstep
      exact ⟨Session.step_inv hinv hstep, Session.step_traced hinv htr hstep⟩
  have hdis := Config.not_enabled_iff.mp hi
  have hiso : s'.Inv ∧ s'.Traced ∧ s.Isolates i s' := by
    refine Machine.invariant_of_meets (P := fun _ _ => True)
      (I := fun s' => s'.Inv ∧ s'.Traced ∧ s.Isolates i s') ?_ l s s'
      (.of_forall (fun _ _ => trivial) s l) ⟨htr.1, htr.2, .refl s i⟩ hrun
    rintro s₁ ⟨q, env⟩ s₂ - ⟨hinv, htr₁, hiso⟩ hstep
    exact ⟨Session.step_inv hinv hstep, Session.step_traced hinv htr₁ hstep,
      hiso.step hdis hinv htr₁ hstep⟩
  obtain ⟨-, -, hiso⟩ := hiso
  have hrec := hiso.record
  refine ⟨?_, by rw [hrec], by rw [hrec], hiso.events⟩
  rw [Config.not_enabled_iff, hrec]
  exact hdis

/-- `/f` is opened, and then `mkdir` fails on the second replica. -/
def openThenLose : List (Request × Env 2) :=
  [(.open fileF 2, plainEnv fun _ _ => .ok { ret := 5 }),
   (.mkdir fileF 0o755, secondFails {} EACCES)]

/-- A write through the file opened before the second replica was disabled. -/
theorem disabled_isolated_write :
    ∃ s s' : Session 2, Machine.runFrom Session.step rootSession openThenLose = some s ∧
      Machine.runFrom Session.step s
        [(.write 6 [1] 0, plainEnv fun _ _ => .ok { ret := 1 })] = some s' ∧
      (s'.daemon.config.replicas 1).totwr = (s.daemon.config.replicas 1).totwr := by
  have hdis : ∀ s, Machine.runFrom Session.step rootSession openThenLose = some s →
      ¬ s.daemon.config.enabled 1 := by
    rintro s hs
    obtain rfl := Option.some.inj hs
    intro hen
    cases (show true = false from hen)
  refine ⟨_, _, rfl, rfl, ?_⟩
  exact (disabled_isolated ⟨rootSession, openThenLose, ⟨rfl, rfl, ⟨0, rfl⟩, fun _ _ => rfl⟩,
    .of_forall (fun _ _ => trivial) _ _, rfl⟩ (hdis _ rfl)
    (l := [(.write 6 [1] 0, plainEnv fun _ _ => .ok { ret := 1 })]) rfl).2.2.1

end ChironFs
