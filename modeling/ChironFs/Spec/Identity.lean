import ChironFs.Spec.Tries

/-!
# The identity a request works under

* `dropPriv_ret_eq_zero_iff`: when `drop_priv` succeeds, by the rules for `setegid` and `seteuid`.
* `reacquirePriv_dropPriv`: `reacquire_priv` brings back the ids from before `drop_priv`.
* `handle_bracket`: what every request does between `drop_priv` and `reacquire_priv` it does under
  the credentials that `drop_priv` left, whether that succeeded or not.
-/

namespace ChironFs

open Posix Replication

variable {n : ℕ}

section dropPriv

variable {env : Env n} {cr : Creds}

/-- `drop_priv` succeeds when neither call is refused and both are allowed. -/
theorem dropPriv_ret_eq_zero_iff :
    (dropPriv env cr).ret = 0 ↔
      env.refuse .dropGid = false ∧ env.refuse .dropUid = false ∧
        ∃ cr₁ cr₂, cr.setegid env.gid = some cr₁ ∧ cr₁.seteuid env.uid = some cr₂ := by
  unfold dropPriv
  cases hg : env.refuse .dropGid with
  | true => simp
  | false =>
      cases hu : env.refuse .dropUid with
      | true => cases cr.setegid env.gid <;> simp
      | false =>
          cases h₁ : cr.setegid env.gid with
          | none => simp
          | some cr₁ => cases h₂ : cr₁.seteuid env.uid <;> simp [h₂]

/-- After a successful `drop_priv` the process has the caller's ids. -/
theorem creds_of_dropPriv (h : (dropPriv env cr).ret = 0) :
    (dropPriv env cr).creds = { cr with euid := env.uid, egid := env.gid } := by
  obtain ⟨hg, hu, cr₁, cr₂, h₁, h₂⟩ := dropPriv_ret_eq_zero_iff.mp h
  have hcreds : (dropPriv env cr).creds = cr₂ := by simp [dropPriv, hg, hu, h₁, h₂]
  obtain ⟨-, rfl⟩ := Creds.setegid_eq_some_iff.mp h₁
  obtain ⟨-, rfl⟩ := Creds.seteuid_eq_some_iff.mp h₂
  exact hcreds

/-- However far `drop_priv` gets, it changes effective ids only. -/
theorem sameOrigin_dropPriv (env : Env n) (cr : Creds) :
    cr.SameOrigin (dropPriv env cr).creds := by
  unfold dropPriv
  cases env.refuse .dropGid with
  | true => exact .refl cr
  | false =>
      cases h₁ : cr.setegid env.gid with
      | none => exact .refl cr
      | some cr₁ =>
          have hg := Creds.sameOrigin_of_setegid h₁
          cases env.refuse .dropUid with
          | true => exact hg
          | false =>
              cases h₂ : cr₁.seteuid env.uid with
              | none => simpa [h₂] using hg
              | some cr₂ => simpa [h₂] using hg.trans (Creds.sameOrigin_of_seteuid h₂)

/-- The kernel refuses neither call of `reacquire_priv` for reasons other than its rules. -/
def Env.AllowsReturn (env : Env n) : Prop :=
  env.refuse .backUid = false ∧ env.refuse .backGid = false

/-- The effective and the saved ids are `config.uid` and `config.gid`, as after the daemon was
executed. -/
structure Config.OwnCreds (c : Config n) (cr : Creds) : Prop where
  euid : cr.euid = c.uid
  suid : cr.suid = c.uid
  egid : cr.egid = c.gid
  sgid : cr.sgid = c.gid

/-- **`reacquire_priv` undoes `drop_priv`**, finished or not. -/
theorem reacquirePriv_dropPriv {c : Config n} (hcr : c.OwnCreds cr) (hback : env.AllowsReturn) :
    (reacquirePriv env c (dropPriv env cr).creds).ret = 0 ∧
      (reacquirePriv env c (dropPriv env cr).creds).creds = cr := by
  obtain ⟨cr₁, hu, hg⟩ := Creds.exists_restore (sameOrigin_dropPriv env cr)
    (hcr.euid.trans hcr.suid.symm) (hcr.egid.trans hcr.sgid.symm)
  rw [hcr.suid] at hu
  rw [hcr.sgid] at hg
  simp [reacquirePriv, hback.1, hback.2, hu, hg]

end dropPriv

/-! ## Between the two credential functions -/

/-- The event is no credential call, and if it is a call on a replica it ran under `cr`. -/
def Event.RunsUnder (cr : Creds) : Event n → Prop
  | .setegid .. | .seteuid .. => False
  | .call cr' .. | .close cr' .. => cr' = cr
  | .log .. => True

section bracket

variable {q : Request} {env : Env n} {d : Daemon n} {o : Outcome n}

theorem runsUnder_of_mem_events {i : Fin n} {ev : Event n} (h : ev ∈ q.events env d i) :
    ev.RunsUnder (dropPriv env d.creds).creds := by
  rcases Request.events_cases env d q i with ⟨-, heq⟩ | ⟨_, _, -, -, heq⟩ |
    ⟨_, _, -, -, ⟨-, heq⟩ | ⟨-, -, -, heq⟩⟩
  all_goals rw [heq] at h
  · cases h
  · obtain rfl := List.mem_singleton.mp h
    rfl
  · obtain rfl := List.mem_singleton.mp h
    rfl
  · obtain rfl | rfl := List.mem_pair.mp h <;> rfl

theorem runsUnder_of_mem_dropLogs {operation : String} {c : Config n}
    {R : Round (Fin n) Reply Errno} {ev : Event n} (h : ev ∈ dropLogs operation c R) (cr : Creds) :
    ev.RunsUnder cr := by
  obtain ⟨-, _, _, -, rfl | rfl⟩ := mem_dropLogs_iff.mp h <;> trivial

/-- **The bracket**: a request calls `drop_priv`, works, and calls `reacquire_priv`; all its work
runs under the credentials `drop_priv` left. -/
theorem handle_bracket (ho : handle q env d = some o) :
    ∃ body, o.trace = (dropPriv env d.creds).trace ++ body ++
        (reacquirePriv env d.config (dropPriv env d.creds).creds).trace ∧
      (∀ ev ∈ body, ev.RunsUnder (dropPriv env d.creds).creds) ∧
      o.daemon.creds = (reacquirePriv env d.config (dropPriv env d.creds).creds).creds := by
  rcases handle_cases ho with ⟨e, -, rfl⟩ | ⟨fh, fd, -, -, rfl⟩ | ⟨-, -, tried, h⟩
  · refine ⟨[], ?_, by simp, rfl⟩
    rw [List.append_nil]
    rfl
  · have hback := reacquirePriv_congr env (.setSlot d.config fh none) (dropPriv env d.creds).creds
    refine ⟨((List.finRange n).filter (d.config.closes fd)).map
      fun i => .close (dropPriv env d.creds).creds i (fd i) (env.close i (fd i)), ?_, ?_, ?_⟩
    · rw [← hback]
      rfl
    · intro ev hev
      obtain ⟨i, -, rfl⟩ := List.mem_map.mp hev
      rfl
    · rw [← hback]
      rfl
  · obtain ⟨tail, htr, -, htail⟩ := h.trace
    refine ⟨_, htr, ?_, h.creds⟩
    intro ev hev
    rcases List.mem_append.mp hev with hev | hev
    · rcases List.mem_append.mp hev with hev | hev
      · obtain ⟨i, -, hi⟩ := List.mem_flatMap.mp hev
        exact runsUnder_of_mem_events hi
      · exact runsUnder_of_mem_dropLogs hev _
    · obtain rfl | ⟨i, r, -, rfl⟩ := htail ev hev
      · trivial
      · rfl

end bracket

end ChironFs
