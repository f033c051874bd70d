import Mathlib

/-!
# Process credentials and the POSIX rules for changing the effective ones

A process has a real, an effective and a saved user id, and the same three group ids. `seteuid`
and `setegid` change the effective id only: to any id when the effective user id is `0`, otherwise
only to the real or the saved one (`none` when the call is refused).
-/

namespace Posix

/-- The ids of a process. -/
structure Creds where
  ruid : ℕ
  euid : ℕ
  suid : ℕ
  rgid : ℕ
  egid : ℕ
  sgid : ℕ
deriving DecidableEq, Repr

namespace Creds

/-- The credentials of a process that was executed with user `u` and group `g`. -/
def ofUser (u g : ℕ) : Creds :=
  { ruid := u, euid := u, suid := u, rgid := g, egid := g, sgid := g }

/-- `seteuid(2)`. -/
def seteuid (c : Creds) (uid : ℕ) : Option Creds :=
  if c.euid = 0 ∨ uid = c.ruid ∨ uid = c.suid then some { c with euid := uid } else none

/-- `setegid(2)`. -/
def setegid (c : Creds) (gid : ℕ) : Option Creds :=
  if c.euid = 0 ∨ gid = c.rgid ∨ gid = c.sgid then some { c with egid := gid } else none

variable {c c' : Creds} {uid gid : ℕ}

theorem seteuid_eq_some_iff :
    c.seteuid uid = some c' ↔
      (c.euid = 0 ∨ uid = c.ruid ∨ uid = c.suid) ∧ { c with euid := uid } = c' := by
  unfold seteuid
  split_ifs with h <;> simp [h]

theorem setegid_eq_some_iff :
    c.setegid gid = some c' ↔
      (c.euid = 0 ∨ gid = c.rgid ∨ gid = c.sgid) ∧ { c with egid := gid } = c' := by
  unfold setegid
  split_ifs with h <;> simp [h]

/-- The superuser may take on any user id. -/
theorem seteuid_of_root (h : c.euid = 0) (uid : ℕ) :
    c.seteuid uid = some { c with euid := uid } := by
  simp [seteuid, h]

/-- The superuser may take on any group id. -/
theorem setegid_of_root (h : c.euid = 0) (gid : ℕ) :
    c.setegid gid = some { c with egid := gid } := by
  simp [setegid, h]

/-- A process may always go back to its saved user id. -/
theorem seteuid_saved (c : Creds) : c.seteuid c.suid = some { c with euid := c.suid } := by
  simp [seteuid]

/-- A process may always go back to its saved group id. -/
theorem setegid_saved (c : Creds) : c.setegid c.sgid = some { c with egid := c.sgid } := by
  simp [setegid]

/-! ### Giving privileges back -/

/-- The ids `seteuid` and `setegid` never change. -/
structure SameOrigin (c c' : Creds) : Prop where
  ruid : c'.ruid = c.ruid
  suid : c'.suid = c.suid
  rgid : c'.rgid = c.rgid
  sgid : c'.sgid = c.sgid

theorem SameOrigin.refl (c : Creds) : c.SameOrigin c := ⟨rfl, rfl, rfl, rfl⟩

theorem SameOrigin.trans {c₁ c₂ c₃ : Creds} (h₁ : c₁.SameOrigin c₂) (h₂ : c₂.SameOrigin c₃) :
    c₁.SameOrigin c₃ where
  ruid := h₂.ruid.trans h₁.ruid
  suid := h₂.suid.trans h₁.suid
  rgid := h₂.rgid.trans h₁.rgid
  sgid := h₂.sgid.trans h₁.sgid

theorem sameOrigin_of_seteuid (h : c.seteuid uid = some c') : c.SameOrigin c' := by
  obtain ⟨-, rfl⟩ := seteuid_eq_some_iff.mp h
  exact ⟨rfl, rfl, rfl, rfl⟩

theorem sameOrigin_of_setegid (h : c.setegid gid = some c') : c.SameOrigin c' := by
  obtain ⟨-, rfl⟩ := setegid_eq_some_iff.mp h
  exact ⟨rfl, rfl, rfl, rfl⟩

/-- **The way back is always open**: a process whose effective ids were its saved ones gets them
back, the user first and then the group, from whatever effective ids it has taken on. -/
theorem exists_restore (h : c.SameOrigin c') (hu : c.euid = c.suid) (hg : c.egid = c.sgid) :
    ∃ c₁, c'.seteuid c.suid = some c₁ ∧ c₁.setegid c.sgid = some c := by
  refine ⟨{ c' with euid := c.suid }, ?_, ?_⟩
  · rw [← h.suid]
    exact seteuid_saved c'
  · rw [← h.sgid, setegid_eq_some_iff]
    refine ⟨Or.inr (Or.inr rfl), ?_⟩
    rw [Creds.mk.injEq]
    exact ⟨h.ruid, hu.symm, h.suid, h.rgid, h.sgid.trans hg.symm, h.sgid⟩

end Creds

end Posix
