import Mathlib

/-!
# Permission checks

Who asks (`Subject`: a user, a group and the supplementary groups), what is asked (`Check`), and the
rule of POSIX (`Check.passes`): user `0` passes every check; the permission bits of a file are read
in its owner's class, else in its group's class if the subject is in that group, else in the class of
the others.

* `Check.Indifferent`: two lists of supplementary groups that a check cannot tell apart.
* `passes_eq_iff`: these are the lists with which the check ends alike.
-/

namespace Posix

/-- Who a check is about. -/
structure Subject where
  uid : ℕ
  gid : ℕ
  groups : List ℕ
deriving DecidableEq, Repr

/-- The owner, the group and the mode of a file or directory. -/
structure Inode where
  owner : ℕ
  group : ℕ
  mode : ℕ
deriving DecidableEq, Repr

/-- What may be asked: the rights `mask` (read `4`, write `2`, search or execute `1`) on a file, or
being in a group (to give a file to it, to keep its set-group-id bit). -/
inductive Check
  | access (node : Inode) (mask : ℕ)
  | member (gid : ℕ)
deriving DecidableEq, Repr

def R_OK : ℕ := 4
def W_OK : ℕ := 2

namespace Inode

variable (node : Inode)

/-- The bits of the three classes. -/
def ownerBits : ℕ := node.mode >>> 6 &&& 7

def groupBits : ℕ := node.mode >>> 3 &&& 7

def otherBits : ℕ := node.mode &&& 7

end Inode

/-- The bits grant all rights of the mask. -/
def Grants (bits mask : ℕ) : Prop := mask &&& bits = mask

instance (bits mask : ℕ) : Decidable (Grants bits mask) := by unfold Grants; infer_instance

/-- The subject is in the group. -/
def Subject.InGroup (s : Subject) (gid : ℕ) : Prop := gid = s.gid ∨ gid ∈ s.groups

instance (s : Subject) (gid : ℕ) : Decidable (s.InGroup gid) := by
  unfold Subject.InGroup; infer_instance

/-- The bits of the subject's class. -/
def Inode.bitsFor (node : Inode) (s : Subject) : ℕ :=
  if s.uid = node.owner then node.ownerBits
  else if s.InGroup node.group then node.groupBits
  else node.otherBits

namespace Check

/-- The answer to a check. -/
def passes (s : Subject) : Check → Bool
  | access node mask => s.uid = 0 ∨ Grants (node.bitsFor s) mask
  | member gid => s.uid = 0 ∨ s.InGroup gid

theorem passes_of_root {s : Subject} (h : s.uid = 0) (ch : Check) : ch.passes s = true := by
  cases ch <;> simp [passes, h]

/-- The check of user `uid` with group `gid` cannot tell the supplementary groups `g₁` from `g₂`: the
user is the superuser or the owner, the group is the user's own or in both lists or in neither, or
its members have the rights exactly if the others have them. -/
def Indifferent (uid gid : ℕ) (g₁ g₂ : List ℕ) : Check → Prop
  | access node mask =>
      uid = 0 ∨ uid = node.owner ∨ node.group = gid ∨ (node.group ∈ g₁ ↔ node.group ∈ g₂) ∨
        (Grants node.groupBits mask ↔ Grants node.otherBits mask)
  | member group => uid = 0 ∨ group = gid ∨ (group ∈ g₁ ↔ group ∈ g₂)

instance (uid gid : ℕ) (g₁ g₂ : List ℕ) (ch : Check) : Decidable (ch.Indifferent uid gid g₁ g₂) := by
  cases ch <;> unfold Indifferent <;> infer_instance

/-- The bits for somebody who is neither the superuser nor the owner, nor of the file's group. -/
theorem bitsFor_of_ne {node : Inode} {uid gid : ℕ} (ho : uid ≠ node.owner) (hg : node.group ≠ gid)
    (groups : List ℕ) :
    node.bitsFor ⟨uid, gid, groups⟩ =
      if node.group ∈ groups then node.groupBits else node.otherBits := by
  unfold Inode.bitsFor Subject.InGroup
  rw [if_neg ho]
  simp only [hg, false_or]

/-- **When a check ends alike** with two lists of supplementary groups. -/
theorem passes_eq_iff {uid gid : ℕ} {g₁ g₂ : List ℕ} {ch : Check} :
    ch.passes ⟨uid, gid, g₁⟩ = ch.passes ⟨uid, gid, g₂⟩ ↔ ch.Indifferent uid gid g₁ g₂ := by
  cases ch with
  | access node mask =>
      by_cases hroot : uid = 0
      · simp [passes, Indifferent, hroot]
      by_cases howner : uid = node.owner
      · simp [passes, Indifferent, Inode.bitsFor, howner]
      by_cases hgid : node.group = gid
      · simp [passes, Indifferent, Inode.bitsFor, Subject.InGroup, hgid]
      -- now only the two lists decide the class
      simp only [passes, Indifferent, bitsFor_of_ne howner hgid, hroot, howner, hgid, false_or,
        decide_eq_decide]
      by_cases h₁ : node.group ∈ g₁ <;> by_cases h₂ : node.group ∈ g₂ <;> simp [h₁, h₂, iff_comm]
  | member group =>
      by_cases hroot : uid = 0
      · simp [passes, Indifferent, hroot]
      by_cases hgid : group = gid
      · simp [passes, Indifferent, Subject.InGroup, hgid]
      simp only [passes, Indifferent, Subject.InGroup, hroot, hgid, false_or, decide_eq_decide]

end Check

end Posix
