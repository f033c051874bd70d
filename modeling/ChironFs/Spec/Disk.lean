import ChironFs.Model.Disk

/-!
# Calls on a disk

What `creat`, `open` and `close` do to a disk where the file is new, and what the descriptor they
return is good for.
-/

namespace ChironFs

open Posix

namespace Volume

variable {v : Volume} {groups : List ℕ} {cr : Creds} {s : Disk} {fname : Path} {mode flags : ℕ}

/-- `creat` of a file that is not there. -/
theorem run_creat (h : s.files fname = none) :
    v.run groups cr (.creat fname mode) s = v.create cr s fname mode O_CREAT_WRONLY_TRUNC := by
  simp only [run, h]

/-- The `open` of `mknod`. -/
theorem run_open_new (h : s.files fname = none) :
    v.run groups cr (.open fname flags (some mode)) s = v.create cr s fname mode flags := by
  simp only [run, h]

/-- `open` of a file that is there. -/
theorem run_open {file : File} (h : s.files fname = some file) :
    v.run groups cr (.open fname flags none) s =
      match v.rules.refuse flags
        ((Check.access file.1 (v.rules.wants flags)).passes ⟨cr.euid, cr.egid, groups⟩) with
      | some e => .error e
      | none => .ok (v.opened s fname flags) := by
  simp only [run, h]
  rfl

/-- Nothing stands in the way of a new file. -/
theorem create_of_none (h : v.refuse cr fname = none) :
    v.create cr s fname mode flags =
      .ok (v.opened (s.setFile fname (newFile cr mode)) fname flags) := by
  simp only [create, h]

/-- A descriptor that is closed at once. -/
theorem close_opened :
    (v.backend groups).close (v.fresh s.fds) (v.opened s fname flags).2 = s := by
  have hrest : s.fds.filter (fun p => (p.1 : ℤ) ≠ v.fresh s.fds) = s.fds := by
    rw [List.filter_eq_self]
    intro p hp
    simpa using v.fresh_unused s.fds p hp
  simp only [backend, opened]
  rw [List.filter_cons_of_neg (by simp), hrest]

/-- What a call leaves, when the answer is the disk's own. -/
theorem backend_call_answer (c : Call) :
    (v.backend groups).call cr c ((v.backend groups).answer cr c s) s =
      (v.run groups cr c s).toOption.elim s Prod.snd := by
  simp only [backend]
  cases v.run groups cr c s <;> rfl

/-- A new descriptor stands for the file it was opened for. -/
theorem desc_opened :
    (v.opened s fname flags).2.desc (v.fresh s.fds) = some ⟨fname, flags, v.rules⟩ := by
  unfold Disk.desc opened
  rw [List.find?_cons_of_pos (by simp)]
  rfl

end Volume

/-- A word without its flags of creation keeps its access mode. -/
theorem accessMode_clear (flags : ℕ) {mask : ℕ} (h : mask &&& 3 = 0) :
    accessMode (flags ^^^ (flags &&& mask)) = accessMode flags := by
  unfold accessMode
  rw [Nat.and_xor_distrib_right, Nat.and_assoc, h, Nat.and_zero, Nat.xor_zero]

end ChironFs
