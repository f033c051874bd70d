import ChironFs.Lib.Permissions
import ChironFs.Model.Stores

/-!
# File systems with permissions

* `Kernel S`: a file system whose answers go by permission checks, and `Kernel.backend`: the same
  for a process with given supplementary groups.
* `Host n S`: what one request finds, whatever the supplementary groups of the daemon.

`access` checks the real ids of the process, every other call the effective ones. `seteuid` and
`setegid` leave the supplementary groups alone, so the daemon makes all its calls with those it was
started with.
-/

namespace ChironFs

open Posix

variable {n : ℕ} {S : Type*}

/-- Who makes a call. -/
def Call.subject (cr : Creds) (groups : List ℕ) : Call → Subject
  | .access .. => { uid := cr.ruid, gid := cr.rgid, groups := groups }
  | _ => { uid := cr.euid, gid := cr.egid, groups := groups }

/-- `EACCES`. -/
def EACCES : Errno := { val := 13 }

/-- A file: its owner, group and mode, and its bytes. -/
abbrev File := Inode × List UInt8

/-- The rights an access mode needs. -/
def openMask (flags : ℕ) : ℕ :=
  match flags &&& 3 with
  | 0 => R_OK
  | 1 => W_OK
  | _ => R_OK ||| W_OK

/-- A file system: the checks a call comes to, its answer when they have ended, and what a call that
succeeds leaves; a call that fails leaves the store as it was. -/
structure Kernel (S : Type*) where
  checks : Call → S → List Check
  answer : Creds → Call → S → List Bool → Except Errno Reply
  effect : Creds → Call → S → List Bool → Reply → S
  close : ℤ → S → S := fun _ s => s

namespace Kernel

variable (k : Kernel S) (groups : List ℕ)

/-- How the checks of a call end. -/
def verdicts (cr : Creds) (c : Call) (s : S) : List Bool :=
  (k.checks c s).map (Check.passes (c.subject cr groups))

/-- The file system for a process with these supplementary groups. -/
def backend : Backend S where
  answer cr c s := k.answer cr c s (k.verdicts groups cr c s)
  call cr c res s :=
    match res with
    | .ok r => k.effect cr c s (k.verdicts groups cr c s) r
    | .error _ => s
  close := k.close

end Kernel

/-- What one request finds: the environment but for its `call`, and the file systems. -/
structure Host (n : ℕ) (S : Type*) where
  env : Env n
  kernel : Fin n → Kernel S

/-- The same for a daemon with these supplementary groups. -/
def Host.setting (x : Host n S) (groups : List ℕ) : Setting n S where
  env := x.env
  backend := fun i => (x.kernel i).backend groups

/-- One more request to a daemon with these supplementary groups. -/
def Cluster.stepIn (groups : List ℕ) (s : Cluster n S) (a : Request × Host n S) :
    Option (Cluster n S) :=
  s.step (a.1, a.2.setting groups)

/-- What it returns. -/
def Cluster.respondIn (groups : List ℕ) (s : Cluster n S) (a : Request × Host n S) :
    Option Response :=
  s.respond (a.1, a.2.setting groups)

end ChironFs
