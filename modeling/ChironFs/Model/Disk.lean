import ChironFs.Model.Kernel

/-!
# Files and descriptors

* `FlagRules`: what a file system makes of the flags word of an `open`: what it asks for, when it
  fails, and what can be read and written through the descriptor.
* `Disk`: the files of a replica, and the descriptors the daemon holds there, each with the flags
  word it was opened with.
* `Volume`: what a disk does not decide by its files: its rules for flags words, whether a file may
  be created, which calls fail, and the number of a new descriptor.
* `Volume.run`: the calls that create, open, read and write files; `Volume.backend`: these as a file
  system, and `disks` as those of all replicas.

The daemon runs with `umask(0)`. An access mode with flags of creation does the same everywhere;
what the other flags do (`O_APPEND`, `O_DIRECT`, `O_DIRECTORY`, …) is the file system's own.
-/

namespace ChironFs

open Posix

variable {n : ℕ}

def ENOENT : Errno := { val := 2 }
def EEXIST : Errno := { val := 17 }
def ENOSPC : Errno := { val := 28 }

def O_RDONLY : ℕ := 0
def O_WRONLY : ℕ := 1
def O_RDWR : ℕ := 2

/-- The access mode of a flags word. -/
def accessMode (flags : ℕ) : ℕ := flags &&& 3

/-- `O_CREAT | O_EXCL | O_NOCTTY | O_TRUNC`. -/
def creationFlags : ℕ := 0o1700

/-- `O_CREAT | O_WRONLY | O_TRUNC`. -/
def O_CREAT_WRONLY_TRUNC : ℕ := 0o1101

/-- The access mode allows `pread`. -/
def letsRead (flags : ℕ) : Bool := accessMode flags = O_RDONLY || accessMode flags = O_RDWR

/-- The access mode allows `pwrite`. -/
def letsWrite (flags : ℕ) : Bool := accessMode flags = O_WRONLY || accessMode flags = O_RDWR

/-- An access mode and flags of creation, and nothing else. -/
def PlainFlags (flags : ℕ) : Prop := flags &&& (3 ||| creationFlags) = flags

instance (flags : ℕ) : Decidable (PlainFlags flags) := inferInstanceAs (Decidable (_ = _))

/-- What a file system makes of the flags word of an `open`, for a regular file: the rights it asks
for; why it fails, with these rights and without them; why `pread` and `pwrite` through the
descriptor fail; where in a file of some length `pwrite` puts its bytes. -/
structure FlagRules where
  wants : ℕ → ℕ
  refuse : ℕ → Bool → Option Errno
  readErr : ℕ → ℕ → ℤ → Option Errno
  writeErr : ℕ → List UInt8 → ℤ → Option Errno
  place : ℕ → ℕ → ℤ → ℕ
  refuse_false : ∀ flags, refuse flags false ≠ none
  -- the limit of descriptors is not the doing of the flags
  refuse_ne : ∀ flags granted, refuse flags granted ≠ some EMFILE
  readErr_of : ∀ flags, letsRead flags = false →
    ∀ size offset, readErr flags size offset = some EBADF
  writeErr_of : ∀ flags, letsWrite flags = false →
    ∀ buf offset, writeErr flags buf offset = some EBADF
  plain_wants : ∀ flags, PlainFlags flags → wants flags = openMask flags
  plain_refuse : ∀ flags, PlainFlags flags →
    ∀ granted, refuse flags granted = if granted then none else some EACCES
  plain_read : ∀ flags, PlainFlags flags → letsRead flags = true →
    ∀ size offset, readErr flags size offset = none
  plain_write : ∀ flags, PlainFlags flags → letsWrite flags = true →
    ∀ buf offset, writeErr flags buf offset = none
  plain_place : ∀ flags, PlainFlags flags →
    ∀ length offset, place flags length offset = offset.toNat

/-- An open file: its name, the flags word, and the rules of the file system it is on. -/
structure Desc where
  fname : Path
  flags : ℕ
  rules : FlagRules

/-- The files of a replica, and the descriptors the daemon holds there. -/
structure Disk where
  files : Path → Option File
  fds : List (ℕ × Desc)

namespace Disk

variable (s : Disk)

/-- The open file a descriptor stands for. -/
def desc (fd : ℤ) : Option Desc := (s.fds.find? fun p => (p.1 : ℤ) = fd).map Prod.snd

/-- Change a file. -/
def setFile (fname : Path) (file : File) : Disk :=
  { s with files := Function.update s.files fname (some file) }

end Disk

/-- The bytes of a file after a `pwrite`; a hole reads as zeros. -/
def writeAt (bytes buf : List UInt8) (offset : ℕ) : List UInt8 :=
  bytes.take offset ++ List.replicate (offset - bytes.length) 0 ++ buf ++
    bytes.drop (offset + buf.length)

/-- What a disk does not decide by its files: `rules`, for flags words; `refuse`, why a file cannot
be created; `fault`, the failures of `pread` and `pwrite` that have nothing to do with the
descriptor; `fresh`, the number of a new descriptor. -/
structure Volume where
  rules : FlagRules
  refuse : Creds → Path → Option Errno
  fault : Call → Option Errno
  fresh : List (ℕ × Desc) → ℕ
  fresh_unused : ∀ l, ∀ p ∈ l, p.1 ≠ fresh l

/-- A new file. -/
def newFile (cr : Creds) (mode : ℕ) : File :=
  ({ owner := cr.euid, group := cr.egid, mode := mode &&& 0o7777 }, [])

namespace Volume

variable (v : Volume) (groups : List ℕ)

/-- A new descriptor. -/
def opened (s : Disk) (fname : Path) (flags : ℕ) : Reply × Disk :=
  ({ ret := v.fresh s.fds },
    { s with fds := (v.fresh s.fds, { fname := fname, flags := flags, rules := v.rules }) :: s.fds })

/-- A new file and a descriptor for it. -/
def create (cr : Creds) (s : Disk) (fname : Path) (mode flags : ℕ) :
    Except Errno (Reply × Disk) :=
  match v.refuse cr fname with
  | some e => .error e
  | none => .ok (v.opened (s.setFile fname (newFile cr mode)) fname flags)

/-- The calls of `create`, `mknod`, `open`, `read` and `write`: the answer and what is left.
Fidelity: `creat` is `open` with `O_CREAT|O_WRONLY|O_TRUNC`; the one other call with a mode has
`O_CREAT|O_EXCL|O_WRONLY`. An `open` without a mode comes without `O_TRUNC`, as libfuse sends it. -/
def run (cr : Creds) (c : Call) (s : Disk) : Except Errno (Reply × Disk) :=
  match c with
  | .creat fname mode =>
      match s.files fname with
      | none => v.create cr s fname mode O_CREAT_WRONLY_TRUNC
      | some file =>
          if (Check.access file.1 W_OK).passes (c.subject cr groups) then
            .ok (v.opened (s.setFile fname (file.1, [])) fname O_CREAT_WRONLY_TRUNC)
          else .error EACCES
  | .open fname flags (some mode) =>
      match s.files fname with
      | none => v.create cr s fname mode flags
      | some _ => .error EEXIST
  | .open fname flags none =>
      match s.files fname with
      | none => .error ENOENT
      | some file =>
          match v.rules.refuse flags
            ((Check.access file.1 (v.rules.wants flags)).passes (c.subject cr groups)) with
          | some e => .error e
          | none => .ok (v.opened s fname flags)
  | .pread fd size offset =>
      match s.desc fd with
      | none => .error EBADF
      | some x =>
          match (x.rules.readErr x.flags size offset).or (v.fault c) with
          | some e => .error e
          | none =>
              let out := (((s.files x.fname).elim [] Prod.snd).drop offset.toNat).take size
              .ok ({ ret := out.length, out := out }, s)
  | .pwrite fd buf offset =>
      match s.desc fd with
      | none => .error EBADF
      | some x =>
          match (x.rules.writeErr x.flags buf offset).or (v.fault c) with
          | some e => .error e
          | none =>
              .ok ({ ret := buf.length }, match s.files x.fname with
                | none => s
                | some file => s.setFile x.fname
                    (file.1, writeAt file.2 buf (x.rules.place x.flags file.2.length offset)))
  | _ => .error ENOSYS

/-- The file system on such a disk, for a process with these supplementary groups. -/
def backend : Backend Disk where
  answer cr c s := (v.run groups cr c s).map Prod.fst
  call cr c res s :=
    match res, v.run groups cr c s with
    | .ok _, .ok p => p.2
    | _, _ => s
  close fd s := { s with fds := s.fds.filter fun p => (p.1 : ℤ) ≠ fd }

end Volume

/-- What a request finds on such disks. -/
def disks (groups : List ℕ) (env : Env n) (v : Fin n → Volume) : Setting n Disk where
  env := env
  backend := fun i => (v i).backend groups

end ChironFs
