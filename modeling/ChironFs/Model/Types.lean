import ChironFs.Lib.Credentials
import ChironFs.Lib.Round

/-!
# The data of the daemon

* `Replica`, `Config n`: `replica_t` and `struct chironfs_config`, for `n = max_replica` replicas.
  Replicas are indexed by `Fin n`, so the tables of replica numbers hold valid indices by type.
* `Call`, `Reply`: the system calls made on a replica and what a successful one hands back.
* `Env n`: everything one request finds outside the program: the caller that `fuse_get_context`
  names, the allocations, the answers of the replicas, refused credential calls.
* `Event n`: what a request does that can be seen from outside, in order. The replica number in an
  event is the model's own annotation: the program works with path names and descriptors.
* `Daemon n`, `Outcome n`: the state between requests and what a request leaves behind.

C strings are NUL-free byte lists (`Path`), `NULL` is `none`. Sizes and counts that cannot wrap are
`ℕ` or `ℤ`: libfuse cuts requests to at most `max_write` bytes, so the byte counts of `pread` and
`pwrite` fit in the `int` the handlers return.
-/

namespace ChironFs

open Posix

/-- A C string: its bytes before the terminating NUL. -/
abbrev Path := List UInt8

/-- Equality of replica numbers, under a name of its own: the membership tests of all modules then
carry the same proof. -/
instance lawfulBEqReplica (n : ℕ) : LawfulBEq (Fin n) := inferInstance

/-! ## Error numbers -/

/-- A value `errno` can have after a failed call. -/
structure Errno where
  val : ℕ
  pos : 0 < val := by decide
deriving DecidableEq, Repr

namespace Errno

/-- The value the handlers store and return: `-errno`. -/
def neg (e : Errno) : ℤ := -(e.val : ℤ)

theorem neg_lt_zero (e : Errno) : e.neg < 0 := by
  have := e.pos
  unfold neg
  omega

theorem neg_ne_zero (e : Errno) : e.neg ≠ 0 := e.neg_lt_zero.ne

/-- The value tells the error. -/
theorem neg_injective : Function.Injective neg := by
  rintro ⟨val, _⟩ ⟨val', _⟩ h
  have heq : val = val' := Int.ofNat_inj.mp (Int.neg_inj.mp h)
  subst heq
  rfl

end Errno

def EBADF : Errno := { val := 9 }
def ENOMEM : Errno := { val := 12 }
def EINVAL : Errno := { val := 22 }
def EMFILE : Errno := { val := 24 }
def ENOSYS : Errno := { val := 38 }

/-! ## Configuration -/

/-- One replica. Source: `chiron-types.h`, `replica_t`. -/
structure Replica where
  path : Option Path
  totrd : UInt64 := 0
  totwr : UInt64 := 0
  pathlen : ℕ := 0
  disabled : Bool := false
  priority : Bool := false

/-- The configuration and the shared state of the daemon, for `n = max_replica`.
Source: `fs.h`, `struct chironfs_config`; `chiron-types.h`, `fd_t`
Fidelity: `tabFd` is the memory from `tab_fd.fd` on: cell `k < fdBufSize` is slot `k` of the
table, the cells behind it are memory the program does not own. The round-robin tables are the
filled part of the arrays. `mountpoint`, `ctl_socket_name` and `tab_fd.used` are left out: no
request reads them. -/
structure Config (n : ℕ) where
  maxReplicaHigh : ℕ
  maxReplicaLow : ℕ
  currReplicaHigh : ℕ
  currReplicaLow : ℕ
  roundRobinHigh : List (Fin n)
  roundRobinLow : List (Fin n)
  replicas : Fin n → Replica
  tabFd : ℕ → Option (Fin n → ℤ)
  uid : ℕ
  gid : ℕ
  fdBufSize : UInt64

/-! ## Calls on the replicas -/

/-- The system calls the handlers make on a replica (`close` is an event of its own). -/
inductive Call
  | open (fname : Path) (flags : ℕ) (mode : Option ℕ)
  | creat (fname : Path) (mode : ℕ)
  | pread (fd : ℤ) (size : ℕ) (offset : ℤ)
  | pwrite (fd : ℤ) (buf : List UInt8) (offset : ℤ)
  | lstat (fname : Path)
  | access (fname : Path) (mask : ℕ)
  | readlink (fname : Path) (size : ℕ)
  | opendir (fname : Path) (offset : ℤ)
  | mkfifo (fname : Path) (mode : ℕ)
  | truncate (fname : Path) (size : ℤ)
  | chmod (fname : Path) (mode : ℕ)
  | lchown (fname : Path) (uid gid : ℕ)
  | utime (fname : Path) (times : Option (ℤ × ℤ))
  | rmdir (fname : Path)
  | unlink (fname : Path)
  | mkdir (fname : Path) (mode : ℕ)
  | symlink (target fname : Path)
  | rename (fnameFrom fnameTo : Path)
  | link (fnameFrom fnameTo : Path)
deriving DecidableEq, Repr

/-- What a successful call hands back: its non-negative result (a descriptor, a byte count), the
bytes it stores in its output buffer, and for a directory stream the names it yields. -/
structure Reply where
  ret : ℕ := 0
  out : List UInt8 := []
  names : List Path := []
deriving DecidableEq, Repr

/-- The four credential calls of a request. -/
inductive CredCall
  | dropGid
  | dropUid
  | backUid
  | backGid
deriving DecidableEq, Repr

/-- What one request finds outside the program.
`refuse k` makes a credential call fail although the rules allow it; `calloc k` and `malloc i k`
say whether the `k`-th `calloc` of the request, or the `k`-th `xlate` for replica `i`, gets its
memory. -/
structure Env (n : ℕ) where
  uid : ℕ
  gid : ℕ
  refuse : CredCall → Bool
  calloc : ℕ → Bool
  malloc : Fin n → ℕ → Bool
  call : Creds → Fin n → Call → Except Errno Reply
  close : Fin n → ℤ → Except Errno Unit

/-- What `_log` is asked to name: a replica's path, or a fixed text. -/
inductive Resource
  | path (p : Option Path)
  | text (s : String)
deriving DecidableEq, Repr

/-- What a request does that can be seen from outside. A log line about one replica carries that
replica's number. -/
inductive Event (n : ℕ)
  | setegid (gid : ℕ) (ok : Bool)
  | seteuid (uid : ℕ) (ok : Bool)
  | call (creds : Creds) (replica : Fin n) (c : Call) (result : Except Errno Reply)
  | close (creds : Creds) (replica : Fin n) (fd : ℤ) (result : Except Errno Unit)
  | log (replica : Option (Fin n)) (fnname : String) (resource : Resource) (err : ℤ)

/-- The daemon between two requests. -/
structure Daemon (n : ℕ) where
  config : Config n
  creds : Creds

/-- What a request hands to FUSE: the value it returns, the bytes it stored in the caller's
buffer, the directory entries it passed to the filler. -/
structure Response where
  ret : ℤ
  out : List UInt8 := []
  names : List Path := []
deriving DecidableEq, Repr

/-- What a request leaves behind; `fh` is `fi->fh` where the request sets it. -/
structure Outcome (n : ℕ) where
  daemon : Daemon n
  response : Response
  fh : Option ℕ := none
  trace : List (Event n)

/-! ## Updates of the configuration -/

namespace Config

variable {n : ℕ} (c : Config n)

/-- The replica takes part in requests. -/
def enabled (i : Fin n) : Prop := (c.replicas i).disabled = false

instance (i : Fin n) : Decidable (c.enabled i) := by unfold enabled; infer_instance

theorem not_enabled_iff {c : Config n} {i : Fin n} :
    ¬ c.enabled i ↔ (c.replicas i).disabled = true := by
  simp [enabled]

/-- Change one replica. -/
def setReplica (i : Fin n) (r : Replica) : Config n :=
  { c with replicas := Function.update c.replicas i r }

/-- Store into one slot of the handle table. -/
def setSlot (k : ℕ) (v : Option (Fin n → ℤ)) : Config n :=
  { c with tabFd := Function.update c.tabFd k v }

@[simp] theorem setReplica_replicas (i : Fin n) (r : Replica) :
    (c.setReplica i r).replicas = Function.update c.replicas i r := rfl

@[simp] theorem setSlot_replicas (k : ℕ) (v : Option (Fin n → ℤ)) :
    (c.setSlot k v).replicas = c.replicas := rfl

end Config

end ChironFs
