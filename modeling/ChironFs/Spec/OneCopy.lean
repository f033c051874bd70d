import ChironFs.Spec.Requests

/-!
# One file system

What the replicas together are meant to be: a single file system that serves the same requests.

* `FileSystem S F`: a deterministic store of type `S`, whose open files are values of type `F`.
  By the types of its operations a query changes nothing, a failed operation changes nothing, and
  `pwrite` stores the whole buffer or fails.
* `FileSystem.exec`: one call, with names that start at the root of the file system.
* `Copy`, `FileSystem.serve`: a fault-free copy and its open files; how it answers a request.
* `Request.callAt`: the call of a request, from the root of a replica and the descriptor there.
  `callAt_of_call` connects it with the handlers; `exec_relative` says that roots and descriptors
  are all that tells the calls on two replicas apart.
-/

namespace ChironFs

open Posix Replication

variable {n : ℕ}

/-! ## Stores -/

/-- A deterministic store. The operations that take a `Call` are only used for calls of their
kind. -/
structure FileSystem (S F : Type*) where
  /-- `open`, `creat`: they may create or truncate the file. -/
  openFile : Creds → Call → S → Except Errno (S × F)
  pread : F → ℕ → ℤ → S → Except Errno Reply
  pwrite : F → List UInt8 → ℤ → S → Except Errno S
  /-- `lstat`, `access`, `readlink`, `opendir`. -/
  query : Creds → Call → S → Except Errno Reply
  /-- The other calls on names. -/
  update : Creds → Call → S → Except Errno S

/-- What a successful call leaves: the store, the reply, the file it opened. -/
structure Answer (S F : Type*) where
  store : S
  reply : Reply
  opened : Option F := none

/-- The kind of a call. -/
inductive CallKind
  | opening
  | reading (size : ℕ) (offset : ℤ)
  | writing (buf : List UInt8) (offset : ℤ)
  | query
  | update

/-- What sort of operation a call is. -/
def Call.kind : Call → CallKind
  | .open .. | .creat .. => .opening
  | .pread _ size offset => .reading size offset
  | .pwrite _ buf offset => .writing buf offset
  | .lstat .. | .access .. | .readlink .. | .opendir .. => .query
  | _ => .update

namespace FileSystem

variable {S F : Type*} (fs : FileSystem S F)

/-- One call; `f` is the open file that the call's descriptor refers to. -/
def exec (cr : Creds) (c : Call) (f : Option F) (s : S) : Except Errno (Answer S F) :=
  match c.kind, f with
  | .opening, _ => (fs.openFile cr c s).map fun a => { store := a.1, reply := {}, opened := some a.2 }
  | .reading size offset, some f =>
      (fs.pread f size offset s).map fun r => { store := s, reply := r }
  | .writing buf offset, some f =>
      (fs.pwrite f buf offset s).map fun s => { store := s, reply := { ret := buf.length } }
  | .reading .., none | .writing .., none => .error EBADF
  | .query, _ => (fs.query cr c s).map fun r => { store := s, reply := r }
  | .update, _ => (fs.update cr c s).map fun s => { store := s, reply := {} }

end FileSystem

/-! ## The call of a request -/

/-- The call of a request on a replica with this root, whose descriptor for the request's handle is
`fd`. -/
def Request.callAt (root : Path) (fd : ℤ) : Request → Option Call
  | .open path flags => some (.open (root ++ path) flags none)
  | .create path mode => some (.creat (root ++ path) mode)
  | .release _ => none
  | .read _ size offset => some (.pread fd size offset)
  | .write _ buf offset => some (.pwrite fd buf offset)
  | .getattr path => some (.lstat (root ++ path))
  | .access path mask => some (.access (root ++ path) mask)
  | .readlink path size => some (.readlink (root ++ path) size)
  | .readdir path offset _ => some (.opendir (root ++ path) offset)
  | .mknod path mode _ =>
      if sIsReg mode then some (.open (root ++ path) O_CREAT_EXCL_WRONLY (some mode))
      else if sIsFifo mode then some (.mkfifo (root ++ path) mode)
      else none
  | .truncate path size => some (.truncate (root ++ path) size)
  | .chmod path mode => some (.chmod (root ++ path) mode)
  | .chown path uid gid => some (.lchown (root ++ path) uid gid)
  | .utime path times => some (.utime (root ++ path) times)
  | .rmdir path => some (.rmdir (root ++ path))
  | .unlink path => some (.unlink (root ++ path))
  | .mkdir path mode => some (.mkdir (root ++ path) mode)
  | .symlink a b => some (.symlink a (root ++ b))
  | .rename a b => some (.rename (root ++ a) (root ++ b))
  | .link a b => some (.link (root ++ a) (root ++ b))

/-- The call of a request on a single copy. -/
def Request.plainCall (q : Request) : Option Call := q.callAt [] 0

/-- The root of a replica. -/
def Config.root (c : Config n) (i : Fin n) : Path := (c.replicas i).path.getD []

/-- The descriptor on replica `i` of the handle a request comes with. -/
def Request.fdOn (c : Config n) (q : Request) (i : Fin n) : ℤ :=
  ((q.uses.bind c.tabFd).map fun fd => fd i).getD 0

/-- The descriptor a call is made on. -/
def Call.fd? : Call → Option ℤ
  | .pread fd .. | .pwrite fd .. => some fd
  | _ => none

/-- The call with the names below the root of its replica. -/
def Call.relative (root : Path) : Call → Call
  | .open fname flags mode => .open (fname.drop root.length) flags mode
  | .creat fname mode => .creat (fname.drop root.length) mode
  | .pread fd size offset => .pread fd size offset
  | .pwrite fd buf offset => .pwrite fd buf offset
  | .lstat fname => .lstat (fname.drop root.length)
  | .access fname mask => .access (fname.drop root.length) mask
  | .readlink fname size => .readlink (fname.drop root.length) size
  | .opendir fname offset => .opendir (fname.drop root.length) offset
  | .mkfifo fname mode => .mkfifo (fname.drop root.length) mode
  | .truncate fname size => .truncate (fname.drop root.length) size
  | .chmod fname mode => .chmod (fname.drop root.length) mode
  | .lchown fname uid gid => .lchown (fname.drop root.length) uid gid
  | .utime fname times => .utime (fname.drop root.length) times
  | .rmdir fname => .rmdir (fname.drop root.length)
  | .unlink fname => .unlink (fname.drop root.length)
  | .mkdir fname mode => .mkdir (fname.drop root.length) mode
  | .symlink target fname => .symlink target (fname.drop root.length)
  | .rename a b => .rename (a.drop root.length) (b.drop root.length)
  | .link a b => .link (a.drop root.length) (b.drop root.length)

@[simp] theorem Call.relative_opens (root : Path) (c : Call) : (c.relative root).opens = c.opens := by
  cases c <;> rfl

section calls

variable {S F : Type*} {env : Env n} {c : Config n} {q : Request} {i : Fin n} {cl : Call}

theorem Env.xlate_eq_some {path p : Path} {k : ℕ} (h : env.xlate c path i k = some p) :
    p = c.root i ++ path := by
  obtain ⟨root, hroot, rfl⟩ := Env.exists_root_of_xlate h
  simp [Config.root, hroot]

/-- The call a handler makes on a replica is the one of the request at the replica's root. -/
theorem Request.callAt_of_call (h : q.call env c i = some cl) :
    q.callAt (c.root i) (q.fdOn c i) = some cl := by
  have hname : ∀ {path : Path} {k : ℕ} {f : Path → Call},
      (env.xlate c path i k).map f = some cl → f (c.root i ++ path) = cl := by
    intro path k f hmap
    obtain ⟨p, hp, rfl⟩ := Option.map_eq_some_iff.mp hmap
    rw [Env.xlate_eq_some hp]
  cases q with
  | release => cases h
  | read fh size offset =>
      obtain ⟨fd, hfd, hcl⟩ := Option.bind_eq_some_iff.mp h
      unfold readCall at hcl
      split_ifs at hcl
      simpa [callAt, fdOn, uses, hfd] using hcl
  | write fh buf offset =>
      obtain ⟨fd, hfd, hcl⟩ := Option.bind_eq_some_iff.mp h
      unfold writeCall at hcl
      split_ifs at hcl
      simpa [callAt, fdOn, uses, hfd] using hcl
  | mknod path mode rdev =>
      obtain ⟨p, hp, hcl⟩ := Option.bind_eq_some_iff.mp h
      rw [Env.xlate_eq_some hp] at hcl
      exact hcl
  | rename a b | link a b =>
      obtain ⟨⟨p₁, p₂⟩, hp, rfl⟩ := Option.map_eq_some_iff.mp h
      simp only [Env.xlate₂, Option.bind_eq_bind, Option.bind_eq_some_iff, Option.some.injEq,
        Prod.mk.injEq] at hp
      obtain ⟨_, h₁, _, h₂, rfl, rfl⟩ := hp
      rw [Env.xlate_eq_some h₁, Env.xlate_eq_some h₂]
      rfl
  | _ => exact congrArg some (hname h)

/-- A call has a descriptor if the request comes with a handle. -/
theorem Request.fd?_of_callAt {root : Path} {fd : ℤ} (h : q.callAt root fd = some cl) :
    cl.fd? = q.uses.map fun _ => fd := by
  cases q with
  | release => cases h
  | mknod path mode rdev =>
      simp only [callAt] at h
      split_ifs at h <;> cases h <;> rfl
  | _ => cases h; rfl

/-- Calls that differ in the descriptor only are executed alike. -/
theorem Request.exec_relative (fs : FileSystem S F) {root : Path} {fd : ℤ}
    (h : q.callAt root fd = some cl) :
    ∃ c₀, q.plainCall = some c₀ ∧
      ∀ cr f s, fs.exec cr (cl.relative root) f s = fs.exec cr c₀ f s := by
  cases q with
  | release => cases h
  | mknod path mode rdev =>
      simp only [callAt] at h
      simp only [plainCall, callAt]
      split_ifs at h ⊢
      all_goals
        cases h
        exact ⟨_, rfl, fun _ _ _ => by simp [Call.relative]⟩
  | read | write =>
      cases h
      exact ⟨_, rfl, fun _ f _ => by cases f <;> rfl⟩
  | _ =>
      cases h
      exact ⟨_, rfl, fun _ _ _ => by simp [Call.relative]⟩

end calls

/-! ## Answers of one store -/

namespace FileSystem

variable {S F : Type*} (fs : FileSystem S F)

/-- How one store answers a request whose handle, if any, refers to the file `f`; `none` when it
refuses it. -/
def answer (cr : Creds) (q : Request) (f : Option F) (s : S) : Option (Answer S F) :=
  q.plainCall.bind fun c => (fs.exec cr c f s).toOption

variable {fs} {cr : Creds} {q : Request} {f : Option F} {s : S} {a : Answer S F}

theorem exec_eq_ok_of_answer (h : fs.answer cr q f s = some a) :
    ∃ c, q.plainCall = some c ∧ fs.exec cr c f s = .ok a := by
  obtain ⟨c, hc, ha⟩ := Option.bind_eq_some_iff.mp h
  refine ⟨c, hc, ?_⟩
  cases he : fs.exec cr c f s with
  | error e => rw [he] at ha; cases ha
  | ok a' => rw [he] at ha; exact congrArg _ (Option.some.inj ha)

/-- The call of a handler on a replica, executed there, is the answer of the replica's store. -/
theorem answer_of_call {env : Env n} {c : Config n} {i : Fin n} {cl : Call}
    (hcl : q.call env c i = some cl) (h : fs.exec cr (cl.relative (c.root i)) f s = .ok a) :
    fs.answer cr q f s = some a := by
  obtain ⟨c₀, hc₀, hexec⟩ := Request.exec_relative fs (Request.callAt_of_call hcl)
  rw [answer, hc₀, Option.bind_some, ← hexec, h]
  rfl

/-- Calls that open a file, and only those, have a file in their answer. -/
theorem exec_opening {c : Call} (hc : c.opens = true) (h : fs.exec cr c f s = .ok a) :
    ∃ g, a.opened = some g := by
  have hk : c.kind = .opening := by cases c <;> first | rfl | cases hc
  simp only [exec, hk] at h
  cases ho : fs.openFile cr c s with
  | error e => rw [ho] at h; cases h
  | ok r =>
      rw [ho] at h
      cases h
      exact ⟨_, rfl⟩

theorem exec_not_opening {c : Call} (hc : c.opens = false) (h : fs.exec cr c f s = .ok a) :
    a.opened = none := by
  unfold exec at h
  split at h
  · cases c <;> simp_all [Call.kind, Call.opens]
  · cases hp : fs.pread _ _ _ _ <;> rw [hp] at h <;> cases h
    rfl
  · cases hp : fs.pwrite _ _ _ _ <;> rw [hp] at h <;> cases h
    rfl
  · cases h
  · cases h
  · cases hp : fs.query _ _ _ <;> rw [hp] at h <;> cases h
    rfl
  · cases hp : fs.update _ _ _ <;> rw [hp] at h <;> cases h
    rfl

/-- `open` and `create` open a file. -/
theorem opened_of_opens (hop : q.opens = true) (h : fs.answer cr q f s = some a) :
    ∃ g, a.opened = some g := by
  obtain ⟨c, hc, he⟩ := exec_eq_ok_of_answer h
  cases q with
  | «open» | create =>
      cases hc
      exact exec_opening rfl he
  | _ => cases hop

/-- A request that opens a file has the same response whatever the reply. -/
theorem respond_of_opened (h : fs.answer cr q f s = some a) {g : F} (hg : a.opened = some g)
    (r r' : Reply) : q.respond r = q.respond r' := by
  obtain ⟨c, hc, he⟩ := exec_eq_ok_of_answer h
  cases q with
  | read | write | getattr | readlink | readdir =>
      cases hc
      rw [exec_not_opening rfl he] at hg
      cases hg
  | _ => rfl

/-- The requests that stop at the first answer change nothing and open nothing. -/
theorem answer_of_searches (hse : q.searches = true) (h : fs.answer cr q f s = some a) :
    a.store = s ∧ a.opened = none := by
  obtain ⟨c, hc, he⟩ := exec_eq_ok_of_answer h
  cases q with
  | read fh size offset =>
      cases hc
      refine ⟨?_, exec_not_opening rfl he⟩
      cases f with
      | none => cases he
      | some f =>
          simp only [exec, Call.kind] at he
          cases hp : fs.pread f size offset s <;> rw [hp] at he <;> cases he
          rfl
  | getattr | access | readlink | readdir =>
      cases hc
      refine ⟨?_, exec_not_opening rfl he⟩
      simp only [exec, Call.kind] at he
      cases hp : fs.query cr _ s <;> rw [hp] at he <;> cases he
      rfl
  | _ => cases hse

end FileSystem

/-! ## A fault-free copy -/

/-- A single copy: its store, and the file every handle refers to. -/
structure Copy (S F : Type*) where
  store : S
  file : ℕ → Option F

/-- How a single copy serves a request: `none` when it refuses it. A file that is opened is kept
under the handle `fh`. -/
def FileSystem.serve {S F : Type*} (fs : FileSystem S F) (cr : Creds) (fh : ℕ) (q : Request)
    (k : Copy S F) : Option (Copy S F × Response) :=
  (fs.answer cr q (q.uses.bind k.file) k.store).map fun a =>
    ({ store := a.store
       file := if q.opens then Function.update k.file fh a.opened else k.file },
      q.respond a.reply)

end ChironFs
