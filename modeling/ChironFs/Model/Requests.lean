import ChironFs.Model.Handlers

/-!
# The requests one by one

What the handlers differ in, read off their bodies:

* `Request.opens`, `Request.searches`, `Request.releases`: the shape of a handler.
* `Request.uses`, `Request.releasedFh`: the handle FUSE passes with a request.
* `Request.call`: the call made on a replica; `Request.operation`: the name given to the log;
  `Request.respond`: the response made from an answer.
-/

namespace ChironFs

variable {n : ℕ}

/-! ## The call made on a replica -/

/-- The call `open` or `create` makes on replica `i`. -/
def openCall (env : Env n) (c : Config n) (path : Path) (call : Path → Call) (i : Fin n) :
    Option Call :=
  (env.xlate c path i).map call

/-- The call `mknod` makes on replica `i`. -/
def mknodCall (env : Env n) (c : Config n) (path : Path) (mode : ℕ) (i : Fin n) : Option Call :=
  (env.xlate c path i).bind fun fname =>
    if sIsReg mode then some (.open fname O_CREAT_EXCL_WRONLY (some mode))
    else if sIsFifo mode then some (.mkfifo fname mode)
    else none

/-- The call `write` makes on replica `i`, from the handle's descriptor vector. -/
def writeCall (fd : Fin n → ℤ) (buf : List UInt8) (offset : ℤ) (i : Fin n) : Option Call :=
  if fd i < 0 then none else some (.pwrite (fd i) buf offset)

namespace Request

/-! ## The shapes -/

/-- `open` and `create`. -/
def opens : Request → Bool
  | .open .. | .create .. => true
  | _ => false

/-- The handle FUSE passes with a request. -/
def uses : Request → Option ℕ
  | .release fh | .read fh .. | .write fh .. => some fh
  | _ => none

/-- The handle a request closes. -/
def releasedFh : Request → Option ℕ
  | .release fh => some fh
  | _ => none

/-- The requests that stop at the first answer. -/
def searches : Request → Bool
  | .read .. | .getattr .. | .access .. | .readlink .. | .readdir .. => true
  | _ => false

/-- `release`, the one request that does not go through the disabling rule. -/
def releases : Request → Bool
  | .release .. => true
  | _ => false

/-! ## What a handler says and does -/

/-- The call the request makes on replica `i` when its turn comes and it is enabled; `none`: it is
passed over, having no name or no descriptor. -/
def call (env : Env n) (c : Config n) : Request → Fin n → Option Call
  | .open path flags => openCall env c path (.open · flags none)
  | .create path mode => openCall env c path (.creat · mode)
  | .release _ => fun _ => none
  | .read fh size offset => fun i => (c.tabFd fh).bind fun fd => readCall fd size offset i
  | .write fh buf offset => fun i => (c.tabFd fh).bind fun fd => writeCall fd buf offset i
  | .getattr path => fun i => (env.xlate c path i).map .lstat
  | .access path mask => fun i => (env.xlate c path i).map (.access · mask)
  | .readlink path size => fun i => (env.xlate c path i).map (.readlink · size)
  | .readdir path offset _ => fun i => (env.xlate c path i).map (.opendir · offset)
  | .mknod path mode _ => mknodCall env c path mode
  | .truncate path size => fun i => (env.xlate c path i).map (.truncate · size)
  | .chmod path mode => fun i => (env.xlate c path i).map (.chmod · mode)
  | .chown path uid gid => fun i => (env.xlate c path i).map (.lchown · uid gid)
  | .utime path times => fun i => (env.xlate c path i).map (.utime · times)
  | .rmdir path => fun i => (env.xlate c path i).map .rmdir
  | .unlink path => fun i => (env.xlate c path i).map .unlink
  | .mkdir path mode => fun i => (env.xlate c path i).map (.mkdir · mode)
  | .symlink a b => fun i => (env.xlate c b i).map (.symlink a)
  | .rename a b => fun i => (env.xlate₂ c a b i).map fun p => .rename p.1 p.2
  | .link a b => fun i => (env.xlate₂ c a b i).map fun p => .link p.1 p.2

/-- The name a request gives to the log. -/
def operation : Request → String
  | .open .. => "open"
  | .create .. => "create"
  | .release .. => "release"
  | .read .. => "read"
  | .write .. => "write"
  | .getattr .. => "getattr"
  | .access .. => "access"
  | .readlink .. => "readlink"
  | .readdir .. => "readdir"
  | .mknod .. => "mknod"
  | .truncate .. => "truncate"
  | .chmod .. => "chmod"
  | .chown .. => "chown"
  | .utime .. => "utime"
  | .rmdir .. => "rmdir"
  | .unlink .. => "unlink"
  | .mkdir .. => "mkdir"
  | .symlink .. => "symlink"
  | .rename .. => "rename"
  | .link .. => "link"

/-- The response a request makes from the answer of a replica. -/
def respond : Request → Reply → Response
  | .read .., r => { ret := r.ret, out := r.out }
  | .write .., r => { ret := r.ret }
  | .getattr .., r => { ret := 0, out := r.out }
  | .readlink .., r => { ret := 0, out := r.out ++ [0] }
  | .readdir _ _ room, r => { ret := 0, names := r.names.take room }
  | _, _ => { ret := 0 }

end Request

end ChironFs
