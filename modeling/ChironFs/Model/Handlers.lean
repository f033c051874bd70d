import ChironFs.Model.Replicas

/-!
# The request handlers (`fs.c`)

Every handler takes on the caller's identity, allocates its error list, goes over the replicas,
hands the counters to `disable_faulty_replicas`, and gives the identity back on each of its return
paths (`leave`). The loops are kept apart by what they do with a replica:

* `everyLoop`: the path operations that go over all replicas (`truncate` … `link`);
* `mknodLoop`: the same for `mknod`, which may return from inside the loop;
* `openLoop`: `open` and `create`, which fill a descriptor vector and count a failed `xlate`;
* `writeLoop`: `write`, which keeps the largest count and the statistics;
* `firstLoop`: the requests that stop at the first replica that answers (`read`, `getattr`,
  `access`, `readlink`, `readdir`), in the order `choose_replica` gives.

`handle` serves one request; it is `none` when the program is killed by a remainder by zero.
-/

namespace ChironFs

open Posix

variable {n : ℕ}

/-! ## What the loops keep -/

/-- `succ_cnt`, `fail_cnt`, `err_list`, and the calls made so far. -/
structure Tally (n : ℕ) where
  succCnt : ℕ := 0
  failCnt : ℕ := 0
  errList : Fin n → ℤ := fun _ => 0
  calls : List (Event n) := []

/-- `reacquire_priv(); return r;` -/
def leave (env : Env n) (c : Config n) (cr : Creds) (trace : List (Event n)) (r : Response)
    (fh : Option ℕ := none) : Outcome n :=
  let back := reacquirePriv env c cr
  { daemon := { config := c, creds := back.creds }
    response := r
    fh := fh
    trace := trace ++ back.trace }

/-- The common end of a request: disable the faulty replicas, then return the first error if
nobody succeeded and `r` otherwise. -/
def conclude (operation : String) (env : Env n) (c : Config n) (cr : Creds)
    (trace : List (Event n)) (t : Tally n) (r : Response) : Outcome n :=
  let d := c.disableFaultyReplicas operation t.succCnt t.failCnt t.errList
  let trace := trace ++ t.calls ++ d.2
  if t.succCnt = 0 then leave env d.1 cr trace { ret := d.1.getFirstError t.errList }
  else leave env d.1 cr trace r

/-! ## Path operations on every replica -/

/-- Go over the replicas; `call i` is the call for replica `i`, `none` when `xlate` gave no name
(the replica is passed over and nothing is recorded). -/
def everyLoop (env : Env n) (c : Config n) (cr : Creds) (call : Fin n → Option Call) :
    List (Fin n) → Tally n → Tally n
  | [], t => t
  | i :: is, t =>
      if (c.replicas i).disabled then everyLoop env c cr call is t
      else match call i with
        | none => everyLoop env c cr call is t
        | some cl =>
            match env.call cr i cl with
            | .error e =>
                everyLoop env c cr call is
                  { t with
                    errList := Function.update t.errList i e.neg
                    failCnt := t.failCnt + 1
                    calls := t.calls ++ [.call cr i cl (.error e)] }
            | .ok r =>
                everyLoop env c cr call is
                  { t with
                    succCnt := t.succCnt + 1
                    calls := t.calls ++ [.call cr i cl (.ok r)] }

/-- The shape of `truncate`, `chmod`, `chown`, `utime`, `rmdir`, `unlink`, `mkdir`, `symlink`,
`rename` and `link`. -/
def onEveryReplica (operation : String) (call : Config n → Fin n → Option Call) (env : Env n)
    (d : Daemon n) : Outcome n :=
  let p := dropPriv env d.creds
  if env.calloc 0 = false then leave env d.config p.creds p.trace { ret := ENOMEM.neg }
  else
    let t := everyLoop env d.config p.creds (call d.config) (List.finRange n) {}
    conclude operation env d.config p.creds p.trace t { ret := 0 }

/-- The `k`-th `xlate` of a request for replica `i`. -/
def Env.xlate (env : Env n) (c : Config n) (fname : Path) (i : Fin n) (k : ℕ := 0) : Option Path :=
  ChironFs.xlate fname (c.replicas i).path (env.malloc i k)

/-- Both names of a two-path operation; the second `xlate` is tried only when the first gave a
name. -/
def Env.xlate₂ (env : Env n) (c : Config n) (fnameFrom fnameTo : Path) (i : Fin n) :
    Option (Path × Path) := do
  let a ← env.xlate c fnameFrom i 0
  let b ← env.xlate c fnameTo i 1
  some (a, b)

/-- Source: `fs.c`, `chiron_truncate` -/
def chironTruncate (path : Path) (size : ℤ) (env : Env n) (d : Daemon n) : Outcome n :=
  onEveryReplica "truncate" (fun c i => (env.xlate c path i).map (.truncate · size)) env d

/-- Source: `fs.c`, `chiron_chmod` -/
def chironChmod (path : Path) (mode : ℕ) (env : Env n) (d : Daemon n) : Outcome n :=
  onEveryReplica "chmod" (fun c i => (env.xlate c path i).map (.chmod · mode)) env d

/-- Source: `fs.c`, `chiron_chown` -/
def chironChown (path : Path) (uid gid : ℕ) (env : Env n) (d : Daemon n) : Outcome n :=
  onEveryReplica "chown" (fun c i => (env.xlate c path i).map (.lchown · uid gid)) env d

/-- Source: `fs.c`, `chiron_utime` -/
def chironUtime (path : Path) (times : Option (ℤ × ℤ)) (env : Env n) (d : Daemon n) : Outcome n :=
  onEveryReplica "utime" (fun c i => (env.xlate c path i).map (.utime · times)) env d

/-- Source: `fs.c`, `chiron_rmdir` -/
def chironRmdir (path : Path) (env : Env n) (d : Daemon n) : Outcome n :=
  onEveryReplica "rmdir" (fun c i => (env.xlate c path i).map .rmdir) env d

/-- Source: `fs.c`, `chiron_unlink` -/
def chironUnlink (path : Path) (env : Env n) (d : Daemon n) : Outcome n :=
  onEveryReplica "unlink" (fun c i => (env.xlate c path i).map .unlink) env d

/-- Source: `fs.c`, `chiron_mkdir` -/
def chironMkdir (path : Path) (mode : ℕ) (env : Env n) (d : Daemon n) : Outcome n :=
  onEveryReplica "mkdir" (fun c i => (env.xlate c path i).map (.mkdir · mode)) env d

/-- Source: `fs.c`, `chiron_symlink` -/
def chironSymlink (pathFrom pathTo : Path) (env : Env n) (d : Daemon n) : Outcome n :=
  onEveryReplica "symlink" (fun c i => (env.xlate c pathTo i).map (.symlink pathFrom)) env d

/-- Source: `fs.c`, `chiron_rename` -/
def chironRename (pathFrom pathTo : Path) (env : Env n) (d : Daemon n) : Outcome n :=
  onEveryReplica "rename"
    (fun c i => (env.xlate₂ c pathFrom pathTo i).map fun p => .rename p.1 p.2) env d

/-- Source: `fs.c`, `chiron_link` -/
def chironLink (pathFrom pathTo : Path) (env : Env n) (d : Daemon n) : Outcome n :=
  onEveryReplica "link"
    (fun c i => (env.xlate₂ c pathFrom pathTo i).map fun p => .link p.1 p.2) env d

/-! ## `mknod` -/

/-- `S_ISREG(mode)`. -/
def sIsReg (mode : ℕ) : Bool := mode &&& 0o170000 = 0o100000

/-- `S_ISFIFO(mode)`. -/
def sIsFifo (mode : ℕ) : Bool := mode &&& 0o170000 = 0o010000

/-- `O_CREAT | O_EXCL | O_WRONLY`. -/
def O_CREAT_EXCL_WRONLY : ℕ := 0o301

/-- Create a regular file (and close it at once) or a FIFO on each replica; any other type is
refused from inside the loop (`.error`), at the first replica whose name could be built. -/
def mknodLoop (env : Env n) (c : Config n) (cr : Creds) (path : Path) (mode : ℕ) :
    List (Fin n) → Tally n → Except ℤ (Tally n)
  | [], t => .ok t
  | i :: is, t =>
      if (c.replicas i).disabled then mknodLoop env c cr path mode is t
      else match env.xlate c path i with
        | none => mknodLoop env c cr path mode is t
        | some fname =>
            if sIsReg mode then
              let cl := Call.open fname O_CREAT_EXCL_WRONLY (some mode)
              match env.call cr i cl with
              | .error e =>
                  mknodLoop env c cr path mode is
                    { t with
                      errList := Function.update t.errList i e.neg
                      failCnt := t.failCnt + 1
                      calls := t.calls ++ [.call cr i cl (.error e)] }
              | .ok r =>
                  mknodLoop env c cr path mode is
                    { t with
                      succCnt := t.succCnt + 1
                      calls := t.calls ++
                        [.call cr i cl (.ok r), .close cr i r.ret (env.close i r.ret)] }
            else if sIsFifo mode then
              let cl := Call.mkfifo fname mode
              match env.call cr i cl with
              | .error e =>
                  mknodLoop env c cr path mode is
                    { t with
                      errList := Function.update t.errList i e.neg
                      failCnt := t.failCnt + 1
                      calls := t.calls ++ [.call cr i cl (.error e)] }
              | .ok r =>
                  mknodLoop env c cr path mode is
                    { t with
                      succCnt := t.succCnt + 1
                      calls := t.calls ++ [.call cr i cl (.ok r)] }
            else .error ENOSYS.neg

/-- Source: `fs.c`, `chiron_mknod` (`rdev` is not used) -/
def chironMknod (path : Path) (mode _rdev : ℕ) (env : Env n) (d : Daemon n) : Outcome n :=
  let p := dropPriv env d.creds
  if env.calloc 0 = false then leave env d.config p.creds p.trace { ret := ENOMEM.neg }
  else match mknodLoop env d.config p.creds path mode (List.finRange n) {} with
    | .error r => leave env d.config p.creds p.trace { ret := r }
    | .ok t => conclude "mknod" env d.config p.creds p.trace t { ret := 0 }

/-! ## `open`, `create`, `release` -/

/-- Open a file on each replica; `call` makes the call from the file's name on the replica. -/
def openLoop (env : Env n) (c : Config n) (cr : Creds) (path : Path) (call : Path → Call) :
    List (Fin n) → Tally n → (Fin n → ℤ) → Tally n × (Fin n → ℤ)
  | [], t, fd => (t, fd)
  | i :: is, t, fd =>
      if (c.replicas i).disabled then openLoop env c cr path call is t fd
      else match env.xlate c path i with
        | none =>
            openLoop env c cr path call is
              { t with
                failCnt := t.failCnt + 1
                errList := Function.update t.errList i ENOMEM.neg }
              (Function.update fd i (-1))
        | some fname =>
            match env.call cr i (call fname) with
            | .error e =>
                openLoop env c cr path call is
                  { t with
                    failCnt := t.failCnt + 1
                    errList := Function.update t.errList i e.neg
                    calls := t.calls ++ [.call cr i (call fname) (.error e)] }
                  (Function.update fd i (-1))
            | .ok r =>
                openLoop env c cr path call is
                  { t with
                    succCnt := t.succCnt + 1
                    calls := t.calls ++ [.call cr i (call fname) (.ok r)] }
                  (Function.update fd i r.ret)

/-- Close what `open` or `create` opened, when there is no slot for it. -/
def closeOpened (env : Env n) (c : Config n) (cr : Creds) (fd : Fin n → ℤ) :
    List (Fin n) → List (Event n)
  | [] => []
  | i :: is =>
      if (c.replicas i).disabled = false ∧ fd i ≥ 0 then
        .close cr i (fd i) (env.close i (fd i)) :: closeOpened env c cr fd is
      else closeOpened env c cr fd is

/-- The shape of `open` and `create`. -/
def openOnReplicas (operation : String) (path : Path) (call : Path → Call) (env : Env n)
    (d : Daemon n) : Outcome n :=
  let p := dropPriv env d.creds
  if env.calloc 0 = false then leave env d.config p.creds p.trace { ret := ENOMEM.neg }
  else if env.calloc 1 = false then leave env d.config p.creds p.trace { ret := ENOMEM.neg }
  else
    let (t, fd) := openLoop env d.config p.creds path call (List.finRange n) {} (fun _ => 0)
    let dis := d.config.disableFaultyReplicas operation t.succCnt t.failCnt t.errList
    let trace := p.trace ++ t.calls ++ dis.2
    if t.succCnt = 0 then
      leave env dis.1 p.creds trace { ret := dis.1.getFirstError t.errList }
    else
      let (fdNdx, c, logs) := dis.1.fdHashset fd
      if fdNdx < 0 then
        let closes := closeOpened env c p.creds fd (List.finRange n)
        leave env c p.creds (trace ++ logs ++ closes) { ret := EMFILE.neg }
      else leave env c p.creds (trace ++ logs) { ret := 0 } (some fdNdx.toNat)

/-- Source: `fs.c`, `chiron_open` -/
def chironOpen (path : Path) (flags : ℕ) (env : Env n) (d : Daemon n) : Outcome n :=
  openOnReplicas "open" path (.open · flags none) env d

/-- Source: `fs.c`, `chiron_create` (`fi->flags` is not used) -/
def chironCreate (path : Path) (mode : ℕ) (env : Env n) (d : Daemon n) : Outcome n :=
  openOnReplicas "create" path (.creat · mode) env d

/-- The loop of `chiron_release`; `r &= close(…)` on the values `0` and `-1`. -/
def releaseLoop (env : Env n) (c : Config n) (cr : Creds) (fd : Fin n → ℤ) :
    List (Fin n) → ℤ → List (Event n) → ℤ × List (Event n)
  | [], r, trace => (r, trace)
  | i :: is, r, trace =>
      if fd i > 0 ∧ (c.replicas i).disabled = false then
        let res := env.close i (fd i)
        let r := match res with
          | .ok _ => 0
          | .error _ => r
        releaseLoop env c cr fd is r (trace ++ [.close cr i (fd i) res])
      else releaseLoop env c cr fd is r trace

/-- Source: `fs.c`, `chiron_release` -/
def chironRelease (fh : ℕ) (env : Env n) (d : Daemon n) : Outcome n :=
  let p := dropPriv env d.creds
  match d.config.tabFd fh with
  | none => leave env d.config p.creds p.trace { ret := EINVAL.neg }
  | some fd =>
      let (r, closes) := releaseLoop env d.config p.creds fd (List.finRange n) (-1) []
      leave env (d.config.setSlot fh none) p.creds (p.trace ++ closes) { ret := r }

/-! ## `write` -/

/-- `config.replicas[i].totwr++` -/
def Config.countWrite (c : Config n) (i : Fin n) : Config n :=
  c.setReplica i { c.replicas i with totwr := (c.replicas i).totwr + 1 }

/-- `config.replicas[i].totrd++` -/
def Config.countRead (c : Config n) (i : Fin n) : Config n :=
  c.setReplica i { c.replicas i with totrd := (c.replicas i).totrd + 1 }

/-- Write to each replica; the third component is `w_max`. -/
def writeLoop (env : Env n) (cr : Creds) (fd : Fin n → ℤ) (buf : List UInt8) (offset : ℤ) :
    List (Fin n) → Config n → Tally n → ℤ → Config n × Tally n × ℤ
  | [], c, t, wMax => (c, t, wMax)
  | i :: is, c, t, wMax =>
      if (c.replicas i).disabled = true ∨ fd i < 0 then writeLoop env cr fd buf offset is c t wMax
      else
        let cl := Call.pwrite (fd i) buf offset
        match env.call cr i cl with
        | .error e =>
            writeLoop env cr fd buf offset is c
              { t with
                errList := Function.update t.errList i e.neg
                failCnt := t.failCnt + 1
                calls := t.calls ++ [.call cr i cl (.error e)] }
              wMax
        | .ok r =>
            writeLoop env cr fd buf offset is (c.countWrite i)
              { t with
                succCnt := t.succCnt + 1
                calls := t.calls ++ [.call cr i cl (.ok r)] }
              (max r.ret wMax)

/-- Source: `fs.c`, `chiron_write` -/
def chironWrite (fh : ℕ) (buf : List UInt8) (offset : ℤ) (env : Env n) (d : Daemon n) :
    Outcome n :=
  let p := dropPriv env d.creds
  match d.config.tabFd fh with
  | none => leave env d.config p.creds p.trace { ret := EINVAL.neg }
  | some fd =>
      if env.calloc 0 = false then leave env d.config p.creds p.trace { ret := ENOMEM.neg }
      else
        let (c, t, wMax) := writeLoop env p.creds fd buf offset (List.finRange n) d.config {} 0
        conclude "write" env c p.creds p.trace t { ret := wMax }

/-! ## Requests answered by the first replica that can -/

/-- Ask the replicas in the order of `choose_replica` until one answers. `call i` is `none` when
replica `i` is passed over (no name, or no descriptor). The result is `none` when
`choose_replica` is killed by a remainder by zero. -/
def firstLoop (env : Env n) (cr : Creds) (call : Fin n → Option Call) :
    List ℕ → Config n → Tally n → Option (Config n × Tally n × Option (Fin n × Reply))
  | [], c, t => some (c, t, none)
  | k :: ks, c, t =>
      match c.chooseReplica k with
      | none => none
      | some (replica, c) =>
          if (c.replicas replica).disabled then firstLoop env cr call ks c t
          else match call replica with
            | none => firstLoop env cr call ks c t
            | some cl =>
                match env.call cr replica cl with
                | .error e =>
                    firstLoop env cr call ks c
                      { t with
                        errList := Function.update t.errList replica e.neg
                        failCnt := t.failCnt + 1
                        calls := t.calls ++ [.call cr replica cl (.error e)] }
                | .ok r =>
                    some (c,
                      { t with
                        succCnt := t.succCnt + 1
                        calls := t.calls ++ [.call cr replica cl (.ok r)] },
                      some (replica, r))

/-- The response made from the answer the loop ended with. -/
def answer (respond : Reply → Response) : Option (Fin n × Reply) → Response
  | none => { ret := 0 }
  | some (_, r) => respond r

/-- The shape of `getattr`, `access`, `readlink` and `readdir`. -/
def onFirstReplica (operation : String) (call : Config n → Fin n → Option Call)
    (respond : Reply → Response) (env : Env n) (d : Daemon n) : Option (Outcome n) :=
  let p := dropPriv env d.creds
  if env.calloc 0 = false then
    some (leave env d.config p.creds p.trace { ret := ENOMEM.neg })
  else do
    let (c, t, ans) ← firstLoop env p.creds (call d.config) (List.range n) d.config {}
    some (conclude operation env c p.creds p.trace t (answer respond ans))

/-- Source: `fs.c`, `chiron_getattr` -/
def chironGetattr (path : Path) (env : Env n) (d : Daemon n) : Option (Outcome n) :=
  onFirstReplica "getattr" (fun c i => (env.xlate c path i).map .lstat)
    (fun r => { ret := 0, out := r.out }) env d

/-- Source: `fs.c`, `chiron_access` -/
def chironAccess (path : Path) (mask : ℕ) (env : Env n) (d : Daemon n) : Option (Outcome n) :=
  onFirstReplica "access" (fun c i => (env.xlate c path i).map (.access · mask))
    (fun _ => { ret := 0 }) env d

/-- The link's text is followed by `buf[res] = 0`. Source: `fs.c`, `chiron_readlink` -/
def chironReadlink (path : Path) (size : ℕ) (env : Env n) (d : Daemon n) : Option (Outcome n) :=
  onFirstReplica "readlink" (fun c i => (env.xlate c path i).map (.readlink · size))
    (fun r => { ret := 0, out := r.out ++ [0] }) env d

/-- `room` is the number of entries the filler takes before it reports a full buffer.
Source: `fs.c`, `chiron_readdir` -/
def chironReaddir (path : Path) (offset : ℤ) (room : ℕ) (env : Env n) (d : Daemon n) :
    Option (Outcome n) :=
  onFirstReplica "readdir" (fun c i => (env.xlate c path i).map (.opendir · offset))
    (fun r => { ret := 0, names := r.names.take room }) env d

/-- The call of `read` on a replica, from the handle's descriptor vector. -/
def readCall (fd : Fin n → ℤ) (size : ℕ) (offset : ℤ) (i : Fin n) : Option Call :=
  if fd i < 0 then none else some (.pread (fd i) size offset)

/-- The replica that answered counts the read. Source: `fs.c`, `chiron_read` -/
def chironRead (fh size : ℕ) (offset : ℤ) (env : Env n) (d : Daemon n) : Option (Outcome n) :=
  let p := dropPriv env d.creds
  match d.config.tabFd fh with
  | none => some (leave env d.config p.creds p.trace { ret := EINVAL.neg })
  | some fd =>
      if env.calloc 0 = false then
        some (leave env d.config p.creds p.trace { ret := ENOMEM.neg })
      else do
        let (c, t, ans) ←
          firstLoop env p.creds (readCall fd size offset) (List.range n) d.config {}
        let c := match ans with
          | none => c
          | some (i, _) => c.countRead i
        some (conclude "read" env c p.creds p.trace t
          (answer (fun r => { ret := r.ret, out := r.out }) ans))

/-! ## All requests -/

/-- The requests FUSE makes (`chiron_oper`). -/
inductive Request
  | open (path : Path) (flags : ℕ)
  | create (path : Path) (mode : ℕ)
  | release (fh : ℕ)
  | read (fh size : ℕ) (offset : ℤ)
  | write (fh : ℕ) (buf : List UInt8) (offset : ℤ)
  | getattr (path : Path)
  | access (path : Path) (mask : ℕ)
  | readlink (path : Path) (size : ℕ)
  | readdir (path : Path) (offset : ℤ) (room : ℕ)
  | mknod (path : Path) (mode rdev : ℕ)
  | truncate (path : Path) (size : ℤ)
  | chmod (path : Path) (mode : ℕ)
  | chown (path : Path) (uid gid : ℕ)
  | utime (path : Path) (times : Option (ℤ × ℤ))
  | rmdir (path : Path)
  | unlink (path : Path)
  | mkdir (path : Path) (mode : ℕ)
  | symlink (pathFrom pathTo : Path)
  | rename (pathFrom pathTo : Path)
  | link (pathFrom pathTo : Path)
deriving DecidableEq, Repr

/-- Serve one request. Source: `fs.c`, `chiron_oper` -/
def handle : Request → Env n → Daemon n → Option (Outcome n)
  | .open path flags, env, d => some (chironOpen path flags env d)
  | .create path mode, env, d => some (chironCreate path mode env d)
  | .release fh, env, d => some (chironRelease fh env d)
  | .read fh size offset, env, d => chironRead fh size offset env d
  | .write fh buf offset, env, d => some (chironWrite fh buf offset env d)
  | .getattr path, env, d => chironGetattr path env d
  | .access path mask, env, d => chironAccess path mask env d
  | .readlink path size, env, d => chironReadlink path size env d
  | .readdir path offset room, env, d => chironReaddir path offset room env d
  | .mknod path mode rdev, env, d => some (chironMknod path mode rdev env d)
  | .truncate path size, env, d => some (chironTruncate path size env d)
  | .chmod path mode, env, d => some (chironChmod path mode env d)
  | .chown path uid gid, env, d => some (chironChown path uid gid env d)
  | .utime path times, env, d => some (chironUtime path times env d)
  | .rmdir path, env, d => some (chironRmdir path env d)
  | .unlink path, env, d => some (chironUnlink path env d)
  | .mkdir path mode, env, d => some (chironMkdir path mode env d)
  | .symlink a b, env, d => some (chironSymlink a b env d)
  | .rename a b, env, d => some (chironRename a b env d)
  | .link a b, env, d => some (chironLink a b env d)

end ChironFs
