import ChironFs.Model.Control
import ChironFs.Model.Interleaved
import ChironFs.Model.Kernel
import ChironFs.Model.Mount

/-!
# A small daemon

Two replicas of high priority, `/a` and `/b`, run by the superuser, with an empty table of eight
slots; and what a request finds around it when nothing is refused. Used where a statement is shown
at work, or shown to fail, on concrete data.
-/

namespace ChironFs

open Posix Wire

/-- The replicas `/a` and `/b`. -/
def twoReplicas : Config 2 where
  maxReplicaHigh := 2
  maxReplicaLow := 0
  currReplicaHigh := 0
  currReplicaLow := 0
  roundRobinHigh := [0, 1]
  roundRobinLow := []
  replicas := fun i => { path := some (if i = 0 then [47, 97] else [47, 98]), pathlen := 2 }
  tabFd := fun _ => none
  uid := 0
  gid := 0
  fdBufSize := 8

/-- The daemon of the superuser. -/
def rootDaemon : Daemon 2 where
  config := twoReplicas
  creds := Creds.ofUser 0 0

/-- Nothing open yet. -/
def rootSession : Session 2 := { daemon := rootDaemon }

/-- No request begun yet. -/
def rootPool (T : Type*) : Pool T 2 :=
  { config := twoReplicas, creds := Creds.ofUser 0 0, stage := fun _ => .start }

/-- A caller with ids `1000`, whose calls on the replicas have the given results; every allocation
and every credential call succeeds. -/
def plainEnv {n : ℕ} (call : Fin n → Call → Except Errno Reply) : Env n where
  uid := 1000
  gid := 1000
  refuse := fun _ => false
  calloc := fun _ => true
  malloc := fun _ _ => true
  call := fun _ => call
  close := fun _ _ => .ok ()

/-- Replica `0` answers, replica `1` fails with `e`. -/
def secondFails (r : Reply) (e : Errno) : Env 2 :=
  plainEnv fun i _ => if i = 0 then .ok r else .error e

/-- Replica `0` fails with `e`, replica `1` answers. -/
def firstFails (r : Reply) (e : Errno) : Env 2 :=
  plainEnv fun i _ => if i = 0 then .error e else .ok r

/-- Everything succeeds but the allocation of the second replica's name. -/
def secondUnnamed : Env 2 :=
  { plainEnv fun _ _ => .ok {} with malloc := fun i _ => i = 0 }

/-- The file `/f`. -/
def fileF : Path := [47, 102]

/-- A system on which every path is its own real path and nothing fails. -/
def plainMount : MountEnv where
  rlimit := { cur := 1024, max := 1024 }
  getrlimit := fun _ => true
  setrlimit := true
  realpath := some
  calloc := fun _ => true

/-- The replica list `/a=:/b`. -/
def listAB : Path := [47, 97, 61, 58, 47, 98]

/-- A 64-bit machine. -/
def lp64 : Abi := { order := .little, int := 4, size := 8, longLong := 8 }

/-- Open `/f`, twice, with the same descriptor number on both replicas. -/
def openTwice : List (Request × Env 2) :=
  [(.open fileF 0, plainEnv fun _ _ => .ok { ret := 5 }),
   (.open fileF 0, plainEnv fun _ _ => .ok { ret := 5 })]

/-- A replica that has one file, under every name: it can be opened, cut to nothing and asked for
access. -/
def fileKernel : Kernel File where
  checks
    | .open _ flags _, file => [.access file.1 (openMask flags)]
    | .access _ mask, file => [.access file.1 mask]
    | .truncate .., file => [.access file.1 W_OK]
    | _, _ => []
  answer _ _ _ verdicts := if verdicts.all id then .ok {} else .error EACCES
  effect
    | _, .truncate .., file, _, _ => (file.1, [])
    | _, _, file, _, _ => file

/-- A caller with ids `1000`, and replicas with one file. -/
def fileHost : Host 2 File where
  env := plainEnv fun _ _ => .ok {}
  kernel := fun _ => fileKernel

/-- The superuser's daemon; both replicas have the same file. -/
def rootCluster {S : Type*} (file : S) : Cluster 2 S where
  daemon := rootDaemon
  store := fun _ => file

end ChironFs
