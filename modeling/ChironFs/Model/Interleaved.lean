import ChironFs.Model.Session

/-!
# Requests step by step

FUSE runs the handlers on several threads, which share the configuration and hold no lock. Here a
handler is cut into the steps other threads can come between:

* `Stage n`: how far a request got, with what it keeps on its own stack (`Locals n`).
* `Request.advance`: one step of a request. A round of a loop over the replicas is the loop itself
  on that one replica; `choose_replica` and the call that follows it are two steps, and so are the
  search for a slot and the store into it.
* `Pool T n`: the daemon and the stages of all requests that are ever made, `T` naming them.
* `Pool.step`: some request makes one step, in the environment it finds then. `none`: the request
  has returned, FUSE would not pass it, or the daemon is killed.

Fidelity: the credential calls are left to `ChironFs.Model.Threads`; here the ids of the process
stay as they are, one pair for the calls of all requests, and a call on a replica is answered by the
environment of its step. A request kills the daemon by a remainder by zero in `choose_replica` or by
an emptied slot; what it reads behind the table or outside `errtab` has no effect here.
-/

namespace ChironFs

open Posix

variable {n : ℕ} {T : Type*}

/-! ## One request -/

/-- What a request keeps on its own stack: its counters, the vector `open` and `create` fill, the
largest count of a write, the answer a search stopped at. -/
structure Locals (n : ℕ) where
  tally : Tally n := {}
  fd : Fin n → ℤ := fun _ => 0
  wMax : ℤ := 0
  found : Option (Fin n × Reply) := none

/-- How far a request got: at its beginning; in the loop over all replicas; before the next
`choose_replica`; before the call on the replica it chose; in the loop of
`disable_faulty_replicas`; before its result is known; with the slot it found, before the store;
closing what it opened for want of a slot; in the loop of `release`; returned. -/
inductive Stage (n : ℕ)
  | start
  | loop (todo : List (Fin n)) (x : Locals n)
  | choose (todo : List ℕ) (x : Locals n)
  | ask (i : Fin n) (todo : List ℕ) (x : Locals n)
  | disable (todo : List (Fin n)) (x : Locals n)
  | finish (x : Locals n)
  | store (fdNdx : ℤ) (x : Locals n)
  | unwind (todo : List (Fin n)) (x : Locals n)
  | close (todo : List (Fin n)) (r : ℤ)
  | done (r : Response) (fh : Option ℕ)

/-- The test of `disable_faulty_replicas`, after the loop over the replicas. -/
def Locals.conclude (x : Locals n) : Stage n :=
  if x.tally.failCnt ≠ 0 ∧ x.tally.succCnt ≠ 0 then .disable (List.finRange n) x else .finish x

/-- The calls recorded since `t`. -/
def Tally.since (t t' : Tally n) : List (Event n) := t'.calls.drop t.calls.length

namespace Request

/-- The beginning of a handler, up to its loop. -/
def begin (env : Env n) (c : Config n) : Request → Stage n
  | .open .. | .create .. =>
      if env.calloc 0 = false then .done { ret := ENOMEM.neg } none
      else if env.calloc 1 = false then .done { ret := ENOMEM.neg } none
      else .loop (List.finRange n) {}
  | .release fh =>
      if (c.tabFd fh).isNone then .done { ret := EINVAL.neg } none
      else .close (List.finRange n) (-1)
  | .read fh _ _ =>
      if (c.tabFd fh).isNone then .done { ret := EINVAL.neg } none
      else if env.calloc 0 = false then .done { ret := ENOMEM.neg } none
      else .choose (List.range n) {}
  | .write fh _ _ =>
      if (c.tabFd fh).isNone then .done { ret := EINVAL.neg } none
      else if env.calloc 0 = false then .done { ret := ENOMEM.neg } none
      else .loop (List.finRange n) {}
  | .getattr .. | .access .. | .readlink .. | .readdir .. =>
      if env.calloc 0 = false then .done { ret := ENOMEM.neg } none
      else .choose (List.range n) {}
  | _ =>
      if env.calloc 0 = false then .done { ret := ENOMEM.neg } none
      else .loop (List.finRange n) {}

/-- One round of the loop over all replicas. `mknod` may return from inside the loop; `write` reads
the handle's vector anew in each round, and is killed if the slot was emptied. -/
def visit (env : Env n) (cr : Creds) (c : Config n) (i : Fin n) (todo : List (Fin n))
    (x : Locals n) : Request → Option (Config n × Stage n × List (Event n))
  | .open path flags =>
      let (t, fd) := openLoop env c cr path (.open · flags none) [i] x.tally x.fd
      some (c, .loop todo { x with tally := t, fd := fd }, x.tally.since t)
  | .create path mode =>
      let (t, fd) := openLoop env c cr path (.creat · mode) [i] x.tally x.fd
      some (c, .loop todo { x with tally := t, fd := fd }, x.tally.since t)
  | .write fh buf offset =>
      if (c.replicas i).disabled then some (c, .loop todo x, [])
      else do
        let fd ← c.tabFd fh
        let (c, t, wMax) := writeLoop env cr fd buf offset [i] c x.tally x.wMax
        some (c, .loop todo { x with tally := t, wMax := wMax }, x.tally.since t)
  | .mknod path mode _ =>
      match mknodLoop env c cr path mode [i] x.tally with
      | .error r => some (c, .done { ret := r } none, [])
      | .ok t => some (c, .loop todo { x with tally := t }, x.tally.since t)
  | q =>
      let t := everyLoop env c cr (q.call env c) [i] x.tally
      some (c, .loop todo { x with tally := t }, x.tally.since t)

/-- `read` is killed if the slot of its handle was emptied. -/
def lostSlot (c : Config n) : Request → Bool
  | .read fh _ _ => (c.tabFd fh).isNone
  | _ => false

/-- `read` counts the answer. -/
def countFound (c : Config n) (i : Fin n) : Request → Config n
  | .read .. => c.countRead i
  | _ => c

/-- The round of a search after `choose_replica` gave replica `i`. -/
def attend (env : Env n) (cr : Creds) (c : Config n) (i : Fin n) (todo : List ℕ) (x : Locals n)
    (q : Request) : Config n × Stage n × List (Event n) :=
  if (c.replicas i).disabled then (c, .choose todo x, [])
  else match q.call env c i with
    | none => (c, .choose todo x, [])
    | some cl =>
        match env.call cr i cl with
        | .error e =>
            (c,
              .choose todo
                { x with
                  tally :=
                    { x.tally with
                      errList := Function.update x.tally.errList i e.neg
                      failCnt := x.tally.failCnt + 1
                      calls := x.tally.calls ++ [.call cr i cl (.error e)] } },
              [.call cr i cl (.error e)])
        | .ok r =>
            (q.countFound c i,
              Locals.conclude
                { x with
                  tally :=
                    { x.tally with
                      succCnt := x.tally.succCnt + 1
                      calls := x.tally.calls ++ [.call cr i cl (.ok r)] }
                  found := some (i, r) },
              [.call cr i cl (.ok r)])

/-- The response of a request that somebody answered. -/
def result (x : Locals n) : Request → Response
  | .write .. => { ret := x.wMax }
  | q => answer q.respond x.found

/-- The end of a request: the first error, or its result; `open` and `create` look for a slot
(the first half of `fd_hashset`). -/
def conclude (c : Config n) (x : Locals n) (q : Request) : Stage n × List (Event n) :=
  if x.tally.succCnt = 0 then (.done { ret := c.getFirstError x.tally.errList } none, [])
  else if q.opens then
    match c.mainFd x.fd (List.finRange n) with
    | none => (.store (-1) x, [])
    | some d =>
        let (fdNdx, logs) := c.fdHashseekfree (hashFd c.fdBufSize (UInt32.ofNat d.toNat)).toNat
        (.store fdNdx x, logs)
  else (.done (q.result x) none, [])

/-- One step of a request; `none`: it has returned, or the daemon is killed. -/
def advance (q : Request) (env : Env n) (cr : Creds) (c : Config n) :
    Stage n → Option (Config n × Stage n × List (Event n))
  | .start => some (c, q.begin env c, [])
  | .loop [] x => some (c, x.conclude, [])
  | .loop (i :: todo) x => q.visit env cr c i todo x
  | .choose [] x => some (c, x.conclude, [])
  | .choose (k :: todo) x => (c.chooseReplica k).map fun (i, c) => (c, .ask i todo x, [])
  | .ask i todo x => if q.lostSlot c then none else some (q.attend env cr c i todo x)
  | .disable [] x => some (c, .finish x, [])
  | .disable (i :: todo) x =>
      let (c, logs) := Config.disableLoop q.operation x.tally.errList [i] c
      some (c, .disable todo x, logs)
  | .finish x => some (c, q.conclude c x)
  | .store fdNdx x =>
      if fdNdx < 0 then some (c, .unwind (List.finRange n) x, [])
      else some (c.setSlot fdNdx.toNat (some x.fd), .done { ret := 0 } (some fdNdx.toNat), [])
  | .unwind [] _ => some (c, .done { ret := EMFILE.neg } none, [])
  | .unwind (i :: todo) x => some (c, .unwind todo x, closeOpened env c cr x.fd [i])
  | .close [] r =>
      q.releasedFh.map fun fh => (c.setSlot fh none, .done { ret := r } none, [])
  | .close (i :: todo) r => do
      let fd ← q.releasedFh.bind c.tabFd
      let (r, evs) := releaseLoop env c cr fd [i] r []
      some (c, .close todo r, evs)
  | .done .. => none

end Request

/-! ## All requests -/

/-- An open file: the handle FUSE got, the vector its `open` or `create` stored, and whether FUSE
has already asked for its release. -/
structure OpenFile (n : ℕ) where
  fh : ℕ
  fd : Fin n → ℤ
  releasing : Bool := false

/-- The daemon while requests are served. -/
structure Pool (T : Type*) (n : ℕ) where
  config : Config n
  creds : Creds
  stage : T → Stage n
  live : List (OpenFile n) := []
  trace : List (T × Event n) := []

namespace Pool

variable (s : Pool T n)

/-- FUSE passes a request with a handle only while that is open and no release of it is asked
for. -/
def admits (q : Request) : Bool :=
  q.uses.all fun fh => s.live.any fun f => f.fh = fh && !f.releasing

/-- The open files after a request went from one stage to the next: a `release` that begins marks
its file, and takes it off when it emptied the slot; a store into a slot makes a new one. What returns
success without a slot, as no replica was there to ask, opened nothing. -/
def liveAfter (q : Request) : Stage n → Stage n → List (OpenFile n)
  | .start, .close .. =>
      s.live.map fun f => if q.releasedFh = some f.fh then { f with releasing := true } else f
  | .store _ x, .done _ (some fh) => { fh := fh, fd := x.fd } :: s.live
  | .close .., .done .. =>
      s.live.filter fun f => ¬ (q.releasedFh = some f.fh ∧ f.releasing = true)
  | _, _ => s.live

/-- FUSE may let request `t` make its next step: it was begun, or it may begin. -/
def mayStep (t : T) (q : Request) : Bool :=
  match s.stage t with
  | .start => s.admits q
  | _ => true

/-- The pool after a step of request `t`. -/
def after [DecidableEq T] (t : T) (q : Request) (r : Config n × Stage n × List (Event n)) :
    Pool T n where
  config := r.1
  creds := s.creds
  stage := Function.update s.stage t r.2.1
  live := s.liveAfter q (s.stage t) r.2.1
  trace := s.trace ++ r.2.2.map fun ev => (t, ev)

/-- Request `a.1` makes a step, in the environment `a.2`. -/
def step [DecidableEq T] (req : T → Request) (s : Pool T n) (a : T × Env n) :
    Option (Pool T n) :=
  if s.mayStep a.1 (req a.1) then
    ((req a.1).advance a.2 s.creds s.config (s.stage a.1)).map (s.after a.1 (req a.1))
  else none

end Pool

end ChironFs
