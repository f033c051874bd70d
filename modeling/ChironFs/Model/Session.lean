import ChironFs.Model.Requests

/-!
# Sequential runs

* `Daemon.step`: one more request, of any kind and with any handle.
* `Handle`: an open file, as FUSE and the replicas see it.
* `Session`: the daemon, the live handles, the trace so far.
* `Session.step`: one more request. FUSE passes to `read`, `write` and `release` only handles that
  a successful `open` or `create` returned and that were not released; other requests it passes
  freely. `none`: FUSE would not pass the request, or the daemon is killed by it.

Handles are the model's own book-keeping: no request reads them.
-/

namespace ChironFs

variable {n : ℕ}

/-! ## Descriptors in a trace -/

/-- The descriptor an event opens, with its replica. -/
def Event.openedFd : Event n → Option (Fin n × ℤ)
  | .call _ i (.open ..) (.ok r) => some (i, r.ret)
  | .call _ i (.creat ..) (.ok r) => some (i, r.ret)
  | _ => none

/-- The descriptor an event closes, with its replica. -/
def Event.closedFd : Event n → Option (Fin n × ℤ)
  | .close _ i fd _ => some (i, fd)
  | _ => none

/-- The descriptors a trace opens. -/
def openedFds (trace : List (Event n)) : List (Fin n × ℤ) := trace.filterMap Event.openedFd

/-- The descriptors a trace closes. -/
def closedFds (trace : List (Event n)) : List (Fin n × ℤ) := trace.filterMap Event.closedFd

/-- The daemon after one more request, whether or not FUSE would pass it; `none`: it is killed. -/
def Daemon.step (d : Daemon n) (a : Request × Env n) : Option (Daemon n) :=
  (handle a.1 a.2 d).map Outcome.daemon

/-! ## Sessions -/

/-- An open file: the number FUSE got, the vector its own `open` or `create` stored, and the
descriptors that request opened on the replicas. -/
structure Handle (n : ℕ) where
  fh : ℕ
  fd : Fin n → ℤ
  opened : List (Fin n × ℤ)

/-- A run so far. -/
structure Session (n : ℕ) where
  daemon : Daemon n
  live : List (Handle n) := []
  trace : List (Event n) := []

/-- The handle a successful `open` or `create` returns.
Fidelity: libfuse clears `fi`, so `fi->fh` is `0` where the request does not set it -/
def Outcome.handle (o : Outcome n) : Handle n :=
  let fh := o.fh.getD 0
  { fh := fh
    fd := (o.daemon.config.tabFd fh).getD fun _ => 0
    opened := openedFds o.trace }

namespace Session

variable (s : Session n)

/-- FUSE passes this request: the handle it comes with, if any, is live. -/
def admits (q : Request) : Bool := q.uses.all fun fh => s.live.any fun h => h.fh = fh

/-- The live handles after a request. -/
def liveAfter (q : Request) (o : Outcome n) : List (Handle n) :=
  if q.opens = true ∧ 0 ≤ o.response.ret then o.handle :: s.live
  else s.live.filter fun h => q.releasedFh ≠ some h.fh

/-- The run after a request. -/
def after (q : Request) (o : Outcome n) : Session n where
  daemon := o.daemon
  live := s.liveAfter q o
  trace := s.trace ++ o.trace

/-- One more request, in the environment it finds. -/
def step (a : Request × Env n) : Option (Session n) :=
  if s.admits a.1 then (ChironFs.handle a.1 a.2 s.daemon).map (s.after a.1) else none

end Session

end ChironFs
