import ChironFs.Model.Session

/-!
# The daemon and the stores of its replicas

* `Effect S`: what calls and closes leave of the store of a replica. `storeAfter`: the store after
  a trace.
* `Backend S`: a file system that also answers the calls, from its store.
* `Cluster n S`: the daemon with the stores of its replicas; `Cluster.step`: one more request.

A request makes its calls on a replica before anything else of its own happens to the store there,
so the answers come from the stores the request finds.
-/

namespace ChironFs

open Posix

variable {n : ℕ} {S : Type*}

/-- The replica an event makes a call on, or closes a descriptor of. -/
def Event.replica : Event n → Option (Fin n)
  | .call _ i _ _ | .close _ i _ _ => some i
  | _ => none

/-- What is left of a replica's store by a call that had this result, and by a `close`. -/
structure Effect (S : Type*) where
  call : Creds → Call → Except Errno Reply → S → S
  close : ℤ → S → S := fun _ s => s

/-- What an event leaves of the store of the replica it is about. -/
def Event.onStore (E : Effect S) (s : S) : Event n → S
  | .call cr _ c res => E.call cr c res s
  | .close _ _ fd _ => E.close fd s
  | _ => s

/-- The store of replica `i` after a trace. -/
def storeAfter (E : Effect S) (i : Fin n) (trace : List (Event n)) (s : S) : S :=
  (trace.filter fun ev => ev.replica = some i).foldl (Event.onStore E) s

/-- The file system of a replica. -/
structure Backend (S : Type*) extends Effect S where
  answer : Creds → Call → S → Except Errno Reply

/-- The daemon and the stores of its replicas. -/
structure Cluster (n : ℕ) (S : Type*) where
  daemon : Daemon n
  store : Fin n → S

/-- What one request finds: the environment but for its `call`, and the file systems, which may
fail a call that they answered before. -/
structure Setting (n : ℕ) (S : Type*) where
  env : Env n
  backend : Fin n → Backend S

/-- The environment when the replicas hold these stores. -/
def Setting.on (x : Setting n S) (store : Fin n → S) : Env n :=
  { x.env with call := fun cr i c => (x.backend i).answer cr c (store i) }

namespace Cluster

variable (s : Cluster n S) (a : Request × Setting n S)

/-- What a request leaves behind. -/
def serve : Option (Outcome n) := handle a.1 (a.2.on s.store) s.daemon

/-- What is there after a request. -/
def after (x : Setting n S) (o : Outcome n) : Cluster n S where
  daemon := o.daemon
  store := fun i => storeAfter (x.backend i).toEffect i o.trace (s.store i)

/-- One more request; `none`: the daemon is killed by it. -/
def step : Option (Cluster n S) := (s.serve a).map (s.after a.2)

/-- What it returns. -/
def respond : Option Response := (s.serve a).map Outcome.response

end Cluster

end ChironFs
