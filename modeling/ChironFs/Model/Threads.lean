import ChironFs.Lib.Run
import ChironFs.Model.Replicas

/-!
# Requests on several threads

FUSE serves requests on several threads of one process; the effective ids belong to the process.

* `Process T`: the ids of the process and how far each request of `T` got, `T` being all requests
  that are ever made.
* `credStep`: one credential call of a request, with the branches of `drop_priv` and
  `reacquire_priv` that follow it.
* `Process.step`: some request makes its next credential call, or a call on a replica. Between
  `drop_priv` and `reacquire_priv` a request makes any number of calls on replicas, so every
  handler is covered, whatever the replicas answer.
-/

namespace ChironFs

open Posix

/-- A user and a group. -/
structure Ids where
  uid : ℕ
  gid : ℕ
deriving DecidableEq, Repr

/-- One credential call: the ids after it and the credential call that comes next (`none`: the
request returns). A failed call skips the second one of its function, and nothing else.
Source: `fs.c`, `drop_priv` and `reacquire_priv` -/
def credStep (caller daemon : Ids) (cr : Creds) : CredCall → Creds × Option CredCall
  | .dropGid =>
      match cr.setegid caller.gid with
      | some cr => (cr, some .dropUid)
      | none => (cr, some .backUid)
  | .dropUid => ((cr.seteuid caller.uid).getD cr, some .backUid)
  | .backUid =>
      match cr.seteuid daemon.uid with
      | some cr => (cr, some .backGid)
      | none => (cr, none)
  | .backGid => ((cr.setegid daemon.gid).getD cr, none)

/-- The process: its ids, the next credential call of every request, and the calls on replicas made
so far, each with the request it was made for and the ids it ran under. -/
structure Process (T : Type*) where
  creds : Creds
  next : T → Option CredCall
  made : List (T × Creds)

/-- The atomic steps of a request. -/
inductive Act
  | cred
  | call
deriving DecidableEq, Repr

namespace Process

variable {T : Type*} [DecidableEq T]

/-- One step of request `a.1`; `none` if it cannot make this step now. -/
def step (caller : T → Ids) (daemon : Ids) (p : Process T) (a : T × Act) : Option (Process T) :=
  match a.2, p.next a.1 with
  | .cred, some k =>
      let r := credStep (caller a.1) daemon p.creds k
      some { p with creds := r.1, next := Function.update p.next a.1 r.2 }
  | .call, some .backUid => some { p with made := p.made ++ [(a.1, p.creds)] }
  | _, _ => none

/-- No request was made yet; the daemon is the superuser's. -/
def Start (p : Process T) : Prop :=
  p.creds = Creds.ofUser 0 0 ∧ (∀ t, p.next t = some .dropGid) ∧ p.made = []

end Process

end ChironFs
