import ChironFs.Model.Session

/-!
# Runs with an administrator

Between the requests of a run the administrator takes replicas out and puts them back.

* `Event.usedFd`: the descriptor `pread`, `pwrite` and `close` are given.
* `Use`: such a call, with the open file it was made for.
* `Supervised`: a run so far, with the calls made for its open files.
* `Supervised.step`: one more request, `disable_replica` or `enable_replica`.
-/

namespace ChironFs

variable {n : ℕ}

/-- The descriptor a `pread`, `pwrite` or `close` is given, with its replica. -/
def Event.usedFd : Event n → Option (Fin n × ℤ)
  | .call _ i (.pread fd ..) _ => some (i, fd)
  | .call _ i (.pwrite fd ..) _ => some (i, fd)
  | .close _ i fd _ => some (i, fd)
  | _ => none

/-- A call made for an open file. `absent` are the replicas that were disabled when it was opened. -/
structure Use (n : ℕ) where
  handle : Handle n
  absent : Fin n → Bool
  replica : Fin n
  fd : ℤ

/-- A run so far; `absent fh` are the replicas that were disabled when the live handle `fh` was
opened. Like the handles, `absent` and `uses` are book-keeping that no request reads. -/
structure Supervised (n : ℕ) where
  session : Session n
  absent : ℕ → Fin n → Bool := fun _ _ => false
  uses : List (Use n) := []

/-- What may come next. -/
inductive Action (n : ℕ)
  | request (q : Request) (env : Env n)
  | disable (i : Fin n)
  | enable (i : Fin n)

/-- A change of the configuration that is not a request, with what it logs. -/
def Session.administer (s : Session n) (change : Config n × List (Event n)) : Session n where
  daemon := { s.daemon with config := change.1 }
  live := s.live
  trace := s.trace ++ change.2

namespace Supervised

variable (s : Supervised n)

/-- The replicas that are disabled now. -/
def absentNow (i : Fin n) : Bool := (s.session.daemon.config.replicas i).disabled

/-- The open file a request is about: the one it opens, or the one FUSE passes with it. -/
def file (q : Request) (o : Outcome n) : Option (Handle n × (Fin n → Bool)) :=
  if q.opens then some (o.handle, s.absentNow)
  else do
    let fh ← q.uses
    let x ← s.session.live.find? fun x => x.fh = fh
    some (x, s.absent fh)

/-- The calls a request makes for its open file. -/
def newUses (q : Request) (o : Outcome n) : List (Use n) :=
  match s.file q o with
  | none => []
  | some (x, absent) => (o.trace.filterMap Event.usedFd).map fun p => ⟨x, absent, p.1, p.2⟩

/-- The run after a request. -/
def after (q : Request) (o : Outcome n) : Supervised n where
  session := s.session.after q o
  absent :=
    if q.opens = true ∧ 0 ≤ o.response.ret then Function.update s.absent o.handle.fh s.absentNow
    else s.absent
  uses := s.uses ++ s.newUses q o

/-- One more request or administrator's command; `none`: FUSE would not pass the request, or the
daemon is killed by it. Source: `fs.c`, `disable_replica`, `enable_replica` -/
def step : Action n → Option (Supervised n)
  | .request q env =>
      if s.session.admits q then (handle q env s.session.daemon).map (s.after q) else none
  | .disable i =>
      some { s with session := s.session.administer (s.session.daemon.config.disableReplica i) }
  | .enable i =>
      some { s with session := s.session.administer (s.session.daemon.config.enableReplica i) }

end Supervised

end ChironFs
