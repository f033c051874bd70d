import ChironFs.Lib.Lagging
import ChironFs.Lib.Run
import ChironFs.Spec.OneCopy

/-!
# One file system, many requests

What the daemon is meant to be for programs that run at the same time: a single file system that
executes each request at one moment between its beginning and its return.

* `FileSystem.act`: a request as an operation on a store.
* `Atomic.step`: a request is begun, is served by the copy, returns. One that has not been served may
  only fail; the handle of a file is known from the moment its `open` returns.
* `Atomic.Act.shown`: the moment a request is served is not seen from outside.
-/

namespace ChironFs

open Posix

variable {T S F : Type*}

/-- A request as an operation on a store, when its handle refers to `f`: the response, and the file
it opened. -/
def FileSystem.act (fs : FileSystem S F) (cr : Creds) (q : Request) (f : Option F) (s : S) :
    Option (S × Response × Option F) :=
  (fs.answer cr q f s).map fun a => (a.store, q.respond a.reply, a.opened)

/-- How far a request is. -/
inductive Phase (F : Type*)
  | idle
  | asked
  | served (r : Response) (opened : Option F)
  | returned

/-- The file system and its requests. -/
structure Atomic (T S F : Type*) where
  copy : Copy S F
  phase : T → Phase F

namespace Atomic

/-- What happens to a request. -/
inductive Act (T : Type*)
  | refuses (t : T) (r : Response)
  | asks (t : T)
  | serves (t : T)
  | returns (t : T) (r : Response) (fh : Option ℕ)

/-- What is seen of it. -/
def Act.shown : Act T → Option (Act T)
  | .serves _ => none
  | a => some a

/-- Nothing was asked yet. -/
def start (s : S) : Atomic T S F :=
  { copy := { store := s, file := fun _ => none }, phase := fun _ => .idle }

variable [DecidableEq T] (fs : FileSystem S F) (cr : Creds) (req : T → Request) (α : Atomic T S F)

/-- The request as an operation on the copy's store. -/
def act (t : T) : S → Option (S × Response × Option F) :=
  fs.act cr (req t) ((req t).uses.bind α.copy.file)

/-- The request goes on to another phase. -/
def go (t : T) (p : Phase F) : Atomic T S F := { α with phase := Function.update α.phase t p }

/-- The copy executes a request. -/
def serve (t : T) (a : S × Response × Option F) : Atomic T S F :=
  { copy := { α.copy with store := a.1 }
    phase := Function.update α.phase t (.served a.2.1 a.2.2) }

/-- The handle `fh` now refers to the file `g`. -/
def keep (t : T) (fh : ℕ) (g : Option F) : Atomic T S F :=
  { copy := { α.copy with file := Function.update α.copy.file fh g }
    phase := Function.update α.phase t .returned }

/-- The result a request got. -/
def result (t : T) : Response × Option F :=
  match α.phase t with
  | .served r g => (r, g)
  | _ => ({ ret := 0 }, none)

/-- One step of the file system. `open` and `create` may be served and find no slot for a handle. -/
def step (α : Atomic T S F) : Act T → Option (Atomic T S F)
  | .refuses t r =>
      match α.phase t with
      | .idle => if r.ret < 0 then some (α.go t .returned) else none
      | _ => none
  | .asks t =>
      match α.phase t with
      | .idle => some (α.go t .asked)
      | _ => none
  | .serves t =>
      match α.phase t with
      | .asked => (α.act fs cr req t α.copy.store).map (α.serve t)
      | _ => none
  | .returns t r fh =>
      match α.phase t, fh with
      | .asked, none =>
          if (req t).releases = true ∨ r.ret < 0 then some (α.go t .returned) else none
      | .served r' _, none =>
          if r = (if (req t).opens then { ret := EMFILE.neg } else r') then
            some (α.go t .returned)
          else none
      | .served r' g, some fh =>
          if (req t).opens = true ∧ r = r' then some (α.keep t fh g) else none
      | _, _ => none

end Atomic

end ChironFs
