import ChironFs.Model.Table

/-!
# Replica selection and the disabling rule (`fs.c`)

`xlate`, `choose_replica`, `disable_replica`, `enable_replica`, `disable_faulty_replicas`,
`get_first_error`, `drop_priv`, `reacquire_priv`.
-/

namespace ChironFs

open Posix

variable {n : ℕ}

/-- The name of a file on a replica; `alloc`: `malloc` gets its memory.
Source: `fs.c`, `xlate` -/
def xlate (fname : Path) (rpath : Option Path) (alloc : Bool) : Option Path :=
  match rpath with
  | none => none
  | some r => if alloc then some (r ++ fname) else none

namespace Config

variable (c : Config n)

/-- The first remainder of `choose_replica`: the cursor over the high-priority replicas moves on
at the first try. `none`: remainder by zero. -/
def advanceHigh (k : ℕ) : Option (Config n) :=
  if k = 0 then
    if c.maxReplicaHigh = 0 then none
    else some { c with currReplicaHigh := (c.currReplicaHigh + 1) % c.maxReplicaHigh }
  else some c

/-- The second remainder of `choose_replica`: the cursor over the low-priority replicas moves on
when the high-priority ones are used up. `none`: remainder by zero. -/
def advanceLow (k : ℕ) : Option (Config n) :=
  if k = c.maxReplicaHigh then
    if c.maxReplicaLow = 0 then none
    else some { c with currReplicaLow := (c.currReplicaLow + 1) % c.maxReplicaLow }
  else some c

/-- The replica to ask at try number `k`, and the moved cursors; `none`: a remainder by zero, or a
read outside the filled part of a round-robin table.
Source: `fs.c`, `choose_replica` -/
def chooseReplica (k : ℕ) : Option (Fin n × Config n) := do
  let c ← c.advanceHigh k
  let c ← c.advanceLow k
  if k < c.maxReplicaHigh then
    let r ← c.roundRobinHigh[(c.currReplicaHigh + k) % c.maxReplicaHigh]?
    some (r, c)
  else if c.maxReplicaLow = 0 then none
  else
    let r ← c.roundRobinLow[(c.currReplicaLow + k - c.maxReplicaHigh) % c.maxReplicaLow]?
    some (r, c)

/-- Source: `fs.c`, `disable_replica` -/
def disableReplica (i : Fin n) : Config n × List (Event n) :=
  (c.setReplica i { c.replicas i with disabled := true },
    [.log (some i) "disabling replica" (.path (c.replicas i).path) 0])

/-- Source: `fs.c`, `enable_replica` -/
def enableReplica (i : Fin n) : Config n × List (Event n) :=
  (c.setReplica i { c.replicas i with disabled := false },
    [.log (some i) "enabling replica" (.path (c.replicas i).path) 0])

/-- The loop of `disable_faulty_replicas`. -/
def disableLoop (operation : String) (errList : Fin n → ℤ) :
    List (Fin n) → Config n → Config n × List (Event n)
  | [], c => (c, [])
  | i :: is, c =>
      if (c.replicas i).disabled then disableLoop operation errList is c
      else if errList i ≠ 0 then
        let log : Event n := .log (some i) operation (.path (c.replicas i).path) (errList i)
        let d := c.disableReplica i
        let rest := disableLoop operation errList is d.1
        (rest.1, log :: d.2 ++ rest.2)
      else disableLoop operation errList is c

/-- Disable faulty replicas if and only if there has been at least one replica which succeeded.
Source: `fs.c`, `disable_faulty_replicas` -/
def disableFaultyReplicas (operation : String) (succCnt failCnt : ℕ) (errList : Fin n → ℤ) :
    Config n × List (Event n) :=
  if failCnt ≠ 0 ∧ succCnt ≠ 0 then disableLoop operation errList (List.finRange n) c
  else (c, [])

/-- The loop of `get_first_error`. -/
def firstErrorLoop (errList : Fin n → ℤ) : List (Fin n) → ℤ
  | [] => 0
  | i :: is =>
      if (c.replicas i).disabled = false ∧ errList i ≠ 0 then errList i
      else firstErrorLoop errList is

/-- Returns the first error from an error list. Source: `fs.c`, `get_first_error` -/
def getFirstError (errList : Fin n → ℤ) : ℤ := c.firstErrorLoop errList (List.finRange n)

end Config

/-! ## Credentials -/

/-- The value a credential function returns, the credentials after it, and the calls it made. -/
structure CredOutcome (n : ℕ) where
  ret : ℤ
  creds : Creds
  trace : List (Event n)

/-- Take on the caller's group, then the caller's user.
Source: `fs.c`, `drop_priv` -/
def dropPriv (env : Env n) (cr : Creds) : CredOutcome n :=
  match if env.refuse .dropGid then none else cr.setegid env.gid with
  | none => { ret := -1, creds := cr, trace := [.setegid env.gid false] }
  | some cr₁ =>
      match if env.refuse .dropUid then none else cr₁.seteuid env.uid with
      | none =>
          { ret := -1, creds := cr₁, trace := [.setegid env.gid true, .seteuid env.uid false] }
      | some cr₂ =>
          { ret := 0, creds := cr₂, trace := [.setegid env.gid true, .seteuid env.uid true] }

/-- Take on the daemon's user again, then its group.
Source: `fs.c`, `reacquire_priv` -/
def reacquirePriv (env : Env n) (c : Config n) (cr : Creds) : CredOutcome n :=
  match if env.refuse .backUid then none else cr.seteuid c.uid with
  | none => { ret := -1, creds := cr, trace := [.seteuid c.uid false] }
  | some cr₁ =>
      match if env.refuse .backGid then none else cr₁.setegid c.gid with
      | none => { ret := -1, creds := cr₁, trace := [.seteuid c.uid true, .setegid c.gid false] }
      | some cr₂ =>
          { ret := 0, creds := cr₂, trace := [.seteuid c.uid true, .setegid c.gid true] }

end ChironFs
