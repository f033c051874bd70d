import ChironFs.Lib.Wire
import ChironFs.Model.Types

/-!
# The control socket (`fs.c`: `process_request`, `ctl_server`; `ctl.c`)

Two programs at the two ends of a socket: the control thread of the daemon and `chironctl`. They
share the numbers of the opcodes and nothing else.

* `Abi`: the widths and the byte order both programs are compiled for.
* `Opcode`: the `enum` of `fs.h`.
* `Pipe`, `Conn`: one direction of a connection, and the two together. A `read` or `write` is
  whole, short or refused, as the pipe says; each side checks the count.
* `processRequest`, `serveSession`: one request, and the inner loop of `ctl_server`.
* `CtlServer`, `CtlServer.step`: the outer loop of `ctl_server`, with the descriptors of the daemon.
* `getPath`, …, `getMaxReplica`: the client's functions. `Query`: a call of one of them.
* `chironctl`: the query loop of `main`.

`dbg` and the texts that go to standard error before an `exit` are left out.
-/

namespace ChironFs

open Wire

variable {n : ℕ}

/-- Sizes of `int`, `size_t` and `unsigned long long`, and the order of their bytes. -/
structure Abi where
  order : ByteOrder
  int : ℕ
  size : ℕ
  longLong : ℕ
  int_pos : 0 < int := by decide
  longLong_ge : 8 ≤ longLong := by decide

/-- The actions of the control socket. Source: `fs.h` -/
inductive Opcode
  | getMaxReplica
  | getReplicaStatus
  | getReplicaPath
  | getReplicaTotalRead
  | getReplicaTotalWrite
  | getReplicaPriority
  | done
deriving DecidableEq, Repr

namespace Opcode

/-- The number the enumeration gives it, in one `char`. -/
def toByte : Opcode → UInt8
  | getMaxReplica => 0
  | getReplicaStatus => 1
  | getReplicaPath => 2
  | getReplicaTotalRead => 3
  | getReplicaTotalWrite => 4
  | getReplicaPriority => 5
  | done => 6

/-- The `case` that a `switch` on this `char` takes; `none`: `default`. -/
def ofByte : UInt8 → Option Opcode
  | 0 => some getMaxReplica
  | 1 => some getReplicaStatus
  | 2 => some getReplicaPath
  | 3 => some getReplicaTotalRead
  | 4 => some getReplicaTotalWrite
  | 5 => some getReplicaPriority
  | 6 => some done
  | _ => none

@[simp] theorem ofByte_toByte (o : Opcode) : ofByte o.toByte = some o := by cases o <;> rfl

end Opcode

/-! ## The connection -/

/-- One direction of a connection: the bytes on their way, and what the next calls on it come to.
`none` is a call that fails, `some m` one that moves at most `m` bytes; where no entry is left, a
call moves all it is asked for (a `read`: all of it that is there). -/
structure Pipe where
  bytes : List UInt8 := []
  reads : List (Option ℕ) := []
  writes : List (Option ℕ) := []
deriving DecidableEq

namespace Pipe

/-- `read(fd, buf, w)`: what it stores; `none` is `-1`. -/
def read (p : Pipe) (w : ℕ) : Option (List UInt8) × Pipe :=
  match p.reads with
  | [] => (some (p.bytes.take w), { p with bytes := p.bytes.drop w })
  | none :: reads => (none, { p with reads := reads })
  | some m :: reads =>
      (some (p.bytes.take (min m w)), { p with bytes := p.bytes.drop (min m w), reads := reads })

/-- `write(fd, buf, w)` of these bytes: how many got in; `none` is `-1`. -/
def write (p : Pipe) (bs : List UInt8) : Option ℕ × Pipe :=
  match p.writes with
  | [] => (some bs.length, { p with bytes := p.bytes ++ bs })
  | none :: writes => (none, { p with writes := writes })
  | some m :: writes =>
      (some (min m bs.length), { p with bytes := p.bytes ++ bs.take m, writes := writes })

/-- `res = read(fd, buf, w); if (res != w) …`: the bytes, where the test passes. -/
def readWhole (p : Pipe) (w : ℕ) : Option (List UInt8) × Pipe :=
  let (res, p) := p.read w
  (res.filter fun bs => bs.length = w, p)

/-- `res = write(fd, buf, w); if (res != w) …`: whether the test passes. -/
def writeWhole (p : Pipe) (bs : List UInt8) : Bool × Pipe :=
  let (res, p) := p.write bs
  (res = some bs.length, p)

end Pipe

/-- A connection. -/
structure Conn where
  toServer : Pipe := {}
  toClient : Pipe := {}
deriving DecidableEq

/-! ## The server -/

/-- `config.replicas[i]`; `none`: an access outside the array. -/
def Config.replicaAt (c : Config n) (i : ℕ) : Option Replica :=
  if h : i < n then some (c.replicas ⟨i, h⟩) else none

namespace Conn

/-- The values of an answer, one `write` each; `-1` from the first that does not get in whole. -/
def sendAll : List (List UInt8) → Conn → ℤ × Conn
  | [], k => (0, k)
  | bs :: rest, k =>
      match k.toClient.writeWhole bs with
      | (true, p) => sendAll rest { k with toClient := p }
      | (false, p) => (-1, { k with toClient := p })

end Conn

section Server

variable (abi : Abi) (c : Config n)

/-- The `case`s about one replica: read its number, refuse one behind the last, send the answer. -/
def answerAbout (answer : Replica → List (List UInt8)) (k : Conn) : Option (ℤ × Conn) :=
  match k.toServer.readWhole abi.int with
  | (none, p) => some (-1, { k with toServer := p })
  | (some bs, p) =>
      let k := { k with toServer := p }
      if n ≤ abi.order.decode bs then some (-1, k)
      else (c.replicaAt (abi.order.decode bs)).map fun r => k.sendAll (answer r)

/-- `config.replicas[c].pathlen`, then so many bytes from `config.replicas[c].path` on. -/
def pathAnswer (r : Replica) : List (List UInt8) :=
  [abi.order.encode abi.size r.pathlen, (r.path.getD []).take r.pathlen]

def statusAnswer (r : Replica) : List (List UInt8) := [abi.order.encode abi.int r.disabled.toNat]

def priorityAnswer (r : Replica) : List (List UInt8) := [abi.order.encode abi.int r.priority.toNat]

def totalReadAnswer (r : Replica) : List (List UInt8) :=
  [abi.order.encode abi.longLong r.totrd.toNat]

def totalWriteAnswer (r : Replica) : List (List UInt8) :=
  [abi.order.encode abi.longLong r.totwr.toNat]

/-- One request: the value returned and the connection after it; `none`: an access outside the
replica array. Source: `fs.c`, `process_request` -/
def processRequest (k : Conn) : Option (ℤ × Conn) :=
  match k.toServer.readWhole 1 with
  | (some [code], p) =>
      let k := { k with toServer := p }
      match Opcode.ofByte code with
      | some .getMaxReplica => some (k.sendAll [abi.order.encode abi.int n])
      | some .getReplicaStatus => answerAbout abi c (statusAnswer abi) k
      | some .getReplicaPath => answerAbout abi c (pathAnswer abi) k
      | some .getReplicaTotalRead => answerAbout abi c (totalReadAnswer abi) k
      | some .getReplicaTotalWrite => answerAbout abi c (totalWriteAnswer abi) k
      | some .getReplicaPriority => answerAbout abi c (priorityAnswer abi) k
      | some .done => some (-1, k)
      | none => some (0, k)
  | (_, p) => some (-1, { k with toServer := p })

/-- `for(;;) { if(process_request(cfd)) break; }`, by recursion on the rounds allowed; `none`: the
loop takes more. Source: `fs.c`, `ctl_server` -/
def serveSession : ℕ → Conn → Option Conn
  | 0, _ => none
  | rounds + 1, k => do
      let (res, k) ← processRequest abi c k
      if res = 0 then serveSession rounds k else some k

end Server

/-- The control thread about to call `accept`, with the descriptors that are open in the daemon.
Those of `sessions` are the ones `accept` returned; `others` are the rest: standard streams, log,
control socket, FUSE, replicas. -/
structure CtlServer where
  limit : ℕ
  others : List ℕ
  sessions : List ℕ := []
deriving DecidableEq

namespace CtlServer

variable (s : CtlServer)

/-- The descriptors below the limit that are not in use. -/
def free : List ℕ := (List.range s.limit).filter fun fd => fd ∉ s.others ∧ fd ∉ s.sessions

/-- `accept(sfd, NULL, NULL)`: the lowest free descriptor; `none` is `-1`.
Fidelity: it fails for lack of descriptors only -/
def accept : Option ℕ := s.free.head?

/-- The control thread from one `accept` to the next: a client comes, is served, and the loop goes
round; nothing in it closes `cfd`. A session needs one round more than it has bytes.
`none`: `accept` fails and the daemon exits, or the session does not end.
Source: `fs.c`, `ctl_server` -/
def step (abi : Abi) (session : Config n × Conn) : Option CtlServer := do
  let cfd ← s.accept
  let _ ← serveSession abi session.1 (session.2.toServer.bytes.length + 1) session.2
  some { s with sessions := cfd :: s.sessions }

end CtlServer

/-! ## The client -/

/-- A block of memory from `malloc`: the bytes stored at its start, then those it still holds from
before. -/
structure Buffer where
  filled : List UInt8
  rest : List UInt8
deriving DecidableEq

/-- The C string at its start; `none`: there is no NUL in it, and a read as a string goes on behind
its end. -/
def Buffer.string (b : Buffer) : Option (List UInt8) :=
  if 0 ∈ b.filled ++ b.rest then some ((b.filled ++ b.rest).takeWhile (· ≠ 0)) else none

namespace Conn

variable (k : Conn)

/-- The client's `write` and its test; `none` is `exit(EXIT_FAILURE)`. -/
def clientWrite (bs : List UInt8) : Option Conn :=
  match k.toServer.writeWhole bs with
  | (true, p) => some { k with toServer := p }
  | (false, _) => none

/-- The client's `read` and its test; `none` is `exit(EXIT_FAILURE)`. -/
def clientRead (w : ℕ) : Option (List UInt8 × Conn) :=
  match k.toClient.readWhole w with
  | (some bs, p) => some (bs, { k with toClient := p })
  | (none, _) => none

end Conn

section Client

/-! `wait` is what happens at the other end until the client's first `read` returns. -/

variable (abi : Abi) (heap : ℕ → UInt8) (wait : Conn → Option Conn)

/-- An opcode, then the replica it is about. -/
def sendQuery (code : Opcode) (replica : ℕ) (k : Conn) : Option Conn := do
  let k ← k.clientWrite [code.toByte]
  k.clientWrite (abi.order.encode abi.int replica)

/-- The functions that ask about a replica and get one number of `w` bytes. -/
def getNumber (code : Opcode) (w replica : ℕ) (k : Conn) : Option (ℕ × Conn) := do
  let k ← sendQuery abi code replica k
  let k ← wait k
  let (bs, k) ← k.clientRead w
  some (abi.order.decode bs, k)

/-- The buffer is of `plen * (sizeof(char) + 1)` bytes; `heap` is what lies there beforehand.
Source: `ctl.c`, `get_path`
Fidelity: the size does not wrap, as a path that is in memory is shorter than half of it -/
def getPath (replica : ℕ) (k : Conn) : Option (Buffer × Conn) := do
  let k ← sendQuery abi .getReplicaPath replica k
  let k ← wait k
  let (bs, k) ← k.clientRead abi.size
  let plen := abi.order.decode bs
  let (path, k) ← k.clientRead plen
  some ({ filled := path, rest := ((List.range (plen * 2)).map heap).drop plen }, k)

/-- Source: `ctl.c`, `get_priority` -/
def getPriority : ℕ → Conn → Option (ℕ × Conn) :=
  getNumber abi wait .getReplicaPriority abi.int

/-- Source: `ctl.c`, `get_total_read` -/
def getTotalRead : ℕ → Conn → Option (ℕ × Conn) :=
  getNumber abi wait .getReplicaTotalRead abi.longLong

/-- Source: `ctl.c`, `get_total_write` -/
def getTotalWrite : ℕ → Conn → Option (ℕ × Conn) :=
  getNumber abi wait .getReplicaTotalWrite abi.longLong

/-- Source: `ctl.c`, `get_status` -/
def getStatus : ℕ → Conn → Option (ℕ × Conn) :=
  getNumber abi wait .getReplicaStatus abi.int

/-- Source: `ctl.c`, `get_max_replica` -/
def getMaxReplica (k : Conn) : Option (ℕ × Conn) := do
  let k ← k.clientWrite [Opcode.getMaxReplica.toByte]
  let k ← wait k
  let (bs, k) ← k.clientRead abi.int
  some (abi.order.decode bs, k)

/-- What `main` prints about one replica. -/
structure Report where
  path : Buffer
  status : ℕ
  priority : ℕ
  totalRead : ℕ
  totalWrite : ℕ
deriving DecidableEq

/-- `for(i = 0; i < max_replica; i++)`, with `left` replicas to go. -/
def reportLoop : ℕ → ℕ → Conn → Option (List Report × Conn)
  | 0, _, k => some ([], k)
  | left + 1, i, k => do
      let (path, k) ← getPath abi heap wait i k
      let (status, k) ← getStatus abi wait i k
      let (priority, k) ← getPriority abi wait i k
      let (totalRead, k) ← getTotalRead abi wait i k
      let (totalWrite, k) ← getTotalWrite abi wait i k
      let (reports, k) ← reportLoop left (i + 1) k
      some (⟨path, status, priority, totalRead, totalWrite⟩ :: reports, k)

/-- What `chironctl` prints on a connection. Source: `ctl.c`, `main` -/
def chironctl (k : Conn) : Option (ℕ × List Report × Conn) := do
  let (maxReplica, k) ← getMaxReplica abi wait k
  let (reports, k) ← reportLoop abi heap wait maxReplica 0 k
  some (maxReplica, reports, k)

end Client

/-! ## Queries -/

/-- A call of one of the client's functions, about a replica the server has. -/
inductive Query (n : ℕ)
  | maxReplica
  | path (i : Fin n)
  | status (i : Fin n)
  | priority (i : Fin n)
  | totalRead (i : Fin n)
  | totalWrite (i : Fin n)
deriving DecidableEq

/-- What such a call returns. -/
inductive QueryAnswer
  | number (v : ℕ)
  | path (buffer : Buffer)
deriving DecidableEq

/-- The call, on a connection. -/
def Query.ask (abi : Abi) (heap : ℕ → UInt8) (wait : Conn → Option Conn) (q : Query n) (k : Conn) :
    Option (QueryAnswer × Conn) :=
  match q with
  | .maxReplica => (getMaxReplica abi wait k).map (Prod.map .number id)
  | .path i => (getPath abi heap wait i k).map (Prod.map .path id)
  | .status i => (getStatus abi wait i k).map (Prod.map .number id)
  | .priority i => (getPriority abi wait i k).map (Prod.map .number id)
  | .totalRead i => (getTotalRead abi wait i k).map (Prod.map .number id)
  | .totalWrite i => (getTotalWrite abi wait i k).map (Prod.map .number id)

/-- One round of the server's loop that does not end the session. -/
def served (abi : Abi) (c : Config n) (k : Conn) : Option Conn := do
  let (res, k) ← processRequest abi c k
  if res = 0 then some k else none

/-- One query after another, the server taking one round for each: every answer, with the
connection as it is then. -/
def converse (abi : Abi) (heap : ℕ → UInt8) (c : Config n) :
    List (Query n) → Conn → Option (List (QueryAnswer × Conn))
  | [], _ => some []
  | q :: qs, k => do
      let (answer, k) ← q.ask abi heap (served abi c) k
      let rest ← converse abi heap c qs k
      some ((answer, k) :: rest)

end ChironFs
