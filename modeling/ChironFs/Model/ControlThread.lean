import ChironFs.Model.Control

/-!
# The control thread and the memory it works on

`processRequest` is handed the configuration. Here the configuration is part of the state, as the
global it is, so are the bytes behind `config.replicas`, and every index at which the array is
entered is recorded.

* `CtlThread`: the state. An index behind the last replica reads what lies there.
* `CtlThread.processRequest`, `CtlThread.serveSession`: one request, and the inner loop of
  `ctl_server` with the states in which it calls `process_request`.
-/

namespace ChironFs

variable {n : ℕ}

/-- The opcodes whose request goes on with the number of a replica. -/
def Opcode.aboutReplica : Opcode → Bool
  | getMaxReplica | done => false
  | getReplicaStatus | getReplicaPath | getReplicaTotalRead | getReplicaTotalWrite
  | getReplicaPriority => true

/-- The control thread in a session. `beyond i` is what lies where `config.replicas[i]` would be. -/
structure CtlThread (n : ℕ) where
  config : Config n
  beyond : ℕ → Replica
  conn : Conn
  touched : List ℕ := []

namespace CtlThread

/-- `res = read(cfd, buf, w); if (res != w) …`: the bytes, where the test passes. -/
def readWhole (w : ℕ) (t : CtlThread n) : Option (List UInt8) × CtlThread n :=
  let (res, p) := t.conn.toServer.readWhole w
  (res, { t with conn := { t.conn with toServer := p } })

/-- `config.replicas[i]` -/
def replica (i : ℕ) (t : CtlThread n) : Replica × CtlThread n :=
  (if h : i < n then t.config.replicas ⟨i, h⟩ else t.beyond i, { t with touched := i :: t.touched })

/-- The values of an answer, one `write` each. -/
def sendAll (values : List (List UInt8)) (t : CtlThread n) : ℤ × CtlThread n :=
  let (res, k) := t.conn.sendAll values
  (res, { t with conn := k })

section Server

variable (abi : Abi)

/-- The `case`s about one replica. All that one of them reads of the array is at one index. -/
def answerAbout (answer : Replica → List (List UInt8)) (t : CtlThread n) : ℤ × CtlThread n :=
  match t.readWhole abi.int with
  | (none, t) => (-1, t)
  | (some bs, t) =>
      if n ≤ abi.order.decode bs then (-1, t)
      else
        let (r, t) := t.replica (abi.order.decode bs)
        t.sendAll (answer r)

/-- One request. Source: `fs.c`, `process_request` -/
def processRequest (t : CtlThread n) : ℤ × CtlThread n :=
  match t.readWhole 1 with
  | (some [code], t) =>
      match Opcode.ofByte code with
      | some .getMaxReplica => t.sendAll [abi.order.encode abi.int n]
      | some .getReplicaStatus => answerAbout abi (statusAnswer abi) t
      | some .getReplicaPath => answerAbout abi (pathAnswer abi) t
      | some .getReplicaTotalRead => answerAbout abi (totalReadAnswer abi) t
      | some .getReplicaTotalWrite => answerAbout abi (totalWriteAnswer abi) t
      | some .getReplicaPriority => answerAbout abi (priorityAnswer abi) t
      | some .done => (-1, t)
      | none => (0, t)
  | (_, t) => (-1, t)

/-- `for(;;) { if(process_request(cfd)) break; }`, by recursion on the rounds allowed: the states in
which it calls `process_request`, and the one in which it ends; `none`: it takes more rounds.
Source: `fs.c`, `ctl_server` -/
def serveSession : ℕ → CtlThread n → List (CtlThread n) × Option (CtlThread n)
  | 0, _ => ([], none)
  | rounds + 1, t =>
      let (res, t') := processRequest abi t
      if res = 0 then (t :: (serveSession rounds t').1, (serveSession rounds t').2)
      else ([t], some t')

end Server

end CtlThread

end ChironFs
