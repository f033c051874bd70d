import ChironFs.Lib.Run
import ChironFs.Model.Control

/-!
# What the two ends of the control socket do

* **Requests come to an end** (`processRequest_returns`, `serveSession_ends`): on any connection a
  request returns, and one that does not end the session has taken at least its opcode.
* **The descriptors of a run** (`CtlServer.step_eq`, `isSome_runFrom_iff`): a session costs one
  descriptor, whatever the client sends.
* **A query on a connection whose calls are whole** (`Conn.carrying`): the server takes `request`
  and sends `reply` (`processRequest_request`); the client sends the one, reads the other and has
  `answer` (`ask_of_wait`, `ask_served`).
* `Config.Sendable`: the numbers fit in their types.
-/

namespace ChironFs

open Machine Wire

variable {n : ℕ}

/-! ## Every request returns -/

namespace Pipe

/-- Reading takes bytes from the front. -/
theorem read_suffix (p : Pipe) (w : ℕ) : (p.read w).2.bytes <:+ p.bytes := by
  unfold read
  split
  · exact List.drop_suffix _ _
  · exact List.suffix_rfl
  · exact List.drop_suffix _ _

/-- So does reading a value of some size. -/
theorem readWhole_suffix (p : Pipe) (w : ℕ) : (p.readWhole w).2.bytes <:+ p.bytes :=
  p.read_suffix w

/-- What a `read` stores is gone from the pipe. -/
theorem length_read {p : Pipe} {w : ℕ} {bs : List UInt8} (h : (p.read w).1 = some bs) :
    (p.read w).2.bytes.length + bs.length = p.bytes.length := by
  unfold read at h ⊢
  split at h
  · obtain rfl := Option.some.inj h
    simp only [List.length_take, List.length_drop]
    omega
  · cases h
  · obtain rfl := Option.some.inj h
    simp only [List.length_take, List.length_drop]
    omega

/-- A `read` that passes its test has taken as many bytes as it asked for. -/
theorem length_of_readWhole {p p' : Pipe} {w : ℕ} {bs : List UInt8}
    (h : p.readWhole w = (some bs, p')) : p'.bytes.length + w = p.bytes.length := by
  have hfilter : (p.read w).1.filter (fun bs => bs.length = w) = some bs := congrArg Prod.fst h
  have hrest : (p.read w).2 = p' := congrArg Prod.snd h
  obtain ⟨hread, hlen⟩ := Option.filter_eq_some_iff.mp hfilter
  rw [← length_read hread, of_decide_eq_true hlen, hrest]

end Pipe

/-- Sending leaves what was sent to the server. -/
theorem Conn.sendAll_toServer (values : List (List UInt8)) (k : Conn) :
    (k.sendAll values).2.toServer = k.toServer := by
  induction values generalizing k with
  | nil => rfl
  | cons bs rest ih =>
      rw [Conn.sendAll]
      split
      · exact ih _
      · rfl

/-- An index below the number of replicas has a replica. -/
theorem Config.replicaAt_of_lt (c : Config n) {i : ℕ} (h : i < n) :
    c.replicaAt i = some (c.replicas ⟨i, h⟩) := dif_pos h

section Server

variable (abi : Abi) (c : Config n)

/-- The replica array is entered with a number it has, and no byte comes back. -/
theorem answerAbout_returns (answer : Replica → List (List UInt8)) (k : Conn) :
    ∃ res k', answerAbout abi c answer k = some (res, k') ∧
      k'.toServer.bytes <:+ k.toServer.bytes := by
  have hsuffix := k.toServer.readWhole_suffix abi.int
  unfold answerAbout
  split
  case h_1 p hread =>
    rw [hread] at hsuffix
    exact ⟨_, _, rfl, hsuffix⟩
  case h_2 bs p hread =>
    rw [hread] at hsuffix
    dsimp only
    split_ifs with hrange
    · exact ⟨_, _, rfl, hsuffix⟩
    · rw [c.replicaAt_of_lt (not_le.mp hrange)]
      refine ⟨_, _, rfl, ?_⟩
      rw [Conn.sendAll_toServer]
      exact hsuffix

/-- **A request returns**, and one that keeps the session going has taken its opcode. -/
theorem processRequest_returns (k : Conn) :
    ∃ res k', processRequest abi c k = some (res, k') ∧
      (res = 0 → k'.toServer.bytes.length < k.toServer.bytes.length) := by
  unfold processRequest
  split
  case h_1 code p hread =>
    have htaken := Pipe.length_of_readWhole hread
    -- an arm that leaves no more input than there is behind the opcode
    have harm : ∀ (res : ℤ) (k' : Conn), k'.toServer.bytes <:+ p.bytes →
        (res = 0 → k'.toServer.bytes.length < k.toServer.bytes.length) := by
      intro res k' hsuffix _
      have hle := hsuffix.length_le
      omega
    have habout : ∀ answer, ∃ res k',
        answerAbout abi c answer { k with toServer := p } = some (res, k') ∧
          (res = 0 → k'.toServer.bytes.length < k.toServer.bytes.length) := by
      intro answer
      obtain ⟨res, k', hres, hsuffix⟩ := answerAbout_returns abi c answer { k with toServer := p }
      exact ⟨res, k', hres, harm res k' hsuffix⟩
    dsimp only
    split
    · refine ⟨_, _, congrArg some Prod.mk.eta.symm, harm _ _ ?_⟩
      rw [Conn.sendAll_toServer]
    · exact habout _
    · exact habout _
    · exact habout _
    · exact habout _
    · exact habout _
    · exact ⟨_, _, rfl, harm _ _ List.suffix_rfl⟩
    · exact ⟨_, _, rfl, harm _ _ List.suffix_rfl⟩
  case h_2 =>
    exact ⟨_, _, rfl, fun h => absurd h (by decide)⟩

/-- The inner loop ends before it has taken more rounds than there are bytes, and one. -/
theorem serveSession_ends {rounds : ℕ} {k : Conn} (h : k.toServer.bytes.length < rounds) :
    ∃ k', serveSession abi c rounds k = some k' := by
  induction rounds generalizing k with
  | zero => omega
  | succ rounds ih =>
      obtain ⟨res, k', hres, hless⟩ := processRequest_returns abi c k
      simp only [serveSession, hres, Option.bind_eq_bind, Option.bind_some]
      split_ifs with hzero
      · exact ih (by have := hless hzero; omega)
      · exact ⟨k', rfl⟩

end Server

/-! ## The descriptors of the control thread -/

namespace CtlServer

variable {s s' : CtlServer} {abi : Abi}

/-- **What one round leaves behind**: the descriptor it got, and nothing of what the client sent. -/
theorem step_eq (a : Config n × Conn) :
    s.step abi a = s.accept.map fun cfd => { s with sessions := cfd :: s.sessions } := by
  obtain ⟨k', hk'⟩ := serveSession_ends abi a.1 a.2.toServer.bytes.length.lt_succ_self
  unfold step
  rw [hk']
  cases s.accept <;> rfl

/-- No entry is free twice. -/
theorem nodup_free (s : CtlServer) : s.free.Nodup := List.nodup_range.filter _

/-- A round uses up one free descriptor. -/
theorem length_free_of_accept {cfd : ℕ} (h : s.accept = some cfd) :
    ({ s with sessions := cfd :: s.sessions } : CtlServer).free.length + 1 = s.free.length := by
  have hmem : cfd ∈ s.free := List.mem_of_mem_head? h
  have hfree : ({ s with sessions := cfd :: s.sessions } : CtlServer).free = s.free.erase cfd := by
    rw [s.nodup_free.erase_eq_filter]
    simp only [free, List.filter_filter]
    refine List.filter_congr fun fd _ => ?_
    by_cases hfd : fd = cfd <;> simp [hfd]
  rw [hfree, List.length_erase_of_mem hmem]
  have := List.length_pos_of_mem hmem
  omega

/-- A connection is accepted while an entry is free. -/
theorem accept_isSome_iff : s.accept.isSome ↔ 0 < s.free.length := by
  unfold accept
  cases s.free <;> simp

/-- One round: it takes place if a descriptor is free, and then keeps one. -/
theorem step_cases {a : Config n × Conn} (h : s.step abi a = some s') :
    s'.sessions.length = s.sessions.length + 1 ∧ s'.free.length + 1 = s.free.length := by
  rw [step_eq, Option.map_eq_some_iff] at h
  obtain ⟨cfd, haccept, rfl⟩ := h
  exact ⟨rfl, length_free_of_accept haccept⟩

/-- So a session can begin while one is. -/
theorem step_isSome_iff (a : Config n × Conn) : (s.step abi a).isSome ↔ 0 < s.free.length := by
  rw [step_eq, Option.isSome_map, accept_isSome_iff]

/-- **The control thread serves as many clients as it has descriptors.** -/
theorem isSome_runFrom_iff (as : List (Config n × Conn)) :
    (runFrom (fun s a => s.step abi a) s as).isSome ↔ as.length ≤ s.free.length := by
  induction as generalizing s with
  | nil => simp
  | cons a as ih =>
      rw [runFrom_cons, List.length_cons]
      cases hstep : s.step abi a with
      | none =>
          have hfree : ¬ 0 < s.free.length := fun hpos => by
            rw [← step_isSome_iff a, hstep] at hpos
            cases hpos
          refine iff_of_false (by simp) ?_
          omega
      | some s' =>
          have hless := (step_cases hstep).2
          rw [Option.bind_some, ih]
          omega

/-- Each of them leaves one descriptor open. -/
theorem length_sessions_of_run {as : List (Config n × Conn)}
    (h : runFrom (fun s a => s.step abi a) s as = some s') :
    s'.sessions.length = s.sessions.length + as.length := by
  induction as generalizing s with
  | nil =>
      cases h
      rfl
  | cons a as ih =>
      rw [runFrom_cons, Option.bind_eq_some_iff] at h
      obtain ⟨s₁, hstep, hrun⟩ := h
      rw [ih hrun, (step_cases hstep).1, List.length_cons]
      omega

end CtlServer

/-! ## A connection whose calls are whole -/

/-- What is on its way in each direction, on a connection where every call moves all it can. -/
def Conn.carrying (input output : List UInt8) : Conn where
  toServer := { bytes := input }
  toClient := { bytes := output }

/-- A value at the front is read. -/
theorem Pipe.readWhole_append {bs : List UInt8} {w : ℕ} (h : bs.length = w) (rest : List UInt8) :
    ({ bytes := bs ++ rest } : Pipe).readWhole w = (some bs, { bytes := rest }) := by
  subst h
  simp [Pipe.readWhole, Pipe.read]

/-- A value is written at the end. -/
theorem Pipe.writeWhole_eq (bs more : List UInt8) :
    ({ bytes := bs } : Pipe).writeWhole more = (true, { bytes := bs ++ more }) := by
  simp [Pipe.writeWhole, Pipe.write]

namespace Conn

variable (input output : List UInt8)

/-- So are several. -/
theorem sendAll_carrying (values : List (List UInt8)) :
    (carrying input output).sendAll values = (0, carrying input (output ++ values.flatten)) := by
  induction values generalizing output with
  | nil => simp [sendAll]
  | cons bs rest ih =>
      have hwrite : (carrying input output).toClient.writeWhole bs =
          (true, { bytes := output ++ bs }) := Pipe.writeWhole_eq output bs
      rw [sendAll, hwrite, List.flatten_cons, ← List.append_assoc]
      exact ih (output ++ bs)

/-- What the client writes is what the server will read. -/
theorem clientWrite_carrying (bs : List UInt8) :
    (carrying input output).clientWrite bs = some (carrying (input ++ bs) output) := by
  have hwrite : (carrying input output).toServer.writeWhole bs =
      (true, { bytes := input ++ bs }) := Pipe.writeWhole_eq input bs
  rw [clientWrite, hwrite]
  rfl

/-- What the client reads is what the server wrote. -/
theorem clientRead_carrying {bs : List UInt8} {w : ℕ} (h : bs.length = w) :
    (carrying input (bs ++ output)).clientRead w = some (bs, carrying input output) := by
  have hread : (carrying input (bs ++ output)).toClient.readWhole w =
      (some bs, { bytes := output }) := Pipe.readWhole_append h output
  rw [clientRead, hread]
  rfl

end Conn

/-- The numbers of a configuration fit in the types they have in C, and a replica's path has the
bytes that are counted. -/
structure Config.Sendable (c : Config n) (abi : Abi) : Prop where
  replicas_lt : n < 256 ^ abi.int
  pathlen_lt : ∀ i, (c.replicas i).pathlen < 256 ^ abi.size
  pathlen_le : ∀ i, (c.replicas i).pathlen ≤ ((c.replicas i).path.getD []).length

namespace Abi

variable (abi : Abi)

/-- A flag fits in an `int`. -/
theorem toNat_lt (b : Bool) : b.toNat < 256 ^ abi.int :=
  b.toNat_lt.trans_le ((by decide : 2 ≤ 256 ^ 1).trans
    (Nat.pow_le_pow_right (by decide) abi.int_pos))

/-- A count fits in an `unsigned long long`. -/
theorem total_lt (v : UInt64) : v.toNat < 256 ^ abi.longLong :=
  v.toNat_lt.trans_le ((by decide : 2 ^ 64 ≤ 256 ^ 8).trans
    (Nat.pow_le_pow_right (by decide) abi.longLong_ge))

end Abi

/-! ## A query at both ends -/

namespace Query

/-- The bytes of a query about a replica. -/
def about (abi : Abi) (code : Opcode) (i : Fin n) : List UInt8 :=
  code.toByte :: abi.order.encode abi.int i

/-- What the client sends. -/
def request (abi : Abi) : Query n → List UInt8
  | maxReplica => [Opcode.getMaxReplica.toByte]
  | path i => about abi .getReplicaPath i
  | status i => about abi .getReplicaStatus i
  | priority i => about abi .getReplicaPriority i
  | totalRead i => about abi .getReplicaTotalRead i
  | totalWrite i => about abi .getReplicaTotalWrite i

/-- What the server sends. -/
def reply (abi : Abi) (c : Config n) : Query n → List UInt8
  | maxReplica => abi.order.encode abi.int n
  | path i => (pathAnswer abi (c.replicas i)).flatten
  | status i => (statusAnswer abi (c.replicas i)).flatten
  | priority i => (priorityAnswer abi (c.replicas i)).flatten
  | totalRead i => (totalReadAnswer abi (c.replicas i)).flatten
  | totalWrite i => (totalWriteAnswer abi (c.replicas i)).flatten

/-- The block `get_path` returns: the path bytes, and what was there before. -/
def pathBuffer (heap : ℕ → UInt8) (r : Replica) : Buffer where
  filled := (r.path.getD []).take r.pathlen
  rest := ((List.range (r.pathlen * 2)).map heap).drop r.pathlen

/-- What the caller gets: the configuration's own value. -/
def answer (heap : ℕ → UInt8) (c : Config n) : Query n → QueryAnswer
  | maxReplica => .number n
  | path i => .path (pathBuffer heap (c.replicas i))
  | status i => .number (c.replicas i).disabled.toNat
  | priority i => .number (c.replicas i).priority.toNat
  | totalRead i => .number (c.replicas i).totrd.toNat
  | totalWrite i => .number (c.replicas i).totwr.toNat

end Query

section Server

variable {abi : Abi} {c : Config n}

/-- A query about a replica is answered about that one. -/
theorem answerAbout_carrying (hn : n < 256 ^ abi.int) (answer : Replica → List (List UInt8))
    (i : Fin n) (rest output : List UInt8) :
    answerAbout abi c answer (.carrying (abi.order.encode abi.int i ++ rest) output) =
      some (0, .carrying rest (output ++ (answer (c.replicas i)).flatten)) := by
  have hread : (Conn.carrying (abi.order.encode abi.int i ++ rest) output).toServer.readWhole
      abi.int = (some (abi.order.encode abi.int i), { bytes := rest }) :=
    Pipe.readWhole_append (ByteOrder.length_encode _ _ _) rest
  have hi : abi.order.decode (abi.order.encode abi.int i) = i :=
    ByteOrder.decode_encode _ (i.isLt.trans hn)
  rw [answerAbout, hread]
  dsimp only
  rw [hi, if_neg (not_le.mpr i.isLt), c.replicaAt_of_lt i.isLt, Option.map_some]
  exact congrArg some (Conn.sendAll_carrying rest output _)

/-- **The server takes the bytes of one query** and no more, and answers it. -/
theorem processRequest_request (hn : n < 256 ^ abi.int) (q : Query n) (rest output : List UInt8) :
    processRequest abi c (.carrying (q.request abi ++ rest) output) =
      some (0, .carrying rest (output ++ q.reply abi c)) := by
  have hread : ∀ (code : UInt8) (more : List UInt8),
      (Conn.carrying (code :: more) output).toServer.readWhole 1 =
        (some [code], { bytes := more }) :=
    fun code more => Pipe.readWhole_append (List.length_singleton (a := code)) more
  cases q with
  | maxReplica =>
      rw [Query.request, List.cons_append, processRequest, hread]
      have hsend := Conn.sendAll_carrying rest output [abi.order.encode abi.int n]
      rw [List.flatten_singleton] at hsend
      exact congrArg some hsend
  | _ i =>
      rw [Query.request, Query.about, List.cons_append, processRequest, hread]
      dsimp only
      rw [Opcode.ofByte_toByte]
      exact answerAbout_carrying hn _ i rest output

/-- A query is served, and its reply written. -/
theorem served_request (hn : n < 256 ^ abi.int) (q : Query n) (rest output : List UInt8) :
    served abi c (.carrying (q.request abi ++ rest) output) =
      some (.carrying rest (output ++ q.reply abi c)) := by
  simp [served, processRequest_request hn]

/-- A client that does not wait for the answers is served no differently. -/
theorem served_requests (hn : n < 256 ^ abi.int) (qs : List (Query n)) (rest output : List UInt8) :
    runFrom (fun k (_ : Query n) => served abi c k)
        (.carrying (qs.flatMap (Query.request abi) ++ rest) output) qs =
      some (.carrying rest (output ++ qs.flatMap (Query.reply abi c))) := by
  induction qs generalizing output with
  | nil => simp
  | cons q qs ih =>
      rw [List.flatMap_cons, List.append_assoc, runFrom_cons, served_request hn, Option.bind_some,
        ih, List.flatMap_cons, List.append_assoc]

end Server

section Client

variable {abi : Abi} {heap : ℕ → UInt8} {c : Config n} {wait : Conn → Option Conn}

/-- The client sends the query. -/
theorem sendQuery_carrying (code : Opcode) (i : Fin n) :
    sendQuery abi code i (.carrying [] []) = some (.carrying (Query.about abi code i) []) := by
  rw [sendQuery, Conn.clientWrite_carrying, Option.bind_eq_bind, Option.bind_some,
    Conn.clientWrite_carrying]
  rfl

/-- A number comes back as it was. -/
theorem getNumber_of_wait {code : Opcode} {w v : ℕ} {i : Fin n} (hv : v < 256 ^ w)
    (hwait : wait (.carrying (Query.about abi code i) []) =
      some (.carrying [] [abi.order.encode w v].flatten)) :
    getNumber abi wait code w i (.carrying [] []) = some (v, .carrying [] []) := by
  have hread := Conn.clientRead_carrying [] [] (ByteOrder.length_encode abi.order w v)
  rw [List.append_nil] at hread
  rw [List.flatten_singleton] at hwait
  simp only [getNumber, sendQuery_carrying, hwait, hread, Option.bind_eq_bind, Option.bind_some,
    ByteOrder.decode_encode _ hv]

/-- A path comes back as it was. -/
theorem getPath_of_wait (hc : c.Sendable abi) {i : Fin n}
    (hwait : wait (.carrying (Query.about abi .getReplicaPath i) []) =
      some (.carrying [] (pathAnswer abi (c.replicas i)).flatten)) :
    getPath abi heap wait i (.carrying [] []) =
      some (Query.pathBuffer heap (c.replicas i), .carrying [] []) := by
  have hlength : (((c.replicas i).path.getD []).take (c.replicas i).pathlen).length =
      (c.replicas i).pathlen := List.length_take_of_le (hc.pathlen_le i)
  have hreadLen := Conn.clientRead_carrying []
    (((c.replicas i).path.getD []).take (c.replicas i).pathlen)
    (ByteOrder.length_encode abi.order abi.size (c.replicas i).pathlen)
  have hreadPath := Conn.clientRead_carrying [] [] hlength
  rw [List.append_nil] at hreadPath
  rw [pathAnswer, List.flatten_cons, List.flatten_singleton] at hwait
  simp only [getPath, sendQuery_carrying, hwait, hreadLen, hreadPath, Option.bind_eq_bind,
    Option.bind_some, ByteOrder.decode_encode _ (hc.pathlen_lt i)]
  rfl

/-- **The client sends one query, reads its answer and no more**, and decodes it. -/
theorem ask_of_wait (hc : c.Sendable abi) {q : Query n}
    (hwait : wait (.carrying (q.request abi) []) = some (.carrying [] (q.reply abi c))) :
    q.ask abi heap wait (.carrying [] []) = some (q.answer heap c, .carrying [] []) := by
  cases q with
  | maxReplica =>
      have hread := Conn.clientRead_carrying [] [] (ByteOrder.length_encode abi.order abi.int n)
      rw [List.append_nil] at hread
      rw [Query.request, Query.reply] at hwait
      simp only [Query.ask, getMaxReplica, Conn.clientWrite_carrying, List.nil_append, hwait, hread,
        Option.bind_eq_bind, Option.bind_some, ByteOrder.decode_encode _ hc.replicas_lt]
      rfl
  | path i =>
      rw [Query.ask, getPath_of_wait hc hwait]
      rfl
  | status i =>
      rw [Query.ask, getStatus, getNumber_of_wait (abi.toNat_lt _) hwait]
      rfl
  | priority i =>
      rw [Query.ask, getPriority, getNumber_of_wait (abi.toNat_lt _) hwait]
      rfl
  | totalRead i =>
      rw [Query.ask, getTotalRead, getNumber_of_wait (abi.total_lt _) hwait]
      rfl
  | totalWrite i =>
      rw [Query.ask, getTotalWrite, getNumber_of_wait (abi.total_lt _) hwait]
      rfl

/-- The path a server that waits for a query sends. -/
theorem getPath_served (hc : c.Sendable abi) (i : Fin n) :
    getPath abi heap (served abi c) i (.carrying [] []) =
      some (Query.pathBuffer heap (c.replicas i), .carrying [] []) := by
  refine getPath_of_wait hc ?_
  have hserved := served_request (c := c) hc.replicas_lt (.path i) [] []
  rwa [List.append_nil, List.nil_append] at hserved

/-- A query to a server that waits for one leaves both directions empty. -/
theorem ask_served (hc : c.Sendable abi) (q : Query n) :
    q.ask abi heap (served abi c) (.carrying [] []) = some (q.answer heap c, .carrying [] []) := by
  refine ask_of_wait hc ?_
  have hserved := served_request (c := c) hc.replicas_lt q [] []
  rwa [List.append_nil, List.nil_append] at hserved

end Client

end ChironFs
