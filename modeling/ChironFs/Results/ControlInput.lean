import ChironFs.Model.ControlThread
import ChironFs.Spec.Control

/-!
# The control server on any input

* `CtlThread.processRequest_eq`, `CtlThread.serveSession_eq`: with its memory as state, the thread
  does what it does with the configuration handed to it.
* `CtlThread.Leads`: what every piece of a session keeps to.
* `CtlThread.BadIndex`: a request about a replica whose number is cut short or too large.
* `CtlThread.serveSession_survives`: every session, on every input.
-/

namespace ChironFs

variable {n : ℕ}

namespace CtlThread

variable {abi : Abi} {t t₁ t₂ : CtlThread n}

/-! ## The pieces of a session -/

/-- The configuration stays, the array is entered where it has a replica, and bytes that were taken
from the client do not come back. -/
structure Leads (t t' : CtlThread n) : Prop where
  config : t'.config = t.config
  touched : ∀ i ∈ t'.touched, i ∈ t.touched ∨ i < n
  taken : t'.conn.toServer.bytes <:+ t.conn.toServer.bytes

/-- One after another. -/
theorem Leads.trans (h₁ : t.Leads t₁) (h₂ : t₁.Leads t₂) : t.Leads t₂ where
  config := h₂.config.trans h₁.config
  touched := by
    intro i hi
    rcases h₂.touched i hi with hi | hi
    · exact h₁.touched i hi
    · exact Or.inr hi
  taken := h₂.taken.trans h₁.taken

/-- Reading a value leads on. -/
theorem readWhole_leads (w : ℕ) (t : CtlThread n) : t.Leads (t.readWhole w).2 :=
  ⟨rfl, fun _ => Or.inl, t.conn.toServer.readWhole_suffix w⟩

/-- So does looking a replica up. -/
theorem replica_leads {i : ℕ} (h : i < n) (t : CtlThread n) : t.Leads (t.replica i).2 where
  config := rfl
  touched := by
    intro j hj
    rcases List.mem_cons.mp hj with rfl | hj
    · exact Or.inr h
    · exact Or.inl hj
  taken := List.suffix_rfl

/-- So does sending. -/
theorem sendAll_leads (values : List (List UInt8)) (t : CtlThread n) :
    t.Leads (t.sendAll values).2 where
  config := rfl
  touched := fun _ => Or.inl
  taken := by
    show (t.conn.sendAll values).2.toServer.bytes <:+ _
    rw [Conn.sendAll_toServer]

/-- So does an answer. -/
theorem answerAbout_leads (answer : Replica → List (List UInt8)) (t : CtlThread n) :
    t.Leads (answerAbout abi answer t).2 := by
  have hread := t.readWhole_leads abi.int
  unfold answerAbout
  split
  case h_1 t₁ h =>
    rw [h] at hread
    exact hread
  case h_2 bs t₁ h =>
    rw [h] at hread
    split_ifs with hrange
    · exact hread
    · -- the number passed the test, so the array is entered inside
      exact (hread.trans (replica_leads (not_le.mp hrange) t₁)).trans (sendAll_leads _ _)

/-- **A request** keeps to it, from wherever in the stream it starts. -/
theorem processRequest_leads (abi : Abi) (t : CtlThread n) : t.Leads (processRequest abi t).2 := by
  have hread := t.readWhole_leads 1
  unfold processRequest
  split
  case h_1 code t₁ h =>
    rw [h] at hread
    split
    · exact hread.trans (sendAll_leads _ _)
    · exact hread.trans (answerAbout_leads _ _)
    · exact hread.trans (answerAbout_leads _ _)
    · exact hread.trans (answerAbout_leads _ _)
    · exact hread.trans (answerAbout_leads _ _)
    · exact hread.trans (answerAbout_leads _ _)
    · exact hread
    · exact hread
  case h_2 res t₁ _ h =>
    rw [h] at hread
    exact hread

/-! ## The same with the configuration handed over -/

/-- The thread answers as the functions do. -/
theorem answerAbout_eq (answer : Replica → List (List UInt8)) (t : CtlThread n) :
    ChironFs.answerAbout abi t.config answer t.conn =
      some ((answerAbout abi answer t).1, (answerAbout abi answer t).2.conn) := by
  unfold ChironFs.answerAbout answerAbout readWhole
  cases hread : t.conn.toServer.readWhole abi.int with
  | mk res p =>
      cases res with
      | none => rfl
      | some bs =>
          dsimp only
          split_ifs with hrange
          · rfl
          · rw [t.config.replicaAt_of_lt (not_le.mp hrange)]
            simp only [replica, dif_pos (not_le.mp hrange)]
            rfl

/-- It serves a request as they do. -/
theorem processRequest_eq (t : CtlThread n) :
    ChironFs.processRequest abi t.config t.conn =
      some ((processRequest abi t).1, (processRequest abi t).2.conn) := by
  unfold ChironFs.processRequest processRequest readWhole
  cases hread : t.conn.toServer.readWhole 1 with
  | mk res p =>
      match res with
      | none | some [] | some (_ :: _ :: _) => rfl
      | some [code] =>
          dsimp only
          cases Opcode.ofByte code with
          | none => rfl
          | some opcode =>
              cases opcode with
              | getMaxReplica | done => rfl
              | _ => exact answerAbout_eq _ { t with conn := { t.conn with toServer := p } }

/-- It serves a session as they do. -/
theorem serveSession_eq (rounds : ℕ) (t : CtlThread n) :
    ChironFs.serveSession abi t.config rounds t.conn =
      (serveSession abi rounds t).2.map CtlThread.conn := by
  induction rounds generalizing t with
  | zero => rfl
  | succ rounds ih =>
      have hconfig := (processRequest_leads abi t).config
      simp only [ChironFs.serveSession, processRequest_eq, Option.bind_eq_bind, Option.bind_some,
        serveSession]
      split_ifs with hzero
      · rw [← ih, hconfig]
      · rfl

/-! ## A number that is no replica's -/

/-- The next request is about a replica, and its number does not come whole or is no replica's. -/
def BadIndex (abi : Abi) (t : CtlThread n) : Prop :=
  ∃ opcode : Opcode, opcode.aboutReplica = true ∧ (t.readWhole 1).1 = some [opcode.toByte] ∧
    ∀ bs, ((t.readWhole 1).2.readWhole abi.int).1 = some bs → n ≤ abi.order.decode bs

/-- Without an index, or with one too large, nothing is answered. -/
theorem answerAbout_of_bad (answer : Replica → List (List UInt8))
    (h : ∀ bs, (t.readWhole abi.int).1 = some bs → n ≤ abi.order.decode bs) :
    answerAbout abi answer t = (-1, (t.readWhole abi.int).2) := by
  unfold answerAbout
  split
  case h_1 t₁ hread => rw [hread]
  case h_2 bs t₁ hread => rw [if_pos (h bs (congrArg Prod.fst hread)), hread]

/-- Such a request ends the session, and nothing is sent. -/
theorem processRequest_of_badIndex (h : t.BadIndex abi) :
    (processRequest abi t).1 = -1 ∧
      (processRequest abi t).2.conn.toClient = t.conn.toClient := by
  obtain ⟨opcode, habout, hcode, hbad⟩ := h
  have hread : t.readWhole 1 = (some [opcode.toByte], (t.readWhole 1).2) := Prod.ext hcode rfl
  have hall : ∀ answer, answerAbout abi answer (t.readWhole 1).2 =
      (-1, ((t.readWhole 1).2.readWhole abi.int).2) := fun answer => answerAbout_of_bad answer hbad
  rw [processRequest, hread]
  dsimp only
  rw [Opcode.ofByte_toByte]
  cases opcode with
  | getMaxReplica | done => cases habout
  | _ =>
      dsimp only
      rw [hall]
      exact ⟨rfl, rfl⟩

/-! ## Sessions -/

/-- How a session that calls `process_request` in the states `calls` gets from `t` to `t'`. -/
structure Survives (abi : Abi) (t : CtlThread n) (calls : List (CtlThread n)) (t' : CtlThread n) :
    Prop where
  leads : t.Leads t'
  length_calls : calls.length ≤
    (t.conn.toServer.bytes.length - t'.conn.toServer.bytes.length) + 1
  refused : ∀ s ∈ calls, s.BadIndex abi →
    calls.getLast? = some s ∧ t'.conn.toClient = s.conn.toClient

/-- One round more, which took a byte at least and was not refused. -/
theorem Survives.cons {calls : List (CtlThread n)} (hrest : Survives abi t₁ calls t₂)
    (hne : calls ≠ []) (hlead : t.Leads t₁)
    (hless : t₁.conn.toServer.bytes.length < t.conn.toServer.bytes.length)
    (hgood : ¬ t.BadIndex abi) : Survives abi t (t :: calls) t₂ where
  leads := hlead.trans hrest.leads
  length_calls := by
    have hle := hrest.length_calls
    have htaken := hrest.leads.taken.length_le
    rw [List.length_cons]
    omega
  refused := by
    intro s hs hbad
    rcases List.mem_cons.mp hs with rfl | hs
    · exact absurd hbad hgood
    · obtain ⟨hlast, hclient⟩ := hrest.refused s hs hbad
      rw [List.getLast?_cons_of_ne_nil hne]
      exact ⟨hlast, hclient⟩

/-- **The inner loop**, by induction on the rounds: it ends before it has taken more of them than
there are bytes, and one. -/
theorem serveSession_spec (abi : Abi) {rounds : ℕ} {t : CtlThread n}
    (h : t.conn.toServer.bytes.length < rounds) :
    ∃ t', (serveSession abi rounds t).2 = some t' ∧ (serveSession abi rounds t).1 ≠ [] ∧
      Survives abi t (serveSession abi rounds t).1 t' := by
  induction rounds generalizing t with
  | zero => exact absurd h (Nat.not_lt_zero _)
  | succ rounds ih =>
      have hlead := processRequest_leads abi t
      rw [serveSession]
      by_cases hzero : (processRequest abi t).1 = 0
      · obtain ⟨res, k', hres, hless⟩ := processRequest_returns abi t.config t.conn
        obtain ⟨rfl, rfl⟩ := Prod.mk.inj (Option.some.inj (hres.symm.trans (processRequest_eq t)))
        have hless := hless hzero
        have hshort : (processRequest abi t).2.conn.toServer.bytes.length < rounds := by omega
        obtain ⟨t', hend, hne, hrest⟩ := ih hshort
        have hgood : ¬ t.BadIndex abi := by
          intro hbad
          have hend := (processRequest_of_badIndex hbad).1
          rw [hzero] at hend
          exact absurd hend (by decide)
        simp only [if_pos hzero]
        exact ⟨t', hend, List.cons_ne_nil _ _, hrest.cons hne hlead hless hgood⟩
      · simp only [if_neg hzero]
        refine ⟨_, rfl, List.cons_ne_nil _ _, hlead, Nat.le_add_left _ _, ?_⟩
        intro s hs hbad
        obtain rfl := List.mem_singleton.mp hs
        exact ⟨rfl, (processRequest_of_badIndex hbad).2⟩

/-- A session about to begin. -/
def start (c : Config n) (beyond : ℕ → Replica) (k : Conn) : CtlThread n where
  config := c
  beyond := beyond
  conn := k

/-- **The control server survives any input**: whatever comes from the client, however the calls on
the socket end and whatever lies behind the array, the session ends; it has called
`process_request` at most once more than it has got bytes; it has entered the array only where
there is a replica; the configuration is as it was; and a number that is no replica's ended it with
nothing sent. -/
theorem serveSession_survives (abi : Abi) (c : Config n) (beyond : ℕ → Replica) (k : Conn) :
    ∃ calls t', serveSession abi (k.toServer.bytes.length + 1) (start c beyond k) =
        (calls, some t') ∧
      calls.length ≤ (k.toServer.bytes.length - t'.conn.toServer.bytes.length) + 1 ∧
      (∀ i ∈ t'.touched, i < n) ∧ t'.config = c ∧
      ∀ s ∈ calls, s.BadIndex abi →
        calls.getLast? = some s ∧ t'.conn.toClient = s.conn.toClient := by
  obtain ⟨t', hend, -, hs⟩ := serveSession_spec abi
    (show (start c beyond k).conn.toServer.bytes.length < k.toServer.bytes.length + 1 from
      Nat.lt_succ_self _)
  refine ⟨_, t', Prod.ext rfl hend, hs.length_calls, ?_, hs.leads.config, hs.refused⟩
  intro i hi
  rcases hs.leads.touched i hi with hi | hi
  · cases hi
  · exact hi

end CtlThread

end ChironFs
