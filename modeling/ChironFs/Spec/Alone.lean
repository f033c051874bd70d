import ChironFs.Spec.Interleaved

/-!
# A request that runs alone

The steps of `Request.advance`, taken one after another in one environment with nobody in between,
are the handler.

* `Request.Finishes`: from this stage the request ends in that outcome.
* `Finishes.loop`, `Finishes.search`, `Finishes.disable`, …: one lemma for each loop of a handler.
* `finishes_of_handle`: from the beginning, it ends in what `handle` says.
* `Pool.run_alone`: so does a request of a pool that is not interrupted.
-/

namespace ChironFs

open Machine Posix Replication

variable {n : ℕ} {T : Type*}

/-! ## Loops one round at a time -/

/-- One replica, then the others. -/
theorem everyLoop_cons (env : Env n) (c : Config n) (cr : Creds) (call : Fin n → Option Call)
    (i : Fin n) (is : List (Fin n)) (t : Tally n) :
    everyLoop env c cr call (i :: is) t =
      everyLoop env c cr call is (everyLoop env c cr call [i] t) := by
  rw [everyLoop_eq, everyLoop_eq, everyLoop_eq]
  rfl

/-- The same for `open` and `create`. -/
theorem openLoop_cons (env : Env n) (c : Config n) (cr : Creds) (path : Path) (call : Path → Call)
    (i : Fin n) (is : List (Fin n)) (t : Tally n) (fd : Fin n → ℤ) :
    openLoop env c cr path call (i :: is) t fd =
      openLoop env c cr path call is (openLoop env c cr path call [i] t fd).1
        (openLoop env c cr path call [i] t fd).2 := by
  simp only [openLoop]
  split_ifs
  · rfl
  · split
    · rfl
    · split <;> rfl

/-- The same for `write`. -/
theorem writeLoop_cons (env : Env n) (cr : Creds) (fd : Fin n → ℤ) (buf : List UInt8) (offset : ℤ)
    (i : Fin n) (is : List (Fin n)) (c : Config n) (t : Tally n) (w : ℤ) :
    writeLoop env cr fd buf offset (i :: is) c t w =
      writeLoop env cr fd buf offset is (writeLoop env cr fd buf offset [i] c t w).1
        (writeLoop env cr fd buf offset [i] c t w).2.1
        (writeLoop env cr fd buf offset [i] c t w).2.2 := by
  simp only [writeLoop]
  split_ifs
  · rfl
  · split <;> rfl

/-- The same for disabling. -/
theorem Config.disableLoop_cons (operation : String) (errList : Fin n → ℤ) (i : Fin n)
    (is : List (Fin n)) (c : Config n) :
    Config.disableLoop operation errList (i :: is) c =
      ((Config.disableLoop operation errList is (Config.disableLoop operation errList [i] c).1).1,
        (Config.disableLoop operation errList [i] c).2 ++
          (Config.disableLoop operation errList is
            (Config.disableLoop operation errList [i] c).1).2) := by
  simp only [Config.disableLoop]
  split_ifs
  · rfl
  · simp
  · rfl

/-- The same for undoing an `open`. -/
theorem closeOpened_cons (env : Env n) (c : Config n) (cr : Creds) (fd : Fin n → ℤ) (i : Fin n)
    (is : List (Fin n)) :
    closeOpened env c cr fd (i :: is) =
      closeOpened env c cr fd [i] ++ closeOpened env c cr fd is := by
  simp only [closeOpened]
  split_ifs <;> rfl

/-- The same for `release`. -/
theorem releaseLoop_cons (env : Env n) (c : Config n) (cr : Creds) (fd : Fin n → ℤ) (i : Fin n)
    (is : List (Fin n)) (r : ℤ) (evs : List (Event n)) :
    releaseLoop env c cr fd (i :: is) r evs =
      releaseLoop env c cr fd is (releaseLoop env c cr fd [i] r []).1
        (evs ++ (releaseLoop env c cr fd [i] r []).2) := by
  simp only [releaseLoop]
  split_ifs <;> simp

namespace Request

/-- Request `q`, at this stage and with nobody else making a step, ends in outcome `o`. `pre` is
what it did so far; giving back the identity is what remains to be done at the end. -/
inductive Finishes (q : Request) (env : Env n) (cr : Creds) (o : Outcome n) :
    Config n → Stage n → List (Event n) → Prop
  | done {c : Config n} {r : Response} {fh : Option ℕ} {pre : List (Event n)}
      (h : o = leave env c cr pre r fh) : Finishes q env cr o c (.done r fh) pre
  | step {c c' : Config n} {st st' : Stage n} {evs pre : List (Event n)}
      (h : q.advance env cr c st = some (c', st', evs))
      (hrest : Finishes q env cr o c' st' (pre ++ evs)) : Finishes q env cr o c st pre

namespace Finishes

variable {q : Request} {env : Env n} {cr : Creds} {o : Outcome n} {c : Config n} {x : Locals n}
  {pre : List (Event n)}

/-- A step that does nothing to be seen. -/
theorem silent {c' : Config n} {st st' : Stage n}
    (h : q.advance env cr c st = some (c', st', [])) (hrest : Finishes q env cr o c' st' pre) :
    Finishes q env cr o c st pre :=
  .step h (by rwa [List.append_nil])

/-- A loop begins with nothing counted. -/
theorem fresh {st : Stage n} (h : Finishes q env cr o c st (pre ++ ({} : Locals n).tally.calls)) :
    Finishes q env cr o c st pre := by
  simpa using h

/-- A round that counts one fate, in front of the rest of the loop. -/
theorem round {c' : Config n} {i : Fin n} {todo : List (Fin n)} {x' : Locals n}
    {f : Fate Reply Errno} {evs : List (Event n)}
    (hvisit : q.visit env cr c i todo x =
      some (c', .loop todo x', x.tally.since x'.tally))
    (htally : x'.tally = x.tally.add i f evs)
    (h : Finishes q env cr o c' (.loop todo x') (pre ++ x'.tally.calls)) :
    Finishes q env cr o c (.loop (i :: todo) x) (pre ++ x.tally.calls) := by
  have hadv : q.advance env cr c (.loop (i :: todo) x) =
      some (c', .loop todo x', x.tally.since x'.tally) := hvisit
  refine .step hadv ?_
  rw [htally, Tally.since_add, List.append_assoc, ← Tally.calls_add _ i f, ← htally]
  exact h

/-- The loop of the requests that keep only their counters. -/
theorem every
    (hvisit : ∀ i todo x, q.visit env cr c i todo x =
      some (c, .loop todo { x with tally := everyLoop env c cr (q.call env c) [i] x.tally },
        x.tally.since (everyLoop env c cr (q.call env c) [i] x.tally))) {l : List (Fin n)}
    (h : Finishes q env cr o c
      (.loop [] { x with tally := everyLoop env c cr (q.call env c) l x.tally })
      (pre ++ (everyLoop env c cr (q.call env c) l x.tally).calls)) :
    Finishes q env cr o c (.loop l x) (pre ++ x.tally.calls) := by
  induction l generalizing x with
  | nil => exact h
  | cons i is ih =>
      rw [everyLoop_cons] at h
      exact .round (hvisit i is x) (everyLoop_eq env c cr _ [i] x.tally) (ih h)

/-- The loop of `mknod`, when no replica makes it return. -/
theorem mknod {path : Path} {mode rdev : ℕ} {l : List (Fin n)}
    (hl : mknodRefuses env c path mode l = false)
    (h : ∀ t, mknodLoop env c cr path mode l x.tally = .ok t →
      Finishes (.mknod path mode rdev) env cr o c (.loop [] { x with tally := t })
        (pre ++ t.calls)) :
    Finishes (.mknod path mode rdev) env cr o c (.loop l x) (pre ++ x.tally.calls) := by
  simp only [mknodLoop_eq, hl, Bool.false_eq_true, if_false, Except.ok.injEq, forall_eq'] at h
  induction l generalizing x with
  | nil => exact h
  | cons i is ih =>
      rw [mknodRefuses_cons, Bool.or_eq_false_iff] at hl
      have hone : mknodRefuses env c path mode [i] = false := by
        rw [mknodRefuses_cons, hl.1]
        simp [mknodRefuses]
      have hvisit : (Request.mknod path mode rdev).visit env cr c i is x =
          some (c,
            .loop is
              { x with
                tally := x.tally.add i (attempt env cr i (c.guarded (mknodCall env c path mode) i))
                  (mknodEvents env cr i (c.guarded (mknodCall env c path mode) i)) },
            x.tally.since
              (x.tally.add i (attempt env cr i (c.guarded (mknodCall env c path mode) i))
                (mknodEvents env cr i (c.guarded (mknodCall env c path mode) i)))) := by
        simp [visit, mknodLoop_eq, hone, Tally.addAll_singleton]
      exact .round hvisit rfl (ih hl.2 h)

/-- The loop of `mknod`, when a replica makes it return: those before it are passed over. -/
theorem mknodRefused {path : Path} {mode rdev : ℕ} {l : List (Fin n)}
    (hl : mknodRefuses env c path mode l = true) :
    Finishes (.mknod path mode rdev) env cr (leave env c cr pre { ret := ENOSYS.neg }) c
      (.loop l x) pre := by
  induction l with
  | nil => simp [mknodRefuses] at hl
  | cons i is ih =>
      cases hone : mknodRefuses env c path mode [i] with
      | true =>
          have hadv : (Request.mknod path mode rdev).advance env cr c (.loop (i :: is) x) =
              some (c, .done { ret := ENOSYS.neg } none, []) := by
            simp [advance, visit, mknodLoop_eq, hone]
          exact .silent hadv (.done rfl)
      | false =>
          have hkind : sIsReg mode = false ∧ sIsFifo mode = false := by
            simp only [mknodRefuses, Bool.and_eq_true, Bool.not_eq_true'] at hl
            exact hl.1
          have hskip : c.guarded (mknodCall env c path mode) i = none := by
            rw [Config.guarded, mknodCall]
            cases env.xlate c path i <;> simp [hkind.1, hkind.2]
          have hadv : (Request.mknod path mode rdev).advance env cr c (.loop (i :: is) x) =
              some (c, .loop is x, []) := by
            simp [advance, visit, mknodLoop_eq, hone, Tally.addAll_singleton, hskip, mknodEvents,
              attemptEvents, Tally.since]
          rw [mknodRefuses_cons] at hl hone
          have hfirst := (Bool.or_eq_false_iff.mp hone).1
          rw [hfirst, Bool.false_or] at hl
          exact .silent hadv (ih hl)

/-- The loop of `open` and `create`. -/
theorem opening {path : Path} {call : Path → Call}
    (hvisit : ∀ i todo x, q.visit env cr c i todo x =
      some (c,
        .loop todo
          { x with
            tally := (openLoop env c cr path call [i] x.tally x.fd).1
            fd := (openLoop env c cr path call [i] x.tally x.fd).2 },
        x.tally.since (openLoop env c cr path call [i] x.tally x.fd).1)) {l : List (Fin n)}
    (h : Finishes q env cr o c
      (.loop []
        { x with
          tally := (openLoop env c cr path call l x.tally x.fd).1
          fd := (openLoop env c cr path call l x.tally x.fd).2 })
      (pre ++ (openLoop env c cr path call l x.tally x.fd).1.calls)) :
    Finishes q env cr o c (.loop l x) (pre ++ x.tally.calls) := by
  induction l generalizing x with
  | nil => exact h
  | cons i is ih =>
      rw [openLoop_cons] at h
      have htally : (openLoop env c cr path call [i] x.tally x.fd).1 =
          x.tally.add i (openFate env c cr path call i)
            (attemptEvents env cr i (c.guarded (openCall env c path call) i)) :=
        congrArg Prod.fst
          (openLoop_eq env c cr path call [i] (List.nodup_singleton i) x.tally x.fd)
      exact .round (hvisit i is x) htally (ih h)

/-- The loop of `write`. -/
theorem writing {fh : ℕ} {buf : List UInt8} {offset : ℤ} {fd : Fin n → ℤ}
    (hfd : c.tabFd fh = some fd) {l : List (Fin n)}
    (h : Finishes (.write fh buf offset) env cr o
      (writeLoop env cr fd buf offset l c x.tally x.wMax).1
      (.loop []
        { x with
          tally := (writeLoop env cr fd buf offset l c x.tally x.wMax).2.1
          wMax := (writeLoop env cr fd buf offset l c x.tally x.wMax).2.2 })
      (pre ++ (writeLoop env cr fd buf offset l c x.tally x.wMax).2.1.calls)) :
    Finishes (.write fh buf offset) env cr o c (.loop l x) (pre ++ x.tally.calls) := by
  induction l generalizing c x with
  | nil => exact h
  | cons i is ih =>
      have hone := writeLoop_eq env cr fd buf offset [i] (List.nodup_singleton i) c x.tally x.wMax
      have hvisit : (Request.write fh buf offset).visit env cr c i is x =
          some ((writeLoop env cr fd buf offset [i] c x.tally x.wMax).1,
            .loop is
              { x with
                tally := (writeLoop env cr fd buf offset [i] c x.tally x.wMax).2.1
                wMax := (writeLoop env cr fd buf offset [i] c x.tally x.wMax).2.2 },
            x.tally.since (writeLoop env cr fd buf offset [i] c x.tally x.wMax).2.1) := by
        rw [visit]
        split_ifs with hd
        · simp [writeLoop, hd, Tally.since]
        · simp [hfd]
      have hfd' : (writeLoop env cr fd buf offset [i] c x.tally x.wMax).1.tabFd fh = some fd := by
        rw [hone]
        exact hfd
      have htally : (writeLoop env cr fd buf offset [i] c x.tally x.wMax).2.1 =
          x.tally.add i (attempt env cr i (c.guarded (writeCall fd buf offset) i))
            (attemptEvents env cr i (c.guarded (writeCall fd buf offset) i)) :=
        congrArg (fun r => r.2.1) hone
      rw [writeLoop_cons] at h
      exact .round hvisit htally (ih hfd' h)

/-- The loop of `disable_faulty_replicas`. -/
theorem disable {l : List (Fin n)}
    (h : Finishes q env cr o (Config.disableLoop q.operation x.tally.errList l c).1 (.disable [] x)
      (pre ++ (Config.disableLoop q.operation x.tally.errList l c).2)) :
    Finishes q env cr o c (.disable l x) pre := by
  induction l generalizing c pre with
  | nil => simpa [Config.disableLoop] using h
  | cons i is ih =>
      rw [Config.disableLoop_cons, ← List.append_assoc] at h
      exact .step rfl (ih h)

/-- What comes behind the loop over the replicas. -/
theorem faulty
    (h : Finishes q env cr o
      (c.disableFaultyReplicas q.operation x.tally.succCnt x.tally.failCnt x.tally.errList).1
      (.finish x)
      (pre ++
        (c.disableFaultyReplicas q.operation x.tally.succCnt x.tally.failCnt x.tally.errList).2)) :
    Finishes q env cr o c x.conclude pre := by
  unfold Config.disableFaultyReplicas at h
  unfold Locals.conclude
  split_ifs at h ⊢
  · exact .disable (.silent rfl h)
  · rwa [List.append_nil] at h

/-- The way back from the store. -/
theorem unwind {l : List (Fin n)}
    (h : Finishes q env cr o c (.unwind [] x) (pre ++ closeOpened env c cr x.fd l)) :
    Finishes q env cr o c (.unwind l x) pre := by
  induction l generalizing pre with
  | nil => simpa [closeOpened] using h
  | cons i is ih =>
      rw [closeOpened_cons, ← List.append_assoc] at h
      exact .step rfl (ih h)

/-- The loop of `release`. -/
theorem close {fh : ℕ} {fd : Fin n → ℤ} (hfh : q.releasedFh = some fh) (hfd : c.tabFd fh = some fd)
    {l : List (Fin n)} {r : ℤ} {evs : List (Event n)}
    (h : Finishes q env cr o c (.close [] (releaseLoop env c cr fd l r evs).1)
      (pre ++ (releaseLoop env c cr fd l r evs).2)) :
    Finishes q env cr o c (.close l r) (pre ++ evs) := by
  induction l generalizing r evs with
  | nil => exact h
  | cons i is ih =>
      rw [releaseLoop_cons] at h
      have hadv : q.advance env cr c (.close (i :: is) r) =
          some (c, .close is (releaseLoop env c cr fd [i] r []).1,
            (releaseLoop env c cr fd [i] r []).2) := by
        simp [advance, hfh, hfd]
      refine .step hadv ?_
      rw [List.append_assoc]
      exact ih h

/-- The end of a request that stores no handle. -/
theorem concluded (q : Request) (x : Locals n) {r : Response} (hop : q.opens = false)
    (hr : q.result x = r) :
    Finishes q env cr (ChironFs.conclude q.operation env c cr pre x.tally r) c x.conclude
      (pre ++ x.tally.calls) := by
  refine .faulty ?_
  unfold ChironFs.conclude
  generalize c.disableFaultyReplicas q.operation x.tally.succCnt x.tally.failCnt x.tally.errList = d
  by_cases hs : x.tally.succCnt = 0
  · have hadv : q.advance env cr d.1 (.finish x) =
        some (d.1, .done { ret := d.1.getFirstError x.tally.errList } none, []) := by
      simp [advance, Request.conclude, hs]
    refine .silent hadv (.done ?_)
    rw [if_pos hs]
  · have hadv : q.advance env cr d.1 (.finish x) = some (d.1, .done r none, []) := by
      simp [advance, Request.conclude, hs, hop, hr]
    refine .silent hadv (.done ?_)
    rw [if_neg hs]

/-- No slot: what was opened is closed again. -/
theorem noSlot {k : ℤ} (hk : k < 0) :
    Finishes q env cr
      (leave env c cr (pre ++ closeOpened env c cr x.fd (List.finRange n)) { ret := EMFILE.neg })
      c (.store k x) pre := by
  have hadv : q.advance env cr c (.store k x) = some (c, .unwind (List.finRange n) x, []) := by
    simp [advance, hk]
  exact .silent hadv (.unwind (.silent rfl (.done rfl)))

/-- The end of `open` and `create`. -/
theorem stored (q : Request) (x : Locals n) (hop : q.opens = true) :
    let dis := c.disableFaultyReplicas q.operation x.tally.succCnt x.tally.failCnt x.tally.errList
    Finishes q env cr
      (if x.tally.succCnt = 0 then
        leave env dis.1 cr (pre ++ x.tally.calls ++ dis.2)
          { ret := dis.1.getFirstError x.tally.errList }
      else
        let (fdNdx, c', logs) := dis.1.fdHashset x.fd
        if fdNdx < 0 then
          leave env c' cr
            (pre ++ x.tally.calls ++ dis.2 ++ logs ++ closeOpened env c' cr x.fd (List.finRange n))
            { ret := EMFILE.neg }
        else
          leave env c' cr (pre ++ x.tally.calls ++ dis.2 ++ logs) { ret := 0 } (some fdNdx.toNat))
      c x.conclude (pre ++ x.tally.calls) := by
  intro dis
  refine .faulty ?_
  by_cases hs : x.tally.succCnt = 0
  · have hadv : q.advance env cr dis.1 (.finish x) =
        some (dis.1, .done { ret := dis.1.getFirstError x.tally.errList } none, []) := by
      simp [advance, Request.conclude, hs]
    refine .silent hadv (.done ?_)
    rw [if_pos hs]
  · rw [if_neg hs]
    unfold Config.fdHashset
    cases hmain : dis.1.mainFd x.fd (List.finRange n) with
    | none =>
        have hadv : q.advance env cr dis.1 (.finish x) = some (dis.1, .store (-1) x, []) := by
          simp [advance, Request.conclude, hs, hop, hmain]
        refine .silent hadv ?_
        dsimp only
        rw [if_pos (by decide), List.append_nil]
        exact .noSlot (by decide)
    | some d =>
        dsimp only
        generalize hseek :
          dis.1.fdHashseekfree (hashFd dis.1.fdBufSize (UInt32.ofNat d.toNat)).toNat = found
        obtain ⟨k, logs⟩ := found
        have hadv : q.advance env cr dis.1 (.finish x) = some (dis.1, .store k x, logs) := by
          simp [advance, Request.conclude, hs, hop, hmain, hseek]
        refine .step hadv ?_
        dsimp only
        by_cases hk : k < 0
        · rw [if_neg (not_le.mpr hk)]
          dsimp only
          rw [if_pos hk]
          exact .noSlot hk
        · rw [if_pos (not_lt.mp hk)]
          dsimp only
          rw [if_neg hk]
          have hstore : q.advance env cr dis.1 (.store k x) =
              some (dis.1.setSlot k.toNat (some x.fd), .done { ret := 0 } (some k.toNat), []) := by
            simp [advance, hk]
          exact .silent hstore (.done rfl)

end Finishes

/-- The calls do not depend on the cursors. -/
theorem call_of_sameButCursors {q : Request} {env : Env n} {c c' : Config n}
    (h : c.SameButCursors c') : q.call env c' = q.call env c := by
  obtain ⟨high, low, rfl⟩ := h
  cases q <;> rfl

/-- Nor does whether the handle is still there. -/
theorem lostSlot_of_sameButCursors {q : Request} {c c' : Config n} (h : c.SameButCursors c') :
    q.lostSlot c' = q.lostSlot c := by
  obtain ⟨high, low, rfl⟩ := h
  cases q <;> rfl

/-- The statistics of the replica a search stopped at. -/
def countAnswered (q : Request) (c : Config n) : Option (Fin n × Reply) → Config n
  | none => c
  | some a => q.countFound c a.1

/-- The two steps of a try are a round of `firstLoop`: it goes on, or the replica answers. -/
theorem attend_firstLoop (q : Request) (env : Env n) (cr : Creds) {c c' : Config n} {k : ℕ}
    {i : Fin n} (hk : c.chooseReplica k = some (i, c')) (ks : List ℕ) (x : Locals n) :
    (∃ t evs, q.attend env cr c' i ks x = (c', .choose ks { x with tally := t }, evs) ∧
        t.calls = x.tally.calls ++ evs ∧
        firstLoop env cr (q.call env c') (k :: ks) c x.tally =
          firstLoop env cr (q.call env c') ks c' t) ∨
      ∃ t evs r, q.attend env cr c' i ks x =
          (q.countFound c' i, Locals.conclude { x with tally := t, found := some (i, r) }, evs) ∧
        t.calls = x.tally.calls ++ evs ∧
        firstLoop env cr (q.call env c') (k :: ks) c x.tally = some (c', t, some (i, r)) := by
  rw [firstLoop, hk]
  dsimp only
  by_cases hd : (c'.replicas i).disabled = true
  · refine Or.inl ⟨x.tally, [], ?_, (List.append_nil _).symm, if_pos hd⟩
    rw [attend, if_pos hd]
  · rw [if_neg hd, attend, if_neg hd]
    cases q.call env c' i with
    | none => exact Or.inl ⟨x.tally, [], rfl, (List.append_nil _).symm, rfl⟩
    | some cl =>
        dsimp only
        cases env.call cr i cl with
        | error e => exact Or.inl ⟨_, _, rfl, rfl, rfl⟩
        | ok r => exact Or.inr ⟨_, _, r, rfl, rfl, rfl⟩

/-- A try that chooses a replica, in one go. -/
theorem advance_try (env : Env n) (cr : Creds) {q : Request} {c₀ c c' : Config n} {k : ℕ}
    {i : Fin n} (hslot : q.lostSlot c₀ = false) (hcur : c₀.SameButCursors c)
    (hk : c.chooseReplica k = some (i, c')) (ks : List ℕ) (x : Locals n) :
    q.advance env cr c (.choose (k :: ks) x) = some (c', .ask i ks x, []) ∧
      q.advance env cr c' (.ask i ks x) = some (q.attend env cr c' i ks x) := by
  constructor
  · simp [advance, hk]
  · rw [advance, lostSlot_of_sameButCursors (hcur.trans (Config.chooseReplica_sameButCursors hk)),
      hslot]
    rfl

/-- The tries of a search, by induction on those left. -/
theorem Finishes.search {q : Request} {env : Env n} {cr : Creds} {o : Outcome n}
    {c₀ c c' : Config n} {x : Locals n} {pre : List (Event n)} (hslot : q.lostSlot c₀ = false)
    {ks : List ℕ} {t : Tally n} {ans : Option (Fin n × Reply)} (hcur : c₀.SameButCursors c)
    (hfound : x.found = none)
    (hloop : firstLoop env cr (q.call env c₀) ks c x.tally = some (c', t, ans))
    (h : Finishes q env cr o (q.countAnswered c' ans)
      (Locals.conclude { x with tally := t, found := ans }) (pre ++ t.calls)) :
    Finishes q env cr o c (.choose ks x) (pre ++ x.tally.calls) := by
  induction ks generalizing c x with
  | nil =>
      cases hloop
      have hx : { x with tally := x.tally, found := none } = x := by rw [← hfound]
      rw [hx] at h
      exact .silent rfl h
  | cons k ks ih =>
      cases hk : c.chooseReplica k with
      | none => simp [firstLoop, hk] at hloop
      | some ic =>
          obtain ⟨i, c₁⟩ := ic
          have hcur₁ := hcur.trans (Config.chooseReplica_sameButCursors hk)
          obtain ⟨hchoose, hask⟩ := advance_try env cr hslot hcur hk ks x
          rw [← call_of_sameButCursors hcur₁] at hloop
          refine .silent hchoose ?_
          rcases attend_firstLoop q env cr hk ks x with
            ⟨t', evs, hattend, hcalls, hnext⟩ | ⟨t', evs, r, hattend, hcalls, hans⟩
          · rw [hattend] at hask
            refine .step hask ?_
            rw [List.append_assoc, ← hcalls]
            rw [hnext, call_of_sameButCursors hcur₁] at hloop
            exact ih hcur₁ hfound hloop h
          · rw [hattend] at hask
            refine .step hask ?_
            rw [List.append_assoc, ← hcalls]
            cases hans.symm.trans hloop
            exact h

/-! ## The handlers -/

section Shapes

variable {q : Request} {env : Env n} {d : Daemon n}

/-- The requests that go over all replicas and keep only their counters. -/
theorem finishes_onEveryReplica
    (hbegin : q.begin env d.config =
      if env.calloc 0 = false then .done { ret := ENOMEM.neg } none else .loop (List.finRange n) {})
    (hvisit : ∀ c cr i todo x, q.visit env cr c i todo x =
      some (c, .loop todo { x with tally := everyLoop env c cr (q.call env c) [i] x.tally },
        x.tally.since (everyLoop env c cr (q.call env c) [i] x.tally)))
    (hop : q.opens = false) (hres : ∀ t : Tally n, q.result { tally := t } = { ret := 0 }) :
    q.Finishes env (dropPriv env d.creds).creds (onEveryReplica q.operation (q.call env) env d)
      d.config .start (dropPriv env d.creds).trace := by
  unfold onEveryReplica
  refine .silent rfl ?_
  rw [hbegin]
  split_ifs with hcalloc
  · exact .done rfl
  · refine .fresh (.every (hvisit d.config _) (.silent rfl ?_))
    exact .concluded q
      { tally :=
          everyLoop env d.config (dropPriv env d.creds).creds (q.call env d.config)
            (List.finRange n) {} }
      hop (hres _)

/-- `mknod` finishes. -/
theorem finishes_mknod (path : Path) (mode rdev : ℕ) :
    (Request.mknod path mode rdev).Finishes env (dropPriv env d.creds).creds
      (chironMknod path mode rdev env d) d.config .start (dropPriv env d.creds).trace := by
  have hbegin : (Request.mknod path mode rdev).begin env d.config =
      if env.calloc 0 = false then .done { ret := ENOMEM.neg } none
      else .loop (List.finRange n) {} := rfl
  unfold chironMknod
  refine .silent rfl ?_
  rw [hbegin]
  split_ifs with hcalloc
  · exact .done rfl
  · cases hl : mknodRefuses env d.config path mode (List.finRange n) with
    | false =>
        refine .fresh (.mknod hl fun t ht => .silent rfl ?_)
        have hloop : mknodLoop env d.config (dropPriv env d.creds).creds path mode (List.finRange n)
            {} = .ok t := ht
        dsimp only
        rw [hloop]
        exact .concluded (.mknod path mode rdev) { tally := t } rfl rfl
    | true =>
        dsimp only
        rw [mknodLoop_eq, hl, if_pos rfl]
        exact .mknodRefused hl

/-- `open` and `create`. -/
theorem finishes_openOnReplicas {path : Path} {call : Path → Call} (hop : q.opens = true)
    (hbegin : q.begin env d.config =
      if env.calloc 0 = false then .done { ret := ENOMEM.neg } none
      else if env.calloc 1 = false then .done { ret := ENOMEM.neg } none
      else .loop (List.finRange n) {})
    (hvisit : ∀ c cr i todo x, q.visit env cr c i todo x =
      some (c,
        .loop todo
          { x with
            tally := (openLoop env c cr path call [i] x.tally x.fd).1
            fd := (openLoop env c cr path call [i] x.tally x.fd).2 },
        x.tally.since (openLoop env c cr path call [i] x.tally x.fd).1)) :
    q.Finishes env (dropPriv env d.creds).creds (openOnReplicas q.operation path call env d)
      d.config .start (dropPriv env d.creds).trace := by
  unfold openOnReplicas
  refine .silent rfl ?_
  rw [hbegin]
  split_ifs with h₀ h₁
  · exact .done rfl
  · exact .done rfl
  · refine .fresh (.opening (hvisit d.config _) (.silent rfl ?_))
    generalize hopened : openLoop env d.config (dropPriv env d.creds).creds path call
      (List.finRange n) {} (fun _ => 0) = opened
    obtain ⟨t, fd⟩ := opened
    dsimp only
    rw [hopened]
    exact .stored q { tally := t, fd := fd } hop

/-- `write` finishes. -/
theorem finishes_write (fh : ℕ) (buf : List UInt8) (offset : ℤ) :
    (Request.write fh buf offset).Finishes env (dropPriv env d.creds).creds
      (chironWrite fh buf offset env d) d.config .start (dropPriv env d.creds).trace := by
  unfold chironWrite
  refine .silent rfl ?_
  rw [begin]
  cases hfd : d.config.tabFd fh with
  | none => exact .done rfl
  | some fd =>
      simp only [Option.isNone_some, Bool.false_eq_true, if_false]
      split_ifs with hcalloc
      · exact .done rfl
      · refine .fresh (.writing hfd (.silent rfl ?_))
        generalize hwritten : writeLoop env (dropPriv env d.creds).creds fd buf offset
          (List.finRange n) d.config {} 0 = written
        obtain ⟨c, t, wMax⟩ := written
        exact .concluded (.write fh buf offset) { tally := t, wMax := wMax } rfl rfl

/-- `getattr`, `access`, `readlink` and `readdir`. -/
theorem finishes_onFirstReplica {o : Outcome n} (hse : q.searches = true)
    (hbegin : q.begin env d.config =
      if env.calloc 0 = false then .done { ret := ENOMEM.neg } none else .choose (List.range n) {})
    (hslot : ∀ c : Config n, q.lostSlot c = false)
    (hcount : ∀ (c : Config n) i, q.countFound c i = c)
    (hres : ∀ x : Locals n, q.result x = answer q.respond x.found)
    (ho : onFirstReplica q.operation (q.call env) q.respond env d = some o) :
    q.Finishes env (dropPriv env d.creds).creds o d.config .start (dropPriv env d.creds).trace := by
  unfold onFirstReplica at ho
  refine .silent rfl ?_
  rw [hbegin]
  split_ifs at ho ⊢ with hcalloc
  · cases ho
    exact .done rfl
  · obtain ⟨⟨c', t, ans⟩, hloop, ho⟩ := Option.bind_eq_some_iff.mp ho
    cases ho
    refine .fresh (.search (hslot _) (.refl _) rfl hloop ?_)
    have hans : q.countAnswered c' ans = c' := by cases ans <;> simp [countAnswered, hcount]
    rw [hans]
    exact .concluded q { tally := t, found := ans } (opens_of_searches hse) (hres _)

/-- `read` finishes when it is not killed. -/
theorem finishes_read {fh size : ℕ} {offset : ℤ} {o : Outcome n}
    (ho : chironRead fh size offset env d = some o) :
    (Request.read fh size offset).Finishes env (dropPriv env d.creds).creds o d.config .start
      (dropPriv env d.creds).trace := by
  unfold chironRead at ho
  refine .silent rfl ?_
  rw [begin]
  cases hfd : d.config.tabFd fh with
  | none => 
      rw [hfd] at ho
      cases ho
      exact .done rfl
  | some fd =>
      rw [hfd] at ho
      simp only [Option.isNone_some, Bool.false_eq_true, if_false] at ho ⊢
      split_ifs at ho ⊢ with hcalloc
      · cases ho
        exact .done rfl
      · have hcall : readCall fd size offset = (Request.read fh size offset).call env d.config := by
          funext i
          simp [Request.call, hfd]
        rw [hcall] at ho
        obtain ⟨⟨c', t, ans⟩, hloop, ho⟩ := Option.bind_eq_some_iff.mp ho
        cases ho
        refine .fresh (.search (by simp [lostSlot, hfd]) (.refl _) rfl hloop ?_)
        cases ans with
        | none => exact .concluded (.read fh size offset) { tally := t } rfl rfl
        | some a => exact .concluded (.read fh size offset) { tally := t, found := some a } rfl rfl
      
/-- `release` finishes. -/
theorem finishes_release (fh : ℕ) :
    (Request.release fh).Finishes env (dropPriv env d.creds).creds (chironRelease fh env d)
      d.config .start (dropPriv env d.creds).trace := by
  unfold chironRelease
  refine .silent rfl ?_
  rw [begin]
  cases hfd : d.config.tabFd fh with
  | none => exact .done rfl
  | some fd =>
      exact .fresh (.close rfl hfd (.silent rfl (.done rfl)))

/-- **The steps of a request, taken together, are its handler.** -/
theorem finishes_of_handle {o : Outcome n} (ho : handle q env d = some o) :
    q.Finishes env (dropPriv env d.creds).creds o d.config .start (dropPriv env d.creds).trace := by
  cases q with
  | «open» path flags =>
      cases ho
      exact finishes_openOnReplicas rfl rfl fun _ _ _ _ _ => rfl
  | create path mode =>
      cases ho
      exact finishes_openOnReplicas rfl rfl fun _ _ _ _ _ => rfl
  | release fh =>
      cases ho
      exact finishes_release fh
  | read fh size offset => exact finishes_read ho
  | write fh buf offset =>
      cases ho
      exact finishes_write fh buf offset
  | getattr | access | readlink | readdir =>
      exact finishes_onFirstReplica rfl rfl (fun _ => rfl) (fun _ _ => rfl) (fun _ => rfl) ho
  | mknod path mode rdev =>
      cases ho
      exact finishes_mknod path mode rdev
  | _ =>
      cases ho
      exact finishes_onEveryReplica rfl (fun _ _ _ _ _ => rfl) rfl fun _ => rfl

/-- What a request that is not over does next. -/
theorem Finishes.next {cr : Creds} {o : Outcome n} {c c' : Config n} {st st' : Stage n}
    {pre evs : List (Event n)} (hadv : q.advance env cr c st = some (c', st', evs))
    (h : q.Finishes env cr o c st pre) : q.Finishes env cr o c' st' (pre ++ evs) := by
  cases h with
  | done => cases hadv
  | step h' hrest =>
      obtain ⟨rfl, rfl, rfl⟩ := (by simpa using hadv.symm.trans h' : _ ∧ _ ∧ _)
      exact hrest

/-- A search that is killed by `choose_replica` does not end. -/
theorem not_finishes_of_firstLoop {cr : Creds} {o : Outcome n} {c₀ c : Config n} {x : Locals n}
    {pre : List (Event n)} (hslot : q.lostSlot c₀ = false) {ks : List ℕ}
    (hcur : c₀.SameButCursors c) (hloop : firstLoop env cr (q.call env c₀) ks c x.tally = none) :
    ¬ q.Finishes env cr o c (.choose ks x) pre := by
  induction ks generalizing c x pre with
  | nil => cases hloop
  | cons k ks ih =>
      intro hfin
      cases hk : c.chooseReplica k with
      | none =>
          cases hfin with
          | step h => simp [advance, hk] at h
      | some ic =>
          obtain ⟨i, c₁⟩ := ic
          have hcur₁ := hcur.trans (Config.chooseReplica_sameButCursors hk)
          obtain ⟨hchoose, hask⟩ := advance_try env cr hslot hcur hk ks x
          rw [← call_of_sameButCursors hcur₁] at hloop
          rcases attend_firstLoop q env cr hk ks x with
            ⟨t', evs, hattend, -, hnext⟩ | ⟨t', evs, r, hattend, -, hans⟩
          · rw [hattend] at hask
            rw [hnext, call_of_sameButCursors hcur₁] at hloop
            exact ih hcur₁ hloop ((hfin.next hchoose).next hask)
          · rw [hans] at hloop
            cases hloop

/-- A search that is killed is killed in its loop. -/
theorem firstLoop_eq_none
    (hq : handle q env d = onFirstReplica q.operation (q.call env) q.respond env d)
    (h : handle q env d = none) :
    env.calloc 0 ≠ false ∧
      firstLoop env (dropPriv env d.creds).creds (q.call env d.config) (List.range n) d.config {} =
        none := by
  rw [hq, onFirstReplica] at h
  split_ifs at h with hcalloc
  refine ⟨hcalloc, ?_⟩
  cases hloop : firstLoop env (dropPriv env d.creds).creds (q.call env d.config) (List.range n)
    d.config {} with
  | none => rfl
  | some r => simp [hloop] at h

/-- A handler is killed in the tries of a search. -/
theorem search_of_handle_eq_none (h : handle q env d = none) :
    q.lostSlot d.config = false ∧ q.begin env d.config = .choose (List.range n) {} ∧
      firstLoop env (dropPriv env d.creds).creds (q.call env d.config) (List.range n) d.config {} =
        none := by
  cases q with
  | read fh size offset =>
      simp only [handle, chironRead] at h
      cases hfd : d.config.tabFd fh with
      | none => simp [hfd] at h
      | some fd =>
          have hcall :
              (Request.read fh size offset).call env d.config = readCall fd size offset := by
            funext i
            simp [Request.call, hfd]
          simp only [hfd] at h
          split_ifs at h with hcalloc
          rw [hcall]
          refine ⟨by simp [lostSlot, hfd], by simp [begin, hfd, hcalloc], ?_⟩
          cases hloop : firstLoop env (dropPriv env d.creds).creds (readCall fd size offset)
            (List.range n) d.config {} with
          | none => rfl
          | some r => simp [hloop] at h
  | getattr | access | readlink | readdir =>
      obtain ⟨hcalloc, hloop⟩ := firstLoop_eq_none rfl h
      exact ⟨rfl, if_neg hcalloc, hloop⟩
  | _ => cases h

/-- A request whose handler is killed does not end. -/
theorem not_finishes_of_handle {o : Outcome n} (ho : handle q env d = none) :
    ¬ q.Finishes env (dropPriv env d.creds).creds o d.config .start
      (dropPriv env d.creds).trace := by
  intro hfin
  obtain ⟨hslot, hbegin, hloop⟩ := search_of_handle_eq_none ho
  have hbegan : q.advance env (dropPriv env d.creds).creds d.config .start =
      some (d.config, .choose (List.range n) {}, []) := by rw [← hbegin]; rfl
  exact not_finishes_of_firstLoop hslot (.refl _) hloop (hfin.next hbegan)

/-- Nothing is left open about how a request ends. -/
theorem Finishes.unique {cr : Creds} {o o' : Outcome n} {c : Config n} {st : Stage n}
    {pre : List (Event n)} (h : q.Finishes env cr o c st pre) (h' : q.Finishes env cr o' c st pre) :
    o = o' := by
  induction h with
  | done h =>
      cases h' with
      | done h' => exact h.trans h'.symm
      | step h' => cases h'
  | step hadv _ ih => exact ih (h'.next hadv)

/-- **The steps of a request, taken together, are its handler**, killed where that is killed. -/
theorem finishes_iff {o : Outcome n} :
    q.Finishes env (dropPriv env d.creds).creds o d.config .start (dropPriv env d.creds).trace ↔
      handle q env d = some o := by
  refine ⟨fun hfin => ?_, finishes_of_handle⟩
  cases ho : handle q env d with
  | none => exact absurd hfin (not_finishes_of_handle ho)
  | some o' => rw [(finishes_of_handle ho).unique hfin]

end Shapes

end Request

/-! ## In the pool -/

namespace Request

/-- No step leads back to the beginning. -/
theorem ne_start_of_advance {q : Request} {env : Env n} {cr : Creds} {c c' : Config n}
    {st st' : Stage n} {evs : List (Event n)} (h : q.advance env cr c st = some (c', st', evs)) :
    st' ≠ .start := by
  have hconclude : ∀ x : Locals n, x.conclude ≠ .start := by
    intro x
    rcases x.conclude_cases with hx | hx <;> simp [hx]
  cases move_of_advance h with
  | loopEnd => exact hconclude _
  | triesEnd => exact hconclude _
  | attended =>
      split_ifs
      · exact hconclude _
      · exact fun h => nomatch h
  | _ => exact fun h => nomatch h

end Request

namespace Pool

variable [DecidableEq T] {req : T → Request} {env : Env n} {o : Outcome n} {t : T}

/-- **A request of the pool that is not interrupted does what its handler does**: the pool reaches
the configuration, the response, the handle and the events of the handler's outcome, and nobody
else moves. -/
theorem run_alone {s : Pool T n} {d : Daemon n} (hstart : s.stage t = .start)
    (hadmits : s.admits (req t) = true) (hconfig : s.config = d.config)
    (hcreds : s.creds = (dropPriv env d.creds).creds) (ho : handle (req t) env d = some o) :
    ∃ k s' body, runFrom (Pool.step req) s (List.replicate k (t, env)) = some s' ∧
      s'.config = o.daemon.config ∧ s'.stage t = .done o.response o.fh ∧
      (∀ u, u ≠ t → s'.stage u = s.stage u) ∧ s'.trace = s.trace ++ body.map (fun ev => (t, ev)) ∧
      o.trace = (dropPriv env d.creds).trace ++ body ++
        (reacquirePriv env o.daemon.config s.creds).trace := by
  have hmay : s.mayStep t (req t) = true := by rw [mayStep, hstart]; exact hadmits
  have hfin := Request.finishes_of_handle ho
  rw [← hcreds, ← hconfig, ← hstart] at hfin
  generalize (dropPriv env d.creds).trace = pre at hfin ⊢
  clear hstart hadmits hconfig hcreds ho
  generalize hc : s.config = c at hfin
  generalize hst : s.stage t = st at hfin
  generalize hcr : s.creds = cr at hfin
  induction hfin generalizing s with
  | done h =>
      subst hc hcr h
      exact ⟨0, s, [], rfl, rfl, hst, fun _ _ => rfl, by simp, by simp [leave]⟩
  | @step c c' st st' evs pre h _ ih =>
      subst hc hst hcr
      have hstep : Pool.step req s (t, env) = some (s.after t (req t) (c', st', evs)) := by
        simp [Pool.step, hmay, h]
      have hstage : (s.after t (req t) (c', st', evs)).stage t = st' := Function.update_self ..
      have hmay' : (s.after t (req t) (c', st', evs)).mayStep t (req t) = true := by
        rw [mayStep, hstage]
        cases st' with
        | start => exact absurd rfl (Request.ne_start_of_advance h)
        | _ => rfl
      obtain ⟨k, s', body, hrun, hconf, hdone, hothers, htrace, hout⟩ := ih hmay' rfl hstage rfl
      refine ⟨k + 1, s', evs ++ body, ?_, hconf, hdone, ?_, ?_, ?_⟩
      · rw [List.replicate_succ, runFrom_cons, hstep]
        exact hrun
      · intro u hu
        rw [hothers u hu]
        exact Function.update_of_ne hu ..
      · rw [htrace, List.map_append, ← List.append_assoc]
        rfl
      · rw [hout, List.append_assoc pre]

end Pool

end ChironFs
