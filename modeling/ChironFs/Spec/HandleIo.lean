import ChironFs.Lib.TwoRuns
import ChironFs.Spec.Congruence
import ChironFs.Spec.Disk
import ChironFs.Spec.Vectors

/-!
# Reading and writing through a handle

* `Io`: what is done with an open file; `Io.err`, when the descriptor does not let it be done.
* `Cluster.Holds`: a slot with descriptors that were opened with a flags word. `Holds.after`: a
  `read` or `write` leaves it so.
* `Holds.answered_iff`, `Holds.ret_eq`, `Holds.enabled_after_iff`: what a `read` or `write` returns,
  and whom it disables.
* `Cluster.Alike.step`: with two words that let everything be written and nothing be read, a `read`
  or `write` does the same.
-/

namespace ChironFs

open Posix Replication

variable {n : ℕ}

/-- What is done with an open file. -/
inductive Io
  | read (size : ℕ) (offset : ℤ)
  | write (buf : List UInt8) (offset : ℤ)
deriving DecidableEq, Repr

namespace Io

/-- The request, for a handle. -/
def on (fh : ℕ) : Io → Request
  | read size offset => .read fh size offset
  | write buf offset => .write fh buf offset

/-- The call, for a descriptor. -/
def onFd (fd : ℤ) : Io → Call
  | read size offset => .pread fd size offset
  | write buf offset => .pwrite fd buf offset

/-- Why the call fails through a descriptor that was opened with this flags word. -/
def err (rules : FlagRules) (flags : ℕ) : Io → Option Errno
  | read size offset => rules.readErr flags size offset
  | write buf offset => rules.writeErr flags buf offset

/-- What the call returns else. -/
def reply (s : Disk) (fname : Path) : Io → Reply
  | read size offset =>
      let out := (((s.files fname).elim [] Prod.snd).drop offset.toNat).take size
      { ret := out.length, out := out }
  | write buf _ => { ret := buf.length }

variable {fh : ℕ} {a : Io}

/-- Neither opens or closes a file. -/
theorem kinds (fh : ℕ) (a : Io) : (a.on fh).releases = false ∧ (a.on fh).opens = false ∧
    (a.on fh).uses = some fh := by
  cases a <;> exact ⟨rfl, rfl, rfl⟩

/-- The call on a replica goes to the descriptor its slot has for it. -/
theorem ask_eq {e : Env n} {d : Daemon n} {i : Fin n} {cl : Call}
    (h : (a.on fh).ask e d.config i = some cl) :
    ∃ fd, d.config.tabFd fh = some fd ∧ cl = a.onFd (fd i) := by
  obtain ⟨-, hcall⟩ := Request.ask_eq_some_iff.mp h
  cases a with
  | read size offset =>
      obtain ⟨fd, hfd, hc⟩ := Option.bind_eq_some_iff.mp hcall
      unfold readCall at hc
      split_ifs at hc
      exact ⟨fd, hfd, (Option.some.inj hc).symm⟩
  | write buf offset =>
      obtain ⟨fd, hfd, hc⟩ := Option.bind_eq_some_iff.mp hcall
      unfold writeCall at hc
      split_ifs at hc
      exact ⟨fd, hfd, (Option.some.inj hc).symm⟩

/-- A replica with a descriptor is called. -/
theorem call_eq {e : Env n} {c : Config n} {fd : Fin n → ℤ} (hfd : c.tabFd fh = some fd)
    {i : Fin n} (hge : 0 ≤ fd i) : (a.on fh).call e c i = some (a.onFd (fd i)) := by
  cases a with
  | read size offset =>
      show (c.tabFd fh).bind _ = _
      rw [hfd, Option.bind_some, readCall, if_neg hge.not_gt]
      rfl
  | write buf offset =>
      show (c.tabFd fh).bind _ = _
      rw [hfd, Option.bind_some, writeCall, if_neg hge.not_gt]
      rfl

end Io

/-! ## Disks -/

namespace Volume

variable {v : Volume} {groups : List ℕ} {cr : Creds} {fd : ℤ} {a : Io}

/-- The answer of a disk: the failure of the descriptor, else that of the disk. -/
theorem answer_io {s : Disk} {x : Desc} (h : s.desc fd = some x) :
    (v.backend groups).answer cr (a.onFd fd) s =
      match (a.err x.rules x.flags).or (v.fault (a.onFd fd)) with
      | some e => .error e
      | none => .ok (a.reply s x.fname) := by
  unfold backend Io.onFd Io.err Io.reply
  cases a with
  | read size offset =>
      simp only [run, h]
      cases (x.rules.readErr x.flags size offset).or (v.fault (.pread fd size offset)) <;> rfl
  | write buf offset =>
      simp only [run, h]
      cases (x.rules.writeErr x.flags buf offset).or (v.fault (.pwrite fd buf offset)) <;> rfl

/-- A `pread` leaves the disk as it is. -/
theorem call_pread {size : ℕ} {offset : ℤ} (res : Except Errno Reply) (u : Disk) :
    (v.backend groups).call cr (.pread fd size offset) res u = u := by
  cases res with
  | error e => rfl
  | ok r =>
  simp only [backend, run]
  cases u.desc fd with
  | none => rfl
  | some x =>
      simp only
      cases (x.rules.readErr x.flags size offset).or (v.fault (.pread fd size offset)) <;> rfl

/-- A `pread` or `pwrite` leaves the descriptors as they are. -/
theorem call_fds (res : Except Errno Reply) (u : Disk) :
    ((v.backend groups).call cr (a.onFd fd) res u).fds = u.fds := by
  cases a with
  | read size offset => exact congrArg Disk.fds (call_pread res u)
  | write buf offset =>
      cases res with
      | error e => rfl
      | ok r =>
      simp only [Io.onFd, backend, run]
      cases u.desc fd with
      | none => rfl
      | some x =>
          simp only
          cases (x.rules.writeErr x.flags buf offset).or (v.fault (.pwrite fd buf offset)) with
          | some e => rfl
          | none =>
              cases u.files x.fname <;> rfl

/-- A `read` or `write` leaves the descriptors of all disks as they are. -/
theorem storeAfter_fds {fh : ℕ} {e : Env n} {d : Daemon n} {o : Outcome n}
    (ho : handle (a.on fh) e d = some o) (i : Fin n) (u : Disk) :
    (storeAfter (v.backend groups).toEffect i o.trace u).fds = u.fds := by
  obtain ⟨hrel, hop, -⟩ := Io.kinds fh a
  have hev : storeAfter (v.backend groups).toEffect i ((a.on fh).events e d i) u =
      ((a.on fh).ask e d.config i).elim u fun c =>
        (v.backend groups).call (dropPriv e d.creds).creds c
          (e.call (dropPriv e d.creds).creds i c) u := by
    rw [← storeAfter_attemptEvents]
    cases a <;> rfl
  rcases handle_cases ho with ⟨er, -, rfl⟩ | ⟨_, _, heq, -⟩ | ⟨-, -, tried, hsv⟩
  · rw [storeAfter_earlyOutcome]
  · cases a <;> cases heq
  rw [hsv.storeAfter_eq hop]
  · split_ifs with hi
    · show (storeAfter _ i (Request.events e d (a.on fh) i) u).fds = _
      rw [hev]
      cases hask : (a.on fh).ask e d.config i with
      | none => rfl
      | some c =>
          obtain ⟨fd, -, rfl⟩ := Io.ask_eq hask
          exact call_fds _ u
    · rfl
  -- a search goes over `pread`s, which change nothing
  · intro hse _
    show storeAfter _ i (Request.events e d (a.on fh) i) u = u
    rw [hev]
    cases a with
    | write buf offset => cases hse
    | read size offset =>
        cases hask : ((Io.read size offset).on fh).ask e d.config i with
        | none => rfl
        | some c =>
            obtain ⟨fd, -, rfl⟩ := Io.ask_eq hask
            exact call_pread _ u

end Volume

/-! ## What a handle is good for -/

/-- Slot `k` holds descriptors that were opened with the flags word `flags`, for all enabled
replicas. -/
structure Cluster.Holds (s : Cluster n Disk) (k : ℕ) (rules : Fin n → FlagRules) (flags : ℕ) :
    Prop where
  tables : s.daemon.config.WellFormed
  named : s.daemon.config.AllNamed
  enabled : ∃ i, s.daemon.config.enabled i
  vector : ∃ fd, s.daemon.config.tabFd k = some fd ∧ ∀ i, s.daemon.config.enabled i →
    0 ≤ fd i ∧ ∃ fname, (s.store i).desc (fd i) = some ⟨fname, flags, rules i⟩

namespace Cluster.Holds

variable {s : Cluster n Disk} {k flags : ℕ} {rules : Fin n → FlagRules} {groups : List ℕ}
  {env : Env n} {v : Fin n → Volume} {a : Io} {o : Outcome n}

/-- **It stays so**: a `read` or `write` closes no descriptor and leaves an enabled replica. -/
theorem after (h : s.Holds k rules flags)
    (ho : s.serve (a.on k, disks groups env v) = some o) :
    (s.after (disks groups env v) o).Holds k rules flags := by
  obtain ⟨hrel, hop, -⟩ := Io.kinds k a
  obtain ⟨fd, hfd, hvec⟩ := h.vector
  have hlay : s.daemon.config.SameLayout o.daemon.config := handle_sameLayout ho
  refine ⟨hlay.wellFormed h.tables, hlay.allNamed h.named, exists_enabled ho h.enabled, fd,
    ?_, fun i hi => ?_⟩
  · show o.daemon.config.tabFd k = some fd
    rw [handle_tabFd_eq hrel hop ho, hfd]
  · obtain ⟨hge, fname, hdesc⟩ := hvec i (enabled_of_enabled ho hi)
    refine ⟨hge, fname, ?_⟩
    rw [← hdesc]
    unfold Disk.desc
    rw [show ((s.after (disks groups env v) o).store i).fds = _ from
      Volume.storeAfter_fds ho i (s.store i)]

variable {fd : Fin n → ℤ}

/-- The descriptors. -/
theorem desc (h : s.Holds k rules flags) (hfd : s.daemon.config.tabFd k = some fd) {i : Fin n}
    (hi : s.daemon.config.enabled i) :
    0 ≤ fd i ∧ ∃ fname, (s.store i).desc (fd i) = some ⟨fname, flags, rules i⟩ := by
  obtain ⟨fd', hfd', hvec⟩ := h.vector
  obtain rfl := Option.some.inj (hfd.symm.trans hfd')
  exact hvec i hi

/-- How an enabled replica answers. -/
theorem call_eq (groups : List ℕ) (env : Env n) (v : Fin n → Volume) (a : Io)
    (h : s.Holds k rules flags) (hfd : s.daemon.config.tabFd k = some fd) {i : Fin n}
    (hi : s.daemon.config.enabled i) (cr : Creds) :
    ∃ fname, ((disks groups env v).on s.store).call cr i (a.onFd (fd i)) =
      match (a.err (rules i) flags).or ((v i).fault (a.onFd (fd i))) with
      | some e => .error e
      | none => .ok (a.reply (s.store i) fname) := by
  obtain ⟨-, fname, hdesc⟩ := h.desc hfd hi
  exact ⟨fname, Volume.answer_io hdesc⟩

/-! ### On disks that fail or do not fail -/

variable {fails : Fin n → Option Errno}

/-- The fate of an enabled replica. -/
theorem exists_round_eq (groups : List ℕ) (env : Env n) (a : Io) (h : s.Holds k rules flags)
    (hfault : ∀ i c, (v i).fault c = fails i) {i : Fin n} (hi : s.daemon.config.enabled i) :
    ∃ r, (a.on k).round ((disks groups env v).on s.store) s.daemon i =
      match (a.err (rules i) flags).or (fails i) with
      | some e => .failed e
      | none => .ok r := by
  let e := (disks groups env v).on s.store
  obtain ⟨fd, hfd, hvec⟩ := h.vector
  obtain ⟨fname, hans⟩ := h.call_eq groups env v a hfd hi (dropPriv e s.daemon.creds).creds
  have hask : (a.on k).ask e s.daemon.config i = some (a.onFd (fd i)) :=
    (Config.guarded_of_enabled hi _).trans (Io.call_eq hfd (hvec i hi).1)
  have hround : (a.on k).round e s.daemon i =
      attempt e (dropPriv e s.daemon.creds).creds i (some (a.onFd (fd i))) := by
    rw [Request.round_of_not_opens (Io.kinds k a).2.1, ← hask]
  refine ⟨a.reply (s.store i) fname, ?_⟩
  rw [hround, attempt_some, hans, hfault]
  cases (a.err (rules i) flags).or (fails i) <;> rfl

/-- An enabled replica answers when neither its disk nor its descriptor fails. -/
theorem isOk_round_iff (groups : List ℕ) (env : Env n) (a : Io) (h : s.Holds k rules flags)
    (hfault : ∀ i c, (v i).fault c = fails i) {i : Fin n} (hi : s.daemon.config.enabled i) :
    ((a.on k).round ((disks groups env v).on s.store) s.daemon i).isOk = true ↔
      (a.err (rules i) flags).or (fails i) = none := by
  obtain ⟨r, hr⟩ := h.exists_round_eq groups env a hfault hi
  rw [hr]
  cases (a.err (rules i) flags).or (fails i) with
  | none => exact iff_of_true rfl rfl
  | some e => exact iff_of_false Bool.false_ne_true (Option.some_ne_none e)

/-- A request for such a handle is served. -/
theorem exists_served (groups : List ℕ) (v : Fin n → Volume) (a : Io) (h : s.Holds k rules flags)
    (hcalloc : env.calloc 0 = true)
    (hhigh : (a.on k).searches = true → 0 < s.daemon.config.maxReplicaHigh) :
    ∃ o tried, s.serve (a.on k, disks groups env v) = some o ∧
      Served (a.on k) ((disks groups env v).on s.store) s.daemon tried o := by
  obtain ⟨hrel, -, -⟩ := Io.kinds k a
  let e := (disks groups env v).on s.store
  obtain ⟨fd, hfd, -⟩ := h.vector
  have he : (a.on k).early e s.daemon.config = none := by
    have hc : e.calloc 0 = true := hcalloc
    cases a <;> simp [Io.on, Request.early, hfd, hc]
  have hsome : (handle (a.on k) e s.daemon).isSome = true := by
    cases hse : (a.on k).searches with
    | false => exact handle_isSome_of_not_searches hse e s.daemon
    | true =>
        apply handle_isSome_of_choices hse
        apply h.tables.choices_isSome (hhigh hse)
        intro j hj
        have hsum := h.tables.sum_eq h.named
        have hlt := List.mem_range.mp hj
        omega
  obtain ⟨o, ho⟩ := Option.isSome_iff_exists.mp hsome
  obtain ⟨tried, hsv⟩ := handle_served hrel he ho
  exact ⟨o, tried, ho, hsv⟩

variable {tried : List (Fin n)}

/-- Somebody answers when somebody can. -/
theorem succeeded_iff (h : s.Holds k rules flags) (hfault : ∀ i c, (v i).fault c = fails i)
    (hsv : Served (a.on k) ((disks groups env v).on s.store) s.daemon tried o) :
    ((a.on k).roundOn ((disks groups env v).on s.store) s.daemon tried).Succeeded ↔
      ∃ i, s.daemon.config.enabled i ∧ (a.err (rules i) flags).or (fails i) = none := by
  let e := (disks groups env v).on s.store
  constructor
  · rintro ⟨i, hi⟩
    unfold Request.roundOn at hi
    split_ifs at hi
    · have hen : s.daemon.config.enabled i := by
        by_contra hdis
        rw [Request.covers_round e s.daemon (a.on k) i (Config.not_enabled_iff.mp hdis)] at hi
        cases hi
      exact ⟨i, hen, (h.isOk_round_iff groups env a hfault hen).mp hi⟩
    · cases hi
  · rintro ⟨i, hen, hnone⟩
    by_contra hns
    apply hns
    refine ⟨i, ?_⟩
    rw [Request.roundOn, if_pos (hsv.mem_tried_of_not_succeeded h.tables hns (h.named i))]
    exact (h.isOk_round_iff groups env a hfault hen).mpr hnone

/-- **A request is answered** when there is an enabled replica whose disk and descriptor do not
fail. -/
theorem answered_iff (h : s.Holds k rules flags) (hfault : ∀ i c, (v i).fault c = fails i)
    (hsv : Served (a.on k) ((disks groups env v).on s.store) s.daemon tried o) :
    0 ≤ o.response.ret ↔
      ∃ i, s.daemon.config.enabled i ∧ (a.err (rules i) flags).or (fails i) = none := by
  obtain ⟨hrel, hop, -⟩ := Io.kinds k a
  rw [← h.succeeded_iff hfault hsv]
  constructor
  · intro hret
    by_contra hns
    refine hret.not_gt (hsv.ret_neg_of_not_succeeded h.tables (fun i _ => h.named i) h.enabled
      (fun i hi => ?_) hns)
    obtain ⟨fd, hfd, hvec⟩ := h.vector
    rw [Io.call_eq hfd (hvec i hi).1]
    exact Option.some_ne_none _
  · intro hs
    obtain ⟨_, r, -, hresp⟩ := hsv.answered hop hs
    rw [hresp]
    cases a <;> exact Int.natCast_nonneg _

/-- The last enabled replica's error is returned. -/
theorem ret_eq (h : s.Holds k rules flags) (hfault : ∀ i c, (v i).fault c = fails i)
    (hsv : Served (a.on k) ((disks groups env v).on s.store) s.daemon tried o) {i : Fin n}
    (honly : ∀ j, s.daemon.config.enabled j ↔ j = i) {er : Errno}
    (her : (a.err (rules i) flags).or (fails i) = some er) : o.response.ret = er.neg := by
  let e := (disks groups env v).on s.store
  have hen : s.daemon.config.enabled i := (honly i).mpr rfl
  have hns : ¬ ((a.on k).roundOn e s.daemon tried).Succeeded := by
    rw [h.succeeded_iff hfault hsv]
    rintro ⟨j, hj, hnone⟩
    obtain rfl := (honly j).mp hj
    rw [her] at hnone
    cases hnone
  obtain ⟨_, hr⟩ := h.exists_round_eq groups env a hfault hen
  rw [her] at hr
  have hfailed : (a.on k).roundOn e s.daemon tried i = .failed er := by
    rw [Request.roundOn, if_pos (hsv.mem_tried_of_not_succeeded h.tables hns (h.named i)), hr]
  obtain ⟨j, er', hj, hfirst⟩ := exists_firstError_eq ⟨i, Fate.isFailed_iff.mpr ⟨er, hfailed⟩⟩
  have hji : j = i := by
    apply (honly j).mp
    by_contra hdis
    unfold Request.roundOn at hj
    rw [Request.covers_round e s.daemon (a.on k) j (Config.not_enabled_iff.mp hdis)] at hj
    split_ifs at hj
  subst hji
  obtain rfl := Fate.failed.inj (hfailed.symm.trans hj)
  rw [hsv.failed hns]
  exact hfirst

/-- **Whom a `write` disables**: those that fail, when somebody answers. -/
theorem enabled_after_iff (h : s.Holds k rules flags) (hfault : ∀ i c, (v i).fault c = fails i)
    (hse : (a.on k).searches = false)
    (hsv : Served (a.on k) ((disks groups env v).on s.store) s.daemon tried o)
    (hret : 0 ≤ o.response.ret) (i : Fin n) :
    o.daemon.config.enabled i ↔
      s.daemon.config.enabled i ∧ (a.err (rules i) flags).or (fails i) = none := by
  let e := (disks groups env v).on s.store
  have hs := (h.succeeded_iff hfault hsv).mpr ((h.answered_iff hfault hsv).mp hret)
  have hfates : (a.on k).roundOn e s.daemon tried = (a.on k).round e s.daemon := by
    rw [hsv.all hse, Request.roundOn_finRange]
  have hnew : o.daemon.config.enabled i ↔ s.daemon.config.enabled i ∧
      ¬ ((a.on k).round e s.daemon).Drops i := by
    rw [← hfates]
    unfold Config.enabled
    rw [← Bool.not_eq_true, hsv.disabled_iff, not_or, Bool.not_eq_true]
  rw [hnew]
  refine and_congr_right fun hen => ?_
  rw [← h.isOk_round_iff groups env a hfault hen]
  obtain ⟨r, hr⟩ := h.exists_round_eq groups env a hfault hen
  rw [hfates] at hs
  rw [Round.Drops, and_iff_right hs, hr]
  cases (a.err (rules i) flags).or (fails i) with
  | none => exact iff_of_true Bool.false_ne_true rfl
  | some e => exact iff_of_false (fun hno => hno rfl) Bool.false_ne_true

end Cluster.Holds

/-! ## Two words that cannot be told apart -/

namespace FlagRules

variable (rules : FlagRules) (flags : ℕ)

/-- Everything can be written through a descriptor with this flags word. -/
def Writes : Prop := ∀ buf offset, rules.writeErr flags buf offset = none

/-- Nothing can be read through it, as through one that is for writing only. -/
def ReadsNothing : Prop := ∀ size offset, rules.readErr flags size offset = some EBADF

end FlagRules

/-- No try of a daemon without high-priority replicas is answered. -/
theorem Config.tries_of_no_high {c : Config n} (h : c.maxReplicaHigh = 0) :
    c.tries (List.range n) = [] := by
  cases n with
  | zero => rfl
  | succ m =>
      rw [List.range_succ_eq_map, tries]
      cases hch : c.chooseReplica 0 with
      | none => rfl
      | some x => exact absurd (high_pos_of_chooseReplica hch) (by omega)

/-- Two clusters that differ at most in what their tables say of disabled replicas and in the bytes
of their files, with handles through which everything can be written and nothing be read. -/
structure Cluster.Alike (tab : ℕ → Option (Fin n → ℤ)) (fh : ℕ) (rules : Fin n → FlagRules)
    (flags flags' : ℕ) (s t : Cluster n Disk) : Prop where
  daemon_eq : t.daemon = { s.daemon with config := s.daemon.config.withTab tab }
  vectors : s.daemon.config.SameVectors tab fh
  holds : s.Holds fh rules flags
  holds' : t.Holds fh rules flags'
  writes : ∀ i, s.daemon.config.enabled i → (rules i).Writes flags ∧ (rules i).Writes flags'
  reads : s.daemon.config.maxReplicaHigh ≠ 0 → ∀ i, s.daemon.config.enabled i →
    (rules i).ReadsNothing flags ∧ (rules i).ReadsNothing flags'

namespace Cluster.Alike

variable {tab : ℕ → Option (Fin n → ℤ)} {fh flags flags' : ℕ} {rules : Fin n → FlagRules}
  {s t : Cluster n Disk} {groups : List ℕ} {env : Env n} {v : Fin n → Volume} {a : Io}

/-- The same answers. -/
theorem sameAnswers (h : s.Alike tab fh rules flags flags' t) :
    SameAnswers ((disks groups env v).on t.store).call (a.on fh) ((disks groups env v).on s.store)
      s.daemon := by
  let e := (disks groups env v).on s.store
  intro i hi c hask
  let cr := (dropPriv e s.daemon.creds).creds
  have hen := (Request.ask_eq_some_iff.mp hask).1
  have hen' : t.daemon.config.enabled i := by
    rw [h.daemon_eq]
    exact hen
  obtain ⟨fd, hfd, rfl⟩ := Io.ask_eq hask
  obtain ⟨fd', hfd', heq⟩ : ∃ fd', t.daemon.config.tabFd fh = some fd' ∧ fd' i = fd i := by
    have hvec := h.vectors
    rw [h.daemon_eq]
    unfold Config.SameVectors at hvec
    rw [hfd] at hvec
    generalize htab : tab fh = x at hvec
    cases hvec with
    | some hsame => exact ⟨_, htab, hsame i hen⟩
  obtain ⟨fname, hs⟩ := h.holds.call_eq groups env v a hfd hen cr
  obtain ⟨fname', ht⟩ := h.holds'.call_eq groups env v a hfd' hen' cr
  rw [heq] at ht
  rw [hs, ht]
  cases a with
  | write buf offset =>
      obtain ⟨hw, hw'⟩ := h.writes i hen
      simp only [Io.err, hw buf offset, hw' buf offset, Io.reply]
  | read size offset =>
      by_cases hhigh : s.daemon.config.maxReplicaHigh = 0
      · have hnone : ((Io.read size offset).on fh).tries e s.daemon = [] :=
          congrArg (triedUntil _) (Config.tries_of_no_high hhigh)
        rw [hnone] at hi
        cases hi
      · obtain ⟨hr, hr'⟩ := h.reads hhigh i hen
        simp only [Io.err, hr size offset, hr' size offset]
        cases (v i).fault ((Io.read size offset).onFd (fd i)) <;> rfl

/-- The same outcome. -/
theorem serve_eq (groups : List ℕ) (env : Env n) (v : Fin n → Volume) (a : Io)
    (h : s.Alike tab fh rules flags flags' t) :
    t.serve (a.on fh, disks groups env v) =
      (s.serve (a.on fh, disks groups env v)).map (Outcome.withTab tab) := by
  obtain ⟨hrel, -, huses⟩ := Io.kinds fh a
  unfold Cluster.serve
  rw [h.daemon_eq, handle_withTab hrel huses h.vectors]
  exact congrArg _ (handle_congr fun _ => h.sameAnswers)

/-- **One step.** -/
theorem step (h : s.Alike tab fh rules flags flags' t) :
    Option.Rel (Cluster.Alike tab fh rules flags flags') (s.step (a.on fh, disks groups env v))
        (t.step (a.on fh, disks groups env v)) ∧
      s.respond (a.on fh, disks groups env v) = t.respond (a.on fh, disks groups env v) := by
  obtain ⟨hrel, hop, -⟩ := Io.kinds fh a
  have hserve := h.serve_eq groups env v a
  cases ho : s.serve (a.on fh, disks groups env v) with
  | none =>
      rw [ho] at hserve
      unfold Cluster.step Cluster.respond
      rw [hserve, ho]
      exact ⟨.none, rfl⟩
  | some o =>
      rw [ho, Option.map_some] at hserve
      unfold Cluster.step Cluster.respond
      rw [hserve, ho]
      refine ⟨.some ?_, rfl⟩
      have hen : ∀ i, o.daemon.config.enabled i → s.daemon.config.enabled i := fun i =>
        enabled_of_enabled ho
      exact
        { daemon_eq := rfl
          vectors := h.vectors.handle hrel hop ho
          holds := h.holds.after ho
          holds' := h.holds'.after hserve
          writes := fun i hi => h.writes i (hen i hi)
          reads := fun hhigh i hi => h.reads
            (fun hzero => hhigh ((handle_sameLayout ho).maxReplicaHigh.trans hzero)) i (hen i hi) }

end Cluster.Alike

end ChironFs
