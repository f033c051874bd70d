import ChironFs.Model.Requests

/-!
# What the loops over the replicas compute

Each loop keeps its counters by hand. Here every one of them is shown to add up the *fates* of the
replicas it visits (`Tally.addAll`), so that what follows from the counters is proved once.

* `attempt`: the fate of one replica, from the call made on it.
* `Tally.addAll`: the counters of a list of fates; `Tally.Reports t R`: the counters `t` describe
  the round `R`.
* `everyLoop_eq`, `mknodLoop_eq`, `openLoop_eq`, `writeLoop_eq`: the loops over all replicas.
* `Config.choices`, `firstLoop_spec`, `firstLoop_isSome`: the loop in `choose_replica` order.
-/

namespace ChironFs

open Posix Replication

variable {n : ℕ}

/-! ## Fates and their counters -/

/-- The fate of a call; no call leaves a replica skipped. -/
def attempt (env : Env n) (cr : Creds) (i : Fin n) : Option Call → Fate Reply Errno
  | none => .skipped
  | some cl =>
      match env.call cr i cl with
      | .ok r => .ok r
      | .error e => .failed e

/-- The event of a call. -/
def attemptEvents (env : Env n) (cr : Creds) (i : Fin n) : Option Call → List (Event n)
  | none => []
  | some cl => [.call cr i cl (env.call cr i cl)]

/-- The entry a fate leaves in `err_list`. -/
def errCode : Fate Reply Errno → ℤ
  | .failed e => e.neg
  | _ => 0

/-- A replica that is not asked has no error. -/
@[simp] theorem errCode_skipped : errCode .skipped = 0 := rfl

/-- Nor has one that answered. -/
@[simp] theorem errCode_ok (r : Reply) : errCode (.ok r) = 0 := rfl

/-- A failure is kept as `-errno`. -/
@[simp] theorem errCode_failed (e : Errno) : errCode (.failed e) = e.neg := rfl

/-- The error list is nonzero exactly where a replica failed. -/
theorem errCode_ne_zero_iff (f : Fate Reply Errno) : errCode f ≠ 0 ↔ f.isFailed = true := by
  cases f <;> simp [Errno.neg_ne_zero]

/-- A call is made, and its answer is the fate. -/
theorem attempt_some (env : Env n) (cr : Creds) (i : Fin n) (cl : Call) :
    attempt env cr i (some cl) =
      match env.call cr i cl with
      | .ok r => .ok r
      | .error e => .failed e := rfl

/-- No call, no fate. -/
@[simp] theorem attempt_none (env : Env n) (cr : Creds) (i : Fin n) :
    attempt env cr i none = .skipped := rfl

/-- A replica is skipped exactly when there is no call for it. -/
theorem attempt_eq_skipped_iff {env : Env n} {cr : Creds} {i : Fin n} {cl : Option Call} :
    attempt env cr i cl = .skipped ↔ cl = none := by
  cases cl with
  | none => simp
  | some cl => rw [attempt_some]; cases env.call cr i cl <;> simp

/-- It answered exactly when its call did. -/
theorem attempt_eq_ok_iff {env : Env n} {cr : Creds} {i : Fin n} {cl : Option Call} {r : Reply} :
    attempt env cr i cl = .ok r ↔ ∃ c, cl = some c ∧ env.call cr i c = .ok r := by
  cases cl with
  | none => simp
  | some cl => rw [attempt_some]; cases h : env.call cr i cl <;> simp [h]

/-- It failed exactly when its call did. -/
theorem attempt_eq_failed_iff {env : Env n} {cr : Creds} {i : Fin n} {cl : Option Call}
    {e : Errno} :
    attempt env cr i cl = .failed e ↔ ∃ c, cl = some c ∧ env.call cr i c = .error e := by
  cases cl with
  | none => simp
  | some cl => rw [attempt_some]; cases h : env.call cr i cl <;> simp [h]

namespace Tally

/-- Count one fate. -/
def add (t : Tally n) (i : Fin n) (f : Fate Reply Errno) (evs : List (Event n)) : Tally n :=
  match f with
  | .skipped => { t with calls := t.calls ++ evs }
  | .ok _ => { t with succCnt := t.succCnt + 1, calls := t.calls ++ evs }
  | .failed e =>
      { t with
        errList := Function.update t.errList i e.neg
        failCnt := t.failCnt + 1
        calls := t.calls ++ evs }

/-- Count the fates of a list of replicas. -/
def addAll (F : Fin n → Fate Reply Errno) (ev : Fin n → List (Event n)) :
    List (Fin n) → Tally n → Tally n
  | [], t => t
  | i :: is, t => addAll F ev is (t.add i (F i) (ev i))

variable {F : Fin n → Fate Reply Errno} {ev : Fin n → List (Event n)}

/-- Visiting one more replica, with its fate and its events evaluated. -/
theorem addAll_cons {i : Fin n} {f : Fate Reply Errno} {evs : List (Event n)} (hF : F i = f)
    (hev : ev i = evs) (is : List (Fin n)) (t : Tally n) :
    addAll F ev (i :: is) t = addAll F ev is (t.add i f evs) := by
  rw [← hF, ← hev]
  rfl

/-- A skipped replica is not counted. -/
@[simp] theorem add_skipped (t : Tally n) (i : Fin n) : t.add i .skipped [] = t := by
  simp [add]

/-- An answer is counted; the error list stays. -/
@[simp] theorem add_ok (t : Tally n) (i : Fin n) (r : Reply) (evs : List (Event n)) :
    t.add i (.ok r) evs = { t with succCnt := t.succCnt + 1, calls := t.calls ++ evs } := rfl

/-- A failure is counted, with its error. -/
@[simp] theorem add_failed (t : Tally n) (i : Fin n) (e : Errno) (evs : List (Event n)) :
    t.add i (.failed e) evs =
      { t with
        errList := Function.update t.errList i e.neg
        failCnt := t.failCnt + 1
        calls := t.calls ++ evs } := rfl

/-- The calls over a list of replicas, in its order. -/
theorem addAll_calls (l : List (Fin n)) (t : Tally n) :
    (addAll F ev l t).calls = t.calls ++ l.flatMap ev := by
  induction l generalizing t with
  | nil => simp [addAll]
  | cons i is ih =>
      have hadd : (t.add i (F i) (ev i)).calls = t.calls ++ ev i := by
        unfold add; cases F i <;> rfl
      rw [addAll, ih, hadd, List.flatMap_cons, List.append_assoc]

/-- How many of them answered. -/
theorem addAll_succCnt (l : List (Fin n)) (t : Tally n) :
    (addAll F ev l t).succCnt = t.succCnt + l.countP fun i => (F i).isOk := by
  induction l generalizing t with
  | nil => simp [addAll]
  | cons i is ih =>
      rw [addAll, ih, List.countP_cons]
      unfold add
      cases F i <;> simp
      omega

/-- How many of them failed. -/
theorem addAll_failCnt (l : List (Fin n)) (t : Tally n) :
    (addAll F ev l t).failCnt = t.failCnt + l.countP fun i => (F i).isFailed := by
  induction l generalizing t with
  | nil => simp [addAll]
  | cons i is ih =>
      rw [addAll, ih, List.countP_cons]
      unfold add
      cases F i <;> simp
      omega

/-- The errors are those of the replicas of the list; the others keep theirs. -/
theorem addAll_errList (l : List (Fin n)) (t : Tally n) (j : Fin n) :
    (addAll F ev l t).errList j =
      if j ∈ l ∧ (F j).isFailed = true then errCode (F j) else t.errList j := by
  induction l generalizing t with
  | nil => simp [addAll]
  | cons i is ih =>
      rw [addAll, ih]
      by_cases hj : j = i
      · subst hj
        unfold add
        cases hF : F j <;> simp
      · have hadd : (t.add i (F i) (ev i)).errList j = t.errList j := by
          unfold add; cases F i <;> simp [hj]
        simp [hadd, hj]

/-- The counters and the error list describe the round `R`. -/
structure Reports (t : Tally n) (R : Round (Fin n) Reply Errno) : Prop where
  succ_iff : t.succCnt ≠ 0 ↔ R.Succeeded
  fail_iff : t.failCnt ≠ 0 ↔ ∃ i, (R i).isFailed = true
  err_eq : ∀ i, t.errList i = errCode (R i)

/-- The counters of the visited replicas describe the round in which the others are skipped. -/
theorem reports_addAll {R : Round (Fin n) Reply Errno} (l : List (Fin n))
    (hin : ∀ i ∈ l, R i = F i) (hout : ∀ i, i ∉ l → R i = .skipped) :
    (addAll F ev l {}).Reports R where
  succ_iff := by
    rw [addAll_succCnt, Nat.zero_add, ← Nat.pos_iff_ne_zero, List.countP_pos_iff]
    constructor
    · rintro ⟨i, hi, hok⟩
      exact ⟨i, by rw [hin i hi]; exact hok⟩
    · rintro ⟨i, hok⟩
      have hi : i ∈ l := by
        by_contra hni
        rw [hout i hni] at hok
        cases hok
      exact ⟨i, hi, by rw [← hin i hi]; exact hok⟩
  fail_iff := by
    rw [addAll_failCnt, Nat.zero_add, ← Nat.pos_iff_ne_zero, List.countP_pos_iff]
    constructor
    · rintro ⟨i, hi, hf⟩
      exact ⟨i, by rw [hin i hi]; exact hf⟩
    · rintro ⟨i, hf⟩
      have hi : i ∈ l := by
        by_contra hni
        rw [hout i hni] at hf
        cases hf
      exact ⟨i, hi, by rw [← hin i hi]; exact hf⟩
  err_eq := by
    intro i
    rw [addAll_errList]
    by_cases hi : i ∈ l
    · rw [hin i hi]
      cases hF : F i <;> simp [hi]
    · simp [hi, hout i hi]

end Tally

/-! ## The loops over all replicas -/

/-- The call made on replica `i` when its turn comes: none on a disabled replica. -/
def Config.guarded (c : Config n) (call : Fin n → Option Call) (i : Fin n) : Option Call :=
  if (c.replicas i).disabled then none else call i

/-- A disabled replica gets no call. -/
theorem Config.guarded_of_disabled {c : Config n} {i : Fin n}
    (h : (c.replicas i).disabled = true) (call : Fin n → Option Call) :
    c.guarded call i = none := by
  simp [guarded, h]

/-- An enabled one gets the call of the request. -/
theorem Config.guarded_of_enabled {c : Config n} {i : Fin n} (h : c.enabled i)
    (call : Fin n → Option Call) : c.guarded call i = call i := by
  unfold enabled at h
  simp [guarded, h]

/-- Who is called is enabled, and has a call. -/
theorem Config.guarded_eq_some_iff {c : Config n} {call : Fin n → Option Call} {i : Fin n}
    {cl : Call} : c.guarded call i = some cl ↔ c.enabled i ∧ call i = some cl := by
  unfold guarded enabled
  cases (c.replicas i).disabled <;> simp

/-- The loop over all replicas counts their fates. -/
theorem everyLoop_eq (env : Env n) (c : Config n) (cr : Creds) (call : Fin n → Option Call)
    (l : List (Fin n)) (t : Tally n) :
    everyLoop env c cr call l t =
      Tally.addAll (fun i => attempt env cr i (c.guarded call i))
        (fun i => attemptEvents env cr i (c.guarded call i)) l t := by
  induction l generalizing t with
  | nil => rfl
  | cons i is ih =>
      rw [everyLoop]
      by_cases hd : (c.replicas i).disabled = true
      · have hg : c.guarded call i = none := c.guarded_of_disabled hd call
        rw [if_pos hd, Tally.addAll_cons (congrArg (attempt env cr i) hg)
          (congrArg (attemptEvents env cr i) hg), ih]
        exact (congrArg _ (Tally.add_skipped t i)).symm
      · rw [if_neg hd]
        cases hc : call i with
        | none =>
            have hg : c.guarded call i = none := by simp [Config.guarded, hc]
            rw [Tally.addAll_cons (congrArg (attempt env cr i) hg)
              (congrArg (attemptEvents env cr i) hg)]
            exact (ih t).trans (congrArg _ (Tally.add_skipped t i)).symm
        | some cl =>
            have hg : c.guarded call i = some cl := by simp [Config.guarded, hc, hd]
            rw [Tally.addAll_cons (congrArg (attempt env cr i) hg)
              (congrArg (attemptEvents env cr i) hg), attempt_some, attemptEvents]
            cases henv : env.call cr i cl <;> simp only [henv] <;> exact ih _

/-- The events of `mknod` on replica `i`: a regular file that was created is closed at once. -/
def mknodEvents (env : Env n) (cr : Creds) (i : Fin n) : Option Call → List (Event n)
  | some (.open fname flags mode) =>
      let cl := Call.open fname flags mode
      match env.call cr i cl with
      | .ok r => [.call cr i cl (.ok r), .close cr i r.ret (env.close i r.ret)]
      | .error e => [.call cr i cl (.error e)]
  | cl => attemptEvents env cr i cl

/-- A file type `mknod` cannot create ends it at the first replica whose name could be built. -/
def mknodRefuses (env : Env n) (c : Config n) (path : Path) (mode : ℕ) (l : List (Fin n)) : Bool :=
  !sIsReg mode && !sIsFifo mode &&
    l.any fun i => !(c.replicas i).disabled && (env.xlate c path i).isSome

/-- A special file that `mknod` cannot make is met at the first replica or later. -/
theorem mknodRefuses_cons (env : Env n) (c : Config n) (path : Path) (mode : ℕ) (i : Fin n)
    (is : List (Fin n)) :
    mknodRefuses env c path mode (i :: is) =
      ((!sIsReg mode && !sIsFifo mode && !(c.replicas i).disabled && (env.xlate c path i).isSome)
        || mknodRefuses env c path mode is) := by
  unfold mknodRefuses
  cases sIsReg mode <;> cases sIsFifo mode <;> simp

/-- The loop of `mknod` gives up at such a file, else it counts the fates. -/
theorem mknodLoop_eq (env : Env n) (c : Config n) (cr : Creds) (path : Path) (mode : ℕ)
    (l : List (Fin n)) (t : Tally n) :
    mknodLoop env c cr path mode l t =
      if mknodRefuses env c path mode l then .error ENOSYS.neg
      else .ok (Tally.addAll
        (fun i => attempt env cr i (c.guarded (mknodCall env c path mode) i))
        (fun i => mknodEvents env cr i (c.guarded (mknodCall env c path mode) i)) l t) := by
  induction l generalizing t with
  | nil => simp [mknodLoop, mknodRefuses, Tally.addAll]
  | cons i is ih =>
      -- a replica that is passed over leaves the counters alone
      have hpass : c.guarded (mknodCall env c path mode) i = none →
          Tally.addAll (fun i => attempt env cr i (c.guarded (mknodCall env c path mode) i))
            (fun i => mknodEvents env cr i (c.guarded (mknodCall env c path mode) i)) (i :: is) t =
          Tally.addAll (fun i => attempt env cr i (c.guarded (mknodCall env c path mode) i))
            (fun i => mknodEvents env cr i (c.guarded (mknodCall env c path mode) i)) is t := by
        intro hg
        rw [Tally.addAll_cons (congrArg (attempt env cr i) hg)
          (congrArg (mknodEvents env cr i) hg)]
        exact congrArg _ (Tally.add_skipped t i)
      rw [mknodLoop, mknodRefuses_cons]
      by_cases hd : (c.replicas i).disabled = true
      · rw [if_pos hd, ih, hpass (c.guarded_of_disabled hd _)]
        simp [hd]
      · rw [if_neg hd]
        cases hx : env.xlate c path i with
        | none =>
            rw [hpass (by simp [Config.guarded, mknodCall, hx])]
            simpa using ih t
        | some fname =>
            cases hr : sIsReg mode with
            | true =>
                have hg : c.guarded (mknodCall env c path mode) i =
                    some (.open fname O_CREAT_EXCL_WRONLY (some mode)) := by
                  simp [Config.guarded, mknodCall, hx, hd, hr]
                rw [Tally.addAll_cons (congrArg (attempt env cr i) hg)
                  (congrArg (mknodEvents env cr i) hg), attempt_some, mknodEvents]
                cases henv : env.call cr i (.open fname O_CREAT_EXCL_WRONLY (some mode)) <;>
                  simpa [henv] using ih _
            | false =>
                cases hf : sIsFifo mode with
                | true =>
                    have hg : c.guarded (mknodCall env c path mode) i =
                        some (.mkfifo fname mode) := by
                      simp [Config.guarded, mknodCall, hx, hd, hr, hf]
                    have hev : mknodEvents env cr i (c.guarded (mknodCall env c path mode) i) =
                        [.call cr i (.mkfifo fname mode) (env.call cr i (.mkfifo fname mode))] := by
                      rw [hg]
                      rfl
                    rw [Tally.addAll_cons (congrArg (attempt env cr i) hg) hev, attempt_some]
                    cases henv : env.call cr i (.mkfifo fname mode) <;>
                      simpa [henv] using ih _
                | false => simp [hd]

/-! ## The loop of `open` and `create` -/

/-- The fate of replica `i` in `open` and `create`: a name that could not be built counts as a
failure with `ENOMEM`, although no call was made. -/
def openFate (env : Env n) (c : Config n) (cr : Creds) (path : Path) (call : Path → Call)
    (i : Fin n) : Fate Reply Errno :=
  if (c.replicas i).disabled then .skipped
  else match env.xlate c path i with
    | none => .failed ENOMEM
    | some fname => attempt env cr i (some (call fname))

/-- The entry of the descriptor vector a fate leaves. -/
def fdEntry (fd : ℤ) : Fate Reply Errno → ℤ
  | .skipped => fd
  | .failed _ => -1
  | .ok r => r.ret

/-- The loop of `open` and `create` counts the fates, and keeps the descriptors in the vector. -/
theorem openLoop_eq (env : Env n) (c : Config n) (cr : Creds) (path : Path) (call : Path → Call)
    (l : List (Fin n)) (hl : l.Nodup) (t : Tally n) (fd : Fin n → ℤ) :
    openLoop env c cr path call l t fd =
      (Tally.addAll (openFate env c cr path call)
        (fun i => attemptEvents env cr i (c.guarded (openCall env c path call) i)) l t,
       fun i => if i ∈ l then fdEntry (fd i) (openFate env c cr path call i) else fd i) := by
  induction l generalizing t fd with
  | nil => simp [openLoop, Tally.addAll]
  | cons i is ih =>
      obtain ⟨hi, his⟩ := List.nodup_cons.mp hl
      -- the vector entries of the replicas still to come are untouched by the step for `i`
      have hfd : ∀ v, (fun j => if j ∈ is then
            fdEntry (Function.update fd i v j) (openFate env c cr path call j)
          else Function.update fd i v j) =
          fun j => if j ∈ i :: is then
            (if j = i then v else fdEntry (fd j) (openFate env c cr path call j)) else fd j := by
        intro v
        funext j
        by_cases hj : j = i
        · subst hj; simp [hi]
        · simp [hj]
      have hcongr : ∀ v, fdEntry (fd i) (openFate env c cr path call i) = v →
          (fun j => if j ∈ i :: is then
            (if j = i then v else fdEntry (fd j) (openFate env c cr path call j)) else fd j) =
          fun j => if j ∈ i :: is then fdEntry (fd j) (openFate env c cr path call j)
            else fd j := by
        intro v hv
        funext j
        by_cases hj : j = i
        · subst hj; simp [hv]
        · simp [hj]
      rw [openLoop, Tally.addAll]
      by_cases hd : (c.replicas i).disabled = true
      · have hF : openFate env c cr path call i = .skipped := by simp [openFate, hd]
        have hself := hfd (fd i)
        rw [Function.update_eq_self] at hself
        simp only [hd, if_true, ih his, c.guarded_of_disabled hd, hF, Tally.add, attemptEvents,
          List.append_nil]
        rw [hself, hcongr (fd i) (by rw [hF]; rfl)]
      · simp only [hd, Bool.false_eq_true, if_false]
        cases hx : env.xlate c path i with
        | none =>
            have hF : openFate env c cr path call i = .failed ENOMEM := by
              simp [openFate, hd, hx]
            have hg : c.guarded (openCall env c path call) i = none := by
              simp [Config.guarded, openCall, hx]
            simp only [ih his, hF, hg, Tally.add, attemptEvents, List.append_nil]
            rw [hfd, hcongr (-1) (by rw [hF]; rfl)]
        | some fname =>
            have hF : openFate env c cr path call i = attempt env cr i (some (call fname)) := by
              simp [openFate, hd, hx]
            have hg : c.guarded (openCall env c path call) i = some (call fname) := by
              simp [Config.guarded, openCall, hx, hd]
            rw [attempt_some] at hF
            cases henv : env.call cr i (call fname) with
            | error e =>
                rw [henv] at hF
                simp only [ih his, hF, hg, henv, Tally.add, attemptEvents]
                rw [hfd, hcongr (-1) (by rw [hF]; rfl)]
            | ok r =>
                rw [henv] at hF
                simp only [ih his, hF, hg, henv, Tally.add, attemptEvents]
                rw [hfd, hcongr r.ret (by rw [hF]; rfl)]

/-! ## The loop of `write` -/

/-- Count one more write on the replicas satisfying `p`. -/
def Config.countWrites (c : Config n) (p : Fin n → Bool) : Config n :=
  { c with
    replicas := fun i =>
      if p i then { c.replicas i with totwr := (c.replicas i).totwr + 1 } else c.replicas i }

/-- The largest count among the fates of a list of replicas, starting from `w`. -/
def maxCount (F : Fin n → Fate Reply Errno) : List (Fin n) → ℤ → ℤ
  | [], w => w
  | i :: is, w =>
      match F i with
      | .ok r => maxCount F is (max r.ret w)
      | _ => maxCount F is w

/-- Counting disables nobody. -/
@[simp] theorem Config.countWrite_disabled (c : Config n) (i j : Fin n) :
    ((c.countWrite i).replicas j).disabled = (c.replicas j).disabled := by
  by_cases hj : j = i
  · subst hj; simp [countWrite]
  · simp [countWrite, hj]

/-- So who is called stays the same. -/
theorem Config.guarded_countWrite (c : Config n) (i : Fin n) (call : Fin n → Option Call) :
    (c.countWrite i).guarded call = c.guarded call := by
  funext j
  simp [guarded]

/-- Nobody is counted. -/
theorem Config.countWrites_none (c : Config n) {p : Fin n → Bool} (h : ∀ i, p i = false) :
    c.countWrites p = c := by
  simp [countWrites, h]

/-- One replica is counted first, then the others. -/
theorem Config.countWrites_countWrite (c : Config n) {i : Fin n} {p q : Fin n → Bool}
    (hi : p i = false) (hqi : q i = true) (hq : ∀ j, j ≠ i → q j = p j) :
    (c.countWrite i).countWrites p = c.countWrites q := by
  unfold countWrites countWrite setReplica
  congr 1
  funext j
  by_cases hj : j = i
  · subst hj; simp [hi, hqi]
  · simp [hj, hq j hj]

/-- The loop of `write` counts the fates, and every success in the configuration. -/
theorem writeLoop_eq (env : Env n) (cr : Creds) (fd : Fin n → ℤ) (buf : List UInt8) (offset : ℤ)
    (l : List (Fin n)) (hl : l.Nodup) (c : Config n) (t : Tally n) (w : ℤ) :
    writeLoop env cr fd buf offset l c t w =
      (c.countWrites fun i =>
          decide (i ∈ l) && (attempt env cr i (c.guarded (writeCall fd buf offset) i)).isOk,
        Tally.addAll (fun i => attempt env cr i (c.guarded (writeCall fd buf offset) i))
          (fun i => attemptEvents env cr i (c.guarded (writeCall fd buf offset) i)) l t,
        maxCount (fun i => attempt env cr i (c.guarded (writeCall fd buf offset) i)) l w) := by
  induction l generalizing c t w with
  | nil => simp [writeLoop, Tally.addAll, maxCount, Config.countWrites_none]
  | cons i is ih =>
      obtain ⟨hi, his⟩ := List.nodup_cons.mp hl
      rw [writeLoop]
      by_cases hskip : (c.replicas i).disabled = true ∨ fd i < 0
      · have hg : c.guarded (writeCall fd buf offset) i = none := by
          rcases hskip with hd | hf
          · exact c.guarded_of_disabled hd _
          · simp [Config.guarded, writeCall, hf]
        rw [if_pos hskip, ih his, Tally.addAll_cons (congrArg (attempt env cr i) hg)
          (congrArg (attemptEvents env cr i) hg), maxCount, hg]
        refine Prod.ext ?_ (Prod.ext (congrArg _ (Tally.add_skipped t i)).symm rfl)
        show Config.countWrites c _ = Config.countWrites c _
        congr 1
        funext j
        by_cases hj : j = i
        · subst hj; simp [hi, hg]
        · simp [hj]
      · obtain ⟨hd, hf⟩ := not_or.mp hskip
        have hg : c.guarded (writeCall fd buf offset) i = some (.pwrite (fd i) buf offset) := by
          simp [Config.guarded, writeCall, hd, hf]
        rw [if_neg hskip, Tally.addAll_cons (congrArg (attempt env cr i) hg)
          (congrArg (attemptEvents env cr i) hg), maxCount, hg, attempt_some, attemptEvents]
        cases henv : env.call cr i (.pwrite (fd i) buf offset) with
        | error e =>
            simp only [henv, ih his]
            refine Prod.ext ?_ rfl
            show Config.countWrites c _ = Config.countWrites c _
            congr 1
            funext j
            by_cases hj : j = i
            · subst hj; simp [hi, hg, attempt_some, henv]
            · simp [hj]
        | ok r =>
            simp only [henv, ih his, Config.guarded_countWrite]
            refine Prod.ext ?_ rfl
            refine Config.countWrites_countWrite c (by simp [hi])
              (by simp [hg, attempt_some, henv]) fun j hj => by simp [hj]

/-! ## The loop in `choose_replica` order -/

/-- The answers of `choose_replica` to a list of try numbers, made one after another. -/
def Config.choices : List ℕ → Config n → Option (List (Fin n) × Config n)
  | [], c => some ([], c)
  | k :: ks, c => do
      let (i, c) ← c.chooseReplica k
      let (is, c) ← Config.choices ks c
      some (i :: is, c)

/-- The first choice, then those that follow it. -/
theorem Config.choices_cons_eq_some {k : ℕ} {ks : List ℕ} {c c' : Config n} {l : List (Fin n)} :
    c.choices (k :: ks) = some (l, c') ↔
      ∃ i c₁ is, c.chooseReplica k = some (i, c₁) ∧ c₁.choices ks = some (is, c') ∧
        l = i :: is := by
  simp only [choices, Option.bind_eq_bind, Option.bind_eq_some_iff, Prod.exists, Option.some.injEq,
    Prod.mk.injEq]
  constructor
  · rintro ⟨i, c₁, h₁, is, c₂, h₂, rfl, rfl⟩
    exact ⟨i, c₁, is, h₁, h₂, rfl⟩
  · rintro ⟨i, c₁, is, h₁, h₂, rfl⟩
    exact ⟨i, c₁, h₁, is, c', h₂, rfl, rfl⟩

/-- The configurations differ at most in the two cursors. -/
def Config.SameButCursors (c c' : Config n) : Prop :=
  ∃ high low, c' = { c with currReplicaHigh := high, currReplicaLow := low }

/-- The configuration differs from itself in no cursor. -/
theorem Config.SameButCursors.refl (c : Config n) : c.SameButCursors c := ⟨_, _, rfl⟩

/-- Cursors that move twice. -/
theorem Config.SameButCursors.trans {c₁ c₂ c₃ : Config n} (h₁ : c₁.SameButCursors c₂)
    (h₂ : c₂.SameButCursors c₃) : c₁.SameButCursors c₃ := by
  obtain ⟨_, _, rfl⟩ := h₁
  obtain ⟨_, _, rfl⟩ := h₂
  exact ⟨_, _, rfl⟩

/-- Choosing among the high replicas moves their cursor only. -/
theorem Config.advanceHigh_sameButCursors {k : ℕ} {c c' : Config n}
    (h : c.advanceHigh k = some c') : c.SameButCursors c' := by
  unfold advanceHigh at h
  split_ifs at h
  all_goals cases h; exact ⟨_, _, rfl⟩

/-- Choosing among the low replicas moves theirs only. -/
theorem Config.advanceLow_sameButCursors {k : ℕ} {c c' : Config n}
    (h : c.advanceLow k = some c') : c.SameButCursors c' := by
  unfold advanceLow at h
  split_ifs at h
  all_goals cases h; exact ⟨_, _, rfl⟩

/-- `choose_replica` moves nothing but the cursors. -/
theorem Config.chooseReplica_sameButCursors {k : ℕ} {c c' : Config n} {i : Fin n}
    (h : c.chooseReplica k = some (i, c')) : c.SameButCursors c' := by
  simp only [chooseReplica, Option.bind_eq_bind, Option.bind_eq_some_iff] at h
  obtain ⟨c₁, h₁, c₂, h₂, h⟩ := h
  have hc : c.SameButCursors c₂ :=
    (advanceHigh_sameButCursors h₁).trans (advanceLow_sameButCursors h₂)
  split_ifs at h
  all_goals
    rw [Option.bind_eq_some_iff] at h
    obtain ⟨_, _, h⟩ := h
    cases h
    exact hc

/-- So does any number of choices. -/
theorem Config.choices_sameButCursors {ks : List ℕ} {c c' : Config n} {l : List (Fin n)}
    (h : c.choices ks = some (l, c')) : c.SameButCursors c' := by
  induction ks generalizing c l with
  | nil => cases h; exact .refl _
  | cons k ks ih =>
      obtain ⟨i, c₁, is, h₁, h₂, rfl⟩ := choices_cons_eq_some.mp h
      exact (chooseReplica_sameButCursors h₁).trans (ih h₂)

/-- The cursors do not decide who is called. -/
theorem Config.SameButCursors.guarded_eq {c c' : Config n} (h : c.SameButCursors c')
    (call : Fin n → Option Call) : c'.guarded call = c.guarded call := by
  obtain ⟨_, _, rfl⟩ := h
  rfl

/-- The answer a search ends with: the last replica tried answered, or nobody did. -/
def EndsWith (F : Fin n → Fate Reply Errno) (l : List (Fin n)) :
    Option (Fin n × Reply) → Prop
  | none => ∀ i ∈ l, (F i).isOk = false
  | some (a, r) => F a = .ok r ∧ ∃ l₀, l = l₀ ++ [a] ∧ ∀ i ∈ l₀, (F i).isOk = false

/-- **What the loop did.** It asked `choose_replica` for the first few tries (all of them, if
nobody answered), counted the fates of the replicas it was given, and stopped at the first answer. -/
theorem firstLoop_spec {env : Env n} {cr : Creds} {call : Fin n → Option Call} {ks : List ℕ}
    {c c' : Config n} {t t' : Tally n} {ans : Option (Fin n × Reply)}
    (h : firstLoop env cr call ks c t = some (c', t', ans)) :
    ∃ ks₁ ks₂ l, ks = ks₁ ++ ks₂ ∧ c.choices ks₁ = some (l, c') ∧ (ans = none → ks₂ = []) ∧
      EndsWith (fun i => attempt env cr i (c.guarded call i)) l ans ∧
      t' = Tally.addAll (fun i => attempt env cr i (c.guarded call i))
        (fun i => attemptEvents env cr i (c.guarded call i)) l t := by
  induction ks generalizing c t with
  | nil =>
      simp only [firstLoop, Option.some.injEq, Prod.mk.injEq] at h
      obtain ⟨rfl, rfl, rfl⟩ := h
      exact ⟨[], [], [], rfl, rfl, fun _ => rfl, by simp [EndsWith], rfl⟩
  | cons k ks ih =>
      rw [firstLoop] at h
      cases hch : c.chooseReplica k with
      | none => rw [hch] at h; cases h
      | some ic =>
          obtain ⟨i, c₁⟩ := ic
          rw [hch] at h
          have hcur := Config.chooseReplica_sameButCursors hch
          have hgd := hcur.guarded_eq call
          -- `i` did not answer: the rest of the loop does what the rest of the statement says
          have hgo : ∀ t₁, (attempt env cr i (c.guarded call i)).isOk = false →
              t₁ = t.add i (attempt env cr i (c.guarded call i))
                (attemptEvents env cr i (c.guarded call i)) →
              firstLoop env cr call ks c₁ t₁ = some (c', t', ans) →
              ∃ ks₁ ks₂ l, k :: ks = ks₁ ++ ks₂ ∧ c.choices ks₁ = some (l, c') ∧
                (ans = none → ks₂ = []) ∧
                EndsWith (fun i => attempt env cr i (c.guarded call i)) l ans ∧
                t' = Tally.addAll (fun i => attempt env cr i (c.guarded call i))
                  (fun i => attemptEvents env cr i (c.guarded call i)) l t := by
            intro t₁ hno ht₁ hrest
            obtain ⟨ks₁, ks₂, l, rfl, hl, hall, hend, ht'⟩ := ih hrest
            rw [hgd] at hend ht'
            refine ⟨k :: ks₁, ks₂, i :: l, rfl,
              Config.choices_cons_eq_some.mpr ⟨i, c₁, l, hch, hl, rfl⟩, hall, ?_, ?_⟩
            · cases ans with
              | none =>
                  intro j hj
                  rcases List.mem_cons.mp hj with rfl | hj
                  · exact hno
                  · exact hend j hj
              | some ar =>
                  obtain ⟨hF, l₀, rfl, hl₀⟩ := hend
                  refine ⟨hF, i :: l₀, rfl, ?_⟩
                  intro j hj
                  rcases List.mem_cons.mp hj with rfl | hj
                  · exact hno
                  · exact hl₀ j hj
            · rw [ht', ht₁]
              rfl
          simp only at h
          by_cases hd : (c₁.replicas i).disabled = true
          · have hg : c.guarded call i = none := by
              rw [← hgd]
              exact c₁.guarded_of_disabled hd call
            rw [if_pos hd] at h
            exact hgo t (by rw [hg]; rfl) (by rw [hg]; exact (Tally.add_skipped t i).symm) h
          · rw [if_neg hd] at h
            have hgi : c.guarded call i = call i := by
              rw [← hgd]
              exact c₁.guarded_of_enabled (by simpa [Config.enabled] using hd) call
            cases hcall : call i with
            | none =>
                rw [hcall] at h hgi
                exact hgo t (by rw [hgi]; rfl)
                  (by rw [hgi]; exact (Tally.add_skipped t i).symm) h
            | some cl =>
                rw [hcall] at h hgi
                cases henv : env.call cr i cl with
                | error e =>
                    simp only [henv] at h
                    exact hgo _ (by simp [hgi, attempt_some, henv])
                      (by simp [hgi, attempt_some, attemptEvents, henv]) h
                | ok r =>
                    simp only [henv, Option.some.injEq, Prod.mk.injEq] at h
                    obtain ⟨rfl, rfl, rfl⟩ := h
                    refine ⟨[k], ks, [i], rfl,
                      Config.choices_cons_eq_some.mpr ⟨i, c₁, [], hch, rfl, rfl⟩, by simp,
                      ⟨by simp [hgi, attempt_some, henv], [], rfl, by simp⟩, ?_⟩
                    simp [Tally.addAll, hgi, attempt_some, attemptEvents, henv]

/-- The loop ends when `choose_replica` answers every try. -/
theorem firstLoop_isSome (env : Env n) (cr : Creds) (call : Fin n → Option Call) {ks : List ℕ}
    {c : Config n} (h : (c.choices ks).isSome) (t : Tally n) :
    (firstLoop env cr call ks c t).isSome := by
  induction ks generalizing c t with
  | nil => rfl
  | cons k ks ih =>
      obtain ⟨⟨l, cf⟩, hl⟩ := Option.isSome_iff_exists.mp h
      obtain ⟨i, c₁, is, h₁, h₂, rfl⟩ := Config.choices_cons_eq_some.mp hl
      have hrest : ∀ t, (firstLoop env cr call ks c₁ t).isSome :=
        fun t => ih (by rw [h₂]; rfl) t
      rw [firstLoop, h₁]
      simp only
      by_cases hd : (c₁.replicas i).disabled = true
      · rw [if_pos hd]
        exact hrest t
      · rw [if_neg hd]
        cases call i with
        | none => exact hrest t
        | some cl =>
            cases henv : env.call cr i cl with
            | error e => simpa only [henv] using hrest _
            | ok r => simp only [henv, Option.isSome_some]

/-- A loop in which no replica is asked makes every try. -/
theorem choices_isSome_of_firstLoop {env : Env n} {cr : Creds} {ks : List ℕ} {c : Config n}
    {t : Tally n} (h : (firstLoop env cr (fun _ => none) ks c t).isSome) :
    (c.choices ks).isSome := by
  induction ks generalizing c with
  | nil => rfl
  | cons k ks ih =>
      rw [firstLoop] at h
      rw [Config.choices]
      cases hk : c.chooseReplica k with
      | none => simp [hk] at h
      | some ic =>
          simp only [hk, ite_self] at h
          obtain ⟨⟨is, cf⟩, his⟩ := Option.isSome_iff_exists.mp (ih h)
          simp [his]

end ChironFs
