import ChironFs.Lib.TwoRuns
import ChironFs.Model.Sample
import ChironFs.Spec.Creation
import ChironFs.Spec.HandleIo

/-!
# `create` against `mknod` and `open`

`chiron_create` does not read `fi->flags`: its handle is for writing, whatever the caller asked for.

* `viaCreate`, `viaMknodOpen`: the two ways to a handle for a new file, with what is read and written
  through it.
* `create_not_readable`: the bytes written through a handle for reading and writing cannot be read
  back.
* `SameCourses.writes`, `SameCourses.readsNothing`: what one `write`, or a `write` and a `read`, tell
  about the flags word of a handle.
* `create_eq_mknod_open_iff`: when the two ways cannot be told apart. `PlainFlags.openErr_eq_none_iff`,
  `PlainFlags.writeOnly_iff`: what it asks of a word with nothing but an access mode and flags of
  creation.
-/

namespace ChironFs

open Posix Replication

variable {n : ℕ}

/-! ## The two ways -/

/-- What comes of opening a file: the value returned, the responses to what is done with the handle,
and the replicas disabled at the end (`none`: the daemon was killed). -/
structure Course (n : ℕ) where
  ret : ℤ
  responses : List Response
  disabled : Option (Fin n → Bool)

/-- What is done with the handle, and what that request finds. -/
abbrev Later (n : ℕ) := Io × Env n × (Fin n → Volume)

/-- Go on with a handle, if there is one. -/
def Cluster.course (groups : List ℕ) (s : Cluster n Disk) (ret : ℤ) (fh : Option ℕ)
    (later : List (Later n)) : Course n :=
  let as := if ret < 0 then []
    else later.map fun a => (a.1.on (fh.getD 0), disks groups a.2.1 a.2.2)
  { ret := ret
    responses := Machine.observe Cluster.step Cluster.respond s as
    disabled := (Machine.runFrom Cluster.step s as).map fun s i =>
      (s.daemon.config.replicas i).disabled }

section ways

variable (groups : List ℕ) (s : Cluster n Disk) (env : Env n) (v : Fin n → Volume) (path : Path)
  (mode flags : ℕ) (later : List (Later n))

/-- `create`. -/
def viaCreate : Course n :=
  let x := disks groups env v
  let o := chironCreate path mode (x.on s.store) s.daemon
  (s.after x o).course groups o.response.ret o.fh later

/-- The flags that are not about creation. -/
def withoutCreation : ℕ := flags ^^^ (flags &&& creationFlags)

/-- `mknod`, and `open` unless it failed. -/
def viaMknodOpen : Course n :=
  let x := disks groups env v
  let o := chironMknod path mode 0 (x.on s.store) s.daemon
  let s₁ := s.after x o
  if o.response.ret < 0 then s₁.course groups o.response.ret none []
  else
    let o₁ := chironOpen path (withoutCreation flags) (x.on s₁.store) s₁.daemon
    (s₁.after x o₁).course groups o₁.response.ret o₁.fh later

end ways

/-! ## A handle that cannot be read -/

/-- A file system on which no flag has an effect but the access mode. -/
def plainRules : FlagRules where
  wants := openMask
  refuse _ granted := if granted then none else some EACCES
  readErr flags _ _ := if letsRead flags then none else some EBADF
  writeErr flags _ _ := if letsWrite flags then none else some EBADF
  place _ _ offset := offset.toNat
  refuse_false _ := Option.some_ne_none _
  refuse_ne _ granted := by cases granted <;> decide
  readErr_of _ h _ _ := if_neg (by rw [h]; exact Bool.false_ne_true)
  writeErr_of _ h _ _ := if_neg (by rw [h]; exact Bool.false_ne_true)
  plain_wants _ _ := rfl
  plain_refuse _ _ _ := rfl
  plain_read _ _ h _ _ := if_pos h
  plain_write _ _ h _ _ := if_pos h
  plain_place _ _ _ _ := rfl

/-- A disk that refuses nothing. -/
def plainVolume : Volume where
  rules := plainRules
  refuse _ _ := none
  fault _ := none
  fresh l := (l.map Prod.fst).sum + 1
  fresh_unused := by
    intro l p hp hfresh
    have hle := List.single_le_sum (fun _ _ => Nat.zero_le _) p.1 (List.mem_map_of_mem hp)
    omega

/-- An empty disk. -/
def emptyDisk : Disk := { files := fun _ => none, fds := [] }

/-- User `1000`, and nothing fails. -/
def plainCaller : Env 2 := plainEnv fun _ _ => .ok {}

namespace PlainFlags

variable {rules : FlagRules} {flags : ℕ}

/-- The word of `creat`. -/
theorem creat : PlainFlags O_CREAT_WRONLY_TRUNC := rfl

/-- Everything can be written through a word with the access mode for it. -/
theorem writes_iff (h : PlainFlags flags) : rules.Writes flags ↔ letsWrite flags = true := by
  constructor
  · intro hw
    by_contra hno
    have herr := rules.writeErr_of flags (Bool.eq_false_iff.mpr hno) [] 0
    rw [hw [] 0] at herr
    cases herr
  · exact fun hlets => rules.plain_write flags h hlets

/-- Nothing can be read through a word without the access mode for it. -/
theorem readsNothing_iff (h : PlainFlags flags) :
    rules.ReadsNothing flags ↔ letsRead flags = false := by
  constructor
  · intro hr
    by_contra hlets
    have herr := rules.plain_read flags h (Bool.not_eq_false _ ▸ hlets) 0 0
    rw [hr 0 0] at herr
    cases herr
  · exact fun hno => rules.readErr_of flags hno

/-- It stays plain without its flags of creation. -/
theorem withoutCreation (h : PlainFlags flags) : PlainFlags (withoutCreation flags) := by
  unfold PlainFlags ChironFs.withoutCreation at *
  rw [Nat.and_xor_distrib_right, Nat.and_assoc, Nat.and_comm creationFlags, ← Nat.and_assoc, h]

/-- The file is opened when its owner has the rights of the access mode. -/
theorem openErr_eq_none_iff (h : PlainFlags flags) {s : Cluster n Disk} {env : Env n}
    {v : Fin n → Volume} {mode : ℕ} {i : Fin n} :
    openErr s env v mode (ChironFs.withoutCreation flags) i = none ↔
      Permitted s env mode (openMask flags) := by
  have hmask : openMask (ChironFs.withoutCreation flags) = openMask flags := by
    unfold openMask
    rw [show ChironFs.withoutCreation flags &&& 3 = flags &&& 3 from accessMode_clear flags rfl]
  unfold openErr
  rw [(v i).rules.plain_refuse _ h.withoutCreation, (v i).rules.plain_wants _ h.withoutCreation,
    hmask]
  by_cases hperm : Permitted s env mode (openMask flags)
  · simp [hperm]
  · simp [hperm]

end PlainFlags

/-! ## The two ways, from the same disks -/

section courses

variable {groups : List ℕ} {s t : Cluster n Disk} {env : Env n} {v : Fin n → Volume}
  {path : Path} {mode flags : ℕ} {fname : Fin n → Path} {R : Round (Fin n) Reply Errno}

/-- What comes of a request that opens the file on the disks of `t`. -/
def Cluster.courseOf (groups : List ℕ) (t : Cluster n Disk) (v : Fin n → Volume)
    (fname : Fin n → Path) (flags : ℕ) (R : Round (Fin n) Reply Errno) (later : List (Later n)) :
    Course n :=
  if R.Succeeded then
    if t.slot R < 0 then t.course groups EMFILE.neg none later
    else (t.held v fname flags R (t.slot R).toNat).course groups 0 (some (t.slot R).toNat) later
  else t.course groups (firstError R) none later

/-- The course of such a request. -/
theorem Opening.course_eq {q : Request} (h : Opening groups s env v q t fname flags R)
    {o : Outcome n} (ho : handle q ((disks groups env v).on s.store) s.daemon = some o) (later : List (Later n)) :
    (s.after (disks groups env v) o).course groups o.response.ret o.fh later =
      t.courseOf groups v fname flags R later := by
  obtain ⟨hret, hfh⟩ := h.ret_eq ho
  rw [h.after_eq ho, hret, hfh]
  unfold Cluster.courseOf
  by_cases hs : R.Succeeded
  · by_cases hfull : t.slot R < 0
    · simp only [if_pos hs, if_pos hfull, if_neg fun hk : R.Succeeded ∧ 0 ≤ t.slot R =>
        hfull.not_ge hk.2]
    · simp only [if_pos hs, if_neg hfull, if_pos (And.intro hs (not_lt.mp hfull))]
  · simp only [if_neg hs, if_neg fun hk : R.Succeeded ∧ 0 ≤ t.slot R => hs hk.1]

/-- `create` opens with the word of `creat`. -/
theorem viaCreate_eq (h : Creatable s env path mode) (later : List (Later n)) :
    viaCreate groups s env v path mode later =
      (withFile s env v path mode).courseOf groups v (s.daemon.config.fileOn path)
        O_CREAT_WRONLY_TRUNC (creation s env v path) later :=
  (opening_create h).course_eq rfl later

/-- A course that ends with the opening. -/
theorem Cluster.course_of_neg {ret : ℤ} (hret : ret < 0) (fh fh' : Option ℕ)
    (later later' : List (Later n)) :
    t.course groups ret fh later = t.course groups ret fh' later' := by
  unfold Cluster.course
  simp only [if_pos hret]

/-- `open` after `mknod` opens with its caller's word. -/
theorem viaMknodOpen_eq (h : Creatable s env path mode)
    (hs : ∀ i, (creation s env v path i).isFailed = true → (creation s env v path).Succeeded)
    (later : List (Later n)) :
    viaMknodOpen groups s env v path mode flags later =
      (reopened s env v path mode (withoutCreation flags)).courseOf groups v
        (s.daemon.config.fileOn path) (withoutCreation flags)
        (reopening s env v path mode (withoutCreation flags)) later := by
  obtain ⟨hret, hafter⟩ := after_mknod (v := v) h
  have hnonneg : ¬ (chironMknod path mode 0 ((disks groups env v).on s.store) s.daemon).response.ret
      < 0 := by
    rw [hret]
    split_ifs with hsucc
    · exact lt_irrefl 0
    · exact fun hneg => hsucc ((firstError_neg_iff.mp hneg).elim hs)
  unfold viaMknodOpen
  simp only [if_neg hnonneg, hafter]
  exact (opening_open h hs (withoutCreation flags)).course_eq rfl later

/-- The value returned. -/
theorem Cluster.courseOf_ret (later : List (Later n)) :
    (t.courseOf groups v fname flags R later).ret =
      if R.Succeeded then if t.slot R < 0 then EMFILE.neg else 0 else firstError R := by
  unfold Cluster.courseOf
  split_ifs <;> rfl

/-- The replicas disabled when nothing is done with the handle. -/
theorem Cluster.courseOf_disabled :
    (t.courseOf groups v fname flags R []).disabled =
      some fun i => (t.daemon.config.replicas i).disabled := by
  have hnil : ∀ (t : Cluster n Disk) (ret : ℤ) (fh : Option ℕ),
      (t.course groups ret fh []).disabled =
        some fun i => (t.daemon.config.replicas i).disabled := by
    intro t ret fh
    unfold Cluster.course
    simp only [List.map_nil, ite_self]
    rfl
  unfold Cluster.courseOf
  split_ifs
  · exact hnil _ _ _
  · exact hnil _ _ _
  · exact hnil _ _ _

end courses

/-! ## Equal courses -/

section equal

variable {groups : List ℕ} {s t : Cluster n Disk} {k flags flags' : ℕ} {rules : Fin n → FlagRules}
  {tab : ℕ → Option (Fin n → ℤ)}

/-- Alike clusters go through the same. -/
theorem Cluster.Alike.course_eq (h : s.Alike tab k rules flags flags' t) (later : List (Later n)) :
    s.course groups 0 (some k) later = t.course groups 0 (some k) later := by
  have hin : ∀ a ∈ later.map (fun a => (a.1.on k, disks groups a.2.1 a.2.2)),
      ∃ (io : Io) (e : Env n) (w : Fin n → Volume), a = (io.on k, disks groups e w) := by
    intro a ha
    obtain ⟨b, -, rfl⟩ := List.mem_map.mp ha
    exact ⟨b.1, b.2.1, b.2.2, rfl⟩
  obtain ⟨hrun, hobs⟩ := Machine.runs_bisim (f := Cluster.respond) (g := Cluster.respond)
    (R := Cluster.Alike tab k rules flags flags') (fun s t a ha hst => by
      obtain ⟨io, e, w, rfl⟩ := ha
      exact hst.step) hin h
  have hdis : (Machine.runFrom Cluster.step s
        (later.map fun a => (a.1.on k, disks groups a.2.1 a.2.2))).map
          (fun s i => (s.daemon.config.replicas i).disabled) =
      (Machine.runFrom Cluster.step t
        (later.map fun a => (a.1.on k, disks groups a.2.1 a.2.2))).map
          (fun s i => (s.daemon.config.replicas i).disabled) := by
    generalize Machine.runFrom Cluster.step s _ = x, Machine.runFrom Cluster.step t _ = y at hrun
    cases hrun with
    | none => rfl
    | some hxy =>
        rw [Option.map_some, Option.map_some, hxy.daemon_eq]
        rfl
  unfold Cluster.course
  rw [if_neg (lt_irrefl 0)]
  simp only [Option.getD_some]
  rw [hobs, hdis]

end equal

/-! ## What a few requests tell -/

/-- A disk on which every `pread` and `pwrite` fails as `e` says. -/
def failingVolume (e : Option Errno) : Volume := { plainVolume with fault := fun _ => e }

section telling

variable {groups : List ℕ} {s t : Cluster n Disk} {k flags flags' : ℕ} {rules : Fin n → FlagRules}
  {env : Env n}

/-- The course of a request for such a handle, and how it goes on. -/
theorem Cluster.Holds.exists_course (groups : List ℕ) (fails : Fin n → Option Errno) (a : Io)
    (h : s.Holds k rules flags) (hcalloc : env.calloc 0 = true)
    (hhigh : (a.on k).searches = true → 0 < s.daemon.config.maxReplicaHigh) :
    let x := disks groups env fun i => failingVolume (fails i)
    ∃ o tried, s.serve (a.on k, x) = some o ∧
      Served (a.on k) (x.on s.store) s.daemon tried o ∧
      ∀ later, s.course groups 0 (some k) ((a, env, fun i => failingVolume (fails i)) :: later) =
        let rest := (s.after x o).course groups 0 (some k) later
        { rest with responses := o.response :: rest.responses } := by
  intro x
  obtain ⟨o, tried, ho, hsv⟩ := h.exists_served groups (fun i => failingVolume (fails i)) a hcalloc
    hhigh
  refine ⟨o, tried, ho, hsv, fun later => ?_⟩
  have hstep : s.step (a.on k, x) = some (s.after x o) := congrArg (Option.map _) ho
  have hresp : s.respond (a.on k, x) = some o.response := congrArg (Option.map _) ho
  unfold Cluster.course
  simp only [if_neg (lt_irrefl (0 : ℤ)), List.map_cons, Option.getD_some]
  rw [Machine.observe_cons hstep, Machine.runFrom_cons, hstep, hresp]
  rfl

/-- Two handles for the same replicas that go through the same. -/
structure SameCourses (groups : List ℕ) (k : ℕ) (rules : Fin n → FlagRules) (flags flags' : ℕ)
    (s t : Cluster n Disk) : Prop where
  holds : s.Holds k rules flags
  holds' : t.Holds k rules flags'
  enabled_iff : ∀ i, t.daemon.config.enabled i ↔ s.daemon.config.enabled i
  course_eq : ∀ later, s.course groups 0 (some k) later = t.course groups 0 (some k) later

/-- **One `write` tells** whether everything can be written through the second handle too. -/
theorem SameCourses.writes (h : SameCourses groups k rules flags flags' s t)
    (hcalloc : env.calloc 0 = true)
    (hw : ∀ i, s.daemon.config.enabled i → (rules i).Writes flags) {i : Fin n}
    (hi : s.daemon.config.enabled i) : (rules i).Writes flags' := by
  intro buf offset
  have hno : ((Io.write buf offset).on k).searches = true → 0 < s.daemon.config.maxReplicaHigh :=
    fun hse => by cases hse
  have hno' : ((Io.write buf offset).on k).searches = true → 0 < t.daemon.config.maxReplicaHigh :=
    fun hse => by cases hse
  let fails : Fin n → Option Errno := fun _ => none
  have hfault : ∀ i c, (failingVolume (fails i)).fault c = fails i := fun _ _ => rfl
  obtain ⟨o, _, -, hsv, hcourse⟩ := h.holds.exists_course groups fails (.write buf offset) hcalloc
    hno
  obtain ⟨o', _, -, hsv', hcourse'⟩ := h.holds'.exists_course groups fails (.write buf offset)
    hcalloc hno'
  have heq := (hcourse []).symm.trans ((h.course_eq _).trans (hcourse' []))
  have hresp : o.response = o'.response := (List.cons.inj (congrArg Course.responses heq)).1
  have hdis : (fun i => (o.daemon.config.replicas i).disabled) =
      fun i => (o'.daemon.config.replicas i).disabled :=
    Option.some.inj (congrArg Course.disabled heq)
  have herr : ((Io.write buf offset).err (rules i) flags).or (fails i) = none :=
    Option.or_none.trans (hw i hi buf offset)
  have hret : 0 ≤ o.response.ret := (h.holds.answered_iff hfault hsv).mpr ⟨i, hi, herr⟩
  -- nobody is disabled by the first `write`, hence nobody by the second
  have hen : o.daemon.config.enabled i :=
    (h.holds.enabled_after_iff hfault rfl hsv hret i).mpr ⟨hi, herr⟩
  have hen' : o'.daemon.config.enabled i := by
    unfold Config.enabled at hen ⊢
    rwa [← congrFun hdis i]
  rw [hresp] at hret
  exact Option.or_none.symm.trans ((h.holds'.enabled_after_iff hfault rfl hsv' hret i).mp hen').2

/-- A `write` that fails on all replicas but `i`, and a `read` that `i` has to answer. -/
def telling (env : Env n) (i : Fin n) (size : ℕ) (offset : ℤ) : List (Later n) :=
  [(.write [] 0, env, fun j => failingVolume (if j = i then none else some ENOSPC)),
    (.read size offset, env, fun _ => failingVolume none)]

/-- The `read` returns what the descriptor on replica `i` says. -/
theorem Cluster.Holds.exists_responses (groups : List ℕ) (h : s.Holds k rules flags)
    (hcalloc : env.calloc 0 = true) (hhigh : 0 < s.daemon.config.maxReplicaHigh)
    (hw : ∀ i, s.daemon.config.enabled i → (rules i).Writes flags) {i : Fin n}
    (hi : s.daemon.config.enabled i) (size : ℕ) (offset : ℤ) :
    ∃ r r', (s.course groups 0 (some k) (telling env i size offset)).responses = [r, r'] ∧
      (0 ≤ r'.ret ↔ (rules i).readErr flags size offset = none) ∧
      ∀ e, (rules i).readErr flags size offset = some e → r'.ret = e.neg := by
  let fails : Fin n → Option Errno := fun j => if j = i then none else some ENOSPC
  let fine : Fin n → Option Errno := fun _ => none
  have hfault : ∀ j c, (failingVolume (fails j)).fault c = fails j := fun _ _ => rfl
  have hfault' : ∀ j c, (failingVolume (fine j)).fault c = fine j := fun _ _ => rfl
  obtain ⟨o, _, ho, hsv, hcourse⟩ := h.exists_course groups fails (.write [] 0) hcalloc
    fun hse => by cases hse
  have hh : (s.after (disks groups env fun j => failingVolume (fails j)) o).Holds k rules flags :=
    h.after ho
  have herr : ∀ j, s.daemon.config.enabled j →
      (((Io.write [] 0).err (rules j) flags).or (fails j) = none ↔ j = i) := by
    intro j hj
    rw [show (Io.write [] 0).err (rules j) flags = none from hw j hj [] 0, Option.none_or]
    by_cases hji : j = i
    · exact iff_of_true (if_pos hji) hji
    · rw [show fails j = some ENOSPC from if_neg hji]
      exact iff_of_false (Option.some_ne_none _) hji
  have hret : 0 ≤ o.response.ret :=
    (h.answered_iff hfault hsv).mpr ⟨i, hi, (herr i hi).mpr rfl⟩
  -- replica `i` is left alone
  have honly : ∀ j, o.daemon.config.enabled j ↔ j = i := by
    intro j
    rw [h.enabled_after_iff hfault rfl hsv hret j]
    constructor
    · rintro ⟨hj, hnone⟩
      exact (herr j hj).mp hnone
    · rintro rfl
      exact ⟨hi, (herr j hi).mpr rfl⟩
  have hhigh' : 0 < o.daemon.config.maxReplicaHigh := by
    rw [(handle_sameLayout ho).maxReplicaHigh]
    exact hhigh
  obtain ⟨o', _, -, hsv', hcourse'⟩ := hh.exists_course groups fine (.read size offset) hcalloc
    fun _ => hhigh'
  have hread : ((Io.read size offset).err (rules i) flags).or (fine i) =
      (rules i).readErr flags size offset := Option.or_none
  refine ⟨o.response, o'.response, ?_, ?_, fun e he => ?_⟩
  · refine (congrArg Course.responses (hcourse _)).trans ?_
    exact congrArg (o.response :: ·) (congrArg Course.responses (hcourse' []))
  · rw [hh.answered_iff hfault' hsv']
    constructor
    · rintro ⟨j, hj, hnone⟩
      obtain rfl := (honly j).mp hj
      exact hread.symm.trans hnone
    · exact fun hnone => ⟨i, (honly i).mpr rfl, hread.trans hnone⟩
  · exact hh.ret_eq hfault' hsv' honly (hread.trans he)

/-- **A `write` and a `read` tell** whether nothing can be read through the second handle too. -/
theorem SameCourses.readsNothing (h : SameCourses groups k rules flags flags' s t)
    (hcalloc : env.calloc 0 = true) (hhigh : 0 < s.daemon.config.maxReplicaHigh)
    (hhigh' : 0 < t.daemon.config.maxReplicaHigh)
    (hw : ∀ i, s.daemon.config.enabled i → (rules i).Writes flags)
    (hr : ∀ i, s.daemon.config.enabled i → (rules i).ReadsNothing flags) {i : Fin n}
    (hi : s.daemon.config.enabled i) : (rules i).ReadsNothing flags' := by
  intro size offset
  have hw' : ∀ i, t.daemon.config.enabled i → (rules i).Writes flags' := fun i hi =>
    h.writes hcalloc hw ((h.enabled_iff i).mp hi)
  obtain ⟨_, r, hresp, -, hret⟩ := h.holds.exists_responses groups hcalloc hhigh hw hi size
    offset
  obtain ⟨_, r', hresp', hnone, hret'⟩ := h.holds'.exists_responses groups hcalloc hhigh' hw'
    ((h.enabled_iff i).mpr hi) size offset
  have heq := hresp.symm.trans ((congrArg Course.responses (h.course_eq _)).trans hresp')
  obtain rfl : r = r' := (List.cons.inj (List.cons.inj heq).2).1
  have hebadf : r.ret = EBADF.neg := hret EBADF (hr i hi size offset)
  cases herr : (rules i).readErr flags' size offset with
  | none =>
      have hneg := hnone.mpr herr
      rw [hebadf] at hneg
      exact absurd EBADF.neg_lt_zero hneg.not_gt
  | some e =>
      have he := (hret' e herr).symm.trans hebadf
      rw [Errno.neg_injective he]

end telling

/-! ## The cases -/

section cases

variable {groups : List ℕ} {s t : Cluster n Disk} {env : Env n} {v : Fin n → Volume}
  {path : Path} {mode flags : ℕ}

/-- Somebody creates the file. -/
theorem creation_succeeded_iff : (creation s env v path).Succeeded ↔ ∃ i,
    s.daemon.config.enabled i ∧ (v i).refuse (dropPriv env s.daemon.creds).creds
      (s.daemon.config.fileOn path i) = none := by
  apply exists_congr
  intro i
  unfold creation
  split_ifs with hen
  · cases (v i).refuse (dropPriv env s.daemon.creds).creds (s.daemon.config.fileOn path i) with
    | none => exact iff_of_true rfl ⟨hen, rfl⟩
    | some e => exact iff_of_false Bool.false_ne_true fun h => Option.some_ne_none e h.2
  · exact iff_of_false Bool.false_ne_true fun h => hen h.1

/-- A replica that has the file opens it, unless it refuses the flags word. -/
theorem isOk_reopening {i : Fin n} : (reopening s env v path mode flags i).isOk = true ↔
    (creation s env v path i).isOk = true ∧ openErr s env v mode flags i = none := by
  unfold reopening
  split_ifs with hok
  · rw [and_iff_right hok]
    cases openErr s env v mode flags i with
    | none => exact iff_of_true rfl rfl
    | some e => exact iff_of_false Bool.false_ne_true (Option.some_ne_none e)
  · exact iff_of_false Bool.false_ne_true fun h => hok h.1

/-- A replica that has the file and refuses the flags word fails. -/
theorem reopening_of_refused {i : Fin n} (hok : (creation s env v path i).isOk = true) {e : Errno}
    (he : openErr s env v mode flags i = some e) :
    reopening s env v path mode flags i = .failed e := by
  rw [reopening, if_pos hok, he]

/-- The `open` disables nobody when nobody refuses, or nobody opens. -/
theorem reopened_eq (h : ∀ i, ¬ (reopening s env v path mode flags).Drops i) :
    reopened s env v path mode flags = withFile s env v path mode := by
  unfold reopened
  rw [Config.dropFaulty_of_not_drops _ h]
  rfl

/-- Nobody creates the file: both ways return the same error, or find no replica to ask. -/
theorem ways_eq_of_not_succeeded (h : Creatable s env path mode)
    (hs : ¬ (creation s env v path).Succeeded) (later : List (Later n)) :
    viaCreate groups s env v path mode later =
      viaMknodOpen groups s env v path mode flags later := by
  rw [viaCreate_eq h]
  unfold Cluster.courseOf
  rw [if_neg hs]
  by_cases hfail : ∃ i, (creation s env v path i).isFailed = true
  · have hneg := firstError_neg_iff.mpr hfail
    have hret : (chironMknod path mode 0 ((disks groups env v).on s.store) s.daemon).response.ret =
        firstError (creation s env v path) := by
      rw [(after_mknod h).1, if_neg hs]
    have hafter : s.after (disks groups env v)
        (chironMknod path mode 0 ((disks groups env v).on s.store) s.daemon) =
          withFile s env v path mode := (after_mknod h).2
    unfold viaMknodOpen
    simp only [hret, if_pos hneg]
    rw [hafter]
    exact Cluster.course_of_neg hneg _ _ _ _
  · have hno : ∀ i, ¬ (creation s env v path i).isFailed = true := fun i hi => hfail ⟨i, hi⟩
    have hs' : ¬ (reopening s env v path mode (withoutCreation flags)).Succeeded := fun hr =>
      hs (hr.imp fun i hi => (isOk_reopening.mp hi).1)
    rw [viaMknodOpen_eq h fun i hi => absurd hi (hno i), reopened_eq fun i hi => hs' hi.1,
      Cluster.courseOf, if_neg hs', firstError_eq_zero fun i => Bool.eq_false_iff.mpr (hno i),
      firstError_eq_zero]
    intro i
    unfold reopening
    rw [if_neg fun hok => hs ⟨i, hok⟩]
    rfl

/-- A replica that has the file refuses the flags word: it is disabled, or an error is returned. -/
theorem ways_ne_of_refused (h : Creatable s env path mode) {i : Fin n}
    (hok : (creation s env v path i).isOk = true)
    (hrefuse : openErr s env v mode (withoutCreation flags) i ≠ none) :
    viaCreate groups s env v path mode [] ≠ viaMknodOpen groups s env v path mode flags [] := by
  have hs : (creation s env v path).Succeeded := ⟨i, hok⟩
  obtain ⟨e, he⟩ := Option.ne_none_iff_exists'.mp hrefuse
  have hfailed := reopening_of_refused hok he
  rw [viaCreate_eq h, viaMknodOpen_eq h fun _ _ => hs]
  intro heq
  by_cases hr : (reopening s env v path mode (withoutCreation flags)).Succeeded
  · -- somebody opens the file, and `i` is disabled
    have hdis := congrArg Course.disabled heq
    rw [Cluster.courseOf_disabled, Cluster.courseOf_disabled] at hdis
    have hi := congrFun (Option.some.inj hdis) i
    have hdrop : ((reopened s env v path mode (withoutCreation flags)).daemon.config.replicas
        i).disabled = true :=
      (Config.dropFaulty_disabled _ _ _).mpr (Or.inr (Round.drops_of_eq_failed hr hfailed))
    have hen : (withFile s env v path mode).daemon.config.enabled i :=
      (enabled_withFile_iff (fun _ _ => hs) i).mpr hok
    unfold Config.enabled at hen
    rw [hdrop, hen] at hi
    cases hi
  · -- nobody does, for a reason that is not the number of descriptors
    have hret := congrArg Course.ret heq
    rw [Cluster.courseOf_ret, Cluster.courseOf_ret, if_pos hs, if_neg hr] at hret
    obtain ⟨j, e', hj, hfirst⟩ := exists_firstError_eq ⟨i, Fate.isFailed_iff.mpr ⟨e, hfailed⟩⟩
    rw [hfirst] at hret
    have hmfile : e' ≠ EMFILE := by
      rintro rfl
      unfold reopening at hj
      split_ifs at hj
      split at hj
      · next heq' =>
          cases hj
          exact (v j).rules.refuse_ne _ _ heq'
      · cases hj
    split_ifs at hret
    · exact hmfile (Errno.neg_injective hret).symm
    · exact e'.neg_ne_zero hret.symm

/-! ### Both ways open the file -/

/-- The vectors agree on the replicas that have the file. -/
theorem fdVector_reopening (hs : (creation s env v path).Succeeded)
    (hopen : ∀ i, (creation s env v path i).isOk = true → openErr s env v mode flags i = none)
    {i : Fin n} (hi : (withFile s env v path mode).daemon.config.enabled i) :
    fdVector (reopening s env v path mode flags) i = fdVector (creation s env v path) i := by
  have hok := (enabled_withFile_iff (fun _ _ => hs) i).mp hi
  obtain ⟨r, hr⟩ := Fate.isOk_iff.mp hok
  obtain rfl : r = { ret := (v i).fresh (made s env v path mode i).fds } := creation_reply hr
  rw [fdVector, fdVector, reopening, if_pos hok, hopen i hok, hr, made_fds]

/-- So they get the same slot. -/
theorem slot_reopening (hs : (creation s env v path).Succeeded)
    (hopen : ∀ i, (creation s env v path i).isOk = true → openErr s env v mode flags i = none) :
    (withFile s env v path mode).slot (reopening s env v path mode flags) =
      (withFile s env v path mode).slot (creation s env v path) :=
  Config.fdHashset_fst_congr fun _ hi => fdVector_reopening hs hopen hi

/-- The handle of such an opening. -/
theorem holds_held (h : Creatable s env path mode) {R : Round (Fin n) Reply Errno}
    (hs : (creation s env v path).Succeeded)
    (hR : ∀ i, (creation s env v path i).isOk = true →
      R i = .ok { ret := (v i).fresh (made s env v path mode i).fds })
    (fname : Fin n → Path) (k : ℕ) :
    ((withFile s env v path mode).held v fname flags R k).Holds k (fun i => (v i).rules) flags := by
  have hlay : s.daemon.config.SameLayout
      ((withFile s env v path mode).held v fname flags R k).daemon.config :=
    (Config.SameLayout.dropFaulty _ _).trans (.setSlot _ _ _)
  have hen : ∀ i, ((withFile s env v path mode).held v fname flags R k).daemon.config.enabled i →
      (creation s env v path i).isOk = true := fun i hi => by
    have hi' : (withFile s env v path mode).daemon.config.enabled i := hi
    exact (enabled_withFile_iff (fun _ _ => hs) i).mp hi'
  refine ⟨hlay.wellFormed h.tables, hlay.allNamed h.named, ?_, fdVector R,
    Function.update_self _ _ _, fun i hi => ?_⟩
  · refine hs.imp fun i hi => ?_
    show (withFile s env v path mode).daemon.config.enabled i
    exact (enabled_withFile_iff (fun _ _ => hs) i).mpr hi
  · have hok := hR i (hen i hi)
    refine ⟨?_, fname i, ?_⟩
    · rw [fdVector, hok]
      exact Int.natCast_nonneg _
    · show Disk.desc (if (R i).isOk = true then _ else _) _ = _
      rw [fdVector, if_pos (by rw [hok]; rfl), hok]
      exact Volume.desc_opened

/-- The handle of `create`. -/
theorem holds_created (h : Creatable s env path mode) (hs : (creation s env v path).Succeeded)
    (k : ℕ) :
    ((withFile s env v path mode).held v (s.daemon.config.fileOn path) O_CREAT_WRONLY_TRUNC
      (creation s env v path) k).Holds k (fun i => (v i).rules) O_CREAT_WRONLY_TRUNC := by
  refine holds_held h hs (fun i hi => ?_) _ _
  obtain ⟨r, hr⟩ := Fate.isOk_iff.mp hi
  rw [hr, creation_reply hr]

/-- The handle of `open`. -/
theorem holds_reopened (h : Creatable s env path mode) (hs : (creation s env v path).Succeeded)
    (hopen : ∀ i, (creation s env v path i).isOk = true → openErr s env v mode flags i = none)
    (k : ℕ) :
    ((withFile s env v path mode).held v (s.daemon.config.fileOn path) flags
      (reopening s env v path mode flags) k).Holds k (fun i => (v i).rules) flags := by
  refine holds_held h hs (fun i hi => ?_) _ _
  rw [reopening, if_pos hi, hopen i hi, made_fds]

/-- Everything can be written through a descriptor with this word, and nothing read if anybody can
be asked, on the replicas that create the file. -/
def WriteOnly (s : Cluster n Disk) (env : Env n) (v : Fin n → Volume) (path : Path) (flags : ℕ) :
    Prop :=
  ∀ i, (creation s env v path i).isOk = true → (v i).rules.Writes flags ∧
    (s.daemon.config.maxReplicaHigh ≠ 0 → (v i).rules.ReadsNothing flags)

/-- The word of `creat` is such a word everywhere. -/
theorem writes_creat (i : Fin n) : (v i).rules.Writes O_CREAT_WRONLY_TRUNC :=
  PlainFlags.creat.writes_iff.mpr rfl

theorem readsNothing_creat (i : Fin n) : (v i).rules.ReadsNothing O_CREAT_WRONLY_TRUNC :=
  PlainFlags.creat.readsNothing_iff.mpr rfl

/-- Both ways leave handles that cannot be told apart. -/
theorem alike_held (h : Creatable s env path mode) (hs : (creation s env v path).Succeeded)
    (hopen : ∀ i, (creation s env v path i).isOk = true → openErr s env v mode flags i = none)
    (hw : WriteOnly s env v path flags) (k : ℕ) :
    let t := (withFile s env v path mode).held v (s.daemon.config.fileOn path) flags
      (reopening s env v path mode flags) k
    ((withFile s env v path mode).held v (s.daemon.config.fileOn path) O_CREAT_WRONLY_TRUNC
      (creation s env v path) k).Alike t.daemon.config.tabFd k (fun i => (v i).rules)
        O_CREAT_WRONLY_TRUNC flags t where
  daemon_eq := rfl
  vectors := by
    have htab : ∀ fd : Fin n → ℤ,
        ((withFile s env v path mode).daemon.config.setSlot k (some fd)).tabFd k = some fd :=
      fun fd => Function.update_self _ _ _
    show Option.Rel _ (((withFile s env v path mode).daemon.config.setSlot k _).tabFd k)
      (((withFile s env v path mode).daemon.config.setSlot k _).tabFd k)
    rw [htab, htab]
    exact .some fun i hi => fdVector_reopening hs hopen hi
  holds := holds_created h hs k
  holds' := holds_reopened h hs hopen k
  writes i hi := by
    have hi' : (withFile s env v path mode).daemon.config.enabled i := hi
    exact ⟨writes_creat i, (hw i ((enabled_withFile_iff (fun _ _ => hs) i).mp hi')).1⟩
  reads hhigh i hi := by
    have hi' : (withFile s env v path mode).daemon.config.enabled i := hi
    exact ⟨readsNothing_creat i, (hw i ((enabled_withFile_iff (fun _ _ => hs) i).mp hi')).2 hhigh⟩

/-- What handles that go through the same tell about the flags word. -/
theorem writeOnly_of_course_eq (h : Creatable s env path mode)
    (hs : (creation s env v path).Succeeded)
    (hopen : ∀ i, (creation s env v path i).isOk = true → openErr s env v mode flags i = none)
    {k : ℕ} (heq : ∀ later,
      ((withFile s env v path mode).held v (s.daemon.config.fileOn path) O_CREAT_WRONLY_TRUNC
        (creation s env v path) k).course groups 0 (some k) later =
      ((withFile s env v path mode).held v (s.daemon.config.fileOn path) flags
        (reopening s env v path mode flags) k).course groups 0 (some k) later) :
    WriteOnly s env v path flags := by
  have hsame : SameCourses groups k (fun i => (v i).rules) O_CREAT_WRONLY_TRUNC flags _ _ :=
    { holds := holds_created h hs k
      holds' := holds_reopened h hs hopen k
      enabled_iff := fun _ => Iff.rfl
      course_eq := heq }
  intro i hok
  have hi : (withFile s env v path mode).daemon.config.enabled i :=
    (enabled_withFile_iff (fun _ _ => hs) i).mpr hok
  refine ⟨hsame.writes (h.calloc 0) (fun i _ => writes_creat i) hi, fun hhigh => ?_⟩
  have hpos := Nat.pos_of_ne_zero hhigh
  exact hsame.readsNothing (h.calloc 0) hpos hpos (fun i _ => writes_creat i)
    (fun i _ => readsNothing_creat i) hi

/-- For a word with nothing but an access mode and flags of creation: it is for writing only, or it is
for both and nobody can be asked for a read. -/
theorem PlainFlags.writeOnly_iff (h : PlainFlags flags) (hs : (creation s env v path).Succeeded) :
    WriteOnly s env v path (ChironFs.withoutCreation flags) ↔ accessMode flags = O_WRONLY ∨
      accessMode flags = O_RDWR ∧ s.daemon.config.maxReplicaHigh = 0 := by
  have hacc : accessMode (ChironFs.withoutCreation flags) = accessMode flags :=
    accessMode_clear flags rfl
  have hw : ∀ i, (v i).rules.Writes (ChironFs.withoutCreation flags) ↔
      accessMode flags = O_WRONLY ∨ accessMode flags = O_RDWR := by
    intro i
    rw [h.withoutCreation.writes_iff, letsWrite, hacc]
    simp
  have hr : ∀ i, (v i).rules.ReadsNothing (ChironFs.withoutCreation flags) ↔
      ¬ (accessMode flags = O_RDONLY ∨ accessMode flags = O_RDWR) := by
    intro i
    rw [h.withoutCreation.readsNothing_iff, letsRead, hacc]
    simp
  constructor
  · intro hwo
    obtain ⟨i, hok⟩ := hs
    obtain ⟨hwi, hri⟩ := hwo i hok
    rcases (hw i).mp hwi with hwronly | hrdwr
    · exact Or.inl hwronly
    · refine Or.inr ⟨hrdwr, ?_⟩
      by_contra hhigh
      exact (hr i).mp (hri hhigh) (Or.inr hrdwr)
  · rintro (hwronly | ⟨hrdwr, hzero⟩) i -
    · refine ⟨(hw i).mpr (Or.inl hwronly), fun _ => (hr i).mpr ?_⟩
      rw [hwronly]
      decide
    · exact ⟨(hw i).mpr (Or.inr hrdwr), fun hhigh => absurd hzero hhigh⟩

/-- The slot is there when a cell is free among those probed. -/
theorem slot_nonneg_iff (h : Creatable s env path mode) :
    0 ≤ (withFile s env v path mode).slot (creation s env v path) ↔
      ∃ p, (roundFds (creation s env v path)).head? = some p ∧
        ∃ k < max s.daemon.config.fdBufSize.toNat
            (hashFd s.daemon.config.fdBufSize (UInt32.ofNat p.2.toNat)).toNat,
          s.daemon.config.tabFd k = none := by
  have hopening : Opening [] s env v _ (withFile s env v path mode) _ _ _ := opening_create h
  have hiff : 0 ≤ ((Request.create path mode).store ((disks [] env v).on s.store) s.daemon).1 ↔ _ :=
    store_nonneg_iff rfl
  rwa [hopening.store_fst, hopening.round_eq] at hiff

/-- Both ways, when all replicas that have the file open it. -/
theorem ways_of_opened (h : Creatable s env path mode) (hs : (creation s env v path).Succeeded)
    (hopen : ∀ i, (creation s env v path i).isOk = true →
      openErr s env v mode (withoutCreation flags) i = none) :
    (∀ later, viaCreate groups s env v path mode later =
        viaMknodOpen groups s env v path mode flags later) ↔
      WriteOnly s env v path (withoutCreation flags) ∨
        ¬ 0 ≤ (withFile s env v path mode).slot (creation s env v path) := by
  have hs' : (reopening s env v path mode (withoutCreation flags)).Succeeded :=
    hs.imp fun i hi => isOk_reopening.mpr ⟨hi, hopen i hi⟩
  have hno : ∀ i, ¬ (reopening s env v path mode (withoutCreation flags)).Drops i := by
    rintro i ⟨-, hfail⟩
    unfold reopening at hfail
    split_ifs at hfail with hok
    · rw [hopen i hok] at hfail
      cases hfail
    · cases hfail
  have hways : ∀ later, viaMknodOpen groups s env v path mode flags later =
      (withFile s env v path mode).courseOf groups v (s.daemon.config.fileOn path)
        (withoutCreation flags) (reopening s env v path mode (withoutCreation flags)) later := by
    intro later
    rw [viaMknodOpen_eq h fun _ _ => hs, reopened_eq hno]
  by_cases hslot : 0 ≤ (withFile s env v path mode).slot (creation s env v path)
  · rw [or_iff_left (not_not.mpr hslot)]
    simp only [viaCreate_eq h, hways, Cluster.courseOf, if_pos hs, if_pos hs',
      slot_reopening hs hopen, if_neg hslot.not_gt]
    exact ⟨fun heq => writeOnly_of_course_eq h hs hopen heq,
      fun hw => (alike_held h hs hopen hw _).course_eq⟩
  · refine iff_of_true (fun later => ?_) (Or.inr hslot)
    rw [viaCreate_eq h, hways, Cluster.courseOf, Cluster.courseOf, if_pos hs, if_pos hs',
      slot_reopening hs hopen, if_pos (not_le.mp hslot), if_pos (not_le.mp hslot)]

/-- User `1000` of the small daemon may create a file on empty disks. -/
theorem creatable_empty : Creatable (rootCluster emptyDisk) plainCaller fileF 0o100644 where
  own := ⟨rfl, rfl, rfl, rfl⟩
  back := ⟨rfl, rfl⟩
  calloc _ := rfl
  malloc _ _ := rfl
  named _ := Option.some_ne_none _
  tables :=
    { high_length := rfl
      low_length := rfl
      nodup := by decide
      mem_high := by decide
      mem_low := by decide }
  absent _ := rfl
  regular := rfl

end cases

end ChironFs
