import ChironFs.Model.Disk
import ChironFs.Spec.Disk
import ChironFs.Spec.Handles
import ChironFs.Spec.Identity
import ChironFs.Spec.Records
import ChironFs.Spec.Stores
import ChironFs.Spec.Tries

/-!
# A new file on disks

* `creation`: how the replicas answer when a file is created; `withFile`: the cluster that has it.
* `after_mknod`: `mknod` of a regular file leaves that cluster.
* `Opening`: a request that opens the file on the replicas that have it; `Opening.after_eq`: what it
  leaves, with or without a slot.
* `opening_create`, `opening_open`: `create`, and `open` after `mknod`.
-/

namespace ChironFs

open Posix Replication

variable {n : ℕ}

/-- The disks have no part in taking on the caller's ids. -/
theorem dropPriv_disks (groups : List ℕ) (env : Env n) (v : Fin n → Volume) (store : Fin n → Disk)
    (cr : Creds) : dropPriv ((disks groups env v).on store) cr = dropPriv env cr := rfl

/-! ## Creating the file -/

/-- The name of a file on a replica. -/
def Config.fileOn (c : Config n) (path : Path) (i : Fin n) : Path :=
  (c.replicas i).path.getD [] ++ path

/-- A new regular file for a daemon with its own credentials, when there is memory. -/
structure Creatable (s : Cluster n Disk) (env : Env n) (path : Path) (mode : ℕ) : Prop where
  own : s.daemon.config.OwnCreds s.daemon.creds
  back : env.AllowsReturn
  calloc : ∀ k, env.calloc k = true
  malloc : ∀ i k, env.malloc i k = true
  named : s.daemon.config.AllNamed
  tables : s.daemon.config.WellFormed
  absent : ∀ i, (s.store i).files (s.daemon.config.fileOn path i) = none
  regular : sIsReg mode = true

section creation

variable (groups : List ℕ) (s : Cluster n Disk) (env : Env n) (v : Fin n → Volume) (path : Path)
  (mode : ℕ)

/-- How the replicas answer: they all let the file be created but those that refuse. -/
def creation : Round (Fin n) Reply Errno := fun i =>
  if s.daemon.config.enabled i then
    match (v i).refuse (dropPriv env s.daemon.creds).creds (s.daemon.config.fileOn path i) with
    | some e => .failed e
    | none => .ok { ret := (v i).fresh (s.store i).fds }
  else .skipped

/-- The disks with the new file. -/
def made (i : Fin n) : Disk :=
  if (creation s env v path i).isOk then
    (s.store i).setFile (s.daemon.config.fileOn path i)
      (newFile (dropPriv env s.daemon.creds).creds mode)
  else s.store i

variable {groups s env v path mode}

/-- With memory for it, every replica has a name for the file. -/
theorem xlate_eq (hmalloc : ∀ i k, env.malloc i k = true) {c : Config n} (hall : c.AllNamed)
    (i : Fin n) : env.xlate c path i = some (c.fileOn path i) := by
  obtain ⟨root, hroot⟩ := Option.ne_none_iff_exists'.mp (hall i)
  simp [Env.xlate, xlate, hroot, hmalloc, Config.fileOn]

/-- The fates of a request that has one call for each enabled replica. -/
theorem round_of_ask {q : Request} {e : Env n} {d : Daemon n} {call : Fin n → Call}
    (hask : ∀ i, q.call e d.config i = some (call i)) (i : Fin n) :
    q.round e d i = if d.config.enabled i then
      attempt e (dropPriv e d.creds).creds i (some (call i)) else .skipped := by
  unfold Request.round Request.ask
  rw [if_neg fun h => by rw [hask] at h; cases h.2.2]
  split_ifs with hen
  · rw [Config.guarded_of_enabled hen, hask]
  · rw [Config.guarded_of_disabled (Config.not_enabled_iff.mp hen), attempt_none]

/-- The call of a request on an enabled replica creates the file there and opens it with the flags
word `word`. -/
structure Creates (groups : List ℕ) (s : Cluster n Disk) (env : Env n) (v : Fin n → Volume)
    (path : Path) (mode word : ℕ) (q : Request) (call : Fin n → Call) : Prop where
  call_eq : ∀ i, q.call ((disks groups env v).on s.store) s.daemon.config i = some (call i)
  run_eq : ∀ i, (v i).run groups (dropPriv env s.daemon.creds).creds (call i) (s.store i) =
    (v i).create (dropPriv env s.daemon.creds).creds (s.store i) (s.daemon.config.fileOn path i)
      mode word

/-- `create` opens with the word of `creat`, whatever its caller asked for. -/
theorem creates_create (h : Creatable s env path mode) :
    Creates groups s env v path mode O_CREAT_WRONLY_TRUNC (.create path mode)
      fun i => .creat (s.daemon.config.fileOn path i) mode where
  call_eq i := by
    show Option.map (Call.creat · mode) (env.xlate s.daemon.config path i) = _
    rw [xlate_eq h.malloc h.named]
    rfl
  run_eq i := Volume.run_creat (h.absent i)

/-- The `open` of `mknod` does what `creat` does. -/
theorem creates_mknod (h : Creatable s env path mode) :
    Creates groups s env v path mode O_CREAT_EXCL_WRONLY (.mknod path mode 0)
      fun i => .open (s.daemon.config.fileOn path i) O_CREAT_EXCL_WRONLY (some mode) where
  call_eq i := by
    show Option.bind (env.xlate s.daemon.config path i) _ = _
    rw [xlate_eq h.malloc h.named, Option.bind_some, if_pos h.regular]
  run_eq i := Volume.run_open_new (h.absent i)

variable {q : Request} {call : Fin n → Call} {word : ℕ}

/-- What an enabled replica answers. -/
theorem Creates.answer_eq (h : Creates groups s env v path mode word q call) (i : Fin n) :
    ((disks groups env v).on s.store).call (dropPriv env s.daemon.creds).creds i (call i) =
      match (v i).refuse (dropPriv env s.daemon.creds).creds (s.daemon.config.fileOn path i) with
      | some e => .error e
      | none => .ok { ret := (v i).fresh (s.store i).fds } := by
  show ((v i).run groups _ (call i) (s.store i)).map Prod.fst = _
  rw [h.run_eq, Volume.create]
  cases (v i).refuse (dropPriv env s.daemon.creds).creds (s.daemon.config.fileOn path i) <;> rfl

/-- Such a request has the fates of the creation. -/
theorem Creates.round_eq (h : Creates groups s env v path mode word q call) :
    q.round ((disks groups env v).on s.store) s.daemon = creation s env v path := by
  funext i
  rw [round_of_ask h.call_eq, creation, dropPriv_disks, attempt_some, h.answer_eq]
  cases (v i).refuse (dropPriv env s.daemon.creds).creds (s.daemon.config.fileOn path i) <;> rfl

/-- What the call leaves. -/
theorem Creates.effect_eq (h : Creates groups s env v path mode word q call) {i : Fin n}
    (hen : s.daemon.config.enabled i) (res : Except Errno Reply)
    (hres : ((disks groups env v).on s.store).call (dropPriv env s.daemon.creds).creds i (call i) =
      res) :
    ((v i).backend groups).call (dropPriv env s.daemon.creds).creds (call i) res (s.store i) =
      if (creation s env v path i).isOk then
        ((v i).opened (made s env v path mode i) (s.daemon.config.fileOn path i) word).2
      else made s env v path mode i := by
  rw [h.answer_eq] at hres
  subst hres
  unfold Volume.backend made creation
  rw [if_pos hen]
  simp only [h.run_eq]
  cases hrefuse : (v i).refuse (dropPriv env s.daemon.creds).creds
      (s.daemon.config.fileOn path i) with
  | some e => rfl
  | none =>
      simp only [Volume.create_of_none hrefuse]
      rfl

/-- A disabled replica has no part in it. -/
theorem creation_of_disabled {i : Fin n} (hdis : ¬ s.daemon.config.enabled i) :
    creation s env v path i = .skipped := if_neg hdis

/-- A replica that did not create the file stays as it is. -/
theorem made_of_not_ok {i : Fin n} (hno : (creation s env v path i).isOk = false) :
    made s env v path mode i = s.store i := by
  rw [made, hno]
  rfl

/-- The new file changes no descriptor. -/
theorem made_fds (i : Fin n) : (made s env v path mode i).fds = (s.store i).fds := by
  unfold made
  split_ifs <;> rfl

/-- The new file. -/
theorem made_files {i : Fin n} (hok : (creation s env v path i).isOk = true) :
    (made s env v path mode i).files (s.daemon.config.fileOn path i) =
      some (newFile (dropPriv env s.daemon.creds).creds mode) := by
  rw [made, if_pos hok]
  exact Function.update_self _ _ _

/-- The cluster with the new file. -/
def withFile (s : Cluster n Disk) (env : Env n) (v : Fin n → Volume) (path : Path) (mode : ℕ) :
    Cluster n Disk where
  daemon :=
    { config := s.daemon.config.dropFaulty (creation s env v path)
      creds := s.daemon.creds }
  store := made s env v path mode

/-- A daemon is its configuration and its ids. -/
theorem Daemon.eq_mk {d : Daemon n} {c : Config n} {cr : Creds} (hc : d.config = c)
    (hcr : d.creds = cr) : d = { config := c, creds := cr } := by
  subst hc hcr
  rfl

/-- What the events of `mknod` leave of a disk. -/
theorem storeAfter_mknod (h : Creatable s env path mode) (i : Fin n) :
    storeAfter ((v i).backend groups).toEffect i
        ((Request.mknod path mode 0).events ((disks groups env v).on s.store) s.daemon i)
        (s.store i) = made s env v path mode i := by
  have hc : Creates groups s env v path mode _ _ _ := creates_mknod h
  let e := (disks groups env v).on s.store
  by_cases hen : s.daemon.config.enabled i
  · have hask : (Request.mknod path mode 0).ask e s.daemon.config i =
        some (.open (s.daemon.config.fileOn path i) O_CREAT_EXCL_WRONLY (some mode)) := by
      rw [Request.ask, Config.guarded_of_enabled hen, hc.call_eq]
    have hans := hc.answer_eq i
    simp only [Request.events]
    rw [hask]
    unfold mknodEvents
    cases hrefuse : (v i).refuse (dropPriv env s.daemon.creds).creds
        (s.daemon.config.fileOn path i) with
    | some er =>
        have hno : (creation s env v path i).isOk = false := by
          rw [creation, if_pos hen, hrefuse]
          rfl
        rw [hrefuse] at hans
        have heff := hc.effect_eq hen _ hans
        rw [if_neg (by rw [hno]; exact Bool.false_ne_true)] at heff
        refine Eq.trans ?_ heff
        simp only [dropPriv_disks, hans]
        simp [storeAfter, Event.replica, Event.onStore]
    | none =>
        have hok : (creation s env v path i).isOk = true := by
          rw [creation, if_pos hen, hrefuse]
          rfl
        rw [hrefuse] at hans
        have heff := hc.effect_eq hen _ hans
        rw [if_pos hok] at heff
        have hclose : ((v i).backend groups).close ((v i).fresh (s.store i).fds)
            ((v i).opened (made s env v path mode i) (s.daemon.config.fileOn path i)
              O_CREAT_EXCL_WRONLY).2 = made s env v path mode i := by
          rw [← made_fds]
          exact Volume.close_opened
        rw [← heff] at hclose
        refine Eq.trans ?_ hclose
        simp only [dropPriv_disks, hans]
        simp [storeAfter, Event.replica, Event.onStore]
  · have hask : (Request.mknod path mode 0).ask e s.daemon.config i = none := by
      rw [Request.ask, Config.guarded_of_disabled (Config.not_enabled_iff.mp hen)]
    rw [made_of_not_ok (by rw [creation_of_disabled hen]; rfl)]
    simp only [Request.events]
    rw [hask]
    rfl

/-- **After `mknod`**: the file is there, and the replicas that refused it are gone if one did
not. -/
theorem after_mknod (h : Creatable s env path mode) :
    let o := chironMknod path mode 0 ((disks groups env v).on s.store) s.daemon
    o.response.ret =
        (if (creation s env v path).Succeeded then 0 else firstError (creation s env v path)) ∧
      s.after (disks groups env v) o = withFile s env v path mode := by
  let e := (disks groups env v).on s.store
  let q : Request := .mknod path mode 0
  have he : q.early e s.daemon.config = none := by
    have hreg := h.regular
    simp [q, e, Request.early, mknodRefuses, hreg, Setting.on, disks, h.calloc]
  obtain ⟨o, ho, hsv⟩ := handle_served_every rfl rfl rfl he
  obtain rfl := Option.some.inj ho
  have hround : q.round e s.daemon = creation s env v path := (creates_mknod h).round_eq
  obtain ⟨hconfig, hresp⟩ := handle_every (q := q) rfl rfl rfl he ho
  rw [hround] at hconfig hresp
  refine ⟨?_, ?_⟩
  · show (chironMknod path mode 0 e s.daemon).response.ret = _
    rw [hresp]
    split_ifs <;> rfl
  · have hdaemon : (chironMknod path mode 0 e s.daemon).daemon =
        { config := s.daemon.config.dropFaulty (creation s env v path)
          creds := s.daemon.creds } := by
      have hcreds := hsv.creds.trans (reacquirePriv_dropPriv h.own h.back).2
      have hcfg : (chironMknod path mode 0 e s.daemon).daemon.config = _ :=
        hconfig.trans (congrArg (Config.dropFaulty · _) (Config.countWrites_none _ fun _ => rfl))
      exact Daemon.eq_mk hcfg hcreds
    have hstore : ∀ i, storeAfter ((v i).backend groups).toEffect i
        (chironMknod path mode 0 e s.daemon).trace (s.store i) = made s env v path mode i := by
      intro i
      have hcalls := hsv.storeAfter_eq (E := ((v i).backend groups).toEffect) (i := i)
        (s := s.store i) rfl fun h => by cases h
      rw [if_pos (List.mem_finRange i), storeAfter_mknod h i] at hcalls
      exact hcalls
    exact Cluster.after_eq_of hdaemon hstore

/-! ## Opening it again -/

/-- The mode gives the file's owner these rights. -/
def Permitted (s : Cluster n Disk) (env : Env n) (mode mask : ℕ) : Prop :=
  let cr := (dropPriv env s.daemon.creds).creds
  cr.euid = 0 ∨ Grants (newFile cr mode).1.ownerBits mask

instance (s : Cluster n Disk) (env : Env n) (mode mask : ℕ) :
    Decidable (Permitted s env mode mask) := by
  unfold Permitted
  infer_instance

/-- Why a replica that has the file does not open it with this flags word. -/
def openErr (s : Cluster n Disk) (env : Env n) (v : Fin n → Volume) (mode flags : ℕ) (i : Fin n) :
    Option Errno :=
  (v i).rules.refuse flags (Permitted s env mode ((v i).rules.wants flags))

/-- How the replicas answer the `open`. -/
def reopening (s : Cluster n Disk) (env : Env n) (v : Fin n → Volume) (path : Path)
    (mode flags : ℕ) : Round (Fin n) Reply Errno := fun i =>
  if (creation s env v path i).isOk then
    match openErr s env v mode flags i with
    | some e => .failed e
    | none => .ok { ret := (v i).fresh (s.store i).fds }
  else .skipped

/-- The cluster after the `open`, but for the open file. -/
def reopened (s : Cluster n Disk) (env : Env n) (v : Fin n → Volume) (path : Path)
    (mode flags : ℕ) : Cluster n Disk where
  daemon :=
    { config := (withFile s env v path mode).daemon.config.dropFaulty
        (reopening s env v path mode flags)
      creds := s.daemon.creds }
  store := made s env v path mode

/-- Unless all of them failed, the enabled replicas are those that created the file. -/
theorem enabled_withFile_iff
    (hs : ∀ i, (creation s env v path i).isFailed = true → (creation s env v path).Succeeded)
    (i : Fin n) :
    (withFile s env v path mode).daemon.config.enabled i ↔
      (creation s env v path i).isOk = true := by
  unfold Config.enabled
  rw [← Bool.not_eq_true, withFile, Config.dropFaulty_disabled, not_or]
  constructor
  · rintro ⟨hen, hdrop⟩
    cases hc : creation s env v path i with
    | ok r => rfl
    | failed e => exact absurd (Round.drops_of_eq_failed (hs i (by rw [hc]; rfl)) hc) hdrop
    | skipped =>
        unfold creation at hc
        rw [if_pos (by simpa [Config.enabled] using hen)] at hc
        split at hc <;> cases hc
  · intro hok
    refine ⟨fun hdis => ?_, Round.not_drops_of_ok hok⟩
    rw [creation_of_disabled (by simpa [Config.enabled] using hdis)] at hok
    cases hok

/-- The file keeps its name. -/
theorem fileOn_withFile (i : Fin n) :
    (withFile s env v path mode).daemon.config.fileOn path i = s.daemon.config.fileOn path i := by
  unfold Config.fileOn withFile
  rw [Config.dropFaulty_path]

/-- `open` of the new file. -/
theorem run_reopen {flags : ℕ} {i : Fin n} (hok : (creation s env v path i).isOk = true) :
    (v i).run groups (dropPriv env s.daemon.creds).creds
        (.open (s.daemon.config.fileOn path i) flags none) (made s env v path mode i) =
      match openErr s env v mode flags i with
      | some e => .error e
      | none => .ok ((v i).opened (made s env v path mode i) (s.daemon.config.fileOn path i)
          flags) := by
  have hbits : (newFile (dropPriv env s.daemon.creds).creds mode).1.bitsFor
      ⟨(dropPriv env s.daemon.creds).creds.euid, (dropPriv env s.daemon.creds).creds.egid, groups⟩ =
      (newFile (dropPriv env s.daemon.creds).creds mode).1.ownerBits := if_pos rfl
  have hpasses : (Check.access (newFile (dropPriv env s.daemon.creds).creds mode).1
      ((v i).rules.wants flags)).passes ⟨(dropPriv env s.daemon.creds).creds.euid,
        (dropPriv env s.daemon.creds).creds.egid, groups⟩ =
      decide (Permitted s env mode ((v i).rules.wants flags)) := by
    rw [Check.passes, hbits]
    rfl
  rw [Volume.run_open (made_files hok), hpasses]
  rfl

/-- The `open` has a call for every replica. -/
theorem call_reopen (h : Creatable s env path mode) (flags : ℕ) (i : Fin n) :
    (Request.open path flags).call ((disks groups env v).on (withFile s env v path mode).store)
        (withFile s env v path mode).daemon.config i =
      some (.open (s.daemon.config.fileOn path i) flags none) := by
  have hall : (withFile s env v path mode).daemon.config.AllNamed :=
    (Config.SameLayout.dropFaulty s.daemon.config (creation s env v path)).allNamed h.named
  show Option.map (Call.open · flags none)
    (env.xlate (withFile s env v path mode).daemon.config path i) = _
  rw [xlate_eq h.malloc hall, fileOn_withFile]
  rfl

/-- The `open` has the fates of the reopening. -/
theorem round_reopen (h : Creatable s env path mode)
    (hs : ∀ i, (creation s env v path i).isFailed = true → (creation s env v path).Succeeded)
    (flags : ℕ) :
    (Request.open path flags).round ((disks groups env v).on (withFile s env v path mode).store)
        (withFile s env v path mode).daemon = reopening s env v path mode flags := by
  funext i
  rw [round_of_ask (call_reopen h flags), dropPriv_disks, attempt_some]
  unfold reopening
  apply if_ctx_congr (enabled_withFile_iff hs i) _ fun _ => rfl
  intro hok
  have hcall : ((disks groups env v).on (withFile s env v path mode).store).call
      (dropPriv env s.daemon.creds).creds i (.open (s.daemon.config.fileOn path i) flags none) = _ :=
    congrArg (Except.map Prod.fst) (run_reopen hok)
  have hcreds : (withFile s env v path mode).daemon.creds = s.daemon.creds := rfl
  rw [hcreds, hcall]
  cases openErr s env v mode flags i with
  | some e => rfl
  | none =>
      show Fate.ok ({ ret := (v i).fresh (made s env v path mode i).fds } : Reply) = _
      rw [made_fds]

end creation

/-! ## With or without a slot -/

section closed

variable {S : Type*} {E : Effect S} {q : Request} {env : Env n} {d : Daemon n} {i : Fin n}

/-- What is closed when there is no slot, replica by replica. -/
theorem closeOpened_eq_flatMap (c : Config n) (cr : Creds) (fd : Fin n → ℤ) (l : List (Fin n)) :
    closeOpened env c cr fd l = l.flatMap fun i =>
      if (c.replicas i).disabled = false ∧ fd i ≥ 0 then
        [.close cr i (fd i) (env.close i (fd i))]
      else [] := by
  induction l with
  | nil => rfl
  | cons i l ih =>
      rw [closeOpened, List.flatMap_cons, ih]
      split_ifs <;> rfl

/-- Without a slot, what the replica opened is closed again. -/
theorem storeAfter_closed (hop : q.opens = true) (s : S) :
    storeAfter E i (q.closed env d) s =
      (fateFd i (q.round env d i)).elim s fun p => E.close p.2 s := by
  unfold Request.closed
  rw [closeOpened_eq_flatMap, storeAfter_flatMap _ (List.nodup_finRange n),
    if_pos (List.mem_finRange i)]
  · rw [Request.store, Config.fdHashset_replicas]
    cases hR : q.round env d i with
    | ok r =>
        rw [if_pos ((enabled_and_fdVector_iff hop i).mpr (by rw [hR]; rfl))]
        simp [storeAfter, Event.replica, Event.onStore, fateFd, fdVector, fdEntry, hR]
    | skipped | failed =>
        rw [if_neg ((enabled_and_fdVector_iff hop i).not.mpr (by simp [hR]))]
        rfl
  · intro j ev hev
    split_ifs at hev
    · rw [List.mem_singleton.mp hev]
      rfl
    · cases hev

end closed

/-- The cluster with the file open: the vector of the round `R` in slot `k`, the descriptors on the
disks. -/
def Cluster.held (t : Cluster n Disk) (v : Fin n → Volume) (fname : Fin n → Path)
    (flags : ℕ) (R : Round (Fin n) Reply Errno) (k : ℕ) : Cluster n Disk where
  daemon := { config := t.daemon.config.setSlot k (some (fdVector R)), creds := t.daemon.creds }
  store := fun i => if (R i).isOk then ((v i).opened (t.store i) (fname i) flags).2 else t.store i

/-- The number of the slot for the vector of a round, or a negative value. -/
def Cluster.slot (t : Cluster n Disk) (R : Round (Fin n) Reply Errno) : ℤ :=
  (t.daemon.config.fdHashset (fdVector R)).1

/-- A request that opens the file on the disks of `t`, which may be its own doing: they answer as
`R` says. -/
structure Opening (groups : List ℕ) (s : Cluster n Disk) (env : Env n) (v : Fin n → Volume)
    (q : Request) (t : Cluster n Disk) (fname : Fin n → Path) (flags : ℕ)
    (R : Round (Fin n) Reply Errno) : Prop where
  opens : q.opens = true
  early : q.early ((disks groups env v).on s.store) s.daemon.config = none
  own : s.daemon.config.OwnCreds s.daemon.creds
  back : env.AllowsReturn
  round_eq : q.round ((disks groups env v).on s.store) s.daemon = R
  daemon_eq : t.daemon = { config := s.daemon.config.dropFaulty R, creds := s.daemon.creds }
  reply : ∀ i r, R i = .ok r → r = { ret := (v i).fresh (t.store i).fds }
  effect : ∀ i, storeAfter ((v i).backend groups).toEffect i
    (q.events ((disks groups env v).on s.store) s.daemon i) (s.store i) =
      if (R i).isOk then ((v i).opened (t.store i) (fname i) flags).2 else t.store i

namespace Opening

variable {groups : List ℕ} {s t : Cluster n Disk} {env : Env n} {v : Fin n → Volume} {q : Request}
  {fname : Fin n → Path} {flags : ℕ} {R : Round (Fin n) Reply Errno} {o : Outcome n}

/-- Its slot. -/
theorem store_fst (h : Opening groups s env v q t fname flags R) :
    (q.store ((disks groups env v).on s.store) s.daemon).1 = t.slot R := by
  rw [Request.store, h.round_eq, Cluster.slot, h.daemon_eq]

/-- What it returns. -/
theorem ret_eq (h : Opening groups s env v q t fname flags R)
    (ho : handle q ((disks groups env v).on s.store) s.daemon = some o) :
    o.response.ret =
        (if R.Succeeded then if t.slot R < 0 then EMFILE.neg else 0 else firstError R) ∧
      o.fh = if R.Succeeded ∧ 0 ≤ t.slot R then some (t.slot R).toNat else none := by
  obtain rfl := Option.some.inj ((handle_opens h.opens h.early).symm.trans ho)
  rw [← h.store_fst, ← h.round_eq]
  unfold Request.openOutcome
  by_cases hs : (q.round ((disks groups env v).on s.store) s.daemon).Succeeded
  · by_cases hfull : (q.store ((disks groups env v).on s.store) s.daemon).1 < 0
    · simp only [if_pos hs, if_pos hfull, leave]
      rw [if_neg fun h => hfull.not_ge h.2]
      exact ⟨trivial, rfl⟩
    · simp only [if_pos hs, if_neg hfull, leave]
      rw [if_pos ⟨hs, not_lt.mp hfull⟩]
      exact ⟨trivial, rfl⟩
  · simp only [if_neg hs, leave]
    rw [if_neg fun h => hs h.1]
    exact ⟨trivial, rfl⟩

/-- What it leaves. -/
theorem after_eq (h : Opening groups s env v q t fname flags R)
    (ho : handle q ((disks groups env v).on s.store) s.daemon = some o) :
    s.after (disks groups env v) o =
      if R.Succeeded ∧ 0 ≤ t.slot R then t.held v fname flags R (t.slot R).toNat else t := by
  obtain rfl := Option.some.inj ((handle_opens h.opens h.early).symm.trans ho)
  have hcreds : (q.openOutcome ((disks groups env v).on s.store) s.daemon).daemon.creds =
      t.daemon.creds := by
    rw [(served_opens h.opens).creds, h.daemon_eq]
    exact (reacquirePriv_dropPriv h.own h.back).2
  have hstore : ∀ i, storeAfter ((v i).backend groups).toEffect i
      (q.openOutcome ((disks groups env v).on s.store) s.daemon).trace (s.store i) =
        if (R i).isOk ∧ ¬ (R.Succeeded ∧ t.slot R < 0) then
          ((v i).opened (t.store i) (fname i) flags).2 else t.store i := by
    intro i
    rw [storeAfter_openOutcome h.opens, h.effect, h.round_eq, h.store_fst]
    by_cases hfull : R.Succeeded ∧ t.slot R < 0
    · rw [if_pos hfull, storeAfter_closed h.opens, h.round_eq]
      cases hR : R i with
      | ok r =>
          obtain rfl := h.reply i r hR
          refine Volume.close_opened.trans (Eq.symm ?_)
          exact if_neg fun hc => hc.2 hfull
      | skipped | failed => rfl
    · rw [if_neg hfull]
      exact if_congr (and_iff_left hfull).symm rfl rfl
  have hconfig : (q.openOutcome ((disks groups env v).on s.store) s.daemon).daemon.config =
      if R.Succeeded ∧ 0 ≤ t.slot R then
        t.daemon.config.setSlot (t.slot R).toNat (some (fdVector R)) else t.daemon.config := by
    have hstored : q.store ((disks groups env v).on s.store) s.daemon =
        t.daemon.config.fdHashset (fdVector R) := by
      rw [Request.store, h.round_eq, h.daemon_eq]
    unfold Request.openOutcome
    simp only [hstored, h.round_eq]
    by_cases hs : R.Succeeded
    · rcases t.daemon.config.fdHashset_cases (fdVector R) with ⟨hfull, hc⟩ | ⟨hge, hc⟩
      · rw [if_pos hs, if_pos hfull, if_neg fun hk => hfull.not_ge hk.2]
        exact hc
      · rw [if_pos hs, if_neg hge.not_gt, if_pos ⟨hs, hge⟩]
        exact hc
    · rw [if_neg hs, if_neg fun hk => hs hk.1, h.daemon_eq]
      exact (s.daemon.config.dropFaulty_of_not_succeeded hs).symm
  have hdaemon := Daemon.eq_mk hconfig hcreds
  by_cases hs : R.Succeeded ∧ 0 ≤ t.slot R
  · rw [if_pos hs] at hdaemon ⊢
    refine Cluster.after_eq_of hdaemon fun i => (hstore i).trans ?_
    exact if_congr (and_iff_left fun hfull => hs.2.not_gt hfull.2) rfl rfl
  · rw [if_neg hs] at hdaemon ⊢
    refine Cluster.after_eq_of hdaemon fun i => (hstore i).trans (if_neg ?_)
    rintro ⟨hok, hfull⟩
    exact hfull ⟨⟨i, hok⟩, not_le.mp fun hge => hs ⟨⟨i, hok⟩, hge⟩⟩

end Opening

/-! ## `create`, and `open` after `mknod` -/

section instances

variable {groups : List ℕ} {s : Cluster n Disk} {env : Env n} {v : Fin n → Volume} {path : Path}
  {mode : ℕ}

/-- A replica that creates the file answers with a new descriptor. -/
theorem creation_reply {i : Fin n} {r : Reply} (h : creation s env v path i = .ok r) :
    r = { ret := (v i).fresh (made s env v path mode i).fds } := by
  rw [made_fds]
  unfold creation at h
  split_ifs at h
  split at h
  · cases h
  · cases h
    rfl

/-- `create` opens the file it creates. -/
theorem opening_create (h : Creatable s env path mode) :
    Opening groups s env v (.create path mode) (withFile s env v path mode)
      (s.daemon.config.fileOn path) O_CREAT_WRONLY_TRUNC (creation s env v path) where
  opens := rfl
  early := by simp [Request.early, Setting.on, disks, h.calloc]
  own := h.own
  back := h.back
  round_eq := (creates_create h).round_eq
  daemon_eq := rfl
  reply i r hr := creation_reply hr
  effect i := by
    have hc : Creates groups s env v path mode _ _ _ := creates_create h
    rw [Request.events_of_opens rfl, storeAfter_attemptEvents, Request.ask]
    by_cases hen : s.daemon.config.enabled i
    · rw [Config.guarded_of_enabled hen, hc.call_eq]
      exact hc.effect_eq hen _ rfl
    · have hno : (creation s env v path i).isOk = false := by
        rw [creation_of_disabled hen]
        rfl
      rw [Config.guarded_of_disabled (Config.not_enabled_iff.mp hen), hno]
      exact (made_of_not_ok hno).symm

/-- A replica that opens the file answers with a new descriptor. -/
theorem reopening_reply {flags : ℕ} {i : Fin n} {r : Reply}
    (h : reopening s env v path mode flags i = .ok r) :
    r = { ret := (v i).fresh (made s env v path mode i).fds } := by
  rw [made_fds]
  unfold reopening at h
  split_ifs at h
  split at h
  · cases h
  · cases h
    rfl

/-- `open` opens the file that `mknod` created. -/
theorem opening_open (h : Creatable s env path mode)
    (hs : ∀ i, (creation s env v path i).isFailed = true → (creation s env v path).Succeeded)
    (flags : ℕ) :
    Opening groups (withFile s env v path mode) env v (.open path flags)
      (reopened s env v path mode flags) (s.daemon.config.fileOn path) flags
      (reopening s env v path mode flags) where
  opens := rfl
  early := by simp [Request.early, Setting.on, disks, h.calloc]
  own := { h.own with }
  back := h.back
  round_eq := round_reopen h hs flags
  daemon_eq := rfl
  reply i r hr := reopening_reply hr
  effect i := by
    have hdrop : (dropPriv ((disks groups env v).on (withFile s env v path mode).store)
        (withFile s env v path mode).daemon.creds).creds =
          (dropPriv env s.daemon.creds).creds := rfl
    rw [Request.events_of_opens rfl, storeAfter_attemptEvents, Request.ask]
    by_cases hok : (creation s env v path i).isOk = true
    · rw [Config.guarded_of_enabled ((enabled_withFile_iff hs i).mpr hok)]
      rw [call_reopen h, Option.elim_some, hdrop]
      show ((v i).backend groups).call _ _ (((v i).backend groups).answer _ _ _) _ = _
      rw [Volume.backend_call_answer]
      show ((v i).run groups _ _ (made s env v path mode i)).toOption.elim _ _ = _
      rw [run_reopen hok, reopening, if_pos hok]
      cases openErr s env v mode flags i <;> rfl
    · have hdis : ¬ (withFile s env v path mode).daemon.config.enabled i := fun hen =>
        hok ((enabled_withFile_iff hs i).mp hen)
      rw [Config.guarded_of_disabled (Config.not_enabled_iff.mp hdis), reopening, if_neg hok]
      rfl

end instances

end ChironFs
