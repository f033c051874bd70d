import ChironFs.Model.Session
import ChironFs.Spec.Shapes

/-!
# One account of all requests

* `Request.call`, `Request.ask`: the call a request makes on a replica when its turn comes.
* `Request.early`, `handle_early`: the exits before any replica is reached.
* `Request.round`: the fate of every replica if all of them are asked; `Request.roundOn`: if only
  those of a list are.
* `Request.Reaches`: the request has something to do on a replica.
* `Served q env d tried o`: what request `q` leaves behind past the early exits, `tried` being the
  replicas it went over. `handle_served`: every request but `release` leaves that behind.
* `chironRelease_eq`: `release`.
-/

namespace ChironFs

open Posix Replication

variable {n : ℕ}

/-! ## Configurations with the same layout -/

/-- The parts of the configuration that no request changes. -/
structure Config.SameLayout (c c' : Config n) : Prop where
  maxReplicaHigh : c'.maxReplicaHigh = c.maxReplicaHigh
  maxReplicaLow : c'.maxReplicaLow = c.maxReplicaLow
  roundRobinHigh : c'.roundRobinHigh = c.roundRobinHigh
  roundRobinLow : c'.roundRobinLow = c.roundRobinLow
  path : ∀ i, (c'.replicas i).path = (c.replicas i).path
  priority : ∀ i, (c'.replicas i).priority = (c.replicas i).priority
  uid : c'.uid = c.uid
  gid : c'.gid = c.gid
  fdBufSize : c'.fdBufSize = c.fdBufSize

namespace Config.SameLayout

/-- Nothing is changed. -/
theorem refl (c : Config n) : c.SameLayout c where
  maxReplicaHigh := rfl
  maxReplicaLow := rfl
  roundRobinHigh := rfl
  roundRobinLow := rfl
  path := fun _ => rfl
  priority := fun _ => rfl
  uid := rfl
  gid := rfl
  fdBufSize := rfl

/-- Two changes that keep the layout. -/
theorem trans {c₁ c₂ c₃ : Config n} (h₁ : c₁.SameLayout c₂) (h₂ : c₂.SameLayout c₃) :
    c₁.SameLayout c₃ where
  maxReplicaHigh := h₂.maxReplicaHigh.trans h₁.maxReplicaHigh
  maxReplicaLow := h₂.maxReplicaLow.trans h₁.maxReplicaLow
  roundRobinHigh := h₂.roundRobinHigh.trans h₁.roundRobinHigh
  roundRobinLow := h₂.roundRobinLow.trans h₁.roundRobinLow
  path := fun i => (h₂.path i).trans (h₁.path i)
  priority := fun i => (h₂.priority i).trans (h₁.priority i)
  uid := h₂.uid.trans h₁.uid
  gid := h₂.gid.trans h₁.gid
  fdBufSize := h₂.fdBufSize.trans h₁.fdBufSize

/-- Changing the replicas' counters and flags keeps the layout. -/
theorem of_replicas (c : Config n) (f : Fin n → Replica)
    (hpath : ∀ i, (f i).path = (c.replicas i).path)
    (hpri : ∀ i, (f i).priority = (c.replicas i).priority) :
    c.SameLayout { c with replicas := f } :=
  { refl c with path := hpath, priority := hpri }

/-- Disabling keeps the layout. -/
theorem dropFaulty (c : Config n) (R : Round (Fin n) Reply Errno) :
    c.SameLayout (c.dropFaulty R) :=
  of_replicas c _ (fun i => c.dropFaulty_path R i) fun i => by by_cases h : R.Drops i <;> simp [h]

/-- Counting keeps it. -/
theorem countWrites (c : Config n) (p : Fin n → Bool) : c.SameLayout (c.countWrites p) :=
  of_replicas c _ (fun i => c.countWrites_path p i) fun i => by by_cases h : p i <;> simp [h]

/-- So does counting the answer of a search. -/
theorem countAnswer (c : Config n) (ans : Option (Fin n × Reply)) :
    c.SameLayout (c.countAnswer ans) := by
  cases ans with
  | none => exact refl c
  | some ar =>
      refine of_replicas c _ (fun i => c.countAnswer_path (some ar) i) fun i => ?_
      by_cases h : i = ar.1
      · subst h; simp
      · simp [h]

/-- So does a slot of the handle table. -/
theorem setSlot (c : Config n) (k : ℕ) (v : Option (Fin n → ℤ)) : c.SameLayout (c.setSlot k v) :=
  { refl c with }

/-- So do the cursors. -/
theorem of_cursors {c c' : Config n} (h : c.SameButCursors c') : c.SameLayout c' := by
  obtain ⟨_, _, rfl⟩ := h
  exact { refl c with }

end Config.SameLayout

/-- Storing a descriptor vector changes at most one slot. -/
theorem Config.fdHashset_cases (c : Config n) (fd : Fin n → ℤ) :
    ((c.fdHashset fd).1 < 0 ∧ (c.fdHashset fd).2.1 = c) ∨
      (0 ≤ (c.fdHashset fd).1 ∧
        (c.fdHashset fd).2.1 = c.setSlot (c.fdHashset fd).1.toNat (some fd)) := by
  unfold fdHashset
  cases c.mainFd fd (List.finRange n) with
  | none => exact Or.inl ⟨Int.negSucc_lt_zero 0, rfl⟩
  | some d =>
      simp only
      split_ifs with h
      · exact Or.inr ⟨h, rfl⟩
      · exact Or.inl ⟨by simpa using h, rfl⟩

/-- Storing a vector leaves the replicas. -/
theorem Config.fdHashset_replicas (c : Config n) (fd : Fin n → ℤ) :
    (c.fdHashset fd).2.1.replicas = c.replicas := by
  rcases c.fdHashset_cases fd with ⟨-, h⟩ | ⟨-, h⟩
  · rw [h]
  · rw [h, setSlot_replicas]

/-- It keeps the layout. -/
theorem Config.fdHashset_sameLayout (c : Config n) (fd : Fin n → ℤ) :
    c.SameLayout (c.fdHashset fd).2.1 := by
  rcases c.fdHashset_cases fd with ⟨-, h⟩ | ⟨-, h⟩
  · rw [h]
    exact .refl c
  · rw [h]
    exact .setSlot c _ _

/-- The log calls of storing a vector are about no replica. -/
theorem Config.fdHashset_logs (c : Config n) (fd : Fin n → ℤ) {ev : Event n}
    (h : ev ∈ (c.fdHashset fd).2.2) :
    ev = .log none "hash allocation" (.text "too many opened files") 0 := by
  unfold fdHashset at h
  cases hm : c.mainFd fd (List.finRange n) with
  | none => simp [hm] at h
  | some d =>
      simp only [hm] at h
      have hmem : ev ∈ (c.fdHashseekfree (hashFd c.fdBufSize (UInt32.ofNat d.toNat)).toNat).2 := by
        split_ifs at h <;> exact h
      unfold fdHashseekfree at hmem
      simp only at hmem
      split_ifs at hmem
      · cases hmem
      · cases hmem
      · exact List.mem_singleton.mp hmem

/-- `reacquire_priv` reads the ids of the daemon, which are part of the layout. -/
theorem reacquirePriv_congr (env : Env n) {c c' : Config n} (h : c.SameLayout c') (cr : Creds) :
    reacquirePriv env c' cr = reacquirePriv env c cr := by
  unfold reacquirePriv
  rw [h.uid, h.gid]

/-! ## What a request asks of a replica -/

/-- `xlate` gives every enabled replica its names. -/
def Env.Names (env : Env n) (c : Config n) : Prop :=
  ∀ i, c.enabled i → ∀ path k, env.xlate c path i k ≠ none

/-- The calls that open a file. -/
def Call.opens : Call → Bool
  | .open .. | .creat .. => true
  | _ => false

/-- A name `xlate` builds is the replica's path followed by the file's name. -/
theorem Env.exists_root_of_xlate {env : Env n} {c : Config n} {fname p : Path} {i : Fin n} {k : ℕ}
    (h : env.xlate c fname i k = some p) :
    ∃ root, (c.replicas i).path = some root ∧ p = root ++ fname := by
  unfold Env.xlate ChironFs.xlate at h
  cases hp : (c.replicas i).path with
  | none => simp [hp] at h
  | some root =>
      simp only [hp, Option.ite_none_right_eq_some, Option.some.injEq] at h
      exact ⟨root, rfl, h.2.symm⟩

namespace Request

/-- Every request but `mknod` of a type other than a regular file or a FIFO. -/
def supported : Request → Bool
  | .mknod _ mode _ => sIsReg mode || sIsFifo mode
  | _ => true

section kinds

variable {q : Request}

/-- `open` and `create` ask every replica. -/
theorem searches_of_opens (h : q.opens = true) : q.searches = false := by
  cases q <;> first | rfl | cases h

/-- They are no `release`. -/
theorem releases_of_opens (h : q.opens = true) : q.releases = false := by
  cases q <;> first | rfl | cases h

/-- A search opens nothing. -/
theorem opens_of_searches (h : q.searches = true) : q.opens = false := by
  cases q <;> first | rfl | cases h

/-- It is no `release`. -/
theorem releases_of_searches (h : q.searches = true) : q.releases = false := by
  cases q <;> first | rfl | cases h

/-- It is not one of those that `mknod` refuses. -/
theorem supported_of_searches (h : q.searches = true) : q.supported = true := by
  cases q <;> first | rfl | cases h

end kinds

/-- The call the request makes on replica `i`, which may be disabled. -/
def ask (env : Env n) (c : Config n) (q : Request) (i : Fin n) : Option Call :=
  c.guarded (q.call env c) i

/-- A request that releases is a `release`. -/
theorem eq_release {q : Request} (h : q.releases = true) : ∃ fh, q = .release fh := by
  cases q with
  | release fh => exact ⟨fh, rfl⟩
  | _ => cases h

/-- What opens a file releases none. -/
theorem releasedFh_of_opens {q : Request} (h : q.opens = true) : q.releasedFh = none := by
  cases q with
  | release fh => cases h
  | _ => rfl

/-- A response made from an answer is a success. -/
theorem respond_ret_nonneg (q : Request) (r : Reply) : 0 ≤ (q.respond r).ret := by
  cases q <;> simp [respond]

/-- The error with which a request ends before it reaches a replica. -/
def early (env : Env n) (c : Config n) : Request → Option Errno
  | .open .. | .create .. =>
      if env.calloc 0 = false ∨ env.calloc 1 = false then some ENOMEM else none
  | .release fh => if (c.tabFd fh).isNone then some EINVAL else none
  | .read fh .. | .write fh .. =>
      if (c.tabFd fh).isNone then some EINVAL
      else if env.calloc 0 = false then some ENOMEM else none
  | .mknod path mode _ =>
      if env.calloc 0 = false then some ENOMEM
      else if mknodRefuses env c path mode (List.finRange n) then some ENOSYS else none
  | _ => if env.calloc 0 = false then some ENOMEM else none

/-- The fates of all replicas, if all of them are asked. A name that could not be built counts as
a failure in `open` and `create` only. -/
def round (env : Env n) (d : Daemon n) (q : Request) : Round (Fin n) Reply Errno := fun i =>
  if q.opens = true ∧ d.config.enabled i ∧ q.call env d.config i = none then .failed ENOMEM
  else attempt env (dropPriv env d.creds).creds i (q.ask env d.config i)

/-- The fates when only the replicas of a list are asked. -/
def roundOn (env : Env n) (d : Daemon n) (q : Request) (tried : List (Fin n)) :
    Round (Fin n) Reply Errno := fun i =>
  if i ∈ tried then q.round env d i else .skipped

/-- The events of asking replica `i`. -/
def events (env : Env n) (d : Daemon n) (q : Request) (i : Fin n) : List (Event n) :=
  match q with
  | .mknod .. => mknodEvents env (dropPriv env d.creds).creds i (q.ask env d.config i)
  | _ => attemptEvents env (dropPriv env d.creds).creds i (q.ask env d.config i)

/-- An enabled replica on which the request has a call to make; `open` and `create` also count the
ones they cannot name. -/
def Reaches (env : Env n) (d : Daemon n) (q : Request) (i : Fin n) : Prop :=
  d.config.enabled i ∧ (q.opens = true ∨ q.call env d.config i ≠ none)

section rounds

variable {env : Env n} {d : Daemon n} {q : Request} {i : Fin n}

/-- Who is asked is enabled, and has a call. -/
theorem ask_eq_some_iff {cl : Call} :
    q.ask env d.config i = some cl ↔ d.config.enabled i ∧ q.call env d.config i = some cl :=
  Config.guarded_eq_some_iff

/-- A request that opens nothing makes one attempt at every replica. -/
theorem round_of_not_opens (h : q.opens = false) :
    q.round env d = fun i =>
      attempt env (dropPriv env d.creds).creds i (q.ask env d.config i) := by
  funext i
  simp [round, h]

/-- A disabled replica has no part in a round. -/
theorem covers_round (env : Env n) (d : Daemon n) (q : Request) :
    d.config.Covers (q.round env d) := by
  intro i hd
  have hne : ¬ d.config.enabled i := by simp [Config.enabled, hd]
  unfold round ask
  rw [if_neg (fun h => hne h.2.1), d.config.guarded_of_disabled hd, attempt_none]

/-- A replica answered exactly when its call did. -/
theorem round_eq_ok_iff {r : Reply} :
    q.round env d i = .ok r ↔
      ∃ c, q.ask env d.config i = some c ∧
        env.call (dropPriv env d.creds).creds i c = .ok r := by
  unfold round
  split_ifs with h
  · have hnone : q.ask env d.config i = none := by
      unfold ask
      rw [Config.guarded_of_enabled h.2.1, h.2.2]
    simp [hnone]
  · exact attempt_eq_ok_iff

/-- A replica fails by its own call, or in `open` and `create` for want of a name. -/
theorem round_eq_failed_iff {e : Errno} :
    q.round env d i = .failed e ↔
      (∃ c, q.ask env d.config i = some c ∧
        env.call (dropPriv env d.creds).creds i c = .error e) ∨
      (q.opens = true ∧ d.config.enabled i ∧ q.call env d.config i = none ∧ e = ENOMEM) := by
  unfold round
  split_ifs with h
  · have hnone : q.ask env d.config i = none := by
      unfold ask
      rw [Config.guarded_of_enabled h.2.1, h.2.2]
    simp [hnone, h, eq_comm]
  · rw [attempt_eq_failed_iff, or_iff_left]
    exact fun hc => h ⟨hc.1, hc.2.1, hc.2.2.1⟩

/-- A replica is skipped when it is not asked; `open` and `create` skip the disabled ones only. -/
theorem round_eq_skipped_iff :
    q.round env d i = .skipped ↔
      q.ask env d.config i = none ∧ (q.opens = true → ¬ d.config.enabled i) := by
  unfold round
  split_ifs with h
  · simp [h]
  · rw [attempt_eq_skipped_iff]
    refine ⟨fun hn => ⟨hn, fun ho hen => h ⟨ho, hen, ?_⟩⟩, fun hn => hn.1⟩
    rw [← hn]
    exact (Config.guarded_of_enabled hen _).symm

/-- So the others are those the request reaches. -/
theorem round_ne_skipped_iff : q.round env d i ≠ .skipped ↔ q.Reaches env d i := by
  rw [Ne, round_eq_skipped_iff, Reaches, ask]
  by_cases hen : d.config.enabled i
  · rw [Config.guarded_of_enabled hen]
    cases q.opens <;> simp [hen]
  · rw [Config.guarded_of_disabled (Config.not_enabled_iff.mp hen)]
    simp [hen]

/-- Over all replicas it is the whole round. -/
theorem roundOn_finRange (env : Env n) (d : Daemon n) (q : Request) :
    q.roundOn env d (List.finRange n) = q.round env d := by
  funext i
  exact if_pos (List.mem_finRange i)

/-- A call of a request other than `mknod` opens a file if the request is `open` or `create`. -/
theorem opens_of_call (hmk : ∀ path mode rdev, q ≠ .mknod path mode rdev) {c : Call}
    (h : q.call env d.config i = some c) : c.opens = q.opens := by
  cases q with
  | release => cases h
  | mknod path mode rdev => exact absurd rfl (hmk path mode rdev)
  | read fh size offset =>
      obtain ⟨fd, -, hc⟩ := Option.bind_eq_some_iff.mp h
      unfold readCall at hc
      split_ifs at hc
      cases hc
      rfl
  | write fh buf offset =>
      obtain ⟨fd, -, hc⟩ := Option.bind_eq_some_iff.mp h
      unfold writeCall at hc
      split_ifs at hc
      cases hc
      rfl
  | _ =>
      obtain ⟨_, -, rfl⟩ := Option.map_eq_some_iff.mp h
      rfl

/-- The events of an attempt: none, a failed call, a call that succeeded. -/
theorem attemptEvents_cases (cr : Creds) (a : Option Call) :
    (a = none ∧ attemptEvents env cr i a = []) ∨
      (∃ c e, a = some c ∧ env.call cr i c = .error e ∧
        attemptEvents env cr i a = [.call cr i c (.error e)]) ∨
      ∃ c r, a = some c ∧ env.call cr i c = .ok r ∧
        attemptEvents env cr i a = [.call cr i c (.ok r)] := by
  cases a with
  | none => exact Or.inl ⟨rfl, rfl⟩
  | some c =>
      apply Or.inr
      cases henv : env.call cr i c with
      | error e => exact Or.inl ⟨c, e, rfl, henv, by rw [attemptEvents, henv]⟩
      | ok r => exact Or.inr ⟨c, r, rfl, henv, by rw [attemptEvents, henv]⟩

/-- **Asking one replica**: no call; a call that fails; a call that succeeds, which opens a file if
the request is `open` or `create`; or `mknod` creating a regular file, which is closed at once. -/
theorem events_cases (env : Env n) (d : Daemon n) (q : Request) (i : Fin n) :
    (q.ask env d.config i = none ∧ q.events env d i = []) ∨
      (∃ c e, q.ask env d.config i = some c ∧
        env.call (dropPriv env d.creds).creds i c = .error e ∧
        q.events env d i = [.call (dropPriv env d.creds).creds i c (.error e)]) ∨
      ∃ c r, q.ask env d.config i = some c ∧
        env.call (dropPriv env d.creds).creds i c = .ok r ∧
        ((c.opens = q.opens ∧
            q.events env d i = [.call (dropPriv env d.creds).creds i c (.ok r)]) ∨
          (c.opens = true ∧ q.opens = false ∧ q.searches = false ∧
            q.events env d i = [.call (dropPriv env d.creds).creds i c (.ok r),
              .close (dropPriv env d.creds).creds i r.ret (env.close i r.ret)])) := by
  by_cases hmk : ∃ path mode rdev, q = .mknod path mode rdev
  · obtain ⟨path, mode, rdev, rfl⟩ := hmk
    simp only [events]
    cases hask : (Request.mknod path mode rdev).ask env d.config i with
    | none => exact Or.inl ⟨rfl, rfl⟩
    | some c =>
        apply Or.inr
        obtain ⟨fname, -, hc⟩ := Option.bind_eq_some_iff.mp (ask_eq_some_iff.mp hask).2
        split_ifs at hc
        · cases hc
          simp only [mknodEvents]
          cases henv : env.call (dropPriv env d.creds).creds i
              (.open fname O_CREAT_EXCL_WRONLY (some mode)) with
          | error e => exact Or.inl ⟨_, e, rfl, henv, rfl⟩
          | ok r => exact Or.inr ⟨_, r, rfl, henv, Or.inr ⟨rfl, rfl, rfl, rfl⟩⟩
        · cases hc
          simp only [mknodEvents, attemptEvents]
          cases henv : env.call (dropPriv env d.creds).creds i (.mkfifo fname mode) with
          | error e => exact Or.inl ⟨_, e, rfl, henv, rfl⟩
          | ok r => exact Or.inr ⟨_, r, rfl, henv, Or.inl ⟨rfl, rfl⟩⟩
  · have hmk' : ∀ path mode rdev, q ≠ .mknod path mode rdev := fun path mode rdev h =>
      hmk ⟨path, mode, rdev, h⟩
    have hev : q.events env d i =
        attemptEvents env (dropPriv env d.creds).creds i (q.ask env d.config i) := by
      cases q <;> first | rfl | exact absurd rfl (hmk' _ _ _)
    rw [hev]
    refine (attemptEvents_cases _ _).imp_right (Or.imp_right ?_)
    rintro ⟨c, r, hask, henv, h⟩
    exact ⟨c, r, hask, henv, Or.inl ⟨opens_of_call hmk' (ask_eq_some_iff.mp hask).2, h⟩⟩

/-- `open` and `create` make one call on each replica. -/
theorem events_of_opens (h : q.opens = true) :
    q.events env d i =
      attemptEvents env (dropPriv env d.creds).creds i (q.ask env d.config i) := by
  cases q with
  | «open» | create => rfl
  | _ => cases h

/-- The call events among the events of asking replica `i`. -/
theorem call_mem_events_iff {cr : Creds} {j : Fin n} {c : Call} {res : Except Errno Reply} :
    .call cr j c res ∈ q.events env d i ↔
      j = i ∧ cr = (dropPriv env d.creds).creds ∧ q.ask env d.config i = some c ∧
        res = env.call (dropPriv env d.creds).creds i c := by
  have hone : ∀ {c' : Call} {res' : Except Errno Reply}, q.ask env d.config i = some c' →
      env.call (dropPriv env d.creds).creds i c' = res' →
      ((Event.call cr j c res = .call (dropPriv env d.creds).creds i c' res') ↔
        j = i ∧ cr = (dropPriv env d.creds).creds ∧ q.ask env d.config i = some c ∧
          res = env.call (dropPriv env d.creds).creds i c) := by
    rintro c' res' hask rfl
    rw [hask]
    constructor
    · rintro ⟨⟩
      exact ⟨rfl, rfl, rfl, rfl⟩
    · rintro ⟨rfl, rfl, hc, rfl⟩
      cases hc
      rfl
  rcases events_cases env d q i with ⟨hask, h⟩ | ⟨c', e, hask, henv, h⟩ |
    ⟨c', r, hask, henv, ⟨-, h⟩ | ⟨-, -, -, h⟩⟩
  · simp [h, hask]
  · rw [h, List.mem_singleton, hone hask henv]
  · rw [h, List.mem_singleton, hone hask henv]
  · rw [h, List.mem_pair, hone hask henv, or_iff_left (by rintro ⟨⟩)]

/-- The close events among them: `mknod` closes what it just created. -/
theorem close_mem_events {cr : Creds} {j : Fin n} {fd : ℤ} {res : Except Errno Unit}
    (h : .close cr j fd res ∈ q.events env d i) :
    j = i ∧ cr = (dropPriv env d.creds).creds ∧ ∃ r, q.round env d i = .ok r ∧ fd = r.ret := by
  rcases events_cases env d q i with ⟨-, heq⟩ | ⟨_, _, -, -, heq⟩ |
    ⟨c, r, hask, henv, ⟨-, heq⟩ | ⟨-, -, -, heq⟩⟩
  all_goals rw [heq] at h
  · cases h
  · cases List.mem_singleton.mp h
  · cases List.mem_singleton.mp h
  · rcases List.mem_pair.mp h with heq | heq
    · cases heq
    · cases heq
      exact ⟨rfl, rfl, r, round_eq_ok_iff.mpr ⟨c, hask, henv⟩, rfl⟩

/-- Asking a replica logs nothing. -/
theorem log_not_mem_events (env : Env n) (d : Daemon n) (q : Request) (i : Fin n)
    (who : Option (Fin n)) (fnname : String) (resource : Resource) (err : ℤ) :
    .log who fnname resource err ∉ q.events env d i := by
  rcases events_cases env d q i with ⟨-, heq⟩ | ⟨_, _, -, -, heq⟩ |
    ⟨_, _, -, -, ⟨-, heq⟩ | ⟨-, -, -, heq⟩⟩ <;> simp [heq]

end rounds

end Request

end ChironFs
