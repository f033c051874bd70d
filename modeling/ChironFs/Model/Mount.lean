import ChironFs.Model.Replicas

/-!
# Building the configuration (`conf.c`, `do_mount`)

* `maxReplica`: the number of replicas, counted before the list is split; `countRounds`: the
  counting loop with its pointer and its index.
* `components`: the pieces of the list between the separators; `tokens`: those `strtok` yields,
  which skips the empty ones.
* `MountEnv.rlimCur`: the limit on descriptors that the table is sized for, which is not the one in
  force where `setrlimit` was refused.
* `growLoop`: the size of the handle table; `clearLoop`: the loop that clears it.
* `replicaLoop`: the loop that fills the replica array and the two round-robin tables.
* `doMount`: `none` when the program exits or does not come back.
* `clearLoop_eq`, `clearLoop_eq_none`: for which sizes the clearing loop ends.
* `length_tokens_le`: no token is stored behind the replica array.
-/

namespace ChironFs

variable {n : ℕ}

/-- `'='`, between two replicas. -/
def separator : UInt8 := 61

/-- `':'`, before a replica of low priority. -/
def lowMark : UInt8 := 58

/-- `for (i=0; t[i]; t[i]=='=' ? i++ : *t++);`: each round moves the cursor `t + i` by one.
Source: `conf.c`, `do_mount` -/
def countLoop : Path → ℕ → ℕ
  | [], i => i
  | b :: rest, i => if b = separator then countLoop rest (i + 1) else countLoop rest i

/-- The same loop with its pointer, `t` bytes behind the start of the list, and its index; by
recursion on the rounds allowed, `none`: it takes more.
Source: `conf.c`, `do_mount` -/
def countRounds (filesystems : Path) : ℕ → ℕ → ℕ → Option ℕ
  | 0, _, _ => none
  | rounds + 1, t, i =>
      match filesystems[t + i]? with
      | none => some i
      | some b =>
          if b = separator then countRounds filesystems rounds t (i + 1)
          else countRounds filesystems rounds (t + 1) i

/-- `config.max_replica`. -/
def maxReplica (filesystems : Path) : ℕ := countLoop filesystems 0 + 1

/-- The pieces of a replica list between the separators, empty ones included. -/
def components (filesystems : Path) : List Path := filesystems.splitOn separator

/-- What `strtok(…, "=")` yields one after another. -/
def tokens (filesystems : Path) : List Path := (components filesystems).filter (· ≠ [])

/-! ## The limit on descriptors -/

/-- `struct rlimit`: the soft and the hard limit. -/
structure RLimit where
  cur : UInt64
  max : UInt64
deriving DecidableEq

/-- What `do_mount` finds outside the program: the limit on descriptors it was started with, whether
its `k`-th `getrlimit` succeeds and whether its `setrlimit` does, `realpath`, and whether its `k`-th
`calloc` succeeds. -/
structure MountEnv where
  rlimit : RLimit
  getrlimit : ℕ → Bool
  setrlimit : Bool
  realpath : Path → Option Path
  calloc : ℕ → Bool

namespace MountEnv

variable (env : MountEnv)

/-- The soft limit is below the hard one, and may not be raised. -/
def Refused : Prop := env.rlimit.cur < env.rlimit.max ∧ env.setrlimit = false

instance : Decidable env.Refused := inferInstanceAs (Decidable (_ ∧ _))

/-- The soft limit in force when the table is sized: the hard one, if it was raised. -/
def softLimit : UInt64 :=
  if env.rlimit.cur < env.rlimit.max ∧ env.setrlimit = true then env.rlimit.max else env.rlimit.cur

/-- `rlp.rlim_cur` when the table is sized; `none`: the program exits, as a `getrlimit` failed.
Source: `conf.c`, `do_mount` -/
def rlimCur : Option UInt64 :=
  if env.getrlimit 0 then
    if env.rlimit.cur < env.rlimit.max then
      -- `rlp.rlim_cur` gets the hard limit first, and keeps it where `setrlimit` fails
      if env.setrlimit then
        if env.getrlimit 1 then some env.softLimit else none
      else some env.rlimit.max
    else some env.rlimit.cur
  else none

end MountEnv

/-- `while (config.fd_buf_size <= tmpfd) config.fd_buf_size <<= 1;` by recursion on the rounds
allowed; a size that was shifted out to `0` stays `0`, so the loop that takes more than 64 rounds
does not end. -/
def growLoop (tmpfd : UInt64) : ℕ → UInt64 → Option UInt64
  | 0, _ => none
  | rounds + 1, size => if size ≤ tmpfd then growLoop tmpfd rounds (size <<< 1) else some size

/-- `config.fd_buf_size` for `max_replica` replicas. Source: `conf.c`, `do_mount` -/
def fdBufSizeFor (rlimCur : UInt64) (maxReplica : ℕ) : Option UInt64 := do
  let tmpfd := (rlimCur - 6) / UInt64.ofNat maxReplica
  let size ← growLoop tmpfd 65 1
  some (size >>> 1)

/-- `for(i=0; i < config.fd_buf_size; i++) config.tab_fd.fd[i] = NULL;` with its index of 32 bits, by
recursion on the rounds allowed; `none`: it takes more.
Source: `conf.c`, `do_mount` -/
def clearLoop (size : UInt64) :
    ℕ → UInt32 → (ℕ → Option (Fin n → ℤ)) → Option (ℕ → Option (Fin n → ℤ))
  | 0, _, _ => none
  | rounds + 1, i, tab =>
      if i.toUInt64 < size then
        clearLoop size rounds (i + 1) (Function.update tab i.toNat none)
      else some tab

/-- The loop that clears a table of this size ends: its index can reach the size. -/
def clears (size : UInt64) : Bool := size.toNat < 2 ^ 32

/-- Enter replica `i` into a round-robin table. -/
def Config.enroll (c : Config n) (i : Fin n) (low : Bool) : Config n :=
  if low then
    { c with maxReplicaLow := c.maxReplicaLow + 1, roundRobinLow := c.roundRobinLow ++ [i] }
  else
    { c with maxReplicaHigh := c.maxReplicaHigh + 1, roundRobinHigh := c.roundRobinHigh ++ [i] }

/-- `token[0] == ':'`. -/
def isLow (token : Path) : Bool := token.head? = some lowMark

/-- The path a token names, after `token += 1` for a low-priority one. -/
def tokenPath (token : Path) : Path := if isLow token then token.tail else token

/-- The loop's work on replica `i`, whose path is `p`. -/
def Config.addReplica (c : Config n) (i : Fin n) (low : Bool) (p : Path) : Config n :=
  (c.enroll i low).setReplica i
    { c.replicas i with path := some p, pathlen := p.length, priority := low }

/-- The loop over the tokens; `none`: `realpath` refuses a path, or a store behind the array. -/
def replicaLoop (realpath : Path → Option Path) : List Path → ℕ → Config n → Option (Config n)
  | [], _, c => some c
  | token :: rest, i, c =>
      if h : i < n then
        match realpath (tokenPath token) with
        | none => none
        | some p => replicaLoop realpath rest (i + 1) (c.addReplica ⟨i, h⟩ (isLow token) p)
      else none

/-- The configuration before the tokens are read, with the table cleared; `memory` is what lies behind
it. -/
def blankConfig (n uid gid : ℕ) (fdBufSize : UInt64) (memory : ℕ → Option (Fin n → ℤ)) :
    Config n where
  maxReplicaHigh := 0
  maxReplicaLow := 0
  currReplicaHigh := 0
  currReplicaLow := 0
  roundRobinHigh := []
  roundRobinLow := []
  replicas := fun _ => { path := none }
  tabFd := fun k => if k < fdBufSize.toNat then none else memory k
  uid := uid
  gid := gid
  fdBufSize := fdBufSize

/-- Build the configuration from the replica list; `uid` and `gid` are the daemon's effective ids. A
table that the clearing loop does not get through is one case of not coming back.
Source: `conf.c`, `do_mount`; `fs.c`, `main` -/
def doMount (env : MountEnv) (uid gid : ℕ) (filesystems : Path)
    (memory : ℕ → Option (Fin (maxReplica filesystems) → ℤ)) :
    Option (Config (maxReplica filesystems)) := do
  let rlimCur ← env.rlimCur
  let size ← fdBufSizeFor rlimCur (maxReplica filesystems)
  if clears size && (List.range 4).all env.calloc then
    replicaLoop env.realpath (tokens filesystems) 0
      (blankConfig (maxReplica filesystems) uid gid size memory)
  else none

/-! ## The clearing loop -/

/-- **The clearing loop ends** in a table of fewer than `2 ^ 32` slots. By induction on the rounds;
`i` slots are cleared. -/
theorem clearLoop_eq {size : UInt64} (hsize : clears size = true) {rounds : ℕ} {i : UInt32}
    (hi : i.toNat ≤ size.toNat) (hrounds : size.toNat < i.toNat + rounds)
    (tab : ℕ → Option (Fin n → ℤ)) :
    clearLoop size rounds i tab =
      some fun k => if i.toNat ≤ k ∧ k < size.toNat then none else tab k := by
  induction rounds generalizing i tab with
  | zero => omega
  | succ rounds ih =>
      have hsize : size.toNat < 2 ^ 32 := of_decide_eq_true hsize
      rw [clearLoop]
      by_cases hlt : i.toNat < size.toNat
      · have hlt' : i.toUInt64 < size := by
          rw [UInt64.lt_iff_toNat_lt, UInt32.toNat_toUInt64]
          exact hlt
        -- the index does not wrap below the size
        have hnext : (i + 1).toNat = i.toNat + 1 := by
          rw [UInt32.toNat_add, UInt32.toNat_one]
          exact Nat.mod_eq_of_lt (by omega)
        rw [if_pos hlt', ih (by omega) (by omega)]
        congr 1
        funext k
        rw [hnext]
        by_cases hk : k = i.toNat
        · rw [hk, Function.update_self, ite_self, if_pos ⟨le_rfl, hlt⟩]
        · rw [Function.update_of_ne hk]
          exact if_congr (by omega) rfl rfl
      · have hge : ¬ i.toUInt64 < size := by
          rw [UInt64.lt_iff_toNat_lt, UInt32.toNat_toUInt64]
          exact hlt
        rw [if_neg hge]
        congr 1
        funext k
        rw [if_neg (by omega)]

/-- **It does not end** in a larger one: the index wraps before it reaches the size. -/
theorem clearLoop_eq_none {size : UInt64} (hsize : clears size = false) (rounds : ℕ) (i : UInt32)
    (tab : ℕ → Option (Fin n → ℤ)) : clearLoop size rounds i tab = none := by
  induction rounds generalizing i tab with
  | zero => rfl
  | succ rounds ih =>
      have hge : ¬ size.toNat < 2 ^ 32 := of_decide_eq_false hsize
      have hlt : i.toUInt64 < size := by
        rw [UInt64.lt_iff_toNat_lt, UInt32.toNat_toUInt64]
        have := i.toNat_lt
        omega
      rw [clearLoop, if_pos hlt]
      exact ih _ _

/-- What it leaves is the table of the blank configuration. -/
theorem clearLoop_blankConfig {size : UInt64} (hsize : clears size = true) (uid gid : ℕ)
    (memory : ℕ → Option (Fin n → ℤ)) :
    clearLoop size (size.toNat + 1) 0 memory = some (blankConfig n uid gid size memory).tabFd := by
  rw [clearLoop_eq hsize (Nat.zero_le _) (by simp)]
  congr 1
  funext k
  exact if_congr (and_iff_right (Nat.zero_le k)) rfl rfl

/-! ## The number of replicas -/

theorem countLoop_eq (fs : Path) (i : ℕ) : countLoop fs i = i + fs.count separator := by
  induction fs generalizing i with
  | nil => rfl
  | cons b rest ih =>
      rw [countLoop]
      by_cases hb : b = separator
      · rw [if_pos hb, ih, hb, List.count_cons_self]
        omega
      · rw [if_neg hb, ih, List.count_cons_of_ne (by simpa using hb)]

/-- **The counting loop ends**, one round after the last byte. By induction on the bytes the cursor
`t + i` has before it. -/
theorem countRounds_eq {fs rest : Path} {t i rounds : ℕ} (h : fs.drop (t + i) = rest)
    (hrounds : rest.length < rounds) : countRounds fs rounds t i = some (countLoop rest i) := by
  induction rest generalizing t i rounds with
  | nil =>
      obtain ⟨rounds, rfl⟩ : ∃ k, rounds = k + 1 := ⟨rounds - 1, by omega⟩
      have hend : fs[t + i]? = none := List.getElem?_eq_none (List.drop_eq_nil_iff.mp h)
      rw [countRounds, hend]
      rfl
  | cons b rest ih =>
      rw [List.length_cons] at hrounds
      obtain ⟨rounds, rfl⟩ : ∃ k, rounds = k + 1 := ⟨rounds - 1, by omega⟩
      have hb : fs[t + i]? = some b := by
        rw [← List.head?_drop, h]
        rfl
      have hrest : fs.drop (t + i + 1) = rest := by
        rw [← List.tail_drop, h]
        rfl
      rw [countRounds, hb, countLoop]
      simp only
      split_ifs with hsep
      · exact ih hrest (by omega)
      · exact ih (by rw [Nat.add_right_comm]; exact hrest) (by omega)

theorem length_components (fs : Path) : (components fs).length = maxReplica fs := by
  unfold components maxReplica
  rw [countLoop_eq, Nat.zero_add]
  induction fs with
  | nil => rfl
  | cons b rest ih =>
      rw [List.splitOn_cons_eq_if_modifyHead]
      by_cases hb : b = separator
      · rw [if_pos (by simpa using hb), List.length_cons, ih, hb, List.count_cons_self]
      · rw [if_neg (by simpa using hb), List.length_modifyHead, ih,
          List.count_cons_of_ne (by simpa using hb)]

/-- **No token is stored behind the replica array.** -/
theorem length_tokens_le (fs : Path) : (tokens fs).length ≤ maxReplica fs :=
  (List.length_filter_le _ _).trans_eq (length_components fs)

/-- The two scans of the list agree on the lists without an empty component. -/
theorem length_tokens_eq_iff (fs : Path) :
    (tokens fs).length = maxReplica fs ↔ ∀ p ∈ components fs, p ≠ [] := by
  rw [← length_components, tokens, List.length_filter_eq_length_iff]
  simp

/-- A list without an empty component gives every replica a token. -/
theorem tokens_eq_components {fs : Path} (h : ∀ p ∈ components fs, p ≠ []) :
    tokens fs = components fs :=
  List.filter_eq_self.mpr fun p hp => by simpa using h p hp

end ChironFs
