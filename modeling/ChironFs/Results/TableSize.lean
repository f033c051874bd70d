import ChironFs.Model.Sample
import ChironFs.Results.HandleTable

/-!
# The documented limit on descriptors

The HOWTO says to allow `2 * NF * NR + 6` descriptors for `NF` open files on `NR` replicas.

* `growLoop_spec`, `fdBufSizeFor_spec`: the table has the largest power of two of slots that is at
  most the number of descriptors left for one replica, by the limit that was read.
* `MountEnv.rlimCur_cases`: that is the limit in force, or the hard limit where it may not be raised.
* `sizedFor_iff`: the table fits the limit in force just when each replica gets a descriptor and, if
  the limit may not be raised, the hard limit gives the same size.
* `lt_fdBufSize_of_formula`: with the documented limit or more, more than `NF` slots.
* `exists_free_slot`: a table with more slots than live handles has a free one.
* `limit_formula_suffices`: so no `open` or `create` fails for want of a slot.
-/

namespace ChironFs

open Posix Replication

variable {n : ℕ}

/-! ## The size of the table -/

/-- **The loop that doubles the size** ends with the least power of two above `tmpfd`; `2 ^ k` is the
size reached so far. By recursion on the rounds. -/
theorem growLoop_spec {tmpfd : UInt64} (htmp : tmpfd.toNat < 2 ^ 63) {rounds k : ℕ}
    (hrounds : k + rounds = 65) {size : UInt64} (hsize : size.toNat = 2 ^ k)
    (hlow : k = 0 ∨ 2 ^ (k - 1) ≤ tmpfd.toNat) :
    ∃ m out, growLoop tmpfd rounds size = some out ∧ out.toNat = 2 ^ m ∧ tmpfd.toNat < 2 ^ m ∧
      (m = 0 ∨ 2 ^ (m - 1) ≤ tmpfd.toNat) := by
  induction rounds generalizing k size with
  | zero =>
      obtain rfl : k = 65 := hrounds
      have hlt := size.toNat_lt
      omega
  | succ rounds ih =>
      rw [growLoop]
      split_ifs with hle
      · have hle : 2 ^ k ≤ tmpfd.toNat := by
          rw [← hsize]
          exact UInt64.le_iff_toNat_le.mp hle
        have hk : k < 63 := (Nat.pow_lt_pow_iff_right (by decide)).mp (lt_of_le_of_lt hle htmp)
        have hfit : 2 ^ k * 2 < 2 ^ 64 := by
          have := Nat.pow_lt_pow_right (a := 2) (by decide) hk
          omega
        refine ih (k := k + 1) (by omega) ?_ (Or.inr hle)
        have hshift : (size <<< 1).toNat = 2 ^ k <<< 1 % 2 ^ 64 := by
          rw [UInt64.toNat_shiftLeft, hsize]
          rfl
        rw [hshift, Nat.shiftLeft_eq, pow_one, Nat.mod_eq_of_lt hfit, Nat.pow_succ]
      · refine ⟨k, size, rfl, hsize, ?_, hlow⟩
        rw [← hsize]
        exact UInt64.lt_iff_toNat_lt.mp (UInt64.not_le.mp hle)

/-- **The size of the table**: a power of two, at most the descriptors left for one replica, of which
it has more than half. -/
theorem fdBufSizeFor_spec {rlimCur : UInt64} {replicas : ℕ} {size : UInt64}
    (h : fdBufSizeFor rlimCur replicas = some size)
    (hlt : ((rlimCur - 6) / UInt64.ofNat replicas).toNat < 2 ^ 63)
    (hpos : 0 < ((rlimCur - 6) / UInt64.ofNat replicas).toNat) :
    ∃ m, size.toNat = 2 ^ m ∧ 2 ^ m ≤ ((rlimCur - 6) / UInt64.ofNat replicas).toNat ∧
      ((rlimCur - 6) / UInt64.ofNat replicas).toNat < 2 * 2 ^ m := by
  obtain ⟨m, out, hgrow, hout, hlow, hhigh⟩ := growLoop_spec hlt (rfl : 0 + 65 = 65)
    (rfl : (1 : UInt64).toNat = 2 ^ 0) (Or.inl rfl)
  simp only [fdBufSizeFor, hgrow, Option.bind_eq_bind, Option.bind_some, Option.some.injEq] at h
  subst h
  obtain ⟨m, rfl⟩ : ∃ k, m = k + 1 := by
    refine ⟨m - 1, ?_⟩
    rcases Nat.eq_zero_or_pos m with rfl | hm
    · exact absurd hlow (by omega)
    · omega
  have hshift : (out >>> 1).toNat = 2 ^ m := by
    rw [UInt64.toNat_shiftRight, hout, Nat.pow_succ]
    exact Nat.mul_div_cancel _ (by decide)
  refine ⟨m, hshift, ?_, ?_⟩
  · simpa using hhigh
  · rw [Nat.pow_succ, Nat.mul_comm] at hlow
    exact hlow

/-- What is left for one replica, without a borrow. -/
theorem toNat_quot {rlimCur : UInt64} {replicas : ℕ} (hsix : 6 ≤ rlimCur.toNat)
    (hlt : replicas < 2 ^ 32) :
    ((rlimCur - 6) / UInt64.ofNat replicas).toNat = (rlimCur.toNat - 6) / replicas := by
  have hden : (UInt64.ofNat replicas).toNat = replicas :=
    UInt64.toNat_ofNat_of_lt' (lt_trans hlt (by decide))
  have hle : (6 : UInt64) ≤ rlimCur := UInt64.le_iff_toNat_le.mpr hsix
  rw [UInt64.toNat_div, UInt64.toNat_sub_of_le _ _ hle, hden]
  rfl

/-- Where the loop ends the size is above `tmpfd`, and even once it was doubled. -/
theorem lt_of_growLoop {tmpfd size out : UInt64} {rounds : ℕ}
    (h : growLoop tmpfd rounds size = some out) :
    tmpfd.toNat < out.toNat ∧ (out = size ∨ out.toNat % 2 = 0) := by
  induction rounds generalizing size with
  | zero => cases h
  | succ rounds ih =>
      rw [growLoop] at h
      split_ifs at h with hle
      · obtain ⟨hlt, hout⟩ := ih h
        refine ⟨hlt, Or.inr (hout.elim (fun heq => ?_) id)⟩
        rw [heq, UInt64.toNat_shiftLeft, Nat.shiftLeft_eq]
        show size.toNat * 2 ^ 1 % 2 ^ 64 % 2 = 0
        omega
      · obtain rfl := Option.some.inj h
        exact ⟨UInt64.lt_iff_toNat_lt.mp (UInt64.not_le.mp hle), Or.inl rfl⟩

/-- **The documented formula**, or a larger limit, leaves more slots than open files. -/
theorem lt_fdBufSize_of_formula {files replicas : ℕ} {rlimCur size : UInt64} (hfiles : 1 ≤ files)
    (hreplicas : 1 ≤ replicas) (hle : 2 * files * replicas + 6 ≤ 2 ^ 31)
    (hlimit : 2 * files * replicas + 6 ≤ rlimCur.toNat)
    (h : fdBufSizeFor rlimCur replicas = some size) : files < size.toNat := by
  have hmul : replicas ≤ 2 * files * replicas := Nat.le_mul_of_pos_left _ (by omega)
  have hquot : 2 * files ≤ ((rlimCur - 6) / UInt64.ofNat replicas).toNat := by
    rw [toNat_quot (by omega) (by omega), Nat.le_div_iff_mul_le hreplicas]
    omega
  obtain ⟨out, hgrow, hout⟩ := Option.bind_eq_some_iff.mp h
  obtain rfl := Option.some.inj hout
  obtain ⟨hlt, heven⟩ := lt_of_growLoop hgrow
  have hshift : (out >>> 1).toNat = out.toNat / 2 := by
    rw [UInt64.toNat_shiftRight, Nat.shiftRight_eq_div_pow]
    rfl
  rw [hshift]
  rcases heven with rfl | heven
  · have hone : (1 : UInt64).toNat = 1 := rfl
    omega
  · omega

/-! ## The size for every limit -/

/-- The sizes that the doubling loop shifts. -/
def shifted (tmpfd : UInt64) : ℕ → UInt64 → List UInt64
  | 0, _ => []
  | rounds + 1, size => if size ≤ tmpfd then size :: shifted tmpfd rounds (size <<< 1) else []

theorem le_of_mem_shifted {tmpfd size x : UInt64} {rounds : ℕ} (h : x ∈ shifted tmpfd rounds size) :
    x ≤ tmpfd := by
  induction rounds generalizing size with
  | zero => cases h
  | succ rounds ih =>
      rw [shifted] at h
      split_ifs at h with hle
      · rcases List.mem_cons.mp h with rfl | h
        · exact hle
        · exact ih h
      · cases h

/-- A table that is as large as the limit in force lets it be, computed from the limit that was
read. -/
structure SizedFor (softLimit rlimCur : UInt64) (replicas : ℕ) (size : UInt64) : Prop where
  no_borrow : 6 ≤ rlimCur.toNat ∧ 6 ≤ softLimit.toNat
  no_overflow : ∀ x ∈ shifted ((rlimCur - 6) / UInt64.ofNat replicas) 65 1, x.toNat * 2 < 2 ^ 64
  computed : fdBufSizeFor rlimCur replicas = some size
  power : ∃ m, size.toNat = 2 ^ m
  le : size.toNat ≤ (softLimit.toNat - 6) / replicas
  lt : (softLimit.toNat - 6) / replicas < 2 * size.toNat
  descriptors : size.toNat * replicas ≤ softLimit.toNat - 6
  mask : ∀ x : UInt64, (x &&& (size - 1)).toNat = x.toNat % size.toNat

/-- Seven descriptors. -/
def sevenMount : MountEnv := { plainMount with rlimit := { cur := 7, max := 7 } }

/-- The limit is twenty-two and may not be raised, although the hard limit is a million. -/
def refusedMount : MountEnv :=
  { plainMount with rlimit := { cur := 22, max := 1000000 }, setrlimit := false }

/-- With seven descriptors for two replicas the table has no slot; with twenty-two that may not be
raised it has the slots of the hard limit. -/
theorem sizedFor_too_few :
    sevenMount.rlimCur = some 7 ∧ sevenMount.softLimit = 7 ∧ fdBufSizeFor 7 2 = some 0 ∧
      (¬ ∃ size, SizedFor 7 7 2 size) ∧
      refusedMount.rlimCur = some 1000000 ∧ refusedMount.softLimit = 22 ∧
      fdBufSizeFor 1000000 2 = some 262144 ∧ ¬ ∃ size, SizedFor 22 1000000 2 size := by
  have hzero : fdBufSizeFor 7 2 = some 0 := by decide
  have hlarge : fdBufSizeFor 1000000 2 = some 262144 := by decide
  refine ⟨by decide, by decide, hzero, ?_, by decide, by decide, hlarge, ?_⟩
  · rintro ⟨size, h⟩
    obtain rfl := Option.some.inj (hzero.symm.trans h.computed)
    obtain ⟨m, hm⟩ := h.power
    exact absurd hm (Nat.two_pow_pos m).ne
  · rintro ⟨size, h⟩
    obtain rfl := Option.some.inj (hlarge.symm.trans h.computed)
    exact absurd h.le (by decide)

/-- **The limit that is read** is the one in force, or the hard limit where the limit in force may
not be raised to it. -/
theorem MountEnv.rlimCur_cases {menv : MountEnv} {rlimCur : UInt64}
    (h : menv.rlimCur = some rlimCur) :
    (¬ menv.Refused ∧ rlimCur = menv.softLimit) ∨
      (menv.Refused ∧ rlimCur = menv.rlimit.max ∧ menv.softLimit = menv.rlimit.cur ∧
        menv.softLimit < rlimCur) := by
  unfold MountEnv.rlimCur at h
  unfold MountEnv.Refused
  by_cases hlow : menv.rlimit.cur < menv.rlimit.max
  · rw [if_pos hlow] at h
    cases hset : menv.setrlimit with
    | true =>
        refine Or.inl ⟨fun href => Bool.noConfusion href.2, ?_⟩
        rw [hset, if_pos rfl] at h
        split_ifs at h
        exact (Option.some.inj h).symm
    | false =>
        have hsoft : menv.softLimit = menv.rlimit.cur := by
          rw [MountEnv.softLimit, if_neg fun hraised => Bool.noConfusion (hset ▸ hraised.2)]
        rw [hset, if_neg Bool.false_ne_true] at h
        split_ifs at h
        obtain rfl := (Option.some.inj h).symm
        refine Or.inr ⟨⟨hlow, rfl⟩, rfl, hsoft, ?_⟩
        rw [hsoft]
        exact hlow
  · have hsoft : menv.softLimit = menv.rlimit.cur := by
      rw [MountEnv.softLimit, if_neg fun hraised => hlow hraised.1]
    rw [if_neg hlow] at h
    split_ifs at h
    exact Or.inl ⟨fun href => hlow href.1, hsoft ▸ (Option.some.inj h).symm⟩

/-- It is not below the limit in force. -/
theorem MountEnv.softLimit_le {menv : MountEnv} {rlimCur : UInt64}
    (h : menv.rlimCur = some rlimCur) : menv.softLimit.toNat ≤ rlimCur.toNat := by
  rcases MountEnv.rlimCur_cases h with ⟨-, heq⟩ | ⟨-, -, -, hless⟩
  · rw [heq]
  · exact (UInt64.lt_iff_toNat_lt.mp hless).le

/-- The size that a limit gives, where it leaves each replica a descriptor. -/
theorem exists_fdBufSizeFor {rlimCur : UInt64} {replicas : ℕ} (htwo : 2 ≤ replicas)
    (hlt : replicas < 2 ^ 32) (h : 6 + replicas ≤ rlimCur.toNat) :
    ∃ size, fdBufSizeFor rlimCur replicas = some size ∧
      size.toNat = 2 ^ Nat.log 2 ((rlimCur.toNat - 6) / replicas) := by
  have hsix : 6 ≤ rlimCur.toNat := by omega
  have hquot := toNat_quot hsix hlt
  have hpos : 0 < (rlimCur.toNat - 6) / replicas := Nat.div_pos (by omega) (by omega)
  have htop : (rlimCur.toNat - 6) / replicas < 2 ^ 63 := by
    have hL := rlimCur.toNat_lt
    exact Nat.div_lt_of_lt_mul (by omega)
  obtain ⟨_, out, hgrow, -⟩ := growLoop_spec (hquot.trans_lt htop) (rfl : 0 + 65 = 65)
    (rfl : (1 : UInt64).toNat = 2 ^ 0) (Or.inl rfl)
  have hsize : fdBufSizeFor rlimCur replicas = some (out >>> 1) := by
    simp only [fdBufSizeFor, hgrow, Option.bind_eq_bind, Option.bind_some]
  obtain ⟨m, hm, hlow, hhigh⟩ := fdBufSizeFor_spec hsize (hquot.trans_lt htop) (hquot ▸ hpos)
  rw [hquot] at hlow hhigh
  refine ⟨out >>> 1, hsize, ?_⟩
  rw [hm, Nat.log_eq_of_pow_le_of_lt_pow hlow (by rw [Nat.pow_succ]; omega)]

/-- **When the table is sized**: the limit in force leaves a descriptor for every replica and, where
it may not be raised, the hard limit gives a table of the same size. -/
theorem sizedFor_iff {menv : MountEnv} {rlimCur : UInt64} (hread : menv.rlimCur = some rlimCur)
    {replicas : ℕ} (htwo : 2 ≤ replicas) (hlt : replicas < 2 ^ 32) :
    (∃ size, SizedFor menv.softLimit rlimCur replicas size) ↔
      6 + replicas ≤ menv.softLimit.toNat ∧
        (menv.Refused → Nat.log 2 ((menv.rlimit.max.toNat - 6) / replicas) =
          Nat.log 2 ((menv.rlimit.cur.toNat - 6) / replicas)) := by
  have hcases := MountEnv.rlimCur_cases hread
  have hle := MountEnv.softLimit_le hread
  constructor
  · rintro ⟨size, h⟩
    obtain ⟨m, hm⟩ := h.power
    have hpos : 1 ≤ size.toNat := hm ▸ Nat.two_pow_pos m
    have hmul := h.descriptors
    have hge : replicas ≤ size.toNat * replicas := Nat.le_mul_of_pos_left _ hpos
    have hfits : 6 + replicas ≤ menv.softLimit.toNat := by omega
    refine ⟨hfits, fun href => ?_⟩
    obtain ⟨-, hmax, hcur, -⟩ := hcases.resolve_left fun hno => hno.1 href
    obtain ⟨size', hsize', hlog⟩ := exists_fdBufSizeFor htwo hlt (hfits.trans hle)
    obtain rfl := Option.some.inj (hsize'.symm.trans h.computed)
    rw [hmax] at hlog
    have hmlog : 2 ^ m = 2 ^ Nat.log 2 ((menv.rlimit.max.toNat - 6) / replicas) := hm.symm.trans hlog
    rw [← Nat.pow_right_injective (le_refl 2) hmlog, ← hcur]
    refine (Nat.log_eq_of_pow_le_of_lt_pow (hm ▸ h.le) ?_).symm
    rw [Nat.pow_succ, ← hm, Nat.mul_comm]
    exact h.lt
  · rintro ⟨hfits, hsame⟩
    obtain ⟨size, hsize, hread'⟩ := exists_fdBufSizeFor htwo hlt (hfits.trans hle)
    have hlog : size.toNat = 2 ^ Nat.log 2 ((menv.softLimit.toNat - 6) / replicas) := by
      rcases hcases with ⟨-, heq⟩ | ⟨href, hmax, hcur, -⟩
      · rw [hread', heq]
      · rw [hread', hmax, hsame href, hcur]
    have hquot : (menv.softLimit.toNat - 6) / replicas ≠ 0 :=
      (Nat.div_pos (by omega) (by omega)).ne'
    have hlow : size.toNat ≤ (menv.softLimit.toNat - 6) / replicas :=
      hlog ▸ Nat.pow_log_le_self 2 hquot
    refine ⟨size, ?_⟩
    exact
      { no_borrow := ⟨by omega, by omega⟩
        no_overflow := fun x hx => by
          have hx := UInt64.le_iff_toNat_le.mp (le_of_mem_shifted hx)
          rw [toNat_quot (by omega) hlt] at hx
          have hL := rlimCur.toNat_lt
          have htop : (rlimCur.toNat - 6) / replicas < 2 ^ 63 := Nat.div_lt_of_lt_mul (by omega)
          omega
        computed := hsize
        power := ⟨_, hlog⟩
        le := hlow
        lt := by
          rw [hlog, Nat.mul_comm, ← Nat.pow_succ]
          exact Nat.lt_pow_succ_log_self (by decide) _
        descriptors := (Nat.le_div_iff_mul_le (by omega)).mp hlow
        mask := fun x => by
          have hone : (1 : UInt64) ≤ size := by
            rw [UInt64.le_iff_toNat_le, hlog]
            exact Nat.two_pow_pos _
          rw [UInt64.toNat_and, UInt64.toNat_sub_of_le _ _ hone, hlog]
          exact Nat.and_two_pow_sub_one_eq_mod _ _ }

/-- With 1024 descriptors for two replicas the table is sized. -/
theorem sizedFor_iff_1024 :
    plainMount.softLimit = 1024 ∧ ∃ size, SizedFor plainMount.softLimit 1024 2 size := by
  have hread : plainMount.rlimCur = some 1024 := rfl
  exact ⟨by decide, (sizedFor_iff hread (le_refl 2) (by decide)).mpr
    ⟨by decide, fun href => absurd href (by decide)⟩⟩

/-! ## A free slot -/

/-- **A table with more slots than live handles has a free one**: the used slots are those of live
handles. -/
theorem Session.SlotsInv.exists_free_slot {s : Session n} (hi : s.SlotsInv)
    (hlive : s.live.length < s.daemon.config.fdBufSize.toNat) :
    ∃ k < s.daemon.config.fdBufSize.toNat, s.daemon.config.tabFd k = none := by
  by_contra hfull
  push Not at hfull
  have hsub : List.range s.daemon.config.fdBufSize.toNat ⊆ s.live.map Handle.fh := by
    intro k hk
    have hk := List.mem_range.mp hk
    obtain ⟨x, hx, rfl⟩ := hi.used k hk (hfull k hk)
    exact List.mem_map_of_mem hx
  have hlen := (List.nodup_range.subperm hsub).length_le
  rw [List.length_range, List.length_map] at hlen
  omega

/-- An `open` or `create` that was done on some replica gets a slot where one is free. -/
theorem ret_of_free_slot {q : Request} {env : Env n} {d : Daemon n} {o : Outcome n}
    (hop : q.opens = true)
    (hfree : ∃ k < d.config.fdBufSize.toNat, d.config.tabFd k = none)
    (ho : handle q env d = some o) (hok : ∃ i, o.CallOk i) :
    o.response.ret = 0 ∧ ∃ fh, o.fh = some fh := by
  obtain ⟨i, cr, c, r, hmem⟩ := hok
  have hsv : ∃ tried, Served q env d tried o := by
    by_contra hno
    exact (handle_no_round ho hno).1 i ⟨cr, c, _, hmem⟩
  obtain ⟨tried, hsv⟩ := hsv
  have hs : (q.roundOn env d tried).Succeeded := hsv.succeeded_iff.mpr ⟨cr, i, c, r, hmem⟩
  rw [hsv.all (Request.searches_of_opens hop), Request.roundOn_finRange] at hs
  rcases handle_cases ho with ⟨e, -, rfl⟩ | ⟨fh, fd, rfl, -, rfl⟩ | ⟨he, -, -⟩
  · cases isCred_of_mem_earlyOutcome hmem
  · cases hop
  · obtain rfl := Option.some.inj ((handle_opens hop he).symm.trans ho)
    have hge := store_nonneg_of_free hop hs hfree
    unfold Request.openOutcome
    simp only
    rw [if_pos hs, if_neg (not_lt.mpr hge)]
    exact ⟨rfl, _, rfl⟩

section mounted

variable {fs : Path} {menv : MountEnv} {uid gid : ℕ}
  {memory : ℕ → Option (Fin (maxReplica fs) → ℤ)} {c : Config (maxReplica fs)}
  {s : Session (maxReplica fs)}

/-- The size of the table `do_mount` makes. -/
theorem fdBufSize_of_doMount (hc : doMount menv uid gid fs memory = some c) :
    menv.rlimCur.bind (fdBufSizeFor · (maxReplica fs)) = some c.fdBufSize := by
  obtain ⟨size, hsize, hloop⟩ := exists_loop_of_doMount hc
  obtain ⟨-, hsame, -⟩ := replicaLoop_filledTo (blankConfig_filledTo uid gid size memory) hloop
  rw [hsize, hsame.fdBufSize]
  rfl

/-- **The documented limit suffices.** With a limit of `2 * files * replicas + 6` descriptors in force,
raised or not, in every state of every run in which at most `files` handles are live, an `open` or
`create` that some replica did returns a handle: it does not fail for want of a slot. -/
theorem limit_formula_suffices {files : ℕ} (hfiles : 1 ≤ files)
    (hle : 2 * files * maxReplica fs + 6 ≤ 2 ^ 31)
    (hlimit : menv.softLimit = UInt64.ofNat (2 * files * maxReplica fs + 6))
    (hc : doMount menv uid gid fs memory = some c)
    (hs : Machine.ReachableBy Session.step (fun _ _ => True) (Session.StartsOn c) s)
    (hlive : s.live.length ≤ files) {q : Request} {env : Env (maxReplica fs)}
    {o : Outcome (maxReplica fs)} (hop : q.opens = true) (ho : handle q env s.daemon = some o)
    (hok : ∃ i, o.CallOk i) : o.response.ret = 0 ∧ ∃ fh, o.fh = some fh := by
  have hm := doMount_mounted hc
  have hsize : files < s.daemon.config.fdBufSize.toNat := by
    rw [(Session.sameLayout_of_reachable hs).fdBufSize]
    obtain ⟨rlimCur, hread, h⟩ := Option.bind_eq_some_iff.mp (fdBufSize_of_doMount hc)
    have hforce : menv.softLimit.toNat = 2 * files * maxReplica fs + 6 := by
      rw [hlimit]
      exact UInt64.toNat_ofNat_of_lt' (lt_of_le_of_lt hle (by decide))
    refine lt_fdBufSize_of_formula hfiles (Nat.succ_pos _) hle ?_ h
    -- a limit that may not be raised is read as a larger one
    exact hforce ▸ MountEnv.softLimit_le hread
  have hi : s.SlotsInv := by
    refine hs.invariant (I := Session.SlotsInv) ?_ fun _ _ _ _ hi hstep =>
      Session.step_slotsInv hi hstep
    intro s₀ h₀
    have hsize₀ : s₀.daemon.config.fdBufSize = s.daemon.config.fdBufSize := by
      rw [h₀.1, (Session.sameLayout_of_reachable hs).fdBufSize]
    refine ⟨(hm.fresh h₀).inv, by rw [hsize₀]; omega, by simp [h₀.2.1], ?_⟩
    exact fun k hk hne => absurd ((hm.fresh h₀).table k hk) hne
  exact ret_of_free_slot hop (hi.exists_free_slot (by omega)) ho hok

end mounted

/-- The limit the HOWTO gives for one file on two replicas. -/
def tightMount : MountEnv :=
  { plainMount with
    rlimit := { cur := UInt64.ofNat (2 * 1 * 2 + 6), max := UInt64.ofNat (2 * 1 * 2 + 6) } }

/-- One file open. -/
def oneOpen : List (Request × Env (maxReplica listAB)) :=
  [(.open fileF 2, plainEnv fun i _ => .ok { ret := 5 + i.val })]

/-- With one file open on `/a=:/b` under that limit, a `create` still finds a slot. -/
theorem limit_formula_suffices_listAB :
    ∃ c : Config (maxReplica listAB), doMount tightMount 0 0 listAB (fun _ => none) = some c ∧
      ∃ s, Machine.runFrom Session.step { daemon := { config := c, creds := .ofUser 0 0 } }
          oneOpen = some s ∧ s.live.length = 1 ∧
        ∃ o, handle (.create fileF 0o644) (plainEnv fun i _ => .ok { ret := 7 + i.val })
          s.daemon = some o ∧ o.response.ret = 0 := by
  obtain ⟨c, hc, s, hrun, hlen, hany⟩ :
      ∃ c : Config (maxReplica listAB), doMount tightMount 0 0 listAB (fun _ => none) = some c ∧
        ∃ s, Machine.runFrom Session.step { daemon := { config := c, creds := .ofUser 0 0 } }
            oneOpen = some s ∧ s.live.length = 1 ∧
          (handle (.create fileF 0o644) (plainEnv fun i _ => .ok { ret := 7 + i.val })
            s.daemon).any (·.trace.any Event.isOk) = true :=
    ⟨_, rfl, _, rfl, rfl, by decide +kernel⟩
  obtain ⟨o, ho, hok⟩ := (Option.any_eq_true _ _).mp hany
  have hs : Machine.ReachableBy Session.step (fun _ _ => True) (Session.StartsOn c) s :=
    ⟨_, _, ⟨rfl, rfl, rfl⟩, .of_forall (fun _ _ => trivial) _ _, hrun⟩
  exact ⟨c, hc, s, hrun, hlen, o, ho,
    (limit_formula_suffices (le_refl 1) (by decide) rfl hc hs hlen.le rfl ho
      (exists_callOk_of_any hok)).1⟩

end ChironFs
