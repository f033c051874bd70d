import ChironFs.Model.Contents
import ChironFs.Model.Sample
import ChironFs.Spec.Session
import ChironFs.Spec.Tries

/-!
# Short writes

A `pwrite` that does not fail stores some prefix of the buffer and returns its length.

* `Wrote`: the contents of the replicas' files before and after a request.
* `NoSilentDivergence`: what `write` says was written was written by every replica left enabled.
* `diverges_shortWrite`: it returns the largest count and disables nobody for a smaller one.
* `noSilentDivergence_iff`: for a live handle, it is right exactly when all counts are equal.
-/

namespace ChironFs

open Posix Replication

variable {n : ℕ}

/-- What the `pwrite` calls of a request did to the replicas' files: a successful one stored the
prefix whose length it returned, anything else stored nothing. -/
structure Wrote (o : Outcome n) (before after : Fin n → Content) : Prop where
  ok : ∀ cr i fd buf offset r, .call cr i (.pwrite fd buf offset) (.ok r) ∈ o.trace →
    after i = storePrefix (before i) buf offset r.ret
  failed : ∀ i, ¬ o.CallOk i → after i = before i

/-- If `write` returns a count, every replica still enabled holds that many bytes of the buffer at
the offset, so they agree there. -/
def NoSilentDivergence (buf : List UInt8) (offset : ℤ) (o : Outcome n) : Prop :=
  ∀ before after, Wrote o before after → 0 ≤ o.response.ret →
    (∀ i, o.daemon.config.enabled i → ∀ k : ℕ, k < o.response.ret →
      after i (offset + k) = buf[k]?) ∧
    ∀ i j, o.daemon.config.enabled i → o.daemon.config.enabled j → ∀ k : ℕ, k < o.response.ret →
      after i (offset + k) = after j (offset + k)

/-- Every enabled replica whose `pwrite` does not fail stores the same number of bytes. -/
def SameCounts (env : Env n) (d : Daemon n) (fd : Fin n → ℤ) (buf : List UInt8) (offset : ℤ) :
    Prop :=
  ∀ i j, d.config.enabled i → d.config.enabled j → ∀ r r',
    env.call (dropPriv env d.creds).creds i (.pwrite (fd i) buf offset) = .ok r →
    env.call (dropPriv env d.creds).creds j (.pwrite (fd j) buf offset) = .ok r' → r.ret = r'.ret

/-! ## `write` through a live handle -/

section live

variable {s : Session n} {x : Handle n} {env : Env n} {buf : List UInt8} {offset : ℤ}

/-- `write` through a live handle calls `pwrite` on every enabled replica, with the handle's
descriptor. -/
theorem Session.Inv.write_ask (hi : s.Inv) (hx : x ∈ s.live) (i : Fin n) :
    (Request.write x.fh buf offset).ask env s.daemon.config i =
      if s.daemon.config.enabled i then some (.pwrite (x.fd i) buf offset) else none := by
  split_ifs with hen
  · have hge := (hi.opened_fd x hx i _ (hi.covers x hx i hen)).2
    rw [Request.ask, Config.guarded_of_enabled hen]
    simp [Request.call, hi.slot x hx, writeCall, not_lt.mpr hge]
  · exact Config.guarded_of_disabled (Config.not_enabled_iff.mp hen) _

/-- The account of a `write` through a live handle. -/
theorem Session.Inv.write_served (hi : s.Inv) (hx : x ∈ s.live) (h₀ : env.calloc 0 = true) :
    Served (.write x.fh buf offset) env s.daemon (List.finRange n)
      (chironWrite x.fh buf offset env s.daemon) := by
  have he : (Request.write x.fh buf offset).early env s.daemon.config = none := by
    simp [Request.early, hi.slot x hx, h₀]
  obtain ⟨o, ho, h⟩ := handle_served_every rfl rfl rfl he
  obtain rfl := Option.some.inj ho
  exact h

/-- The value of a `write` that somebody did: the largest count. -/
theorem Session.Inv.write_ret (hi : s.Inv) (hx : x ∈ s.live) (h₀ : env.calloc 0 = true)
    (hs : ((Request.write x.fh buf offset).round env s.daemon).Succeeded) :
    (∀ i r, (Request.write x.fh buf offset).round env s.daemon i = .ok r →
        (r.ret : ℤ) ≤ (chironWrite x.fh buf offset env s.daemon).response.ret) ∧
      ∃ i r, (Request.write x.fh buf offset).round env s.daemon i = .ok r ∧
        (chironWrite x.fh buf offset env s.daemon).response.ret = r.ret := by
  have hround : (fun i => attempt env (dropPriv env s.daemon.creds).creds i
      (s.daemon.config.guarded (writeCall x.fd buf offset) i)) =
      (Request.write x.fh buf offset).round env s.daemon := by
    rw [Request.round_of_not_opens rfl]
    funext i
    have hcall : (Request.write x.fh buf offset).call env s.daemon.config =
        writeCall x.fd buf offset := by
      funext j
      simp [Request.call, hi.slot x hx]
    rw [Request.ask, hcall]
  have hret : (chironWrite x.fh buf offset env s.daemon).response.ret =
      maxCount ((Request.write x.fh buf offset).round env s.daemon) (List.finRange n) 0 := by
    rw [chironWrite_eq buf offset (hi.slot x hx) h₀]
    simp only [hround, if_pos hs]
    rfl
  rw [hret]
  exact ⟨fun i r hr => (maxCount_spec _ _ 0).2.1 i (List.mem_finRange i) r hr,
    maxCount_of_succeeded hs⟩

/-- A replica's `pwrite` succeeds in a `write` through a live handle. -/
theorem Session.Inv.write_round_eq_ok_iff (hi : s.Inv) (hx : x ∈ s.live) {i : Fin n} {r : Reply} :
    (Request.write x.fh buf offset).round env s.daemon i = .ok r ↔
      s.daemon.config.enabled i ∧ env.call (dropPriv env s.daemon.creds).creds i
        (.pwrite (x.fd i) buf offset) = .ok r := by
  rw [Request.round_eq_ok_iff, hi.write_ask hx]
  by_cases hen : s.daemon.config.enabled i <;> simp [hen]

/-- The `pwrite` calls of the request are of its buffer, at its offset. -/
theorem Session.Inv.of_mem_write_trace (hi : s.Inv) (hx : x ∈ s.live) (h₀ : env.calloc 0 = true)
    {cr : Creds} {i : Fin n} {fd : ℤ} {buf' : List UInt8} {offset' : ℤ} {r : Reply}
    (hmem : .call cr i (.pwrite fd buf' offset') (.ok r) ∈
      (chironWrite x.fh buf offset env s.daemon).trace) :
    buf' = buf ∧ offset' = offset ∧
      (Request.write x.fh buf offset).round env s.daemon i = .ok r := by
  obtain ⟨-, -, hask, hr⟩ := (hi.write_served hx h₀).call_mem_iff.mp hmem
  have heq := hask
  rw [hi.write_ask hx] at heq
  split_ifs at heq
  cases heq
  exact ⟨rfl, rfl, Request.round_eq_ok_iff.mpr ⟨_, hask, hr.symm⟩⟩

/-- A replica whose `pwrite` succeeded stays enabled. -/
theorem Session.Inv.enabled_of_write_ok (hi : s.Inv) (hx : x ∈ s.live) (h₀ : env.calloc 0 = true)
    {i : Fin n} {r : Reply}
    (hr : (Request.write x.fh buf offset).round env s.daemon i = .ok r) :
    (chironWrite x.fh buf offset env s.daemon).daemon.config.enabled i := by
  by_contra hdis
  have hen := ((hi.write_round_eq_ok_iff hx).mp hr).1
  have hdrop := (((hi.write_served hx h₀).newlyDisabled_iff i).mp ⟨hen, hdis⟩).2
  rw [Request.roundOn_finRange] at hdrop
  exact Round.not_drops_of_ok (by rw [hr]; rfl) hdrop

/-- When `write` returns a count, a replica still enabled is one whose `pwrite` succeeded. -/
theorem Session.Inv.write_ok_of_enabled (hi : s.Inv) (hx : x ∈ s.live) (h₀ : env.calloc 0 = true)
    (hret : 0 ≤ (chironWrite x.fh buf offset env s.daemon).response.ret) {i : Fin n}
    (hen : (chironWrite x.fh buf offset env s.daemon).daemon.config.enabled i) :
    ∃ r, (Request.write x.fh buf offset).round env s.daemon i = .ok r := by
  have h : Served (.write x.fh buf offset) env s.daemon _ _ := hi.write_served hx h₀
  have hasked : ∀ j, s.daemon.config.enabled j →
      (Request.write x.fh buf offset).round env s.daemon j ≠ .skipped := by
    intro j hj hskip
    have hnone := (Request.round_eq_skipped_iff.mp hskip).1
    rw [hi.write_ask hx, if_pos hj] at hnone
    cases hnone
  have hs : ((Request.write x.fh buf offset).round env s.daemon).Succeeded := by
    by_contra hns
    obtain ⟨j, hj⟩ := hi.enabled
    rw [h.failed (by rwa [Request.roundOn_finRange]), Request.roundOn_finRange] at hret
    exact absurd (firstError_neg_of_not_succeeded hns (hasked j hj)) (not_lt.mpr hret)
  have hen₀ : s.daemon.config.enabled i := enabled_of_enabled (q := .write x.fh buf offset) rfl hen
  cases hR : (Request.write x.fh buf offset).round env s.daemon i with
  | skipped => exact absurd hR (hasked i hen₀)
  | ok r => exact ⟨r, rfl⟩
  | failed e =>
      have hdrop : ((Request.write x.fh buf offset).roundOn env s.daemon
          (List.finRange n)).Drops i := by
        rw [Request.roundOn_finRange]
        exact Round.drops_of_eq_failed hs hR
      exact absurd hen ((h.newlyDisabled_iff i).mpr ⟨hen₀, hdrop⟩).2

/-- With equal counts `write` says the truth. -/
theorem Session.Inv.noSilentDivergence_of_sameCounts (hi : s.Inv) (hx : x ∈ s.live)
    (h₀ : env.calloc 0 = true) (hsame : SameCounts env s.daemon x.fd buf offset) :
    NoSilentDivergence buf offset (chironWrite x.fh buf offset env s.daemon) := by
  intro before after hwrote hret
  have hstored : ∀ i, (chironWrite x.fh buf offset env s.daemon).daemon.config.enabled i →
      ∀ k : ℕ, k < (chironWrite x.fh buf offset env s.daemon).response.ret →
        after i (offset + k) = buf[k]? := by
    intro i hen k hk
    obtain ⟨r, hr⟩ := hi.write_ok_of_enabled hx h₀ hret hen
    obtain ⟨-, j, r', hr', hret'⟩ := hi.write_ret hx h₀ (Round.succeeded_of_eq_ok hr)
    obtain ⟨hen₀, hcall⟩ := (hi.write_round_eq_ok_iff hx).mp hr
    obtain ⟨henj, hcall'⟩ := (hi.write_round_eq_ok_iff hx).mp hr'
    have heq := hsame i j hen₀ henj r r' hcall hcall'
    have hmem : .call (dropPriv env s.daemon.creds).creds i (.pwrite (x.fd i) buf offset)
        (.ok r) ∈ (chironWrite x.fh buf offset env s.daemon).trace := by
      refine (hi.write_served hx h₀).call_mem_iff.mpr ⟨List.mem_finRange i, rfl, ?_, hcall.symm⟩
      rw [hi.write_ask hx, if_pos hen₀]
    rw [hwrote.ok _ _ _ _ _ _ hmem]
    exact storePrefix_of_lt _ _ _ (by omega)
  refine ⟨hstored, ?_⟩
  intro i j heni henj k hk
  rw [hstored i heni k hk, hstored j henj k hk]

/-- The files after a `write`, when they were empty before. -/
def writtenFiles (env : Env n) (d : Daemon n) (fh : ℕ) (buf : List UInt8) (offset : ℤ) :
    Fin n → Content := fun i =>
  match (Request.write fh buf offset).round env d i with
  | .ok r => storePrefix (fun _ => none) buf offset r.ret
  | _ => fun _ => none

theorem Session.Inv.wrote_writtenFiles (hi : s.Inv) (hx : x ∈ s.live) (h₀ : env.calloc 0 = true) :
    Wrote (chironWrite x.fh buf offset env s.daemon) (fun _ _ => none)
      (writtenFiles env s.daemon x.fh buf offset) := by
  constructor
  · intro cr i fd buf' offset' r hmem
    obtain ⟨rfl, rfl, hr⟩ := hi.of_mem_write_trace hx h₀ hmem
    simp only [writtenFiles, hr]
  · intro i hno
    cases hR : (Request.write x.fh buf offset).round env s.daemon i with
    | ok r =>
        rw [← Request.roundOn_finRange] at hR
        obtain ⟨cr, c, hmem⟩ := (hi.write_served hx h₀).roundOn_eq_ok_iff.mp hR
        exact absurd ⟨cr, c, r, hmem⟩ hno
    | _ => simp only [writtenFiles, hR]

/-- A replica that stored less than another one lacks the byte behind its prefix, and stays
enabled. -/
theorem Session.Inv.not_lt_of_noSilentDivergence (hi : s.Inv) (hx : x ∈ s.live)
    (h₀ : env.calloc 0 = true)
    (hposix : ∀ cr i fd r, env.call cr i (.pwrite fd buf offset) = .ok r → r.ret ≤ buf.length)
    (hno : NoSilentDivergence buf offset (chironWrite x.fh buf offset env s.daemon))
    {i j : Fin n} {r r' : Reply}
    (hr : (Request.write x.fh buf offset).round env s.daemon i = .ok r)
    (hr' : (Request.write x.fh buf offset).round env s.daemon j = .ok r') :
    ¬ r.ret < r'.ret := by
  intro hlt
  have hmax := (hi.write_ret hx h₀ (Round.succeeded_of_eq_ok hr)).1 j r' hr'
  have hlen := hposix _ _ _ _ ((hi.write_round_eq_ok_iff hx).mp hr').2
  have hbyte := (hno _ _ (hi.wrote_writtenFiles hx h₀) (by omega)).1 i
    (hi.enabled_of_write_ok hx h₀ hr) r.ret (by omega)
  simp only [writtenFiles, hr, storePrefix_self] at hbyte
  rw [List.getElem?_eq_getElem (by omega)] at hbyte
  cases hbyte

end live

/-! ## The rule and its failure -/

/-- Open `/f` on both replicas. -/
def openOnce : List (Request × Env 2) :=
  [(.open fileF 0, plainEnv fun i _ => .ok { ret := 5 + i.val })]

/-- The first replica stores one byte, the second two. -/
def shortOnFirst : Env 2 := plainEnv fun i _ => .ok { ret := 1 + i.val }

/-- Two bytes are written, the first replica stores one of them: `write` returns `2` and leaves both
replicas enabled. -/
theorem diverges_shortWrite :
    ∃ s, Machine.runFrom Session.step rootSession openOnce = some s ∧ ∃ x ∈ s.live,
      (chironWrite x.fh [1, 2] 0 shortOnFirst s.daemon).response.ret = 2 ∧
      (∀ i, (chironWrite x.fh [1, 2] 0 shortOnFirst s.daemon).daemon.config.enabled i) ∧
      ¬ NoSilentDivergence [1, 2] 0 (chironWrite x.fh [1, 2] 0 shortOnFirst s.daemon) := by
  obtain ⟨s, hrun⟩ : ∃ s, Machine.runFrom Session.step rootSession openOnce = some s := ⟨_, rfl⟩
  have hi : s.Inv := Session.inv_of_reachable (P := fun _ _ => True)
    ⟨rootSession, openOnce, ⟨rfl, rfl, ⟨0, rfl⟩, fun _ _ => rfl⟩,
      Machine.Meets.of_forall (fun _ _ => trivial) _ _, hrun⟩
  obtain rfl := Option.some.inj hrun
  refine ⟨_, rfl, _, List.mem_singleton.mpr rfl, by decide, by decide, ?_⟩
  intro hno
  have hposix : ∀ cr i fd r, shortOnFirst.call cr i (.pwrite fd [1, 2] 0) = .ok r →
      r.ret ≤ ([1, 2] : List UInt8).length := by
    rintro cr i fd r hr
    obtain rfl := Except.ok.inj hr
    have := i.isLt
    simp
    omega
  exact hi.not_lt_of_noSilentDivergence (List.mem_singleton.mpr rfl) rfl hposix hno
    (show Request.round _ _ _ 0 = .ok { ret := 1 } from rfl)
    (show Request.round _ _ _ 1 = .ok { ret := 2 } from rfl) (by decide)

/-- **When `write` says the truth.** In every reachable state, for every live handle, buffer and
offset and every outcome of the `pwrite` calls: the replicas left enabled have stored what `write`
returns exactly when `write` could not get its error list or the enabled replicas whose `pwrite`
succeeds store the same number of bytes. -/
theorem noSilentDivergence_iff {P : Session n → Request × Env n → Prop} {s : Session n}
    {x : Handle n} {env : Env n} {buf : List UInt8} {offset : ℤ}
    (hs : Machine.ReachableBy Session.step P Session.Fresh s) (hx : x ∈ s.live)
    (hposix : ∀ cr i fd r, env.call cr i (.pwrite fd buf offset) = .ok r → r.ret ≤ buf.length) :
    NoSilentDivergence buf offset (chironWrite x.fh buf offset env s.daemon) ↔
      (env.calloc 0 = false ∨ SameCounts env s.daemon x.fd buf offset) := by
  have hi := Session.inv_of_reachable hs
  cases h₀ : env.calloc 0 with
  | false =>
      have hearly : (Request.write x.fh buf offset).early env s.daemon.config = some ENOMEM := by
        simp [Request.early, hi.slot x hx, h₀]
      have ho := Option.some.inj (handle_early (q := .write x.fh buf offset) hearly)
      refine iff_of_true ?_ (Or.inl rfl)
      intro before after _ hret
      rw [ho] at hret
      exact absurd ENOMEM.neg_lt_zero (not_lt.mpr hret)
  | true =>
      simp only [Bool.true_eq_false, false_or]
      refine ⟨?_, hi.noSilentDivergence_of_sameCounts hx h₀⟩
      intro hno i j hen hen' r r' hr hr'
      have hri := (hi.write_round_eq_ok_iff hx).mpr ⟨hen, hr⟩
      have hrj := (hi.write_round_eq_ok_iff hx).mpr ⟨hen', hr'⟩
      exact le_antisymm (not_lt.mp (hi.not_lt_of_noSilentDivergence hx h₀ hposix hno hrj hri))
        (not_lt.mp (hi.not_lt_of_noSilentDivergence hx h₀ hposix hno hri hrj))

/-- Both replicas store one byte of two. -/
theorem noSilentDivergence_iff_openOnce :
    ∃ s, Machine.runFrom Session.step rootSession openOnce = some s ∧ ∃ x ∈ s.live,
      NoSilentDivergence [1, 2] 0
        (chironWrite x.fh [1, 2] 0 (plainEnv fun _ _ => .ok { ret := 1 }) s.daemon) := by
  obtain ⟨s, hrun⟩ : ∃ s, Machine.runFrom Session.step rootSession openOnce = some s := ⟨_, rfl⟩
  obtain ⟨x, hx⟩ : ∃ x, x ∈ s.live := by
    obtain rfl := Option.some.inj hrun
    exact ⟨_, List.mem_singleton.mpr rfl⟩
  have hreach : Machine.ReachableBy Session.step (fun _ _ => True) Session.Fresh s :=
    ⟨rootSession, openOnce, ⟨rfl, rfl, ⟨0, rfl⟩, fun _ _ => rfl⟩,
      Machine.Meets.of_forall (fun _ _ => trivial) _ _, hrun⟩
  refine ⟨s, hrun, x, hx, (noSilentDivergence_iff hreach hx ?_).mpr
    (Or.inr ?_)⟩
  · intro cr i fd r hr
    obtain rfl := Except.ok.inj hr
    decide
  · intro i j _ _ r r' hr hr'
    obtain rfl := Except.ok.inj hr
    obtain rfl := Except.ok.inj hr'
    rfl

end ChironFs
