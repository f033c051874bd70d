import ChironFs.Model.Sample
import ChironFs.Spec.Handles
import ChironFs.Spec.Stores

/-!
# A `create` that fails

`creat` creates the file, or cuts it to nothing, before the daemon looks for a slot. When there is
none, the descriptors are closed again; the files and the disabled flags stay as they have become.

* `Tree`, `treeEffect`: the files of a replica, and what `creat` does to them.
* `Unchanged`: what a failed `create` should leave.
* `failedCreate_fullTable`: with a full table the files change, and the request fails.
* `failedCreate_iff`: when a `create` that fails changes nothing.
-/

namespace ChironFs

open Posix Replication

variable {n : ℕ}

/-! ## The files of the replicas -/

/-- The files of a replica: contents by name. -/
abbrev Tree := Path → Option (List UInt8)

/-- `creat` creates its file or cuts it to nothing; a call that fails changes nothing. -/
def treeEffect : Effect Tree where
  call
    | _, .creat fname _, .ok _, t => Function.update t fname (some [])
    | _, _, _, t => t

/-! ## What a failed `create` should leave -/

/-- The request changed nothing: not the files of the enabled replicas, not the handle table, not a
disabled flag; and it closed what it opened. -/
structure Unchanged (w : Fin n → Tree) (d : Daemon n) (o : Outcome n) : Prop where
  trees : ∀ i, d.config.enabled i → storeAfter treeEffect i o.trace (w i) = w i
  table : o.daemon.config.tabFd = d.config.tabFd
  flags : ∀ i, (o.daemon.config.replicas i).disabled = (d.config.replicas i).disabled
  closed : (openedFds o.trace).Perm (closedFds o.trace)

/-- There is nothing to undo when a `create` finds no slot: it does not get so far, for want of
memory or because no `creat` succeeds; or it finds a free cell; or on every enabled replica the file
was there and empty, and its `creat` succeeds. -/
def CreateHarmless (w : Fin n → Tree) (path : Path) (mode : ℕ) (env : Env n) (d : Daemon n) : Prop :=
  let R := (Request.create path mode).round env d
  let size := d.config.fdBufSize
  env.calloc 0 = false ∨ env.calloc 1 = false ∨ ¬ R.Succeeded ∨
    (∃ p, (roundFds R).head? = some p ∧
      ∃ k < max size.toNat (hashFd size (UInt32.ofNat p.2.toNat)).toNat, d.config.tabFd k = none) ∨
    ∀ i, d.config.enabled i → (R i).isOk = true ∧
      ∃ fname, env.xlate d.config path i = some fname ∧ w i fname = some []

/-- Two replicas whose table of eight slots is full. -/
def fullDaemon : Daemon 2 :=
  { rootDaemon with config := { twoReplicas with tabFd := fun _ => some fun _ => 3 } }

/-- The file `/a/f` holds a byte; there is no file `/b/f`. -/
def onlyOnFirst : Fin 2 → Tree := fun _ p => if p = [47, 97, 47, 102] then some [120] else none

/-- With a full table, `create` fails; it has cut `/a/f` to nothing and made `/b/f`. -/
theorem failedCreate_fullTable :
    let o := chironCreate fileF 0o644 (plainEnv fun _ _ => .ok { ret := 5 }) fullDaemon
    o.response.ret = EMFILE.neg ∧
      storeAfter treeEffect 0 o.trace (onlyOnFirst 0) [47, 97, 47, 102] = some [] ∧
      storeAfter treeEffect 1 o.trace (onlyOnFirst 1) [47, 98, 47, 102] = some [] ∧
        ¬ (o.response.ret < 0 → Unchanged onlyOnFirst fullDaemon o) := by
  intro o
  have hret : o.response.ret = EMFILE.neg := by decide +kernel
  have htree : storeAfter treeEffect 0 o.trace (onlyOnFirst 0) [47, 97, 47, 102] = some [] := by
    decide +kernel
  refine ⟨hret, htree, by decide +kernel, fun h => ?_⟩
  have hsame := (h (by rw [hret]; exact EMFILE.neg_lt_zero)).trees 0 rfl
  rw [hsame] at htree
  cases htree

/-! ## When nothing changes -/

section create

variable {w : Fin n → Tree} {path : Path} {mode : ℕ} {env : Env n} {d : Daemon n}

/-- What a `create` does to the files of a replica: nothing, if it does not succeed there. -/
theorem tree_of_create (t : Tree) (i : Fin n) :
    ((Request.create path mode).round env d i).isOk = false ∧
        storeAfter treeEffect i (Request.openOutcome env d (.create path mode)).trace t = t ∨
      ((Request.create path mode).round env d i).isOk = true ∧
        ∃ fname, env.xlate d.config path i = some fname ∧
          storeAfter treeEffect i (Request.openOutcome env d (.create path mode)).trace t =
            Function.update t fname (some []) := by
  have hclose : ∀ t, storeAfter treeEffect i (Request.closed env d (.create path mode)) t = t := by
    intro t
    refine storeAfter_eq_self fun ev hev _ => ?_
    obtain ⟨_, -, -, rfl⟩ := mem_closeOpened hev
    rfl
  have htree : storeAfter treeEffect i (Request.openOutcome env d (.create path mode)).trace t =
      storeAfter treeEffect i ((Request.create path mode).events env d i) t := by
    rw [storeAfter_openOutcome rfl]
    split_ifs
    · exact hclose _
    · rfl
  rw [htree, Request.events_of_opens rfl, storeAfter_attemptEvents]
  cases hask : (Request.create path mode).ask env d.config i with
  | none =>
      have hno : ((Request.create path mode).round env d i).isOk = false := by
        rw [← Bool.not_eq_true, Fate.isOk_iff]
        rintro ⟨r, hr⟩
        obtain ⟨c, hc, -⟩ := Request.round_eq_ok_iff.mp hr
        rw [hask] at hc
        cases hc
      exact Or.inl ⟨hno, rfl⟩
  | some c =>
      obtain ⟨fname, hp, rfl⟩ := Option.map_eq_some_iff.mp (Request.ask_eq_some_iff.mp hask).2
      rw [Option.elim_some]
      cases henv : env.call (dropPriv env d.creds).creds i (.creat fname mode) with
      | ok r =>
          rw [Request.round_eq_ok_iff.mpr ⟨_, hask, henv⟩]
          exact Or.inr ⟨rfl, fname, hp, rfl⟩
      | error e =>
          rw [Request.round_eq_failed_iff.mpr (Or.inl ⟨_, hask, henv⟩)]
          exact Or.inl ⟨rfl, rfl⟩

/-- A `create` that stores nothing leaves the table and closes what it opened. -/
theorem closed_of_failed (h : ((Request.create path mode).round env d).Succeeded →
      (Request.store env d (.create path mode)).1 < 0) :
    (Request.openOutcome env d (.create path mode)).daemon.config.tabFd = d.config.tabFd ∧
      openedFds (Request.openOutcome env d (.create path mode)).trace =
        closedFds (Request.openOutcome env d (.create path mode)).trace := by
  rw [openedFds_openOutcome env d rfl]
  rcases openOutcome_cases env d (q := .create path mode) rfl with
    ⟨-, -, htab, hcl⟩ | ⟨-, -, htab, hcl⟩ | ⟨hs, hzero, -⟩
  · exact ⟨htab, hcl.symm⟩
  · exact ⟨htab, hcl.symm⟩
  · rw [ret_openOutcome hs, if_pos (h hs)] at hzero
    exact absurd hzero EMFILE.neg_ne_zero

/-- A `create` that succeeds nowhere changes nothing. -/
theorem unchanged_of_not_succeeded (hs : ¬ ((Request.create path mode).round env d).Succeeded) :
    Unchanged w d (Request.openOutcome env d (.create path mode)) := by
  have hsv : Served (.create path mode) env d (List.finRange n) _ := served_opens rfl
  have hR := Request.roundOn_finRange env d (.create path mode)
  obtain ⟨htab, hcl⟩ := closed_of_failed fun h => absurd h hs
  refine ⟨fun i _ => ?_, htab, fun i => ?_, List.Perm.of_eq hcl⟩
  · rcases tree_of_create (w i) i with ⟨-, htree⟩ | ⟨hok, -⟩
    · exact htree
    · exact absurd ⟨i, hok⟩ hs
  · rw [Bool.eq_iff_iff, hsv.disabled_iff, hR,
      or_iff_left (Round.not_drops_of_not_succeeded hs i)]

/-- A `create` that reaches its end without a slot changes nothing exactly when every enabled
replica had the file, empty, and gave it. -/
theorem unchanged_iff_of_full (hs : ((Request.create path mode).round env d).Succeeded)
    (hfull : (Request.store env d (.create path mode)).1 < 0) :
    Unchanged w d (Request.openOutcome env d (.create path mode)) ↔
      ∀ i, d.config.enabled i → ((Request.create path mode).round env d i).isOk = true ∧
        ∃ fname, env.xlate d.config path i = some fname ∧ w i fname = some [] := by
  have hsv : Served (.create path mode) env d (List.finRange n) _ := served_opens rfl
  have hR := Request.roundOn_finRange env d (.create path mode)
  constructor
  · intro hun i hen
    have hok : ((Request.create path mode).round env d i).isOk = true := by
      cases hRi : (Request.create path mode).round env d i with
      | ok r => rfl
      | skipped => exact absurd hen ((Request.round_eq_skipped_iff.mp hRi).2 rfl)
      | failed e =>
          have hdis := (hsv.disabled_iff i).mpr
            (Or.inr (by rw [hR]; exact Round.drops_of_eq_failed hs hRi))
          rw [hun.flags i, hen] at hdis
          cases hdis
    refine ⟨hok, ?_⟩
    rcases tree_of_create (w i) i with ⟨hno, -⟩ | ⟨-, fname, hp, htree⟩
    · rw [hok] at hno
      cases hno
    · refine ⟨fname, hp, ?_⟩
      rw [← hun.trees i hen, htree, Function.update_self]
  · intro hall
    obtain ⟨htab, hcl⟩ := closed_of_failed fun _ => hfull
    refine ⟨fun i hen => ?_, htab, fun i => ?_, List.Perm.of_eq hcl⟩
    · obtain ⟨-, fname, hp, hw⟩ := hall i hen
      rcases tree_of_create (w i) i with ⟨-, htree⟩ | ⟨-, fname', hp', htree⟩
      · exact htree
      · obtain rfl := Option.some.inj (hp.symm.trans hp')
        rw [htree, ← hw, Function.update_eq_self]
    · rw [Bool.eq_iff_iff, hsv.disabled_iff, or_iff_left]
      rintro ⟨-, hfail⟩
      rw [hR] at hfail
      by_cases hen : d.config.enabled i
      · rw [Fate.isFailed_eq_false_of_isOk (hall i hen).1] at hfail
        cases hfail
      · rw [Request.covers_round env d _ i (Config.not_enabled_iff.mp hen)] at hfail
        cases hfail

/-- **When a failed `create` changes nothing.** -/
theorem failedCreate_iff (w : Fin n → Tree) (path : Path) (mode : ℕ) (env : Env n) (d : Daemon n) :
    ((chironCreate path mode env d).response.ret < 0 →
        Unchanged w d (chironCreate path mode env d)) ↔ CreateHarmless w path mode env d := by
  have ho : handle (.create path mode) env d = some (chironCreate path mode env d) := rfl
  unfold CreateHarmless
  simp only
  by_cases hcalloc : env.calloc 0 = false ∨ env.calloc 1 = false
  · have he : (Request.create path mode).early env d.config = some ENOMEM := if_pos hcalloc
    obtain heq := Option.some.inj (ho.symm.trans (handle_early he))
    refine iff_of_true (fun _ => ?_) (hcalloc.imp_right Or.inl)
    rw [heq]
    refine ⟨fun i _ => storeAfter_earlyOutcome _ _, rfl, fun _ => rfl, ?_⟩
    rw [openedFds_earlyOutcome, closedFds_earlyOutcome]
  · have he : (Request.create path mode).early env d.config = none := if_neg hcalloc
    obtain ⟨h₀, h₁⟩ := not_or.mp hcalloc
    have heq := Option.some.inj (ho.symm.trans (handle_opens rfl he))
    rw [heq, or_iff_right h₀, or_iff_right h₁]
    by_cases hs : ((Request.create path mode).round env d).Succeeded
    · rw [or_iff_right (not_not.mpr hs), ret_openOutcome hs, ← store_nonneg_iff rfl]
      split_ifs with hfull
      · rw [or_iff_right (not_le.mpr hfull), ← unchanged_iff_of_full hs hfull]
        exact forall_prop_of_true EMFILE.neg_lt_zero
      · exact iff_of_true (fun h => absurd h (lt_irrefl 0)) (Or.inl (not_lt.mp hfull))
    · exact iff_of_true (fun _ => unchanged_of_not_succeeded hs) (Or.inl hs)

end create

end ChironFs
