import ChironFs.Model.Sample
import ChironFs.Spec.Identity

/-!
# `access` and `open`

`drop_priv` changes the effective ids, and `access` checks the real ones: under a daemon of the
superuser every `access` that reaches a replica passes, whoever asks.

* `Env.ChecksModes`: the replicas decide `access` and `open` of a file by its owner, group and mode.
* `access_passes`: a caller without rights gets `0` from `access` and is refused by `open`.
* `ret_access_of_root`: every `access` that reaches a replica returns `0`.
* `access_agrees_iff`: the two agree exactly where the mode grants the caller what it asks for.
-/

namespace ChironFs

open Posix Replication

variable {n : ℕ} {env : Env n} {d : Daemon n} {path : Path} {groups : List ℕ} {node : Fin n → Inode}

/-- The file at `path` exists on every replica: `access` fails, and `open` is refused, exactly for
want of rights. -/
structure Env.ChecksModes (env : Env n) (groups : List ℕ) (c : Config n) (path : Path)
    (node : Fin n → Inode) : Prop where
  access : ∀ cr i fname mask, env.xlate c path i = some fname →
    ((env.call cr i (.access fname mask)).isOk = true ↔
      (Check.access (node i) mask).passes ((Call.access fname mask).subject cr groups) = true)
  «open» : ∀ cr i fname flags, env.xlate c path i = some fname →
    (env.call cr i (.open fname flags none) ≠ .error EACCES ↔
      (Check.access (node i) (openMask flags)).passes
        ((Call.open fname flags none).subject cr groups) = true)

/-- Nobody but the superuser may read the file. -/
def privateFile : File := ({ owner := 0, group := 0, mode := 0o600 }, [88])

/-- User `1000` asks for it. -/
def privateEnv : Env 2 := (fileHost.setting []).on fun _ => privateFile

/-- User `1000` may not read the file. `access` says it may, `open` refuses it. -/
theorem access_passes :
    ((chironAccess fileF R_OK privateEnv rootDaemon).map fun o => o.response.ret) = some 0 ∧
      (chironOpen fileF 0 privateEnv rootDaemon).response.ret = EACCES.neg := ⟨rfl, rfl⟩

section calls

variable {q : Request} {o : Outcome n} {cr : Creds} {i : Fin n} {c : Call}
  {res : Except Errno Reply}

/-- A call a request made: whose it is and what it was answered. -/
theorem call_of_mem_trace (ho : handle q env d = some o) (hcall : .call cr i c res ∈ o.trace) :
    ∃ tried, Served q env d tried o ∧ i ∈ tried ∧ cr = (dropPriv env d.creds).creds ∧
      q.ask env d.config i = some c ∧ res = env.call cr i c := by
  obtain ⟨tried, h⟩ : ∃ tried, Served q env d tried o :=
    by_contra fun h => (handle_no_round ho h).1 i ⟨cr, c, res, hcall⟩
  obtain ⟨hi, rfl, hask, hres⟩ := h.call_mem_iff.mp hcall
  exact ⟨tried, h, hi, rfl, hask, hres⟩

/-- **Every `access` under a daemon of the superuser passes**, once it reaches a replica. -/
theorem ret_access_of_root (hruid : d.creds.ruid = 0)
    (hmodes : env.ChecksModes groups d.config path node) {mask : ℕ}
    (ho : chironAccess path mask env d = some o) (hcall : .call cr i c res ∈ o.trace) :
    o.response.ret = 0 := by
  obtain ⟨tried, hsv, hi, rfl, hask, -⟩ :=
    call_of_mem_trace (q := .access path mask) ho hcall
  obtain ⟨fname, hname, rfl⟩ := Option.map_eq_some_iff.mp (Request.ask_eq_some_iff.mp hask).2
  have hok := (hmodes.access (dropPriv env d.creds).creds i fname mask hname).mpr
    (Check.passes_of_root ((sameOrigin_dropPriv env d.creds).ruid.trans hruid) _)
  cases hans : env.call (dropPriv env d.creds).creds i (.access fname mask) with
  | error e =>
      rw [hans] at hok
      cases hok
  | ok r =>
      have hround : (Request.access path mask).roundOn env d tried i = .ok r := by
        rw [Request.roundOn, if_pos hi]
        exact Request.round_eq_ok_iff.mpr ⟨_, hask, hans⟩
      obtain ⟨_, _, -, hresp⟩ := hsv.answered rfl (Round.succeeded_of_eq_ok hround)
      rw [hresp]
      rfl

/-- `open` is refused by the ids of the caller. -/
theorem open_refused_iff (heuid : d.creds.euid = 0)
    (hgrant : env.refuse .dropGid = false ∧ env.refuse .dropUid = false)
    (hmodes : env.ChecksModes groups d.config path node) {flags : ℕ}
    (hcall : .call cr i c res ∈ (chironOpen path flags env d).trace) :
    res ≠ .error EACCES ↔
      (Check.access (node i) (openMask flags)).passes ⟨env.uid, env.gid, groups⟩ = true := by
  obtain ⟨_, -, -, rfl, hask, rfl⟩ := call_of_mem_trace (q := .open path flags) rfl hcall
  obtain ⟨fname, hname, rfl⟩ := Option.map_eq_some_iff.mp (Request.ask_eq_some_iff.mp hask).2
  have hdrop : (dropPriv env d.creds).ret = 0 :=
    dropPriv_ret_eq_zero_iff.mpr ⟨hgrant.1, hgrant.2, _, _, Creds.setegid_of_root heuid _,
      Creds.seteuid_of_root (c := { d.creds with egid := env.gid }) heuid _⟩
  rw [hmodes.open _ i fname flags hname, creds_of_dropPriv hdrop]
  rfl

end calls

/-- **When `access` agrees with `open`**: when the mode of the file grants the caller what it asks
for. -/
theorem access_agrees_iff (hruid : d.creds.ruid = 0) (heuid : d.creds.euid = 0)
    (hgrant : env.refuse .dropGid = false ∧ env.refuse .dropUid = false)
    (hmodes : env.ChecksModes groups d.config path node) {mask flags : ℕ}
    (hmask : openMask flags = mask) {o : Outcome n} (ho : chironAccess path mask env d = some o)
    {i : Fin n} {cr cr' : Creds} {fname fname' : Path} {res res' : Except Errno Reply}
    (haccess : .call cr i (.access fname mask) res ∈ o.trace)
    (hopen : .call cr' i (.open fname' flags none) res' ∈ (chironOpen path flags env d).trace) :
    (o.response.ret = 0 ↔ res' ≠ .error EACCES) ↔
      env.uid = 0 ∨ Grants ((node i).bitsFor ⟨env.uid, env.gid, groups⟩) mask := by
  rw [iff_true_left (ret_access_of_root hruid hmodes ho haccess),
    open_refused_iff heuid hgrant hmodes hopen, hmask, Check.passes, decide_eq_true_eq]

/-- The replicas of the sample decide by the mode. -/
theorem checksModes_privateEnv :
    privateEnv.ChecksModes [] twoReplicas fileF fun _ => privateFile.1 where
  access := by
    intro cr i fname mask _
    show (if [_].all id = true then Except.ok _ else Except.error EACCES).isOk = true ↔ _
    rw [List.all_cons, List.all_nil, Bool.and_true, id]
    split_ifs with h
    · exact iff_of_true rfl h
    · exact iff_of_false Bool.false_ne_true h
  «open» := by
    intro cr i fname flags _
    show (if [_].all id = true then Except.ok _ else Except.error EACCES) ≠ _ ↔ _
    rw [List.all_cons, List.all_nil, Bool.and_true, id]
    split_ifs with h
    · exact iff_of_true (fun heq => by cases heq) h
    · exact iff_of_false (fun hne => hne rfl) h

theorem access_agrees_iff_private :
    let o := (chironAccess fileF R_OK privateEnv rootDaemon).get rfl
    (o.response.ret = 0 ↔ (Except.error EACCES : Except Errno Reply) ≠ .error EACCES) ↔
      privateEnv.uid = 0 ∨
        Grants (privateFile.1.bitsFor ⟨privateEnv.uid, privateEnv.gid, []⟩) R_OK := by
  have hmask : openMask 0 = R_OK := rfl
  have ho := (Option.some_get (x := chironAccess fileF R_OK privateEnv rootDaemon) rfl).symm
  exact access_agrees_iff (i := 1) rfl rfl ⟨rfl, rfl⟩ checksModes_privateEnv hmask ho
    (List.mem_of_getElem? (i := 2) rfl) (List.mem_of_getElem? (i := 3) rfl)

end ChironFs
