import ChironFs.Lib.TwoRuns
import ChironFs.Model.Sample
import ChironFs.Spec.Congruence

/-!
# The supplementary groups of the daemon

`drop_priv` takes on the user and the group of the caller, and keeps the supplementary groups the
daemon was started with: a caller gets the rights of groups that are not its own.

* `GroupsIrrelevant`: a request that comes to no check that can tell two lists of groups apart.
* `groups_leak`: a caller that changes a file with one list and is refused with the other.
* `groups_do_not_leak`: in runs of requests that meet `GroupsIrrelevant`, the groups make no
  difference.
-/

namespace ChironFs

open Posix

variable {n : ℕ} {S : Type*}

/-- Every check of every call the request makes ends alike with both lists of groups, by what the
files look like and who makes the call. -/
def GroupsIrrelevant (g₁ g₂ : List ℕ) (s : Cluster n S) (a : Request × Host n S) : Prop :=
  let env := (a.2.setting g₁).on s.store
  let cr := (dropPriv env s.daemon.creds).creds
  a.1.early env s.daemon.config = none → ∀ i ∈ a.1.tries env s.daemon,
    ∀ c, a.1.ask env s.daemon.config i = some c → ∀ ch ∈ (a.2.kernel i).checks c (s.store i),
      ch.Indifferent (c.subject cr g₁).uid (c.subject cr g₁).gid g₁ g₂

/-- The members of group `10` may write the file, the others may not even read it. -/
def groupFile : File := ({ owner := 0, group := 10, mode := 0o660 }, [88])

/-- User `1000` cuts the file to nothing if the daemon was started by a member of group `10`, and is
refused if not. -/
theorem groups_leak :
    let s := rootCluster groupFile
    let as : List (Request × Host 2 File) := [(.truncate fileF 0, fileHost)]
    s.daemon.creds = Creds.ofUser 0 0 ∧ (∀ a ∈ as, a.2.env.uid ≠ 0) ∧
      Machine.observe (Cluster.stepIn [10]) (Cluster.respondIn [10]) s as = [{ ret := 0 }] ∧
      Machine.observe (Cluster.stepIn []) (Cluster.respondIn []) s as = [{ ret := EACCES.neg }] ∧
      (Machine.runFrom (Cluster.stepIn [10]) s as).map (fun s' => s'.store 0) =
        some (groupFile.1, []) ∧
      (Machine.runFrom (Cluster.stepIn []) s as).map (fun s' => s'.store 0) = some groupFile := by
  refine ⟨rfl, by decide, rfl, rfl, rfl, rfl⟩

section step

variable {g₁ g₂ : List ℕ} {k : Kernel S}

/-- Checks that cannot tell the groups apart end alike. -/
theorem Kernel.verdicts_eq {cr : Creds} {c : Call} {s : S}
    (h : ∀ ch ∈ k.checks c s,
      ch.Indifferent (c.subject cr g₁).uid (c.subject cr g₁).gid g₁ g₂) :
    k.verdicts g₁ cr c s = k.verdicts g₂ cr c s := by
  have hsub : ∀ g, c.subject cr g = ⟨(c.subject cr g₁).uid, (c.subject cr g₁).gid, g⟩ := by
    intro g
    cases c <;> rfl
  unfold verdicts
  apply List.map_congr_left
  intro ch hch
  rw [hsub g₁, hsub g₂]
  exact Check.passes_eq_iff.mpr (h ch hch)

/-- **One request** whose checks cannot tell the groups apart. -/
theorem GroupsIrrelevant.step_eq {s : Cluster n S} {a : Request × Host n S}
    (h : GroupsIrrelevant g₁ g₂ s a) :
    Cluster.stepIn g₁ s a = Cluster.stepIn g₂ s a ∧
      Cluster.respondIn g₁ s a = Cluster.respondIn g₂ s a := by
  obtain ⟨q, x⟩ := a
  let env := (x.setting g₁).on s.store
  have hverdicts : q.early env s.daemon.config = none → ∀ i ∈ q.tries env s.daemon,
      ∀ c, q.ask env s.daemon.config i = some c →
        (x.kernel i).verdicts g₁ (dropPriv env s.daemon.creds).creds c (s.store i) =
          (x.kernel i).verdicts g₂ (dropPriv env s.daemon.creds).creds c (s.store i) :=
    fun he i hi c hask => Kernel.verdicts_eq (h he i hi c hask)
  have hserve : s.serve (q, x.setting g₂) = s.serve (q, x.setting g₁) := by
    have hans : q.early env s.daemon.config = none →
        SameAnswers ((x.setting g₂).on s.store).call q env s.daemon := by
      intro he i hi c hask
      show ((x.kernel i).answer _ c _ _ : Except Errno Reply) = (x.kernel i).answer _ c _ _
      rw [hverdicts he i hi c hask]
    exact handle_congr hans
  have hafter : ∀ o, s.serve (q, x.setting g₁) = some o →
      s.after (x.setting g₁) o = s.after (x.setting g₂) o := by
    intro o ho
    unfold Cluster.after
    congr 1
    funext i
    refine storeAfter_handle_congr ho ?_ ?_ ?_ ?_
    · rfl
    · exact fun _ _ _ => rfl
    · exact fun _ _ _ => rfl
    · intro he hi c hask res
      cases res with
      | error e => rfl
      | ok r =>
          show (x.kernel i).effect _ c _ _ r = (x.kernel i).effect _ c _ _ r
          rw [hverdicts he i hi c hask]
  unfold Cluster.stepIn Cluster.respondIn Cluster.step Cluster.respond
  simp only
  rw [hserve]
  refine ⟨?_, rfl⟩
  cases ho : s.serve (q, x.setting g₁) with
  | none => rfl
  | some o => rw [Option.map_some, Option.map_some, hafter o ho]

end step

/-- **The groups of the daemon make no difference** in runs of requests whose checks cannot tell
them apart. -/
theorem groups_do_not_leak {g₁ g₂ : List ℕ} {s : Cluster n S} {as : List (Request × Host n S)}
    (h : Machine.Meets (Cluster.stepIn g₁) (GroupsIrrelevant g₁ g₂) s as) :
    Machine.runFrom (Cluster.stepIn g₁) s as = Machine.runFrom (Cluster.stepIn g₂) s as ∧
      Machine.observe (Cluster.stepIn g₁) (Cluster.respondIn g₁) s as =
        Machine.observe (Cluster.stepIn g₂) (Cluster.respondIn g₂) s as :=
  Machine.runs_eq (fun _ _ => GroupsIrrelevant.step_eq) h

/-- A file of user `1000`. -/
def ownFile : File := ({ owner := 1000, group := 10, mode := 0o660 }, [88])

/-- The owner is not asked for its groups. -/
theorem groupsIrrelevant_of_owner {s : Cluster 2 File} (hcr : s.daemon.creds = Creds.ofUser 0 0)
    (hfile : ∀ i, (s.store i).1 = ownFile.1) :
    GroupsIrrelevant [10] [] s (.truncate fileF 0, fileHost) := by
  intro _ i _ c hask ch hch
  let env := (fileHost.setting [10]).on s.store
  have hcreds : (dropPriv env s.daemon.creds).creds.euid = 1000 := by
    rw [hcr]
    rfl
  obtain ⟨fname, -, rfl⟩ := Option.map_eq_some_iff.mp (Request.ask_eq_some_iff.mp hask).2
  obtain rfl := List.mem_singleton.mp hch
  exact Or.inr (Or.inl (by rw [hfile]; exact hcreds))

theorem groups_do_not_leak_owner :
    let s := rootCluster ownFile
    let as : List (Request × Host 2 File) :=
      [(.truncate fileF 0, fileHost), (.truncate fileF 0, fileHost)]
    Machine.runFrom (Cluster.stepIn [10]) s as = Machine.runFrom (Cluster.stepIn []) s as ∧
      Machine.observe (Cluster.stepIn [10]) (Cluster.respondIn [10]) s as =
        Machine.observe (Cluster.stepIn []) (Cluster.respondIn []) s as := by
  intro s as
  apply groups_do_not_leak
  refine ⟨groupsIrrelevant_of_owner rfl fun _ => rfl, fun s' hs' => ⟨?_, fun _ _ => trivial⟩⟩
  obtain rfl := Option.some.inj hs'
  apply groupsIrrelevant_of_owner
  · decide
  · decide

end ChironFs
