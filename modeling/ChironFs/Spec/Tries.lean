import ChironFs.Spec.Outcomes
import ChironFs.Spec.Tables

/-!
# The replicas a request goes over, as a function of what it finds

`Served` says that there is a list of replicas the request went over. The conditions under which a
request does what it should are conditions on what it finds, so the list has to be known
beforehand.

* `Request.tries`: the list; `Served.tried_eq`: there is no other.
* `Request.fates`: the round the request plays.
-/

namespace ChironFs

open Posix Replication

variable {n : ℕ}

/-- The answers of `choose_replica` to a list of try numbers, up to the one that kills it. -/
def Config.tries : List ℕ → Config n → List (Fin n)
  | [], _ => []
  | k :: ks, c =>
      match c.chooseReplica k with
      | none => []
      | some (i, c) => i :: Config.tries ks c

/-- Tries one after another. -/
theorem Config.tries_append {c c' : Config n} {ks₁ : List ℕ} {l : List (Fin n)}
    (h : c.choices ks₁ = some (l, c')) (ks₂ : List ℕ) :
    c.tries (ks₁ ++ ks₂) = l ++ c'.tries ks₂ := by
  induction ks₁ generalizing c l with
  | nil => cases h; rfl
  | cons k ks ih =>
      obtain ⟨i, c₁, is, hk, hks, rfl⟩ := choices_cons_eq_some.mp h
      rw [List.cons_append, tries, hk, List.cons_append, ← ih hks]

/-- When every try has a choice, these are the tries. -/
theorem Config.tries_of_choices {c c' : Config n} {ks : List ℕ} {l : List (Fin n)}
    (h : c.choices ks = some (l, c')) : c.tries ks = l := by
  simpa [tries] using tries_append h []

namespace Request

variable (env : Env n) (d : Daemon n) (q : Request)

/-- The replicas a request goes over: all of them, or those `choose_replica` names up to the first
that answers. -/
def tries : List (Fin n) :=
  if q.searches then
    triedUntil (fun i => (q.round env d i).isOk) (d.config.tries (List.range n))
  else List.finRange n

/-- The fates of the replicas in the request. -/
def fates : Round (Fin n) Reply Errno := q.roundOn env d (q.tries env d)

variable {env d q} {i : Fin n}

/-- A request that does not search goes over all replicas. -/
theorem tries_of_not_searches (h : q.searches = false) : q.tries env d = List.finRange n := by
  simp [tries, h]

/-- So all fates of the round count. -/
theorem fates_of_not_searches (h : q.searches = false) : q.fates env d = q.round env d := by
  rw [fates, tries_of_not_searches h, roundOn_finRange]

/-- A replica that is tried has its fate. -/
theorem fates_eq_of_mem (h : i ∈ q.tries env d) : q.fates env d i = q.round env d i := if_pos h

/-- The others are skipped. -/
theorem fates_eq_skipped_of_not_mem (h : i ∉ q.tries env d) : q.fates env d i = .skipped :=
  if_neg h

end Request

section served

variable {q : Request} {env : Env n} {d : Daemon n} {o : Outcome n} {tried : List (Fin n)}

/-- The replicas a search was answered by `choose_replica` up to its end are its tries. -/
theorem Request.tries_eq {ks₁ ks₂ : List ℕ} {c' : Config n} {ans : Option (Fin n × Reply)}
    (hse : q.searches = true) (hks : List.range n = ks₁ ++ ks₂)
    (hch : d.config.choices ks₁ = some (tried, c')) (hnone : ans = none → ks₂ = [])
    (hend : EndsWith (q.round env d) tried ans) : tried = q.tries env d := by
  rw [Request.tries, if_pos hse, hks, Config.tries_append hch]
  cases ans with
  | none =>
      rw [hnone rfl, Config.tries, List.append_nil]
      exact (triedUntil_eq_self hend).symm
  | some ar =>
      obtain ⟨hok, l₀, rfl, hl₀⟩ := hend
      rw [List.append_assoc]
      exact (triedUntil_append_cons hl₀ (by rw [hok]; rfl)).symm

/-- **Who is asked** is known beforehand. -/
theorem Served.tried_eq (h : Served q env d tried o) : tried = q.tries env d := by
  cases hse : q.searches with
  | false => rw [h.all hse, Request.tries_of_not_searches hse]
  | true =>
      obtain ⟨ks₁, ks₂, c₁, ans, hks, hch, hnone, hend, -⟩ := h.search hse
      exact Request.tries_eq hse hks hch hnone hend

/-- What a request met is known beforehand. -/
theorem Served.roundOn_eq (h : Served q env d tried o) :
    q.roundOn env d tried = q.fates env d := by
  rw [h.tried_eq, Request.fates]

/-- A request that nobody answers asked everybody who has a path. -/
theorem Served.mem_tried_of_not_succeeded (h : Served q env d tried o) (hwf : d.config.WellFormed)
    (hns : ¬ (q.roundOn env d tried).Succeeded) {i : Fin n}
    (hpath : (d.config.replicas i).path ≠ none) : i ∈ tried := by
  cases hse : q.searches with
  | false => exact h.mem_tried hse i
  | true =>
      obtain ⟨ks₁, ks₂, c', ans, hks, hch, hnone, hend, -⟩ := h.search hse
      cases ans with
      | none =>
          rw [hnone rfl, List.append_nil] at hks
          rw [← hks] at hch
          exact hwf.mem_of_choices hch hpath
      | some ar =>
          obtain ⟨hok, l₀, rfl, -⟩ := hend
          have hok' : q.roundOn env d (l₀ ++ [ar.1]) ar.1 = .ok ar.2 := by
            rw [Request.roundOn, if_pos (by simp), hok]
          exact absurd (Round.succeeded_of_eq_ok hok') hns

/-- When every enabled replica can be asked, a request that nobody answers returns an error. -/
theorem Served.ret_neg_of_not_succeeded (h : Served q env d tried o) (hwf : d.config.WellFormed)
    (hpath : ∀ i, d.config.enabled i → (d.config.replicas i).path ≠ none)
    (hen : ∃ i, d.config.enabled i)
    (hcall : ∀ i, d.config.enabled i → q.call env d.config i ≠ none)
    (hns : ¬ (q.roundOn env d tried).Succeeded) : o.response.ret < 0 := by
  obtain ⟨i, hi⟩ := hen
  rw [h.failed hns]
  apply firstError_neg_of_not_succeeded hns (i := i)
  rw [Request.roundOn, if_pos (h.mem_tried_of_not_succeeded hwf hns (hpath i hi)),
    Request.round_ne_skipped_iff]
  exact ⟨hi, Or.inr (hcall i hi)⟩

end served

end ChironFs
