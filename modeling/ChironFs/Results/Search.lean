import ChironFs.Model.Sample
import ChironFs.Spec.Session
import ChironFs.Spec.Tries

/-!
# Requests that one replica answers

For `read`, `getattr`, `access`, `readlink` and `readdir` on a mounted file system:

* `Request.Answers`: the call a request makes on a replica would succeed.
* `SearchAccount`: the request succeeds exactly if some enabled replica answers; the first in the
  order is the one; low-priority replicas come last.
* `search_account`: that holds in every reachable state.
-/

namespace ChironFs

open Posix Replication

variable {n : ℕ}

/-- The call of request `q` on replica `i` would succeed with `r`. -/
def Request.Answers (q : Request) (env : Env n) (d : Daemon n) (i : Fin n) (r : Reply) : Prop :=
  ∃ c, q.call env d.config i = some c ∧ env.call (dropPriv env d.creds).creds i c = .ok r

/-- What the order of the tries means for a request that stops at the first answer. -/
structure SearchAccount (q : Request) (env : Env n) (d : Daemon n) (o : Outcome n) : Prop where
  succeeds_iff : 0 ≤ o.response.ret ↔ ∃ i, d.config.enabled i ∧ ∃ r, q.Answers env d i r
  first_answers : ∀ l₁ a l₂ r, d.config.order = l₁ ++ a :: l₂ → d.config.enabled a →
    q.Answers env d a r → (∀ i ∈ l₁, d.config.enabled i → ∀ r', ¬ q.Answers env d i r') →
    o.response = q.respond r ∧ ∀ j, o.Tried j ↔ d.config.enabled j ∧ (j ∈ l₁ ∨ j = a)
  low_last : ∀ i, o.Tried i → (d.config.replicas i).priority = true →
    ∀ j, d.config.enabled j → (d.config.replicas j).priority = false → o.CallFailed j

section search

variable {q : Request} {env : Env n} {d : Daemon n} {o : Outcome n} {tried : List (Fin n)}

theorem round_isOk_iff {i : Fin n} :
    (q.round env d i).isOk = true ↔ d.config.enabled i ∧ ∃ r, q.Answers env d i r := by
  rw [Fate.isOk_iff]
  simp only [Request.round_eq_ok_iff, Request.ask_eq_some_iff, Request.Answers]
  constructor
  · rintro ⟨r, c, ⟨hen, hc⟩, hr⟩
    exact ⟨hen, r, c, hc, hr⟩
  · rintro ⟨hen, r, c, hc, hr⟩
    exact ⟨r, c, ⟨hen, hc⟩, hr⟩

/-- A search in which every enabled replica can be asked ends with success when somebody answers,
with the first error when nobody does. -/
theorem Served.searchAccount (h : Served q env d tried o) (hse : q.searches = true)
    (hwf : d.config.WellFormed) (hall : d.config.AllNamed) (hpos : 0 < d.config.maxReplicaHigh)
    (hen : ∃ i, d.config.enabled i)
    (hcall : ∀ i, d.config.enabled i → q.call env d.config i ≠ none) :
    SearchAccount q env d o := by
  obtain ⟨c', horder⟩ := Config.choices_range hwf hall hpos
  have htried : tried = triedUntil (fun i => (q.round env d i).isOk) d.config.order := by
    rw [h.tried_eq, Request.tries, if_pos hse, Config.tries_of_choices horder]
  have hop := Request.opens_of_searches hse
  have hperm := hwf.order_perm hall
  have hmem : ∀ i, i ∈ d.config.order := fun i => hperm.mem_iff.mpr (List.mem_finRange i)
  have hask : ∀ i, d.config.enabled i → ∃ c, q.ask env d.config i = some c := fun i hi =>
    Option.ne_none_iff_exists'.mp (by
      rw [Request.ask, Config.guarded_of_enabled hi]
      exact hcall i hi)
  have htried_iff : ∀ j, o.Tried j ↔ d.config.enabled j ∧ j ∈ tried := by
    intro j
    simp only [Outcome.Tried, h.call_mem_iff]
    constructor
    · rintro ⟨_, c, _, hj, -, hc, -⟩
      exact ⟨(Request.ask_eq_some_iff.mp hc).1, hj⟩
    · rintro ⟨hj, hjt⟩
      obtain ⟨c, hc⟩ := hask j hj
      exact ⟨_, c, _, hjt, rfl, hc, rfl⟩
  -- an enabled replica that was asked and did not answer failed
  have hfailed : ∀ j, d.config.enabled j → (q.round env d j).isOk = false →
      ∃ c e, q.ask env d.config j = some c ∧
        env.call (dropPriv env d.creds).creds j c = .error e := by
    intro j hj hno
    obtain ⟨c, hc⟩ := hask j hj
    cases henv : env.call (dropPriv env d.creds).creds j c with
    | ok r =>
        rw [Request.round_eq_ok_iff.mpr ⟨c, hc, henv⟩] at hno
        cases hno
    | error e => exact ⟨c, e, hc, henv⟩
  refine ⟨⟨?_, ?_⟩, ?_, ?_⟩
  · intro hret
    by_contra hnobody
    refine absurd hret (not_le.mpr (h.ret_neg_of_not_succeeded hwf (fun i _ => hall i) hen hcall ?_))
    rintro ⟨i, hi⟩
    by_cases hit : i ∈ tried
    · rw [Request.roundOn, if_pos hit, round_isOk_iff] at hi
      exact hnobody ⟨i, hi⟩
    · rw [Request.roundOn, if_neg hit] at hi
      cases hi
  · rintro ⟨i, hi⟩
    obtain ⟨j, hj, hok⟩ := (exists_mem_triedUntil
      (p := fun i => (q.round env d i).isOk)).mpr ⟨i, hmem i, round_isOk_iff.mpr hi⟩
    rw [← htried] at hj
    have hs : (q.roundOn env d tried).Succeeded := ⟨j, by
      rw [Request.roundOn, if_pos hj]
      exact hok⟩
    obtain ⟨k, r, -, hresp⟩ := h.answered hop hs
    rw [hresp]
    exact q.respond_ret_nonneg r
  · rintro l₁ a l₂ r horder' ha hr hl₁
    have hla : (q.round env d a).isOk = true := round_isOk_iff.mpr ⟨ha, r, hr⟩
    have hl₁' : ∀ i ∈ l₁, (q.round env d i).isOk = false := fun i hi => by
      rw [← Bool.not_eq_true, round_isOk_iff]
      rintro ⟨hen, r', hr'⟩
      exact hl₁ i hi hen r' hr'
    rw [horder', triedUntil_append_cons hl₁' hla] at htried
    constructor
    · obtain ⟨ks₁, ks₂, c₁, ans, -, -, -, hend, hresp⟩ := h.search hse
      cases ans with
      | none =>
          rw [hend a (by rw [htried]; simp)] at hla
          cases hla
      | some ar =>
          obtain ⟨hok, l₀, hl₀, -⟩ := hend
          obtain rfl : a = ar.1 := by
            have := htried.symm.trans hl₀
            simpa using (List.append_inj_right' this rfl)
          obtain ⟨c, hc, hcr⟩ := hr
          rw [Request.round_eq_ok_iff.mpr ⟨c, Request.ask_eq_some_iff.mpr ⟨ha, hc⟩, hcr⟩] at hok
          obtain rfl : r = ar.2 := by simpa using hok
          exact hresp _ _ rfl
    · intro j
      rw [htried_iff, htried]
      simp
  · intro i hi hlow j hj hhigh
    obtain ⟨-, hi⟩ := (htried_iff i).mp hi
    have hihigh : i ∉ d.config.roundRobinHigh.rotate
        ((d.config.currReplicaHigh + 1) % d.config.maxReplicaHigh) := fun hm => by
      rw [List.mem_rotate, hwf.mem_high, hlow] at hm
      cases hm.2
    have hjhigh : j ∈ d.config.roundRobinHigh.rotate
        ((d.config.currReplicaHigh + 1) % d.config.maxReplicaHigh) := by
      rw [List.mem_rotate, hwf.mem_high]
      exact ⟨hall j, hhigh⟩
    -- a high-priority replica that answered would have ended the search
    have hno : ∀ k ∈ d.config.roundRobinHigh.rotate
        ((d.config.currReplicaHigh + 1) % d.config.maxReplicaHigh),
        (q.round env d k).isOk = false := by
      intro k hk
      by_contra hok
      rw [htried, Config.order, triedUntil_append_of_exists ⟨k, hk, by simpa using hok⟩] at hi
      exact hihigh (triedUntil_subset hi)
    rw [Config.order, triedUntil_append_of_forall hno] at htried
    obtain ⟨c, e, hc, herr⟩ := hfailed j hj (hno j hjhigh)
    exact ⟨_, c, e, h.call_mem_iff.mpr
      ⟨by rw [htried]; exact List.mem_append_left _ hjhigh, rfl, hc, herr.symm⟩⟩

end search

/-! ## On a mounted file system -/

section mounted

variable {fs : Path} {menv : MountEnv} {uid gid : ℕ}
  {memory : ℕ → Option (Fin (maxReplica fs) → ℤ)} {c : Config (maxReplica fs)}
  {s : Session (maxReplica fs)} {q : Request} {env : Env (maxReplica fs)}

/-- **Fault masking.** On a replica list without empty components and with a high-priority one, in
every reachable state: the tries of a request name every replica once, the high-priority ones
first; and a request that stops at the first answer succeeds exactly if some enabled replica
answers, with the answer of the first one in that order, asking a low-priority replica only after
every enabled high-priority one failed. -/
theorem search_account (hfs : ∀ p ∈ components fs, p ≠ [])
    (hhigh : ∃ p ∈ components fs, p.head? ≠ some lowMark)
    (hc : doMount menv uid gid fs memory = some c)
    (hs : Machine.ReachableBy Session.step (fun _ _ => True) (Session.StartsOn c) s)
    (hse : q.searches = true) (hadm : s.admits q = true)
    (hcalloc : ∀ k, env.calloc k = true) (hmalloc : ∀ i k, env.malloc i k = true) :
    (∃ c', s.daemon.config.choices (List.range (maxReplica fs)) =
        some (s.daemon.config.order, c')) ∧
      s.daemon.config.order.Perm (List.finRange (maxReplica fs)) ∧
      (∃ high low, s.daemon.config.order = high ++ low ∧
        (∀ i ∈ high, (s.daemon.config.replicas i).priority = false) ∧
        ∀ i ∈ low, (s.daemon.config.replicas i).priority = true) ∧
      ∃ o, handle q env s.daemon = some o ∧ SearchAccount q env s.daemon o := by
  have hm := doMount_mounted hc
  have hlay := Session.sameLayout_of_reachable hs
  have hinv : s.Inv := hs.invariant (fun _ h₀ => (hm.fresh h₀).inv)
    fun _ _ _ _ hi hstep => Session.step_inv hi hstep
  have hwf := hlay.wellFormed hm.wellFormed
  have hall := hlay.allNamed (hm.allNamed hfs)
  have hpos : 0 < s.daemon.config.maxReplicaHigh := by
    rw [hlay.maxReplicaHigh]
    exact hm.high_pos hfs hhigh
  have hchoices := Config.choices_range hwf hall hpos
  refine ⟨hchoices, hwf.order_perm hall, ⟨_, _, rfl, ?_, ?_⟩, ?_⟩
  · intro i hi
    exact ((hwf.mem_high i).mp (List.mem_rotate.mp hi)).2
  · intro i hi
    exact ((hwf.mem_low i).mp (List.mem_rotate.mp hi)).2
  · obtain ⟨c', hc'⟩ := hchoices
    obtain ⟨o, ho⟩ := Option.isSome_iff_exists.mp
      (handle_isSome_of_choices hse env (by rw [hc']; rfl))
    have hsup := Request.supported_of_searches hse
    have hrel := Request.releases_of_searches hse
    have hnames := Env.names_of_malloc hall hmalloc
    obtain ⟨tried, hsv⟩ := handle_served hrel (hinv.early_eq_none hadm hsup hcalloc) ho
    exact ⟨o, ho, hsv.searchAccount hse hwf hall hpos hinv.enabled fun i hi =>
      hinv.call_ne_none hadm hsup hrel hnames hi⟩

end mounted

/-- `getattr` right after mounting `/a=:/b`. -/
theorem search_account_listAB :
    ∃ c : Config (maxReplica listAB), doMount plainMount 0 0 listAB (fun _ => none) = some c ∧
      ∃ o, handle (.getattr fileF) (plainEnv fun _ _ => .ok {}) { config := c, creds := .ofUser 0 0 }
          = some o ∧
        SearchAccount (.getattr fileF) (plainEnv fun _ _ => .ok {})
          { config := c, creds := .ofUser 0 0 } o := by
  obtain ⟨c, hc⟩ : ∃ c, doMount plainMount 0 0 listAB (fun _ => none) = some c := ⟨_, rfl⟩
  exact ⟨c, hc, (search_account (s := { daemon := { config := c, creds := .ofUser 0 0 } })
    (by decide) (by decide) hc (.start ⟨rfl, rfl, rfl⟩) rfl rfl (fun _ => rfl)
    fun _ _ => rfl).2.2.2⟩

end ChironFs
