import ChironFs.Model.Sample
import ChironFs.Spec.Session

/-!
# The handle table over whole runs

* `Session.TableSound`: the occupied slots are the live handles, each in a slot of its own that
  holds the vector its own `open` or `create` stored; a failed `open` or `create` changes nothing.
* `handle_table`: every state of every sequential run is sound.
-/

namespace ChironFs

open Posix Replication

variable {n : ℕ}

namespace Session

/-- The handle table of a state: addresses lie inside it, its occupied slots are the live handles,
and an `open` or `create` that returns an error leaves it as it is. -/
structure TableSound (s : Session n) : Prop where
  hash_lt : ∀ x, (hashFd s.daemon.config.fdBufSize x).toNat < s.daemon.config.fdBufSize.toNat
  used_iff : ∀ k < s.daemon.config.fdBufSize.toNat,
    s.daemon.config.tabFd k ≠ none ↔ ∃ h ∈ s.live, h.fh = k
  slot : ∀ h ∈ s.live, h.fh < s.daemon.config.fdBufSize.toNat ∧
    s.daemon.config.tabFd h.fh = some h.fd
  nodup : (s.live.map Handle.fh).Nodup
  error_keeps : ∀ q env o, q.opens = true → handle q env s.daemon = some o →
    o.response.ret < 0 → o.daemon.config.tabFd = s.daemon.config.tabFd

/-- A fresh start with a table whose size is a power of two, at most `2^31`. -/
def StartsTable (s : Session n) : Prop :=
  s.Fresh ∧ ∃ k ≤ 31, s.daemon.config.fdBufSize.toNat = 2 ^ k

/-- The part of the invariant about the table's occupied slots. -/
structure SlotsInv (s : Session n) : Prop where
  inv : s.Inv
  size_pos : 0 < s.daemon.config.fdBufSize.toNat
  fh_lt : ∀ h ∈ s.live, h.fh < s.daemon.config.fdBufSize.toNat
  used : ∀ k < s.daemon.config.fdBufSize.toNat, s.daemon.config.tabFd k ≠ none →
    ∃ h ∈ s.live, h.fh = k

theorem StartsTable.slotsInv {s : Session n} (h : s.StartsTable) : s.SlotsInv where
  inv := h.1.inv
  size_pos := by
    obtain ⟨-, k, -, hk⟩ := h
    rw [hk]
    exact Nat.two_pow_pos k
  fh_lt := by simp [h.1.live]
  used := fun k hk hne => absurd (h.1.table k hk) hne

/-- One request keeps the occupied slots and the live handles together. -/
theorem step_slotsInv {s s' : Session n} {q : Request} {env : Env n} (hi : s.SlotsInv)
    (h : s.step (q, env) = some s') : s'.SlotsInv := by
  have hsize : s'.daemon.config.fdBufSize = s.daemon.config.fdBufSize := by
    obtain ⟨-, o, ho, rfl⟩ := step_eq_some_iff.mp h
    exact (handle_sameLayout ho).fdBufSize
  refine ⟨step_inv hi.inv h, by rw [hsize]; exact hi.size_pos, ?_, ?_⟩
  all_goals rw [hsize]
  · rcases step_cases hi.inv h with ⟨fh, hop⟩ | ⟨x, hrel⟩ | hkept
    · rw [hop.live]
      exact List.forall_mem_cons.mpr ⟨hop.slot_lt hi.size_pos, hi.fh_lt⟩
    · rw [hrel.live]
      exact fun y hy => hi.fh_lt y (List.mem_filter.mp hy).1
    · rw [hkept.live]
      exact hi.fh_lt
  · intro k hk hne
    rcases step_cases hi.inv h with ⟨fh, hop⟩ | ⟨x, hrel⟩ | hkept
    · rw [hop.live]
      by_cases hkf : k = fh
      · exact ⟨_, List.mem_cons_self, hkf.symm⟩
      · rw [hop.tabFd, Function.update_of_ne hkf] at hne
        obtain ⟨y, hy, hfh⟩ := hi.used k hk hne
        exact ⟨y, List.mem_cons_of_mem _ hy, hfh⟩
    · rw [hrel.tabFd] at hne
      have hkx : k ≠ x.fh := fun hkx => hne (by rw [hkx, Function.update_self])
      rw [Function.update_of_ne hkx] at hne
      obtain ⟨y, hy, hfh⟩ := hi.used k hk hne
      rw [hrel.live]
      exact ⟨y, List.mem_filter.mpr ⟨hy, by simpa [hfh] using hkx⟩, hfh⟩
    · rw [hkept.tabFd] at hne
      rw [hkept.live]
      exact hi.used k hk hne

end Session

/-- An `open` or `create` that returns an error leaves the table as it was. -/
theorem tabFd_of_error {q : Request} {env : Env n} {d : Daemon n} {o : Outcome n}
    (hop : q.opens = true) (ho : handle q env d = some o) (hret : o.response.ret < 0) :
    o.daemon.config.tabFd = d.config.tabFd := by
  rcases handle_cases ho with ⟨e, -, rfl⟩ | ⟨fh, fd, rfl, -, rfl⟩ | ⟨he, -, -⟩
  · rfl
  · cases hop
  · obtain rfl := Option.some.inj ((handle_opens hop he).symm.trans ho)
    rcases openOutcome_cases env d hop with
      ⟨-, -, htab, -⟩ | ⟨-, -, htab, -⟩ | ⟨-, h0, -⟩
    · exact htab
    · exact htab
    · exact absurd hret (by rw [h0]; exact lt_irrefl 0)

/-- **The handle table is sound in every state of every sequential run.** -/
theorem handle_table {s : Session n}
    (h : Machine.ReachableBy Session.step (fun _ _ => True) Session.StartsTable s) :
    s.TableSound := by
  have hi : s.SlotsInv := h.invariant (fun _ h₀ => h₀.slotsInv)
    fun _ _ _ _ hi hstep => Session.step_slotsInv hi hstep
  refine ⟨fun x => hashFd_lt hi.size_pos x, fun k hk => ⟨hi.used k hk, ?_⟩,
    fun x hx => ⟨hi.fh_lt x hx, hi.inv.slot x hx⟩, hi.inv.nodup,
    fun q env o hop ho hret => tabFd_of_error hop ho hret⟩
  rintro ⟨x, hx, rfl⟩
  rw [hi.inv.slot x hx]
  exact Option.some_ne_none _

/-- Two opens whose first descriptors collide, on the small daemon. -/
theorem handle_table_openTwice :
    ∃ s, Machine.runFrom Session.step rootSession openTwice = some s ∧ s.live.length = 2 ∧
      s.TableSound :=
  ⟨_, rfl, rfl, handle_table ⟨rootSession, openTwice,
    ⟨⟨rfl, rfl, ⟨0, rfl⟩, fun _ _ => rfl⟩, 3, by decide, rfl⟩,
    Machine.Meets.of_forall (fun _ _ => trivial) _ _, rfl⟩⟩

end ChironFs
