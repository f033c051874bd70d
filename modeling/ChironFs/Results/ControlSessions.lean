import ChironFs.Model.Sample
import ChironFs.Spec.Control

/-!
# What a control session costs

* `sessionsFreed_iff`: the control thread comes back to `accept` with nothing of earlier clients,
  and with a descriptor for the next, in exactly those runs in which no client has come yet; it
  serves as many clients as descriptors are free and keeps every descriptor it got.
* `sessions_exhaust`: with room for one connection, the second client ends the daemon.
-/

namespace ChironFs

open Machine

variable {n : ℕ}

namespace CtlServer

/-- Each time the control thread comes back to `accept` it holds no descriptor of an earlier
session, and `accept` finds one. -/
def SessionsFreed (abi : Abi) (s : CtlServer) (as : List (Config n × Conn)) : Prop :=
  ∀ k s', runFrom (fun s a => s.step abi a) s (as.take k) = some s' →
    s'.sessions = [] ∧ s'.accept.isSome

end CtlServer

/-- A client that says at once that it is done. -/
def doneClient : Config 2 × Conn := (twoReplicas, .carrying [Opcode.done.toByte] [])

/-- A daemon whose limit leaves room for one connection. -/
def oneLeft : CtlServer := { limit := 4, others := [0, 1, 2] }

/-- The first client costs the descriptor, the second the daemon. -/
theorem sessions_exhaust :
    oneLeft.sessions = [] ∧ oneLeft.accept = some 3 ∧
      runFrom (fun s a => s.step lp64 a) oneLeft [doneClient] =
        some { oneLeft with sessions := [3] } ∧
      runFrom (fun s a => s.step lp64 a) oneLeft [doneClient, doneClient] = none ∧
      ¬ oneLeft.SessionsFreed lp64 [doneClient, doneClient] := by
  have hone : runFrom (fun s a => s.step lp64 a) oneLeft [doneClient] =
      some { oneLeft with sessions := [3] } := by decide +kernel
  refine ⟨rfl, by decide +kernel, hone, by decide +kernel, fun h => ?_⟩
  exact absurd (h 1 _ hone).1 (by decide)

/-- **A session costs a descriptor for good**, whatever the client sends and however the socket
cuts it: the thread is back at `accept` without those of earlier clients only before the first, and
it comes back at all only while there were descriptors for every client so far. -/
theorem sessionsFreed_iff (abi : Abi) {s : CtlServer} (hstart : s.sessions = [])
    (hroom : s.accept.isSome) (as : List (Config n × Conn)) :
    (s.SessionsFreed abi as ↔ as = []) ∧
      ((runFrom (fun s a => s.step abi a) s as).isSome ↔ as.length ≤ s.free.length) ∧
      ∀ s', runFrom (fun s a => s.step abi a) s as = some s' → s'.sessions.length = as.length := by
  refine ⟨⟨fun hfreed => ?_, ?_⟩, CtlServer.isSome_runFrom_iff as, fun s' hrun => ?_⟩
  · cases as with
    | nil => rfl
    | cons a as =>
        -- the first client is served, since there is room, and its descriptor stays
        have hpos : 0 < s.free.length := CtlServer.accept_isSome_iff.mp hroom
        obtain ⟨s₁, hs₁⟩ : ∃ s₁, runFrom (fun s a => s.step abi a) s [a] = some s₁ :=
          Option.isSome_iff_exists.mp ((CtlServer.isSome_runFrom_iff [a]).mpr hpos)
        have hheld := CtlServer.length_sessions_of_run hs₁
        rw [(hfreed 1 s₁ hs₁).1, hstart] at hheld
        exact absurd hheld (by simp)
  · rintro rfl k s' hrun
    rw [List.take_nil] at hrun
    cases hrun
    exact ⟨hstart, hroom⟩
  · rw [CtlServer.length_sessions_of_run hrun, hstart, List.length_nil, Nat.zero_add]

/-- At the daemon with room for one connection. -/
theorem sessionsFreed_iff_oneLeft :
    ¬ oneLeft.SessionsFreed lp64 [doneClient] ∧
      ¬ (runFrom (fun s a => s.step lp64 a) oneLeft [doneClient, doneClient]).isSome := by
  have hroom : oneLeft.accept.isSome := by decide +kernel
  have hone := sessionsFreed_iff lp64 rfl hroom [doneClient]
  have htwo := sessionsFreed_iff lp64 rfl hroom [doneClient, doneClient]
  refine ⟨fun h => absurd (hone.1.mp h) (List.cons_ne_nil _ _), fun h => ?_⟩
  exact absurd (htwo.2.1.mp h) (by decide +kernel)

end ChironFs
