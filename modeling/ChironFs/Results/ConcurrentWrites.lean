import ChironFs.Model.Contents
import ChironFs.Model.Sample
import ChironFs.Spec.Interleaved

/-!
# Two writes at the same time

Two `write` requests to one file, each replica written whole by each of them.

* `Pool.writeOrder`: in which order the requests wrote a replica.
* `replicas_differ`: two replicas written in different orders.
* `replicasEqual_iff`: all enabled replicas end with the same content exactly if all were written in
  the same order, or the two buffers agree where they overlap.
-/

namespace ChironFs

open Posix Replication

variable {n : ℕ}

/-! ## Two writers -/

/-- Two `write` requests, through the handles `fh`. -/
def writers (fh : Bool → ℕ) (buf : Bool → List UInt8) (offset : Bool → ℤ) : Bool → Request :=
  fun t => .write (fh t) (buf t) (offset t)

/-- Nothing fails, and every `pwrite` stores the whole buffer. -/
def WritesFully (_ : Pool Bool n) (a : Bool × Env n) : Prop :=
  a.2.calloc 0 = true ∧ ∀ cr i fd buf offset,
    ∃ r : Reply, a.2.call cr i (.pwrite fd buf offset) = .ok r ∧ r.ret = buf.length

namespace Pool

/-- Both handles are in use, with a descriptor on every enabled replica. -/
def BothOpen (fh : Bool → ℕ) (s : Pool Bool n) : Prop :=
  ∀ t, ∃ fd, s.config.tabFd (fh t) = some fd ∧ ∀ i, s.config.enabled i → 0 ≤ fd i

/-- Neither request was begun. -/
structure ReadyToWrite (fh : Bool → ℕ) (s : Pool Bool n) : Prop where
  start : ∀ t, s.stage t = .start
  trace : s.trace = []
  bothOpen : s.BothOpen fh

/-- The requests that wrote replica `i`, in order. -/
def writeOrder (s : Pool Bool n) (i : Fin n) : List Bool :=
  (s.trace.filter fun a => a.2.calledOn = some i).map Prod.fst

/-- The content of the file on replica `i`, when it was `old` at the start. -/
def content (old : Content) (s : Pool Bool n) (i : Fin n) : Content :=
  contentAfter i old (s.trace.map Prod.snd)

/-- All enabled replicas hold the same content. -/
def ReplicasEqual (old : Content) (s : Pool Bool n) : Prop :=
  ∀ i j, s.config.enabled i → s.config.enabled j → s.content old i = s.content old j

/-- All enabled replicas were written in the same order. -/
def SameOrder (s : Pool Bool n) : Prop :=
  ∀ i j, s.config.enabled i → s.config.enabled j → s.writeOrder i = s.writeOrder j

/-- The request has returned. -/
def returned (s : Pool Bool n) (t : Bool) : Bool :=
  match s.stage t with
  | .done .. => true
  | _ => false

/-! ## The invariant -/

/-- Request `t` is past replica `i`. -/
def passed (s : Pool Bool n) (t : Bool) (i : Fin n) : Bool :=
  match s.stage t with
  | .loop todo _ => i ∉ todo
  | .finish _ | .done .. => true
  | _ => false

/-- The stages of a `write` that nothing fails in. -/
def OnTrack (s : Pool Bool n) (t : Bool) : Prop :=
  match s.stage t with
  | .loop todo x => todo.Nodup ∧ x.tally.failCnt = 0
  | .start | .finish _ | .done .. => True
  | _ => False

variable (buf : Bool → List UInt8) (offset : Bool → ℤ)

/-- Each replica was written by the requests that are past it, and holds what they wrote in that
order. -/
structure WritersInv (fh : Bool → ℕ) (s : Pool Bool n) : Prop where
  bothOpen : s.BothOpen fh
  onTrack : ∀ t, s.OnTrack t
  count : ∀ t i, s.config.enabled i → (s.writeOrder i).count t = if s.passed t i then 1 else 0
  content : ∀ i old, s.content old i =
    (s.writeOrder i).foldl (fun c t => Overlay.patch (chunk (buf t) (offset t)) c) old

variable {buf offset} {fh : Bool → ℕ} {s s' : Pool Bool n} {t : Bool} {env : Env n}
  {evs : List (Event n)}

theorem writeOrder_append (h : s'.trace = s.trace ++ evs.map fun ev => (t, ev)) (i : Fin n) :
    s'.writeOrder i =
      s.writeOrder i ++ (evs.filter fun ev => ev.calledOn = some i).map fun _ => t := by
  simp only [writeOrder, h, List.filter_append, List.map_append, List.filter_map, List.map_map]
  rfl

theorem content_append (h : s'.trace = s.trace ++ evs.map fun ev => (t, ev)) (old : Content)
    (i : Fin n) :
    s'.content old i = evs.foldl (fun c ev => ev.applyTo i c) (s.content old i) := by
  simp only [content, contentAfter, h, List.map_append, List.foldl_append, List.map_map]
  congr 1
  simp [Function.comp_def]

/-- What a step must do to keep the invariant: the events it makes on a replica that it passes are
one whole write. -/
theorem WritersInv.of_events (hi : s.WritersInv buf offset fh)
    (h : Stepped (writers fh buf offset) s s' t env) (hq : s.config.Quiet s'.config)
    (htr : s'.trace = s.trace ++ evs.map fun ev => (t, ev)) (hon : s'.OnTrack t)
    (hcount : ∀ j, s.config.enabled j → (if s'.passed t j then 1 else 0) =
      (if s.passed t j then 1 else 0) + (evs.filter fun ev => ev.calledOn = some j).length)
    (hcontent : ∀ j c, evs.foldl (fun c ev => ev.applyTo j c) c =
      (evs.filter fun ev => ev.calledOn = some j).foldl
        (fun c _ => Overlay.patch (chunk (buf t) (offset t)) c) c) :
    s'.WritersInv buf offset fh := by
  refine ⟨fun u => ?_, fun u => ?_, fun u j hj => ?_, fun j old => ?_⟩
  · obtain ⟨fd, hfd, hge⟩ := hi.bothOpen u
    exact ⟨fd, by rw [hq.tabFd, hfd], fun i hen => hge i ((hq.enabled_iff i).mp hen)⟩
  · by_cases hu : u = t
    · rw [hu]
      exact hon
    · have hou := hi.onTrack u
      unfold OnTrack at hou ⊢
      rw [h.stage_of_ne u hu]
      exact hou
  · have hj := (hq.enabled_iff j).mp hj
    rw [writeOrder_append htr, List.count_append, hi.count u j hj, List.map_const',
      List.count_replicate]
    by_cases hu : u = t
    · subst hu
      rw [hcount j hj]
      simp
    · have hpass : s'.passed u j = s.passed u j := by
        unfold passed
        rw [h.stage_of_ne u hu]
      have hne : ¬ (t == u) = true := by simpa using Ne.symm hu
      rw [hpass, if_neg hne, Nat.add_zero]
  · rw [content_append htr, hi.content j old, hcontent, writeOrder_append htr, List.foldl_append,
      List.foldl_map]

/-- A step without a call. -/
theorem WritersInv.of_silent (hi : s.WritersInv buf offset fh)
    (h : Stepped (writers fh buf offset) s s' t env) (hq : s.config.Quiet s'.config)
    (htr : s'.trace = s.trace ++ ([] : List (Event n)).map fun ev => (t, ev)) (hon : s'.OnTrack t)
    (hpass : ∀ j, s.config.enabled j → s'.passed t j = s.passed t j) :
    s'.WritersInv buf offset fh :=
  hi.of_events h hq htr hon (fun j hj => by rw [hpass j hj]; rfl) fun _ _ => rfl

/-- **One step of two writers that nothing fails in.** -/
theorem WritersInv.step (hi : s.WritersInv buf offset fh) (hfull : WritesFully s (t, env))
    (h : Stepped (writers fh buf offset) s s' t env) : s'.WritersInv buf offset fh := by
  obtain ⟨evs, hmove, htr⟩ := h.move
  obtain ⟨fd, hfd, hge⟩ := hi.bothOpen t
  have hon := hi.onTrack t
  have hquiet : s'.config = s.config → s.config.Quiet s'.config := fun heq => heq ▸ .refl _
  unfold OnTrack at hon
  generalize hs : s.stage t = st at hmove hon
  generalize hs' : s'.stage t = st' at hmove
  generalize hc' : s'.config = c' at hmove
  cases hmove with
  | refused e he =>
      have h₀ : env.calloc 0 = true := hfull.1
      simp [writers, Request.early, hfd, h₀] at he
  | goesOver =>
      refine hi.of_silent h (hquiet hc') htr ?_ fun j _ => ?_
      · simp [OnTrack, hs', List.nodup_finRange]
      · simp [passed, hs, hs']
  | searches hse => cases hse
  | releases hrel => cases hrel
  | gaveUp hsup => cases hsup
  | @visited i todo x x' _ hq htally =>
      rw [← hc'] at hq
      obtain ⟨hnodup, hfail⟩ := hon
      obtain ⟨hi', hnodup⟩ := List.nodup_cons.mp hnodup
      by_cases hen : s.config.enabled i
      · -- the one call of the step writes the whole buffer on replica `i`
        obtain ⟨r, hr, hlen⟩ := hfull.2 s.creds i (fd i) (buf t) (offset t)
        have hask : ((writers fh buf offset) t).ask env s.config i =
            some (.pwrite (fd i) (buf t) (offset t)) := by
          rw [Request.ask, Config.guarded_of_enabled hen]
          simp [writers, Request.call, hfd, writeCall, not_lt.mpr (hge i hen)]
        have hevs : ((writers fh buf offset) t).visitEvents env s.creds s.config i =
            [.call s.creds i (.pwrite (fd i) (buf t) (offset t)) (.ok r)] := by
          have hev : ((writers fh buf offset) t).visitEvents env s.creds s.config i =
              attemptEvents env s.creds i (((writers fh buf offset) t).ask env s.config i) := rfl
          rw [hev, hask, attemptEvents, hr]
        have hfate : ((writers fh buf offset) t).visitFate env s.creds s.config i = .ok r := by
          rw [Request.visitFate_of_not_opens rfl, hask]
          exact attempt_eq_ok_iff.mpr ⟨_, rfl, hr⟩
        rw [hevs] at htr htally
        rw [hfate] at htally
        refine hi.of_events h hq htr ?_ (fun j hj => ?_) fun j c => ?_
        · simp [OnTrack, hs', htally, hnodup, hfail]
        · by_cases hji : i = j
          · subst hji
            simp [passed, hs, hs', hi', Event.calledOn]
          · simp [passed, hs, hs', Event.calledOn, hji, Ne.symm hji]
        · by_cases hji : i = j
          · subst hji
            simp [Event.calledOn, Event.applyTo, hlen, storePrefix_eq_patch]
          · simp [Event.calledOn, Event.applyTo, hji]
      · have hask : ((writers fh buf offset) t).ask env s.config i = none :=
          Config.guarded_of_disabled (Config.not_enabled_iff.mp hen) _
        have hevs : ((writers fh buf offset) t).visitEvents env s.creds s.config i = [] :=
          congrArg (attemptEvents env s.creds i) hask
        have hfate : ((writers fh buf offset) t).visitFate env s.creds s.config i = .skipped := by
          rw [Request.visitFate_of_not_opens rfl, hask, attempt_none]
        rw [hevs] at htr htally
        rw [hfate] at htally
        refine hi.of_silent h hq htr ?_ fun j hj => ?_
        · simp [OnTrack, hs', htally, hnodup, hfail]
        · have hji : j ≠ i := fun heq => hen (heq ▸ hj)
          simp [passed, hs, hs', hji]
  | @loopEnd x =>
      rw [Locals.conclude, if_neg (fun h => h.1 hon.2)] at hs'
      refine hi.of_silent h (hquiet hc') htr ?_ fun j _ => ?_
      · simp [OnTrack, hs']
      · simp [passed, hs, hs']
  | failed | answered =>
      refine hi.of_silent h (hquiet hc') htr ?_ fun j _ => ?_
      · simp [OnTrack, hs']
      · simp [passed, hs, hs']
  | sought _ hop => cases hop
  | _ => cases hon

theorem ReadyToWrite.writersInv (h : s.ReadyToWrite fh) : s.WritersInv buf offset fh where
  bothOpen := h.bothOpen
  onTrack := fun t => by simp [OnTrack, h.start]
  count := fun t i _ => by simp [writeOrder, passed, h.start, h.trace]
  content := fun i old => by simp [content, contentAfter, writeOrder, h.trace]

/-- Two writers that have returned wrote every enabled replica, in one order or the other. -/
theorem WritersInv.writeOrder_cases (hi : s.WritersInv buf offset fh)
    (hret : ∀ t, s.returned t = true) {i : Fin n} (hen : s.config.enabled i) :
    s.writeOrder i = [false, true] ∨ s.writeOrder i = [true, false] := by
  have hone : ∀ t, (s.writeOrder i).count t = 1 := by
    intro t
    have hpass : s.passed t i = true := by
      have ht := hret t
      unfold returned at ht
      unfold passed
      split at ht
      · rename_i hst
        rw [hst]
      · cases ht
    rw [hi.count t i hen, if_pos hpass]
  have hlen : (s.writeOrder i).length = 2 := by
    rw [← List.count_true_add_count_false, hone true, hone false]
  obtain ⟨a, b, hab⟩ := List.length_eq_two.mp hlen
  have hfalse := hone false
  rw [hab] at hfalse ⊢
  cases a <;> cases b <;> simp at hfalse ⊢

end Pool

/-! ## Two orders -/

/-- Two open files on the small daemon, in the slots `4` and `5`. -/
def openPool : Pool Bool 2 :=
  { config := (twoReplicas.setSlot 4 (some fun i => 6 + i.val)).setSlot 5 (some fun i => 8 + i.val)
    creds := Creds.ofUser 0 0
    stage := fun _ => .start
    live := [{ fh := 4, fd := fun i => 6 + i.val }, { fh := 5, fd := fun i => 8 + i.val }] }

/-- The first request writes the byte `1`, the second one the byte `2`, both at offset `0`. -/
def twoBytes : Bool → Request :=
  writers (fun t => if t then 5 else 4) (fun t => if t then [2] else [1]) fun _ => 0

/-- Every `pwrite` stores the whole buffer. -/
def fullEnv : Env n :=
  plainEnv fun _ c =>
    match c with
    | .pwrite _ buf _ => .ok { ret := buf.length }
    | _ => .ok {}

theorem writesFully_fullEnv (s : Pool Bool n) (t : Bool) : WritesFully s (t, fullEnv) :=
  ⟨rfl, fun _ _ _ buf _ => ⟨{ ret := buf.length }, rfl, rfl⟩⟩

theorem openPool_ready : openPool.ReadyToWrite fun t => if t then 5 else 4 where
  start := fun _ => rfl
  trace := rfl
  bothOpen := by
    intro t
    cases t <;> exact ⟨_, rfl, fun i _ => by omega⟩

/-- The second request overtakes the first one between its two replicas. -/
def overtakes : List (Bool × Env 2) :=
  List.replicate 2 (false, fullEnv) ++ List.replicate 5 (true, fullEnv) ++
    List.replicate 3 (false, fullEnv)

/-- Both writes succeed, and replica `0` holds `2` where replica `1` holds `1`. -/
theorem replicas_differ :
    openPool.ReadyToWrite (fun t => if t then 5 else 4) ∧
      Machine.Meets (Pool.step twoBytes) WritesFully openPool overtakes ∧
      ∃ s, Machine.runFrom (Pool.step twoBytes) openPool overtakes = some s ∧
        (∀ t, s.stage t = .done { ret := 1 } none) ∧ (∀ i, s.config.enabled i) ∧
        ¬ s.ReplicasEqual fun _ => none := by
  refine ⟨openPool_ready, .of_forall_mem ?_ _, _, rfl, ?_, by decide, ?_⟩
  · intro a ha s
    obtain ⟨t, rfl⟩ : ∃ t, a = (t, fullEnv) := by
      simp only [overtakes, List.mem_append, List.mem_replicate] at ha
      rcases ha with (⟨-, rfl⟩ | ⟨-, rfl⟩) | ⟨-, rfl⟩ <;> exact ⟨_, rfl⟩
    exact writesFully_fullEnv s t
  · intro t
    cases t <;> rfl
  · intro hequal
    exact absurd (congrFun (hequal 0 1 rfl rfl) 0) (by decide)

/-- **When two writes leave the replicas equal.** For any number of replicas, any buffers and
offsets, and every run of two writes that nothing fails in, up to their end: all enabled replicas,
equal before, are equal exactly if the two requests wrote all of them in the same order, or the
buffers agree where they overlap. -/
theorem replicasEqual_iff {fh : Bool → ℕ} {buf : Bool → List UInt8} {offset : Bool → ℤ}
    {s₀ s : Pool Bool n} {l : List (Bool × Env n)} (h₀ : s₀.ReadyToWrite fh)
    (hfull : Machine.Meets (Pool.step (writers fh buf offset)) WritesFully s₀ l)
    (hrun : Machine.runFrom (Pool.step (writers fh buf offset)) s₀ l = some s)
    (hret : ∀ t, s.returned t = true) (old : Content) :
    s.ReplicasEqual old ↔ s.SameOrder ∨
      Overlay.Compatible (chunk (buf true) (offset true)) (chunk (buf false) (offset false)) := by
  have hi : s.WritersInv buf offset fh :=
    Machine.invariant_of_meets (I := fun s => s.WritersInv buf offset fh)
      (fun _ _ _ hfull hi hstep => hi.step hfull (Pool.stepped_of_step hstep)) l s₀ s hfull
      h₀.writersInv hrun
  have hcases := fun {i} => hi.writeOrder_cases hret (i := i)
  constructor
  · intro hequal
    by_contra hno
    obtain ⟨hno, hdis⟩ := not_or.mp hno
    unfold Pool.SameOrder at hno
    push Not at hno
    obtain ⟨i, j, heni, henj, hne⟩ := hno
    have hcontent := hequal i j heni henj
    rw [hi.content, hi.content] at hcontent
    rcases hcases heni with h₁ | h₁ <;> rcases hcases henj with h₂ | h₂
    · exact hne (h₁.trans h₂.symm)
    · rw [h₁, h₂] at hcontent
      exact hdis ((Overlay.patch_comm_iff old).mp hcontent)
    · rw [h₁, h₂] at hcontent
      exact hdis ((Overlay.patch_comm_iff old).mp hcontent.symm)
    · exact hne (h₁.trans h₂.symm)
  · rintro (hsame | hcompat) i j heni henj
    · rw [hi.content, hi.content, hsame i j heni henj]
    · have hcomm := (Overlay.patch_comm_iff old).mpr hcompat
      rw [hi.content, hi.content]
      rcases hcases heni with h₁ | h₁ <;> rcases hcases henj with h₂ | h₂
      all_goals rw [h₁, h₂]
      · exact hcomm
      · exact hcomm.symm

/-- The second request starts when the first one is through with its replicas. -/
def writesInTurn : List (Bool × Env 2) :=
  List.replicate 5 (false, fullEnv) ++ List.replicate 5 (true, fullEnv)

theorem replicasEqual_iff_inTurn :
    ∃ s, Machine.runFrom (Pool.step twoBytes) openPool writesInTurn = some s ∧
      s.ReplicasEqual fun _ => none := by
  have hfull : Machine.Meets (Pool.step twoBytes) WritesFully openPool writesInTurn := by
    refine .of_forall_mem (fun a ha s => ?_) _
    obtain ⟨t, rfl⟩ : ∃ t, a = (t, fullEnv) := by
      simp only [writesInTurn, List.mem_append, List.mem_replicate] at ha
      rcases ha with ⟨-, rfl⟩ | ⟨-, rfl⟩ <;> exact ⟨_, rfl⟩
    exact writesFully_fullEnv s t
  exact ⟨_, rfl, (replicasEqual_iff openPool_ready hfull rfl (by decide) _).mpr
    (Or.inl (by unfold Pool.SameOrder; decide))⟩

end ChironFs
