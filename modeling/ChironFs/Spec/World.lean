import ChironFs.Lib.Run
import ChironFs.Spec.OneCopy
import ChironFs.Spec.Outcomes

/-!
# The replicas as stores

* `World n S F`: the store of every replica, and what the descriptors of the process refer to.
* `World.absorb`: what an event does to them. A call that succeeds must be the answer of the store
  it is about; a call that fails changes nothing and needs no reason, so any call may be made to
  fail.
* `World.asked_of_events`, `World.calls_spec`: what asking one replica, or all of them, does.
* `World.searched_spec`: the requests that stop at the first answer do nothing.
* `World.Truthful`, `World.exists_run_of_round`: replicas that answer as their stores do can take part.
-/

namespace ChironFs

open Posix Replication

variable {n : ℕ} {S F : Type*}

/-- The stores of the replicas, and the open files of the process. -/
structure World (n : ℕ) (S F : Type*) where
  store : Fin n → S
  file : ℤ → Option (Fin n × F)

namespace World

/-- The replica and the open file a call is about: those of its descriptor, if it has one. -/
def target (w : World n S F) (i : Fin n) (c : Call) : Fin n × Option F :=
  match c.fd? with
  | none => (i, none)
  | some fd =>
      match w.file fd with
      | none => (i, none)
      | some (j, f) => (j, some f)

/-- A call that succeeds: the store must have this answer, and a new descriptor must be unused. -/
def answered (fs : FileSystem S F) (root : Fin n → Path) (w : World n S F) (cr : Creds) (i : Fin n)
    (c : Call) (r : Reply) : Option (World n S F) :=
  let t := w.target i c
  match fs.exec cr (c.relative (root i)) t.2 (w.store t.1) with
  | .error _ => none
  | .ok a =>
      let store := Function.update w.store t.1 a.store
      match a.opened with
      | none => if r = a.reply then some { w with store := store } else none
      | some f =>
          if (w.file r.ret).isNone then
            some { store := store, file := Function.update w.file r.ret (some (t.1, f)) }
          else none

/-- What an event does to the replicas; `none` when it is none they can take part in. -/
def absorb (fs : FileSystem S F) (root : Fin n → Path) (w : World n S F) :
    Event n → Option (World n S F)
  | .call _ _ _ (.error _) => some w
  | .call cr i c (.ok r) => w.answered fs root cr i c r
  | .close _ _ fd _ => some { w with file := Function.update w.file fd none }
  | _ => some w

variable {fs : FileSystem S F} {root : Fin n → Path} {w w' : World n S F}

/-- A silent event leaves the stores. -/
theorem absorb_of_isSilent {ev : Event n} (h : ev.isSilent = true) :
    w.absorb fs root ev = some w := by
  cases ev <;> first | rfl | cases h

/-- So do any number of them. -/
theorem runFrom_of_isSilent {l : List (Event n)} (h : ∀ ev ∈ l, ev.isSilent = true) :
    Machine.runFrom (absorb fs root) w l = some w := by
  induction l with
  | nil => rfl
  | cons ev l ih =>
      obtain ⟨hev, hl⟩ := List.forall_mem_cons.mp h
      rw [Machine.runFrom_cons, absorb_of_isSilent hev, Option.bind_some, ih hl]

/-- Silent events in front do not count. -/
theorem runFrom_silent_append {l₁ l₂ : List (Event n)} (h : ∀ ev ∈ l₁, ev.isSilent = true) :
    Machine.runFrom (absorb fs root) w (l₁ ++ l₂) = Machine.runFrom (absorb fs root) w l₂ := by
  rw [Machine.runFrom_append, runFrom_of_isSilent h, Option.bind_some]

/-- Nor at the end. -/
theorem runFrom_append_silent {l₁ l₂ : List (Event n)} (h : ∀ ev ∈ l₂, ev.isSilent = true) :
    Machine.runFrom (absorb fs root) w (l₁ ++ l₂) = Machine.runFrom (absorb fs root) w l₁ := by
  rw [Machine.runFrom_append]
  cases Machine.runFrom (absorb fs root) w l₁ with
  | none => rfl
  | some w₁ => exact runFrom_of_isSilent h

/-- Events that are silent or close one of the descriptors `X` leave the stores and the other
descriptors. -/
theorem runFrom_of_closes {X : Set ℤ} {l : List (Event n)}
    (h : ∀ ev ∈ l, ev.isSilent = true ∨ ∃ cr i fd res, fd ∈ X ∧ ev = .close cr i fd res)
    (hrun : Machine.runFrom (absorb fs root) w l = some w') :
    w'.store = w.store ∧ ∀ v, v ∉ X → w'.file v = w.file v := by
  induction l generalizing w with
  | nil =>
      obtain rfl := Option.some.inj hrun
      exact ⟨rfl, fun _ _ => rfl⟩
  | cons ev l ih =>
      obtain ⟨hev, hl⟩ := List.forall_mem_cons.mp h
      rcases hev with hev | ⟨cr, i, fd, res, hfd, rfl⟩
      · rw [Machine.runFrom_cons, absorb_of_isSilent hev, Option.bind_some] at hrun
        exact ih hl hrun
      · obtain ⟨hstore, hfile⟩ := ih hl hrun
        refine ⟨hstore, ?_⟩
        intro v hv
        rw [hfile v hv]
        refine Function.update_of_ne ?_ _ _
        rintro rfl
        exact hv hfd

/-! ## One replica -/

/-- The call is about replica `i`, and about the open file `g` if it has a descriptor. -/
def Targets (w : World n S F) (i : Fin n) (c : Call) (g : Option F) : Prop :=
  match c.fd? with
  | none => g = none
  | some fd => ∃ f, w.file fd = some (i, f) ∧ g = some f

/-- The file a call is about. -/
theorem Targets.target {i : Fin n} {c : Call} {g : Option F} (h : w.Targets i c g) :
    w.target i c = (i, g) := by
  unfold Targets at h
  unfold World.target
  cases hc : c.fd? with
  | none =>
      rw [hc] at h
      simp only at h ⊢
      rw [h]
  | some fd =>
      rw [hc] at h
      obtain ⟨f, hf, rfl⟩ := h
      simp [hf]

/-- Open files that stay leave targets as they are. -/
theorem Targets.mono {i : Fin n} {c : Call} {g : Option F} (h : w.Targets i c g)
    (hfile : ∀ v, w.file v ≠ none → w'.file v = w.file v) : w'.Targets i c g := by
  unfold Targets at h ⊢
  cases hc : c.fd? with
  | none =>
      rw [hc] at h
      exact h
  | some fd =>
      rw [hc] at h
      obtain ⟨f, hf, hg⟩ := h
      refine ⟨f, ?_, hg⟩
      rw [hfile fd (by rw [hf]; exact Option.some_ne_none _), hf]

/-- Replica `i` answered request `q` with `r`, as its store does; a file opened by `open` or
`create` got an unused descriptor. -/
def Answered (fs : FileSystem S F) (cr : Creds) (q : Request) (g : Option F) (i : Fin n) (r : Reply)
    (w w' : World n S F) : Prop :=
  ∃ a, fs.answer cr q g (w.store i) = some a ∧ w'.store i = a.store ∧
    q.respond r = q.respond a.reply ∧
    (q.opens = true → ∃ f, a.opened = some f ∧ w.file r.ret = none ∧ w'.file r.ret = some (i, f))

section ask

variable {q : Request} {env : Env n} {d : Daemon n} {i : Fin n} {g : Option F}

/-- A successful call of a handler on its own replica. -/
theorem answered_spec {cr : Creds} {cl : Call} {r : Reply} (hcl : q.call env d.config i = some cl)
    (htgt : w.Targets i cl g) (h : w.answered fs d.config.root cr i cl r = some w') :
    ∃ a, fs.answer cr q g (w.store i) = some a ∧ q.respond r = q.respond a.reply ∧
      ((cl.opens = false ∧ a.opened = none ∧
          w' = { w with store := Function.update w.store i a.store }) ∨
        ∃ f, a.opened = some f ∧ w.file r.ret = none ∧
          w' = { store := Function.update w.store i a.store
                 file := Function.update w.file r.ret (some (i, f)) }) := by
  unfold answered at h
  simp only [htgt.target] at h
  cases he : fs.exec cr (cl.relative (d.config.root i)) g (w.store i) with
  | error e => rw [he] at h; cases h
  | ok a =>
      have ha := FileSystem.answer_of_call hcl he
      simp only [he] at h
      cases hop : a.opened with
      | none =>
          simp only [hop] at h
          split_ifs at h with hr
          refine ⟨a, ha, by rw [hr], Or.inl ⟨?_, hop, (Option.some.inj h).symm⟩⟩
          by_contra hopens
          obtain ⟨f, hf⟩ := FileSystem.exec_opening (by simpa using hopens) he
          rw [hop] at hf
          cases hf
      | some f =>
          simp only [hop] at h
          split_ifs at h with hfree
          exact ⟨a, ha, FileSystem.respond_of_opened ha hop _ _, Or.inr ⟨f, hop,
            Option.isNone_iff_eq_none.mp hfree, (Option.some.inj h).symm⟩⟩

/-- What asking replica `i` does: nothing to other stores and to open files, nothing at all unless
it succeeds; its answer is its store's. -/
structure Asked (fs : FileSystem S F) (env : Env n) (d : Daemon n) (q : Request) (g : Option F)
    (i : Fin n) (w w' : World n S F) : Prop where
  other : ∀ j, j ≠ i → w'.store j = w.store j
  kept : ∀ v, w.file v ≠ none → w'.file v = w.file v
  unchanged : (q.round env d i).isOk = false → w' = w
  searched : q.searches = true → w' = w
  answered : ∀ r, q.round env d i = .ok r →
    Answered fs (dropPriv env d.creds).creds q g i r w w'

/-- A replica that did not answer is left as it was. -/
theorem Asked.of_not_ok (heq : w' = w) (hno : ∀ r, q.round env d i ≠ .ok r) :
    Asked fs env d q g i w w' where
  other := fun j _ => by rw [heq]
  kept := fun v _ => by rw [heq]
  unchanged := fun _ => heq
  searched := fun _ => heq
  answered := fun r hr => absurd hr (hno r)

/-- **Asking one replica.** -/
theorem asked_of_events (htgt : ∀ cl, q.ask env d.config i = some cl → w.Targets i cl g)
    (h : Machine.runFrom (absorb fs d.config.root) w (q.events env d i) = some w') :
    Asked fs env d q g i w w' := by
  rcases Request.events_cases env d q i with ⟨hask, hev⟩ | ⟨c, e, hask, henv, hev⟩ |
    ⟨c, r, hask, henv, hev⟩
  · rw [hev] at h
    apply Asked.of_not_ok (Option.some.inj h).symm
    intro r hr
    obtain ⟨c, hc, -⟩ := Request.round_eq_ok_iff.mp hr
    rw [hask] at hc
    cases hc
  · rw [hev] at h
    apply Asked.of_not_ok (Option.some.inj h).symm
    intro r hr
    obtain ⟨c', hc, hcall⟩ := Request.round_eq_ok_iff.mp hr
    cases hask.symm.trans hc
    cases henv.symm.trans hcall
  · have hcl := (Request.ask_eq_some_iff.mp hask).2
    have hround : q.round env d i = .ok r := Request.round_eq_ok_iff.mpr ⟨c, hask, henv⟩
    obtain ⟨w₁, hw₁, hw'⟩ : ∃ w₁, w.answered fs d.config.root (dropPriv env d.creds).creds i c r =
        some w₁ ∧ (c.opens = q.opens ∧ w' = w₁ ∨ c.opens = true ∧ q.opens = false ∧
          q.searches = false ∧ w' = { w₁ with file := Function.update w₁.file r.ret none }) := by
      rcases hev with ⟨hc, hev⟩ | ⟨hc, hop, hse, hev⟩
      all_goals
        rw [hev, Machine.runFrom_cons] at h
        obtain ⟨w₁, hw₁, hrest⟩ := Option.bind_eq_some_iff.mp h
        refine ⟨w₁, hw₁, ?_⟩
      · exact Or.inl ⟨hc, (Option.some.inj hrest).symm⟩
      · exact Or.inr ⟨hc, hop, hse, (Option.some.inj hrest).symm⟩
    obtain ⟨a, ha, hresp, hcase⟩ := answered_spec hcl (htgt c hask) hw₁
    have hno : (q.round env d i).isOk = false → w' = w := fun h => by
      rw [hround] at h
      cases h
    have hinj : ∀ r', q.round env d i = .ok r' → r' = r := fun r' hr' => by
      rw [hround] at hr'
      exact (Fate.ok.inj hr').symm
    rcases hcase with ⟨hc, hnone, rfl⟩ | ⟨f, hf, hfree, rfl⟩
    · rcases hw' with ⟨hop, rfl⟩ | ⟨hc', -⟩
      · refine ⟨fun j hj => Function.update_of_ne hj _ _, fun _ _ => rfl, hno, ?_, ?_⟩
        · intro hse
          rw [(FileSystem.answer_of_searches hse ha).1, Function.update_eq_self]
        · intro r' hr'
          obtain rfl := hinj r' hr'
          refine ⟨a, ha, Function.update_self .., hresp, ?_⟩
          intro hopens
          rw [← hop, hc] at hopens
          cases hopens
      · rw [hc] at hc'
        cases hc'
    · have hfile : ∀ v, w.file v ≠ none → v ≠ r.ret := by
        rintro v hv rfl
        exact hv hfree
      have hnse : q.searches = true → w' = w := fun hse => by
        rw [(FileSystem.answer_of_searches hse ha).2] at hf
        cases hf
      rcases hw' with ⟨hop, rfl⟩ | ⟨-, hop, -, rfl⟩
      · refine ⟨fun j hj => Function.update_of_ne hj _ _,
          fun v hv => Function.update_of_ne (hfile v hv) _ _, hno, hnse, ?_⟩
        intro r' hr'
        obtain rfl := hinj r' hr'
        exact ⟨a, ha, Function.update_self .., hresp, fun _ =>
          ⟨f, hf, hfree, Function.update_self ..⟩⟩
      · refine ⟨fun j hj => Function.update_of_ne hj _ _, ?_, hno, hnse, ?_⟩
        · intro v hv
          show Function.update (Function.update w.file _ _) _ none v = _
          rw [Function.update_of_ne (hfile v hv), Function.update_of_ne (hfile v hv)]
        · intro r' hr'
          refine ⟨a, ha, Function.update_self .., by rw [hinj r' hr', hresp], ?_⟩
          intro hopens
          rw [hop] at hopens
          cases hopens

/-! ## All of them -/

/-- **Asking the replicas of a list** moves the stores of those that answer by their answer and
leaves the other stores and the open files alone. -/
theorem calls_spec {l : List (Fin n)} (hl : l.Nodup)
    (htgt : ∀ i cl, q.ask env d.config i = some cl → w.Targets i cl g)
    (h : Machine.runFrom (absorb fs d.config.root) w (l.flatMap (q.events env d)) = some w') :
    (∀ i, i ∉ l ∨ (q.round env d i).isOk = false → w'.store i = w.store i) ∧
      (∀ v, w.file v ≠ none → w'.file v = w.file v) ∧
      ∀ i ∈ l, ∀ r, q.round env d i = .ok r →
        Answered fs (dropPriv env d.creds).creds q g i r w w' := by
  induction l generalizing w with
  | nil =>
      cases h
      exact ⟨fun _ _ => rfl, fun _ _ => rfl, by simp⟩
  | cons i l ih =>
      obtain ⟨hi, hl⟩ := List.nodup_cons.mp hl
      rw [List.flatMap_cons, Machine.runFrom_append] at h
      obtain ⟨w₁, h₁, h₂⟩ := Option.bind_eq_some_iff.mp h
      obtain ⟨hstore₁, hfile₁, hno₁, -, hok₁⟩ := asked_of_events (htgt i) h₁
      obtain ⟨hstore₂, hfile₂, hok₂⟩ := ih hl (fun j cl hcl => (htgt j cl hcl).mono hfile₁) h₂
      have hkeep : ∀ v, w.file v ≠ none → w'.file v = w.file v := fun v hv => by
        rw [hfile₂ v (by rwa [hfile₁ v hv]), hfile₁ v hv]
      refine ⟨?_, hkeep, ?_⟩
      · intro j hj
        by_cases hji : j = i
        · subst hji
          have hno := hj.resolve_left fun h => h List.mem_cons_self
          rw [hstore₂ j (Or.inl hi), hno₁ hno]
        · rw [hstore₂ j (hj.imp_left fun h hm => h (List.mem_cons_of_mem i hm)), hstore₁ j hji]
      · intro j hj r hr
        rcases List.mem_cons.mp hj with rfl | hj
        · obtain ⟨a, ha, hst, hresp, hopen⟩ := hok₁ r hr
          refine ⟨a, ha, by rw [hstore₂ j (Or.inl hi), hst], hresp, ?_⟩
          intro hop
          obtain ⟨f, hf, hfree, hnew⟩ := hopen hop
          exact ⟨f, hf, hfree, by rw [hfile₂ _ (by rw [hnew]; exact Option.some_ne_none _), hnew]⟩
        · have hji : j ≠ i := fun h => hi (h ▸ hj)
          obtain ⟨a, ha, hst, hresp, hopen⟩ := hok₂ j hj r hr
          refine ⟨a, by rw [← hstore₁ j hji, ha], hst, hresp, ?_⟩
          intro hop
          obtain ⟨f, hf, hfree, hnew⟩ := hopen hop
          refine ⟨f, hf, ?_, hnew⟩
          by_contra hne
          exact hne (by rw [← hfile₁ _ hne, hfree])

/-- **A search does nothing to the replicas**, and its answers are the stores'. -/
theorem searched_spec (hse : q.searches = true) {l : List (Fin n)}
    (htgt : ∀ i cl, q.ask env d.config i = some cl → w.Targets i cl g)
    (h : Machine.runFrom (absorb fs d.config.root) w (l.flatMap (q.events env d)) = some w') :
    w' = w ∧ ∀ i ∈ l, ∀ r, q.round env d i = .ok r →
      Answered fs (dropPriv env d.creds).creds q g i r w w := by
  induction l with
  | nil =>
      cases h
      exact ⟨rfl, by simp⟩
  | cons i l ih =>
      rw [List.flatMap_cons, Machine.runFrom_append] at h
      obtain ⟨w₁, h₁, h₂⟩ := Option.bind_eq_some_iff.mp h
      obtain ⟨-, -, -, hsame, hok⟩ := asked_of_events (htgt i) h₁
      obtain rfl := hsame hse
      obtain ⟨rfl, hrest⟩ := ih h₂
      refine ⟨rfl, ?_⟩
      intro j hj r hr
      rcases List.mem_cons.mp hj with rfl | hj
      · exact hok r hr
      · exact hrest j hj r hr

/-! ## Answers that are taken -/

/-- Where replica `i` answers the call of a request, its store has that answer, and a new descriptor is
unused. -/
def Truthful (fs : FileSystem S F) (env : Env n) (d : Daemon n) (q : Request) (w : World n S F)
    (i : Fin n) : Prop :=
  let cr := (dropPriv env d.creds).creds
  ∀ cl r, q.ask env d.config i = some cl → env.call cr i cl = .ok r →
    let t := w.target i cl
    ∃ a, fs.exec cr (cl.relative (d.config.root i)) t.2 (w.store t.1) = .ok a ∧
      (a.opened = none → r = a.reply) ∧ (a.opened ≠ none → w.file r.ret = none)

/-- An answer of the store is taken; it touches no descriptor but a new one. -/
theorem exists_answered {cr : Creds} {cl : Call} {r : Reply} {a : Answer S F}
    (htgt : w.target i cl = (i, g))
    (h : fs.exec cr (cl.relative (d.config.root i)) g (w.store i) = .ok a)
    (hreply : a.opened = none → r = a.reply) (hfree : a.opened ≠ none → w.file r.ret = none) :
    ∃ w₁, w.answered fs d.config.root cr i cl r = some w₁ ∧
      ∀ v : ℤ, (a.opened ≠ none → v ≠ r.ret) → w₁.file v = w.file v := by
  unfold answered
  simp only [htgt, h]
  cases hop : a.opened with
  | none =>
      rw [if_pos (hreply hop)]
      exact ⟨_, rfl, fun _ _ => rfl⟩
  | some f =>
      have hne : a.opened ≠ none := by simp [hop]
      simp only [if_pos (Option.isNone_iff_eq_none.mpr (hfree hne))]
      exact ⟨_, rfl, fun v hv => Function.update_of_ne (hv (Option.some_ne_none f)) _ _⟩

/-- **A truthful replica can take part** in what it is asked; a descriptor that is new afterwards is the
one that `open` or `create` got. -/
theorem exists_run_of_events (htgt : ∀ cl, q.ask env d.config i = some cl → w.Targets i cl g)
    (h : w.Truthful fs env d q i) :
    ∃ w', Machine.runFrom (absorb fs d.config.root) w (q.events env d i) = some w' ∧
      ∀ v : ℤ, (∀ r, q.opens = true → q.round env d i = .ok r → v ≠ r.ret) →
        w'.file v = w.file v := by
  rcases Request.events_cases env d q i with ⟨hask, hev⟩ | ⟨c, e, hask, henv, hev⟩ |
    ⟨c, r, hask, henv, hev⟩
  · rw [hev]
    exact ⟨w, rfl, fun _ _ => rfl⟩
  · rw [hev]
    exact ⟨w, rfl, fun _ _ => rfl⟩
  · have hround : q.round env d i = .ok r := Request.round_eq_ok_iff.mpr ⟨c, hask, henv⟩
    have htarget := (htgt c hask).target
    obtain ⟨a, hexec, hreply, hfree⟩ := h c r hask henv
    simp only [htarget] at hexec
    obtain ⟨w₁, hw₁, hfile⟩ := exists_answered htarget hexec hreply hfree
    rcases hev with ⟨hc, hev⟩ | ⟨hc, hop, -, hev⟩
    · rw [hev]
      refine ⟨w₁, ?_, fun v hv => hfile v fun hne => ?_⟩
      · rw [Machine.runFrom_cons, absorb, hw₁]
        rfl
      · refine hv r ?_ hround
        rw [← hc]
        by_contra hno
        exact hne (FileSystem.exec_not_opening (by simpa [hc] using hno) hexec)
    · -- `mknod` closes what it opened
      rw [hev]
      refine ⟨{ w₁ with file := Function.update w₁.file r.ret none }, ?_, fun v _ => ?_⟩
      · rw [Machine.runFrom_cons, absorb, hw₁]
        rfl
      · obtain ⟨f, hf⟩ := FileSystem.exec_opening (by simpa using hc) hexec
        by_cases hv : v = r.ret
        · rw [hv, hfree (by simp [hf])]
          exact Function.update_self _ _ _
        · exact (Function.update_of_ne hv _ _).trans (hfile v fun _ => hv)

/-- **So can truthful replicas one after another**, when they get different descriptors. -/
theorem exists_run_of_round {l : List (Fin n)} (hl : q.searches = false → l.Nodup)
    (htgt : ∀ i cl, q.ask env d.config i = some cl → w.Targets i cl g)
    (h : ∀ i ∈ l, w.Truthful fs env d q i)
    (hdist : q.opens = true → ∀ i j, i ≠ j → ∀ r r', q.round env d i = .ok r →
      q.round env d j = .ok r' → r.ret ≠ r'.ret) :
    ∃ w', Machine.runFrom (absorb fs d.config.root) w (l.flatMap (q.events env d)) = some w' := by
  induction l generalizing w with
  | nil => exact ⟨w, rfl⟩
  | cons i l ih =>
      obtain ⟨hi, hrest⟩ := List.forall_mem_cons.mp h
      obtain ⟨w₁, h₁, hfile⟩ := exists_run_of_events (htgt i) hi
      have hasked := asked_of_events (htgt i) h₁
      have hmono : ∀ j cl, q.ask env d.config j = some cl → w₁.Targets j cl g := fun j cl hask =>
        (htgt j cl hask).mono hasked.kept
      rw [List.flatMap_cons, Machine.runFrom_append, h₁, Option.bind_some]
      refine ih (fun hse => (List.nodup_cons.mp (hl hse)).2) hmono fun j hj => ?_
      cases hse : q.searches with
      | true =>
          rw [hasked.searched hse]
          exact hrest j hj
      | false =>
          have hji : j ≠ i := fun hji => (List.nodup_cons.mp (hl hse)).1 (hji ▸ hj)
          intro cl r hask henv
          obtain ⟨a, hexec, hreply, hfree⟩ := hrest j hj cl r hask henv
          refine ⟨a, ?_, hreply, fun hne => ?_⟩
          · simp only [(hmono j cl hask).target]
            simp only [(htgt j cl hask).target] at hexec
            rw [hasked.other j hji]
            exact hexec
          · rw [hfile r.ret fun r' hop hr' => ?_]
            · exact hfree hne
            · have hround := Request.round_eq_ok_iff.mpr ⟨cl, hask, henv⟩
              exact fun heq => hdist hop j i hji r r' hround hr' (by exact_mod_cast heq)

/-- Closing is always possible. -/
theorem exists_run_of_closes {l : List (Event n)}
    (h : ∀ ev ∈ l, ev.isSilent = true ∨ ∃ cr i fd res, ev = .close cr i fd res) :
    ∃ w', Machine.runFrom (absorb fs root) w l = some w' := by
  induction l generalizing w with
  | nil => exact ⟨w, rfl⟩
  | cons ev l ih =>
      obtain ⟨hev, hl⟩ := List.forall_mem_cons.mp h
      rw [Machine.runFrom_cons]
      rcases hev with hev | ⟨cr, i, fd, res, rfl⟩
      · rw [absorb_of_isSilent hev]
        exact ih hl
      · exact ih hl

end ask

end World

end ChironFs
