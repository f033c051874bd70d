import ChironFs.Model.Administration
import ChironFs.Model.Sample
import ChironFs.Spec.Session
import ChironFs.Spec.Tries

/-!
# Replicas that come back

* `Use.Own`: a call uses a descriptor that was opened on its replica for its open file, and the
  replica was there when the file was opened.
* `enabled_unopened`: it fails when a replica is enabled again: the entry it has in the vectors of
  the files opened in between is zero, which `write` takes for a descriptor.
* `Supervised.MeetsKnown`: the condition on one step. `Supervised.uses_own`: in every run whose steps
  meet it, every call uses a descriptor of its own.
* `Supervised.exists_not_own`, `Supervised.opens_nothing`: what becomes of a step that does not meet
  it.
-/

namespace ChironFs

open Posix Replication

variable {n : ℕ}

/-- The call uses what `open` or `creat` returned on that replica for that open file, and the replica
was not disabled when the file was opened. -/
def Use.Own (u : Use n) : Prop := (u.replica, u.fd) ∈ u.handle.opened ∧ u.absent u.replica = false

namespace Supervised

/-- Nothing open, no call made. -/
def Starts (s : Supervised n) : Prop := s.session.live = [] ∧ s.uses = []

/-- What the step takes for granted: a file is opened while some replica is enabled, and a `read` or
`write` goes over no enabled replica that was disabled when its file was opened. -/
def MeetsKnown (s : Supervised n) : Action n → Prop
  | .request q env =>
      (q.opens = true → ∃ i, s.session.daemon.config.enabled i) ∧
        (q.releases = false → q.early env s.session.daemon.config = none →
          ∀ fh, q.uses = some fh → ∀ i ∈ q.tries env s.session.daemon,
            s.session.daemon.config.enabled i → s.absent fh i = false)
  | .disable _ | .enable _ => True

/-! ## The invariant -/

/-- The slot of a live handle holds its vector; handles have slots of their own; in the vector of a
handle a replica that was there has the descriptor it opened or none, and one that was disabled has
zero; every call so far used a descriptor of its own. -/
structure Inv (s : Supervised n) : Prop where
  slot : ∀ x ∈ s.session.live, s.session.daemon.config.tabFd x.fh = some x.fd
  nodup : (s.session.live.map Handle.fh).Nodup
  present : ∀ x ∈ s.session.live, ∀ i, s.absent x.fh i = false →
    (i, x.fd i) ∈ x.opened ∨ x.fd i < 0
  absent : ∀ x ∈ s.session.live, ∀ i, s.absent x.fh i = true → x.fd i = 0
  own : ∀ u ∈ s.uses, u.Own

theorem Starts.inv {s : Supervised n} (h : s.Starts) : s.Inv where
  slot := by simp [h.1]
  nodup := by simp [h.1]
  present := by simp [h.1]
  absent := by simp [h.1]
  own := by simp [h.2]

section step

variable {s s' : Supervised n} {q : Request} {env : Env n} {o : Outcome n}

theorem step_request_eq_some_iff :
    s.step (.request q env) = some s' ↔
      s.session.admits q = true ∧ ∃ o, handle q env s.session.daemon = some o ∧ s' = s.after q o := by
  rw [step]
  split_ifs with h
  · simp [h, eq_comm]
  · simp [h]

/-- An administrator's command keeps the handles and the calls made. -/
theorem Inv.administer (hi : s.Inv) {change : Config n × List (Event n)}
    (htab : change.1.tabFd = s.session.daemon.config.tabFd) :
    Inv { s with session := s.session.administer change } where
  slot := by
    intro x hx
    exact (congrFun htab x.fh).trans (hi.slot x hx)
  nodup := hi.nodup
  present := hi.present
  absent := hi.absent
  own := hi.own

/-! ## The calls of one request -/

/-- The open file of a request that comes with one is the live handle of that number. -/
theorem file_of_uses (hi : s.Inv) {x : Handle n} (hx : x ∈ s.session.live)
    (hu : q.uses = some x.fh) (o : Outcome n) : s.file q o = some (x, s.absent x.fh) := by
  have hop : q.opens = false := by cases q <;> first | rfl | cases hu
  have hfind : s.session.live.find? (fun y => y.fh = x.fh) = some x := by
    obtain ⟨y, hy⟩ : ∃ y, s.session.live.find? (fun y => y.fh = x.fh) = some y :=
      Option.isSome_iff_exists.mp (List.find?_isSome.mpr ⟨x, hx, by simp⟩)
    have hfh : y.fh = x.fh := by simpa using List.find?_some hy
    rw [hy, List.inj_on_of_nodup_map hi.nodup (List.mem_of_find?_eq_some hy) hx hfh]
  simp only [file, hop, hu, Bool.false_eq_true, if_false, Option.bind_eq_bind, Option.bind_some,
    hfind]

theorem file_of_opens (hop : q.opens = true) (o : Outcome n) :
    s.file q o = some (o.handle, s.absentNow) := if_pos hop

/-- The calls of a request, one by one. -/
theorem mem_newUses {x : Handle n} {absent : Fin n → Bool} (hfile : s.file q o = some (x, absent))
    {u : Use n} :
    u ∈ s.newUses q o ↔ ∃ ev ∈ o.trace, ∃ i v, ev.usedFd = some (i, v) ∧ u = ⟨x, absent, i, v⟩ := by
  simp only [newUses, hfile, List.mem_map, List.mem_filterMap, Prod.exists]
  constructor
  · rintro ⟨i, v, ⟨ev, hev, hfd⟩, rfl⟩
    exact ⟨ev, hev, i, v, hfd, rfl⟩
  · rintro ⟨ev, hev, i, v, hfd, rfl⟩
    exact ⟨i, v, ⟨ev, hev, hfd⟩, rfl⟩

theorem usedFd_of_silent {ev : Event n} (h : ev.isSilent = true) : ev.usedFd = none := by
  cases ev <;> first | rfl | cases h

/-- The events of a request with a descriptor are the calls on the replicas it goes over, and for
`open` and `create` the closing of what they opened. -/
theorem usedFd_of_served {tried : List (Fin n)} (hsv : Served q env s.session.daemon tried o)
    {ev : Event n} (hev : ev ∈ o.trace) {i : Fin n} {v : ℤ} (hfd : ev.usedFd = some (i, v)) :
    (∃ j ∈ tried, ev ∈ q.events env s.session.daemon j) ∨
      q.opens = true ∧ ∃ r, q.round env s.session.daemon i = .ok r ∧ v = r.ret := by
  have hloud : ∀ {ev : Event n}, ev.isSilent = true → ev.usedFd ≠ some (i, v) := fun h h' => by
    rw [usedFd_of_silent h] at h'
    cases h'
  obtain ⟨tail, htr, hnil, htail⟩ := hsv.trace
  rw [htr] at hev
  simp only [List.mem_append, List.mem_flatMap] at hev
  rcases hev with (hev | (hev | hev) | hev) | hev
  · exact absurd hfd (hloud (Event.isSilent_of_isCred (isCred_of_mem_dropPriv hev)))
  · exact Or.inl hev
  · exact absurd hfd (hloud (isSilent_of_mem_dropLogs hev))
  · right
    constructor
    · by_contra hop
      rw [hnil (Bool.not_eq_true _ ▸ hop)] at hev
      cases hev
    · rcases htail ev hev with rfl | ⟨j, r, hr, rfl⟩
      · cases hfd
      · cases hfd
        exact ⟨r, hr, rfl⟩
  · exact absurd hfd (hloud (Event.isSilent_of_isCred (isCred_of_mem_reacquirePriv hev)))

/-- The descriptor `read` and `write` use on a replica is its entry in the vector of the slot. -/
theorem usedFd_of_events {fh : ℕ} (hu : q.uses = some fh) (hrel : q.releases = false) {d : Daemon n}
    {fd : Fin n → ℤ} (hslot : d.config.tabFd fh = some fd) {j : Fin n} {ev : Event n}
    (hev : ev ∈ q.events env d j) {i : Fin n} {v : ℤ} (hfd : ev.usedFd = some (i, v)) :
    i = j ∧ d.config.enabled j ∧ v = fd j ∧ 0 ≤ fd j := by
  have hcall : ∀ c res cr, q.ask env d.config j = some c →
      (Event.call cr j c res).usedFd = some (i, v) →
      i = j ∧ d.config.enabled j ∧ v = fd j ∧ 0 ≤ fd j := by
    intro c res cr hask hfd
    obtain ⟨hen, hc⟩ := Request.ask_eq_some_iff.mp hask
    cases q with
    | read | write =>
        cases hu
        simp only [Request.call, hslot, Option.bind_some, readCall, writeCall] at hc
        split_ifs at hc with hneg
        cases hc
        cases hfd
        exact ⟨rfl, hen, rfl, not_lt.mp hneg⟩
    | release => cases hrel
    | _ => cases hu
  rcases Request.events_cases env d q j with ⟨-, h⟩ | ⟨c, e, hask, -, h⟩ |
    ⟨c, r, hask, -, ⟨-, h⟩ | ⟨hc, hop, -, h⟩⟩
  all_goals rw [h] at hev
  · cases hev
  · obtain rfl := List.mem_singleton.mp hev
    exact hcall c _ _ hask hfd
  · obtain rfl := List.mem_singleton.mp hev
    exact hcall c _ _ hask hfd
  · -- only `mknod` closes what it opened on the spot
    obtain ⟨-, hc'⟩ := Request.ask_eq_some_iff.mp hask
    cases q with
    | read | write =>
        cases hu
        simp only [Request.call, hslot, Option.bind_some, readCall, writeCall] at hc'
        split_ifs at hc'
        cases hc'
        cases hc
    | release => cases hrel
    | _ => cases hu

/-- `open` and `create` use no descriptor on a replica they go over. -/
theorem usedFd_of_opens_events (hop : q.opens = true) {d : Daemon n} {j : Fin n} {ev : Event n}
    (hev : ev ∈ q.events env d j) : ev.usedFd = none := by
  have hcall : ∀ c res cr, q.ask env d.config j = some c →
      (Event.call cr j c res).usedFd = none := by
    intro c res cr hask
    obtain ⟨-, hc⟩ := Request.ask_eq_some_iff.mp hask
    cases q with
    | «open» | create =>
        obtain ⟨fname, -, rfl⟩ := Option.map_eq_some_iff.mp hc
        rfl
    | _ => cases hop
  rcases Request.events_cases env d q j with ⟨-, h⟩ | ⟨c, e, hask, -, h⟩ |
    ⟨c, r, hask, -, ⟨-, h⟩ | ⟨-, hno, -⟩⟩
  · rw [h] at hev
    cases hev
  · rw [h] at hev
    obtain rfl := List.mem_singleton.mp hev
    exact hcall c _ _ hask
  · rw [h] at hev
    obtain rfl := List.mem_singleton.mp hev
    exact hcall c _ _ hask
  · rw [hop] at hno
    cases hno

/-- An entry of a live handle's vector that is a descriptor was opened for it, if its replica was
there. -/
theorem Inv.mem_opened (hi : s.Inv) {x : Handle n} (hx : x ∈ s.session.live) {i : Fin n}
    (hthere : s.absent x.fh i = false) (hge : 0 ≤ x.fd i) : (i, x.fd i) ∈ x.opened :=
  (hi.present x hx i hthere).resolve_right (not_lt.mpr hge)

/-- `release` closes positive descriptors only, so none of a replica that was not there. -/
theorem own_of_release (hi : s.Inv) {x : Handle n} (hx : x ∈ s.session.live) :
    ∀ u ∈ s.newUses (.release x.fh) (releaseOutcome env s.session.daemon x.fh x.fd), u.Own := by
  intro u hu
  obtain ⟨ev, hev, i, v, hfd, rfl⟩ := (mem_newUses (file_of_uses hi hx rfl _)).mp hu
  have hcred : ev.isCred = false := by
    cases hcred : ev.isCred with
    | false => rfl
    | true =>
        rw [usedFd_of_silent (Event.isSilent_of_isCred hcred)] at hfd
        cases hfd
  obtain ⟨j, hcl, rfl⟩ := mem_releaseOutcome hcred hev
  cases hfd
  have hpos : 0 < x.fd i := by
    rw [Config.closes, Bool.and_eq_true] at hcl
    exact of_decide_eq_true hcl.1
  cases hthere : s.absent x.fh i with
  | false => exact ⟨hi.mem_opened hx hthere hpos.le, hthere⟩
  | true =>
      rw [hi.absent x hx i hthere] at hpos
      exact absurd hpos (lt_irrefl 0)

/-- `open` and `create` close, if anything, what they opened. -/
theorem own_of_opens (hop : q.opens = true) :
    ∀ u ∈ s.newUses q (q.openOutcome env s.session.daemon), u.Own := by
  intro u hu
  obtain ⟨ev, hev, i, v, hfd, rfl⟩ := (mem_newUses (file_of_opens hop _)).mp hu
  rcases usedFd_of_served (served_opens hop) hev hfd with ⟨j, -, hj⟩ | ⟨-, r, hr, rfl⟩
  · rw [usedFd_of_opens_events hop hj] at hfd
    cases hfd
  · constructor
    · show (i, (r.ret : ℤ)) ∈ openedFds _
      rw [openedFds_openOutcome env s.session.daemon hop]
      exact mem_roundFds.mpr ⟨r, hr, rfl⟩
    · obtain ⟨c, hask, -⟩ := Request.round_eq_ok_iff.mp hr
      exact (Request.ask_eq_some_iff.mp hask).1

/-- `read` and `write` use the entries of the replicas they go over. -/
theorem own_of_served (hi : s.Inv) {x : Handle n} (hx : x ∈ s.session.live)
    (hu : q.uses = some x.fh) (hrel : q.releases = false) {tried : List (Fin n)}
    (hsv : Served q env s.session.daemon tried o)
    (hthere : ∀ i ∈ tried, s.session.daemon.config.enabled i → s.absent x.fh i = false) :
    ∀ u ∈ s.newUses q o, u.Own := by
  intro u hnew
  obtain ⟨ev, hev, i, v, hfd, rfl⟩ := (mem_newUses (file_of_uses hi hx hu _)).mp hnew
  rcases usedFd_of_served hsv hev hfd with ⟨j, hj, hjev⟩ | ⟨hop, -⟩
  · obtain ⟨rfl, hen, rfl, hge⟩ := usedFd_of_events hu hrel (hi.slot x hx) hjev hfd
    have hthere := hthere i hj hen
    exact ⟨hi.mem_opened hx hthere hge, hthere⟩
  · cases q with
    | «open» | create => cases hu
    | _ => cases hop

/-- **The calls of one request** that meets the condition. -/
theorem own_of_mem_newUses (hi : s.Inv) (hmeets : s.MeetsKnown (.request q env))
    (hadm : s.session.admits q = true) (ho : handle q env s.session.daemon = some o) :
    ∀ u ∈ s.newUses q o, u.Own := by
  rcases handle_cases ho with ⟨e, he, rfl⟩ | ⟨fh, fd, rfl, hslot, rfl⟩ | ⟨he, hrel, tried, hsv⟩
  · -- an early exit makes no calls
    intro u hu
    rw [newUses] at hu
    split at hu
    · cases hu
    · obtain ⟨p, hp, -⟩ := List.mem_map.mp hu
      obtain ⟨ev, hev, hfd⟩ := List.mem_filterMap.mp hp
      rw [usedFd_of_silent (Event.isSilent_of_isCred (isCred_of_mem_earlyOutcome hev))] at hfd
      cases hfd
  · obtain ⟨x, hx, rfl⟩ := Session.exists_live_of_admits hadm rfl
    obtain rfl : x.fd = fd := Option.some.inj ((hi.slot x hx).symm.trans hslot)
    exact own_of_release hi hx
  · cases hop : q.opens with
    | true =>
        obtain rfl := Option.some.inj ((handle_opens hop he).symm.trans ho)
        exact own_of_opens hop
    | false =>
        cases hu : q.uses with
        | none =>
            intro u hnew
            have hfile : s.file q o = none := by simp [file, hop, hu]
            rw [newUses, hfile] at hnew
            cases hnew
        | some fh =>
            obtain ⟨x, hx, rfl⟩ := Session.exists_live_of_admits hadm hu
            refine own_of_served hi hx hu hrel hsv fun i hi hen => ?_
            rw [hsv.tried_eq] at hi
            exact hmeets.2 hrel he x.fh hu i hi hen

/-! ## One step -/

/-- A request that leaves the handles as they were opened none. -/
theorem absent_after_of_live (h : (s.after q o).session.live.length ≤ s.session.live.length) :
    (s.after q o).absent = s.absent := by
  refine if_neg fun hop => ?_
  have hlive : (s.after q o).session.live = o.handle :: s.session.live := if_pos hop
  rw [hlive, List.length_cons] at h
  omega

/-- A request that opens a file notes the replicas it found disabled. -/
theorem absent_after_of_opened {x : Handle n}
    (h : (s.after q o).session.live = x :: s.session.live) :
    (s.after q o).absent = Function.update s.absent x.fh s.absentNow := by
  have hop : q.opens = true ∧ 0 ≤ o.response.ret := by
    by_contra hop
    have hlive : (s.after q o).session.live = s.session.live.filter _ := if_neg hop
    have hle := List.length_filter_le (fun y : Handle n => q.releasedFh ≠ some y.fh) s.session.live
    rw [← hlive, h, List.length_cons] at hle
    omega
  have hlive : (s.after q o).session.live = o.handle :: s.session.live := if_pos hop
  rw [hlive] at h
  obtain rfl := (List.cons.inj h).1
  exact if_pos hop

/-- What the vector of a new handle has for each replica. -/
theorem entry_of_opens {d : Daemon n} (hop : q.opens = true) (i : Fin n) :
    ((d.config.replicas i).disabled = false →
      (i, fdVector (q.round env d) i) ∈ roundFds (q.round env d) ∨
        fdVector (q.round env d) i < 0) ∧
    ((d.config.replicas i).disabled = true → fdVector (q.round env d) i = 0) := by
  by_cases hen : d.config.enabled i
  · refine ⟨fun _ => ?_, fun hdis => absurd hen (Config.not_enabled_iff.mpr hdis)⟩
    cases hR : q.round env d i with
    | skipped => exact absurd hR (Request.round_ne_skipped_iff.mpr ⟨hen, Or.inl hop⟩)
    | failed e => exact Or.inr (by simp [fdVector, hR, fdEntry])
    | ok r => exact Or.inl (mem_roundFds.mpr ⟨r, hR, by simp [fdVector, hR, fdEntry]⟩)
  · refine ⟨fun hthere => absurd hthere hen, fun hdis => ?_⟩
    have hR : q.round env d i = .skipped :=
      Request.round_eq_skipped_iff.mpr ⟨Config.guarded_of_disabled hdis _, fun _ => hen⟩
    simp only [fdVector, hR, fdEntry]

/-- **One request that meets the condition** keeps the invariant. -/
theorem after_inv (hi : s.Inv) (hmeets : s.MeetsKnown (.request q env))
    (hadm : s.session.admits q = true) (ho : handle q env s.session.daemon = some o) :
    (s.after q o).Inv := by
  have hown : ∀ u ∈ (s.after q o).uses, u.Own := fun u hu =>
    (List.mem_append.mp hu).elim (hi.own u) (own_of_mem_newUses hi hmeets hadm ho u)
  have hstep : s.session.step (q, env) = some (s.after q o).session :=
    Session.step_eq_some_iff.mpr ⟨hadm, o, ho, rfl⟩
  rcases Session.step_cases_of_slots hi.slot hmeets.1 hstep with ⟨fh, hop⟩ | ⟨x, hrel⟩ | hkept
  · have hne : ∀ y ∈ s.session.live, y.fh ≠ fh := by
      rintro y hy rfl
      have hfree := hop.slot_free
      rw [hi.slot y hy] at hfree
      cases hfree
    have habsent := absent_after_of_opened hop.live
    have hold : ∀ y ∈ s.session.live, (s.after q o).absent y.fh = s.absent y.fh := fun y hy => by
      rw [habsent, Function.update_of_ne (hne y hy)]
    have hnew : (s.after q o).absent fh = s.absentNow := by
      rw [habsent, Function.update_self]
    refine ⟨?_, ?_, ?_, ?_, hown⟩
    all_goals rw [hop.live]
    · refine List.forall_mem_cons.mpr ⟨?_, fun y hy => ?_⟩
      · rw [hop.tabFd]
        exact Function.update_self ..
      · rw [hop.tabFd, Function.update_of_ne (hne y hy)]
        exact hi.slot y hy
    · refine List.nodup_cons.mpr ⟨fun hmem => ?_, hi.nodup⟩
      obtain ⟨y, hy, hfh⟩ := List.mem_map.mp hmem
      exact hne y hy hfh
    · refine List.forall_mem_cons.mpr ⟨fun i hthere => ?_, fun y hy i hthere => ?_⟩
      · rw [hnew] at hthere
        exact (entry_of_opens hop.opens i).1 hthere
      · rw [hold y hy] at hthere
        exact hi.present y hy i hthere
    · refine List.forall_mem_cons.mpr ⟨fun i habs => ?_, fun y hy i habs => ?_⟩
      · rw [hnew] at habs
        exact (entry_of_opens hop.opens i).2 habs
      · rw [hold y hy] at habs
        exact hi.absent y hy i habs
  · have hmem : ∀ y ∈ (s.after q o).session.live, y ∈ s.session.live ∧ y.fh ≠ x.fh := by
      intro y hy
      rw [hrel.live, List.mem_filter] at hy
      simpa using hy
    have habsent : (s.after q o).absent = s.absent := absent_after_of_live (by
      rw [hrel.live]
      exact List.length_filter_le _ _)
    refine ⟨fun y hy => ?_, ?_, fun y hy => ?_, fun y hy => ?_, hown⟩
    · rw [hrel.tabFd, Function.update_of_ne (hmem y hy).2]
      exact hi.slot y (hmem y hy).1
    · rw [hrel.live]
      exact hi.nodup.sublist (List.filter_sublist.map _)
    · rw [habsent]
      exact hi.present y (hmem y hy).1
    · rw [habsent]
      exact hi.absent y (hmem y hy).1
  · have habsent : (s.after q o).absent = s.absent :=
      absent_after_of_live (congrArg List.length hkept.live).le
    refine ⟨?_, ?_, ?_, ?_, hown⟩
    all_goals rw [hkept.live]
    · rw [hkept.tabFd]
      exact hi.slot
    · exact hi.nodup
    · rw [habsent]
      exact hi.present
    · rw [habsent]
      exact hi.absent

/-- **One step that meets the condition** keeps the invariant. -/
theorem step_inv (hi : s.Inv) {a : Action n} (hmeets : s.MeetsKnown a) (h : s.step a = some s') :
    s'.Inv := by
  cases a with
  | request q env =>
      obtain ⟨hadm, o, ho, rfl⟩ := step_request_eq_some_iff.mp h
      exact after_inv hi hmeets hadm ho
  | disable i | enable i =>
      obtain rfl := Option.some.inj h
      exact hi.administer rfl

/-! ## What the condition leaves out -/

/-- The call that `read` or `write` makes on a replica whose entry is zero. -/
theorem exists_event_of_zero (env : Env n) {fh : ℕ} (hu : q.uses = some fh) (hrel : q.releases = false)
    {d : Daemon n} {fd : Fin n → ℤ} (hslot : d.config.tabFd fh = some fd) {i : Fin n}
    (hen : d.config.enabled i) (hzero : fd i = 0) :
    ∃ ev ∈ q.events env d i, ev.usedFd = some (i, 0) := by
  have hask : ∃ c, q.ask env d.config i = some c ∧
      ∀ cr res, (Event.call cr i c res).usedFd = some (i, 0) := by
    simp only [Request.ask_eq_some_iff, hen, true_and]
    cases q with
    | read fh size offset =>
        cases hu
        exact ⟨.pread 0 size offset, by simp [Request.call, hslot, readCall, hzero],
          fun _ _ => rfl⟩
    | write fh buf offset =>
        cases hu
        exact ⟨.pwrite 0 buf offset, by simp [Request.call, hslot, writeCall, hzero],
          fun _ _ => rfl⟩
    | release => cases hrel
    | _ => cases hu
  obtain ⟨c, hc, hfd⟩ := hask
  rcases Request.events_cases env d q i with ⟨hno, -⟩ | ⟨c', e, hask, -, h⟩ |
    ⟨c', r, hask, -, ⟨-, h⟩ | ⟨-, -, -, h⟩⟩
  · rw [hno] at hc
    cases hc
  all_goals
    obtain rfl := Option.some.inj (hask.symm.trans hc)
    rw [h]
    exact ⟨_, List.mem_cons_self, hfd _ _⟩

/-- **A `read` or `write` that goes over a replica that was not there** when its file was opened uses
descriptor zero on it, which was not opened for the file. -/
theorem exists_not_own (hi : s.Inv) (hadm : s.session.admits q = true)
    (ho : handle q env s.session.daemon = some o) {fh : ℕ} (hu : q.uses = some fh)
    (hrel : q.releases = false) (he : q.early env s.session.daemon.config = none) {i : Fin n}
    (hmem : i ∈ q.tries env s.session.daemon) (hen : s.session.daemon.config.enabled i)
    (habs : s.absent fh i = true) : ∃ u ∈ (s.after q o).uses, u.fd = 0 ∧ ¬ u.Own := by
  obtain ⟨x, hx, rfl⟩ := Session.exists_live_of_admits hadm hu
  obtain ⟨ev, hev, hfd⟩ := exists_event_of_zero env hu hrel (hi.slot x hx) hen
    (hi.absent x hx i habs)
  have htrace : ev ∈ o.trace := by
    rcases handle_cases ho with ⟨e, he', -⟩ | ⟨fh, fd, rfl, -⟩ | ⟨-, -, tried, hsv⟩
    · rw [he] at he'
      cases he'
    · cases hrel
    · obtain ⟨tail, htr, -⟩ := hsv.trace
      rw [← hsv.tried_eq] at hmem
      rw [htr]
      simp only [List.mem_append, List.mem_flatMap]
      exact Or.inl (Or.inr (Or.inl (Or.inl ⟨i, hmem, hev⟩)))
  refine ⟨⟨x, s.absent x.fh, i, 0⟩, List.mem_append_right _ ?_, rfl, fun hown => ?_⟩
  · exact (mem_newUses (file_of_uses hi hx hu o)).mpr ⟨ev, htrace, i, 0, hfd, rfl⟩
  · exact Bool.false_ne_true (hown.2.symm.trans habs)

/-- **With every replica disabled** `open` and `create` report success for a file that nobody opened
and that has no handle: `fi->fh` keeps its zero. -/
theorem opens_nothing (hop : q.opens = true) {d : Daemon n} (hnone : ∀ i, ¬ d.config.enabled i)
    (he : q.early env d.config = none) (ho : handle q env d = some o) :
    o.response.ret = 0 ∧ o.fh = none ∧ o.handle.opened = [] := by
  obtain rfl := Option.some.inj ((handle_opens hop he).symm.trans ho)
  have hskip : ∀ i, q.round env d i = .skipped := fun i => Request.round_eq_skipped_iff.mpr
    ⟨Config.guarded_of_disabled (Config.not_enabled_iff.mp (hnone i)) _, fun _ => hnone i⟩
  have hno : ¬ (q.round env d).Succeeded := by
    rintro ⟨i, hi⟩
    rw [hskip i] at hi
    cases hi
  refine ⟨?_, ?_, ?_⟩
  · unfold Request.openOutcome
    simp only [if_neg hno]
    exact firstError_eq_zero fun i => by rw [hskip i]; rfl
  · unfold Request.openOutcome
    simp only [if_neg hno]
    rfl
  · refine (openedFds_openOutcome env d hop).trans (List.eq_nil_iff_forall_not_mem.mpr ?_)
    rintro ⟨i, v⟩ hv
    obtain ⟨r, hr, -⟩ := mem_roundFds.mp hv
    rw [hskip i] at hr
    cases hr

end step

/-! ## Runs -/

/-- **In every run whose steps meet the condition, every call uses a descriptor of its own**: what
`open` or `creat` returned on that replica for that open file, and no file uses a replica that was
disabled when it was opened. -/
theorem uses_own {s : Supervised n} (h : Machine.ReachableBy step MeetsKnown Starts s) :
    ∀ u ∈ s.uses, u.Own :=
  (h.invariant (fun _ h₀ => h₀.inv) fun _ _ _ hmeets hi hstep => step_inv hi hmeets hstep).own

/-- Open `/f` with descriptors `5` and `6`. -/
def openF : Action 2 := .request (.open fileF 0) (plainEnv fun i _ => .ok { ret := 5 + i.val })

/-- Write to it, in its slot. -/
def writeF : Action 2 := .request (.write 6 [1] 0) (plainEnv fun _ _ => .ok { ret := 1 })

/-- The second replica is back when the file is written: the write goes to descriptor zero there. -/
theorem enabled_unopened :
    ∃ s, Machine.runFrom step { session := rootSession }
        [.disable 1, openF, .enable 1, writeF] = some s ∧
      s.uses.map (fun u => (u.replica, u.fd)) = [(0, 5), (1, 0)] ∧
      (∀ u ∈ s.uses, u.handle.opened = [(0, 5)] ∧ u.absent 1 = true) ∧ ¬ ∀ u ∈ s.uses, u.Own := by
  refine ⟨_, rfl, rfl, ?_, fun hown => ?_⟩
  · intro u hu
    fin_cases hu <;> exact ⟨rfl, rfl⟩
  · exact absurd (hown _ (List.mem_cons_of_mem _ List.mem_cons_self)).2 (by decide)

/-- The second replica was there when the file was opened, and comes back with its descriptor. -/
theorem uses_own_reenabled :
    ∃ s, Machine.runFrom step { session := rootSession }
        [openF, .disable 1, .enable 1, writeF] = some s ∧
      s.uses.map (fun u => (u.replica, u.fd)) = [(0, 5), (1, 6)] ∧ ∀ u ∈ s.uses, u.Own := by
  have hmeets : Machine.Meets step MeetsKnown { session := rootSession }
      [openF, .disable 1, .enable 1, writeF] := by
    refine ⟨⟨fun _ => ⟨0, rfl⟩, nofun⟩, fun s₁ h₁ =>
      ⟨trivial, fun s₂ h₂ => ⟨trivial, fun s₃ h₃ => ⟨⟨nofun, ?_⟩, fun _ _ => trivial⟩⟩⟩⟩
    obtain rfl := Option.some.inj h₁
    obtain rfl := Option.some.inj h₂
    obtain rfl := Option.some.inj h₃
    intro _ _ fh hfh i _ _
    cases hfh
    fin_cases i <;> rfl
  exact ⟨_, rfl, rfl, uses_own ⟨{ session := rootSession }, _, ⟨rfl, rfl⟩, hmeets, rfl⟩⟩

end Supervised

end ChironFs
