import ChironFs.Model.LinkBuffer
import ChironFs.Model.Sample
import ChironFs.Spec.Tries

/-!
# What `readlink` writes

* `chironReadlinkInto_eq`: with the caller's memory as state, the request does what `chironReadlink`
  does.
* `readlinkLoop_spec`: whatever the replicas asked before did, the one that answers is the last to
  write.
* `LinkBuffer.answered_iff`: what it leaves, by the length of its text.
* `readlink_respects_iff`: the buffer is respected exactly if the text is shorter than it.
* `readlink_overruns`: a text that fills the buffer puts the NUL behind it.
-/

namespace ChironFs

open Posix

variable {n : ℕ}

/-! ## Counts as `int` -/

theorem toInt_of_lt {count : ℕ} (h : count < 2 ^ 31) : toInt count = count := by
  have hlt : count < 2147483648 := h
  have hbmod := Int.bmod_def count 4294967296
  show Int.bmod count 4294967296 = count
  split_ifs at hbmod <;> omega

/-- A count too large for an `int` becomes a negative number, or a much smaller one. -/
theorem toInt_of_le {count : ℕ} (h : 2 ^ 31 ≤ count) : toInt count < 0 ∨ toInt count + 1 < count := by
  have hle : 2147483648 ≤ count := h
  have hbmod := Int.bmod_def count 4294967296
  show Int.bmod count 4294967296 < 0 ∨ Int.bmod count 4294967296 + 1 < count
  split_ifs at hbmod <;> omega

/-! ## Memory -/

namespace LinkBuffer

theorem store_byte (i : ℤ) (v : UInt8) (b : LinkBuffer) : (b.store i v).byte i = v :=
  Function.update_self ..

theorem store_byte_of_ne {i k : ℤ} (h : k ≠ i) (v : UInt8) (b : LinkBuffer) :
    (b.store i v).byte k = b.byte k := Function.update_of_ne h ..

theorem storeAll_byte_of_lt {i k : ℤ} (h : k < i) (vs : List UInt8) (b : LinkBuffer) :
    (b.storeAll i vs).byte k = b.byte k := by
  induction vs generalizing i b with
  | nil => rfl
  | cons v vs ih =>
      rw [storeAll, ih (by omega), store_byte_of_ne (by omega)]

/-- The bytes are found where they were stored. -/
theorem storeAll_byte (vs : List UInt8) (i : ℤ) (b : LinkBuffer) {k : ℕ} (h : k < vs.length) :
    (b.storeAll i vs).byte (i + k) = vs[k] := by
  induction vs generalizing i b k with
  | nil => exact absurd h (Nat.not_lt_zero k)
  | cons v vs ih =>
      rw [storeAll]
      cases k with
      | zero =>
          rw [storeAll_byte_of_lt (by omega)]
          exact (congrArg _ (add_zero i)).trans (store_byte ..)
      | succ k =>
          have hnext : i + (k + 1 : ℕ) = i + 1 + k := by push_cast; ring
          rw [hnext, ih (i + 1) _ (by simpa using h)]
          rfl

theorem mem_written_storeAll {vs : List UInt8} {i x : ℤ} {b : LinkBuffer} :
    x ∈ (b.storeAll i vs).written ↔ x ∈ b.written ∨ i ≤ x ∧ x < i + vs.length := by
  induction vs generalizing i b with
  | nil => simp [storeAll]
  | cons v vs ih =>
      have hrange : x = i ∨ (i + 1 ≤ x ∧ x < i + 1 + vs.length) ↔
          i ≤ x ∧ x < i + (v :: vs).length := by
        rw [List.length_cons]
        omega
      rw [storeAll, ih, store, List.mem_cons, ← hrange, or_comm (a := x = i), or_assoc]

/-- Nothing was written outside the buffer. -/
def Inside (size : ℕ) (b : LinkBuffer) : Prop := ∀ i ∈ b.written, 0 ≤ i ∧ i < size

/-- The buffer holds as much of the text as it has room for, and then a NUL. -/
structure Holds (size : ℕ) (text : List UInt8) (b : LinkBuffer) : Prop where
  chars : ∀ k < min text.length (size - 1), text[k]? = some (b.byte k)
  nul : b.byte (min text.length (size - 1) : ℕ) = 0

/-- `readlink()` keeps to the size it is given. -/
theorem Inside.storeAll {size : ℕ} {b : LinkBuffer} (h : b.Inside size) {vs : List UInt8}
    (hvs : vs.length ≤ size) : (b.storeAll 0 vs).Inside size := by
  intro x hx
  rcases mem_written_storeAll.mp hx with hx | hx
  · exact h x hx
  · omega

/-- The memory once `readlink()` and the handler have stored a link's text. -/
def answered (size : ℕ) (text : List UInt8) (b : LinkBuffer) : LinkBuffer :=
  (b.storeAll 0 (text.take size)).store (toInt (min text.length size)) 0

/-- A text shorter than the buffer is stored with its NUL. -/
theorem answered_of_lt {size : ℕ} {text : List UInt8} {b : LinkBuffer} (hin : b.Inside size)
    (hsize : text.length < size) (hint : text.length < 2 ^ 31) :
    (b.answered size text).Inside size ∧ (b.answered size text).Holds size text := by
  have hres : toInt (min text.length size) = text.length := by
    rw [min_eq_left hsize.le, toInt_of_lt hint]
  have hroom : min text.length (size - 1) = text.length := min_eq_left (by omega)
  have htake : text.take size = text := List.take_of_length_le hsize.le
  rw [answered, hres, htake]
  refine ⟨?_, ?_, ?_⟩
  · intro x hx
    rcases List.mem_cons.mp hx with rfl | hx
    · omega
    · exact hin.storeAll hsize.le x hx
  · intro k hk
    have hk : k < text.length := by omega
    have hbyte := storeAll_byte text 0 b hk
    rw [zero_add] at hbyte
    rw [store_byte_of_ne (by omega), hbyte, List.getElem?_eq_getElem hk]
  · rw [hroom, store_byte]

/-- **One answer**: the memory is as it should be exactly if the text is shorter than the buffer, and
its length an `int`. -/
theorem answered_iff {size : ℕ} {text : List UInt8} {b : LinkBuffer} (hin : b.Inside size)
    (hnul : 0 ∉ text) :
    (b.answered size text).Inside size ∧ (b.answered size text).Holds size text ↔
      text.length < size ∧ text.length < 2 ^ 31 := by
  refine ⟨?_, fun h => answered_of_lt hin h.1 h.2⟩
  rintro ⟨hinside, hholds⟩
  obtain ⟨hge, hlt⟩ := hinside _ List.mem_cons_self
  rcases Nat.lt_or_ge (min text.length size) (2 ^ 31) with hsmall | hlarge
  · rw [toInt_of_lt hsmall] at hlt
    omega
  · -- the NUL went over a byte of the text
    exfalso
    have hcut : toInt (min text.length size) + 1 < (min text.length size : ℕ) :=
      (toInt_of_le hlarge).resolve_left (not_lt.mpr hge)
    obtain ⟨k, hk⟩ := Int.eq_ofNat_of_zero_le hge
    have hroom : k < min text.length (size - 1) := by omega
    have hbyte := hholds.chars k hroom
    rw [← hk, answered, store_byte] at hbyte
    exact hnul (List.mem_of_getElem? hbyte)

end LinkBuffer

/-! ## The loop -/

/-- `readlink()` as it is documented: it stores the text of the link on the replica, as much of it as
the size allows and without a NUL, and returns how much. -/
def Env.LinksTo (env : Env n) (target : Fin n → List UInt8) : Prop :=
  ∀ cr i fname size r, env.call cr i (.readlink fname size) = .ok r →
    r.out = (target i).take size ∧ r.ret = min (target i).length size

/-- The replica would be asked, and its answer is not taken for a failure. -/
def answersLink (env : Env n) (cr : Creds) (c : Config n) (name : Fin n → Option Path) (size : ℕ)
    (i : Fin n) : Bool :=
  !(c.replicas i).disabled && match name i with
    | none => false
    | some fname =>
        match env.call cr i (.readlink fname size) with
        | .error _ => false
        | .ok r => toInt r.ret ≠ -1

section loop

variable {env : Env n} {cr : Creds} {name : Fin n → Option Path} {size : ℕ} {errno : ℤ}
  {target : Fin n → List UInt8} {c₀ c c' : Config n} {t t' : Tally n} {buf buf' : LinkBuffer}

/-- **The loop**, by induction on the tries: what was written up to the answer lies in the buffer,
and the first replica that answers ends it. -/
theorem readlinkLoop_spec (hlinks : env.LinksTo target) {ks : List ℕ}
    (hcur : c₀.SameButCursors c) (hin : buf.Inside size)
    (h : readlinkLoop env cr name size errno ks c t buf = some (c', t', buf')) :
    ∃ b : LinkBuffer, b.Inside size ∧
      match (c.tries ks).find? (answersLink env cr c₀ name size) with
      | none => buf' = b
      | some i => buf' = b.answered size (target i) ∧ 0 < t'.succCnt := by
  induction ks generalizing c t buf with
  | nil =>
      cases h
      exact ⟨buf', hin, rfl⟩
  | cons k ks ih =>
      rw [readlinkLoop] at h
      rw [Config.tries]
      cases hch : c.chooseReplica k with
      | none => rw [hch] at h; cases h
      | some ic =>
          obtain ⟨i, c₁⟩ := ic
          have hcur₁ := hcur.trans (Config.chooseReplica_sameButCursors hch)
          have hdis : (c₁.replicas i).disabled = (c₀.replicas i).disabled := by
            obtain ⟨high, low, rfl⟩ := hcur₁
            rfl
          simp only [hch, hdis] at h
          -- a replica that does not answer leaves the rest of the loop to do
          have hnext : answersLink env cr c₀ name size i = false →
              (i :: c₁.tries ks).find? (answersLink env cr c₀ name size) =
                (c₁.tries ks).find? (answersLink env cr c₀ name size) := fun hno => by
            rw [List.find?_cons, hno]
          dsimp only
          cases hd : (c₀.replicas i).disabled with
          | true =>
              rw [hd, if_pos rfl] at h
              rw [hnext (by simp [answersLink, hd])]
              exact ih hcur₁ hin h
          | false =>
              rw [hd, if_neg Bool.false_ne_true] at h
              cases hname : name i with
              | none =>
                  simp only [hname] at h
                  rw [hnext (by simp [answersLink, hname])]
                  exact ih hcur₁ hin h
              | some fname =>
                  simp only [hname] at h
                  cases hcall : env.call cr i (.readlink fname size) with
                  | error e =>
                      simp only [hcall] at h
                      rw [hnext (by simp [answersLink, hname, hcall])]
                      exact ih hcur₁ hin h
                  | ok r =>
                      obtain ⟨hout, hret⟩ := hlinks cr i fname size r hcall
                      simp only [hcall] at h
                      by_cases hcut : toInt r.ret = -1
                      · rw [if_pos hcut] at h
                        rw [hnext (by simp [answersLink, hname, hcall, hcut])]
                        refine ih hcur₁ (hin.storeAll ?_) h
                        rw [hout]
                        exact List.length_take_le _ _
                      · rw [if_neg hcut] at h
                        cases h
                        refine ⟨buf, hin, ?_⟩
                        have hans : answersLink env cr c₀ name size i = true := by
                          simp [answersLink, hd, hname, hcall, hcut]
                        simp only [List.find?_cons, hans]
                        refine ⟨?_, Nat.succ_pos _⟩
                        rw [LinkBuffer.answered, hout, hret]

/-- Where every count is an `int`, the loop is that of the requests one replica answers. -/
theorem readlinkLoop_eq (hint : ∀ cr i cl r, env.call cr i cl = .ok r → r.ret < 2 ^ 31)
    (cr : Creds) (name : Fin n → Option Path) (size : ℕ) (errno : ℤ) (ks : List ℕ) (c : Config n)
    (t : Tally n) (buf : LinkBuffer) :
    (readlinkLoop env cr name size errno ks c t buf).map (fun x => (x.1, x.2.1)) =
      (firstLoop env cr (fun i => (name i).map (.readlink · size)) ks c t).map
        fun x => (x.1, x.2.1) := by
  induction ks generalizing c t buf with
  | nil => rfl
  | cons k ks ih =>
      rw [readlinkLoop, firstLoop]
      cases c.chooseReplica k with
      | none => rfl
      | some ic =>
          dsimp only
          split_ifs with hdis
          · exact ih _ _ _
          · cases name ic.1 with
            | none => exact ih _ _ _
            | some fname =>
                simp only [Option.map_some]
                cases hcall : env.call cr ic.1 (.readlink fname size) with
                | error e => exact ih _ _ _
                | ok r =>
                    have hres : toInt r.ret ≠ -1 := by
                      rw [toInt_of_lt (hint cr _ _ r hcall)]
                      omega
                    simp only [if_neg hres]
                    rfl

end loop

/-! ## The request -/

/-- The replica that answers a `readlink`: of those gone over, the first that does. -/
def linkAnswer (path : Path) (size : ℕ) (env : Env n) (d : Daemon n) : Option (Fin n) :=
  if env.calloc 0 = false then none
  else (d.config.tries (List.range n)).find?
    (answersLink env (dropPriv env d.creds).creds d.config (env.xlate d.config path ·) size)

section request

variable {path : Path} {size : ℕ} {errno : ℤ} {before : ℤ → UInt8} {env : Env n} {d : Daemon n}
  {o : Outcome n} {b : LinkBuffer} {target : Fin n → List UInt8}

/-- With the memory as state the request leaves the daemon, the trace and the value it did. -/
theorem chironReadlinkInto_eq (hint : ∀ cr i cl r, env.call cr i cl = .ok r → r.ret < 2 ^ 31) :
    (chironReadlinkInto path size errno { byte := before } env d).map
        (fun x => (x.1.daemon, x.1.trace, x.1.response.ret)) =
      (chironReadlink path size env d).map fun o => (o.daemon, o.trace, o.response.ret) := by
  unfold chironReadlinkInto chironReadlink onFirstReplica
  dsimp only
  split_ifs with hcalloc
  · rfl
  · have hloop := readlinkLoop_eq hint (dropPriv env d.creds).creds (env.xlate d.config path ·) size
      errno (List.range n) d.config {} { byte := before }
    cases hinto : readlinkLoop env (dropPriv env d.creds).creds (env.xlate d.config path ·) size
        errno (List.range n) d.config {} { byte := before } with
    | none =>
        rw [hinto] at hloop
        cases hfirst : firstLoop env (dropPriv env d.creds).creds
            (fun i => (env.xlate d.config path i).map (.readlink · size)) (List.range n) d.config {}
          with
        | none => rfl
        | some x => rw [hfirst] at hloop; cases hloop
    | some x =>
        rw [hinto] at hloop
        obtain ⟨⟨c, t, ans⟩, hfirst, hx⟩ := Option.map_eq_some_iff.mp hloop.symm
        obtain ⟨rfl, rfl⟩ := Prod.mk.inj hx
        rw [hfirst]
        simp only [Option.bind_eq_bind, Option.bind_some, Option.map_some, conclude]
        split_ifs
        · rfl
        · cases ans <;> rfl

/-- **`readlink` respects its buffer exactly if the text is shorter than it** (and its length an
`int`): for every size, every configuration and every course of the calls, when the request returns
success nothing was written outside the buffer and the buffer holds the text of the replica that
answers, cut to make room for the NUL. -/
theorem readlink_respects_iff (hlinks : env.LinksTo target) (hnul : ∀ i, 0 ∉ target i)
    (h : chironReadlinkInto path size errno { byte := before } env d = some (o, b)) :
    (o.response.ret = 0 → b.Inside size ∧
        ∀ i, linkAnswer path size env d = some i → b.Holds size (target i)) ↔
      ∀ i, linkAnswer path size env d = some i →
        (target i).length < size ∧ (target i).length < 2 ^ 31 := by
  unfold chironReadlinkInto at h
  unfold linkAnswer
  split_ifs at h ⊢ with hcalloc
  · cases h
    refine iff_of_true (fun hret => absurd hret ENOMEM.neg_ne_zero) ?_
    rintro i ⟨⟩
  · obtain ⟨⟨c, t, buf⟩, hloop, hend⟩ := Option.bind_eq_some_iff.mp h
    cases hend
    have hclean : LinkBuffer.Inside size { byte := before } :=
      fun _ hx => absurd hx List.not_mem_nil
    obtain ⟨b₀, hin, hspec⟩ := readlinkLoop_spec hlinks (.refl _) hclean hloop
    cases hfind : (d.config.tries (List.range n)).find? (answersLink env (dropPriv env d.creds).creds
        d.config (env.xlate d.config path ·) size) with
    | none =>
        rw [hfind] at hspec
        obtain rfl : b = b₀ := hspec
        refine iff_of_true (fun _ => ⟨hin, ?_⟩) ?_ <;> rintro i ⟨⟩
    | some i =>
        rw [hfind] at hspec
        obtain ⟨rfl, hsucc⟩ := hspec
        have hret : (conclude "readlink" env c (dropPriv env d.creds).creds
            (dropPriv env d.creds).trace t { ret := 0 }).response.ret = 0 := by
          rw [conclude, if_neg hsucc.ne']
          rfl
        simp only [hret, Option.some.injEq, forall_eq', true_implies]
        exact LinkBuffer.answered_iff hin (hnul i)

end request

/-- Replica `0` cannot read the link, on replica `1` its text is `xyz`. -/
def linkXyz : Env 2 := plainEnv fun i c =>
  match i, c with
  | 1, .readlink _ size => .ok { ret := min 3 size, out := [120, 121, 122].take size }
  | _, _ => .error EACCES

theorem linkXyz_linksTo : linkXyz.LinksTo fun _ => [120, 121, 122] := by
  intro cr i fname size r h
  have hi : i = 1 := by
    match i, h with
    | 1, _ => rfl
  subst hi
  cases h
  exact ⟨rfl, rfl⟩

/-- A text as long as the buffer: the NUL goes behind it, and the text is not cut. -/
theorem readlink_overruns :
    linkXyz.LinksTo (fun _ => [120, 121, 122]) ∧ linkAnswer fileF 3 linkXyz rootDaemon = some 1 ∧
      ∃ o b, chironReadlinkInto fileF 3 0 { byte := fun _ => 170 } linkXyz rootDaemon = some (o, b) ∧
        o.response.ret = 0 ∧ b.written = [3, 2, 1, 0] ∧ ¬ b.Inside 3 ∧
        ¬ b.Holds 3 [120, 121, 122] := by
  refine ⟨linkXyz_linksTo, by decide +kernel, _, _, rfl, by decide +kernel, by decide +kernel,
    ?_, ?_⟩
  · intro hin
    exact absurd (hin 3 (by decide +kernel)).2 (by decide)
  · intro hholds
    exact absurd hholds.nul (by decide +kernel)

/-- A larger buffer. -/
theorem readlink_respects_iff_xyz :
    ∃ o b, chironReadlinkInto fileF 8 0 { byte := fun _ => 170 } linkXyz rootDaemon = some (o, b) ∧
      o.response.ret = 0 ∧ b.Inside 8 ∧ b.Holds 8 [120, 121, 122] := by
  refine ⟨_, _, rfl, by decide +kernel, ?_⟩
  have hrespects := readlink_respects_iff linkXyz_linksTo (fun _ => by decide)
    (rfl : chironReadlinkInto fileF 8 0 { byte := fun _ => 170 } linkXyz rootDaemon = _)
  have hall := (hrespects.mpr fun i _ => ⟨by decide, by decide⟩) (by decide +kernel)
  exact ⟨hall.1, hall.2 1 (by decide +kernel)⟩

end ChironFs
