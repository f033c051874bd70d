import ChironFs.Model.Handlers

/-!
# The buffer of `readlink`

`chironReadlink` answers with the text and its NUL. Here the handler works on the caller's memory:
`readlink()` stores at `buf`, the handler stores the NUL at `buf[res]`, and every index written is
recorded, outside the buffer as well.

* `LinkBuffer`: the memory from `buf` on, and before it.
* `readlinkLoop`, `chironReadlinkInto`: the handler. Its `res` is an `int`.
-/

namespace ChironFs

open Posix

variable {n : ℕ}

/-- The bytes at `buf[i]`, and the indices at which bytes were stored. -/
structure LinkBuffer where
  byte : ℤ → UInt8
  written : List ℤ := []

namespace LinkBuffer

/-- `buf[i] = v;` -/
def store (i : ℤ) (v : UInt8) (b : LinkBuffer) : LinkBuffer where
  byte := Function.update b.byte i v
  written := i :: b.written

/-- Bytes from `buf[i]` on. -/
def storeAll : ℤ → List UInt8 → LinkBuffer → LinkBuffer
  | _, [], b => b
  | i, v :: vs, b => storeAll (i + 1) vs (b.store i v)

end LinkBuffer

/-- The value of an `int` that a count is assigned to. -/
def toInt (count : ℕ) : ℤ := Int.bmod count (2 ^ 32)

/-- The loop of `chiron_readlink`; `name` is what `xlate` gives and `errno` what a call that succeeds
leaves in `errno`. The result is `none` when `choose_replica` is killed by a remainder by zero. -/
def readlinkLoop (env : Env n) (cr : Creds) (name : Fin n → Option Path) (size : ℕ) (errno : ℤ) :
    List ℕ → Config n → Tally n → LinkBuffer → Option (Config n × Tally n × LinkBuffer)
  | [], c, t, buf => some (c, t, buf)
  | k :: ks, c, t, buf =>
      match c.chooseReplica k with
      | none => none
      | some (replica, c) =>
          if (c.replicas replica).disabled then readlinkLoop env cr name size errno ks c t buf
          else match name replica with
            | none => readlinkLoop env cr name size errno ks c t buf
            | some fname =>
                let cl := Call.readlink fname size
                match env.call cr replica cl with
                | .error e =>
                    readlinkLoop env cr name size errno ks c
                      { t with
                        errList := Function.update t.errList replica e.neg
                        failCnt := t.failCnt + 1
                        calls := t.calls ++ [.call cr replica cl (.error e)] }
                      buf
                | .ok r =>
                    let buf := buf.storeAll 0 r.out
                    let t : Tally n := { t with calls := t.calls ++ [.call cr replica cl (.ok r)] }
                    if toInt r.ret = -1 then
                      readlinkLoop env cr name size errno ks c
                        { t with
                          errList := Function.update t.errList replica (-errno)
                          failCnt := t.failCnt + 1 }
                        buf
                    else some (c, { t with succCnt := t.succCnt + 1 }, buf.store (toInt r.ret) 0)

/-- Source: `fs.c`, `chiron_readlink` -/
def chironReadlinkInto (path : Path) (size : ℕ) (errno : ℤ) (buf : LinkBuffer) (env : Env n)
    (d : Daemon n) : Option (Outcome n × LinkBuffer) :=
  let p := dropPriv env d.creds
  if env.calloc 0 = false then
    some (leave env d.config p.creds p.trace { ret := ENOMEM.neg }, buf)
  else do
    let (c, t, buf) ←
      readlinkLoop env p.creds (env.xlate d.config path ·) size errno (List.range n) d.config {} buf
    some (conclude "readlink" env c p.creds p.trace t { ret := 0 }, buf)

end ChironFs
