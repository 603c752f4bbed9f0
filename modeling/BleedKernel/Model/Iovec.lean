import BleedKernel.Lib.Ring

/-!
# Walking an iovec list

`copy_iov`, `cur_in` and `cur_out` of the unix sockets, and the two copies of
`user_copy.c` under them. Addresses and lengths are numbers: `copy_iov` takes no list of
2 GiB and more, and a range that wraps around is past `USER_MAX`. A pointer that is read
from is the bytes from there on.
-/

namespace BleedKernel.Iov

open Lib

/-- `PAGE_SIZE` -/
def pageSize : Nat := 4096

/-- `USER_MIN` -/
def userMin : Nat := 0x1000

/-- `USER_MAX` -/
def userMax : Nat := 0x7fffffffffff

/-- `UNIX_IOV_MAX` -/
def unixIovMax : Nat := 1024

/-- The errors of the copy. -/
inductive Errno where
  | emsgsize
  | enomem
  | efault
  | einval
deriving DecidableEq, Repr

/-- `user_iovec_t` -/
structure Iovec where
  base : Nat
  len : Nat
deriving DecidableEq, Repr

/-- The pages that `user_page_pte` gives the task for reading and for writing. -/
structure Pages where
  readable : Nat → Bool
  writable : Nat → Bool

/-- `user_range_mapped`, where `pte` says for which pages there is one. -/
def userRangeMapped (pte : Nat → Bool) (addr len : Nat) : Bool :=
  decide (userMin ≤ addr ∧ addr + len ≤ userMax) &&
    (List.range' (addr / pageSize) ((addr + len - 1) / pageSize + 1 - addr / pageSize)).all pte

/-- `copy_from_user`, of the bytes `mem`. -/
def copyFromUser (pages : Pages) (mem : Nat → UInt8) (src len : Nat) : Option (List UInt8) :=
  if src = 0 ∨ len = 0 then none
  else if userRangeMapped pages.readable src len then some (slice mem src len)
  else none

/-- `copy_to_user` -/
def copyToUser (pages : Pages) (mem : Nat → UInt8) (dst : Nat) (src : Nat → UInt8) (len : Nat) :
    Option (Nat → UInt8) :=
  if dst = 0 ∨ len = 0 then none
  else if userRangeMapped pages.writable dst len then some (store mem dst (slice src 0 len))
  else none

/-- The loop of `copy_iov` that adds up the lengths. -/
def totalFits : (total : Nat) → List Iovec → Bool
  | _, [] => true
  | total, e :: v => decide (total + e.len ≤ 0x7FFFFFFF) && totalFits (total + e.len) v

/-- `copy_iov`: whether `kmalloc` gives room for the list, and what `copy_from_user` brings
of it, is told from outside. -/
def copyIov (iovlen : Nat) (room : Bool) (given : Option (List Iovec)) :
    Except Errno (List Iovec) :=
  if unixIovMax < iovlen then .error .emsgsize
  else if iovlen = 0 then .ok []
  else if !room then .error .enomem
  else
    match given with
    | none => .error .efault
    | some v => if totalFits 0 v then .ok v else .error .einval

/-- `iov_total` -/
def iovTotal (v : List Iovec) : Nat := (v.map (·.len)).sum

/-- `iocur_t`, but for `user`; `v` is the list from element `i` on. -/
structure Cursor where
  v : List Iovec
  off : Nat

/-- The loop of `cur_in` and `cur_out`, which differ in what they do with the `n` bytes at
`addr`. -/
def curLoop {σ : Type} (copy : (addr n : Nat) → σ → Option σ) :
    List Iovec → (off len : Nat) → σ → Bool × Cursor × σ
  | v, off, 0, st => (true, ⟨v, off⟩, st)
  | [], off, _ + 1, st => (false, ⟨[], off⟩, st)
  | e :: v, off, len + 1, st =>
    let n := min (e.len - off) (len + 1)
    match copy (e.base + off) n st with
    | none => (false, ⟨e :: v, off⟩, st)
    | some st =>
      if off + n = e.len then curLoop copy v 0 (len + 1 - n) st
      -- there was more in the element, so `len` is down to 0
      else (true, ⟨e :: v, off + n⟩, st)

/-- `cur_in`: whether it went well, the cursor, and what is behind `dst` then. -/
def curIn (pages : Pages) (mem : Nat → UInt8) (user : Bool) (c : Cursor) :
    (len : Nat) → List UInt8 → Bool × Cursor × List UInt8 :=
  curLoop (fun addr n dst => (if user then copyFromUser pages mem addr n
    else some (slice mem addr n)).map (dst ++ ·)) c.v c.off

/-- `cur_out`: whether it went well, the cursor, and the memory with how far `s` has come. -/
def curOut (pages : Pages) (src : Nat → UInt8) (user : Bool) (c : Cursor) :
    (len : Nat) → (Nat → UInt8) × Nat → Bool × Cursor × (Nat → UInt8) × Nat :=
  curLoop (fun addr n (mem, s) => (if user then copyToUser pages mem addr (fun i => src (s + i)) n
    else some (store mem addr (slice src s n))).map (·, s + n)) c.v c.off

/-- Calls one after the other, each where the one before left off, until one fails. -/
def calls {σ : Type} (cur : Cursor → (len : Nat) → σ → Bool × Cursor × σ) :
    Cursor → List Nat → σ → Bool × Cursor × σ
  | c, [], st => (true, c, st)
  | c, n :: ns, st =>
    match cur c n st with
    | (true, c, st) => calls cur c ns st
    | (false, c, st) => (false, c, st)

end BleedKernel.Iov
