import BleedKernel.Lib.Run

/-!
# What a terminal is given to show

The bytes written to a tty go through `tty_render_byte` one by one. It keeps a sequence
of bytes under way from one write to the next, and calls `framebuffer_ansi_char` once the
sequence is there. The first byte alone says how many it takes.
-/

namespace BleedKernel.TtyOutput

open Lib

/-- `utf8_decode`: how many bytes it took and the code point, or nothing. -/
def utf8Decode (s : List UInt8) : Option (Nat × Nat) :=
  let b (i : Nat) : Nat := (s.getD i 0).toNat
  if b 0 < 0x80 then some (1, b 0)
  else if b 0 &&& 0xE0 = 0xC0 then
    some (2, (b 0 &&& 0x1F) <<< 6 ||| (b 1 &&& 0x3F))
  else if b 0 &&& 0xF0 = 0xE0 then
    some (3, (b 0 &&& 0x0F) <<< 12 ||| (b 1 &&& 0x3F) <<< 6 ||| (b 2 &&& 0x3F))
  else if b 0 &&& 0xF8 = 0xF0 then
    some (4, (b 0 &&& 0x07) <<< 18 ||| (b 1 &&& 0x3F) <<< 12 ||| (b 2 &&& 0x3F) <<< 6 |||
      (b 3 &&& 0x3F))
  else none

/-- The first `utf8_len` bytes of `utf8_buf`, and `utf8_expected`. -/
structure Utf8 where
  buf : List UInt8 := []
  expected : Nat := 0
deriving DecidableEq, Repr

/-- A call of `framebuffer_ansi_char`. The bytes are those the code point was made from. -/
structure Shown where
  bytes : List UInt8
  codepoint : Nat
deriving DecidableEq, Repr

/-- `tty_render_byte` -/
def ttyRenderByte (u : Utf8) (byte : UInt8) : Option Shown × Utf8 :=
  if u.buf = [] then
    if byte.toNat < 0x80 then (some ⟨[byte], byte.toNat⟩, u)
    else if byte.toNat &&& 0xE0 = 0xC0 then (none, ⟨[byte], 2⟩)
    else if byte.toNat &&& 0xF0 = 0xE0 then (none, ⟨[byte], 3⟩)
    else if byte.toNat &&& 0xF8 = 0xF0 then (none, ⟨[byte], 4⟩)
    else (none, u)
  else
    let buf := u.buf ++ [byte]
    if buf.length = u.expected then
      (some ⟨buf, ((utf8Decode buf).map Prod.snd).getD 0⟩, {})
    else (none, { u with buf })

/-- A tty: what it is drawn with, and whether it has a window of its own. -/
structure Tty where
  backend : Option Utf8
  offscreen : Bool
  ownerPid : Nat
deriving DecidableEq, Repr

/-- `tty_fb_putchar` -/
def ttyFbPutchar (t : Tty) (c : UInt8) : Option Shown × Tty :=
  match t.backend with
  | none => (none, t)
  | some u =>
    -- its window is gone
    if t.offscreen && t.ownerPid == 0 then (none, t)
    else ((ttyRenderByte u c).1, { t with backend := some (ttyRenderByte u c).2 })

/-- `tty_inode_write`: what it returns, what is shown, and the tty afterwards. -/
def ttyInodeWrite (t : Tty) (buf : List UInt8) : Nat × List Shown × Tty :=
  (buf.length, trace (fun t c => (ttyFbPutchar t c).2) (fun t c => (ttyFbPutchar t c).1.toList) t buf,
    run (fun t c => (ttyFbPutchar t c).2) t buf)

/-- What a number of writes show. -/
def ttyWrites (t : Tty) (writes : List (List UInt8)) : List Shown :=
  trace (fun t w => (ttyInodeWrite t w).2.2) (fun t w => (ttyInodeWrite t w).2.1) t writes

end BleedKernel.TtyOutput
