import BleedKernel.Lib.Ring

/-!
# `devices/type`: terminal, keyboard, mouse, touch, null and zero

What the drivers' `read` and `poll` do and the loop of `vfs_read` around them. What is
drawn on the screen is left out. A byte in the terminal's ring carries the number of
the key it came from, which the kernel does not have.
-/

namespace BleedKernel.Devices

open BleedKernel.Lib

/-- The error codes of the modelled calls. -/
inductive Errno where
  | eintr | eagain
deriving DecidableEq, Repr

/-! ## `tty_device.c` -/

/-- `TTY_BUFFER_SZ` -/
def ttyBufferSz : Nat := 1024

/-- A position in a ring of the size. -/
abbrev Pos := Fin ttyBufferSz

/-- A byte that was typed, and the number of its key. -/
structure Typed where
  byte : UInt8 := 0
  serial : Nat := 0
deriving DecidableEq, Repr

/-- What is read of `tty_termios_t`. -/
structure Termios where
  icanon : Bool := true
  isig : Bool := true
  verase : UInt8 := 127
  vmin : UInt8 := 1
  vtime : UInt8 := 0
deriving DecidableEq, Repr

/-- `tty_t`, its `flags` as `TTY_CANNONICAL` and `TTY_NONBLOCK`. -/
structure Tty where
  inbuffer : Nat → Typed := fun _ => {}
  inHead : Pos := ⟨0, by decide⟩
  inTail : Pos := ⟨0, by decide⟩
  lineStart : Pos := ⟨0, by decide⟩
  canonical : Bool := true
  nonblock : Bool := false
  termios : Termios := {}

/-- `(p + 1) % TTY_BUFFER_SZ` -/
def Pos.next (p : Pos) : Pos := ⟨(p + 1) % ttyBufferSz, Nat.mod_lt _ (by decide)⟩

/-- `(p + TTY_BUFFER_SZ - 1) % TTY_BUFFER_SZ` -/
def Pos.prev (p : Pos) : Pos := ⟨(p + ttyBufferSz - 1) % ttyBufferSz, Nat.mod_lt _ (by decide)⟩

/-- How many steps lead from `p` to `q`. -/
def Pos.to (p q : Pos) : Nat := (q + ttyBufferSz - p) % ttyBufferSz

/-- What the ring has between `in_tail` and `in_head`. -/
def Tty.pending (t : Tty) : List Typed :=
  ringList ttyBufferSz t.inbuffer t.inTail (Pos.to t.inTail t.inHead)

/-- The scan for a newline of `tty_read` and `tty_poll`. -/
def Tty.hasLine (t : Tty) : Bool := t.pending.any (·.byte == 10)

/-- `tty_sync_termios_from_flags` -/
def ttySyncTermiosFromFlags (t : Tty) : Tty :=
  let term := { t.termios with icanon := t.canonical }
  { t with termios :=
      if t.nonblock then { term with vmin := 0, vtime := 0 }
      else if term.vmin = 0 ∧ term.vtime = 0 then { term with vmin := 1 } else term }

/-- `tty_sync_flags_from_termios` -/
def ttySyncFlagsFromTermios (t : Tty) : Tty :=
  { t with canonical := t.termios.icanon
           nonblock := decide (t.termios.vmin = 0 ∧ t.termios.vtime = 0) }

/-- The byte that a key stands for. -/
def Tty.cooked (t : Tty) (c : UInt8) : UInt8 := if t.canonical ∧ c = 13 then 10 else c

/-- A key that erases. `c` is a signed `char`, so it is never a `VERASE` past 127. -/
def Tty.erases (t : Tty) (c : UInt8) : Prop :=
  t.canonical ∧ (t.cooked c = 8 ∨ t.cooked c = t.termios.verase ∧ t.cooked c < 128)

instance {t : Tty} {c : UInt8} : Decidable (t.erases c) :=
  inferInstanceAs (Decidable (_ ∧ _))

/-- `tty_process_input` -/
def ttyProcessInput (t : Tty) (c : UInt8) (serial : Nat) : Tty :=
  if t.erases c then
    if t.inHead ≠ t.lineStart then { t with inHead := t.inHead.prev } else t
  else if t.inHead.next = t.inTail then t
  else { t with
    inbuffer := store t.inbuffer t.inHead [⟨t.cooked c, serial⟩], inHead := t.inHead.next
    lineStart := if t.canonical ∧ t.cooked c = 10 then t.inHead.next else t.lineStart }

/-- `tty_input_listener` on a key that is pressed, for the character `c` it stands for. -/
def ttyInputListener (t : Tty) (detached ctrl : Bool) (c : UInt8) (serial : Nat) : Tty :=
  if detached ∨ c = 0 then t
  else if ctrl ∧ (c = 99 ∨ c = 67) then
    if t.termios.isig then { t with inHead := t.lineStart } else t
  else ttyProcessInput t c serial

/-- The copy loop of `tty_read`: what has been copied out and what is left. The ring
has fewer bytes than `fuel`. -/
def ttyCopy (len minRequired : Nat) : Nat → List Typed × Tty → List Typed × Tty
  | 0, st => st
  | fuel + 1, (out, t) =>
    if out.length < len ∧ t.inTail ≠ t.inHead then
      let c := t.inbuffer t.inTail
      let st := (out ++ [c], { t with inTail := t.inTail.next })
      if t.canonical ∧ c.byte = 10 ∨ t.canonical = false ∧ minRequired ≤ out.length + 1 then st
      else ttyCopy len minRequired fuel st
    else (out, t)

/-- `tty_read` has nothing to start on. -/
def Tty.dry (t : Tty) : Bool :=
  if t.canonical then !t.hasLine else decide (t.inHead = t.inTail ∧ t.termios.vmin = 0)

/-- `tty_read`, for a task that a signal is to interrupt or not. -/
def ttyRead (t : Tty) (interrupt : Bool) (len : Nat) : Except Errno (List Typed) × Tty :=
  if interrupt then (.error .eintr, t)
  else if t.nonblock ∧ t.inHead = t.inTail then (.error .eagain, t)
  else if t.dry then (.ok [], t)
  else
    let min := if t.canonical then 1 else t.termios.vmin.toNat
    let r := ttyCopy len (if min = 0 then 1 else min) ttyBufferSz ([], t)
    (.ok r.1, r.2)

/-- `tty_poll` has `POLLIN`. -/
def ttyPollIn (t : Tty) : Bool :=
  if t.canonical then t.hasLine else decide (t.inHead ≠ t.inTail)

/-! ### All that happens to a terminal -/

/-- A terminal, the bytes of all keys so far and what readers were given. -/
structure Term where
  tty : Tty := {}
  typed : List UInt8 := []
  given : List Typed := []

/-- What happens to a terminal: a key comes in, or a task calls the driver. -/
inductive Act where
  /-- `tty_input_listener`, for a key that is pressed. -/
  | key (detached ctrl : Bool) (c : UInt8)
  /-- `tty_process_input` -/
  | input (c : UInt8)
  | read (len : Nat)
  /-- `TTY_IOCTL_TCSETS`, or `TTY_IOCTL_TCSETSF` with `flush`. -/
  | tcsets (termios : Termios) (flush : Bool)
  | setFlags (canonical nonblock : Bool)
  | fionbio (nonblock : Bool)
  | tcgets
  | getFlags

/-- A key has the number of the keys before it. -/
def Term.type (s : Term) (c : UInt8) (f : Nat → Tty) : Term :=
  { s with tty := f s.typed.length, typed := s.typed ++ [s.tty.cooked c] }

/-- One such event. -/
def step (s : Term) : Act → Term
  | .key detached ctrl c => s.type c (ttyInputListener s.tty detached ctrl c)
  | .input c => s.type c (ttyProcessInput s.tty c)
  | .read len =>
    match ttyRead s.tty false len with
    | (.ok out, tty) => { s with tty, given := s.given ++ out }
    | (.error _, tty) => { s with tty }
  | .tcsets termios flush =>
    let tty := ttySyncFlagsFromTermios { s.tty with termios }
    { s with tty :=
        if flush then { tty with inTail := tty.inHead, lineStart := tty.inHead } else tty }
  | .setFlags canonical nonblock =>
    { s with tty := ttySyncTermiosFromFlags { s.tty with canonical, nonblock } }
  | .fionbio nonblock => { s with tty := ttySyncTermiosFromFlags { s.tty with nonblock } }
  | .tcgets => { s with tty := ttySyncTermiosFromFlags s.tty }
  | .getFlags => { s with tty := ttySyncFlagsFromTermios s.tty }

/-! ## Events -/

/-- The ring of a device that hands out events of `size` bytes, `KBD_BUFFER_SIZE`,
`MOUSE_BUFFER_SIZE` and `TOUCH_BUFFER_SIZE` of them. -/
structure Events (size : Nat) where
  buffer : Fin 128 → Vector UInt8 size
  head : Fin 128 := 0
  tail : Fin 128 := 0

/-- The copy loop of the three drivers. -/
def eventCopy {size : Nat} (len : Nat) : Nat → List UInt8 × Events size → List UInt8 × Events size
  | 0, st => st
  | fuel + 1, (out, q) =>
    if out.length + size ≤ len ∧ q.tail ≠ q.head then
      eventCopy len fuel (out ++ (q.buffer q.tail).toList, { q with tail := q.tail + 1 })
    else (out, q)

/-- `mouse_read` and `touch_read` -/
def eventRead {size : Nat} (q : Events size) (len : Nat) :
    Except Errno (List UInt8) × Events size :=
  if q.head = q.tail then (.error .eagain, q)
  else
    let r := eventCopy len 128 ([], q)
    (.ok r.1, r.2)

/-- `kbd_device_t` -/
structure Kbd where
  events : Events 4
  nonblock : Bool := false

/-- A task that reads: whether a signal is to interrupt it, and what `kbd_task_tty_index`
says of it. -/
structure Reader where
  interrupt : Bool := false
  user : Bool := true
  tgid : Nat
  tty : Option Nat := none
deriving DecidableEq, Repr

/-- `fb_device_screen_pid`, zero for nobody, and the index of the active console's
terminal. -/
structure Console where
  screen : Nat := 0
  active : Option Nat := some 0
deriving DecidableEq, Repr

/-- Somebody else has the screen. -/
def Console.background (con : Console) (r : Reader) : Bool :=
  r.user && con.screen != 0 && con.screen != r.tgid

/-- There is no active terminal, or it is not that of the reader. -/
def Console.elsewhere (con : Console) (r : Reader) : Bool :=
  r.user && (con.active.isNone || r.tty.isSome && r.tty != con.active)

/-- `kbd_read`, and whether it has slept. -/
def kbdRead (k : Kbd) (con : Console) (r : Reader) (len : Nat) :
    Except Errno (List UInt8) × Kbd × Bool :=
  let nothing := if k.nonblock then .error .eagain else .ok []
  if r.interrupt then (.error .eintr, k, false)
  else if con.background r then (nothing, k, true)
  else if con.elsewhere r then (.error .eagain, k, false)
  else if k.events.head = k.events.tail then (nothing, k, false)
  else
    let c := eventCopy len 128 ([], k.events)
    (.ok c.1, { k with events := c.2 }, false)

/-- `kbd_poll` has `POLLIN`. -/
def kbdPollIn (k : Kbd) (con : Console) (r : Reader) : Bool :=
  !con.background r && decide (k.events.head ≠ k.events.tail)

/-! ## `vfs_read` -/

/-- The device files, by driver. -/
inductive Dev where
  | tty (t : Tty)
  | kbd (k : Kbd)
  | mouse (q : Events 6)
  | touch (q : Events 8)
  | null
  | zero

/-- The driver's `read`, and whether it has slept. -/
def Dev.read (d : Dev) (con : Console) (r : Reader) (len : Nat) :
    Except Errno (List UInt8) × Dev × Bool :=
  match d with
  | .tty t => ((ttyRead t r.interrupt len).1.map (·.map (·.byte)),
    .tty (ttyRead t r.interrupt len).2, false)
  | .kbd k => ((kbdRead k con r len).1, .kbd (kbdRead k con r len).2.1, (kbdRead k con r len).2.2)
  | .mouse q => ((eventRead q len).1, .mouse (eventRead q len).2, false)
  | .touch q => ((eventRead q len).1, .touch (eventRead q len).2, false)
  | .null => (.ok [], .null, false)
  | .zero => (.ok (List.replicate len 0), .zero, false)

/-- What the driver's `poll` says of `POLLIN`, for one that has a wait queue. None of
them has `POLLHUP` or `POLLERR`. -/
def Dev.pollIn (d : Dev) (con : Console) (r : Reader) : Option Bool :=
  match d with
  | .tty t => some (ttyPollIn t)
  | .kbd k => some (kbdPollIn k con r)
  | .mouse q => some (decide (q.head ≠ q.tail))
  | .touch q => some (decide (q.head ≠ q.tail))
  | .null | .zero => none

/-- How a turn of the loop of `vfs_read` ends: the call returns, it sleeps in the
device's wait queue, or it goes round. -/
inductive Turn where
  | ret (r : Except Errno (List UInt8))
  | sleep
  | again

/-- One turn of the loop of `vfs_read`, while no signal comes in. -/
def vfsReadTurn (d : Dev) (con : Console) (r : Reader) (count : Nat) : Turn :=
  if r.interrupt then .ret (.error .eintr)
  else
    match d.read con r count with
    | (.error e, _) => .ret (.error e)
    | (.ok (b :: bs), _) => .ret (.ok (b :: bs))
    | (.ok [], d', _) => if d'.pollIn con r = some false then .sleep else .again

end BleedKernel.Devices
