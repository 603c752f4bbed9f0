import Mathlib.Algebra.Ring.Nat

/-!
# Event counters and timers

`ev_read`, `ev_write` and `timerfd_settime` of `fs/eventfd.c`. The loops of the first two hold
the big kernel lock but for the time they sleep, so what tasks do with a counter is a list of
passes.
-/

namespace BleedKernel.Eventfd

/-- The errors of these calls. -/
inductive Errno where
  | einval | eagain | eintr
deriving DecidableEq

/-- `COUNT_MAX`: the most a counter holds. -/
def countMax : UInt64 := 0xFFFFFFFFFFFFFFFE

/-- `evfd_t`: the counter and its flags. -/
structure Evfd where
  count : UInt64
  semaphore : Bool
  nonblock : Bool
deriving DecidableEq

/-- What one pass of a loop comes to. `spun` is the next pass without a sleep. -/
inductive Pass where
  | done (v : UInt64)
  | failed (e : Errno)
  | slept
  | spun
deriving DecidableEq

/-- A signal interrupts the call, or comes before it sleeps. -/
structure Signals where
  interrupts : Bool := false
  comes : Bool := false

/-- `block_on` -/
def blockOn (ready : Bool) (sig : Signals) : Pass :=
  if sig.interrupts then .failed .eintr
  else if !ready && !sig.comes then .slept
  else .spun

/-- `ev_readable` -/
def evReadable (e : Evfd) : Bool := decide (0 < e.count)

/-- `ev_writable` -/
def evWritable (e : Evfd) : Bool := decide (e.count < countMax)

/-- A pass of `ev_read`. -/
def evRead (e : Evfd) (size : Nat) (sig : Signals) : Pass × Evfd :=
  if size < 8 then (.failed .einval, e)
  else if e.count ≠ 0 then
    let v := if e.semaphore then 1 else e.count
    (.done v, { e with count := e.count - v })
  else if e.nonblock then (.failed .eagain, e)
  else (blockOn (evReadable e) sig, e)

/-- A pass of `ev_write`. -/
def evWrite (e : Evfd) (v : UInt64) (size : Nat) (sig : Signals) : Pass × Evfd :=
  if size < 8 ∨ v = 0xFFFFFFFFFFFFFFFF then (.failed .einval, e)
  else if countMax - e.count ≥ v then (.done v, { e with count := e.count + v })
  else if e.nonblock then (.failed .eagain, e)
  else (blockOn (evWritable e) sig, e)

/-- One pass of a read or of a write, with the signals it meets. -/
inductive Call where
  | read (size : Nat) (sig : Signals)
  | write (v : UInt64) (size : Nat) (sig : Signals)

/-- A counter, and all that was taken from it and given to it. -/
structure Account where
  e : Evfd
  taken : Nat := 0
  given : Nat := 0

/-- What a pass takes or gives. -/
def Pass.value : Pass → Nat
  | .done v => v.toNat
  | _ => 0

/-- A pass on the counter, and what it took or gave put to the account. -/
def step (s : Account) : Call → Account
  | .read size sig =>
    let (r, e) := evRead s.e size sig
    { s with e, taken := s.taken + r.value }
  | .write v size sig =>
    let (r, e) := evWrite s.e v size sig
    { s with e, given := s.given + r.value }

/-- `struct timespec` -/
structure Timespec where
  sec : Int
  nsec : Int

/-- `ts_ok` -/
def tsOk (ts : Timespec) : Bool := decide (0 ≤ ts.sec ∧ 0 ≤ ts.nsec ∧ ts.nsec < 1000000000)

/-- `ts_ns` -/
def tsNs (ts : Timespec) : UInt64 := .ofInt ts.sec * 1000000000 + .ofInt ts.nsec

/-- The HPET and what `clock_read` gives. -/
structure Clock where
  femtosecondsPerTick : UInt64
  counter : UInt64
  ns : UInt64

/-- `clock_ns_to_counts` -/
def clockNsToCounts (c : Clock) (ns : UInt64) : UInt64 :=
  if c.femtosecondsPerTick = 0 then 0
  else
    let perSec := 1000000000000000 / c.femtosecondsPerTick
    ns / 1000000000 * perSec + ns % 1000000000 * 1000000 / c.femtosecondsPerTick

/-- `tfd_t`: whether the timer runs, when it expires next and how long after that, in counts of
the HPET, and how often it has. -/
structure Tfd where
  armed : Bool
  expire : UInt64
  interval : UInt64
  ticks : UInt64
deriving DecidableEq

/-- `timerfd_settime` of a timer, with valid flags, but for the list and the old times. -/
def timerfdSettime (c : Clock) (t : Tfd) (abstime : Bool) (value interval : Timespec) :
    Except Errno Tfd :=
  if !tsOk value || !tsOk interval then .error .einval
  else
    let t := { t with armed := false, ticks := 0, interval := clockNsToCounts c (tsNs interval) }
    let ns := tsNs value
    if ns = 0 then .ok t
    else
      let rel := if abstime then (if ns > c.ns then ns - c.ns else 0) else ns
      .ok { t with expire := c.counter + clockNsToCounts c rel, armed := true }

end BleedKernel.Eventfd
