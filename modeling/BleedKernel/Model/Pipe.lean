import BleedKernel.Lib.Ring

/-!
# `fs/pipe.c`

One pipe, the calls that are under way on it and the steps they take. A call is
in the kernel from the moment it is made to the moment it returns, and between
two of its locked sections anything may happen on other CPUs: another call, a
change of the flags, the last close of an end. What a call samples with the lock
dropped it samples in a step of its own.

Sleeping is not modelled beyond that: a call that went to sleep may run again at
any time, whether or not it was woken for a reason.
-/

namespace BleedKernel.Pipes

open BleedKernel.Lib

/-- `PIPE_BUFFER_SIZE` -/
def pipeBufferSize : Nat := 4096

/-- `pipe_state_t`, less its lock and its wait queue. -/
structure PipeState where
  readPos : Nat := 0
  writePos : Nat := 0
  count : Nat := 0
  readers : Int := 1
  writers : Int := 1
  nonblock : Bool := false
  writeNonblock : Bool := false
  buffer : Nat → UInt8 := fun _ => 0

/-- The error codes the two calls return. -/
inductive Errno where
  | epipe | eagain | eintr
deriving DecidableEq, Repr

/-! ## The locked sections -/

/-- One turn of the copy loop of `pipe_read_inode`: the state, and what has been
copied out so far. -/
def readTurn (size : Nat) (st : PipeState × List UInt8) : PipeState × List UInt8 :=
  let bytes := min (size - st.2.length) st.1.count
  let first := min bytes (pipeBufferSize - st.1.readPos)
  let out := st.2 ++ slice st.1.buffer st.1.readPos first
  let s := { st.1 with readPos := (st.1.readPos + first) % pipeBufferSize,
                       count := st.1.count - first }
  let remaining := bytes - first
  if remaining > 0 then
    ({ s with readPos := s.readPos + remaining, count := s.count - remaining },
      out ++ slice s.buffer s.readPos remaining)
  else (s, out)

/-- The copy loop of `pipe_read_inode`, for at most `fuel` turns. -/
def readLoop (size : Nat) : Nat → PipeState × List UInt8 → PipeState × List UInt8
  | 0, st => st
  | fuel + 1, st =>
    if st.2.length < size ∧ st.1.count > 0 then readLoop size fuel (readTurn size st)
    else st

/-- One turn of the copy loop of `pipe_write_inode`: the state, and how much of
`src` has been copied in. -/
def writeTurn (src : List UInt8) (st : PipeState × Nat) : PipeState × Nat :=
  let space := pipeBufferSize - st.1.count
  let bytes := min (src.length - st.2) space
  let first := min bytes (pipeBufferSize - st.1.writePos)
  let s := { st.1 with
    buffer := store st.1.buffer st.1.writePos ((src.drop st.2).take first),
    writePos := (st.1.writePos + first) % pipeBufferSize,
    count := st.1.count + first }
  let copied := st.2 + first
  let remaining := bytes - first
  if remaining > 0 then
    ({ s with buffer := store s.buffer s.writePos ((src.drop copied).take remaining),
              writePos := s.writePos + remaining, count := s.count + remaining },
      copied + remaining)
  else (s, copied)

/-- The copy loop of `pipe_write_inode`, for at most `fuel` turns. -/
def writeLoop (src : List UInt8) : Nat → PipeState × Nat → PipeState × Nat
  | 0, st => st
  | fuel + 1, st =>
    if st.2 < src.length ∧ st.1.count < pipeBufferSize then
      writeLoop src fuel (writeTurn src st)
    else st

/-! ## Calls -/

/-- Where a call of `pipe_read_inode` is: before its locked section, after it
with `writers` and `nonblock` as they were under the lock, or back. -/
inductive ReadPhase where
  | entering
  | unlocked (writers : Int) (nonblock : Bool)
  | returned (r : Except Errno Nat)

/-- Where a call of `pipe_write_inode` is; `full` is as it was under the lock. -/
inductive WritePhase where
  | entering
  | unlocked (full : Bool)
  | returned (r : Except Errno Nat)

/-- A call that was made: its arguments, its locals and where it is. -/
inductive Call where
  | read (size : Nat) (out : List UInt8) (phase : ReadPhase)
  | write (src : List UInt8) (copied : Nat) (phase : WritePhase)

/-- The pipe, the calls made on it by number, and what went through it, each byte
with the call that put it in or got it out. -/
structure Pipe where
  state : PipeState
  /-- Both ends are closed and the state is gone. -/
  freed : Bool := false
  call : Nat → Option Call := fun _ => none
  next : Nat := 0
  written : List (Nat × UInt8) := []
  handed : List (Nat × UInt8) := []

/-- `pipe_create_file_pair` -/
def pipeCreateFilePair : Pipe := { state := {} }

/-- Record where a call has got to. -/
def Pipe.setCall (p : Pipe) (id : Nat) (c : Call) : Pipe :=
  { p with call := Function.update p.call id (some c) }

/-- `pipe_read_inode` is called; it has nothing to do for an empty buffer. -/
def pipeReadInode (p : Pipe) (size : Nat) : Pipe :=
  { p.setCall p.next (.read size []
      (if size = 0 then .returned (.ok 0) else .entering)) with next := p.next + 1 }

/-- `pipe_write_inode` is called. -/
def pipeWriteInode (p : Pipe) (src : List UInt8) : Pipe :=
  { p.setCall p.next (.write src 0
      (if src.length = 0 then .returned (.ok 0) else .entering)) with next := p.next + 1 }

/-- The locked section of a read. -/
def readLocked (p : Pipe) (id size : Nat) (out : List UInt8) : Pipe :=
  let st := readLoop size size (p.state, out)
  { p.setCall id (.read size st.2 (.unlocked st.1.writers st.1.nonblock)) with
    state := st.1,
    handed := p.handed ++ (st.2.drop out.length).map fun b => (id, b) }

/-- What a read does with the lock dropped. `interrupted` is what
`signal_should_interrupt` says. -/
def readUnlocked (p : Pipe) (id size : Nat) (out : List UInt8) (writers : Int)
    (nonblock interrupted : Bool) : Pipe :=
  p.setCall id (.read size out
    (if out.length > 0 then .returned (.ok out.length)
     else if writers = 0 then .returned (.ok 0)
     else if nonblock then .returned (.error .eagain)
     else if interrupted then .returned (.error .eintr)
     else .entering))

/-- What a write that stops early says. -/
def shortWrite (copied : Nat) (e : Errno) : Except Errno Nat :=
  if copied ≠ 0 then .ok copied else .error e

/-- The locked section of a write. -/
def writeLocked (p : Pipe) (id : Nat) (src : List UInt8) (copied : Nat) : Pipe :=
  if p.state.readers = 0 then
    p.setCall id (.write src copied (.returned (shortWrite copied .epipe)))
  else
    let st := writeLoop src src.length (p.state, copied)
    { p.setCall id (.write src st.2 (.unlocked (decide (st.1.count = pipeBufferSize)))) with
      state := st.1,
      written := p.written ++
        ((src.drop copied).take (st.2 - copied)).map fun b => (id, b) }

/-- What a write does with the lock dropped. -/
def writeUnlocked (p : Pipe) (id : Nat) (src : List UInt8) (copied : Nat)
    (full interrupted : Bool) : Pipe :=
  p.setCall id (.write src copied
    (if copied = src.length then .returned (.ok copied)
     else if !full then .entering
     else if p.state.writeNonblock then .returned (shortWrite copied .eagain)
     else if interrupted then .returned (shortWrite copied .eintr)
     else .entering))

/-- `pipe_file_release`, for one end or the other. -/
def pipeFileRelease (p : Pipe) (writeEnd : Bool) : Pipe :=
  let s := if writeEnd then { p.state with writers := p.state.writers - 1 }
    else { p.state with readers := p.state.readers - 1 }
  { p with state := s, freed := decide (s.readers ≤ 0) && decide (s.writers ≤ 0) }

/-- `pipe_set_nonblock` and the two ioctls that store a flag. -/
def pipeSetFlag (p : Pipe) (writeEnd on : Bool) : Pipe :=
  { p with state :=
      if writeEnd then { p.state with writeNonblock := on }
      else { p.state with nonblock := on } }

/-- What can happen next. -/
inductive Act where
  | read (size : Nat)
  | write (src : List UInt8)
  /-- The call goes on, to the end of its locked section or of what follows. -/
  | goOn (id : Nat) (interrupted : Bool)
  | setFlag (writeEnd on : Bool)
  | release (writeEnd : Bool)

/-- A call takes its next step, if it is not back yet. -/
def goOn (p : Pipe) (id : Nat) (interrupted : Bool) : Pipe :=
  match p.call id with
  | some (.read size out .entering) => readLocked p id size out
  | some (.read size out (.unlocked writers nonblock)) =>
    readUnlocked p id size out writers nonblock interrupted
  | some (.write src copied .entering) => writeLocked p id src copied
  | some (.write src copied (.unlocked full)) =>
    writeUnlocked p id src copied full interrupted
  | _ => p

/-- One step. Nothing happens to a pipe that was freed. The code would touch freed memory there,
if a call were still under way on it. -/
def step (p : Pipe) (act : Act) : Pipe :=
  if p.freed then p
  else
    match act with
    | .read size => pipeReadInode p size
    | .write src => pipeWriteInode p src
    | .goOn id interrupted => goOn p id interrupted
    | .setFlag writeEnd on => pipeSetFlag p writeEnd on
    | .release writeEnd => pipeFileRelease p writeEnd

end BleedKernel.Pipes
