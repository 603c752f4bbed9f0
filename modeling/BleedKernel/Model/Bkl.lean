import Mathlib.Data.BitVec

/-!
# `sched/bkl.c`: the big kernel lock

A ticket lock that belongs to a CPU and not to a task. `n` CPUs take single steps in
any order: each load, store or `fetch_add` of `bkl_lock` and `bkl_unlock` is a step of
its own. Both are called with interrupts off, so the CPU does nothing else in between.

Around them stands what the CPU does in the kernel, as far as the lock is concerned:
how it got in, that it may pick another task's context, and how it gets out. Which
context a switch picks is not said here, it may be any.
-/

namespace BleedKernel.Bkl

/-- What a context returns into: user mode, kernel code of a task that is not idle, or
the idle task (before there is a current task, the code that waits for one). -/
inductive Mode where
  | user | kernel | idle
deriving DecidableEq, Repr

/-- Who called `bkl_lock`. -/
inductive Locker where
  /-- `syscall_dispatch`, `ke_processor_exception` from user mode, `sched_bootstrap` -/
  | dispatch
  /-- `sched_return`, before it delivers signals -/
  | deliver
  /-- `irq_handler`, and `ke_processor_exception` in the kernel, over such a context -/
  | irq (mode : Mode)
  /-- `timer_handle` on the first CPU, over such a context -/
  | timer (mode : Mode)
  /-- `bkl_resume` -/
  | resume
deriving DecidableEq, Repr

/-- Who called `bkl_unlock`. -/
inductive Unlocker where
  /-- `bkl_resume` for a context of user mode, or of the idle task -/
  | toUser
  | toIdle
  /-- `sched_idle` -/
  | schedIdle
deriving DecidableEq, Repr

/-- Where a CPU is. -/
inductive Pc where
  | runs (mode : Mode)
  /-- Between the entry of an interrupt over such a context and `sched_return`: it may
  still pick another one. -/
  | handles (mode : Mode)
  /-- It enters `sched_return` with such a context. -/
  | returns (mode : Mode)
  -- `bkl_lock`: the test of `bkl_held`, the `fetch_add`, the loop, the store
  | lockTest (k : Locker)
  | lockTake (k : Locker)
  | lockSpin (k : Locker)
  | lockSet (k : Locker)
  -- `bkl_unlock`: the test, the store, the load of `bkl_serving` and its store
  | unlockTest (k : Unlocker)
  | unlockClear (k : Unlocker)
  | unlockLoad (k : Unlocker)
  | unlockStore (k : Unlocker) (serving : BitVec 32)
deriving DecidableEq, Repr

/-- A CPU and the instruction of the lock's code it is at. -/
structure Cpu where
  /-- `bkl_held` -/
  held : Bool := false
  /-- The ticket it took last. -/
  ticket : BitVec 32 := 0
  pc : Pc
deriving DecidableEq, Repr

/-- The lock, and the CPUs that take it. -/
structure Sys (n : Nat) where
  /-- `bkl_next` -/
  next : BitVec 32 := 0
  /-- `bkl_serving` -/
  serving : BitVec 32 := 0
  cpus : Fin n → Cpu

variable {n : Nat}

/-- A write to a CPU. -/
def Sys.setCpu (s : Sys n) (c : Fin n) (cpu : Cpu) : Sys n :=
  { s with cpus := Function.update s.cpus c cpu }

/-- A CPU goes on elsewhere. -/
def Sys.goto (s : Sys n) (c : Fin n) (pc : Pc) : Sys n :=
  s.setCpu c { s.cpus c with pc := pc }

/-- Where the caller of `bkl_lock` goes on. -/
def Locker.next : Locker → Pc
  | .dispatch | .deliver | .resume => .runs .kernel
  | .irq mode => .returns mode
  | .timer mode => .handles mode

/-- Where the caller of `bkl_unlock` goes on. -/
def Unlocker.next : Unlocker → Pc
  | .toUser => .runs .user
  | .toIdle | .schedIdle => .runs .idle

/-- The next step of `bkl_lock` or `bkl_unlock` on CPU `c`, if it is in one of them. -/
def bklStep (s : Sys n) (c : Fin n) : Sys n :=
  let cpu := s.cpus c
  match cpu.pc with
  | .lockTest k => s.goto c (if cpu.held then k.next else .lockTake k)
  | .lockTake k =>
    { s with next := s.next + 1 }.setCpu c { cpu with ticket := s.next, pc := .lockSpin k }
  | .lockSpin k => if s.serving = cpu.ticket then s.goto c (.lockSet k) else s
  | .lockSet k => s.setCpu c { cpu with held := true, pc := k.next }
  | .unlockTest k => s.goto c (if cpu.held then .unlockClear k else k.next)
  | .unlockClear k => s.setCpu c { cpu with held := false, pc := .unlockLoad k }
  | .unlockLoad k => s.goto c (.unlockStore k s.serving)
  | .unlockStore k v => { s with serving := v + 1 }.goto c k.next
  | _ => s

/-- `bkl_resume` -/
def bklResume : Mode → Pc
  | .user => .unlockTest .toUser
  | .idle => .unlockTest .toIdle
  | .kernel => .lockTest .resume

/-- What a CPU does next: an instruction of the lock, or a way in or out of the kernel. -/
inductive Act (n : Nat) where
  | bkl (c : Fin n)
  | syscall (c : Fin n)
  | exception (c : Fin n)
  | irq (c : Fin n)
  | timer (c : Fin n)
  /-- The reschedule interrupt, or the yield interrupt. -/
  | resched (c : Fin n)
  /-- The handler picks the context it returns to. -/
  | switch (c : Fin n) (mode : Mode)
  /-- `sched_return`; `signals` if there are some to deliver. -/
  | schedReturn (c : Fin n) (signals : Bool)
  /-- The kernel code of a system call or an exception is at its end. -/
  | leave (c : Fin n)
  /-- `signal_deliver_pending` comes back to `sched_return`. -/
  | delivered (c : Fin n)
  | schedIdle (c : Fin n)

/-- One step. One that is not possible changes nothing. -/
def step (s : Sys n) : Act n → Sys n
  | .bkl c => bklStep s c
  | .syscall c =>
    match (s.cpus c).pc with
    | .runs .user => s.goto c (.lockTest .dispatch)
    | _ => s
  | .exception c =>
    match (s.cpus c).pc with
    | .runs .user => s.goto c (.lockTest .dispatch)
    | .runs mode => s.goto c (.lockTest (.irq mode))
    | _ => s
  | .irq c =>
    -- the ioapic only sends these to the first
    match c.val, (s.cpus c).pc with
    | 0, .runs mode => s.goto c (.lockTest (.irq mode))
    | _, _ => s
  | .timer c =>
    match c.val, (s.cpus c).pc with
    | 0, .runs mode => s.goto c (.lockTest (.timer mode))
    | _ + 1, .runs mode => s.goto c (.handles mode)
    | _, _ => s
  | .resched c =>
    match (s.cpus c).pc with
    | .runs mode => s.goto c (.handles mode)
    | _ => s
  | .switch c mode =>
    match (s.cpus c).pc with
    | .handles _ => s.goto c (.returns mode)
    | _ => s
  | .schedReturn c signals =>
    match (s.cpus c).pc with
    | .returns mode =>
      if mode = .user ∧ signals then s.goto c (.lockTest .deliver)
      else s.goto c (bklResume mode)
    | _ => s
  | .leave c =>
    match (s.cpus c).pc with
    | .runs .kernel => s.goto c (.returns .user)
    | _ => s
  | .delivered c =>
    match (s.cpus c).pc with
    | .runs .kernel => s.goto c (bklResume .user)
    | _ => s
  | .schedIdle c =>
    match (s.cpus c).pc with
    | .runs .idle => s.goto c (.unlockTest .schedIdle)
    | _ => s

/-- The first CPU is in `sched_bootstrap`, the others wait in their idle tasks. -/
def Sys.boot (n : Nat) : Sys n where
  cpus c := { pc := if c.val = 0 then .lockTest .dispatch else .runs .idle }

end BleedKernel.Bkl
