import BleedKernel.Model.Signal

/-!
# `sched/scheduler.c`: tasks, CPUs and the run queue

Any number of CPUs share one run queue. What a CPU does under `rq_lock` is one
step, and so is each write to a task's state that is made without it; between two
steps of one CPU any other may take any number of its own. A CPU that is on its
way from one task to another goes through several steps, and its `Phase` says how
far it has come.

Tasks are named by numbers that are never used again. The pointers of the run
queue are the source's own: each task has a node that names its neighbours, each
priority level of each of the two arrays a head and a tail.

`kick_idle_cpu` only decides which CPU gets the reschedule interrupt, and that
interrupt may come at any time here.

Whoever marks a task dead holds the big kernel lock, and that task is not in user
mode. So a CPU that is to go on with a task another CPU is just marking waits.
-/

namespace BleedKernel.Sched

open Function

/-- A task, by the name it got when it was made. -/
abbrev Tid := Nat

/-- `QUANTUM` -/
def quantum : Nat := 10
/-- `STARVE_TICKS` -/
def starveTicks : Nat := quantum * 2
/-- `PRIO_LEVELS` -/
def prioLevels : Nat := 32
/-- `PRIO_DEFAULT` -/
def prioDefault : Nat := 16
/-- `PRIO_BONUS_MAX` -/
def prioBonusMax : Int := 4
/-- `PRIO_WAKE_BONUS` -/
def prioWakeBonus : Int := 2

/-- `task_state_t` -/
inductive TaskState where
  | free | ready | running | blocked | stopped | zombie | dead
deriving DecidableEq, Repr

/-- The two `prio_arrays`. -/
inductive Arr where
  | first | second
deriving DecidableEq, Repr

/-- The other array: `expired` of `active`. -/
def Arr.other : Arr → Arr
  | .first => .second
  | .second => .first

/-- `struct prio_array` -/
structure PrioArray where
  bitmap : BitVec 32 := 0
  head : Nat → Option Tid := fun _ => none
  tail : Nat → Option Tid := fun _ => none

/-- The run-queue fields of `task_t`. -/
structure Node where
  prev : Option Tid := none
  next : Option Tid := none
  array : Option Arr := none
  prio : Nat := 0
deriving DecidableEq, Repr

/-- `prio_arrays`, `active` and `expired`, `expired_since`, and every task's node. -/
structure RunQueue where
  node : Tid → Node := fun _ => {}
  arrays : Arr → PrioArray := fun _ => {}
  active : Arr := .first
  expiredSince : Nat := 0

/-- A task of a user process, one of the kernel, or a CPU's idle task, which is of the
kernel too. -/
inductive Kind where
  | user | kernel | idle
deriving DecidableEq, Repr

/-- Where `signal_deliver_pending` returns to: the end of `syscall_dispatch`, which goes
on to `sched_return`, or `sched_return` itself, which goes on to user mode. -/
inductive Back where
  | dispatch | schedReturn
deriving DecidableEq, Repr

/-- The fields of `task_t` that scheduling and signals use. -/
structure Task where
  state : TaskState := .free
  onCpu : Bool := false
  kind : Kind := .kernel
  quantumRemaining : Nat := quantum
  prioBase : Nat := prioDefault
  prioBonus : Int := 0
  /-- The context it runs or will resume in is one of user mode. -/
  user : Bool := false
  /-- Its registers in user mode. -/
  ctx : CpuContext := {}
  signals : Signals := {}
  /-- It has called `exit`. -/
  exiting : Bool := false
  /-- It was stopped inside `signal_deliver_pending`, and goes on there. -/
  stopIn : Option Back := none

/-- The field `idle` -/
def Task.idle (task : Task) : Bool := decide (task.kind = .idle)

/-- `task_privilege` is `PRIVILEGE_USER`. -/
def Task.privUser (task : Task) : Bool := decide (task.kind = .user)

/-- How far a CPU has come. -/
inductive Phase where
  /-- It executes the code of its current task. -/
  | runs
  /-- It is about to raise the yield interrupt, with interrupts off. -/
  | yields
  /-- It has picked its next task, and waits for that task's last CPU to be done
  with it. -/
  | picked (next : Tid)
  /-- It is about to enter `sched_return`. -/
  | returns
  /-- It has dropped `rq_lock` in `sched_return`. -/
  | leaves
deriving DecidableEq, Repr

/-- Where that leaves the CPU. -/
def Back.phase : Back → Phase
  | .dispatch => .returns
  | .schedReturn => .runs

/-- `cpu_t` -/
structure Cpu where
  current : Option Tid := none
  prevTask : Option Tid := none
  idleTask : Option Tid := none
  needResched : Bool := false
  phase : Phase := .runs
deriving DecidableEq, Repr

/-- The tasks, the run queue and the CPUs. -/
structure Sys where
  tasks : Tid → Task := fun _ => {}
  rq : RunQueue := {}
  cpus : Nat → Cpu := fun _ => {}
  /-- `timer_ticks` -/
  ticks : Nat := 0
  /-- The names given to tasks so far. -/
  all : List Tid := []
  /-- From `dead_task_head` on. -/
  dead : List Tid := []
  /-- The CPU that is inside `sched_mark_task_dead`, and the task, between the
  write of the state and `ready_dequeue`. `sched_lock` is held all the while. -/
  burying : Option (Nat × Tid) := none

/-- The state of a task. -/
def Sys.state (s : Sys) (t : Tid) : TaskState := (s.tasks t).state

/-- A write to a task. -/
def Sys.setTask (s : Sys) (t : Tid) (task : Task) : Sys :=
  { s with tasks := update s.tasks t task }

def Sys.setState (s : Sys) (t : Tid) (state : TaskState) : Sys :=
  s.setTask t { s.tasks t with state := state }

def Sys.setSignals (s : Sys) (t : Tid) (g : Signals) : Sys :=
  s.setTask t { s.tasks t with signals := g }

def Sys.setCpu (s : Sys) (c : Nat) (cpu : Cpu) : Sys :=
  { s with cpus := update s.cpus c cpu }

def Sys.setPhase (s : Sys) (c : Nat) (phase : Phase) : Sys :=
  s.setCpu c { s.cpus c with phase := phase }

/-! ## The run queue -/

/-- `task_prio` -/
def taskPrio (task : Task) : Nat :=
  min (((task.prioBase : Int) - task.prioBonus).toNat) (prioLevels - 1)

def RunQueue.setNode (q : RunQueue) (t : Tid) (n : Node) : RunQueue :=
  { q with node := update q.node t n }

def RunQueue.setArray (q : RunQueue) (a : Arr) (array : PrioArray) : RunQueue :=
  { q with arrays := update q.arrays a array }

/-- Store `v` in `ready_next` of the node `l`, or in the head of level `p` when there
is none. -/
def RunQueue.storeNext (q : RunQueue) (a : Arr) (p : Nat) (l v : Option Tid) : RunQueue :=
  match l with
  | some l => q.setNode l { q.node l with next := v }
  | none =>
    let array := q.arrays a
    q.setArray a { array with head := update array.head p v }

/-- Store `v` in `ready_prev` of the node `r`, or in the tail of level `p`. -/
def RunQueue.storePrev (q : RunQueue) (a : Arr) (p : Nat) (r v : Option Tid) : RunQueue :=
  match r with
  | some r => q.setNode r { q.node r with prev := v }
  | none =>
    let array := q.arrays a
    q.setArray a { array with tail := update array.tail p v }

def RunQueue.setBitmap (q : RunQueue) (a : Arr) (bitmap : BitVec 32) : RunQueue :=
  q.setArray a { q.arrays a with bitmap := bitmap }

/-- What `rq_enqueue` does to the links: `t` goes behind the tail of level `p`. -/
def RunQueue.append (q : RunQueue) (a : Arr) (p : Nat) (t : Tid) : RunQueue :=
  let tail := (q.arrays a).tail p
  let q := q.setNode t { q.node t with prev := tail, next := none }
  let q := q.storeNext a p tail (some t)
  let q := q.storePrev a p none (some t)
  let q := q.setBitmap a ((q.arrays a).bitmap ||| (1#32 <<< p))
  q.setNode t { q.node t with array := some a, prio := p }

/-- `rq_dequeue` -/
def RunQueue.dequeue (q : RunQueue) (t : Tid) : RunQueue :=
  match (q.node t).array with
  | none => q
  | some a =>
    let n := q.node t
    let q := q.storeNext a n.prio n.prev n.next
    let q := q.storePrev a n.prio n.next n.prev
    let q :=
      if (q.arrays a).head n.prio = none then
        q.setBitmap a ((q.arrays a).bitmap &&& ~~~(1#32 <<< n.prio))
      else q
    q.setNode t { q.node t with prev := none, next := none, array := none }

/-- The test at the end of `rq_enqueue`, made by CPU `c`. -/
def wantsResched (s : Sys) (c : Nat) (prio : Nat) : Bool :=
  match (s.cpus c).current with
  | none => false
  | some cur => (s.tasks cur).idle || decide (prio < taskPrio (s.tasks cur))

/-- The array `rq_enqueue` on CPU `c` chooses for `t`, and what it does besides
linking it there: a spent quantum is refilled, and `need_resched`. -/
def enqueueTurn (s : Sys) (c : Nat) (t : Tid) : Arr × Sys :=
  let task := s.tasks t
  let cpu := s.cpus c
  let expired := s.rq.active.other
  if task.quantumRemaining = 0 then
    let since := if (s.rq.arrays expired).bitmap = 0 then s.ticks else s.rq.expiredSince
    (expired, { s with rq := { s.rq with expiredSince := since } }.setTask t
      { task with quantumRemaining := quantum })
  else
    (s.rq.active, s.setCpu c
      { cpu with needResched := cpu.needResched || wantsResched s c (taskPrio task) })

/-- `rq_enqueue` on CPU `c` -/
def rqEnqueue (s : Sys) (c : Nat) (t : Tid) : Sys :=
  if (s.rq.node t).array.isSome || (s.tasks t).idle then s
  else
    let (array, s') := enqueueTurn s c t
    { s' with rq := s'.rq.append array (taskPrio (s.tasks t)) t }

/-- `ready_dequeue`, and `rq_dequeue` under the lock. -/
def rqDequeue (s : Sys) (t : Tid) : Sys := { s with rq := s.rq.dequeue t }

/-- `sched_has_ready` -/
def schedHasReady (s : Sys) : Bool :=
  decide ((s.rq.arrays .first).bitmap ≠ 0 ∨ (s.rq.arrays .second).bitmap ≠ 0)

/-- `__builtin_ctz`, where there is a bit to count to. -/
def lowestBit (b : BitVec 32) : Option Nat :=
  (List.range prioLevels).find? fun p => b.getLsbD p

/-- The swap at the top of the loop of `ready_pop`. -/
def swapArrays (s : Sys) : Sys :=
  let expired := s.rq.arrays s.rq.active.other
  let starving := expired.bitmap ≠ 0 ∧ s.ticks - s.rq.expiredSince ≥ starveTicks
  if (s.rq.arrays s.rq.active).bitmap = 0 ∨ starving then
    { s with rq := { s.rq with active := s.rq.active.other, expiredSince := s.ticks } }
  else s

/-- `ready_pop`, with at most `fuel` turns of its loop. -/
def readyPop (s : Sys) : Nat → Option Tid × Sys
  | 0 => (none, s)
  | fuel + 1 =>
    let s := swapArrays s
    let array := s.rq.arrays s.rq.active
    match lowestBit array.bitmap with
    | none => (none, s)
    | some p =>
      match array.head p with
      | none => (none, s)
      | some t =>
        let s := rqDequeue s t
        if s.state t = .ready then (some t, s.setState t .running)
        else readyPop s fuel

/-! ## Changing the state of a task -/

/-- `sched_set_blocked` -/
def schedSetBlocked (s : Sys) (t : Tid) : Sys := (rqDequeue s t).setState t .blocked

/-- `sched_set_running` -/
def schedSetRunning (s : Sys) (t : Tid) : Sys :=
  if s.state t = .blocked ∨ s.state t = .ready then s.setState t .running else s

/-- The common end of `sched_wake_task` and `sched_continue_task`. -/
def makeReady (s : Sys) (c : Nat) (t : Tid) : Sys :=
  let s := s.setState t .ready
  if (s.tasks t).onCpu then s else rqEnqueue s c t

/-- `sched_wake_task` on CPU `c` -/
def schedWakeTask (s : Sys) (c : Nat) (t : Tid) : Sys :=
  if s.state t = .blocked then
    let task := s.tasks t
    makeReady (s.setTask t { task with
      prioBonus := min (task.prioBonus + prioWakeBonus) prioBonusMax }) c t
  else s

/-- `sched_continue_task` on CPU `c` -/
def schedContinueTask (s : Sys) (c : Nat) (t : Tid) : Sys :=
  if s.state t = .stopped then makeReady s c t else s

/-! ## Switching -/

/-- `sched_next_context` puts the current task `prev` of CPU `c` back in line. -/
def requeue (s : Sys) (c : Nat) (prev : Tid) : Sys :=
  let s := s.setCpu c { s.cpus c with needResched := false }
  let s := if s.state prev = .running then s.setState prev .ready else s
  if s.state prev = .ready then rqEnqueue s c prev else s

/-- The next task, given what `ready_pop` answered. -/
def nextTask (s : Sys) (c : Nat) (prev : Tid) : Option Tid → Tid
  | some t => t
  | none =>
    match (s.cpus c).idleTask with
    | some idle => if s.state prev ≠ .ready ∧ prev ≠ idle then idle else prev
    | none => prev

/-- The end of the section: stay with `prev`, or go on to `next`. -/
def stayOrPick (s : Sys) (c : Nat) (prev next : Tid) : Sys :=
  if next = prev then
    (if s.state prev = .ready then s.setState prev .running else s).setPhase c .returns
  else s.setPhase c (.picked next)

/-- The section of `sched_next_context` under `rq_lock`, on CPU `c` whose current
task is `prev`. -/
def schedNextContext (s : Sys) (c : Nat) (prev : Tid) : Sys :=
  let s := requeue s c prev
  let (pick, s) := readyPop s (s.all.length + 1)
  stayOrPick s c prev (nextTask s c prev pick)

/-- The rest of `sched_next_context`, which is `sched_switch_task`. -/
def schedSwitchTask (s : Sys) (c : Nat) (next : Tid) : Sys :=
  let cpu := s.cpus c
  let s := s.setCpu c { cpu with
    prevTask := cpu.current, current := some next, phase := .returns }
  s.setTask next { s.tasks next with onCpu := true, state := .running }

/-- CPU `c` is off the stack of `prev`. -/
def letGo (s : Sys) (c : Nat) (prev : Tid) : Sys :=
  let s := s.setCpu c { s.cpus c with prevTask := none, phase := .leaves }
  s.setTask prev { s.tasks prev with onCpu := false }

/-- The section of `sched_return` under `rq_lock`. -/
def schedReturn (s : Sys) (c : Nat) : Sys :=
  match (s.cpus c).prevTask with
  | none => s.setPhase c .leaves
  | some prev =>
    let s := letGo s c prev
    if s.state prev = .ready ∧ (s.rq.node prev).array = none then rqEnqueue s c prev
    else s

/-- A running task uses up its quantum, and is a little less keen at the end of it. -/
def tickTask (task : Task) : Task :=
  let left := task.quantumRemaining - 1
  { task with
    quantumRemaining := left
    prioBonus :=
      if left = 0 ∧ -prioBonusMax < task.prioBonus then task.prioBonus - 1
      else task.prioBonus }

/-- `sched_tick` -/
def schedTick (s : Sys) (c : Nat) : Sys :=
  match (s.cpus c).current with
  | none => s
  | some t =>
    let task := s.tasks t
    if task.idle then
      if schedHasReady s then schedNextContext s c t else s.setPhase c .returns
    else if task.state = .running then
      let s := s.setTask t (tickTask task)
      if (tickTask task).quantumRemaining ≠ 0 ∧ !(s.cpus c).needResched then
        s.setPhase c .returns
      else schedNextContext s c t
    else schedNextContext s c t

/-- `sched_resched_handle` -/
def schedReschedHandle (s : Sys) (c : Nat) : Sys :=
  match (s.cpus c).current with
  | none => s
  | some t =>
    if (if (s.tasks t).idle then !schedHasReady s else !(s.cpus c).needResched) then
      s.setPhase c .returns
    else schedNextContext s c t

/-- `sched_yield_handle` -/
def schedYieldHandle (s : Sys) (c : Nat) : Sys :=
  match (s.cpus c).current with
  | none => s
  | some t => schedNextContext s c t

/-- `sched_yield` up to the interrupt, by the task `t` itself. -/
def schedYield (s : Sys) (c : Nat) (t : Tid) : Sys :=
  let s :=
    if s.state t = .running then
      s.setTask t { s.tasks t with quantumRemaining := 0, state := .ready }
    else s
  s.setPhase c .yields

/-- `sched_idle` of the idle task `t` -/
def schedIdle (s : Sys) (c : Nat) (t : Tid) : Sys :=
  if schedHasReady s then schedYield s c t else s

/-! ## Signals -/

/-- The states a signal is not sent to. -/
def TaskState.gone (st : TaskState) : Bool :=
  decide (st = .zombie ∨ st = .dead ∨ st = .free)

/-- `signal_send` on CPU `c` -/
def signalSend (s : Sys) (c : Nat) (t : Tid) (sig : Nat) : Sys :=
  if !validSignal sig then s
  else if (s.state t).gone then s
  else
    let s := if sig = SIGCONT then schedContinueTask s c t else s
    let s := s.setSignals t ((s.tasks t).signals.post sig)
    if s.state t = .blocked then schedWakeTask s c t else schedContinueTask s c t

/-- The test of `signal_send_group` for a signal that goes to every thread. -/
def toEveryThread (s : Sys) (t : Tid) (sig : Nat) : Bool :=
  decide (sig = SIGKILL ∨ sig = SIGCONT) ||
    (signalDefaultStop sig && decide ((s.tasks t).signals.handler sig = SIG_DFL))

/-- The thread `signal_send_group` picks otherwise: the first that does not block the
signal, or else the first. -/
def pickThread (s : Sys) (threads : List Tid) (sig : Nat) : Option Tid :=
  let there := threads.filter fun t => !(s.state t).gone
  (there.find? fun t => decide ((s.tasks t).signals.blocked &&& sigBit sig = 0)).or there.head?

/-- Who `signal_send_group` sends the signal to, where `threads` is the list of the
group's threads, empty when there is none. -/
def groupTargets (s : Sys) (t : Tid) (threads : List Tid) (sig : Nat) : List Tid :=
  if threads = [] then [t]
  else if toEveryThread s t sig then threads
  else (pickThread s threads sig).toList

/-- `signal_send_group` on CPU `c` -/
def signalSendGroup (s : Sys) (c : Nat) (t : Tid) (threads : List Tid) (sig : Nat) : Sys :=
  if !validSignal sig then s
  else (groupTargets s t threads sig).foldl (fun s t => signalSend s c t sig) s

/-- What becomes of the task `t`, current on CPU `c`, after signals were delivered to
it. -/
def applyOutcome (s : Sys) (c : Nat) (t : Tid) (back : Back) : Outcome → Sys
  | .none => (s.setTask t { s.tasks t with user := true }).setPhase c back.phase
  | .handler _ entry =>
    (s.setTask t { s.tasks t with user := true, ctx := entry.ctx }).setPhase c back.phase
  | .stopped =>
    (s.setTask t
      { s.tasks t with user := false, state := .stopped, stopIn := some back }).setPhase c
      .yields
  | .exits _ =>
    (s.setTask t { s.tasks t with user := false, exiting := true }).setPhase c .runs

/-- `signal_deliver_pending` for the current task `t` of CPU `c`. -/
def deliverPending (s : Sys) (c : Nat) (t : Tid) (back : Back) (io : Copies) : Sys :=
  let task := s.tasks t
  if !task.privUser then applyOutcome s c t back .none
  else
    let (g, out) := signalDeliverPending task.signals task.ctx io
    applyOutcome (s.setSignals t g) c t back out

/-- `signal_deliver_pending` after its `sched_yield` has come back. -/
def stopOver (s : Sys) (c : Nat) (t : Tid) : Sys :=
  match (s.tasks t).stopIn with
  | some back =>
    (s.setTask t { s.tasks t with user := true, stopIn := none }).setPhase c back.phase
  | none => s

/-- The end of `sched_return`, after the section under the lock. -/
def returnDeliver (s : Sys) (c : Nat) (t : Tid) (io : Copies) : Sys :=
  let task := s.tasks t
  if task.user ∧ task.signals.activeFrame = 0 ∧ task.signals.ready ≠ 0 then
    deliverPending s c t .schedReturn io
  else s.setPhase c .runs

/-- The end of `syscall_dispatch` for any call but sigreturn. -/
def syscallLeave (s : Sys) (c : Nat) (t : Tid) (io : Copies) : Sys :=
  deliverPending s c t .dispatch io

/-- The end of `syscall_dispatch` for sigreturn. -/
def syscallSigreturn (s : Sys) (c : Nat) (t : Tid) (native : Option Sigframe)
    (linux : Option LinuxSigframe) (io : Copies) : Sys :=
  let task := s.tasks t
  match signalHandleSigreturn task.signals task.ctx native linux with
  | .error _ => (s.setTask t { task with user := true }).setPhase c .returns
  | .ok (g, ctx) =>
    deliverPending (s.setTask t { task with signals := g, ctx := ctx }) c t .dispatch io

/-- The end of `ke_user_program_exception`, for a fault that nothing resolved. -/
def userFault (s : Sys) (c : Nat) (t : Tid) (sig code : Nat) (addr : U64) (io : Copies) :
    Sys :=
  let task := s.tasks t
  match signalDeliverFault task.signals task.ctx sig code addr io with
  | .ok entry =>
    (s.setTask t { task with signals := entry.signals, ctx := entry.ctx }).setPhase c
      .returns
  | .error _ => s.setTask t { task with user := false, exiting := true }

/-- `signal_should_interrupt` of the current task, from inside a system call. -/
def shouldInterrupt (s : Sys) (c : Nat) (t : Tid) : Sys :=
  let (g, out) := signalShouldInterrupt (s.tasks t).signals
  let s := s.setSignals t g
  match out with
  | some .stopped => (s.setState t .stopped).setPhase c .yields
  | some (.exits _) => s.setTask t { s.tasks t with exiting := true }
  | _ => s

/-- `signal_set_action` for every thread of the group. -/
def signalSetAction (s : Sys) (t : Tid) (threads : List Tid) (sig : Nat)
    (act : Option Sigaction) : Sys :=
  match signalActionErr sig act, act with
  | none, some act =>
    (if threads = [] then [t] else threads).foldl
      (fun s t => s.setSignals t (signalCopyAction (s.tasks t).signals sig act)) s
  | _, _ => s

/-- `do_exec`, what it does to the signals, and the context of the new image. -/
def execSignals (s : Sys) (t : Tid) (ctx : CpuContext) : Sys :=
  s.setTask t { s.tasks t with ctx := ctx, signals := { altFlags := SS_DISABLE } }

/-! ## Tasks that come and go -/

/-- `task` gets a name not given before, and stands on the task list if it is not
idle. -/
def Sys.enlist (s : Sys) (t : Tid) (task : Task) : Sys :=
  { s.setTask t task with all := t :: s.all }

/-- `create_task` up to and with `sched_queue_task_locked`. -/
def createTask (s : Sys) (c : Nat) (t : Tid) (prio : Nat) (user ready : Bool) : Sys :=
  let task : Task :=
    { state := if ready then .ready else .blocked, prioBase := prio
      kind := if user then .user else .kernel, user := user }
  let s := s.enlist t task
  if ready then rqEnqueue s c t else s

/-- What a child gets of its parent's signals, and a thread of its creator's. -/
def Signals.inherit (g : Signals) (thread : Bool) : Signals :=
  let g := { g with pending := 0, activeFrame := 0 }
  if thread then { g with altSp := 0, altSize := 0, altFlags := SS_DISABLE } else g

/-- `sched_fork_from_context` and, with `thread`, `sched_clone_thread`, by the task
`parent`. -/
def forkTask (s : Sys) (parent t : Tid) (thread : Bool) : Sys :=
  let p := s.tasks parent
  let task : Task :=
    { state := .blocked, prioBase := p.prioBase, prioBonus := p.prioBonus
      kind := .user, user := true, ctx := { p.ctx with rax := 0 }
      signals := p.signals.inherit thread }
  s.enlist t task

/-- `sched_create_idle_task` for CPU `c` -/
def schedCreateIdleTask (s : Sys) (c : Nat) (t : Tid) : Sys :=
  let task : Task := { state := .running, onCpu := true, kind := .idle, prioBase := prioLevels - 1 }
  let s := s.enlist t task
  s.setCpu c { s.cpus c with idleTask := some t }

/-- `sched_mark_task_dead` up to the write of the state. -/
def schedMarkTaskDead (s : Sys) (c : Nat) (t : Tid) : Sys :=
  if s.state t = .dead then s
  else { s.setState t .dead with burying := some (c, t) }

/-- The rest of it. -/
def schedBury (s : Sys) (t : Tid) : Sys :=
  let s := rqDequeue s t
  { s with dead := s.dead ++ [t], burying := none }

/-- One turn of the inner loop of `scheduler_reap`. -/
def schedulerReap (s : Sys) : Sys :=
  match s.dead with
  | [] => s
  | t :: rest =>
    if (s.tasks t).onCpu then { s with dead := rest ++ [t] }
    else
      let s := rqDequeue s t
      { s.setTask t {} with dead := rest }

/-! ## Steps -/

/-- What a CPU does next. -/
inductive Act where
  /-- A timer interrupt on the first CPU counts. -/
  | timer
  | tick (c : Nat)
  | resched (c : Nat)
  /-- The yield interrupt. -/
  | yieldHandle (c : Nat)
  | switchTask (c : Nat)
  | schedReturn (c : Nat)
  | returnDeliver (c : Nat) (io : Copies)
  /-- User code of the current task, which leaves these registers. -/
  | user (c : Nat) (ctx : CpuContext)
  | fault (c : Nat) (sig code : Nat) (addr : U64) (io : Copies)
  | syscall (c : Nat)
  | syscallLeave (c : Nat) (io : Copies)
  | stopOver (c : Nat)
  | sigreturn (c : Nat) (native : Option Sigframe) (linux : Option LinuxSigframe)
      (io : Copies)
  /-- `sched_prepare_wait` -/
  | prepareWait (c : Nat)
  /-- `sched_finish_wait` -/
  | finishWait (c : Nat)
  | schedBlock (c : Nat)
  | schedYield (c : Nat)
  | schedIdle (c : Nat)
  /-- `wait_child` before it yields. -/
  | waitChild (c : Nat)
  | shouldInterrupt (c : Nat)
  | sigaction (c : Nat) (threads : List Tid) (sig : Nat) (act : Option Sigaction)
  | sigprocmask (c : Nat) (how : How) (set : Option U64)
  | sigaltstack (c : Nat) (sp size flags : U64)
  | exec (c : Nat) (ctx : CpuContext)
  | fork (c : Nat) (t : Tid) (thread : Bool)
  | create (c : Nat) (t : Tid) (prio : Nat) (user ready : Bool)
  | createIdle (c : Nat) (t : Tid)
  /-- `ap_idle` -/
  | apIdle (c : Nat)
  | wake (c : Nat) (t : Tid)
  | send (c : Nat) (t : Tid) (sig : Nat)
  | sendGroup (c : Nat) (t : Tid) (threads : List Tid) (sig : Nat)
  | setPrio (t : Tid) (prio : Nat)
  /-- `process_exit` and `thread_exit` make `t` a zombie. -/
  | zombie (t : Tid)
  | markDead (c : Nat) (t : Tid)
  | bury
  | reap

/-- No CPU is marking the current task of `c` dead, and `c` is not marking one. -/
def Sys.able (s : Sys) (c : Nat) : Bool :=
  match s.burying with
  | none => true
  | some (b, t) => decide (c ≠ b ∧ (s.cpus c).current ≠ some t)

/-- The current task of a CPU that executes its code, in user mode or not. -/
def Sys.runsIn (s : Sys) (c : Nat) (user : Bool) : Option Tid :=
  if (s.cpus c).phase = .runs ∧ s.able c then
    (s.cpus c).current.filter fun t => (s.tasks t).user == user
  else none

/-- The current task of a CPU in kernel code that is neither the idle loop nor the end
of a stop. -/
def Sys.kernel (s : Sys) (c : Nat) : Option Tid :=
  (s.runsIn c false).filter fun t => !(s.tasks t).idle && (s.tasks t).stopIn.isNone

/-- The current task of a CPU in a system call that is to return. -/
def Sys.inSyscall (s : Sys) (c : Nat) : Option Tid :=
  (s.kernel c).filter fun t => (s.tasks t).privUser && !(s.tasks t).exiting

/-- A task on the task list, where idle tasks never are. -/
def Sys.listed (s : Sys) (t : Tid) : Bool := decide (t ∈ s.all) && !(s.tasks t).idle

/-- A CPU that an interrupt can come to. -/
def Sys.open (s : Sys) (c : Nat) : Bool := s.able c && decide ((s.cpus c).phase = .runs)

/-- A CPU that may raise the yield interrupt, from inside a wait or because it is to
give its task's turn away. -/
def Sys.yielding (s : Sys) (c : Nat) : Bool :=
  s.able c && decide ((s.cpus c).phase = .runs ∨ (s.cpus c).phase = .yields)

/-- One step. One that is not possible changes nothing. -/
def step (s : Sys) : Act → Sys
  | .timer => { s with ticks := s.ticks + 1 }
  | .tick c => if s.open c then schedTick s c else s
  | .resched c => if s.open c then schedReschedHandle s c else s
  | .yieldHandle c => if s.yielding c then schedYieldHandle s c else s
  | .switchTask c =>
    match (s.cpus c).phase with
    | .picked next => if (s.tasks next).onCpu then s else schedSwitchTask s c next
    | _ => s
  | .schedReturn c => if (s.cpus c).phase = .returns then schedReturn s c else s
  | .returnDeliver c io =>
    match (s.cpus c).current with
    | some t =>
      if (s.cpus c).phase = .leaves ∧ s.able c then returnDeliver s c t io else s
    | none => s
  | .user c ctx =>
    match s.runsIn c true with
    | some t => s.setTask t
        { s.tasks t with ctx := { ctx with cs := USER_CS, ss := USER_SS } }
    | none => s
  | .fault c sig code addr io =>
    match s.runsIn c true with
    | some t => userFault s c t sig code addr io
    | none => s
  | .syscall c =>
    match s.runsIn c true with
    | some t => s.setTask t { s.tasks t with user := false }
    | none => s
  | .syscallLeave c io =>
    match s.inSyscall c with
    | some t => syscallLeave s c t io
    | none => s
  | .stopOver c =>
    match s.runsIn c false with
    | some t => stopOver s c t
    | none => s
  | .sigreturn c native linux io =>
    match s.inSyscall c with
    | some t => syscallSigreturn s c t native linux io
    | none => s
  | .prepareWait c =>
    match s.kernel c with
    | some t => schedSetBlocked s t
    | none => s
  | .finishWait c =>
    match s.kernel c with
    | some t => schedSetRunning s t
    | none => s
  | .schedBlock c =>
    match s.kernel c with
    | some t => (schedSetBlocked s t).setPhase c .yields
    | none => s
  | .schedYield c =>
    match s.kernel c with
    | some t => schedYield s c t
    | none => s
  | .schedIdle c =>
    match s.runsIn c false with
    | some t => if (s.tasks t).idle then schedIdle s c t else s
    | none => s
  | .waitChild c =>
    match s.kernel c with
    | some t => s.setState t .blocked
    | none => s
  | .shouldInterrupt c =>
    match s.kernel c with
    | some t => shouldInterrupt s c t
    | none => s
  | .sigaction c threads sig act =>
    match s.inSyscall c with
    | some t => signalSetAction s t threads sig act
    | none => s
  | .sigprocmask c how set =>
    match s.inSyscall c with
    | some t =>
      match signalSetMask (s.tasks t).signals how set with
      | .ok g => s.setSignals t g
      | .error _ => s
    | none => s
  | .sigaltstack c sp size flags =>
    match s.inSyscall c with
    | some t =>
      let task := s.tasks t
      match signalSetAltstack task.signals sp size flags task.ctx.rsp with
      | .ok g => s.setSignals t g
      | .error _ => s
    | none => s
  | .exec c ctx =>
    match s.inSyscall c with
    | some t => execSignals s t ctx
    | none => s
  | .fork c t thread =>
    match s.inSyscall c with
    | some parent => if t ∈ s.all then s else forkTask s parent t thread
    | none => s
  | .create c t prio user ready =>
    if t ∈ s.all then s else createTask s c t prio user ready
  | .createIdle c t =>
    if t ∈ s.all ∨ (s.cpus c).idleTask ≠ none then s else schedCreateIdleTask s c t
  | .apIdle c =>
    match (s.cpus c).current, (s.cpus c).idleTask with
    | none, some idle => s.setCpu c { s.cpus c with current := some idle, phase := .runs }
    | _, _ => s
  | .wake c t => schedWakeTask s c t
  | .send c t sig => signalSend s c t sig
  | .sendGroup c t threads sig => signalSendGroup s c t threads sig
  | .setPrio t prio => s.setTask t { s.tasks t with prioBase := prio }
  | .zombie t => if s.listed t then s.setState t .zombie else s
  | .markDead c t =>
    if s.burying = none ∧ s.listed t then schedMarkTaskDead s c t else s
  | .bury =>
    match s.burying with
    | some (_, t) => schedBury s t
    | none => s
  | .reap => if s.burying = none then schedulerReap s else s

/-- After `sched_bootstrap`: the kernel task runs on the first CPU, which has an idle
task of its own. -/
def Sys.boot : Sys where
  tasks t :=
    if t = 0 then { state := .running, onCpu := true }
    else if t = 1 then { state := .running, kind := .idle, prioBase := prioLevels - 1 }
    else {}
  cpus c := if c = 0 then { current := some 0, idleTask := some 1 } else {}
  all := [0, 1]

end BleedKernel.Sched
