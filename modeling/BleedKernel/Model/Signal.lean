import Mathlib.Logic.Function.Basic

/-!
# `sched/signal.c`: masks, handlers and frames

What one task has of signals, and what the functions of `signal.c` do to it.
Whatever reaches beyond the task, its state and the run queue, is in the
scheduler's model, which calls these.

User memory is a choice made from outside. A copy out of it brings whatever the
program put there, so a frame read back by sigreturn is an argument, and a copy
into it goes well or does not. `exit` does not return: the functions here answer
that it was called and with which signal.
-/

namespace BleedKernel.Sched

/-- A mask of signals, or a word of the machine. -/
abbrev U64 := BitVec 64

/-- `NSIG` -/
def nsig : Nat := 32

def SIGSEGV : Nat := 11
def SIGBUS : Nat := 7
def SIGKILL : Nat := 9
def SIGCHLD : Nat := 17
def SIGCONT : Nat := 18
def SIGSTOP : Nat := 19
def SIGTSTP : Nat := 20
def SIGTTIN : Nat := 21
def SIGTTOU : Nat := 22
def SIGWINCH : Nat := 28

def SIG_DFL : U64 := 0
def SIG_IGN : U64 := 1

def SA_SIGINFO : U64 := 0x4
def SA_ONSTACK : U64 := 0x08000000
def SA_NODEFER : U64 := 0x40000000
def SA_RESETHAND : U64 := 0x80000000

def SS_ONSTACK : U64 := 1
def SS_DISABLE : U64 := 2
def MINSIGSTKSZ : U64 := 2048

def USER_CS : U64 := 0x1b
def USER_SS : U64 := 0x23
def RFLAGS_USER_MASK : U64 := 0xDD5
def RFLAGS_IF : U64 := 0x200

/-- `sig_active_frame` has this bit for a frame of the second kind. -/
def FRAME_LINUX : U64 := 1

/-- `SIGNAL_RED_ZONE` -/
def redZone : U64 := 128
/-- `sizeof(sigframe_t)` -/
def sigframeSize : U64 := 320
/-- `sizeof(linux_sigframe_t)` -/
def linuxFrameSize : U64 := 1072

/-- The negated error numbers these functions return. -/
inductive SigErr where
  | esrch | einval | efault | enomem | eperm
deriving DecidableEq, Repr

/-- `cpu_context_t` -/
structure CpuContext where
  r15 : U64 := 0
  r14 : U64 := 0
  r13 : U64 := 0
  r12 : U64 := 0
  r11 : U64 := 0
  r10 : U64 := 0
  r9 : U64 := 0
  r8 : U64 := 0
  rbp : U64 := 0
  rdi : U64 := 0
  rsi : U64 := 0
  rdx : U64 := 0
  rcx : U64 := 0
  rbx : U64 := 0
  rax : U64 := 0
  vector : U64 := 0
  error : U64 := 0
  rip : U64 := 0
  cs : U64 := USER_CS
  rflags : U64 := RFLAGS_IF
  rsp : U64 := 0
  ss : U64 := USER_SS
deriving DecidableEq, Repr

/-- `sigaction_t`, and what a task keeps of it for each signal. -/
structure Sigaction where
  handler : U64 := SIG_DFL
  mask : U64 := 0
  flags : U64 := 0
  restorer : U64 := 0
deriving DecidableEq, Repr

/-- The signal fields of `task_t`. -/
structure Signals where
  pending : U64 := 0
  blocked : U64 := 0
  /-- `sig_handlers`, `sig_masks`, `sig_flags` and `sig_restorers` -/
  action : Nat → Sigaction := fun _ => {}
  activeFrame : U64 := 0
  altSp : U64 := 0
  altSize : U64 := 0
  altFlags : U64 := 0

/-- `valid_signal` -/
def validSignal (sig : Nat) : Bool := decide (0 < sig ∧ sig < nsig)

/-- `sig_bit` -/
def sigBit (sig : Nat) : U64 := 1#64 <<< (sig - 1)

/-- `valid_sig_mask` -/
def validSigMask : U64 := (1#64 <<< (nsig - 1)) - 1

/-- `user_ptr_valid` -/
def userPtrValid (ptr : U64) : Bool :=
  decide (0x1000#64 ≤ ptr ∧ ptr ≤ 0x00007fffffffffff#64)

/-- `signal_default_ignored` -/
def signalDefaultIgnored (sig : Nat) : Bool :=
  decide (sig = SIGCHLD ∨ sig = SIGWINCH ∨ sig = SIGCONT)

/-- `signal_default_stop` -/
def signalDefaultStop (sig : Nat) : Bool :=
  decide (sig = SIGSTOP ∨ sig = SIGTSTP ∨ sig = SIGTTIN ∨ sig = SIGTTOU)

/-- `signal_default_terminate` -/
def signalDefaultTerminate (sig : Nat) : Bool :=
  !signalDefaultIgnored sig && !signalDefaultStop sig

/-- The handler of a signal. -/
def Signals.handler (g : Signals) (sig : Nat) : U64 := (g.action sig).handler

/-- `sig_pending & ~sig_blocked` -/
def Signals.ready (g : Signals) : U64 := g.pending &&& ~~~g.blocked

/-- The signal is no longer pending. -/
def Signals.clear (g : Signals) (sig : Nat) : Signals :=
  { g with pending := g.pending &&& ~~~sigBit sig }

/-! ## Sending -/

/-- What `signal_send` does to the masks of a task that can still be sent to. -/
def Signals.post (g : Signals) (sig : Nat) : Signals :=
  let g :=
    if sig = SIGCONT then
      (((g.clear SIGSTOP).clear SIGTSTP).clear SIGTTIN).clear SIGTTOU
    else g
  let g := if signalDefaultStop sig then g.clear SIGCONT else g
  { g with pending := g.pending ||| sigBit sig }

/-! ## Handlers and masks -/

/-- `signal_copy_action` -/
def signalCopyAction (g : Signals) (sig : Nat) (act : Sigaction) : Signals :=
  { g with action := Function.update g.action sig act }

/-- The refusals of `signal_set_action` for a task that exists. -/
def signalActionErr (sig : Nat) (act : Option Sigaction) : Option SigErr :=
  if !validSignal sig then some .einval
  else if act.isSome && decide (sig = SIGKILL ∨ sig = SIGSTOP) then some .einval
  else none

/-- `SIG_BLOCK`, `SIG_UNBLOCK`, `SIG_SETMASK`, and any other number. -/
inductive How where
  | block | unblock | setmask | other
deriving DecidableEq, Repr

/-- `signal_set_mask` -/
def signalSetMask (g : Signals) (how : How) (set : Option U64) :
    Except SigErr Signals :=
  match set with
  | none => .ok g
  | some set =>
    let mask : Option U64 :=
      match how with
      | .block => some (g.blocked ||| set)
      | .unblock => some (g.blocked &&& ~~~set)
      | .setmask => some set
      | .other => none
    match mask with
    | none => .error .einval
    | some mask =>
      .ok { g with blocked :=
        ((mask &&& validSigMask) &&& ~~~sigBit SIGKILL) &&& ~~~sigBit SIGSTOP }

/-- `on_altstack` -/
def onAltstack (g : Signals) (sp : U64) : Bool :=
  decide (g.altSize ≠ 0 ∧ g.altSp < sp ∧ sp ≤ g.altSp + g.altSize)

/-- `signal_set_altstack` of a stack given by its three fields, by a task whose stack
pointer is `rsp`. -/
def signalSetAltstack (g : Signals) (sp size flags rsp : U64) : Except SigErr Signals :=
  if onAltstack g rsp then .error .eperm
  else if flags &&& ~~~(SS_DISABLE ||| SS_ONSTACK) ≠ 0 then .error .einval
  else if flags &&& SS_DISABLE ≠ 0 then
    .ok { g with altSp := 0, altSize := 0, altFlags := SS_DISABLE }
  else if size < MINSIGSTKSZ then .error .enomem
  else if !userPtrValid sp || !userPtrValid (sp + size - 1) then .error .efault
  else .ok { g with altSp := sp, altSize := size, altFlags := 0 }

/-- `signal_enter_mask` -/
def signalEnterMask (g : Signals) (sig : Nat) (mask flags : U64) : Signals :=
  let g := { g with blocked := g.blocked ||| mask }
  let g :=
    if flags &&& (SA_NODEFER ||| SA_RESETHAND) = 0 then
      { g with blocked := g.blocked ||| sigBit sig }
    else g
  if flags &&& SA_RESETHAND ≠ 0 then
    let act := g.action sig
    signalCopyAction g sig
      { act with handler := SIG_DFL, flags := act.flags &&& ~~~SA_SIGINFO }
  else g

/-! ## Frames

Of the second kind of frame only the registers, the first word of the mask and
`prev_frame` are ever read back. -/

/-- `user_siginfo_t`, the fields the kernel fills in. -/
structure Siginfo where
  signo : Nat := 0
  code : Nat := 0
  addr : U64 := 0
deriving DecidableEq, Repr

/-- `sigframe_t` -/
structure Sigframe where
  savedCtx : CpuContext
  oldMask : U64
  prevFrame : U64
  info : Siginfo := {}
deriving DecidableEq, Repr

/-- `linux_sigframe_t` -/
structure LinuxSigframe where
  /-- `uc.gregs`, under the names of the registers they hold. -/
  gregs : CpuContext
  oldmask : U64 := 0
  cr2 : U64 := 0
  sigmask : U64
  altSp : U64 := 0
  altSize : U64 := 0
  altFlags : U64 := 0
  info : Siginfo := {}
  prevFrame : U64
deriving DecidableEq, Repr

/-- A frame as it lies in user memory. -/
inductive Frame where
  | native (frame : Sigframe)
  | linux (frame : LinuxSigframe)
deriving DecidableEq, Repr

/-- How the copies into user memory and the allocation of a frame go. -/
structure Copies where
  frame : Bool := true
  ret : Bool := true
  mem : Bool := true
deriving DecidableEq, Repr

/-- A handler set up: the task's signals, its context, and what was written to user
memory, the frame with its address and the return address right under it. -/
structure Entry where
  signals : Signals
  ctx : CpuContext
  addr : U64
  frame : Frame
  ret : U64

/-- `signal_setup_linux_frame` -/
def signalSetupLinuxFrame (g : Signals) (ctx : CpuContext) (sig code : Nat)
    (addr top : U64) (io : Copies) : Except SigErr Entry :=
  let frameAddr := (top - linuxFrameSize) &&& ~~~0xF#64
  let retAddrSp := frameAddr - 8
  if !userPtrValid frameAddr || !userPtrValid retAddrSp then .error .efault
  else if !io.mem then .error .enomem
  else if !io.frame || !io.ret then .error .efault
  else
    let act := g.action sig
    .ok {
      signals := signalEnterMask { g with activeFrame := frameAddr ||| FRAME_LINUX }
        sig act.mask act.flags
      ctx := { ctx with
        rip := act.handler, rdi := BitVec.ofNat 64 sig, rsi := frameAddr + 936,
        rdx := frameAddr, rax := 0, rsp := retAddrSp }
      addr := frameAddr
      frame := .linux {
        gregs := ctx
        oldmask := g.blocked
        cr2 := if sig = SIGSEGV ∨ sig = SIGBUS then addr else 0
        sigmask := g.blocked
        altSp := g.altSp
        altSize := g.altSize
        altFlags := if g.altSize ≠ 0 then g.altFlags else SS_DISABLE
        info := { signo := sig, code := code, addr := addr }
        prevFrame := g.activeFrame }
      ret := act.restorer }

/-- The rest of `signal_setup_user_handler`, for a handler without
`SA_SIGINFO`. -/
def signalSetupFrame (g : Signals) (ctx : CpuContext) (sig code : Nat)
    (addr top : U64) (io : Copies) : Except SigErr Entry :=
  let frameAddr := (top - sigframeSize) &&& ~~~0xF#64
  let retAddrSp := frameAddr - 8
  if !userPtrValid frameAddr then .error .efault
  else if !io.frame then .error .efault
  else if !userPtrValid retAddrSp then .error .efault
  else if !io.ret then .error .efault
  else
    let act := g.action sig
    .ok {
      signals := signalEnterMask { g with activeFrame := frameAddr } sig act.mask act.flags
      ctx := { ctx with
        rip := act.handler, rdi := BitVec.ofNat 64 sig, rsi := frameAddr,
        rsp := retAddrSp }
      addr := frameAddr
      frame := .native {
        savedCtx := ctx
        oldMask := g.blocked
        prevFrame := g.activeFrame
        info := { signo := sig, code := code, addr := addr } }
      ret := act.restorer }

/-- `signal_setup_user_handler` -/
def signalSetupUserHandler (g : Signals) (ctx : CpuContext) (sig code : Nat)
    (addr : U64) (io : Copies) : Except SigErr Entry :=
  let act := g.action sig
  if act.handler = SIG_DFL ∨ act.handler = SIG_IGN ∨ act.restorer < 2 then .error .einval
  else
    let alt := decide (act.flags &&& SA_ONSTACK ≠ 0 ∧ g.altFlags &&& SS_DISABLE = 0 ∧
      g.altSize ≠ 0) && !onAltstack g ctx.rsp
    if !alt && !userPtrValid ctx.rsp then .error .efault
    else
      let top := if alt then g.altSp + g.altSize else ctx.rsp - redZone
      if act.flags &&& SA_SIGINFO ≠ 0 then signalSetupLinuxFrame g ctx sig code addr top io
      else signalSetupFrame g ctx sig code addr top io

/-- `signal_deliver_fault` -/
def signalDeliverFault (g : Signals) (ctx : CpuContext) (sig code : Nat) (addr : U64)
    (io : Copies) : Except SigErr Entry :=
  if !validSignal sig then .error .einval
  else if g.handler sig = SIG_DFL ∨ g.handler sig = SIG_IGN then .error .einval
  else if g.activeFrame ≠ 0 ∨ g.blocked &&& sigBit sig ≠ 0 then .error .einval
  else signalSetupUserHandler g ctx sig code addr io

/-! ## Returning from a handler -/

/-- What the program gets to choose of a context it hands back. -/
def confine (ctx : CpuContext) : CpuContext :=
  { ctx with cs := USER_CS, ss := USER_SS, rflags := (ctx.rflags &&& RFLAGS_USER_MASK) ||| RFLAGS_IF }

/-- `signal_return_linux_frame`. `frame` is what the copies bring, if they go
well. -/
def signalReturnLinuxFrame (g : Signals) (ctx : CpuContext)
    (frame : Option LinuxSigframe) : Except SigErr (Signals × CpuContext) :=
  match frame with
  | none => .error .efault
  | some f =>
    -- `gregs_to_ctx` leaves these fields alone
    let back := { f.gregs with
      vector := ctx.vector, error := ctx.error, cs := ctx.cs, ss := ctx.ss }
    if !userPtrValid back.rip then .error .efault
    else
      .ok ({ g with
        blocked := f.sigmask &&& ~~~(sigBit SIGKILL ||| sigBit SIGSTOP)
        activeFrame := f.prevFrame }, confine back)

/-- `signal_handle_sigreturn`. The two arguments are what user memory holds at the
frame's address, read as either kind of frame. -/
def signalHandleSigreturn (g : Signals) (ctx : CpuContext)
    (native : Option Sigframe) (linux : Option LinuxSigframe) :
    Except SigErr (Signals × CpuContext) :=
  if g.activeFrame = 0 then .error .einval
  else if g.activeFrame &&& FRAME_LINUX ≠ 0 then signalReturnLinuxFrame g ctx linux
  else
    match native with
    | none => .error .efault
    | some f =>
      if !userPtrValid f.savedCtx.rip then .error .efault
      else
        .ok ({ g with blocked := f.oldMask, activeFrame := f.prevFrame },
          confine f.savedCtx)

/-! ## Delivery -/

/-- The answers of `signal_apply_default_action`: `0`, `1` after the task was
stopped, no answer because `exit` was called, and `-1`. -/
inductive Default where
  | ignored | stop | terminate | handler
deriving DecidableEq, Repr

/-- `signal_apply_default_action`, the choice it makes. -/
def signalDefaultAction (g : Signals) (sig : Nat) : Default :=
  if g.handler sig = SIG_IGN ∨ (g.handler sig = SIG_DFL ∧ signalDefaultIgnored sig) then
    .ignored
  else if g.handler sig = SIG_DFL ∧ signalDefaultStop sig then .stop
  else if g.handler sig = SIG_DFL ∧ signalDefaultTerminate sig then .terminate
  else .handler

/-- What became of a task that signals were delivered to. -/
inductive Outcome where
  /-- It goes on as it was. -/
  | none
  /-- It is `TASK_STOPPED` and gives the CPU away. -/
  | stopped
  /-- `exit` was called for this signal. -/
  | exits (sig : Nat)
  /-- It goes on in a handler. -/
  | handler (sig : Nat) (entry : Entry)

/-- The signals `1` to `NSIG - 1`. -/
def signalNumbers : List Nat := (List.range (nsig - 1)).map (· + 1)

/-- The loop of `signal_deliver_pending`, over the signals still to look at.
`ready` was read before the first. -/
def deliverLoop (ctx : CpuContext) (io : Copies) (ready : U64) :
    Signals → List Nat → Signals × Outcome
  | g, [] => (g, .none)
  | g, sig :: sigs =>
    if ready &&& sigBit sig = 0 then deliverLoop ctx io ready g sigs
    else
      let g := g.clear sig
      match signalDefaultAction g sig with
      | .ignored => deliverLoop ctx io ready g sigs
      | .stop => (g, .stopped)
      | .terminate => (g, .exits sig)
      | .handler =>
        match signalSetupUserHandler g ctx sig 0 0 io with
        | .error _ => (g, .exits sig)
        | .ok entry => (entry.signals, .handler sig entry)

/-- `signal_deliver_pending` of a user task. -/
def signalDeliverPending (g : Signals) (ctx : CpuContext) (io : Copies) :
    Signals × Outcome :=
  if g.activeFrame ≠ 0 then (g, .none)
  else if g.ready = 0 then (g, .none)
  else deliverLoop ctx io g.ready g signalNumbers

/-- The loop of `signal_should_interrupt`. `none` is its answer `0`. -/
def interruptLoop (g : Signals) (ready : U64) : List Nat → Signals × Option Outcome
  | [] => (g, none)
  | sig :: sigs =>
    if ready &&& sigBit sig = 0 then interruptLoop g ready sigs
    else if g.handler sig = SIG_IGN then interruptLoop g ready sigs
    else if g.handler sig = SIG_DFL ∧ signalDefaultIgnored sig then
      interruptLoop g ready sigs
    else if g.handler sig ≠ SIG_DFL ∧ g.activeFrame ≠ 0 then interruptLoop g ready sigs
    else
      match signalDefaultAction g sig with
      | .ignored => (g, none)
      | .stop => (g.clear sig, some .stopped)
      | .terminate => (g.clear sig, some (.exits sig))
      | .handler => (g, some .none)

/-- `signal_should_interrupt` -/
def signalShouldInterrupt (g : Signals) : Signals × Option Outcome :=
  if g.ready = 0 then (g, none) else interruptLoop g g.ready signalNumbers

end BleedKernel.Sched
