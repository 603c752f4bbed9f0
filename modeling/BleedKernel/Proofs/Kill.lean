import BleedKernel.Proofs.SignalSteps

/-!
# `SIGKILL` and `SIGSTOP`

Neither can be given a handler: `signal_set_action` refuses, and a handler that is
entered was set. Neither is meant to be blocked. `signal_set_mask` and the return from
the second kind of frame strip the two bits; the entry to a handler, which adds the
mask of the action, and the return from the first kind of frame do not.

`SIGKILL` pending ends a task on its way back to user mode only where the signals are
looked at, which is not the case inside a handler, and only if no handler of a signal
before it is entered.
-/

namespace BleedKernel.Sched

open BleedKernel.Lib List

variable {addr flags mask ready : U64} {code sig : Nat} {g g' : Signals} {ctx ctx' : CpuContext}
  {io : Copies} {entry : Entry} {native : Option Sigframe} {linux : Option LinuxSigframe}
  {s : Sys} {a : Act} {t : Tid}

/-- The bits of `SIGKILL` and `SIGSTOP`. -/
def unblockable : U64 := sigBit SIGKILL ||| sigBit SIGSTOP

/-- A mask with neither bit. -/
def plain (mask : U64) : Bool := decide (mask &&& unblockable = 0)

theorem plain_iff :
    plain mask = true ↔ mask &&& sigBit SIGKILL = 0 ∧ mask &&& sigBit SIGSTOP = 0 := by
  simp only [plain, unblockable, decide_eq_true_eq, BitVec.and_or_distrib_left]
  exact BitVec.or_eq_zero_iff

theorem plain_or {m m' : U64} : plain (m ||| m') = true ↔ plain m = true ∧ plain m' = true := by
  simp only [plain, decide_eq_true_eq, BitVec.and_or_distrib_right]
  exact BitVec.or_eq_zero_iff

theorem plain_strip (m : U64) : plain (m &&& ~~~unblockable) = true := by
  simp only [plain, decide_eq_true_eq]
  rw [BitVec.and_assoc]
  exact BitVec.and_zero

theorem plain_sigBit (hk : sig ≠ SIGKILL) (hs : sig ≠ SIGSTOP) : plain (sigBit sig) = true := by
  simp only [SIGKILL, SIGSTOP] at hk hs
  simp only [plain, decide_eq_true_eq]
  refine BitVec.eq_of_getLsbD_eq fun i hi => ?_
  -- the one bit set is another than the two
  simp only [sigBit, unblockable, SIGKILL, SIGSTOP, BitVec.getLsbD_and, BitVec.getLsbD_or,
    BitVec.getLsbD_shiftLeft]
  simp
  omega

/-! ## Entering a handler -/

/-- What `signal_enter_mask` leaves: the mask grows by the action's and at most by the
signal itself, and no handler is set. -/
structure Entered (g : Signals) (sig : Nat) (g' : Signals) : Prop where
  blocked : g'.blocked = g.blocked ||| (g.action sig).mask ∨
    g'.blocked = (g.blocked ||| (g.action sig).mask) ||| sigBit sig
  handler : ∀ n, g'.handler n = g.handler n ∨ g'.handler n = SIG_DFL
  set : g.handler sig ≠ SIG_DFL

theorem signalEnterMask_blocked : (signalEnterMask g sig mask flags).blocked = g.blocked ||| mask ∨
      (signalEnterMask g sig mask flags).blocked = (g.blocked ||| mask) ||| sigBit sig := by
  by_cases hd : flags &&& (SA_NODEFER ||| SA_RESETHAND) = 0
  · right
    simp only [signalEnterMask]
    split <;> rfl
  · left
    simp only [signalEnterMask]
    split <;> rfl

theorem signalEnterMask_handler (n : Nat) :
    (signalEnterMask g sig mask flags).handler n = g.handler n ∨
      (signalEnterMask g sig mask flags).handler n = SIG_DFL := by
  have hcopy : ∀ {g' : Signals} {act : Sigaction}, g'.action = g.action →
      act.handler = SIG_DFL → (signalCopyAction g' sig act).handler n = g.handler n ∨
        (signalCopyAction g' sig act).handler n = SIG_DFL := by
    intro g' act hg hact
    simp only [signalCopyAction, Signals.handler, Function.update_apply]
    split
    · exact .inr hact
    · exact .inl (by rw [hg])
  simp only [signalEnterMask]
  split
  · exact hcopy (by split <;> rfl) rfl
  · refine .inl ?_
    split <;> rfl

theorem signalSetupLinuxFrame_signals {top : U64}
    (h : signalSetupLinuxFrame g ctx sig code addr top io = .ok entry) :
    ∃ af, entry.signals = signalEnterMask { g with activeFrame := af } sig
      (g.action sig).mask (g.action sig).flags := by
  simp only [signalSetupLinuxFrame] at h
  split at h
  · cases h
  split at h
  · cases h
  split at h
  · cases h
  · cases h
    exact ⟨_, rfl⟩

theorem signalSetupFrame_signals {top : U64}
    (h : signalSetupFrame g ctx sig code addr top io = .ok entry) :
    ∃ af, entry.signals = signalEnterMask { g with activeFrame := af } sig
      (g.action sig).mask (g.action sig).flags := by
  simp only [signalSetupFrame] at h
  repeat' split at h
  all_goals cases h
  exact ⟨_, rfl⟩

/-- Whatever the frame, and whatever is pending besides. -/
theorem signalSetupUserHandler_entered {g₀ : Signals} (hb : g.blocked = g₀.blocked)
    (ha : g.action = g₀.action)
    (h : signalSetupUserHandler g ctx sig code addr io = .ok entry) :
    Entered g₀ sig entry.signals := by
  simp only [signalSetupUserHandler] at h
  split at h
  · cases h
  next hset =>
  push Not at hset
  have hentry : ∃ af, entry.signals = signalEnterMask { g with activeFrame := af } sig
      (g.action sig).mask (g.action sig).flags := by
    split at h
    · cases h
    by_cases hinfo : (g.action sig).flags &&& SA_SIGINFO ≠ 0
    · rw [if_pos hinfo] at h
      exact signalSetupLinuxFrame_signals h
    · rw [if_neg hinfo] at h
      exact signalSetupFrame_signals h
  obtain ⟨af, heq⟩ := hentry
  rw [heq]
  refine ⟨?_, fun n => ?_, ?_⟩
  · rw [← hb, ← ha]
    exact signalEnterMask_blocked
  · have hn : g₀.handler n = { g with activeFrame := af }.handler n := by
      rw [Signals.handler, ← ha]
      rfl
    rw [hn]
    exact signalEnterMask_handler n
  · rw [Signals.handler, ← ha]
    exact hset.1

theorem signalDefaultAction_congr (h : g'.action = g.action) :
    signalDefaultAction g' sig = signalDefaultAction g sig := by
  have hh : g'.handler sig = g.handler sig := by simp only [Signals.handler, h]
  simp only [signalDefaultAction, hh]

/-- The loop of `signal_deliver_pending` only clears pending signals, until it enters a
handler. -/
theorem deliverLoop_cases {g₀ : Signals} (sigs : List Nat) (hb : g.blocked = g₀.blocked)
    (ha : g.action = g₀.action) :
    ((deliverLoop ctx io ready g sigs).1.blocked = g₀.blocked ∧
      (deliverLoop ctx io ready g sigs).1.action = g₀.action) ∨
    ∃ sig entry, (deliverLoop ctx io ready g sigs).2 = .handler sig entry ∧
      Entered g₀ sig (deliverLoop ctx io ready g sigs).1 := by
  induction sigs generalizing g with
  | nil => exact .inl ⟨hb, ha⟩
  | cons sig sigs ih =>
    simp only [deliverLoop]
    split
    · exact ih hb ha
    have hb' : (g.clear sig).blocked = g₀.blocked := hb
    have ha' : (g.clear sig).action = g₀.action := ha
    split
    · exact ih hb' ha'
    · exact .inl ⟨hb', ha'⟩
    · exact .inl ⟨hb', ha'⟩
    · split
      · exact .inl ⟨hb', ha'⟩
      · next entry hok =>
          exact .inr ⟨sig, entry, rfl, signalSetupUserHandler_entered hb' ha' hok⟩

theorem signalDeliverPending_cases (g : Signals) (ctx : CpuContext) (io : Copies) :
    ((signalDeliverPending g ctx io).1.blocked = g.blocked ∧
      (signalDeliverPending g ctx io).1.action = g.action) ∨
    ∃ sig entry, (signalDeliverPending g ctx io).2 = .handler sig entry ∧
      Entered g sig (signalDeliverPending g ctx io).1 := by
  simp only [signalDeliverPending]
  split
  · exact .inl ⟨rfl, rfl⟩
  split
  · exact .inl ⟨rfl, rfl⟩
  · exact deliverLoop_cases signalNumbers rfl rfl

theorem interruptLoop_same (sigs : List Nat) : (interruptLoop g ready sigs).1.blocked = g.blocked ∧
      (interruptLoop g ready sigs).1.action = g.action := by
  induction sigs with
  | nil => exact ⟨rfl, rfl⟩
  | cons sig sigs ih =>
    simp only [interruptLoop]
    split
    · exact ih
    split
    · exact ih
    split
    · exact ih
    split
    · exact ih
    · split <;> exact ⟨rfl, rfl⟩

theorem signalShouldInterrupt_same (g : Signals) : (signalShouldInterrupt g).1.blocked = g.blocked ∧
      (signalShouldInterrupt g).1.action = g.action := by
  simp only [signalShouldInterrupt]
  split
  · exact ⟨rfl, rfl⟩
  · exact interruptLoop_same signalNumbers

theorem post_same : (g.post sig).blocked = g.blocked ∧ (g.post sig).action = g.action := by
  simp only [Signals.post]
  split <;> split <;> exact ⟨rfl, rfl⟩

theorem inherit_same {thread : Bool} :
    (g.inherit thread).blocked = g.blocked ∧ (g.inherit thread).action = g.action := by
  simp only [Signals.inherit]
  split <;> exact ⟨rfl, rfl⟩

theorem signalSetAltstack_same {sp size rsp : U64}
    (h : signalSetAltstack g sp size flags rsp = .ok g') :
    g'.blocked = g.blocked ∧ g'.action = g.action := by
  simp only [signalSetAltstack] at h
  repeat' split at h
  all_goals cases h
  all_goals exact ⟨rfl, rfl⟩

theorem signalSetMask_plain {how : How} {set : Option U64} (h : signalSetMask g how set = .ok g') :
    g' = g ∨ g'.action = g.action ∧ plain g'.blocked = true := by
  cases set with
  | none =>
    cases h
    exact .inl rfl
  | some set =>
    right
    have hstrip : ∀ {m : U64}, plain ((m &&& ~~~sigBit SIGKILL) &&& ~~~sigBit SIGSTOP) = true := by
      intro m
      rw [BitVec.and_assoc]
      exact plain_strip m
    cases how <;> cases h <;> exact ⟨rfl, hstrip⟩

theorem signalHandleSigreturn_same (h : signalHandleSigreturn g ctx native linux = .ok (g', ctx')) :
    g'.pending = g.pending ∧ g'.action = g.action := by
  simp only [signalHandleSigreturn, signalReturnLinuxFrame] at h
  repeat' split at h
  all_goals cases h
  all_goals exact ⟨rfl, rfl⟩

/-! ## No handler for either -/

/-- Neither signal has a handler. -/
def Bare (g : Signals) : Prop := g.handler SIGKILL = SIG_DFL ∧ g.handler SIGSTOP = SIG_DFL

theorem Bare.congr (h : Bare g) (ha : g'.action = g.action) : Bare g' := by
  simp only [Bare, Signals.handler, ha]
  exact h

theorem Bare.entered (h : Bare g) (he : Entered g sig g') : Bare g' := by
  refine ⟨?_, ?_⟩
  · rcases he.handler SIGKILL with heq | heq
    · rw [heq, h.1]
    · exact heq
  · rcases he.handler SIGSTOP with heq | heq
    · rw [heq, h.2]
    · exact heq

theorem Bare.deliver (h : Bare g) (ctx : CpuContext) (io : Copies) :
    Bare (signalDeliverPending g ctx io).1 := by
  rcases signalDeliverPending_cases g ctx io with ⟨-, ha⟩ | ⟨sig, entry, -, he⟩
  · exact h.congr ha
  · exact h.entered he

theorem faulted_entered (h : signalDeliverFault g ctx sig code addr io = .ok entry) :
    Entered g sig entry.signals := by
  simp only [signalDeliverFault] at h
  split at h
  · cases h
  split at h
  · cases h
  split at h
  · cases h
  · exact signalSetupUserHandler_entered rfl rfl h

theorem Bare.step (h : ∀ t, Bare (s.tasks t).signals) (t : Tid) :
    Bare ((step s a).tasks t).signals := by
  have hs := step_signals s a t
  generalize ((Sched.step s a).tasks t).signals = g at hs
  induction hs with
  | same => exact h t
  | fresh => exact ⟨rfl, rfl⟩
  | inherited p thread => exact (h p).congr inherit_same.2
  | posted sig _ ih => exact ih.congr post_same.2
  | @acted g sig act hok _ ih =>
    -- `signal_set_action` refuses the two
    have hne : sig ≠ SIGKILL ∧ sig ≠ SIGSTOP := by
      simp only [signalActionErr] at hok
      split at hok
      · cases hok
      split at hok
      · cases hok
      · next hn => simpa using hn
    refine ⟨?_, ?_⟩
    · simp only [Signals.handler, signalCopyAction, Function.update_of_ne hne.1.symm]
      exact ih.1
    · simp only [Signals.handler, signalCopyAction, Function.update_of_ne hne.2.symm]
      exact ih.2
  | masked hok =>
    rcases signalSetMask_plain hok with rfl | ⟨ha, -⟩
    · exact h t
    · exact (h t).congr ha
  | altstack hok => exact (h t).congr (signalSetAltstack_same hok).2
  | execed => exact ⟨rfl, rfl⟩
  | interrupted => exact (h t).congr (signalShouldInterrupt_same _).2
  | delivered _ _ => exact (h t).deliver _ _
  | returned _ _ hok => exact ((h t).congr (signalHandleSigreturn_same hok).2).deliver _ _
  | faulted _ _ hok => exact (h t).entered (faulted_entered hok)

theorem bare_boot (t : Tid) : Bare (Sys.boot.tasks t).signals := by
  simp only [Sys.boot]
  split
  · exact ⟨rfl, rfl⟩
  split <;> exact ⟨rfl, rfl⟩

theorem bare_run (calls : List Act) (t : Tid) : Bare ((run step Sys.boot calls).tasks t).signals :=
  run_inv (I := fun s : Sys => ∀ t, Bare (s.tasks t).signals)
    (fun _ _ h _ => Bare.step h) bare_boot (Meets.of_all fun _ _ => trivial) t

/-! ## Blocking neither -/

/-- The handler that delivery enters, if any, comes with a mask that has neither bit. -/
def entersPlain (g : Signals) (ctx : CpuContext) (io : Copies) : Bool :=
  match (signalDeliverPending g ctx io).2 with
  | .handler sig _ => plain (g.action sig).mask
  | _ => true

/-- The frame that sigreturn takes the mask of, if it is of the first kind, has a mask
with neither bit. -/
def returnsPlain (g : Signals) (native : Option Sigframe) : Bool :=
  if g.activeFrame &&& FRAME_LINUX ≠ 0 then true
  else
    match native with
    | some f => !userPtrValid f.savedCtx.rip || plain f.oldMask
    | none => true

/-- The masks that a step takes over unstripped have neither bit: the mask of the action
whose handler it enters, and the mask in a frame of the first kind it returns from. -/
def plainMasks (s : Sys) : Act → Bool
  | .syscallLeave c io | .returnDeliver c io =>
    match (s.cpus c).current with
    | some t => entersPlain (s.tasks t).signals (s.tasks t).ctx io
    | none => true
  | .sigreturn c native linux io =>
    match (s.cpus c).current with
    | none => true
    | some t =>
      let task := s.tasks t
      returnsPlain task.signals native &&
        match signalHandleSigreturn task.signals task.ctx native linux with
        | .ok (g, ctx) => entersPlain g ctx io
        | .error _ => true
  | .fault c sig code addr io =>
    match (s.cpus c).current with
    | none => true
    | some t =>
      let task := s.tasks t
      match signalDeliverFault task.signals task.ctx sig code addr io with
      | .ok _ => plain (task.signals.action sig).mask
      | .error _ => true
  | _ => true

theorem plain_entered (hbare : Bare g)
    (h : plain g.blocked = true) (hm : plain (g.action sig).mask = true)
    (he : Entered g sig g') : plain g'.blocked = true := by
  have hne : sig ≠ SIGKILL ∧ sig ≠ SIGSTOP := by
    refine ⟨?_, ?_⟩
    · rintro rfl
      exact he.set hbare.1
    · rintro rfl
      exact he.set hbare.2
  rcases he.blocked with heq | heq
  · rw [heq]
    exact plain_or.2 ⟨h, hm⟩
  · rw [heq]
    exact plain_or.2 ⟨plain_or.2 ⟨h, hm⟩, plain_sigBit hne.1 hne.2⟩

theorem plain_deliver (hbare : Bare g)
    (h : plain g.blocked = true) (hm : entersPlain g ctx io = true) :
    plain (signalDeliverPending g ctx io).1.blocked = true := by
  rcases signalDeliverPending_cases g ctx io with ⟨hb, -⟩ | ⟨sig, entry, hout, he⟩
  · rw [hb]
    exact h
  · simp only [entersPlain, hout] at hm
    exact plain_entered hbare h hm he

theorem plain_sigreturn (h : signalHandleSigreturn g ctx native linux = .ok (g', ctx'))
    (hm : returnsPlain g native = true) : plain g'.blocked = true := by
  simp only [signalHandleSigreturn, signalReturnLinuxFrame] at h
  split at h
  · cases h
  split at h
  · split at h
    · cases h
    split at h
    · cases h
    · cases h
      exact plain_strip _
  · rename_i hlinux
    simp only [returnsPlain, if_neg hlinux] at hm
    split at h
    · cases h
    next f =>
    split at h
    · cases h
    rename_i hrip
    cases h
    simpa [hrip] using hm

/-- What a run keeps. -/
structure Masks (s : Sys) : Prop where
  bare : ∀ t, Bare (s.tasks t).signals
  plain : ∀ t, plain (s.tasks t).signals.blocked = true

theorem Masks.step (h : Masks s) (hm : plainMasks s a = true) : Masks (step s a) := by
  refine ⟨Bare.step h.bare, fun t => ?_⟩
  have hs := step_signals s a t
  generalize ((Sched.step s a).tasks t).signals = g at hs
  induction hs with
  | same => exact h.plain t
  | fresh => rfl
  | inherited p thread =>
    rw [inherit_same.1]
    exact h.plain p
  | posted sig _ ih =>
    rw [post_same.1]
    exact ih
  | acted _ _ ih => exact ih
  | masked hok =>
    rcases signalSetMask_plain hok with rfl | ⟨-, hb⟩
    · exact h.plain t
    · exact hb
  | altstack hok =>
    rw [(signalSetAltstack_same hok).1]
    exact h.plain t
  | execed => rfl
  | interrupted =>
    rw [(signalShouldInterrupt_same _).1]
    exact h.plain t
  | delivered ha hc =>
    refine plain_deliver (h.bare t) (h.plain t) ?_
    rcases ha with rfl | rfl
    · simpa only [plainMasks, hc] using hm
    · simpa only [plainMasks, hc] using hm
  | returned ha hc hok =>
    subst ha
    simp only [plainMasks, hc, hok, Bool.and_eq_true] at hm
    exact plain_deliver ((h.bare t).congr (signalHandleSigreturn_same hok).2)
      (plain_sigreturn hok hm.1) hm.2
  | faulted ha hc hok =>
    subst ha
    simp only [plainMasks, hc, hok] at hm
    exact plain_entered (h.bare t) (h.plain t) hm (faulted_entered hok)

theorem Masks.boot : Masks Sys.boot := by
  refine ⟨bare_boot, fun t => ?_⟩
  simp only [Sys.boot]
  split
  · rfl
  split <;> rfl

/-- In every state of a run whose unstripped masks have neither bit, no task blocks
`SIGKILL` or `SIGSTOP`. -/
theorem sigkill_sigstop_unblocked (calls : List Act)
    (h : Meets step (fun s a => plainMasks s a = true) Sys.boot calls) (t : Tid) :
    ((run step Sys.boot calls).tasks t).signals.blocked &&& sigBit SIGKILL = 0 ∧
      ((run step Sys.boot calls).tasks t).signals.blocked &&& sigBit SIGSTOP = 0 :=
  plain_iff.1 ((run_inv (fun _ _ hm => hm.step) Masks.boot h).plain t)

/-- A user task that is in a system call on the first CPU. -/
def inCall : List Act :=
  [.create 0 2 prioDefault true true, .schedYield 0, .yieldHandle 0, .switchTask 0,
    .schedReturn 0, .returnDeliver 0 {}, .user 0 { rsp := 0x700000 }, .syscall 0]

/-- Signal 10 gets a handler with this mask, and is sent and delivered. -/
def enterHandler (mask : U64) : List Act :=
  [.sigaction 0 [2] 10 (some { handler := 0x400000, mask := mask, restorer := 0x400100 }),
    .send 0 2 10, .syscallLeave 0 {}, .schedReturn 0, .returnDeliver 0 {}]

theorem sigkill_sigstop_unblocked_handler : let s := run step Sys.boot (inCall ++ enterHandler 0x4)
    s.runsIn 0 true = some 2 ∧ (s.tasks 2).signals.activeFrame ≠ 0 ∧
      (s.tasks 2).signals.blocked &&& sigBit SIGKILL = 0 ∧
      (s.tasks 2).signals.blocked &&& sigBit SIGSTOP = 0 :=
  ⟨by decide +kernel, by decide +kernel, sigkill_sigstop_unblocked (inCall ++ enterHandler 0x4)
    (by decide +kernel) 2⟩

/-- A handler whose mask has every bit, and a frame of the first kind that was written
over before the return from it. -/
theorem sigkill_blocked :
    ((run step Sys.boot (inCall ++ enterHandler (-1))).tasks 2).signals.blocked &&&
        sigBit SIGKILL ≠ 0 ∧
      ((run step Sys.boot (inCall ++ enterHandler 0 ++ [.syscall 0, .sigreturn 0
        (some { savedCtx := { rip := 0x400000 }, oldMask := -1, prevFrame := 0 }) none {}])).tasks
          2).signals.blocked &&& sigBit SIGSTOP ≠ 0 := by
  decide +kernel

/-! ## Returning to user mode with `SIGKILL` pending -/

/-- The task ends. -/
def Outcome.isExit : Outcome → Bool
  | .exits _ => true
  | _ => false

/-- The signal is one of `ready` and not ignored. -/
def acts (g : Signals) (ready : U64) (sig : Nat) : Bool :=
  decide (ready &&& sigBit sig ≠ 0 ∧ signalDefaultAction g sig ≠ .ignored)

/-- The signal ends the task: by its default action, or because the frame for its handler
cannot be set up. -/
def fatal (g : Signals) (ctx : CpuContext) (io : Copies) (sig : Nat) : Bool :=
  match signalDefaultAction g sig with
  | .terminate => true
  | .handler => !(signalSetupUserHandler g ctx sig 0 0 io).isOk
  | _ => false

/-- No handler is active, and the first signal that is pending, not blocked and not
ignored ends the task. -/
def Fatal (g : Signals) (ctx : CpuContext) (io : Copies) : Prop :=
  g.activeFrame = 0 ∧ ∃ sig, signalNumbers.find? (acts g g.ready) = some sig ∧
    fatal g ctx io sig = true

theorem not_acts_zero : ¬acts g 0 sig = true := by
  simp only [acts, decide_eq_true_eq]
  exact fun h => h.1 BitVec.zero_and

theorem isOk_ite {α ε : Type} {c : Prop} [Decidable c] {x y x' y' : Except ε α}
    (hx : x.isOk = x'.isOk) (hy : y.isOk = y'.isOk) :
    (if c then x else y).isOk = (if c then x' else y').isOk := by
  split
  · exact hx
  · exact hy

/-- Whether a frame can be set up does not depend on what is pending. -/
theorem signalSetupUserHandler_pending {p : U64} :
    (signalSetupUserHandler { g with pending := p } ctx sig code addr io).isOk =
      (signalSetupUserHandler g ctx sig code addr io).isOk := by
  have hl : ∀ top, (signalSetupLinuxFrame { g with pending := p } ctx sig code addr top io).isOk =
      (signalSetupLinuxFrame g ctx sig code addr top io).isOk := by
    intro top
    simp only [signalSetupLinuxFrame]
    repeat' split
    all_goals rfl
  have hn : ∀ top, (signalSetupFrame { g with pending := p } ctx sig code addr top io).isOk =
      (signalSetupFrame g ctx sig code addr top io).isOk := by
    intro top
    simp only [signalSetupFrame]
    repeat' split
    all_goals rfl
  exact isOk_ite rfl (isOk_ite rfl (isOk_ite (hl _) (hn _)))

theorem deliverLoop_exits (sigs : List Nat) (p : U64) :
    (deliverLoop ctx io ready { g with pending := p } sigs).2.isExit = true ↔
      ∃ sig, sigs.find? (acts g ready) = some sig ∧ fatal g ctx io sig = true := by
  induction sigs generalizing p with
  | nil => simp [deliverLoop, Outcome.isExit]
  | cons sig sigs ih =>
    have hdef : signalDefaultAction ({ g with pending := p }.clear sig) sig =
        signalDefaultAction g sig := signalDefaultAction_congr rfl
    simp only [deliverLoop]
    by_cases hready : ready &&& sigBit sig = 0
    · rw [if_pos hready, find?_cons_of_neg (by simp [acts, hready])]
      exact ih p
    rw [if_neg hready, hdef]
    by_cases hign : signalDefaultAction g sig = .ignored
    · rw [hign, find?_cons_of_neg (by simp [acts, hign])]
      exact ih _
    have hacts : acts g ready sig = true := decide_eq_true ⟨hready, hign⟩
    rw [find?_cons_of_pos hacts]
    simp only [Option.some.injEq, exists_eq_left']
    have hok : (signalSetupUserHandler ({ g with pending := p }.clear sig) ctx sig 0 0 io).isOk =
        (signalSetupUserHandler g ctx sig 0 0 io).isOk :=
      signalSetupUserHandler_pending (g := g)
    cases hact : signalDefaultAction g sig with
    | ignored => exact absurd hact hign
    | stop | terminate => simp [fatal, hact, Outcome.isExit]
    | handler =>
      simp only [fatal, hact, ← hok]
      cases signalSetupUserHandler ({ g with pending := p }.clear sig) ctx sig 0 0 io <;>
        simp [Outcome.isExit, Except.toBool]

theorem signalDeliverPending_exits (g : Signals) (ctx : CpuContext) (io : Copies) :
    (signalDeliverPending g ctx io).2.isExit = true ↔ Fatal g ctx io := by
  simp only [signalDeliverPending, Fatal]
  by_cases haf : g.activeFrame = 0
  · by_cases hready : g.ready = 0
    · rw [if_pos hready]
      refine iff_of_false (by simp [Outcome.isExit]) ?_
      rintro ⟨-, sig, hfind, -⟩
      exact not_acts_zero (hready ▸ find?_some hfind)
    · rw [if_neg hready]
      simp only [haf, true_and]
      exact deliverLoop_exits signalNumbers g.pending
  · rw [if_pos haf]
    exact iff_of_false (by simp [Outcome.isExit]) fun h => haf h.1

/-- The task is on its way out, and not in user mode. -/
def Sys.ends (s : Sys) (t : Tid) : Prop :=
  (s.tasks t).exiting = true ∧ (s.tasks t).user = false

theorem ends_deliverPending {c : Nat} {back : Back}
    (hu : (s.tasks t).privUser = true) (hx : (s.tasks t).exiting = false) :
    (deliverPending s c t back io).ends t ↔ Fatal (s.tasks t).signals (s.tasks t).ctx io := by
  rw [← signalDeliverPending_exits]
  simp only [deliverPending, hu]
  generalize signalDeliverPending (s.tasks t).signals (s.tasks t).ctx io = res
  obtain ⟨g, out⟩ := res
  cases out <;>
    simp [applyOutcome, Sys.ends, Sys.setSignals, hx, Outcome.isExit]

/-- The steps that return to user mode through `syscall_dispatch` and through
`sched_return`: whose task, and its signals, its context and the copies when it comes
to look for signals. After a stop inside `sched_return` the task goes on to user mode
without another look. A failed sigreturn and the end of a stop inside `syscall_dispatch`
are still to come through `sched_return`. -/
def returning (s : Sys) : Act → Option (Tid × Option (Signals × CpuContext × Copies))
  | .syscallLeave c io =>
    (s.inSyscall c).map fun t => (t, some ((s.tasks t).signals, (s.tasks t).ctx, io))
  | .sigreturn c native linux io =>
    (s.inSyscall c).bind fun t =>
      match signalHandleSigreturn (s.tasks t).signals (s.tasks t).ctx native linux with
      | .ok (g, ctx) => some (t, some (g, ctx, io))
      | .error _ => none
  | .returnDeliver c io =>
    match (s.cpus c).current with
    | some t =>
      if (s.cpus c).phase = .leaves ∧ s.able c ∧ (s.tasks t).user ∧ (s.tasks t).privUser
      then some (t, some ((s.tasks t).signals, (s.tasks t).ctx, io))
      else none
    | none => none
  | .stopOver c =>
    (s.runsIn c false).bind fun t =>
      if (s.tasks t).stopIn = some .schedReturn then some (t, none) else none
  | _ => none

theorem ends_returnDeliver {c : Nat}
    (hu : (s.tasks t).user = true) (hp : (s.tasks t).privUser = true)
    (hx : (s.tasks t).exiting = false) :
    (returnDeliver s c t io).ends t ↔ Fatal (s.tasks t).signals (s.tasks t).ctx io := by
  simp only [returnDeliver, hu, true_and]
  split
  · exact ends_deliverPending hp hx
  rename_i hn
  refine iff_of_false (fun he => ?_) fun hf => hn ⟨hf.1, fun hz => ?_⟩
  · rw [Sys.ends, setPhase_tasks, hx] at he
    cases he.1
  · obtain ⟨-, sig, hfind, -⟩ := hf
    exact not_acts_zero (hz ▸ find?_some hfind)

theorem ends_returning
    {r : Option (Signals × CpuContext × Copies)} (h : returning s a = some (t, r))
    (hx : (s.tasks t).exiting = false) :
    (step s a).ends t ↔ ∃ g ctx io, r = some (g, ctx, io) ∧ Fatal g ctx io := by
  cases a with
  | syscallLeave c io =>
    simp only [returning, Option.map_eq_some_iff] at h
    obtain ⟨u, hu, rfl, rfl⟩ := h
    simp only [step, hu]
    rw [syscallLeave, ends_deliverPending (inSyscall_user hu) hx]
    simp
  | sigreturn c native linux io =>
    simp only [returning, Option.bind_eq_some_iff] at h
    obtain ⟨u, hu, h⟩ := h
    cases hok : signalHandleSigreturn (s.tasks u).signals (s.tasks u).ctx native linux with
    | error e =>
      rw [hok] at h
      cases h
    | ok res =>
      rw [hok] at h
      cases h
      simp only [step, hu, syscallSigreturn, hok]
      rw [ends_deliverPending (by rw [setTask_self]; exact inSyscall_user hu)
        (by rw [setTask_self]; exact hx)]
      simp
  | returnDeliver c io =>
    simp only [returning] at h
    split at h
    · rename_i hc
      split at h
      · rename_i hg
        cases h
        simp only [step, hc, hg.1, hg.2.1, and_self, if_true]
        rw [ends_returnDeliver hg.2.2.1 hg.2.2.2 hx]
        simp
      · cases h
    · cases h
  | stopOver c =>
    simp only [returning, Option.bind_eq_some_iff] at h
    obtain ⟨u, hu, h⟩ := h
    split at h
    · rename_i hin
      cases h
      simp [step, hu, stopOver, hin, Sys.ends]
    · cases h
  | _ => cases h

/-- What is pending when the signals are looked at was pending before the step, and
handlers are what they were. -/
theorem returning_signals (h : returning s a = some (t, some (g, ctx, io))) :
    g.pending = (s.tasks t).signals.pending ∧ g.action = (s.tasks t).signals.action := by
  cases a with
  | syscallLeave c io =>
    simp only [returning, Option.map_eq_some_iff, Prod.mk.injEq] at h
    obtain ⟨u, -, rfl, h⟩ := h
    cases h
    exact ⟨rfl, rfl⟩
  | sigreturn c native linux io =>
    simp only [returning, Option.bind_eq_some_iff] at h
    obtain ⟨u, -, h⟩ := h
    split at h
    · rename_i hok
      cases h
      exact signalHandleSigreturn_same hok
    · cases h
  | returnDeliver c io =>
    simp only [returning] at h
    split at h
    · split at h
      · cases h
        exact ⟨rfl, rfl⟩
      · cases h
    · cases h
  | stopOver c =>
    simp only [returning, Option.bind_eq_some_iff] at h
    obtain ⟨u, -, h⟩ := h
    split at h <;> cases h
  | _ => cases h

theorem signalNumbers_sorted : signalNumbers.Pairwise (· < ·) := by decide

theorem signalDefaultAction_below (hlt : sig < SIGKILL)
    (hh : signalDefaultAction g sig ≠ .handler) (hi : signalDefaultAction g sig ≠ .ignored) :
    signalDefaultAction g sig = .terminate := by
  have hstop : signalDefaultStop sig = false := by
    refine decide_eq_false ?_
    simp only [SIGKILL] at hlt
    simp only [SIGSTOP, SIGTSTP, SIGTTIN, SIGTTOU]
    omega
  simp only [signalDefaultAction, hstop] at hh ⊢
  split
  · next h => exact absurd (if_pos h) hi
  rename_i h
  rw [if_neg h] at hh
  simp only [Bool.false_eq_true, and_false, if_false] at hh ⊢
  split
  · rfl
  · next h' => exact absurd (if_neg h') hh

theorem and_not_and {p b k : U64} (h : b &&& k = 0) : (p &&& ~~~b) &&& k = p &&& k := by
  refine BitVec.eq_of_getLsbD_eq fun i hi => ?_
  have hbit : (b &&& k).getLsbD i = false := by rw [h]; simp
  simp only [BitVec.getLsbD_and] at hbit
  cases hb : b.getLsbD i <;> simp_all

/-- `SIGKILL` itself is fatal, and nothing before it is entered. -/
theorem Fatal.of_kill (hbare : Bare g)
    (haf : g.activeFrame = 0) (hk : g.ready &&& sigBit SIGKILL ≠ 0)
    (hlow : ∀ sig < SIGKILL, g.ready &&& sigBit sig ≠ 0 →
      signalDefaultAction g sig ≠ .handler) : Fatal g ctx io := by
  have hkill : signalDefaultAction g SIGKILL = .terminate := by
    simp only [signalDefaultAction, hbare.1]
    decide
  have hacts : acts g g.ready SIGKILL = true := decide_eq_true ⟨hk, by rw [hkill]; decide⟩
  have hsome : (signalNumbers.find? (acts g g.ready)).isSome = true :=
    find?_isSome.2 ⟨SIGKILL, by decide, hacts⟩
  obtain ⟨sig, hfind⟩ := Option.isSome_iff_exists.1 hsome
  refine ⟨haf, sig, hfind, ?_⟩
  -- the first that acts is not behind it
  obtain ⟨hsig, as, bs, hsplit, has⟩ := find?_eq_some_iff_append.1 hfind
  have hmem : SIGKILL ∈ as ++ sig :: bs := by
    rw [← hsplit]
    decide
  have hsorted := hsplit ▸ signalNumbers_sorted
  simp only [acts, decide_eq_true_eq] at hsig
  rcases mem_append.1 hmem with hm | hm
  · have := has SIGKILL hm
    rw [hacts] at this
    cases this
  rcases mem_cons.1 hm with rfl | hm
  · simp only [fatal, hkill]
  have hlt : sig < SIGKILL := (pairwise_cons.1 (pairwise_append.1 hsorted).2.1).1 SIGKILL hm
  simp only [fatal, signalDefaultAction_below hlt (hlow sig hlt hsig.1) hsig.2]

/-- A task with `SIGKILL` pending that is about to return to user mode ends exactly if the
signals are looked at, no handler is active then, and the first signal that is pending,
not blocked and not ignored ends it. So it ends if no handler is active, `SIGKILL` is not
blocked and no handler of a signal before it is to be entered. -/
theorem sigkill_ends_iff (calls : List Act) (a : Act) (t : Tid)
    (r : Option (Signals × CpuContext × Copies))
    (hret : returning (run step Sys.boot calls) a = some (t, r))
    (hx : ((run step Sys.boot calls).tasks t).exiting = false)
    (hk : ((run step Sys.boot calls).tasks t).signals.pending &&& sigBit SIGKILL ≠ 0) :
    ((step (run step Sys.boot calls) a).ends t ↔
      ∃ g ctx io, r = some (g, ctx, io) ∧ Fatal g ctx io) ∧
    ∀ g ctx io, r = some (g, ctx, io) → g.activeFrame = 0 → g.blocked &&& sigBit SIGKILL = 0 →
      (∀ sig < SIGKILL, g.ready &&& sigBit sig ≠ 0 → signalDefaultAction g sig ≠ .handler) →
      (step (run step Sys.boot calls) a).ends t := by
  have hiff := ends_returning hret hx
  refine ⟨hiff, fun g ctx io hr haf hb hlow => hiff.2 ⟨g, ctx, io, hr, ?_⟩⟩
  subst hr
  obtain ⟨hp, ha⟩ := returning_signals hret
  refine Fatal.of_kill ((bare_run calls t).congr ha) haf ?_ hlow
  rw [Signals.ready, and_not_and hb, hp]
  exact hk

/-- A task in a system call is sent `SIGKILL`. -/
theorem sigkill_ends_in_call :
    (step (run step Sys.boot (inCall ++ [.send 0 2 SIGKILL])) (.syscallLeave 0 {})).ends 2 := by
  have hin : (run step Sys.boot (inCall ++ [.send 0 2 SIGKILL])).inSyscall 0 = some 2 := by
    decide +kernel
  have hx : ((run step Sys.boot (inCall ++ [.send 0 2 SIGKILL])).tasks 2).exiting = false := by
    decide +kernel
  have hk : ((run step Sys.boot (inCall ++ [.send 0 2 SIGKILL])).tasks 2).signals.pending &&&
      sigBit SIGKILL ≠ 0 := by
    decide +kernel
  have h := (sigkill_ends_iff _ (.syscallLeave 0 {}) 2 _
    (by rw [returning, hin, Option.map_some]) hx hk).2 _ _ _ rfl
  exact h (by decide +kernel) (by decide +kernel) (by decide +kernel)

/-- Inside the handler of signal 10 the task makes a system call and is sent `SIGKILL`. -/
def killInHandler : List Act :=
  inCall ++ enterHandler 0 ++ [.syscall 0, .send 1 2 SIGKILL, .syscallLeave 0 {},
    .schedReturn 0, .returnDeliver 0 {}]

/-- A task stops in `sched_return` and is sent `SIGKILL`. -/
def killInStop : List Act :=
  [.create 0 2 prioDefault true true, .send 0 2 SIGSTOP, .schedYield 0, .yieldHandle 0,
    .switchTask 0, .schedReturn 0, .returnDeliver 0 {}, .send 1 2 SIGKILL, .yieldHandle 0,
    .schedReturn 0, .returnDeliver 0 {}, .stopOver 0]

/-- Both are back in user mode with the signal pending. -/
theorem sigkill_pending_in_user_mode : ((run step Sys.boot killInHandler).runsIn 0 true = some 2 ∧
      ((run step Sys.boot killInHandler).tasks 2).signals.pending &&& sigBit SIGKILL ≠ 0) ∧
    (run step Sys.boot killInStop).runsIn 0 true = some 2 ∧
      ((run step Sys.boot killInStop).tasks 2).signals.pending &&& sigBit SIGKILL ≠ 0 := by
  decide +kernel

end BleedKernel.Sched
