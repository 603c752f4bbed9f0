import BleedKernel.Proofs.SchedSteps

/-!
# What a step does to a task's signals

Most steps leave every task's signals alone. `SignalStep` lists what the others can
do, with what they were given: who sends, who sets a mask or an action, and the three
ways a handler is entered and left. What is proved about signals in every state is
proved from that list.
-/

namespace BleedKernel.Sched

open BleedKernel.Lib

variable {s s' : Sys} {t u : Tid} {task : Task} {c : Nat} {a : Act} {back : Back} {io : Copies}

/-! ## Steps that leave signals alone -/

/-- No task's signals change. -/
def Quiet (s s' : Sys) : Prop := ∀ t, (s'.tasks t).signals = (s.tasks t).signals

theorem Quiet.refl (s : Sys) : Quiet s s := fun _ => rfl

theorem Quiet.trans {s'' : Sys} (h : Quiet s s') (h' : Quiet s' s'') : Quiet s s'' :=
  fun t => (h' t).trans (h t)

theorem setTask_signals : ((s.setTask u task).tasks t).signals =
      if t = u then task.signals else (s.tasks t).signals := by
  rw [setTask_tasks]
  split <;> rfl

theorem Quiet.setTask (h : task.signals = (s.tasks t).signals) : Quiet s (s.setTask t task) :=
  fun _ => setTask_field Task.signals h

/-- No task is stopped on the way from `s` to `s'`. -/
def NoStop (s s' : Sys) : Prop := ∀ t, s'.state t = .stopped → s.state t = .stopped

theorem NoStop.refl (s : Sys) : NoStop s s := fun _ h => h

theorem NoStop.trans {s'' : Sys} (h : NoStop s s') (h' : NoStop s' s'') : NoStop s s'' :=
  fun t ht => h t (h' t ht)

theorem NoStop.setTask
    (h : task.state = .stopped → s.state t = .stopped) : NoStop s (s.setTask t task) := by
  intro u hu
  rw [Sys.state, setTask_tasks] at hu
  split at hu
  · next hut => exact hut ▸ h hu
  · exact hu

/-- What CPUs do by themselves: no task's signals change, and none is stopped. -/
structure Calm (s s' : Sys) : Prop where
  quiet : Quiet s s'
  noStop : NoStop s s'

namespace Calm

theorem refl (s : Sys) : Calm s s := ⟨Quiet.refl s, NoStop.refl s⟩

theorem trans {s'' : Sys} (h : Calm s s') (h' : Calm s' s'') : Calm s s'' :=
  ⟨h.quiet.trans h'.quiet, h.noStop.trans h'.noStop⟩

theorem setTask (h : task.signals = (s.tasks t).signals)
    (hst : task.state = .stopped → s.state t = .stopped) : Calm s (s.setTask t task) :=
  ⟨Quiet.setTask h, NoStop.setTask hst⟩

theorem setState {st : TaskState} (h : st ≠ .stopped) : Calm s (s.setState t st) :=
  setTask rfl fun hst => absurd hst h

theorem setCpu {cpu : Cpu} : Calm s (s.setCpu c cpu) := ⟨fun _ => rfl, fun _ h => h⟩

theorem setPhase {ph : Phase} : Calm s (s.setPhase c ph) := setCpu

theorem enqueue : Calm s (rqEnqueue s c t) := by
  refine ⟨?_, fun _ hu => rqEnqueue_state ▸ hu⟩
  simp only [rqEnqueue]
  split
  · exact Quiet.refl s
  have h : Quiet s (enqueueTurn s c t).2 := by
    simp only [enqueueTurn]
    split
    · refine Quiet.trans (fun _ => rfl) (Quiet.setTask ?_)
      rfl
    · exact setCpu.quiet
  exact h

theorem dequeue : Calm s (rqDequeue s t) := ⟨fun _ => rfl, fun _ h => h⟩

theorem pop {fuel : Nat} : Calm s (readyPop s fuel).2 := by
  induction fuel generalizing s with
  | zero => exact refl s
  | succ fuel ih =>
    have hs : Calm s (swapArrays s) := by
      simp only [swapArrays]
      split <;> exact ⟨fun _ => rfl, fun _ h => h⟩
    simp only [readyPop]
    split
    · exact hs
    split
    · exact hs
    rename_i t _
    have hd : Calm s (rqDequeue (swapArrays s) t) := hs.trans dequeue
    split
    · exact hd.trans (setState (by simp))
    · exact hd.trans ih

theorem nextContext {prev : Tid} : Calm s (schedNextContext s c prev) := by
  have h1 : Calm s (requeue s c prev) := by
    have h₀ : Calm s (s.setCpu c { s.cpus c with needResched := false }) := setCpu
    simp only [requeue]
    generalize s.setCpu c { s.cpus c with needResched := false } = s₁ at h₀
    refine h₀.trans ?_
    split
    · split
      · exact (setState (by simp)).trans enqueue
      · exact setState (by simp)
    · split
      · exact enqueue
      · exact refl s₁
  simp only [schedNextContext]
  generalize requeue s c prev = s₁ at h1
  have h2 : Calm s₁ (readyPop s₁ (s₁.all.length + 1)).2 := pop
  refine h1.trans (h2.trans ?_)
  simp only [stayOrPick]
  split
  · split
    · exact (setState (by simp)).trans setPhase
    · exact setPhase
  · exact setPhase

theorem switchTask {n : Tid} : Calm s (schedSwitchTask s c n) :=
  setCpu.trans (setTask rfl fun h => by cases h)

theorem schedReturn : Calm s (schedReturn s c) := by
  simp only [Sched.schedReturn]
  split
  · exact setPhase
  rename_i prev _
  have hgo : Calm s (letGo s c prev) := setCpu.trans (setTask rfl fun h => h)
  split
  · exact hgo.trans enqueue
  · exact hgo

theorem makeReady : Calm s (makeReady s c t) := by
  have h : Calm s (s.setState t .ready) := setState (by simp)
  simp only [Sched.makeReady]
  split
  · exact h
  · exact h.trans enqueue

end Calm

/-! ## Every step -/

/-- A write to one task's signals. -/
theorem SignalStep.of_setTask (h : SignalStep s a t (s'.tasks t).signals)
    (hu : t = u → SignalStep s a t task.signals) :
    SignalStep s a t ((s'.setTask u task).tasks t).signals := by
  rw [setTask_signals]
  split
  · next heq => exact hu heq
  · exact h

theorem Moves.signals (m : Moves s a s') (t : Tid) : SignalStep s a t (s'.tasks t).signals := by
  have hquiet : ∀ {s₁ s₂ : Sys}, SignalStep s a t (s₁.tasks t).signals → Quiet s₁ s₂ →
      SignalStep s a t (s₂.tasks t).signals := by
    intro s₁ s₂ h hq
    rw [hq t]
    exact h
  induction m with
  | start => exact .same
  | count _ ih => exact ih
  | write _ _ _ _ hsig ih =>
    refine ih.of_setTask fun heq => ?_
    subst heq
    exact hsig ih
  | own _ _ _ _ _ hsig ih => exact hquiet ih (Quiet.setTask hsig)
  | block _ _ ih | zombie _ _ ih => exact hquiet ih (Quiet.setTask rfl)
  | stay _ _ _ ih => exact hquiet ih Calm.setPhase.quiet
  | next _ _ _ ih => exact hquiet ih Calm.nextContext.quiet
  | switch _ _ _ ih => exact hquiet ih Calm.switchTask.quiet
  | ret _ _ ih => exact hquiet ih Calm.schedReturn.quiet
  | ready _ _ _ ih => exact hquiet ih Calm.makeReady.quiet
  | enlist _ _ _ _ hsig ih =>
    refine SignalStep.of_setTask ih fun heq => ?_
    subst heq
    exact hsig
  | createIdle _ _ _ ih => exact SignalStep.of_setTask ih fun _ => .fresh
  | apIdle _ _ _ ih => exact hquiet ih Calm.setCpu.quiet
  | markDead _ _ ih =>
    simp only [schedMarkTaskDead]
    split
    · exact ih
    · exact hquiet ih (Quiet.setTask rfl)
  | bury _ _ ih => exact ih
  | reap _ ih =>
    simp only [schedulerReap]
    split
    · exact ih
    split
    · exact ih
    · exact SignalStep.of_setTask ih fun _ => .fresh

theorem step_signals (s : Sys) (a : Act) (t : Tid) :
    SignalStep s a t ((step s a).tasks t).signals := by
  have e := step_ends s a
  generalize step s a = s' at e
  cases e with
  | moves m => exact m.signals t
  | stops m _ _ _ _ _ hsig =>
    rw [Calm.setPhase.quiet t, Quiet.setTask hsig t]
    exact m.signals t

end BleedKernel.Sched
