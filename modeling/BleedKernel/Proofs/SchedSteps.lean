import BleedKernel.Lib.Run
import BleedKernel.Proofs.SchedInv

/-!
# Every step of the scheduler keeps the invariant

The calls that queue, pick and switch are in `SchedInv`. What remains are the
calls a CPU makes for the task it executes, which nobody else has at that time, and
the coming and going of tasks. A run of any steps of any CPUs then keeps the
invariant, and what it says about the run queue holds in every state.
-/

namespace BleedKernel.Sched

open BleedKernel.Lib List Option

variable {s : Sys} {c : Nat} {t u : Tid} {task : Task} {x : Option Nat}

/-! ## Steps for the current task -/

/-- CPU `c` executes the code of `t`, which nobody else is at. -/
structure Runs (s : Sys) (c : Nat) (t : Tid) : Prop where
  current : (s.cpus c).current = some t
  unpicked : (s.cpus c).phase.isPicked = false
  returns : (s.cpus c).phase ≠ .returns
  yields : (s.cpus c).phase ≠ .yields
  able : s.able c = true

theorem runs_of_runsIn {b : Bool} (h : s.runsIn c b = some t) : Runs s c t := by
  simp only [Sys.runsIn] at h
  split at h
  · rename_i hg
    rw [filter_eq_some_iff] at h
    exact ⟨h.1, by rw [hg.1]; rfl, by rw [hg.1]; simp, by rw [hg.1]; simp, hg.2⟩
  · cases h

theorem runs_of_kernel (h : s.kernel c = some t) : Runs s c t :=
  runs_of_runsIn (filter_eq_some_iff.1 h).1

theorem kernel_of_inSyscall (h : s.inSyscall c = some t) : s.kernel c = some t :=
  (filter_eq_some_iff.1 h).1

theorem runs_of_inSyscall (h : s.inSyscall c = some t) : Runs s c t :=
  runs_of_kernel (kernel_of_inSyscall h)

theorem Runs.setTask (h : Runs s c t) : Runs (s.setTask u task) c t :=
  ⟨h.current, h.unpicked, h.returns, h.yields, h.able⟩

theorem Runs.onCpu (hr : Runs s c t) (h : Inv s x) : (s.tasks t).onCpu = true :=
  h.held c t (.inl hr.current)

theorem Runs.own (hr : Runs s c t) (h : Inv s x) : Own s t := h.own hr.current hr.unpicked hr.able

theorem Runs.out (hr : Runs s c t) (h : Inv s none) : ¬s.linked t := fun hl => by
  have := h.linked_current c t (by simp) hl hr.current
  rw [hr.unpicked] at this
  cases this

/-- What is used to schedule a task, but for its state, stays as it was. -/
theorem Same.setState_setTask (hon : task.onCpu = (s.tasks t).onCpu)
    (hid : task.idle = (s.tasks t).idle) : Same (s.setState t task.state) (s.setTask t task) := by
  refine ⟨⟨fun _ => (setTask_field Task.onCpu hon).trans setState_onCpu.symm,
    fun _ => (setTask_field Task.idle hid).trans setState_idle.symm, fun _ => rfl, fun _ => rfl,
    fun _ => rfl, fun _ => rfl, rfl, rfl, rfl⟩, rfl, rfl, fun u => ?_⟩
  rw [setState_state, Sys.state, setTask_tasks]
  split <;> rfl

/-- The task a CPU executes may change its own state as it likes. -/
theorem Inv.setTask (h : Inv s none) (hr : Runs s c t) (hon : task.onCpu = (s.tasks t).onCpu)
    (hid : task.idle = (s.tasks t).idle) : Inv (s.setTask t task) none := by
  have hst : Inv (s.setState t task.state) none :=
    h.setState (h.mem_of_held (.inl hr.current)) (fun _ _ => hr.own h) fun _ _ => .inr (hr.onCpu h)
  exact hst.of_same (Same.setState_setTask hon hid)

/-- A CPU stays with the task it executes. -/
theorem Inv.stay {ph : Phase} (h : Inv s none)
    (hr : Runs s c t) (hph : ph.isPicked = false) : Inv (s.setPhase c ph) none := by
  refine h.stays (by simp) hph hr.unpicked (fun u hu => ?_) fun u hu => ?_
  · rw [hr.current] at hu
    cases hu
    exact hr.out h
  · exact absurd (h.prev_returns c u hu) hr.returns

theorem Back.not_picked (back : Back) : back.phase.isPicked = false := by cases back <;> rfl

theorem Inv.setBlocked (h : Inv s none) (hr : Runs s c t) : Inv (schedSetBlocked s t) none := by
  have hd : Inv (rqDequeue s t) none := h.dequeue fun _ _ => hr.onCpu h
  exact hd.setState (h.mem_of_held (.inl hr.current)) (fun _ _ => ⟨(hr.own h).1, (hr.own h).2⟩)
    fun hst => by cases hst

/-! ## Tasks that come -/

theorem enlist_tasks : (s.enlist t task).tasks u = if u = t then task else s.tasks u :=
  setTask_tasks

/-- A name not given before is a task's from now on. -/
theorem Inv.enlist (h : Inv s none) (ht : t ∉ s.all)
    (hst : task.state ≠ .ready) (hon : task.onCpu = true → task.idle = true) :
    Inv (s.enlist t task) none := by
  have hheld : ∀ d, ¬s.holds d t := fun d hd => ht (h.mem_of_held hd)
  have hlink : ¬s.linked t := fun hl => ht (h.linked_task t hl).1
  have hpick : ∀ d, (s.cpus d).phase ≠ .picked t := fun d hd => ht (h.picked_all d t hd)
  have hidle : ∀ d, (s.cpus d).idleTask ≠ some t := fun d hd => ht (h.idle_task d t hd).2
  have htask : ∀ {u}, u ≠ t → (s.enlist t task).tasks u = s.tasks u := fun hu => by
    rw [enlist_tasks, if_neg hu]
  have hself : (s.enlist t task).tasks t = task := by
    rw [enlist_tasks, if_pos rfl]
  refine { h with
    linked_task := fun u hu => ?_
    ready := fun u hu hi => ?_
    fresh := fun u hu => ?_
    held := fun d u hd => ?_
    holder := fun u hu hi => ?_
    picked_state := fun d n hd hi => ?_
    picked_all := fun d n hd => mem_cons_of_mem _ (h.picked_all d n hd)
    idle_task := fun d i hd => ?_
    idle_own := fun d u hd hi => ?_
    idle_starts := fun d i hd hi => ?_
    dead_task := fun u hu => ?_
    bury := fun b u hb => ?_ }
  · have hne : u ≠ t := fun heq => hlink (heq ▸ hu)
    rw [htask hne]
    exact ⟨mem_cons_of_mem _ (h.linked_task u hu).1, (h.linked_task u hu).2⟩
  · by_cases hut : u = t
    · subst hut
      rw [Sys.state, hself] at hu
      exact absurd hu hst
    · rw [Sys.state, htask hut] at hu
      rw [htask hut] at hi ⊢
      exact h.ready u hu hi
  · have hne : u ≠ t := fun heq => hu (by simp [heq, Sys.enlist])
    rw [Sys.state, htask hne]
    exact h.fresh u fun hm => hu (mem_cons_of_mem _ hm)
  · have hne : u ≠ t := fun heq => hheld d (heq ▸ hd)
    rw [htask hne]
    exact h.held d u hd
  · by_cases hut : u = t
    · subst hut
      rw [hself] at hu hi
      rw [hon hu] at hi
      cases hi
    · rw [htask hut] at hu hi
      exact h.holder u hu hi
  · have hne : n ≠ t := fun heq => hpick d (heq ▸ hd)
    rw [htask hne] at hi
    rw [Sys.state, htask hne]
    exact h.picked_state d n hd hi
  · have hne : i ≠ t := fun heq => hidle d (heq ▸ hd)
    rw [htask hne]
    exact ⟨(h.idle_task d i hd).1, mem_cons_of_mem _ (h.idle_task d i hd).2⟩
  · have hne : u ≠ t := by
      rintro rfl
      exact hd.elim (hheld d) (hpick d)
    rw [htask hne] at hi
    exact h.idle_own d u hd hi
  · have hne : i ≠ t := fun heq => hidle d (heq ▸ hi)
    rw [htask hne]
    exact h.idle_starts d i hd hi
  · have hne : u ≠ t := fun heq => ht (heq ▸ (h.dead_task u hu).1)
    rw [htask hne]
    exact ⟨mem_cons_of_mem _ (h.dead_task u hu).1, (h.dead_task u hu).2⟩
  · obtain ⟨h1, h2, h3⟩ := h.bury b u hb
    have hne : u ≠ t := fun heq => ht (heq ▸ h2)
    rw [Sys.state, htask hne]
    exact ⟨h1, mem_cons_of_mem _ h2, h3⟩

theorem Inv.createIdle (h : Inv s none) (ht : t ∉ s.all)
    (hc : (s.cpus c).idleTask = none) : Inv (schedCreateIdleTask s c t) none := by
  let task : Task := { state := .running, onCpu := true, kind := .idle, prioBase := prioLevels - 1 }
  have h0 : Inv (s.enlist t task) none := h.enlist ht (by simp [task]) fun _ => rfl
  have hself : (s.enlist t task).tasks t = task := by rw [enlist_tasks, if_pos rfl]
  have hmem : t ∈ (s.enlist t task).all := mem_cons_self
  have hnew : ∀ d, ((s.enlist t task).cpus d).idleTask ≠ some t := fun d hd =>
    ht (h.idle_task d t hd).2
  have hc0 : ((s.enlist t task).cpus c).idleTask = none := hc
  show Inv ((s.enlist t task).setCpu c { (s.enlist t task).cpus c with idleTask := some t }) none
  generalize s.enlist t task = s₀ at h0 hself hmem hnew hc0
  -- a CPU without an idle task has no task at all
  have hcur : (s₀.cpus c).current = none := by
    by_contra hn
    obtain ⟨u, hu⟩ := ne_none_iff_exists'.1 hn
    exact h0.has_idle c u hu hc0
  have hprev : (s₀.cpus c).prevTask = none := by
    by_contra hn
    obtain ⟨u, hu⟩ := ne_none_iff_exists'.1 hn
    exact h0.prev_from c u hu hcur
  have hpick : ∀ n, (s₀.cpus c).phase ≠ .picked n := fun n hn => h0.picked_from c n hn hcur
  let cpu : Cpu := { s₀.cpus c with idleTask := some t }
  show Inv (s₀.setCpu c cpu) none
  have hidt : ∀ {i}, ((s₀.setCpu c cpu).cpus c).idleTask = some i → i = t := fun hi => by
    rw [setCpu_cpus, if_pos rfl] at hi
    exact (some.inj hi).symm
  exact h0.touched (by simp) (.setCpu h0 fun u hu => hu) {
    held := by simp [Sys.holds, cpu, hcur, hprev]
    one := by simp [Sys.holds, cpu, hcur, hprev]
    apart := by simp [cpu, hcur]
    prev_returns := by simp [cpu, hprev]
    prev_from := by simp [cpu, hprev]
    linked := by simp [cpu, hcur]
    picked := by simp [cpu, hpick]
    picked_current := by simp [cpu, hcur]
    idle_task := fun i hi => hidt hi ▸ ⟨congrArg Task.idle hself, hmem⟩
    idle_one := fun d i hdc hi hd => by
      rw [setCpu_cpus, if_neg hdc, hidt hi] at hd
      exact hnew d hd
    idle_own := by simp [Sys.holds, cpu, hcur, hprev, hpick]
    has_idle := by simp [cpu]
    idle_starts := fun i _ hi => hidt hi ▸ congrArg Task.onCpu hself }

/-- An application processor starts in its idle task. -/
theorem Inv.apIdle (h : Inv s none) {i : Tid}
    (hc : (s.cpus c).current = none) (hi : (s.cpus c).idleTask = some i) :
    Inv (s.setCpu c { s.cpus c with current := some i, phase := .runs }) none := by
  have hidle := h.idle_task c i hi
  have hprev : (s.cpus c).prevTask = none := by
    by_contra hp
    obtain ⟨u, hu⟩ := ne_none_iff_exists'.1 hp
    exact h.prev_from c u hu hc
  -- nobody else has it
  have hfree : ∀ d, s.holds d i ∨ (s.cpus d).phase = .picked i → False := by
    intro d hd
    have hdc := h.idle_one d c i (h.idle_own d i hd hidle.1) hi
    subst hdc
    rcases hd with (hd | hd) | hd
    · rw [hc] at hd
      cases hd
    · rw [hprev] at hd
      cases hd
    · exact h.picked_from d i hd hc
  let cpu : Cpu := { s.cpus c with current := some i, phase := .runs }
  show Inv (s.setCpu c cpu) none
  have hself : (s.setCpu c cpu).cpus c = cpu := by rw [setCpu_cpus, if_pos rfl]
  have hother : ∀ {d}, d ≠ c → (s.setCpu c cpu).cpus d = s.cpus d := fun hd => by
    rw [setCpu_cpus, if_neg hd]
  have hholds : ∀ {u}, (s.setCpu c cpu).holds c u → u = i := by
    intro u hu
    rw [Sys.holds, hself] at hu
    rcases hu with hu | hu
    · exact (some.inj hu).symm
    · exact absurd (hprev.symm.trans hu) (by simp)
  refine h.touched (by simp) (.setCpu h fun u hu => ?_) {
    held := fun u hu => hholds hu ▸ h.idle_starts c i hc hi
    one := fun d u hdc hu hd => ?_
    apart := by simp [cpu, hprev]
    prev_returns := by simp [cpu, hprev]
    prev_from := by simp [cpu]
    linked := fun u hl hu => ?_
    picked := by simp [cpu]
    picked_current := fun d n hdc hn hu => ?_
    idle_task := by rw [hself]; exact h.idle_task c
    idle_one := fun d j hdc hj hd => ?_
    idle_own := fun u hu _ => ?_
    has_idle := by simp [cpu, hi]
    idle_starts := by simp [cpu] }
  · rw [Sys.holds, hc, hprev] at hu
    simp at hu
  · rw [hholds hu, Sys.holds, hother hdc] at hd
    exact hfree d (.inl hd)
  · rw [hself] at hu
    cases hu
    rw [(h.linked_task i hl).2] at hidle
    cases hidle.1
  · rw [hother hdc] at hn
    rw [hself] at hu
    cases hu
    exact absurd (.inr hn) (hfree d)
  · rw [hself] at hj
    rw [hother hdc] at hd
    exact hdc (h.idle_one d c j hd hj)
  · rw [hself] at hu ⊢
    rcases hu with hu | hu
    · rw [hholds hu]
      exact hi
    · cases hu

/-! ## Tasks that go -/

theorem listed_iff : s.listed t = true ↔ t ∈ s.all ∧ (s.tasks t).idle = false := by
  simp [Sys.listed]

theorem Inv.markDead (h : Inv s none) (ht : s.listed t = true) :
    Inv (schedMarkTaskDead s c t) none := by
  obtain ⟨hall, hi⟩ := listed_iff.1 ht
  simp only [schedMarkTaskDead]
  split
  · exact h
  have hd : Inv (s.setState t .dead) none := h.setRest hall rfl
  have hst : (s.setState t .dead).state t = .dead := by rw [setState_state, if_pos rfl]
  refine { hd with bury := fun b u hb => ?_ }
  cases hb
  exact ⟨congrArg TaskState.due hst, hall, setState_idle.trans hi⟩

theorem Inv.buried (h : Inv s none) {b : Nat}
    (hb : s.burying = some (b, t)) : Inv (schedBury s t) none := by
  obtain ⟨hdue, hall, hi⟩ := h.bury b t hb
  have hd : Inv (rqDequeue s t) none := h.dequeue fun hr => by
    rw [hr] at hdue
    cases hdue
  refine { hd with dead_task := fun u hu => ?_, bury := fun b u hb => by cases hb }
  rcases mem_append.1 hu with hu | hu
  · exact h.dead_task u hu
  · rw [mem_singleton.1 hu]
    exact ⟨hall, hi⟩

/-- A dead task that no CPU holds is taken out of the queue and freed. -/
theorem Inv.freed (h : Inv s none) (hall : t ∈ s.all)
    (hi : (s.tasks t).idle = false) (hon : (s.tasks t).onCpu = false) :
    Inv ((rqDequeue s t).setTask t {}) none := by
  have hf : Inv (s.setState t .free) none := h.setRest hall rfl
  have hd : Inv (rqDequeue (s.setState t .free) t) none := hf.dequeue fun hr => by
    rw [setState_state, if_pos rfl] at hr
    cases hr
  exact hd.of_same (@Same.setState_setTask (rqDequeue s t) t {} hon.symm hi.symm)

theorem Inv.reap (h : Inv s none) : Inv (schedulerReap s) none := by
  simp only [schedulerReap]
  split
  · exact h
  rename_i t rest hdead
  obtain ⟨hall, hi⟩ := h.dead_task t (by rw [hdead]; simp)
  split
  · refine { h with dead_task := fun u hu => h.dead_task u ?_ }
    rw [hdead]
    simpa [or_comm] using hu
  rename_i hon
  have hf := h.freed hall hi (Bool.eq_false_iff.2 hon)
  refine { hf with dead_task := fun u hu => ?_ }
  exact hf.dead_task u (by
    show u ∈ s.dead
    rw [hdead]
    exact mem_cons_of_mem _ hu)

/-! ## What a step is made of -/

/-- What the step `a` can have made of the signals of `t`. -/
inductive SignalStep (s : Sys) (a : Act) (t : Tid) : Signals → Prop where
  | same : SignalStep s a t (s.tasks t).signals
  | fresh : SignalStep s a t {}
  | inherited (p : Tid) (thread : Bool) : SignalStep s a t ((s.tasks p).signals.inherit thread)
  | posted {g : Signals} (sig : Nat) (h : SignalStep s a t g) : SignalStep s a t (g.post sig)
  | acted {g : Signals} {sig : Nat} {act : Sigaction}
      (hok : signalActionErr sig (some act) = none) (h : SignalStep s a t g) :
      SignalStep s a t (signalCopyAction g sig act)
  | masked {g : Signals} {how : How} {set : Option U64}
      (hok : signalSetMask (s.tasks t).signals how set = .ok g) : SignalStep s a t g
  | altstack {g : Signals} {sp size flags rsp : U64}
      (hok : signalSetAltstack (s.tasks t).signals sp size flags rsp = .ok g) :
      SignalStep s a t g
  | execed : SignalStep s a t { altFlags := SS_DISABLE }
  | interrupted : SignalStep s a t (signalShouldInterrupt (s.tasks t).signals).1
  | delivered {c : Nat} {io : Copies} (ha : a = .syscallLeave c io ∨ a = .returnDeliver c io)
      (hc : (s.cpus c).current = some t) :
      SignalStep s a t (signalDeliverPending (s.tasks t).signals (s.tasks t).ctx io).1
  | returned {c : Nat} {native : Option Sigframe} {linux : Option LinuxSigframe}
      {io : Copies} {g : Signals} {ctx : CpuContext} (ha : a = .sigreturn c native linux io)
      (hc : (s.cpus c).current = some t)
      (hok : signalHandleSigreturn (s.tasks t).signals (s.tasks t).ctx native linux =
        .ok (g, ctx)) :
      SignalStep s a t (signalDeliverPending g ctx io).1
  | faulted {c sig code : Nat} {addr : U64} {io : Copies} {entry : Entry}
      (ha : a = .fault c sig code addr io) (hc : (s.cpus c).current = some t)
      (hok : signalDeliverFault (s.tasks t).signals (s.tasks t).ctx sig code addr io = .ok entry) :
      SignalStep s a t entry.signals

/-- The signal that a step sends to `t`. -/
def sentTo (s : Sys) (t : Tid) : Act → Option Nat
  | .send _ u sig => if validSignal sig ∧ u = t then some sig else none
  | .sendGroup _ u threads sig =>
    if validSignal sig ∧ t ∈ groupTargets s u threads sig then some sig else none
  | _ => none

/-- The states that the step `a` goes through from `s`, but for the stop that it may end
in. -/
inductive Moves (s : Sys) (a : Act) : Sys → Prop where
  | start : Moves s a s
  | count {s' : Sys} (m : Moves s a s') : Moves s a { s' with ticks := s'.ticks + 1 }
  /-- A task is written to, but not what is used to schedule it. -/
  | write {s' : Sys} {t : Tid} {task : Task} (m : Moves s a s') (hst : task.state = s'.state t)
      (hon : task.onCpu = (s'.tasks t).onCpu) (hid : task.idle = (s'.tasks t).idle)
      (hsig : SignalStep s a t (s'.tasks t).signals → SignalStep s a t task.signals) :
      Moves s a (s'.setTask t task)
  /-- A CPU changes the state of the task it executes. -/
  | own {s' : Sys} {c : Nat} {t : Tid} {task : Task} (m : Moves s a s') (hr : Runs s' c t)
      (hst : task.state ≠ .stopped) (hon : task.onCpu = (s'.tasks t).onCpu)
      (hid : task.idle = (s'.tasks t).idle) (hsig : task.signals = (s'.tasks t).signals) :
      Moves s a (s'.setTask t task)
  | block {s' : Sys} {c : Nat} {t : Tid} (m : Moves s a s') (hr : Runs s' c t) :
      Moves s a (schedSetBlocked s' t)
  /-- A CPU stays with the task it executes. -/
  | stay {s' : Sys} {c : Nat} {t : Tid} {ph : Phase} (m : Moves s a s') (hr : Runs s' c t)
      (hph : ph.isPicked = false) : Moves s a (s'.setPhase c ph)
  | next {s' : Sys} {c : Nat} {t : Tid} (m : Moves s a s')
      (hc : (s'.cpus c).current = some t) (hy : s'.yielding c = true) :
      Moves s a (schedNextContext s' c t)
  | switch {s' : Sys} {c : Nat} {n : Tid} (m : Moves s a s')
      (hph : (s'.cpus c).phase = .picked n) (hon : (s'.tasks n).onCpu = false) :
      Moves s a (schedSwitchTask s' c n)
  | ret {s' : Sys} {c : Nat} (m : Moves s a s') (hph : (s'.cpus c).phase = .returns) :
      Moves s a (schedReturn s' c)
  /-- A wakeup, or a signal to a task that is stopped. -/
  | ready {s' : Sys} {t : Tid} (m : Moves s a s') (c : Nat)
      (h : s'.state t = .blocked ∨ s'.state t = .stopped ∧ sentTo s t a ≠ none) :
      Moves s a (makeReady s' c t)
  | enlist {s' : Sys} {t : Tid} {task : Task} (m : Moves s a s') (ht : t ∉ s'.all)
      (hst : task.state = .blocked) (hon : task.onCpu = false)
      (hsig : SignalStep s a t task.signals) : Moves s a (s'.enlist t task)
  | createIdle {s' : Sys} {c : Nat} {t : Tid} (m : Moves s a s') (ht : t ∉ s'.all)
      (hc : (s'.cpus c).idleTask = none) : Moves s a (schedCreateIdleTask s' c t)
  | apIdle {s' : Sys} {c : Nat} {i : Tid} (m : Moves s a s')
      (hc : (s'.cpus c).current = none) (hi : (s'.cpus c).idleTask = some i) :
      Moves s a (s'.setCpu c { s'.cpus c with current := some i, phase := .runs })
  | zombie {s' : Sys} {t : Tid} (m : Moves s a s') (ht : s'.listed t = true) :
      Moves s a (s'.setState t .zombie)
  | markDead {s' : Sys} {c : Nat} {t : Tid} (m : Moves s a s') (ht : s'.listed t = true) :
      Moves s a (schedMarkTaskDead s' c t)
  | bury {s' : Sys} {b : Nat} {t : Tid} (m : Moves s a s') (hb : s'.burying = some (b, t)) :
      Moves s a (schedBury s' t)
  | reap {s' : Sys} (m : Moves s a s') : Moves s a (schedulerReap s')

/-- The states that the step `a` can end in. Only the delivery of a signal stops a task,
which is the one that its CPU executes. -/
inductive Ends (s : Sys) (a : Act) : Sys → Prop where
  | moves {s' : Sys} (m : Moves s a s') : Ends s a s'
  | stops {s' : Sys} {c : Nat} {t : Tid} {task : Task} (m : Moves s a s') (hr : Runs s' c t)
      (hi : (s'.tasks t).idle = false) (hst : task.state = .stopped)
      (hon : task.onCpu = (s'.tasks t).onCpu) (hid : task.idle = (s'.tasks t).idle)
      (hsig : task.signals = (s'.tasks t).signals) :
      Ends s a ((s'.setTask t task).setPhase c .yields)

variable {a : Act} {s' : Sys} {back : Back} {io : Copies} {sig : Nat}

theorem yielding_of_open (h : s.open c = true) : s.yielding c = true := by
  simp only [Sys.open, Sys.yielding, Bool.and_eq_true, decide_eq_true_eq] at h ⊢
  exact ⟨h.1, .inl h.2⟩

theorem runs_of_open (h : s.open c = true) (hc : (s.cpus c).current = some t) : Runs s c t := by
  simp only [Sys.open, Bool.and_eq_true, decide_eq_true_eq] at h
  exact ⟨hc, by rw [h.2]; rfl, by rw [h.2]; simp, by rw [h.2]; simp, h.1⟩

theorem Moves.leave {ph : Phase} (m : Moves s a s') (hr : Runs s' c t) (hph : ph.isPicked = false)
    (hst : task.state = s'.state t) (hon : task.onCpu = (s'.tasks t).onCpu)
    (hid : task.idle = (s'.tasks t).idle)
    (hsig : SignalStep s a t (s'.tasks t).signals → SignalStep s a t task.signals) :
    Moves s a ((s'.setTask t task).setPhase c ph) :=
  (m.write hst hon hid hsig).stay hr.setTask hph

theorem Moves.tick (ho : s.open c = true) : Moves s a (schedTick s c) := by
  simp only [schedTick]
  cases hc : (s.cpus c).current with
  | none => exact .start
  | some t =>
    have hr := runs_of_open ho hc
    have hnext : Moves s a (schedNextContext s c t) := Moves.start.next hc (yielding_of_open ho)
    dsimp only
    split
    · split
      · exact hnext
      · exact Moves.start.stay hr rfl
    split
    · have m : Moves s a (s.setTask t (tickTask (s.tasks t))) := Moves.start.write rfl rfl rfl id
      split
      · exact m.stay hr.setTask rfl
      · exact m.next hc (yielding_of_open ho)
    · exact hnext

theorem Moves.resched (ho : s.open c = true) : Moves s a (schedReschedHandle s c) := by
  simp only [schedReschedHandle]
  cases hc : (s.cpus c).current with
  | none => exact .start
  | some t =>
    dsimp only
    generalize (if (s.tasks t).idle = true then !schedHasReady s
      else !(s.cpus c).needResched) = nothing
    split
    · exact Moves.start.stay (runs_of_open ho hc) rfl
    · exact Moves.start.next hc (yielding_of_open ho)

theorem Moves.yield (hr : Runs s c t) : Moves s a (schedYield s c t) := by
  simp only [schedYield]
  split
  · refine Moves.stay ?_ hr.setTask rfl
    exact Moves.start.own hr (by simp) rfl rfl rfl
  · exact Moves.start.stay hr rfl

theorem Moves.wake (m : Moves s a s') (c : Nat) (t : Tid) : Moves s a (schedWakeTask s' c t) := by
  simp only [schedWakeTask]
  split
  · rename_i hst
    refine Moves.ready ?_ c (.inl ?_)
    · exact m.write rfl rfl rfl id
    · rw [Sys.state, setTask_self]
      exact hst
  · exact m

theorem Moves.cont (m : Moves s a s') (c : Nat) (h : sentTo s t a ≠ none) :
    Moves s a (schedContinueTask s' c t) := by
  simp only [schedContinueTask]
  split
  · next hst => exact m.ready c (.inr ⟨hst, h⟩)
  · exact m

theorem Moves.send (m : Moves s a s') (c : Nat) (h : validSignal sig = true → sentTo s t a ≠ none) :
    Moves s a (signalSend s' c t sig) := by
  simp only [signalSend]
  split
  · exact m
  next hv =>
  have h := h (by simpa using hv)
  split
  · exact m
  have m₁ : Moves s a (if sig = SIGCONT then schedContinueTask s' c t else s') := by
    split
    · exact m.cont c h
    · exact m
  generalize (if sig = SIGCONT then schedContinueTask s' c t else s') = s₁ at m₁
  have m₂ : Moves s a (s₁.setSignals t ((s₁.tasks t).signals.post sig)) :=
    m₁.write rfl rfl rfl (.posted sig)
  split
  · exact m₂.wake c t
  · exact m₂.cont c h

theorem Moves.sends (m : Moves s a s') (c : Nat) (us : List Tid)
    (h : ∀ t ∈ us, sentTo s t a ≠ none) :
    Moves s a (us.foldl (fun s u => signalSend s c u sig) s') := by
  induction us generalizing s' with
  | nil => exact m
  | cons u us ih =>
    exact ih (m.send c fun _ => h u mem_cons_self) fun t ht => h t (mem_cons_of_mem _ ht)

theorem Moves.acts {act : Sigaction} (m : Moves s a s')
    (hok : signalActionErr sig (some act) = none) (us : List Tid) :
    Moves s a (us.foldl (fun s u => s.setSignals u
      (signalCopyAction (s.tasks u).signals sig act)) s') := by
  induction us generalizing s' with
  | nil => exact m
  | cons u us ih => exact ih (m.write rfl rfl rfl (.acted hok))

theorem Moves.create (ht : t ∉ s.all) (c prio : Nat) (user ready : Bool) :
    Moves s a (createTask s c t prio user ready) := by
  -- as if it were admitted blocked and then made ready
  let task : Task :=
    { state := .blocked, prioBase := prio, kind := if user then .user else .kernel
      user := user }
  have m : Moves s a (s.enlist t task) := Moves.start.enlist ht rfl rfl .fresh
  cases ready with
  | false => exact m
  | true =>
    have heq : createTask s c t prio user true = makeReady (s.enlist t task) c t := by
      simp [createTask, makeReady, Sys.enlist, Sys.setState, Sys.setTask, task]
    rw [heq]
    refine m.ready c (.inl ?_)
    rw [Sys.state, enlist_tasks, if_pos rfl]

theorem Task.not_idle (h : task.privUser = true) : task.idle = false := by
  simp only [Task.privUser, decide_eq_true_eq] at h
  simp [Task.idle, h]

theorem Ends.applyOutcome {out : Outcome} (m : Moves s a s') (hr : Runs s' c t)
    (hi : out = .stopped → (s'.tasks t).idle = false) : Ends s a (applyOutcome s' c t back out) := by
  cases out with
  | none | handler sig entry => exact .moves (m.leave hr back.not_picked rfl rfl rfl id)
  | stopped => exact .stops m hr (hi rfl) rfl rfl rfl rfl
  | exits sig => exact .moves (m.leave hr rfl rfl rfl rfl id)

theorem Ends.deliver (hr : Runs s c t) (ha : a = .syscallLeave c io ∨ a = .returnDeliver c io) :
    Ends s a (deliverPending s c t back io) := by
  simp only [deliverPending]
  split
  · exact .applyOutcome .start hr (by simp)
  rename_i hpriv
  refine .applyOutcome (Moves.start.write rfl rfl rfl fun _ => .delivered ha hr.current)
    hr.setTask fun _ => ?_
  exact (Same.setSignals.idle t).trans (Task.not_idle (by simpa using hpriv))

theorem inSyscall_user (h : s.inSyscall c = some t) : (s.tasks t).privUser = true :=
  (Bool.and_eq_true_iff.1 (filter_eq_some_iff.1 h).2).1

theorem Ends.sigreturn (ht : s.inSyscall c = some t) (native : Option Sigframe)
    (linux : Option LinuxSigframe) :
    Ends s (.sigreturn c native linux io) (syscallSigreturn s c t native linux io) := by
  have hr := runs_of_inSyscall ht
  simp only [syscallSigreturn]
  split
  · exact .moves (Moves.start.leave hr rfl rfl rfl rfl id)
  rename_i g ctx hok
  have hpriv : (s.tasks t).privUser = true := inSyscall_user ht
  -- the two writes to the signals are one
  have htwice : ∀ g', (s.setTask t { s.tasks t with signals := g, ctx := ctx }).setSignals t g' =
      s.setTask t { s.tasks t with signals := g', ctx := ctx } := fun g' => by
    rw [Sys.setSignals, setTask_self]
    simp only [Sys.setTask, Function.update_idem]
  simp only [deliverPending, setTask_self]
  rw [if_neg (by simpa [Task.privUser] using hpriv), htwice]
  refine .applyOutcome (Moves.start.write rfl rfl rfl fun _ => .returned rfl hr.current hok)
    hr.setTask fun _ => ?_
  rw [setTask_self]
  exact Task.not_idle hpriv

theorem Ends.interrupt (ht : s.kernel c = some t) : Ends s a (shouldInterrupt s c t) := by
  have hr := runs_of_kernel ht
  have hidle : (s.tasks t).idle = false := by
    simpa using (Bool.and_eq_true_iff.1 (filter_eq_some_iff.1 ht).2).1
  have m : Moves s a (s.setSignals t (signalShouldInterrupt (s.tasks t).signals).1) :=
    Moves.start.write rfl rfl rfl fun _ => .interrupted
  simp only [shouldInterrupt]
  split
  · exact .stops m hr.setTask ((Same.setSignals.idle t).trans hidle) rfl rfl rfl rfl
  · exact .moves (m.write rfl rfl rfl id)
  · exact .moves m

theorem step_ends (s : Sys) (a : Act) : Ends s a (step s a) := by
  have hno : Ends s a s := .moves .start
  cases a with
  | timer => exact .moves (.count .start)
  | tick c =>
    simp only [step]
    split
    · next ho => exact .moves (.tick ho)
    · exact hno
  | resched c =>
    simp only [step]
    split
    · next ho => exact .moves (.resched ho)
    · exact hno
  | yieldHandle c =>
    simp only [step, schedYieldHandle]
    split
    · rename_i ho
      split
      · exact hno
      · next hc => exact .moves (Moves.start.next hc ho)
    · exact hno
  | switchTask c =>
    simp only [step]
    split
    · rename_i hph
      split
      · exact hno
      · next hon => exact .moves (Moves.start.switch hph (Bool.eq_false_iff.2 hon))
    · exact hno
  | schedReturn c =>
    simp only [step]
    split
    · next hph => exact .moves (Moves.start.ret hph)
    · exact hno
  | returnDeliver c io =>
    simp only [step]
    split
    · rename_i t hc
      split
      · rename_i hg
        have hr : Runs s c t :=
          ⟨hc, by rw [hg.1]; rfl, by rw [hg.1]; simp, by rw [hg.1]; simp, hg.2⟩
        simp only [returnDeliver]
        split
        · exact .deliver hr (.inr rfl)
        · exact .moves (Moves.start.stay hr rfl)
      · exact hno
    · exact hno
  | user c ctx | syscall c =>
    simp only [step]
    split
    · exact .moves (Moves.start.write rfl rfl rfl id)
    · exact hno
  | fault c sig code addr io =>
    simp only [step, userFault]
    split
    · rename_i ht
      have hr := runs_of_runsIn ht
      split
      · rename_i hok
        exact .moves (Moves.start.leave hr rfl rfl rfl rfl fun _ =>
          .faulted rfl hr.current hok)
      · exact .moves (Moves.start.write rfl rfl rfl id)
    · exact hno
  | syscallLeave c io =>
    simp only [step]
    split
    · next ht => exact .deliver (runs_of_inSyscall ht) (.inl rfl)
    · exact hno
  | stopOver c =>
    simp only [step, stopOver]
    split
    · rename_i ht
      split
      · next back _ =>
          exact .moves (Moves.start.leave (runs_of_runsIn ht) back.not_picked rfl rfl rfl id)
      · exact hno
    · exact hno
  | sigreturn c native linux io =>
    simp only [step]
    split
    · next ht => exact .sigreturn ht native linux
    · exact hno
  | prepareWait c =>
    simp only [step]
    split
    · next ht => exact .moves (Moves.start.block (runs_of_kernel ht))
    · exact hno
  | finishWait c =>
    simp only [step, schedSetRunning]
    split
    · rename_i ht
      split
      · exact .moves (Moves.start.own (runs_of_kernel ht) (by simp) rfl rfl rfl)
      · exact hno
    · exact hno
  | schedBlock c =>
    simp only [step]
    split
    · rename_i ht
      have hr := runs_of_kernel ht
      exact .moves ((Moves.start.block hr).stay
        ⟨hr.current, hr.unpicked, hr.returns, hr.yields, hr.able⟩ rfl)
    · exact hno
  | schedYield c =>
    simp only [step]
    split
    · next ht => exact .moves (.yield (runs_of_kernel ht))
    · exact hno
  | schedIdle c =>
    simp only [step, schedIdle]
    split
    · rename_i ht
      split
      · split
        · exact .moves (.yield (runs_of_runsIn ht))
        · exact hno
      · exact hno
    · exact hno
  | waitChild c =>
    simp only [step]
    split
    · next ht => exact .moves (Moves.start.own (runs_of_kernel ht) (by simp) rfl rfl rfl)
    · exact hno
  | shouldInterrupt c =>
    simp only [step]
    split
    · next ht => exact .interrupt ht
    · exact hno
  | sigaction c threads sig act =>
    simp only [step, signalSetAction]
    split
    · split
      · next hok => exact .moves (Moves.start.acts hok _)
      · exact hno
    · exact hno
  | sigprocmask c how set =>
    simp only [step]
    split
    · split
      · next hok => exact .moves (Moves.start.write rfl rfl rfl fun _ => .masked hok)
      · exact hno
    · exact hno
  | sigaltstack c sp size flags =>
    simp only [step]
    split
    · split
      · next hok => exact .moves (Moves.start.write rfl rfl rfl fun _ => .altstack hok)
      · exact hno
    · exact hno
  | exec c ctx =>
    simp only [step]
    split
    · exact .moves (Moves.start.write rfl rfl rfl fun _ => .execed)
    · exact hno
  | fork c t thread =>
    simp only [step]
    split
    · rename_i parent _
      split
      · exact hno
      · next ht => exact .moves (Moves.start.enlist ht rfl rfl (.inherited parent thread))
    · exact hno
  | create c t prio user ready =>
    simp only [step]
    split
    · exact hno
    · next ht => exact .moves (.create ht c prio user ready)
  | createIdle c t =>
    simp only [step]
    split
    · exact hno
    rename_i hn
    push Not at hn
    exact .moves (Moves.start.createIdle hn.1 hn.2)
  | apIdle c =>
    simp only [step]
    split
    · next hc hi => exact .moves (Moves.start.apIdle hc hi)
    · exact hno
  | wake c t => exact .moves (Moves.start.wake c t)
  | send c t sig => exact .moves (Moves.start.send c fun hv => by simp [sentTo, hv])
  | sendGroup c t threads sig =>
    simp only [step, signalSendGroup]
    split
    · exact hno
    rename_i hv
    refine .moves (Moves.start.sends c _ fun u hu => ?_)
    simp [sentTo, hu, show validSignal sig = true by simpa using hv]
  | setPrio t prio => exact .moves (Moves.start.write rfl rfl rfl id)
  | zombie t =>
    simp only [step]
    split
    · next ht => exact .moves (Moves.start.zombie ht)
    · exact hno
  | markDead c t =>
    simp only [step]
    split
    · next hg => exact .moves (Moves.start.markDead hg.2)
    · exact hno
  | bury =>
    simp only [step]
    split
    · next hb => exact .moves (Moves.start.bury hb)
    · exact hno
  | reap =>
    simp only [step]
    split
    · exact .moves Moves.start.reap
    · exact hno

/-! ## Runs -/

theorem Moves.inv (m : Moves s a s') (h : Inv s none) : Inv s' none := by
  induction m with
  | start => exact h
  | count _ ih => exact ih.of_same (Same.of_rfl rfl rfl rfl rfl rfl rfl rfl)
  | write _ hst hon hid _ ih => exact ih.of_same (Same.setTask hst hon hid)
  | own _ hr _ hon hid _ ih => exact ih.setTask hr hon hid
  | block _ hr ih => exact ih.setBlocked hr
  | stay _ hr hph ih => exact ih.stay hr hph
  | next _ hc hy ih => exact ih.nextContext hc hy
  | switch _ hph hon ih => exact ih.switchTask hph hon
  | ret _ hph ih => exact ih.schedReturn hph
  | ready _ c hst ih =>
    refine ih.makeReady c ?_
    rcases hst with hst | ⟨hst, -⟩ <;> rw [hst] <;> rfl
  | enlist _ ht hst hon _ ih => exact ih.enlist ht (by simp [hst]) (by simp [hon])
  | createIdle _ ht hc ih => exact ih.createIdle ht hc
  | apIdle _ hc hi ih => exact ih.apIdle hc hi
  | zombie _ ht ih => exact ih.setRest (listed_iff.1 ht).1 rfl
  | markDead _ ht ih => exact ih.markDead ht
  | bury _ hb ih => exact ih.buried hb
  | reap _ ih => exact ih.reap

theorem Ends.inv (e : Ends s a s') (h : Inv s none) : Inv s' none := by
  cases e with
  | moves m => exact m.inv h
  | stops m hr _ _ hon hid _ => exact ((m.inv h).setTask hr hon hid).stay hr.setTask rfl

theorem Inv.step (h : Inv s none) (a : Act) : Inv (step s a) none := (step_ends s a).inv h

theorem boot_current (h : (Sys.boot.cpus c).current = some t) : c = 0 ∧ t = 0 := by
  simp only [Sys.boot] at h
  split at h
  · next hc => exact ⟨hc, (some.inj h).symm⟩
  · cases h

theorem boot_idleTask {i : Tid} (h : (Sys.boot.cpus c).idleTask = some i) : c = 0 ∧ i = 1 := by
  simp only [Sys.boot] at h
  split at h
  · next hc => exact ⟨hc, (some.inj h).symm⟩
  · cases h

theorem boot_prevTask : (Sys.boot.cpus c).prevTask = none := by
  simp only [Sys.boot]
  split <;> rfl

theorem boot_phase : (Sys.boot.cpus c).phase = .runs := by
  simp only [Sys.boot]
  split <;> rfl

theorem boot_holds (h : Sys.boot.holds c t) : c = 0 ∧ t = 0 := by
  rw [Sys.holds, boot_prevTask] at h
  exact boot_current (h.resolve_right (by simp))

theorem boot_linked : ¬Sys.boot.linked t := fun h => h rfl

theorem boot_picked {n : Tid} : (Sys.boot.cpus c).phase ≠ .picked n := by
  rw [boot_phase]
  simp

theorem Inv.boot : Inv Sys.boot none where
  queued := ⟨_, Queued.empty⟩
  linked_task t h := absurd h boot_linked
  ready t h := by
    simp only [Sys.state, Sys.boot] at h
    split at h
    · cases h
    · split at h <;> cases h
  fresh t h := by
    simp only [Sys.boot, mem_cons, not_or] at h
    simp [Sys.state, Sys.boot, h.1, h.2]
  held c t h := by
    rw [(boot_holds h).2]
    rfl
  one c c' t h h' := (boot_holds h).1.trans (boot_holds h').1.symm
  apart c t _ := by
    rw [boot_prevTask]
    simp
  holder t h _ := by
    have ht : t = 0 := by
      by_contra hne
      simp only [Sys.boot, if_neg hne] at h
      split at h <;> cases h
    exact ⟨0, .inl (by rw [ht]; rfl)⟩
  prev_returns c t h := by
    rw [boot_prevTask] at h
    cases h
  prev_from c t h := by
    rw [boot_prevTask] at h
    cases h
  linked_current c t _ h := absurd h boot_linked
  picked_out c n h := absurd h boot_picked
  picked_state c n h := absurd h boot_picked
  picked_one c c' n h := absurd h boot_picked
  picked_current c c' n h := absurd h boot_picked
  picked_all c n h := absurd h boot_picked
  picked_from c n h := absurd h boot_picked
  idle_task c i h := by
    rw [(boot_idleTask h).2]
    exact ⟨rfl, by simp [Sys.boot]⟩
  idle_one c c' i h h' := (boot_idleTask h).1.trans (boot_idleTask h').1.symm
  idle_own c t h hi := by
    rcases h with h | h
    · rw [(boot_holds h).2] at hi
      cases hi
    · exact absurd h boot_picked
  has_idle c t h := by
    rw [(boot_current h).1]
    simp [Sys.boot]
  idle_starts c i h hi := by
    rw [(boot_idleTask hi).1] at h
    cases h
  dead_task t h := by cases h
  bury b t h := by cases h

theorem inv_run (calls : List Act) : Inv (run step Sys.boot calls) none :=
  run_inv (I := fun s => Inv s none) (fun _ a h _ => h.step a)
    Inv.boot (Meets.of_all fun _ _ => trivial)

/-! ## The run queue in every state

An idle task is never queued, whatever its state: its CPU goes back to it when there
is nothing else. Every other task that is ready is queued, or a CPU still holds it and
queues it when it lets go of it. -/

theorem run_queue_keeps_ready (calls : List Act) : (∃ L, Queued (run step Sys.boot calls).rq L) ∧
    ∀ t, (run step Sys.boot calls).state t = .ready →
      ((run step Sys.boot calls).tasks t).idle = false →
      (run step Sys.boot calls).linked t ∨ ((run step Sys.boot calls).tasks t).onCpu = true ∧
          ∃ c, (run step Sys.boot calls).holds c t := by
  have h := inv_run calls
  refine ⟨h.queued, fun t hr hi => ?_⟩
  rcases h.ready t hr hi with hl | hon
  · exact .inl hl
  · exact .inr ⟨hon, h.holder t hon hi⟩

/-- The kernel task goes to sleep and is woken before its CPU has left it. -/
theorem run_queue_keeps_ready_woken : let s := run step Sys.boot [.prepareWait 0, .wake 0 0]
    s.state 0 = .ready ∧ (s.linked 0 ∨ (s.tasks 0).onCpu = true ∧ ∃ c, s.holds c 0) :=
  ⟨by decide +kernel, (run_queue_keeps_ready _).2 0 (by decide +kernel) (by decide +kernel)⟩

/-- No two CPUs are ever at one task, and a task that runs is in no queue. -/
theorem task_runs_once (calls : List Act) (t : Tid) : let s := run step Sys.boot calls
    (∀ c c', s.holds c t → s.holds c' t → c = c') ∧ ∀ c, Runs s c t → ¬s.linked t := by
  have h := inv_run calls
  exact ⟨fun c c' => h.one c c' t, fun c hr => hr.out h⟩

/-- A second CPU leaves its idle task for one that was made ready: the idle task was
put to `TASK_READY` and is queued nowhere, and no CPU holds it. -/
theorem idle_task_ready_outside :
    let s := run step Sys.boot [.createIdle 1 2, .apIdle 1, .create 0 3 prioDefault true true,
      .tick 1, .switchTask 1, .schedReturn 1]
    s.state 2 = .ready ∧ (s.rq.node 2).array = none ∧ (s.tasks 2).onCpu = false := by
  decide +kernel

end BleedKernel.Sched
