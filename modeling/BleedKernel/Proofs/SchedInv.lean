import BleedKernel.Proofs.RunQueue

/-!
# What every step of the scheduler keeps

A task is `held` by a CPU whose current task it is, or that has switched away from
it and is still on its stack; `on_cpu` says that some CPU holds it. A CPU that has
dropped `rq_lock` with its next task in hand has `picked` that task. The invariant
says who can have a task at a time: the queue, one CPU that holds it, one CPU that
has picked it. From it follows that a task made ready while a CPU holds it is
queued by that CPU later, and that nobody else does.

Inside `sched_next_context` the current task is queued while its CPU has not picked
another yet. The invariant is therefore stated with one CPU that may be in there.
-/

namespace BleedKernel.Sched

open BleedKernel.Lib List Option

variable {s' s'' : Sys} {x : Option Nat} {ph : Phase} {prev : Tid}

variable {s : Sys} {t u : Tid} {st : TaskState} {c d : Nat}

/-- The states that a task can be made ready from, and `TASK_READY` itself. -/
def TaskState.due : TaskState → Bool
  | .ready | .blocked | .stopped => true
  | _ => false

/-- The CPU has taken its next task out of the queue. -/
def Phase.isPicked : Phase → Bool
  | .picked _ => true
  | _ => false

/-- `t` is the current task of CPU `c`, or the one it has just switched away from. -/
def Sys.holds (s : Sys) (c : Nat) (t : Tid) : Prop :=
  (s.cpus c).current = some t ∨ (s.cpus c).prevTask = some t

/-- `t` is in the run queue. -/
def Sys.linked (s : Sys) (t : Tid) : Prop := (s.rq.node t).array ≠ none

/-- The invariant; CPU `x` is in the middle of a call, and its current task may be queued. -/
structure Inv (s : Sys) (x : Option Nat) : Prop where
  queued : ∃ L, Queued s.rq L
  linked_task : ∀ t, s.linked t → t ∈ s.all ∧ (s.tasks t).idle = false
  ready : ∀ t, s.state t = .ready → (s.tasks t).idle = false → s.linked t ∨ (s.tasks t).onCpu = true
  fresh : ∀ t, t ∉ s.all → s.state t = .free ∧ (s.tasks t).onCpu = false
  -- who holds a task
  held : ∀ c t, s.holds c t → (s.tasks t).onCpu = true
  one : ∀ c c' t, s.holds c t → s.holds c' t → c = c'
  apart : ∀ c t, (s.cpus c).current = some t → (s.cpus c).prevTask ≠ some t
  holder : ∀ t, (s.tasks t).onCpu = true → (s.tasks t).idle = false → ∃ c, s.holds c t
  prev_returns : ∀ c t, (s.cpus c).prevTask = some t → (s.cpus c).phase = .returns
  prev_from : ∀ c t, (s.cpus c).prevTask = some t → (s.cpus c).current ≠ none
  linked_current : ∀ c t, x ≠ some c → s.linked t → (s.cpus c).current = some t →
    (s.cpus c).phase.isPicked = true
  -- who has picked one
  picked_out : ∀ c n, (s.cpus c).phase = .picked n → ¬s.linked n
  picked_state : ∀ c n, (s.cpus c).phase = .picked n → (s.tasks n).idle = false →
    (s.state n).due = false
  picked_one : ∀ c c' n, (s.cpus c).phase = .picked n → (s.cpus c').phase = .picked n → c = c'
  picked_current : ∀ c c' n, (s.cpus c).phase = .picked n →
    (s.cpus c').current = some n → (s.cpus c').phase.isPicked = true
  picked_all : ∀ c n, (s.cpus c).phase = .picked n → n ∈ s.all
  picked_from : ∀ c n, (s.cpus c).phase = .picked n → (s.cpus c).current ≠ none
  -- the idle tasks
  idle_task : ∀ c i, (s.cpus c).idleTask = some i → (s.tasks i).idle = true ∧ i ∈ s.all
  idle_one : ∀ c c' i, (s.cpus c).idleTask = some i → (s.cpus c').idleTask = some i → c = c'
  idle_own : ∀ c t, s.holds c t ∨ (s.cpus c).phase = .picked t →
    (s.tasks t).idle = true → (s.cpus c).idleTask = some t
  has_idle : ∀ c t, (s.cpus c).current = some t → (s.cpus c).idleTask ≠ none
  idle_starts : ∀ c i, (s.cpus c).current = none → (s.cpus c).idleTask = some i →
    (s.tasks i).onCpu = true
  -- the tasks marked dead
  dead_task : ∀ t ∈ s.dead, t ∈ s.all ∧ (s.tasks t).idle = false
  bury : ∀ b t, s.burying = some (b, t) →
    (s.state t).due = false ∧ t ∈ s.all ∧ (s.tasks t).idle = false

/-- Apart from states and queues, what the invariant reads is the same. -/
structure Kept (s s' : Sys) : Prop where
  onCpu : ∀ t, (s'.tasks t).onCpu = (s.tasks t).onCpu
  idle : ∀ t, (s'.tasks t).idle = (s.tasks t).idle
  current : ∀ c, (s'.cpus c).current = (s.cpus c).current
  prevTask : ∀ c, (s'.cpus c).prevTask = (s.cpus c).prevTask
  idleTask : ∀ c, (s'.cpus c).idleTask = (s.cpus c).idleTask
  phase : ∀ c, (s'.cpus c).phase = (s.cpus c).phase
  all : s'.all = s.all
  dead : s'.dead = s.dead
  burying : s'.burying = s.burying

/-- What the invariant reads is the same. -/
structure Same (s s' : Sys) : Prop extends Kept s s' where
  node : s'.rq.node = s.rq.node
  arrays : s'.rq.arrays = s.rq.arrays
  state : ∀ t, s'.state t = s.state t

theorem Queued.congr {q q' : RunQueue} {L : Arr → Nat → List Tid} (h : Queued q L)
    (hn : q'.node = q.node) (ha : q'.arrays = q.arrays) : Queued q' L := by
  obtain ⟨hl, hm, hb, hw⟩ := h
  rw [← hn, ← ha] at hl
  rw [← hn] at hm
  rw [← ha] at hb
  exact ⟨hl, hm, hb, hw⟩

theorem Inv.of_same (h : Inv s x) (e : Same s s') : Inv s' x where
  queued := h.queued.imp fun _ hq => hq.congr e.node e.arrays
  linked_task := by simpa only [Sys.linked, e.node, e.all, e.idle] using h.linked_task
  ready := by simpa only [Sys.linked, e.node, e.state, e.onCpu, e.idle] using h.ready
  fresh := by simpa only [e.all, e.state, e.onCpu] using h.fresh
  held := by simpa only [Sys.holds, e.current, e.prevTask, e.onCpu] using h.held
  one := by simpa only [Sys.holds, e.current, e.prevTask] using h.one
  apart := by simpa only [e.current, e.prevTask] using h.apart
  holder := by
    simpa only [Sys.holds, e.current, e.prevTask, e.onCpu, e.idle] using h.holder
  prev_returns := by simpa only [e.prevTask, e.phase] using h.prev_returns
  prev_from := by simpa only [e.prevTask, e.current] using h.prev_from
  linked_current := by
    simpa only [Sys.linked, e.node, e.current, e.phase] using h.linked_current
  picked_out := by simpa only [Sys.linked, e.node, e.phase] using h.picked_out
  picked_state := by simpa only [e.phase, e.state, e.idle] using h.picked_state
  picked_one := by simpa only [e.phase] using h.picked_one
  picked_current := by simpa only [e.phase, e.current] using h.picked_current
  picked_all := by simpa only [e.phase, e.all] using h.picked_all
  picked_from := by simpa only [e.phase, e.current] using h.picked_from
  idle_task := by simpa only [e.idleTask, e.idle, e.all] using h.idle_task
  idle_one := by simpa only [e.idleTask] using h.idle_one
  idle_own := by
    simpa only [Sys.holds, e.current, e.prevTask, e.phase, e.idle, e.idleTask] using h.idle_own
  has_idle := by simpa only [e.current, e.idleTask] using h.has_idle
  idle_starts := by simpa only [e.current, e.idleTask, e.onCpu] using h.idle_starts
  dead_task := by simpa only [e.dead, e.all, e.idle] using h.dead_task
  bury := by simpa only [e.burying, e.state, e.all, e.idle] using h.bury

theorem Kept.refl (s : Sys) : Kept s s := by constructor <;> intros <;> rfl

theorem Kept.trans (h : Kept s s') (h' : Kept s' s'') : Kept s s'' where
  onCpu t := (h'.onCpu t).trans (h.onCpu t)
  idle t := (h'.idle t).trans (h.idle t)
  current c := (h'.current c).trans (h.current c)
  prevTask c := (h'.prevTask c).trans (h.prevTask c)
  idleTask c := (h'.idleTask c).trans (h.idleTask c)
  phase c := (h'.phase c).trans (h.phase c)
  all := h'.all.trans h.all
  dead := h'.dead.trans h.dead
  burying := h'.burying.trans h.burying

theorem Same.refl (s : Sys) : Same s s := ⟨Kept.refl s, rfl, rfl, fun _ => rfl⟩

theorem Same.trans (h : Same s s') (h' : Same s' s'') : Same s s'' where
  toKept := h.toKept.trans h'.toKept
  node := h'.node.trans h.node
  arrays := h'.arrays.trans h.arrays
  state t := (h'.state t).trans (h.state t)

theorem Same.of_rfl (hn : s'.rq.node = s.rq.node)
    (ha : s'.rq.arrays = s.rq.arrays) (ht : s'.tasks = s.tasks) (hc : s'.cpus = s.cpus)
    (hl : s'.all = s.all) (hd : s'.dead = s.dead) (hb : s'.burying = s.burying) :
    Same s s' := by
  refine ⟨⟨?_, ?_, ?_, ?_, ?_, ?_, hl, hd, hb⟩, hn, ha, ?_⟩ <;> intros <;>
    simp only [Sys.state, ht, hc]

theorem Same.expiredSince {n : Nat} : Same s { s with rq := { s.rq with expiredSince := n } } :=
  Same.of_rfl rfl rfl rfl rfl rfl rfl rfl

/-! ## Fields after an update -/

section fields

variable {s : Sys} {t u : Tid} {c d : Nat} {task : Task} {cpu : Cpu} {st : TaskState}

@[simp] theorem setTask_tasks : (s.setTask t task).tasks u = if u = t then task else s.tasks u := by
  simp [Sys.setTask, Function.update_apply]

theorem setTask_self : (s.setTask t task).tasks t = task := Function.update_self ..

/-- What the new task has as the old one had it. -/
theorem setTask_field {β : Type} (f : Task → β) (h : f task = f (s.tasks t)) :
    f ((s.setTask t task).tasks u) = f (s.tasks u) := by
  rw [setTask_tasks]
  split
  · next hu => rw [h, hu]
  · rfl

@[simp] theorem setTask_cpus : (s.setTask t task).cpus = s.cpus := rfl

@[simp] theorem setState_state : (s.setState t st).state u = if u = t then st else s.state u := by
  simp only [Sys.setState, Sys.state, setTask_tasks]
  split <;> rfl

@[simp] theorem setState_onCpu : ((s.setState t st).tasks u).onCpu = (s.tasks u).onCpu :=
  setTask_field Task.onCpu rfl

@[simp] theorem setState_idle : ((s.setState t st).tasks u).idle = (s.tasks u).idle :=
  setTask_field Task.idle rfl

@[simp] theorem setState_cpus : (s.setState t st).cpus = s.cpus := rfl
@[simp] theorem setState_rq : (s.setState t st).rq = s.rq := rfl
@[simp] theorem setState_all : (s.setState t st).all = s.all := rfl

@[simp] theorem setCpu_cpus : (s.setCpu c cpu).cpus d = if d = c then cpu else s.cpus d := by
  simp [Sys.setCpu, Function.update_apply]

theorem setCpu_field {β : Type} (f : Cpu → β) (h : f cpu = f (s.cpus c)) :
    f ((s.setCpu c cpu).cpus d) = f (s.cpus d) := by
  rw [setCpu_cpus]
  split
  · next hd => rw [h, hd]
  · rfl

end fields

/-- A task whose scheduling fields stay as they are. -/
theorem Same.setTask {task : Task} (hst : task.state = s.state t)
    (hon : task.onCpu = (s.tasks t).onCpu) (hid : task.idle = (s.tasks t).idle) :
    Same s (s.setTask t task) :=
  ⟨⟨fun _ => setTask_field Task.onCpu hon, fun _ => setTask_field Task.idle hid, fun _ => rfl,
    fun _ => rfl, fun _ => rfl, fun _ => rfl, rfl, rfl, rfl⟩, rfl, rfl,
    fun _ => setTask_field Task.state hst⟩

theorem Kept.setState : Kept s (s.setState t st) :=
  ⟨fun _ => setState_onCpu, fun _ => setState_idle, fun _ => rfl, fun _ => rfl,
    fun _ => rfl, fun _ => rfl, rfl, rfl, rfl⟩

theorem Same.setSignals {g : Signals} : Same s (s.setSignals t g) := Same.setTask rfl rfl rfl

/-- A CPU of which only `need_resched` changes. -/
theorem Same.setCpu {cpu : Cpu}
    (hc : cpu.current = (s.cpus c).current) (hp : cpu.prevTask = (s.cpus c).prevTask)
    (hi : cpu.idleTask = (s.cpus c).idleTask) (hph : cpu.phase = (s.cpus c).phase) :
    Same s (s.setCpu c cpu) :=
  ⟨⟨fun _ => rfl, fun _ => rfl, fun _ => setCpu_field Cpu.current hc,
    fun _ => setCpu_field Cpu.prevTask hp, fun _ => setCpu_field Cpu.idleTask hi,
    fun _ => setCpu_field Cpu.phase hph, rfl, rfl, rfl⟩, rfl, rfl, fun _ => rfl⟩

/-! ## The elementary changes -/

/-- No CPU has picked `t`, and none is marking it dead. -/
structure Own (s : Sys) (t : Tid) : Prop where
  unpicked : ∀ c, (s.cpus c).phase ≠ .picked t
  unburied : ∀ b, s.burying ≠ some (b, t)

theorem Inv.mem_of_state (h : Inv s x) (hst : s.state t ≠ .free) : t ∈ s.all := by
  by_contra hn
  exact hst (h.fresh t hn).1

theorem Inv.mem_of_held (h : Inv s x) (hc : s.holds c t) : t ∈ s.all := by
  by_contra hn
  have := (h.fresh t hn).2
  rw [h.held c t hc] at this
  cases this

theorem Inv.setState (h : Inv s x)
    (hall : t ∈ s.all) (hown : st.due = true → (s.tasks t).idle = false → Own s t)
    (hready : st = .ready → (s.tasks t).idle = false →
      s.linked t ∨ (s.tasks t).onCpu = true) : Inv (s.setState t st) x where
  __ := h
  linked_task := by simpa [Sys.linked] using h.linked_task
  ready u := by
    simp only [setState_state, setState_idle, setState_onCpu]
    split
    · next hu => exact hu ▸ hready
    · exact h.ready u
  fresh u hu := by
    have hne : u ≠ t := fun heq => hu (heq ▸ hall)
    simpa [hne] using h.fresh u hu
  held := by simpa [Sys.holds] using h.held
  holder := by simpa [Sys.holds] using h.holder
  picked_state c n hc := by
    simp only [setState_idle, setState_state]
    split
    · rename_i hn
      subst hn
      intro hi
      by_contra hd
      exact (hown (by simpa using hd) hi).unpicked c hc
    · exact h.picked_state c n hc
  idle_task := by simpa using h.idle_task
  idle_own := by simpa [Sys.holds] using h.idle_own
  idle_starts := by simpa using h.idle_starts
  dead_task u hu := by simpa using h.dead_task u hu
  bury b u hb := by
    obtain ⟨h1, h2, h3⟩ := h.bury b u hb
    refine ⟨?_, h2, by simpa using h3⟩
    simp only [setState_state]
    split
    · rename_i hu
      subst hu
      by_contra hd
      exact (hown (by simpa using hd) h3).unburied b hb
    · exact h1

theorem Inv.setRest (h : Inv s x)
    (hall : t ∈ s.all) (hst : st.due = false) : Inv (s.setState t st) x := by
  refine h.setState hall (fun hd _ => ?_) fun hr => ?_
  · rw [hst] at hd
    cases hd
  · subst hr
    cases hst

/-! ### Into the queue and out of it -/

theorem taskPrio_lt (task : Task) : taskPrio task < prioLevels := by
  simp only [taskPrio, prioLevels]
  omega

theorem Same.enqueueTurn : Same s (enqueueTurn s c t).2 := by
  simp only [Sched.enqueueTurn]
  split
  · exact Same.expiredSince.trans (Same.setTask rfl rfl rfl)
  · exact Same.setCpu rfl rfl rfl rfl

/-- `rq_enqueue` leaves a task alone that is queued or idle, and otherwise changes
nothing but the queue, the quantum and `need_resched`. -/
theorem rqEnqueue_cases (s : Sys) (c : Nat) (t : Tid) :
    ((s.linked t ∨ (s.tasks t).idle = true) ∧ rqEnqueue s c t = s) ∨
    (¬s.linked t ∧ (s.tasks t).idle = false ∧ ∃ s' a, Same s s' ∧ rqEnqueue s c t =
        { s' with rq := s'.rq.append a (taskPrio (s.tasks t)) t }) := by
  by_cases hg : ((s.rq.node t).array.isSome || (s.tasks t).idle) = true
  · refine .inl ⟨?_, by simp only [rqEnqueue, if_pos hg]⟩
    rcases Bool.or_eq_true_iff.1 hg with hl | hi
    · exact .inl (by simpa [Sys.linked, isSome_iff_ne_none] using hl)
    · exact .inr hi
  · have hf := Bool.or_eq_false_iff.1 (Bool.eq_false_iff.2 hg)
    refine .inr ⟨by simpa [Sys.linked] using hf.1, hf.2, ?_⟩
    exact ⟨(enqueueTurn s c t).2, (enqueueTurn s c t).1, Same.enqueueTurn,
      by simp only [rqEnqueue, if_neg hg]⟩

theorem queued_rqEnqueue (h : ∃ L, Queued s.rq L) : ∃ L, Queued (rqEnqueue s c t).rq L := by
  rcases rqEnqueue_cases s c t with ⟨-, heq⟩ | ⟨hnl, -, s', a, hs, heq⟩
  · rw [heq]
    exact h
  rw [heq]
  have hta : (s'.rq.node t).array = none := by
    rw [hs.node]
    simpa [Sys.linked] using hnl
  exact h.imp' _ fun L hL => (hL.congr hs.node hs.arrays).append (taskPrio_lt _) hta

theorem Inv.enqueue (h : Inv s x)
    (hall : t ∈ s.all) (hout : (s.tasks t).idle = false → ∀ d, (s.cpus d).phase ≠ .picked t)
    (hcur : ∀ d, x ≠ some d → (s.cpus d).current = some t →
      (s.cpus d).phase.isPicked = true) : Inv (rqEnqueue s c t) x := by
  rcases rqEnqueue_cases s c t with ⟨-, heq⟩ | ⟨hnl, hni, s', a, hs, heq⟩
  · rw [heq]
    exact h
  rw [heq]
  have h' := h.of_same hs
  have hlk : ∀ {u}, ((s'.rq.append a (taskPrio (s.tasks t)) t).node u).array ≠ none ↔
      u = t ∨ s'.linked u := by
    intro u
    simp only [Sys.linked, append_array]
    by_cases hu : u = t <;> simp [hu]
  exact { h' with
    queued := heq ▸ queued_rqEnqueue h.queued
    linked_task := fun u hu => by
      rcases hlk.1 hu with rfl | hu
      · exact ⟨hs.all ▸ hall, (hs.idle u).trans hni⟩
      · exact h'.linked_task u hu
    ready := fun u hu hi => (h'.ready u hu hi).imp_left fun hl => hlk.2 (.inr hl)
    linked_current := fun d u hd hu huc => by
      rcases hlk.1 hu with rfl | hu
      · rw [hs.current] at huc
        rw [hs.phase]
        exact hcur d hd huc
      · exact h'.linked_current d u hd hu huc
    picked_out := fun d n hd hl => by
      rcases hlk.1 hl with rfl | hl
      · rw [hs.phase] at hd
        exact hout hni d hd
      · exact h'.picked_out d n hd hl }

theorem Kept.enqueue (s : Sys) (c : Nat) (t : Tid) : Kept s (rqEnqueue s c t) := by
  rcases rqEnqueue_cases s c t with ⟨-, heq⟩ | ⟨-, -, s', a, hs, heq⟩
  · rw [heq]
    exact Kept.refl s
  · rw [heq]
    exact { hs with }

theorem rqEnqueue_state : (rqEnqueue s c t).state u = s.state u := by
  rcases rqEnqueue_cases s c t with ⟨-, heq⟩ | ⟨-, -, s', a, hs, heq⟩
  · rw [heq]
  · rw [heq]
    exact hs.state u

theorem rqEnqueue_cpus (hd : d ≠ c) : (rqEnqueue s c t).cpus d = s.cpus d := by
  simp only [rqEnqueue, enqueueTurn]
  split
  · rfl
  split
  · rfl
  · exact setCpu_cpus.trans (if_neg hd)

theorem linked_rqEnqueue :
    (rqEnqueue s c t).linked u ↔ s.linked u ∨ (u = t ∧ (s.tasks t).idle = false) := by
  rcases rqEnqueue_cases s c t with ⟨hg, heq⟩ | ⟨hnl, hni, s', a, hs, heq⟩
  · rw [heq]
    refine ⟨.inl, ?_⟩
    rintro (hl | ⟨rfl, hi⟩)
    · exact hl
    · exact hg.resolve_right (by simp [hi])
  · rw [heq]
    simp only [Sys.linked, append_array, hs.node]
    by_cases hu : u = t <;> simp [hu, hni]

theorem linked_rqDequeue : (rqDequeue s t).linked u ↔ u ≠ t ∧ s.linked u := by
  simp only [Sys.linked, rqDequeue, dequeue_array]
  by_cases hu : u = t <;> simp [hu]

theorem Inv.dequeue (h : Inv s x)
    (hready : s.state t = .ready → (s.tasks t).idle = false → (s.tasks t).onCpu = true) :
    Inv (rqDequeue s t) x :=
  have hlk : ∀ {u}, (rqDequeue s t).linked u ↔ u ≠ t ∧ s.linked u := linked_rqDequeue
  { h with
    queued := h.queued.imp' _ fun L hL => hL.dequeue t
    linked_task := fun u hu => h.linked_task u (hlk.1 hu).2
    ready := fun u hu hi => by
      rcases h.ready u hu hi with hl | hon
      · by_cases hut : u = t
        · subst hut
          exact .inr (hready hu hi)
        · exact .inl (hlk.2 ⟨hut, hl⟩)
      · exact .inr hon
    linked_current := fun c u hc hu => h.linked_current c u hc (hlk.1 hu).2
    picked_out := fun c n hc hl => h.picked_out c n hc (hlk.1 hl).2 }

/-! ### The phase of a CPU -/

@[simp] theorem setPhase_current : ((s.setPhase c ph).cpus d).current = (s.cpus d).current :=
  setCpu_field Cpu.current rfl

@[simp] theorem setPhase_prevTask : ((s.setPhase c ph).cpus d).prevTask = (s.cpus d).prevTask :=
  setCpu_field Cpu.prevTask rfl

@[simp] theorem setPhase_idleTask : ((s.setPhase c ph).cpus d).idleTask = (s.cpus d).idleTask :=
  setCpu_field Cpu.idleTask rfl

@[simp] theorem setPhase_phase :
    ((s.setPhase c ph).cpus d).phase = if d = c then ph else (s.cpus d).phase := by
  simp only [Sys.setPhase, setCpu_cpus]
  split <;> rfl

@[simp] theorem setPhase_tasks : (s.setPhase c ph).tasks = s.tasks := rfl
@[simp] theorem setPhase_all : (s.setPhase c ph).all = s.all := rfl
@[simp] theorem setPhase_state : (s.setPhase c ph).state u = s.state u := rfl

/-! ### One CPU at work -/

/-- What CPU `c` does to tasks and to the queue while all other CPUs do nothing: a task
whose `on_cpu` it writes is no other CPU's, and one that it queues nobody else has. -/
structure Touched (s f : Sys) (c : Nat) : Prop where
  cpu : ∀ d, d ≠ c → f.cpus d = s.cpus d
  idle : ∀ t, (f.tasks t).idle = (s.tasks t).idle
  all : f.all = s.all
  dead : f.dead = s.dead
  burying : f.burying = s.burying
  state : ∀ t, f.state t = s.state t ∨ t ∈ s.all ∧ (f.state t).due = false
  onCpu : ∀ t, (f.tasks t).onCpu = (s.tasks t).onCpu ∨
    t ∈ s.all ∧ ∀ d, d ≠ c → ¬s.holds d t ∧ (s.cpus d).idleTask ≠ some t
  linked : ∀ t, f.linked t → s.linked t ∨ t ∈ s.all ∧ (s.tasks t).idle = false ∧
    ∀ d, d ≠ c → ¬s.holds d t ∧ (s.cpus d).phase ≠ .picked t
  queued : ∃ L, Queued f.rq L
  ready : ∀ t, f.state t = .ready → (f.tasks t).idle = false → f.linked t ∨ (f.tasks t).onCpu = true
  holder : ∀ t, (f.tasks t).onCpu = true → (f.tasks t).idle = false → ∃ d, f.holds d t

/-- `n` is for CPU `c` to take. -/
structure Free (s : Sys) (c : Nat) (n : Tid) : Prop where
  out : ¬s.linked n
  due : (s.tasks n).idle = false → (s.state n).due = false
  alone : ∀ d, d ≠ c → (s.cpus d).phase ≠ .picked n
  left : ∀ d, (s.cpus d).current = some n → (s.cpus d).phase.isPicked = true
  all : n ∈ s.all
  leaves : (s.cpus c).current ≠ none

/-- What the invariant says about CPU `c`. -/
structure AtCpu (s : Sys) (c : Nat) : Prop where
  held : ∀ t, s.holds c t → (s.tasks t).onCpu = true
  one : ∀ d t, d ≠ c → s.holds c t → ¬s.holds d t
  apart : ∀ t, (s.cpus c).current = some t → (s.cpus c).prevTask ≠ some t
  prev_returns : ∀ t, (s.cpus c).prevTask = some t → (s.cpus c).phase = .returns
  prev_from : ∀ t, (s.cpus c).prevTask = some t → (s.cpus c).current ≠ none
  linked : ∀ t, s.linked t → (s.cpus c).current = some t → (s.cpus c).phase.isPicked = true
  picked : ∀ n, (s.cpus c).phase = .picked n → Free s c n
  picked_current : ∀ d n, d ≠ c → (s.cpus d).phase = .picked n → (s.cpus c).current = some n →
    (s.cpus c).phase.isPicked = true
  idle_task : ∀ i, (s.cpus c).idleTask = some i → (s.tasks i).idle = true ∧ i ∈ s.all
  idle_one : ∀ d i, d ≠ c → (s.cpus c).idleTask = some i → (s.cpus d).idleTask ≠ some i
  idle_own : ∀ t, s.holds c t ∨ (s.cpus c).phase = .picked t → (s.tasks t).idle = true →
    (s.cpus c).idleTask = some t
  has_idle : ∀ t, (s.cpus c).current = some t → (s.cpus c).idleTask ≠ none
  idle_starts : ∀ i, (s.cpus c).current = none → (s.cpus c).idleTask = some i →
    (s.tasks i).onCpu = true

/-- The invariant is for the CPU that was at work to show. -/
theorem Inv.touched {f : Sys} (h : Inv s x) (hx : ∀ d, x = some d → d = c)
    (T : Touched s f c) (C : AtCpu f c) : Inv f none := by
  have hholds : ∀ {d t}, d ≠ c → f.holds d t → s.holds d t := fun hdc hd => by
    rw [Sys.holds, T.cpu _ hdc] at hd
    exact hd
  exact {
    queued := T.queued
    ready := T.ready
    holder := T.holder
    linked_task := fun t ht => by
      rw [T.all, T.idle]
      rcases T.linked t ht with hl | ⟨hall, hi, -⟩
      · exact h.linked_task t hl
      · exact ⟨hall, hi⟩
    fresh := fun t ht => by
      rw [T.all] at ht
      refine ⟨?_, ?_⟩
      · rcases T.state t with heq | ⟨hall, -⟩
        · exact heq.trans (h.fresh t ht).1
        · exact absurd hall ht
      · rcases T.onCpu t with heq | ⟨hall, -⟩
        · exact heq.trans (h.fresh t ht).2
        · exact absurd hall ht
    held := fun d t hd => by
      by_cases hdc : d = c
      · exact C.held t (hdc ▸ hd)
      · rcases T.onCpu t with heq | ⟨-, hn⟩
        · exact heq.trans (h.held d t (hholds hdc hd))
        · exact absurd (hholds hdc hd) (hn d hdc).1
    one := fun d e t hd he => by
      by_cases hdc : d = c <;> by_cases hec : e = c
      · exact hdc.trans hec.symm
      · exact absurd he (C.one e t hec (hdc ▸ hd))
      · exact absurd hd (C.one d t hdc (hec ▸ he))
      · exact h.one d e t (hholds hdc hd) (hholds hec he)
    apart := fun d t => by
      by_cases hdc : d = c
      · exact hdc ▸ C.apart t
      · exact T.cpu d hdc ▸ h.apart d t
    prev_returns := fun d t => by
      by_cases hdc : d = c
      · exact hdc ▸ C.prev_returns t
      · exact T.cpu d hdc ▸ h.prev_returns d t
    prev_from := fun d t => by
      by_cases hdc : d = c
      · exact hdc ▸ C.prev_from t
      · exact T.cpu d hdc ▸ h.prev_from d t
    linked_current := fun d t _ hl hd => by
      by_cases hdc : d = c
      · exact hdc ▸ C.linked t hl (hdc ▸ hd)
      rw [T.cpu d hdc] at hd ⊢
      rcases T.linked t hl with hl | ⟨-, -, hn⟩
      · exact h.linked_current d t (fun hxd => hdc (hx d hxd)) hl hd
      · exact absurd (.inl hd) (hn d hdc).1
    picked_out := fun d n hd hl => by
      by_cases hdc : d = c
      · exact (C.picked n (hdc ▸ hd)).out hl
      rw [T.cpu d hdc] at hd
      rcases T.linked n hl with hl | ⟨-, -, hn⟩
      · exact h.picked_out d n hd hl
      · exact (hn d hdc).2 hd
    picked_state := fun d n hd hi => by
      by_cases hdc : d = c
      · exact (C.picked n (hdc ▸ hd)).due hi
      rcases T.state n with heq | ⟨-, hdue⟩
      · rw [heq]
        exact h.picked_state d n (T.cpu d hdc ▸ hd) (T.idle n ▸ hi)
      · exact hdue
    picked_one := fun d e n hd he => by
      by_cases hdc : d = c <;> by_cases hec : e = c
      · exact hdc.trans hec.symm
      · exact absurd he ((C.picked n (hdc ▸ hd)).alone e hec)
      · exact absurd hd ((C.picked n (hec ▸ he)).alone d hdc)
      · exact h.picked_one d e n (T.cpu d hdc ▸ hd) (T.cpu e hec ▸ he)
    picked_current := fun d e n hd he => by
      by_cases hdc : d = c
      · exact (C.picked n (hdc ▸ hd)).left e he
      by_cases hec : e = c
      · exact hec ▸ C.picked_current d n hdc hd (hec ▸ he)
      · rw [T.cpu e hec] at he ⊢
        exact h.picked_current d e n (T.cpu d hdc ▸ hd) he
    picked_all := fun d n hd => by
      by_cases hdc : d = c
      · exact (C.picked n (hdc ▸ hd)).all
      · exact T.all ▸ h.picked_all d n (T.cpu d hdc ▸ hd)
    picked_from := fun d n hd => by
      by_cases hdc : d = c
      · exact hdc ▸ (C.picked n (hdc ▸ hd)).leaves
      · rw [T.cpu d hdc] at hd ⊢
        exact h.picked_from d n hd
    idle_task := fun d i hd => by
      by_cases hdc : d = c
      · exact C.idle_task i (hdc ▸ hd)
      · rw [T.idle, T.all]
        exact h.idle_task d i (T.cpu d hdc ▸ hd)
    idle_one := fun d e i hd he => by
      by_cases hdc : d = c <;> by_cases hec : e = c
      · exact hdc.trans hec.symm
      · exact absurd he (C.idle_one e i hec (hdc ▸ hd))
      · exact absurd hd (C.idle_one d i hdc (hec ▸ he))
      · exact h.idle_one d e i (T.cpu d hdc ▸ hd) (T.cpu e hec ▸ he)
    idle_own := fun d t hd hi => by
      by_cases hdc : d = c
      · exact hdc ▸ C.idle_own t (hdc ▸ hd) hi
      · rw [Sys.holds, T.cpu d hdc] at hd
        rw [T.cpu d hdc]
        exact h.idle_own d t hd (T.idle t ▸ hi)
    has_idle := fun d t => by
      by_cases hdc : d = c
      · exact hdc ▸ C.has_idle t
      · exact T.cpu d hdc ▸ h.has_idle d t
    idle_starts := fun d i hd hi => by
      by_cases hdc : d = c
      · exact C.idle_starts i (hdc ▸ hd) (hdc ▸ hi)
      rw [T.cpu d hdc] at hd hi
      rcases T.onCpu i with heq | ⟨-, hn⟩
      · exact heq.trans (h.idle_starts d i hd hi)
      · exact absurd hi (hn d hdc).2
    dead_task := fun t ht => by
      rw [T.all, T.idle]
      exact h.dead_task t (T.dead ▸ ht)
    bury := fun b t hb => by
      obtain ⟨hdue, hall, hi⟩ := h.bury b t (T.burying ▸ hb)
      rw [T.all, T.idle]
      refine ⟨?_, hall, hi⟩
      rcases T.state t with heq | ⟨-, hdue'⟩
      · rw [heq]
        exact hdue
      · exact hdue' }

/-- A CPU that only writes to its own cells, and keeps hold of what it holds. -/
theorem Touched.setCpu {cpu : Cpu} (h : Inv s x)
    (hkeep : ∀ t, s.holds c t → cpu.current = some t ∨ cpu.prevTask = some t) :
    Touched s (s.setCpu c cpu) c where
  cpu d hd := by rw [setCpu_cpus, if_neg hd]
  idle _ := rfl
  all := rfl
  dead := rfl
  burying := rfl
  state _ := .inl rfl
  onCpu _ := .inl rfl
  linked _ := .inl
  queued := h.queued
  ready := h.ready
  holder t ht hi := by
    obtain ⟨d, hd⟩ := h.holder t ht hi
    refine ⟨d, ?_⟩
    rw [Sys.holds, setCpu_cpus]
    split
    · next hdc => exact hkeep t (hdc ▸ hd)
    · exact hd

theorem Inv.setPhase (h : Inv s x) (hx : ∀ d, x = some d → d = c)
    (hprev : ∀ t, (s.cpus c).prevTask = some t → ph = .returns)
    (hlink : ∀ t, s.linked t → (s.cpus c).current = some t → ph.isPicked = true)
    (hwas : (s.cpus c).phase.isPicked = true → ph.isPicked = true)
    (hnew : ∀ n, ph = .picked n →
      Free s c n ∧ ((s.tasks n).idle = true → (s.cpus c).idleTask = some n)) :
    Inv (s.setPhase c ph) none := by
  have hself : ((s.setPhase c ph).cpus c).phase = ph := by rw [setPhase_phase, if_pos rfl]
  have hholds : ∀ {d t}, (s.setPhase c ph).holds d t → s.holds d t := fun hd => by
    simpa [Sys.holds] using hd
  refine h.touched hx (.setCpu h fun _ hd => hd) {
    held := fun t ht => h.held c t (hholds ht)
    one := fun d t hdc ht hd => hdc (h.one d c t (hholds hd) (hholds ht))
    apart := by simpa using h.apart c
    prev_returns := fun t ht => hself.trans (hprev t (setPhase_prevTask ▸ ht))
    prev_from := by simpa using h.prev_from c
    linked := fun t hl ht => by
      rw [hself]
      exact hlink t hl (setPhase_current ▸ ht)
    picked := fun n hn => ?_
    picked_current := fun d n hdc hn ht => by
      rw [setPhase_phase, if_neg hdc] at hn
      rw [hself]
      exact hwas (h.picked_current d c n hn (setPhase_current ▸ ht))
    idle_task := by simpa using h.idle_task c
    idle_one := fun d i hdc hi hd => by
      rw [setPhase_idleTask] at hi hd
      exact hdc (h.idle_one d c i hd hi)
    idle_own := fun t ht hi => by
      rw [setPhase_idleTask]
      rcases ht with ht | ht
      · exact h.idle_own c t (.inl (hholds ht)) hi
      · exact (hnew t (hself.symm.trans ht)).2 hi
    has_idle := by simpa using h.has_idle c
    idle_starts := by simpa using h.idle_starts c }
  rw [hself] at hn
  have F := (hnew n hn).1
  exact { F with
    alone := fun d hdc => by
      rw [setPhase_phase, if_neg hdc]
      exact F.alone d hdc
    left := fun d hd => by
      rw [setPhase_phase]
      split
      · rw [hn]
        rfl
      · exact F.left d (setPhase_current ▸ hd)
    leaves := by simpa using F.leaves }

/-- A CPU that stays with its current task, which is not queued. -/
theorem Inv.stays (h : Inv s x) (hx : ∀ d, x = some d → d = c) (hph : ph.isPicked = false)
    (hold : (s.cpus c).phase.isPicked = false)
    (hout : ∀ t, (s.cpus c).current = some t → ¬s.linked t)
    (hprev : ∀ t, (s.cpus c).prevTask = some t → ph = .returns) :
    Inv (s.setPhase c ph) none := by
  refine h.setPhase hx hprev (fun t hl ht => absurd hl (hout t ht)) (fun hp => ?_) fun n hn => ?_
  · rw [hold] at hp
    cases hp
  · rw [hn] at hph
    cases hph

/-- A CPU that leaves its current task for `n`. -/
theorem Inv.setPicked {n : Tid} (h : Inv s (some c)) (F : Free s c n)
    (hidle : (s.tasks n).idle = true → (s.cpus c).idleTask = some n)
    (hprev : (s.cpus c).prevTask = none) : Inv (s.setPhase c (.picked n)) none := by
  refine h.setPhase (fun d hd => (some.inj hd).symm) (fun t ht => ?_) (fun _ _ _ => rfl)
    (fun _ => rfl) ?_
  · rw [hprev] at ht
    cases ht
  · rintro m ⟨⟩
    exact ⟨F, hidle⟩

/-! ## Taking the next task -/

theorem lowestBit_some {b : BitVec 32} {p : Nat} (h : lowestBit b = some p) : b.getLsbD p = true :=
  find?_some h

theorem lowestBit_none {b : BitVec 32} (h : lowestBit b = none) : b = 0 := by
  refine BitVec.eq_of_getLsbD_eq fun p hp => ?_
  have := find?_eq_none.1 h p (by simpa [prioLevels] using hp)
  simpa using this

theorem Arr.eq_or_other (a b : Arr) : a = b ∨ a = b.other := by
  cases a <;> cases b <;> simp [Arr.other]

theorem Same.swapArrays : Same s (swapArrays s) := by
  simp only [Sched.swapArrays]
  split
  · exact Same.of_rfl rfl rfl rfl rfl rfl rfl rfl
  · exact Same.refl s

/-- After the swap the active array is empty only when both are. -/
theorem swapArrays_empty
    (h : ((swapArrays s).rq.arrays (swapArrays s).rq.active).bitmap = 0) (a : Arr) :
    ((swapArrays s).rq.arrays a).bitmap = 0 := by
  have key : (s.rq.arrays s.rq.active).bitmap = 0 ∧ (s.rq.arrays s.rq.active.other).bitmap = 0 := by
    simp only [swapArrays] at h
    split at h
    · next hsw => exact ⟨hsw.resolve_right fun hst => hst.1 h, h⟩
    · next hsw => exact absurd (.inl h) hsw
  rw [Same.swapArrays.arrays]
  rcases Arr.eq_or_other a s.rq.active with rfl | rfl
  · exact key.1
  · exact key.2

/-- `s'` is what `ready_pop` made of `s`, answering `pick`. -/
structure Popped (s : Sys) (pick : Option Tid) (s' : Sys) : Prop extends Kept s s' where
  linked : ∀ t, s'.linked t → s.linked t
  state : ∀ t, pick ≠ some t → s'.state t = s.state t
  taken : ∀ t, pick = some t →
    s.state t = .ready ∧ s.linked t ∧ s'.state t = .running ∧ ¬s'.linked t

theorem Same.linked (h : Same s s') : s'.linked t ↔ s.linked t := by
  rw [Sys.linked, Sys.linked, h.node]

theorem Queued.head_of_bit {q : RunQueue} {L : Arr → Nat → List Tid} (h : Queued q L)
    {a : Arr} {p : Nat} (hb : (q.arrays a).bitmap.getLsbD p = true) :
    ∃ t, (q.arrays a).head p = some t ∧ (q.node t).array = some a := by
  obtain ⟨t, l, hl⟩ := exists_cons_of_ne_nil ((h.bit a p).1 hb)
  refine ⟨t, ?_, h.array_of_mem (hl ▸ by simp : t ∈ L a p)⟩
  rw [(h.linked a p).head_eq, hl, head?_cons]

/-- One turn of the loop of `ready_pop`: nothing is left, or a queued task is taken
out. -/
theorem readyPop_succ (h : Inv s x) (fuel : Nat) :
    (readyPop s (fuel + 1) = (none, swapArrays s) ∧ ∀ t, ¬s.linked t) ∨
    ∃ t, s.linked t ∧ readyPop s (fuel + 1) = if s.state t = .ready then
        (some t, (rqDequeue (swapArrays s) t).setState t .running)
      else readyPop (rqDequeue (swapArrays s) t) fuel := by
  have hsw : Same s (swapArrays s) := Same.swapArrays
  obtain ⟨L, hL⟩ := (h.of_same hsw).queued
  simp only [readyPop]
  cases hb : lowestBit ((swapArrays s).rq.arrays (swapArrays s).rq.active).bitmap with
  | none =>
    refine .inl ⟨rfl, fun t hl => ?_⟩
    rw [← hsw.linked, Sys.linked, ne_none_iff_exists'] at hl
    obtain ⟨a, ha⟩ := hl
    have hbit := (hL.bit a _).2 (ne_nil_of_mem (hL.mem_of_array ha))
    rw [swapArrays_empty (lowestBit_none hb) a] at hbit
    simp at hbit
  | some p =>
    obtain ⟨t, ht, ha⟩ := hL.head_of_bit (lowestBit_some hb)
    refine .inr ⟨t, hsw.linked.1 (by simp [Sys.linked, ha]), ?_⟩
    simp only [ht]
    have : (rqDequeue (swapArrays s) t).state t = s.state t := hsw.state t
    rw [this]

theorem Popped.of_same (h : Same s s') : Popped s none s' where
  toKept := h.toKept
  linked _ hu := h.linked.1 hu
  state u _ := h.state u
  taken u hu := by cases hu

theorem Kept.dequeue : Kept s (rqDequeue s t) :=
  ⟨fun _ => rfl, fun _ => rfl, fun _ => rfl, fun _ => rfl, fun _ => rfl, fun _ => rfl, rfl,
    rfl, rfl⟩

theorem Inv.drop (h : Inv s x) (hr : s.state t ≠ .ready) : Inv (rqDequeue (swapArrays s) t) x ∧
      Popped s none (rqDequeue (swapArrays s) t) := by
  have hsw : Same s (swapArrays s) := Same.swapArrays
  refine ⟨(h.of_same hsw).dequeue fun hst => absurd (hsw.state t ▸ hst) hr, ?_⟩
  exact {
    toKept := hsw.toKept.trans Kept.dequeue
    linked := fun u hu => hsw.linked.1 (linked_rqDequeue.1 hu).2
    state := fun u _ => hsw.state u
    taken := fun u hu => by cases hu }

theorem Inv.take (h : Inv s x) (ht : s.linked t) (hr : s.state t = .ready) :
    Inv ((rqDequeue (swapArrays s) t).setState t .running) x ∧
      Popped s (some t) ((rqDequeue (swapArrays s) t).setState t .running) := by
  have hsw : Same s (swapArrays s) := Same.swapArrays
  have hall : t ∈ (swapArrays s).all := hsw.all ▸ (h.linked_task t ht).1
  have hrun : Inv ((swapArrays s).setState t .running) x := (h.of_same hsw).setRest hall rfl
  have hout : ∀ {u}, ((rqDequeue (swapArrays s) t).setState t .running).linked u ↔
      u ≠ t ∧ (swapArrays s).linked u := linked_rqDequeue
  refine ⟨hrun.dequeue fun hst => ?_, ?_⟩
  · simp at hst
  · exact {
      toKept := (hsw.toKept.trans Kept.dequeue).trans Kept.setState
      linked := fun u hu => hsw.linked.1 (hout.1 hu).2
      state := fun u hu => by
        have hne : u ≠ t := fun heq => hu (by rw [heq])
        rw [setState_state, if_neg hne]
        exact hsw.state u
      taken := fun u hu => by
        cases hu
        exact ⟨hr, ht, by simp, fun hl => (hout.1 hl).1 rfl⟩ }

theorem Popped.after {pick : Option Tid} (h : Popped s none s')
    (h' : Popped s' pick s'') : Popped s pick s'' where
  toKept := h.toKept.trans h'.toKept
  linked t ht := h.linked t (h'.linked t ht)
  state t ht := (h'.state t ht).trans (h.state t (by simp))
  taken t ht := by
    obtain ⟨h1, h2, h3⟩ := h'.taken t ht
    exact ⟨h.state t (by simp) ▸ h1, h.linked t h2, h3⟩

/-- `ready_pop` keeps the invariant, and whom it takes was ready and queued. -/
theorem Inv.pop (h : Inv s x) (fuel : Nat) :
    Inv (readyPop s fuel).2 x ∧ Popped s (readyPop s fuel).1 (readyPop s fuel).2 := by
  induction fuel generalizing s with
  | zero => exact ⟨h, Popped.of_same (Same.refl s)⟩
  | succ fuel ih =>
    rcases readyPop_succ h fuel with ⟨heq, hnone⟩ | ⟨t, ht, heq⟩
    · rw [heq]
      exact ⟨h.of_same Same.swapArrays, Popped.of_same Same.swapArrays⟩
    rw [heq]
    split
    · next hr => exact h.take ht hr
    rename_i hr
    obtain ⟨h1, h2⟩ := h.drop hr
    exact ⟨(ih h1).1, h2.after (ih h1).2⟩

/-- How many tasks are queued. -/
def Sys.queueLength (s : Sys) : Nat := s.all.countP fun t => (s.rq.node t).array.isSome

theorem countP_lt {α : Type*} {p q : α → Bool} {l : List α} {a : α}
    (h : ∀ x, q x = true → p x = true) (ha : a ∈ l) (hp : p a = true) (hq : q a = false) :
    l.countP q < l.countP p := by
  obtain ⟨l₁, l₂, rfl⟩ := append_of_mem ha
  have h1 : l₁.countP q ≤ l₁.countP p := countP_mono_left fun x _ => h x
  have h2 : l₂.countP q ≤ l₂.countP p := countP_mono_left fun x _ => h x
  rw [countP_append, countP_append, countP_cons_of_pos hp, countP_cons_of_neg (by simp [hq])]
  omega

/-- With a turn for every queued task `ready_pop` answers nothing only when the queue
is empty. -/
theorem Inv.pop_none (h : Inv s x) {fuel : Nat}
    (hfuel : s.queueLength < fuel) (hnone : (readyPop s fuel).1 = none) (t : Tid) :
    ¬(readyPop s fuel).2.linked t := by
  induction fuel generalizing s with
  | zero => omega
  | succ fuel ih =>
    rcases readyPop_succ h fuel with ⟨heq, hempty⟩ | ⟨u, hu, heq⟩
    · rw [heq]
      exact fun hl => hempty t (Same.swapArrays.linked.1 hl)
    rw [heq] at hnone ⊢
    split at hnone
    · cases hnone
    rename_i hr
    rw [if_neg hr]
    refine ih (h.drop hr).1 ?_ hnone
    have hall : (rqDequeue (swapArrays s) u).all = s.all := Same.swapArrays.all
    have hlt : (rqDequeue (swapArrays s) u).queueLength < s.queueLength := by
      rw [Sys.queueLength, hall]
      refine countP_lt (fun y hy => ?_) (h.linked_task u hu).1 ?_ ?_
      · rw [isSome_iff_ne_none] at hy ⊢
        exact Same.swapArrays.linked.1 (linked_rqDequeue.1 hy).2
      · rw [isSome_iff_ne_none]
        exact hu
      · simp [rqDequeue, dequeue_array]
    omega

/-! ## Switching -/

theorem Inv.weaken (h : Inv s none) (c : Nat) : Inv s (some c) :=
  { h with linked_current := fun d t _ => h.linked_current d t (by simp) }

/-- A CPU that executes its current task's code, with nobody else at that task. -/
theorem Inv.own (h : Inv s x)
    (hc : (s.cpus c).current = some t) (hph : (s.cpus c).phase.isPicked = false)
    (hable : s.able c = true) : Own s t where
  unpicked d hd := by
    have := h.picked_current d c t hd hc
    rw [hph] at this
    cases this
  unburied b hb := by
    simp only [Sys.able, hb, decide_eq_true_eq] at hable
    exact hable.2 hc

theorem yielding_phase (h : s.yielding c = true) :
    s.able c = true ∧ (s.cpus c).phase.isPicked = false ∧ (s.cpus c).phase ≠ .returns := by
  simp only [Sys.yielding, Bool.and_eq_true, decide_eq_true_eq] at h
  refine ⟨h.1, ?_⟩
  rcases h.2 with h | h <;> simp [h, Phase.isPicked]

/-- `s'` is `s` with the current task `prev` back in line. -/
structure Requeued (s : Sys) (prev : Tid) (s' : Sys) : Prop extends Kept s s' where
  state : ∀ t, t ≠ prev → s'.state t = s.state t
  prev_state : s'.state prev = if s.state prev = .running then .ready else s.state prev
  linked : ∀ t, t ≠ prev → (s'.linked t ↔ s.linked t)

theorem requeued (s : Sys) (c : Nat) (prev : Tid) : Requeued s prev (requeue s c prev) := by
  have h1 : Same s (s.setCpu c { s.cpus c with needResched := false }) :=
    Same.setCpu rfl rfl rfl rfl
  simp only [requeue]
  generalize s.setCpu c { s.cpus c with needResched := false } = s₁ at h1
  have h2 : Requeued s prev (if s₁.state prev = .running then s₁.setState prev .ready else s₁) := by
    split
    · rename_i hrun
      exact {
        toKept := h1.toKept.trans Kept.setState
        state := fun t ht => by
          rw [setState_state, if_neg ht, h1.state]
        prev_state := by
          rw [setState_state, if_pos rfl, if_pos (h1.state prev ▸ hrun)]
        linked := fun t _ => h1.linked }
    · rename_i hrun
      exact {
        toKept := h1.toKept
        state := fun t _ => h1.state t
        prev_state := by rw [← h1.state prev, if_neg hrun]
        linked := fun t _ => h1.linked }
  generalize (if s₁.state prev = .running then s₁.setState prev .ready else s₁) = s₂ at h2
  split
  · exact {
      toKept := h2.toKept.trans (Kept.enqueue s₂ c prev)
      state := fun t ht => rqEnqueue_state.trans (h2.state t ht)
      prev_state := rqEnqueue_state.trans h2.prev_state
      linked := fun t ht => by
        rw [linked_rqEnqueue, ← h2.linked t ht]
        exact or_iff_left fun hh => ht hh.1 }
  · exact h2

theorem Inv.requeued (h : Inv s none) (hc : (s.cpus c).current = some prev) (hown : Own s prev) :
    Inv (requeue s c prev) (some c) := by
  have h1 : Same s (s.setCpu c { s.cpus c with needResched := false }) :=
    Same.setCpu rfl rfl rfl rfl
  have i1 := (h.of_same h1).weaken c
  simp only [requeue]
  generalize s.setCpu c { s.cpus c with needResched := false } = s₁ at h1 i1
  have hall : prev ∈ s.all := h.mem_of_held (.inl hc)
  obtain ⟨s₂, hs₂, hk, i2⟩ : ∃ s₂, (if s₁.state prev = .running then s₁.setState prev .ready
      else s₁) = s₂ ∧ Kept s s₂ ∧ Inv s₂ (some c) := by
    refine ⟨_, rfl, ?_⟩
    split
    · refine ⟨h1.toKept.trans Kept.setState,
        i1.setState (h1.all ▸ hall) (fun _ _ => ?_) fun _ _ => .inr ?_⟩
      · exact ⟨fun d hd => hown.unpicked d (h1.phase d ▸ hd),
          fun b hb => hown.unburied b (h1.burying ▸ hb)⟩
      · rw [h1.onCpu]
        exact h.held c prev (.inl hc)
    · exact ⟨h1.toKept, i1⟩
  rw [hs₂]
  split
  · refine i2.enqueue (hk.all ▸ hall) (fun _ d hd => hown.unpicked d (hk.phase d ▸ hd)) ?_
    intro d hd hcur
    -- no other CPU has it for its current task
    rw [hk.current] at hcur
    exact absurd (congrArg some (h.one c d prev (.inl hc) (.inl hcur))) hd
  · exact i2

theorem Sys.queueLength_le : s.queueLength ≤ s.all.length := countP_le_length

/-- `sched_next_context` up to where it drops the lock. -/
theorem Inv.nextContext (h : Inv s none)
    (hc : (s.cpus c).current = some prev) (hy : s.yielding c = true) :
    Inv (schedNextContext s c prev) none := by
  obtain ⟨hable, hph, hret⟩ := yielding_phase hy
  have i1 := h.requeued hc (h.own hc hph hable)
  have k1 := Sched.requeued s c prev
  simp only [schedNextContext]
  generalize requeue s c prev = s₁ at i1 k1
  obtain ⟨i2, k2⟩ := i1.pop (s₁.all.length + 1)
  have hempty := i1.pop_none (Nat.lt_succ_of_le Sys.queueLength_le)
  generalize readyPop s₁ (s₁.all.length + 1) = popped at i2 k2 hempty
  obtain ⟨pick, s₂⟩ := popped
  have hk : Kept s s₂ := k1.toKept.trans k2.toKept
  have hc₂ : (s₂.cpus c).current = some prev := (hk.current c).trans hc
  have hph₂ : (s₂.cpus c).phase.isPicked = false := hk.phase c ▸ hph
  have hprev₂ : (s₂.cpus c).prevTask = none := by
    by_contra hp
    obtain ⟨u, hu⟩ := ne_none_iff_exists'.1 hp
    exact hret (h.prev_returns c u (hk.prevTask c ▸ hu))
  -- it stays with `prev`, which is out of the queue again
  have hstay : ¬s₂.linked prev → Inv (stayOrPick s₂ c prev prev) none := by
    intro hout
    obtain ⟨s₃, hs₃, i3, k3, hrq⟩ : ∃ s₃, (if s₂.state prev = .ready
        then s₂.setState prev .running else s₂) = s₃ ∧ Inv s₃ (some c) ∧ Kept s₂ s₃ ∧
        s₃.rq = s₂.rq := by
      refine ⟨_, rfl, ?_⟩
      split
      · exact ⟨i2.setRest (i2.mem_of_held (.inl hc₂)) rfl, Kept.setState, rfl⟩
      · exact ⟨i2, Kept.refl s₂, rfl⟩
    simp only [stayOrPick, hs₃]
    refine i3.stays (fun d hd => (some.inj hd).symm) rfl ?_ ?_ fun _ _ => rfl
    · rw [k3.phase]
      exact hph₂
    · intro u hu hl
      rw [k3.current, hc₂] at hu
      cases hu
      rw [Sys.linked, hrq] at hl
      exact hout hl
  cases pick with
  | some n =>
    obtain ⟨-, hl, hrun, hout⟩ := k2.taken n rfl
    simp only [nextTask]
    by_cases hn : n = prev
    · subst hn
      exact hstay hout
    rw [stayOrPick, if_neg hn]
    refine i2.setPicked ⟨hout, fun _ => by rw [hrun]; rfl, ?_, ?_, ?_, by simp [hc₂]⟩ ?_ hprev₂
    · exact fun d _ hd => i1.picked_out d n (k2.phase d ▸ hd) hl
    · intro d hd
      by_cases hdc : d = c
      · rw [hdc, hc₂] at hd
        exact absurd (some.inj hd).symm hn
      · rw [k2.phase]
        exact i1.linked_current d n (fun heq => hdc (some.inj heq).symm) hl (k2.current d ▸ hd)
    · exact k2.all ▸ (i1.linked_task n hl).1
    · intro hi
      rw [k2.idle, (i1.linked_task n hl).2] at hi
      cases hi
  | none =>
    have hout := hempty rfl
    simp only [nextTask]
    cases hit : (s₂.cpus c).idleTask with
    | none => exact hstay (hout prev)
    | some i =>
      dsimp only
      split
      · rename_i hgo
        rw [stayOrPick, if_neg (Ne.symm hgo.2)]
        have hidle := i2.idle_task c i hit
        refine i2.setPicked ⟨hout i, fun hf => ?_, ?_, ?_, hidle.2, by simp [hc₂]⟩
          (fun _ => hit) hprev₂
        · rw [hidle.1] at hf
          cases hf
        · exact fun d hdc hd => hdc (i2.idle_one d c i (i2.idle_own d i (.inr hd) hidle.1) hit)
        · intro d hd
          have hd' := i2.idle_own d i (.inl (.inl hd)) hidle.1
          rw [i2.idle_one d c i hd' hit, hc₂] at hd
          exact absurd (some.inj hd) hgo.2
      · exact hstay (hout prev)

/-- `sched_switch_task`, once the task's last CPU is done with it. -/
theorem Inv.switchTask (h : Inv s none) {n : Tid}
    (hph : (s.cpus c).phase = .picked n) (hon : (s.tasks n).onCpu = false) :
    Inv (schedSwitchTask s c n) none := by
  have hnh : ∀ d, ¬s.holds d n := fun d hd => by
    rw [h.held d n hd] at hon
    cases hon
  have hprev : (s.cpus c).prevTask = none := by
    by_contra hp
    obtain ⟨u, hu⟩ := ne_none_iff_exists'.1 hp
    have := h.prev_returns c u hu
    rw [hph] at this
    cases this
  have hself : (schedSwitchTask s c n).cpus c = { s.cpus c with
      prevTask := (s.cpus c).current, current := some n, phase := .returns } := by
    simp [schedSwitchTask]
  have hother : ∀ {d}, d ≠ c → (schedSwitchTask s c n).cpus d = s.cpus d := fun hd => by
    simp [schedSwitchTask, hd]
  have hon' : ∀ u, ((schedSwitchTask s c n).tasks u).onCpu =
      if u = n then true else (s.tasks u).onCpu := fun u => by
    simp only [schedSwitchTask, setTask_tasks]
    split <;> rfl
  have hst' : ∀ u, (schedSwitchTask s c n).state u =
      if u = n then .running else s.state u := fun u => by
    simp only [schedSwitchTask, Sys.state, setTask_tasks]
    split <;> rfl
  have hid' : ∀ u, ((schedSwitchTask s c n).tasks u).idle = (s.tasks u).idle :=
    fun _ => setTask_field Task.idle rfl
  have hholds : ∀ {u}, (schedSwitchTask s c n).holds c u → u = n ∨ u ≠ n ∧ s.holds c u := by
    intro u hu
    rw [Sys.holds, hself] at hu
    rcases hu with hu | hu
    · exact .inl (some.inj hu).symm
    · exact .inr ⟨fun heq => hnh c (heq ▸ .inl hu), .inl hu⟩
  refine h.touched (by simp) {
    cpu := fun d => hother
    idle := hid'
    all := rfl
    dead := rfl
    burying := rfl
    state := fun u => ?_
    onCpu := fun u => ?_
    linked := fun u => .inl
    queued := h.queued
    ready := fun u hu hi => ?_
    holder := fun u hu hi => ?_ } {
    held := fun u hu => ?_
    one := fun d u hdc hu hd => ?_
    apart := fun u hu hp => ?_
    prev_returns := fun u _ => by rw [hself]
    prev_from := fun u _ => by simp [hself]
    linked := fun u hl hu => ?_
    picked := fun m hm => by
      rw [hself] at hm
      cases hm
    picked_current := fun d m hdc hm hu => ?_
    idle_task := fun i hi => ?_
    idle_one := fun d i hdc hi hd => ?_
    idle_own := fun u hu hi => ?_
    has_idle := fun u hu => ?_
    idle_starts := fun i hi => by
      rw [hself] at hi
      cases hi }
  · rw [hst']
    split
    · next hu => exact .inr ⟨hu ▸ h.picked_all c n hph, rfl⟩
    · exact .inl rfl
  · rw [hon']
    split
    · rename_i hu
      subst hu
      refine .inr ⟨h.picked_all c u hph, fun d hdc => ⟨hnh d, fun hd => hdc ?_⟩⟩
      exact h.idle_one d c u hd (h.idle_own c u (.inr hph) (h.idle_task d u hd).1)
    · exact .inl rfl
  · rw [hst'] at hu
    rw [hon']
    split at hu
    · cases hu
    rename_i hne
    rw [if_neg hne]
    exact h.ready u hu (hid' u ▸ hi)
  · rw [hon'] at hu
    split at hu
    · rename_i hun
      refine ⟨c, .inl ?_⟩
      rw [hself, hun]
    obtain ⟨d, hd⟩ := h.holder u hu (hid' u ▸ hi)
    refine ⟨d, ?_⟩
    by_cases hdc : d = c
    · subst hdc
      rw [Sys.holds, hself]
      refine .inr (hd.resolve_right ?_)
      rw [hprev]
      simp
    · rw [Sys.holds, hother hdc]
      exact hd
  · rw [hon']
    rcases hholds hu with rfl | ⟨hne, hu⟩
    · rw [if_pos rfl]
    · rw [if_neg hne]
      exact h.held c u hu
  · rw [Sys.holds, hother hdc] at hd
    rcases hholds hu with rfl | ⟨-, hu⟩
    · exact hnh d hd
    · exact hdc (h.one d c u hd hu)
  · rw [hself] at hu hp
    cases hu
    exact hnh c (.inl hp)
  · rw [hself] at hu
    cases hu
    exact absurd hl (h.picked_out c n hph)
  · rw [hother hdc] at hm
    rw [hself] at hu
    cases hu
    exact absurd (h.picked_one d c n hm hph) hdc
  · rw [hself] at hi
    rw [hid']
    exact h.idle_task c i hi
  · rw [hself] at hi
    rw [hother hdc] at hd
    exact hdc (h.idle_one d c i hd hi)
  · rw [hid'] at hi
    rw [hself] at hu ⊢
    rcases hu with hu | hu
    · rcases hholds hu with rfl | ⟨-, hu⟩
      · exact h.idle_own c u (.inr hph) hi
      · exact h.idle_own c u (.inl hu) hi
    · cases hu
  · rw [hself]
    obtain ⟨w, hw⟩ := ne_none_iff_exists'.1 (h.picked_from c n hph)
    exact h.has_idle c w hw

/-- CPU `c` lets go of the task it switched away from, which goes into the queue if
it is ready. -/
theorem Inv.release {f : Sys} (h : Inv s none)
    (hph : (s.cpus c).phase = .returns) (hprev : (s.cpus c).prevTask = some prev)
    (hk : Kept (letGo s c prev) f) (hcpu : ∀ d, d ≠ c → f.cpus d = s.cpus d)
    (hst : ∀ u, f.state u = s.state u) (hq : ∃ L, Queued f.rq L)
    (hl : ∀ u, f.linked u ↔
      s.linked u ∨ (u = prev ∧ s.state prev = .ready ∧ (s.tasks prev).idle = false)) :
    Inv f none := by
  have hself : (letGo s c prev).cpus c = { s.cpus c with prevTask := none, phase := .leaves } := by
    simp [letGo]
  have hcur : (f.cpus c).current = (s.cpus c).current := by rw [hk.current, hself]
  have hpt : (f.cpus c).prevTask = none := by rw [hk.prevTask, hself]
  have hidt : (f.cpus c).idleTask = (s.cpus c).idleTask := by rw [hk.idleTask, hself]
  have hphase : (f.cpus c).phase = .leaves := by rw [hk.phase, hself]
  have hid : ∀ u, (f.tasks u).idle = (s.tasks u).idle := fun u =>
    (hk.idle u).trans (setTask_field Task.idle rfl)
  have hon : ∀ u, (f.tasks u).onCpu = if u = prev then false else (s.tasks u).onCpu := fun u => by
    rw [hk.onCpu, letGo, setTask_tasks]
    split <;> rfl
  have hc : s.holds c prev := .inr hprev
  have hmem := h.mem_of_held hc
  have hmine : ∀ d, d ≠ c → ¬s.holds d prev := fun d hdc hd => hdc (h.one d c prev hd hc)
  have hholds : ∀ {u}, f.holds c u → (s.cpus c).current = some u := by
    intro u hu
    rw [Sys.holds, hcur, hpt] at hu
    exact hu.resolve_right (by simp)
  refine h.touched (by simp) {
    cpu := hcpu
    idle := hid
    all := hk.all
    dead := hk.dead
    burying := hk.burying
    state := fun u => .inl (hst u)
    onCpu := fun u => ?_
    linked := fun u hu => ?_
    queued := hq
    ready := fun u hu hi => ?_
    holder := fun u hu hi => ?_ } {
    held := fun u hu => ?_
    one := fun d u hdc hu hd => ?_
    apart := by simp [hpt]
    prev_returns := by simp [hpt]
    prev_from := by simp [hpt]
    linked := fun u hu huc => ?_
    picked := by simp [hphase]
    picked_current := fun d m hdc hm hu => ?_
    idle_task := fun i hi => ?_
    idle_one := fun d i hdc hi hd => ?_
    idle_own := fun u hu hi => ?_
    has_idle := fun u hu => ?_
    idle_starts := fun i hi => absurd (hcur ▸ hi) (h.prev_from c prev hprev) }
  · rw [hon]
    split
    · rename_i hu
      subst hu
      refine .inr ⟨hmem, fun d hdc => ⟨hmine d hdc, fun hd => hdc ?_⟩⟩
      exact h.idle_one d c u hd (h.idle_own c u (.inl hc) (h.idle_task d u hd).1)
    · exact .inl rfl
  · rcases (hl u).1 hu with hu | ⟨rfl, hr, hi⟩
    · exact .inl hu
    refine .inr ⟨hmem, hi, fun d hdc => ⟨hmine d hdc, fun hd => ?_⟩⟩
    have := h.picked_state d u hd hi
    rw [hr] at this
    cases this
  · rw [hst] at hu
    rw [hid] at hi
    rw [hl, hon]
    by_cases hup : u = prev
    · subst hup
      exact .inl (.inr ⟨rfl, hu, hi⟩)
    · rw [if_neg hup]
      exact (h.ready u hu hi).imp_left .inl
  · rw [hon] at hu
    split at hu
    · cases hu
    rename_i hup
    obtain ⟨d, hd⟩ := h.holder u hu (hid u ▸ hi)
    refine ⟨d, ?_⟩
    by_cases hdc : d = c
    · subst hdc
      refine .inl (hcur.trans (hd.resolve_right fun hd' => ?_))
      rw [hprev] at hd'
      exact hup (some.inj hd').symm
    · rw [Sys.holds, hcpu d hdc]
      exact hd
  · have hu := hholds hu
    have hne : u ≠ prev := fun heq => h.apart c u hu (heq ▸ hprev)
    rw [hon, if_neg hne]
    exact h.held c u (.inl hu)
  · rw [Sys.holds, hcpu d hdc] at hd
    exact hdc (h.one d c u hd (.inl (hholds hu)))
  · rw [hcur] at huc
    rcases (hl u).1 hu with hu | ⟨rfl, -⟩
    · have := h.linked_current c u (by simp) hu huc
      rw [hph] at this
      cases this
    · exact absurd hprev (h.apart c u huc)
  · have := h.picked_current d c m (hcpu d hdc ▸ hm) (hcur ▸ hu)
    rw [hph] at this
    cases this
  · rw [hid, hk.all]
    exact h.idle_task c i (hidt ▸ hi)
  · exact hdc (h.idle_one d c i (hcpu d hdc ▸ hd) (hidt ▸ hi))
  · rw [hidt]
    rcases hu with hu | hu
    · exact h.idle_own c u (.inl (.inl (hholds hu))) (hid u ▸ hi)
    · rw [hphase] at hu
      cases hu
  · rw [hidt]
    exact h.has_idle c u (hcur ▸ hu)

/-- The section of `sched_return`. -/
theorem Inv.schedReturn (h : Inv s none)
    (hph : (s.cpus c).phase = .returns) : Inv (schedReturn s c) none := by
  simp only [Sched.schedReturn]
  cases hprev : (s.cpus c).prevTask with
  | none =>
    refine h.stays (by simp) rfl (by rw [hph]; rfl) (fun t ht hl => ?_) fun t ht => ?_
    · have := h.linked_current c t (by simp) hl ht
      rw [hph] at this
      cases this
    · rw [hprev] at ht
      cases ht
  | some prev =>
    dsimp only
    have hother : ∀ d, d ≠ c → (letGo s c prev).cpus d = s.cpus d := fun d hd => by
      simp [letGo, hd]
    have hst : ∀ u, (letGo s c prev).state u = s.state u := fun _ => setTask_field Task.state rfl
    have hid : ((letGo s c prev).tasks prev).idle = (s.tasks prev).idle :=
      setTask_field Task.idle rfl
    split
    · rename_i hr
      refine h.release hph hprev (Kept.enqueue _ c prev)
        (fun d hd => (rqEnqueue_cpus hd).trans (hother d hd))
        (fun u => rqEnqueue_state.trans (hst u)) (queued_rqEnqueue h.queued) fun u => ?_
      have hready : s.state prev = .ready := hst prev ▸ hr.1
      rw [linked_rqEnqueue, hid]
      simp only [hready, true_and]
      rfl
    · rename_i hr
      refine h.release hph hprev (Kept.refl _) hother hst h.queued fun u => ?_
      rw [hst] at hr
      refine ⟨.inl, ?_⟩
      rintro (hl | ⟨rfl, hst, -⟩)
      · exact hl
      · exact fun hn => hr ⟨hst, hn⟩

/-! ## The other calls -/

/-- A task that is neither running nor gone is at no CPU that picked it or marks it
dead. -/
theorem Inv.own_of_due (h : Inv s x)
    (hdue : (s.state t).due = true) (hi : (s.tasks t).idle = false) : Own s t where
  unpicked d hd := by
    have := h.picked_state d t hd hi
    rw [hdue] at this
    cases this
  unburied b hb := by
    have := (h.bury b t hb).1
    rw [hdue] at this
    cases this

theorem rqEnqueue_setState : rqEnqueue (s.setState t st) c t = (rqEnqueue s c t).setState t st := by
  have hself : (s.setState t st).tasks t = { s.tasks t with state := st } := by
    rw [Sys.setState, setTask_self]
  have hwants : wantsResched (s.setState t st) c (taskPrio (s.tasks t)) =
      wantsResched s c (taskPrio (s.tasks t)) := by
    simp only [wantsResched, setState_cpus]
    split
    · rfl
    rename_i cur _
    by_cases hcur : cur = t
    · subst hcur
      rw [hself]
      rfl
    · rw [Sys.setState, setTask_tasks, if_neg hcur]
  have hprio : taskPrio { s.tasks t with state := st } = taskPrio (s.tasks t) := rfl
  have hidle : Task.idle { s.tasks t with state := st } = (s.tasks t).idle := rfl
  simp only [rqEnqueue, enqueueTurn, setState_rq, hself, hprio, hidle, hwants]
  split
  · rfl
  split
  · simp [Sys.setState, Sys.setTask]
    rfl
  · simp [Sys.setState, Sys.setTask, Sys.setCpu]

/-- A task made ready that was blocked or stopped: the CPU that holds it will queue it,
and if none does it is queued now. -/
theorem Inv.makeReady (h : Inv s none) (c : Nat)
    (hdue : (s.state t).due = true) : Inv (makeReady s c t) none := by
  have hall : t ∈ s.all := h.mem_of_state fun hf => by
    rw [hf] at hdue
    cases hdue
  simp only [Sched.makeReady, setState_onCpu]
  split
  · next hon => exact h.setState hall (fun _ => h.own_of_due hdue) fun _ _ => .inr hon
  rename_i hon
  -- as if it were queued first
  rw [rqEnqueue_setState]
  have hk := Kept.enqueue s c t
  have hown : (s.tasks t).idle = false → Own (rqEnqueue s c t) t := fun hi =>
    ⟨fun d hd => (h.own_of_due hdue hi).unpicked d (hk.phase d ▸ hd),
      fun b hb => (h.own_of_due hdue hi).unburied b (hk.burying ▸ hb)⟩
  have hq : Inv (rqEnqueue s c t) none := h.enqueue hall (fun hi => (h.own_of_due hdue hi).unpicked)
      fun d _ hd => absurd (h.held d t (.inl hd)) hon
  refine hq.setState (hk.all ▸ hall) (fun _ hi => hown (hk.idle t ▸ hi)) fun _ hi => .inl ?_
  exact linked_rqEnqueue.2 (.inr ⟨rfl, hk.idle t ▸ hi⟩)

end BleedKernel.Sched
