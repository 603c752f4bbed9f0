import BleedKernel.Proofs.SignalSteps

/-!
# A stopped task

A task stops itself: it writes `TASK_STOPPED` and gives its CPU away. From then on
none of its own code runs, so whether it stays stopped is up to what others do to
it. `Away` says that a step did nothing that would bring it back. Every step is so
except the sending of a signal: `signal_send` ends in `sched_continue_task` for every
signal and not only for `SIGCONT` and `SIGKILL`.
-/

namespace BleedKernel.Sched

open BleedKernel.Lib

variable {st : TaskState} {s s' : Sys} {t u : Tid} {task : Task} {c sig : Nat} {ph : Phase}
  {back : Back}

/-- The states of a task that is not to be run. -/
def TaskState.down : TaskState → Bool
  | .stopped | .zombie | .dead | .free => true
  | _ => false

theorem down_of_gone (h : st.gone = true) : st.down = true := by
  cases st <;> first | rfl | cases h

theorem gone_of_down (h : st.down = true) (hs : st ≠ .stopped) : st.gone = true := by
  cases st <;> first | rfl | exact absurd rfl hs | cases h

/-- The step from `s` to `s'` does not bring `t` back. -/
structure Away (t : Tid) (s s' : Sys) : Prop where
  state : (s.state t).down = true → (s'.state t).down = true
  gone : (s.state t).gone = true → (s'.state t).gone = true
  idle : (s.tasks t).idle = false → (s'.tasks t).idle = false
  known : t ∈ s.all → t ∈ s'.all
  cpu : ∀ d, (s'.cpus d).current = some t →
    ((s.cpus d).current = some t ∧ (s'.cpus d).phase = (s.cpus d).phase) ∨
      (s'.cpus d).phase.isPicked = true
  picked : ∀ d, (s'.cpus d).phase = .picked t → (s.cpus d).phase = .picked t

/-- `t` is not to be run, and no CPU is about to. -/
structure Down (s : Sys) (t : Tid) : Prop where
  inv : Inv s none
  state : (s.state t).down = true
  idle : (s.tasks t).idle = false
  known : t ∈ s.all
  cpu : ∀ c, (s.cpus c).current = some t →
    (s.cpus c).phase = .yields ∨ (s.cpus c).phase.isPicked = true
  unpicked : ∀ c, (s.cpus c).phase ≠ .picked t

theorem Down.away (h : Down s t) (ha : Away t s s') (hi : Inv s' none) : Down s' t where
  inv := hi
  state := ha.state h.state
  idle := ha.idle h.idle
  known := ha.known h.known
  cpu c hc := by
    rcases ha.cpu c hc with ⟨hc', hph⟩ | hp
    · rw [hph]
      exact h.cpu c hc'
    · exact .inr hp
  unpicked c hc := h.unpicked c (ha.picked c hc)

theorem Away.refl (t : Tid) (s : Sys) : Away t s s :=
  ⟨id, id, id, id, fun _ h => .inl ⟨h, rfl⟩, fun _ h => h⟩

theorem Away.trans {s'' : Sys} (h : Away t s s') (h' : Away t s' s'') : Away t s s'' where
  state hs := h'.state (h.state hs)
  gone hs := h'.gone (h.gone hs)
  idle hi := h'.idle (h.idle hi)
  known hk := h'.known (h.known hk)
  cpu d hd := by
    rcases h'.cpu d hd with ⟨hd', hph⟩ | hp
    · rcases h.cpu d hd' with ⟨hd'', hph'⟩ | hp
      · exact .inl ⟨hd'', hph.trans hph'⟩
      · exact .inr (hph ▸ hp)
    · exact .inr hp
  picked d hd := h.picked d (h'.picked d hd)

theorem Away.of_kept (h : Kept s s') (hst : s'.state t = s.state t) : Away t s s' where
  state hs := hst ▸ hs
  gone hs := hst ▸ hs
  idle hi := (h.idle t).trans hi
  known hk := h.all ▸ hk
  cpu d hd := .inl ⟨h.current d ▸ hd, h.phase d⟩
  picked d hd := h.phase d ▸ hd

theorem Away.of_same (h : Same s s') : Away t s s' := Away.of_kept h.toKept (h.state t)

theorem Away.setTask (hu : u ≠ t) : Away t s (s.setTask u task) := by
  have htask : (s.setTask u task).tasks t = s.tasks t := by
    rw [setTask_tasks, if_neg (Ne.symm hu)]
  have hst : (s.setTask u task).state t = s.state t := congrArg Task.state htask
  exact ⟨fun hs => hst ▸ hs, fun hs => hst ▸ hs, fun hi => htask ▸ hi, id,
    fun _ h => .inl ⟨h, rfl⟩, fun _ h => h⟩

theorem Away.setState (h : u = t → st.gone = true) : Away t s (s.setState u st) where
  state hs := by
    rw [setState_state]
    split
    · next hu => exact down_of_gone (h hu.symm)
    · exact hs
  gone hs := by
    rw [setState_state]
    split
    · next hu => exact h hu.symm
    · exact hs
  idle hi := setState_idle.trans hi
  known hk := hk
  cpu _ hd := .inl ⟨hd, rfl⟩
  picked _ hd := hd

theorem Away.setPhase
    (hc : (s.cpus c).current = some t → ph.isPicked = true) (hph : ph ≠ .picked t) :
    Away t s (s.setPhase c ph) where
  state hs := hs
  gone hs := hs
  idle hi := hi
  known hk := hk
  cpu d hd := by
    rw [setPhase_current] at hd
    rw [setPhase_phase]
    split
    · next hdc => exact .inr (hc (hdc ▸ hd))
    · exact .inl ⟨hd, rfl⟩
  picked d hd := by
    rw [setPhase_phase] at hd
    split at hd
    · exact absurd hd hph
    · exact hd

/-- A CPU that stays with another task. -/
theorem Away.stay (hc : (s.cpus c).current = some u) (hu : u ≠ t) (hph : ph.isPicked = false) :
    Away t s (s.setPhase c ph) := by
  refine Away.setPhase (fun hct => ?_) fun heq => ?_
  · exact absurd (Option.mem_unique hc hct) hu
  · rw [heq] at hph
    cases hph

/-! ## What CPUs do by themselves -/

theorem Down.ne (h : Down s t) (hst : st.down = false) : s.state t ≠ st := fun heq => by
  have hdown := h.state
  rw [heq, hst] at hdown
  cases hdown

/-- The current task of a CPU that executes code is another. -/
theorem Down.other (h : Down s t) (hr : Runs s c u) : u ≠ t := by
  rintro rfl
  rcases h.cpu c hr.current with hph | hph
  · exact hr.yields hph
  · rw [hr.unpicked] at hph
    cases hph

/-- A CPU whose current task is down leaves it, and none goes on to one. -/
theorem Down.nextContext (h : Down s t) {prev : Tid}
    (hc : (s.cpus c).current = some prev) (hy : s.yielding c = true) :
    Away t s (schedNextContext s c prev) := by
  obtain ⟨hable, hph, hret⟩ := yielding_phase hy
  have i1 := h.inv.requeued hc (h.inv.own hc hph hable)
  have k1 := requeued s c prev
  simp only [schedNextContext]
  generalize requeue s c prev = s₁ at i1 k1
  have hst₁ : s₁.state t = s.state t := by
    by_cases ht : t = prev
    · subst ht
      rw [k1.prev_state, if_neg (h.ne rfl)]
    · exact k1.state t ht
  obtain ⟨i2, k2⟩ := i1.pop (s₁.all.length + 1)
  generalize readyPop s₁ (s₁.all.length + 1) = popped at i2 k2
  obtain ⟨pick, s₂⟩ := popped
  have hpick : pick ≠ some t := fun hp => h.ne rfl (hst₁ ▸ (k2.taken t hp).1)
  have hst₂ : s₂.state t = s.state t := (k2.state t hpick).trans hst₁
  have hk : Kept s s₂ := k1.toKept.trans k2.toKept
  have hc₂ : (s₂.cpus c).current = some prev := (hk.current c).trans hc
  -- the next task is not `t`, and if the current one is it is not the next
  have hnext : nextTask s₂ c prev pick ≠ t := by
    cases hp : pick with
    | some n => exact fun hn => hpick (hp.trans (congrArg some hn))
    | none =>
      simp only [nextTask]
      obtain ⟨i, hi⟩ := Option.ne_none_iff_exists'.1 (i2.has_idle c prev hc₂)
      rw [hi]
      have hit : i ≠ t := by
        rintro rfl
        have := (i2.idle_task c i hi).1
        rw [hk.idle, h.idle] at this
        cases this
      dsimp only
      split
      · exact hit
      rename_i hstay
      rintro rfl
      exact hstay ⟨hst₂ ▸ h.ne rfl, Ne.symm hit⟩
  refine (Away.of_kept hk hst₂).trans ?_
  simp only [stayOrPick]
  split
  · rename_i heq
    have hpt : prev ≠ t := heq ▸ hnext
    refine Away.trans ?_ (Away.stay ?_ hpt rfl)
    · split
      · exact Away.setState fun hp => absurd hp hpt
      · exact Away.refl t s₂
    · split <;> exact hc₂
  · exact Away.setPhase (fun _ => rfl) fun heq => hnext (by cases heq; rfl)

theorem Down.switchTask (h : Down s t) {n : Tid}
    (hph : (s.cpus c).phase = .picked n) : Away t s (schedSwitchTask s c n) := by
  have hnt : n ≠ t := fun heq => h.unpicked c (heq ▸ hph)
  refine Away.trans ?_ (Away.setTask hnt)
  refine ⟨id, id, id, id, fun d hd => ?_, fun d hd => ?_⟩
  · rw [setCpu_cpus] at hd ⊢
    split at hd
    · exact absurd (Option.some.inj hd) hnt
    · next hdc => exact .inl ⟨hd, by rw [if_neg hdc]⟩
  · rw [setCpu_cpus] at hd
    split at hd
    · cases hd
    · exact hd

/-- `TASK_STOPPED` is not `TASK_READY`, so the CPU that lets go of the task does not
queue it. -/
theorem Down.schedReturn (h : Down s t)
    (hph : (s.cpus c).phase = .returns) : Away t s (schedReturn s c) := by
  have hct : (s.cpus c).current ≠ some t := fun hc => by
    rcases h.cpu c hc with hy | hp
    · rw [hph] at hy
      cases hy
    · rw [hph] at hp
      cases hp
  simp only [Sched.schedReturn]
  split
  · exact Away.setPhase (fun hc => absurd hc hct) (by simp)
  rename_i prev hprev
  have hgo : Away t s (letGo s c prev) := by
    have hst : (letGo s c prev).state t = s.state t := setTask_field Task.state rfl
    have hid : ((letGo s c prev).tasks t).idle = (s.tasks t).idle := setTask_field Task.idle rfl
    refine ⟨fun hs => hst ▸ hs, fun hs => hst ▸ hs, hid.trans, id, fun d hd => ?_, fun d hd => ?_⟩
    · simp only [letGo, setTask_cpus, setCpu_cpus] at hd ⊢
      split at hd
      · exact absurd hd hct
      · next hdc => exact .inl ⟨hd, by rw [if_neg hdc]⟩
    · simp only [letGo, setTask_cpus, setCpu_cpus] at hd
      split at hd
      · cases hd
      · exact hd
  split
  · exact hgo.trans (Away.of_kept (Kept.enqueue _ c prev) rqEnqueue_state)
  · exact hgo

/-! ## Tasks that come and go -/

theorem Away.enlist (hu : u ≠ t) : Away t s (s.enlist u task) := by
  have h : Away t s (s.setTask u task) := Away.setTask hu
  exact { h with known := List.mem_cons_of_mem _ }

theorem Away.createIdle (hu : u ≠ t) (c : Nat) : Away t s (schedCreateIdleTask s c u) := by
  refine (Away.enlist hu).trans ⟨id, id, id, id, fun d hd => ?_, fun d hd => ?_⟩
  · simp only [schedCreateIdleTask, setCpu_cpus] at hd ⊢
    split at hd
    · next hdc => exact .inl ⟨hdc ▸ hd, by rw [if_pos hdc, hdc]⟩
    · next hdc => exact .inl ⟨hd, by rw [if_neg hdc]⟩
  · simp only [schedCreateIdleTask, setCpu_cpus] at hd
    split at hd
    · next hdc => exact hdc ▸ hd
    · exact hd

theorem Down.apIdle (h : Down s t) {i : Tid} (hi : (s.cpus c).idleTask = some i) :
    Away t s (s.setCpu c { s.cpus c with current := some i, phase := .runs }) := by
  refine ⟨id, id, id, id, fun d hd => ?_, fun d hd => ?_⟩
  · rw [setCpu_cpus] at hd ⊢
    split at hd
    · have hidle := (h.inv.idle_task c i hi).1
      rw [Option.some.inj hd, h.idle] at hidle
      cases hidle
    · next hdc => exact .inl ⟨hd, by rw [if_neg hdc]⟩
  · rw [setCpu_cpus] at hd
    split at hd
    · cases hd
    · exact hd

theorem Away.reap : Away t s (schedulerReap s) := by
  simp only [schedulerReap]
  split
  · exact Away.refl t s
  split
  · exact ⟨id, id, id, id, fun _ hd => .inl ⟨hd, rfl⟩, fun _ hd => hd⟩
  refine ⟨fun hs => ?_, fun hs => ?_, fun hi => ?_, id, fun _ hd => .inl ⟨hd, rfl⟩, fun _ hd => hd⟩
  · simp only [Sys.state, setTask_tasks]
    split
    · rfl
    · exact hs
  · simp only [Sys.state, setTask_tasks]
    split
    · rfl
    · exact hs
  · simp only [setTask_tasks]
    split
    · rfl
    · exact hi

/-! ## Wakeups and signals -/

theorem Away.makeReady (hu : u ≠ t) (c : Nat) : Away t s (makeReady s c u) := by
  have h : Away t s (s.setState u .ready) := Away.setState fun heq => absurd heq hu
  simp only [Sched.makeReady]
  split
  · exact h
  · exact h.trans (Away.of_kept (Kept.enqueue _ c u) rqEnqueue_state)

/-- The step sends `t` one of the two signals that continue it. -/
def continues (s : Sys) (t : Tid) (a : Act) : Prop :=
  sentTo s t a = some SIGCONT ∨ sentTo s t a = some SIGKILL

instance (s : Sys) (t : Tid) (a : Act) : Decidable (continues s t a) :=
  inferInstanceAs (Decidable (_ ∨ _))

/-- The step does not send `t`, if it is stopped, any other signal. -/
def spares (t : Tid) (s : Sys) (a : Act) : Prop :=
  s.state t = .stopped → sentTo s t a ≠ none → continues s t a

instance (t : Tid) (s : Sys) (a : Act) : Decidable (spares t s a) :=
  inferInstanceAs (Decidable (_ → _))

/-! ## Every step -/

theorem Down.moves (h : Down s t) {a : Act} (hs : spares t s a) (hc : ¬continues s t a)
    (m : Moves s a s') : Away t s s' := by
  have hd : ∀ {s'}, Moves s a s' → Away t s s' → Down s' t := fun m ha => h.away ha (m.inv h.inv)
  induction m with
  | start => exact Away.refl t s
  | count _ ih => exact ih.trans (Away.of_same (Same.of_rfl rfl rfl rfl rfl rfl rfl rfl))
  | write _ hst hon hid _ ih => exact ih.trans (Away.of_same (Same.setTask hst hon hid))
  | own m hr _ _ _ _ ih => exact ih.trans (Away.setTask ((hd m ih).other hr))
  | block m hr ih =>
    exact (ih.trans (Away.of_kept Kept.dequeue rfl)).trans
      (Away.setState fun heq => absurd heq ((hd m ih).other hr))
  | stay m hr hph ih => exact ih.trans (Away.stay hr.current ((hd m ih).other hr) hph)
  | next m hc hy ih => exact ih.trans ((hd m ih).nextContext hc hy)
  | switch m hph _ ih => exact ih.trans ((hd m ih).switchTask hph)
  | ret m hph ih => exact ih.trans ((hd m ih).schedReturn hph)
  | @ready s' u m c hst ih =>
    refine ih.trans (Away.makeReady (fun heq => ?_) c)
    subst heq
    rcases hst with hst | ⟨hst, hsent⟩
    · exact (hd m ih).ne rfl hst
    -- it was stopped before the step, since a task that is gone is not stopped by it
    have hst₀ : s.state u = .stopped := by
      by_contra hn
      have hgone := ih.gone (gone_of_down h.state hn)
      rw [hst] at hgone
      cases hgone
    exact hc (hs hst₀ hsent)
  | enlist m hu _ _ _ ih => exact ih.trans (Away.enlist fun heq => hu (heq ▸ (hd m ih).known))
  | @createIdle s' c u m hu _ ih =>
    have hut : u ≠ t := fun heq => hu (heq ▸ (hd m ih).known)
    exact ih.trans (Away.createIdle hut c)
  | apIdle m _ hi ih => exact ih.trans ((hd m ih).apIdle hi)
  | zombie _ _ ih => exact ih.trans (Away.setState fun _ => rfl)
  | @markDead s' c u _ _ ih =>
    simp only [schedMarkTaskDead]
    split
    · exact ih
    · have ha : Away t s' (s'.setState u .dead) := Away.setState fun _ => rfl
      exact ih.trans { ha with }
  | bury _ _ ih => exact ih.trans ⟨id, id, id, id, fun _ hd => .inl ⟨hd, rfl⟩, fun _ hd => hd⟩
  | reap _ ih => exact ih.trans Away.reap

theorem Down.step (h : Down s t) {a : Act} (hs : spares t s a)
    (hc : ¬continues s t a) : Away t s (step s a) := by
  have e := step_ends s a
  generalize Sched.step s a = s' at e
  cases e with
  | moves m => exact h.moves hs hc m
  | stops m hr _ _ _ _ _ =>
    have ha := h.moves hs hc m
    have hu := (h.away ha (m.inv h.inv)).other hr
    exact (ha.trans (Away.setTask hu)).trans (Away.stay hr.current hu rfl)

/-! ## Who stops a task

Only the delivery of a signal does, to the task it is delivered to. -/

theorem NoStop.enlist (h : task.state ≠ .stopped) : NoStop s (s.enlist t task) :=
  (NoStop.setTask fun hst => absurd hst h).trans fun _ hu => hu

theorem NoStop.reap : NoStop s (schedulerReap s) := by
  simp only [schedulerReap]
  split
  · exact NoStop.refl s
  split
  · exact fun _ hu => hu
  rename_i t rest _ _
  have h : NoStop s ((rqDequeue s t).setTask t {}) := NoStop.setTask fun hst => by cases hst
  exact h

theorem Moves.noStop {a : Act} (m : Moves s a s') : NoStop s s' := by
  induction m with
  | start => exact NoStop.refl s
  | count _ ih => exact ih
  | write _ hst _ _ _ ih => exact ih.trans (NoStop.setTask fun hbad => hst ▸ hbad)
  | own _ _ hst _ _ _ ih => exact ih.trans (NoStop.setTask fun hbad => absurd hbad hst)
  | block _ _ ih => exact ih.trans (Calm.dequeue.trans (Calm.setState (by simp))).noStop
  | stay _ _ _ ih => exact ih.trans Calm.setPhase.noStop
  | next _ _ _ ih => exact ih.trans Calm.nextContext.noStop
  | switch _ _ _ ih => exact ih.trans Calm.switchTask.noStop
  | ret _ _ ih => exact ih.trans Calm.schedReturn.noStop
  | ready _ _ _ ih => exact ih.trans Calm.makeReady.noStop
  | enlist _ _ hst _ _ ih => exact ih.trans (NoStop.enlist (by simp [hst]))
  | createIdle _ _ _ ih => exact (ih.trans (NoStop.enlist (by simp))).trans Calm.setCpu.noStop
  | apIdle _ _ _ ih => exact ih.trans Calm.setCpu.noStop
  | zombie _ _ ih => exact ih.trans (Calm.setState (by simp)).noStop
  | @markDead s' c u _ _ ih =>
    simp only [schedMarkTaskDead]
    split
    · exact ih
    · exact ih.trans (Calm.setState (by simp)).noStop
  | bury _ _ ih => exact ih
  | reap _ ih => exact ih.trans NoStop.reap

/-- `t` is stopped by delivery on a CPU that is about to give its turn away. -/
theorem Down.stopped (h : Inv s none) (hst : s.state t = .stopped) (hi : (s.tasks t).idle = false)
    (hc : (s.cpus c).current = some t) (hph : (s.cpus c).phase = .yields) : Down s t where
  inv := h
  state := by
    rw [hst]
    rfl
  idle := hi
  known := h.mem_of_held (.inl hc)
  cpu d hd := .inl (h.one d c t (.inl hd) (.inl hc) ▸ hph)
  unpicked d hd := by
    have hdue := h.picked_state d t hd hi
    rw [hst] at hdue
    cases hdue

/-- Whatever stops a task leaves it down. -/
theorem Down.of_stop (h : Inv s none) {a : Act}
    (hn : s.state t ≠ .stopped) (hst : (Sched.step s a).state t = .stopped) :
    Down (Sched.step s a) t := by
  have e := step_ends s a
  generalize Sched.step s a = s' at e hst
  cases e with
  | moves m => exact absurd (m.noStop t hst) hn
  | @stops s' c u task m hr hi hstop hon hid hsig =>
    by_cases htu : t = u
    · subst htu
      refine Down.stopped ((Ends.stops m hr hi hstop hon hid hsig).inv h) hst ?_
        (setPhase_current.trans hr.current) (by rw [setPhase_phase, if_pos rfl])
      rw [setPhase_tasks, setTask_tasks, if_pos rfl, hid]
      exact hi
    · rw [setPhase_state, Sys.state, setTask_tasks, if_neg htu] at hst
      exact absurd (m.noStop t hst) hn

/-! ## From a stop to the signal that ends it -/

/-- Once a task is stopped, and as long as no signal but `SIGCONT` and `SIGKILL` is sent
to it while it is, it is not made ready and executes no user code before one of the two
is. -/
theorem stopped_stays_stopped (before after : List Act) (a : Act) (t : Tid)
    (hn : (run step Sys.boot before).state t ≠ .stopped)
    (hst : (step (run step Sys.boot before) a).state t = .stopped)
    (hother : Meets step (spares t) (step (run step Sys.boot before) a) after)
    (huntil : ¬Sometime step (fun s b => continues s t b)
      (step (run step Sys.boot before) a) after) :
    let s := run step (step (run step Sys.boot before) a) after
    s.state t ≠ .ready ∧ s.state t ≠ .running ∧ ∀ c, s.runsIn c true ≠ some t := by
  have hd : Down (step (run step Sys.boot before) a) t := Down.of_stop (inv_run before) hn hst
  have h := run_inv (I := fun s => Down s t)
    (fun s b h hc => h.away (h.step hc.1 hc.2) (h.inv.step b)) hd
    (hother.and (Meets.of_not_sometime huntil))
  exact ⟨h.ne rfl, h.ne rfl, fun c hc => h.other (runs_of_runsIn hc) rfl⟩

/-- A task of a user program is sent `SIGSTOP` and comes to stop when its turn comes. -/
def toStop : List Act :=
  [.create 0 2 prioDefault true true, .send 0 2 SIGSTOP, .schedYield 0, .yieldHandle 0,
    .switchTask 0, .schedReturn 0]

theorem stopped_stays_stopped_switch :
    let s := run step (step (run step Sys.boot toStop) (.returnDeliver 0 {}))
      [.wake 0 2, .yieldHandle 0, .switchTask 0, .schedReturn 0]
    s.state 2 ≠ .ready ∧ s.state 2 ≠ .running ∧ ∀ c, s.runsIn c true ≠ some 2 :=
  stopped_stays_stopped toStop [.wake 0 2, .yieldHandle 0, .switchTask 0, .schedReturn 0]
    (.returnDeliver 0 {}) 2 (by decide +kernel) (by decide +kernel)
    ⟨by decide +kernel, by decide +kernel, by decide +kernel, by decide +kernel, trivial⟩
    (by decide +kernel)

/-- `SIGCHLD`, which is ignored, makes the stopped task ready, and it goes on in user
mode. -/
theorem stopped_task_runs_on_sigchld :
    let s := step (run step Sys.boot toStop) (.returnDeliver 0 {})
    let after : List Act := [.send 0 2 SIGCHLD]
    let resumed : List Act := [.yieldHandle 0, .schedReturn 0, .returnDeliver 0 {}, .stopOver 0]
    s.state 2 = .stopped ∧ (run step s after).state 2 = .ready ∧
      ¬Sometime step (fun s b => continues s 2 b) s (after ++ resumed) ∧
      (run step s (after ++ resumed)).runsIn 0 true = some 2 := by
  decide +kernel

end BleedKernel.Sched
