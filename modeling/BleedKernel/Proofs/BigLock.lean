import BleedKernel.Lib.Run
import BleedKernel.Lib.Tickets
import BleedKernel.Model.Bkl

/-!
# Who has the big kernel lock

A CPU stands in the queue for the lock from its `fetch_add` until it has stored the
next ticket to serve. Only the first of the queue gets past the loop of `bkl_lock`, so
only the first can have `bkl_held` set. What a CPU runs says whether it has it set:
kernel code does, user code and the idle loop do not. `bkl_resume` sees to that, also
after a switch away from a context that ran under the other rule.
-/

namespace BleedKernel.Bkl

open BleedKernel.Lib Cpu List

variable {n : Nat} {s : Sys n} {c : Fin n} {cpu : Cpu} {k : Locker} {T G : List (Fin n)}

/-! ## Where a CPU stands -/

/-- What `bkl_held` has to be there, if that is fixed. -/
def Pc.held : Pc → Option Bool
  | .runs .kernel | .unlockClear _ => some true
  | .runs _ | .lockTake _ | .lockSpin _ | .lockSet _ | .unlockLoad _ | .unlockStore _ _ =>
    some false
  | _ => none

/-- Past its `fetch_add` and not at `bkl_held` yet. -/
def Pc.waits : Pc → Bool
  | .lockSpin _ | .lockSet _ => true
  | _ => false

/-- Has cleared `bkl_held`, and not stored the next ticket yet. -/
def Pc.lets : Pc → Bool
  | .unlockLoad _ | .unlockStore _ _ => true
  | _ => false

/-- Has got the lock and not passed it on. -/
def Cpu.granted (cpu : Cpu) : Bool := cpu.held || cpu.pc.lets

/-- Stands in the queue. -/
def Cpu.queued (cpu : Cpu) : Bool := cpu.granted || cpu.pc.waits

/-- Has seen its ticket served. -/
def Cpu.passed (cpu : Cpu) : Prop := cpu.granted = true ∨ ∃ k, cpu.pc = .lockSet k

/-- `bkl_held` is as the place in the code says, and what was loaded is the ticket served. -/
structure Cpu.Ok (serving : BitVec 32) (cpu : Cpu) : Prop where
  held : ∀ b, cpu.pc.held = some b → cpu.held = b
  store : ∀ k v, cpu.pc = .unlockStore k v → v = serving

/-! ## The invariant -/

/-- `q` is the queue. `takes` and `grants` are the CPUs that took a ticket and got the
lock so far, and those in `done` are through. -/
structure Order (s : Sys n) (takes grants : List (Fin n)) (done q : List (Fin n)) : Prop where
  tickets : Tickets s.serving s.next (fun c => (s.cpus c).ticket) q
  mem : ∀ c, c ∈ q ↔ (s.cpus c).queued = true
  first : ∀ c, (s.cpus c).passed → q.head? = some c
  ok : ∀ c, (s.cpus c).Ok s.serving
  took : takes = done ++ q
  got : grants = done ++ q.filter fun c => (s.cpus c).granted

/-- There is a queue that accounts for all tickets. -/
def Inv (s : Sys n) (takes grants : List (Fin n)) : Prop :=
  ∃ done q, Order s takes grants done q

theorem setCpu_cpus {d : Fin n} : (s.setCpu c cpu).cpus d = if d = c then cpu else s.cpus d :=
  Function.update_apply _ _ _ _

/-- A CPU goes elsewhere and is where it was as far as the queue is concerned. -/
theorem Order.setCpu {done q : List (Fin n)} (h : Order s T G done q)
    (ht : cpu.ticket = (s.cpus c).ticket) (hq : cpu.queued = (s.cpus c).queued)
    (hg : cpu.granted = (s.cpus c).granted) (hp : cpu.passed → q.head? = some c)
    (hok : cpu.Ok s.serving) : Order (s.setCpu c cpu) T G done q where
  tickets := h.tickets.congr fun d _ => by
    rw [setCpu_cpus]
    split
    · next hd => rw [ht, hd]
    · rfl
  mem d := by
    rw [setCpu_cpus]
    split
    · next hd => rw [hq, hd]; exact h.mem c
    · exact h.mem d
  first d hd := by
    rw [setCpu_cpus] at hd
    split at hd
    · next hdc => exact hdc ▸ hp hd
    · exact h.first d hd
  ok d := by
    rw [setCpu_cpus]
    split
    · exact hok
    · exact h.ok d
  took := h.took
  got := by
    rw [h.got]
    congr 1
    refine filter_congr fun d _ => ?_
    rw [setCpu_cpus]
    split
    · next hd => rw [hg, hd]
    · rfl

/-- It goes where the queue does not matter. -/
theorem Inv.goto (h : Inv s T G) {pc : Pc} (hw : pc.waits = false) (hl : pc.lets = false)
    (hcw : (s.cpus c).pc.waits = false) (hcl : (s.cpus c).pc.lets = false)
    (hh : ∀ b, pc.held = some b → (s.cpus c).held = b) : Inv (s.goto c pc) T G := by
  obtain ⟨done, q, ho⟩ := h
  refine ⟨done, q, ho.setCpu rfl ?_ ?_ (fun hp => ?_) ⟨hh, fun k v hk => ?_⟩⟩
  · simp only [queued, granted, hw, hl, hcw, hcl]
  · simp only [granted, hl, hcl]
  · refine ho.first c (hp.imp (fun hg => ?_) ?_)
    · simpa only [granted, hl, hcl] using hg
    · rintro ⟨k, hk⟩
      rw [show pc = .lockSet k from hk] at hw
      cases hw
  · rw [show pc = .unlockStore k v from hk] at hl
    cases hl

/-! ## The steps of `bkl_lock` -/

theorem granted_passed (h : cpu.granted = true) : cpu.passed := .inl h

theorem Locker.next_plain (k : Locker) :
    k.next.waits = false ∧ k.next.lets = false ∧ ∀ b, k.next.held = some b → b = true := by
  cases k <;> simp [Locker.next, Pc.waits, Pc.lets, Pc.held]

theorem Unlocker.next_plain (k : Unlocker) :
    k.next.waits = false ∧ k.next.lets = false ∧ ∀ b, k.next.held = some b → b = false := by
  cases k <;> simp [Unlocker.next, Pc.waits, Pc.lets, Pc.held]

/-- A CPU that has passed is the first, and only the first has got the lock. -/
theorem Order.split {done q : List (Fin n)} (h : Order s T G done q) (hc : (s.cpus c).passed) :
    ∃ q', q = c :: q' ∧ c ∉ q' ∧ ∀ d ∈ q', (s.cpus d).granted = false := by
  obtain ⟨q', rfl⟩ := head?_eq_some_iff.1 (h.first c hc)
  have hn := (nodup_cons.1 h.tickets.nodup).1
  refine ⟨q', rfl, hn, fun d hd => Bool.eq_false_iff.2 fun hg => ?_⟩
  have := h.first d (granted_passed hg)
  rw [head?_cons, Option.some.injEq] at this
  exact hn (this ▸ hd)

theorem Inv.take (h : Inv s T G) (hpc : (s.cpus c).pc = .lockTake k) :
    Inv (bklStep s c) (T ++ [c]) G := by
  obtain ⟨done, q, ho⟩ := h
  have hheld : (s.cpus c).held = false := (ho.ok c).held _ (by rw [hpc]; rfl)
  have hcq : c ∉ q := by
    rw [ho.mem, queued, granted, hheld, hpc]
    simp [Pc.lets, Pc.waits]
  let cpu : Cpu := { s.cpus c with ticket := s.next, pc := .lockSpin k }
  have hstep : bklStep s c = { s with next := s.next + 1 }.setCpu c cpu := by
    simp only [bklStep, hpc, cpu]
  have hcpu : ∀ d, (bklStep s c).cpus d = if d = c then cpu else s.cpus d := fun d => by
    rw [hstep, setCpu_cpus]
  have hne : ∀ d ∈ q, d ≠ c := fun d hd heq => hcq (heq ▸ hd)
  have hother : ∀ d ∈ q, (bklStep s c).cpus d = s.cpus d := fun d hd => by
    rw [hcpu, if_neg (hne d hd)]
  have hself : (bklStep s c).cpus c = cpu := by rw [hcpu, if_pos rfl]
  have hgrant : cpu.granted = false := by simp [granted, cpu, hheld, Pc.lets]
  have hserv : (bklStep s c).serving = s.serving := by rw [hstep]; rfl
  have hnext : (bklStep s c).next = s.next + 1 := by rw [hstep]; rfl
  refine ⟨done, q ++ [c], ?_⟩
  constructor
  · rw [hserv, hnext]
    exact ho.tickets.join hcq (by rw [hself]) fun d hd => by rw [hother d hd]
  · intro d
    rw [mem_append, ho.mem, hcpu]
    split
    · next hd => simp [hd, queued, cpu, Pc.waits]
    · next hd => simp [hd]
  · intro d hd
    rw [hcpu] at hd
    split at hd
    · rcases hd with hd | ⟨k', hd⟩
      · rw [hgrant] at hd
        cases hd
      · cases hd
    · rw [head?_append, ho.first d hd]
      rfl
  · intro d
    rw [hcpu, hserv]
    split
    · refine ⟨fun b hb => ?_, fun k v hk => by cases hk⟩
      cases hb
      exact hheld
    · exact ho.ok d
  · rw [ho.took, append_assoc]
  · rw [ho.got, filter_append, filter_singleton, hself, hgrant]
    rw [cond_false, append_nil]
    congr 1
    exact filter_congr fun d hd => by rw [hother d hd]

/-- The test of the loop lets nobody through but the first. -/
theorem Inv.spin (hn : n < 2 ^ 32) (h : Inv s T G) (hpc : (s.cpus c).pc = .lockSpin k)
    (hserv : s.serving = (s.cpus c).ticket) :
    Inv (s.goto c (.lockSet k)) T G := by
  obtain ⟨done, q, ho⟩ := h
  have hheld : (s.cpus c).held = false := (ho.ok c).held _ (by rw [hpc]; rfl)
  have hcq : c ∈ q := by
    rw [ho.mem, queued, hpc]
    simp [Pc.waits]
  have hlen : q.length ≤ 2 ^ 32 := by
    have := ho.tickets.nodup.length_le_card
    rw [Fintype.card_fin] at this
    omega
  have hfirst := ho.tickets.first hlen hcq hserv.symm
  refine ⟨done, q, ho.setCpu rfl ?_ ?_ (fun _ => hfirst) ⟨fun b hb => ?_, fun _ _ hk => ?_⟩⟩
  · simp [queued, hpc, Pc.waits]
  · simp [granted, hpc, Pc.lets]
  · cases hb
    exact hheld
  · cases hk

theorem Inv.set (h : Inv s T G) (hpc : (s.cpus c).pc = .lockSet k) :
    Inv (bklStep s c) T (G ++ [c]) := by
  obtain ⟨done, q, ho⟩ := h
  have hheld : (s.cpus c).held = false := (ho.ok c).held _ (by rw [hpc]; rfl)
  obtain ⟨q', rfl, hcq, hrest⟩ := ho.split (.inr ⟨k, hpc⟩)
  have hnext := k.next_plain
  let cpu : Cpu := { s.cpus c with held := true, pc := k.next }
  have hstep : bklStep s c = s.setCpu c cpu := by simp only [bklStep, hpc, cpu]
  have hcpu : ∀ d, (bklStep s c).cpus d = if d = c then cpu else s.cpus d := fun d => by
    rw [hstep, setCpu_cpus]
  have hne : ∀ d ∈ q', d ≠ c := fun d hd heq => hcq (heq ▸ hd)
  have hother : ∀ d ∈ q', (bklStep s c).cpus d = s.cpus d := fun d hd => by
    rw [hcpu, if_neg (hne d hd)]
  have hself : (bklStep s c).cpus c = cpu := by rw [hcpu, if_pos rfl]
  have hserv : (bklStep s c).serving = s.serving := by rw [hstep]; rfl
  have hgrant : cpu.granted = true := by simp [granted, cpu]
  refine ⟨done, c :: q', ?_⟩
  constructor
  · rw [hstep]
    refine ho.tickets.congr fun d _ => ?_
    rw [setCpu_cpus]
    split
    · next hd => rw [hd]
    · rfl
  · intro d
    rw [ho.mem, hcpu]
    split
    · rename_i hd
      subst hd
      simp [queued, hpc, hgrant, Pc.waits]
    · rfl
  · intro d hd
    rw [hcpu] at hd
    split at hd
    · next hdc => rw [hdc, head?_cons]
    · exact ho.first d hd
  · intro d
    rw [hcpu, hserv]
    split
    · refine ⟨fun b hb => (hnext.2.2 b hb).symm, fun k' v hk => ?_⟩
      have hlets := hnext.2.1
      rw [show k.next = .unlockStore k' v from hk] at hlets
      cases hlets
    · exact ho.ok d
  · exact ho.took
  · have hcg : (s.cpus c).granted = false := by simp [granted, hheld, hpc, Pc.lets]
    have hnone : q'.filter (fun d => (s.cpus d).granted) = [] :=
      filter_eq_nil_iff.2 fun d hd => by simp [hrest d hd]
    have hnone' : q'.filter (fun d => ((bklStep s c).cpus d).granted) = [] :=
      filter_eq_nil_iff.2 fun d hd => by simp [hother d hd, hrest d hd]
    rw [ho.got, filter_cons_of_neg (by simp [hcg]), hnone,
      filter_cons_of_pos (by simp [hself, hgrant]), hnone', append_nil]

/-! ## The steps of `bkl_unlock` -/

theorem Inv.clear (h : Inv s T G) {k : Unlocker} (hpc : (s.cpus c).pc = .unlockClear k) :
    Inv (s.setCpu c { s.cpus c with held := false, pc := .unlockLoad k }) T G := by
  obtain ⟨done, q, ho⟩ := h
  have hheld : (s.cpus c).held = true := (ho.ok c).held _ (by rw [hpc]; rfl)
  have hgrant : (s.cpus c).granted = true := by simp [granted, hheld]
  refine ⟨done, q, ho.setCpu rfl ?_ ?_ (fun _ => ho.first c (granted_passed hgrant))
    ⟨fun b hb => ?_, fun _ _ hk => ?_⟩⟩
  · rw [queued, queued, hgrant]
    rfl
  · rw [hgrant]
    rfl
  · cases hb
    rfl
  · cases hk

theorem Inv.load (h : Inv s T G) {k : Unlocker} (hpc : (s.cpus c).pc = .unlockLoad k) :
    Inv (s.goto c (.unlockStore k s.serving)) T G := by
  obtain ⟨done, q, ho⟩ := h
  have hheld : (s.cpus c).held = false := (ho.ok c).held _ (by rw [hpc]; rfl)
  have hgrant : (s.cpus c).granted = true := by simp [granted, hpc, Pc.lets]
  refine ⟨done, q, ho.setCpu rfl ?_ ?_ (fun _ => ho.first c (granted_passed hgrant))
    ⟨fun b hb => ?_, fun k' v hk => ?_⟩⟩
  · simp [queued, granted, hpc, Pc.lets]
  · simp [granted, hpc, Pc.lets]
  · cases hb
    exact hheld
  · cases hk
    rfl

theorem Inv.store (h : Inv s T G) {k : Unlocker} {v : BitVec 32}
    (hpc : (s.cpus c).pc = .unlockStore k v) :
    Inv ({ s with serving := v + 1 }.goto c k.next) T G := by
  obtain ⟨done, q, ho⟩ := h
  have hheld : (s.cpus c).held = false := (ho.ok c).held _ (by rw [hpc]; rfl)
  have hgrant : (s.cpus c).granted = true := by simp [granted, hpc, Pc.lets]
  have hv : v = s.serving := (ho.ok c).store k v hpc
  subst hv
  obtain ⟨q', rfl, hcq, hrest⟩ := ho.split (granted_passed hgrant)
  have hnext := k.next_plain
  let s' : Sys n := { s with serving := s.serving + 1 }.goto c k.next
  let cpu : Cpu := { s.cpus c with pc := k.next }
  have hcpu : ∀ d, s'.cpus d = if d = c then cpu else s.cpus d := fun d => setCpu_cpus
  have hother : ∀ d, d ≠ c → s'.cpus d = s.cpus d := fun d hd => by rw [hcpu, if_neg hd]
  have hself : s'.cpus c = cpu := by rw [hcpu, if_pos rfl]
  have hne : ∀ d ∈ q', d ≠ c := fun d hd heq => hcq (heq ▸ hd)
  have hgone : cpu.granted = false := by simp [granted, cpu, hheld, hnext.2.1]
  -- nobody else has passed
  have hnot : ∀ d, d ≠ c → ¬(s.cpus d).passed := fun d hd hp => by
    have := ho.first d hp
    rw [head?_cons, Option.some.injEq] at this
    exact hd this.symm
  refine ⟨done ++ [c], q', ?_⟩
  show Order s' T G (done ++ [c]) q'
  constructor
  · exact ho.tickets.leave.congr fun d hd => by rw [hother d (hne d hd)]
  · intro d
    by_cases hd : d = c
    · subst hd
      rw [hself]
      simp [hcq, queued, hgone, cpu, hnext.1]
    · rw [hother d hd, ← ho.mem, mem_cons, or_iff_right hd]
  · intro d hd
    by_cases hdc : d = c
    · subst hdc
      rw [hself] at hd
      rcases hd with hd | ⟨k', hd⟩
      · rw [hgone] at hd
        cases hd
      · have hw := hnext.1
        rw [show k.next = .lockSet k' from hd] at hw
        cases hw
    · rw [hother d hdc] at hd
      exact absurd hd (hnot d hdc)
  · intro d
    by_cases hdc : d = c
    · subst hdc
      rw [hself]
      refine ⟨fun b hb => hheld.trans (hnext.2.2 b hb).symm, fun k' w hk => ?_⟩
      have hl := hnext.2.1
      rw [show k.next = .unlockStore k' w from hk] at hl
      cases hl
    · rw [hother d hdc]
      refine ⟨(ho.ok d).held, fun k' w hk => absurd (granted_passed ?_) (hnot d hdc)⟩
      simp [granted, hk, Pc.lets]
  · rw [ho.took, append_assoc]
    rfl
  · have hnone : ∀ (f : Fin n → Cpu), (∀ d ∈ q', f d = s.cpus d) →
        q'.filter (fun d => (f d).granted) = [] := fun f hf =>
      filter_eq_nil_iff.2 fun d hd => by simp [hf d hd, hrest d hd]
    rw [ho.got, filter_cons_of_pos (by rw [hgrant]), hnone _ fun _ _ => rfl,
      hnone _ fun d hd => hother d (hne d hd), append_nil]

/-! ## Runs -/

/-- The CPU that takes a ticket in a step. -/
def takes (s : Sys n) : Act n → List (Fin n)
  | .bkl c =>
    match (s.cpus c).pc with
    | .lockTake _ => [c]
    | _ => []
  | _ => []

/-- The CPU that gets the lock in a step. -/
def grants (s : Sys n) : Act n → List (Fin n)
  | .bkl c =>
    match (s.cpus c).pc with
    | .lockSet _ => [c]
    | _ => []
  | _ => []

theorem Inv.bkl (hn : n < 2 ^ 32) (h : Inv s T G)
    (c : Fin n) : Inv (bklStep s c) (T ++ takes s (.bkl c)) (G ++ grants s (.bkl c)) := by
  cases hpc : (s.cpus c).pc with
  | lockTake k =>
    simp only [takes, grants, hpc, append_nil]
    exact h.take hpc
  | lockSet k =>
    simp only [takes, grants, hpc, append_nil]
    exact h.set hpc
  | lockTest k =>
    simp only [takes, grants, bklStep, hpc, append_nil]
    split
    · rename_i hheld
      obtain ⟨hw, hl, hh⟩ := k.next_plain
      exact h.goto hw hl (by rw [hpc]; rfl) (by rw [hpc]; rfl) fun b hb =>
        hheld.trans (hh b hb).symm
    · rename_i hheld
      refine h.goto rfl rfl (by rw [hpc]; rfl) (by rw [hpc]; rfl) fun b hb => ?_
      cases hb
      exact Bool.eq_false_iff.2 hheld
  | lockSpin k =>
    simp only [takes, grants, bklStep, hpc, append_nil]
    split
    · next hserv => exact h.spin hn hpc hserv
    · exact h
  | unlockTest k =>
    simp only [takes, grants, bklStep, hpc, append_nil]
    split
    · rename_i hheld
      refine h.goto rfl rfl (by rw [hpc]; rfl) (by rw [hpc]; rfl) fun b hb => ?_
      cases hb
      exact hheld
    · rename_i hheld
      obtain ⟨hw, hl, hh⟩ := k.next_plain
      exact h.goto hw hl (by rw [hpc]; rfl) (by rw [hpc]; rfl) fun b hb =>
        (Bool.eq_false_iff.2 hheld).trans (hh b hb).symm
  | unlockClear k =>
    simp only [takes, grants, bklStep, hpc, append_nil]
    exact h.clear hpc
  | unlockLoad k =>
    simp only [takes, grants, bklStep, hpc, append_nil]
    exact h.load hpc
  | unlockStore k v =>
    simp only [takes, grants, bklStep, hpc, append_nil]
    exact h.store hpc
  | runs m | handles m | returns m =>
    simp only [takes, grants, bklStep, hpc, append_nil]
    exact h

/-- Outside the lock's own steps a CPU goes from one place to another where the queue
does not matter, and kernel code, user code and the idle loop are only entered from
within the lock. -/
theorem Inv.move (h : Inv s T G) {pc pc' : Pc}
    (hpc : (s.cpus c).pc = pc) (hpl : pc.waits = false ∧ pc.lets = false)
    (hpl' : pc'.waits = false ∧ pc'.lets = false ∧ pc'.held = none) :
    Inv (s.goto c pc') T G := by
  subst hpc
  refine h.goto hpl'.1 hpl'.2.1 hpl.1 hpl.2 fun b hb => ?_
  rw [hpl'.2.2] at hb
  cases hb

theorem bklResume_plain (m : Mode) :
    (bklResume m).waits = false ∧ (bklResume m).lets = false ∧ (bklResume m).held = none := by
  cases m <;> exact ⟨rfl, rfl, rfl⟩

theorem Inv.step (hn : n < 2 ^ 32) (h : Inv s T G)
    (a : Act n) : Inv (step s a) (T ++ takes s a) (G ++ grants s a) := by
  cases a with
  | bkl c => exact h.bkl hn c
  | syscall c | irq c | resched c | switch c m | leave c | schedIdle c =>
    simp only [takes, grants, Bkl.step, append_nil]
    split
    · next hpc => exact h.move hpc ⟨rfl, rfl⟩ ⟨rfl, rfl, rfl⟩
    · exact h
  | exception c | timer c =>
    simp only [takes, grants, Bkl.step, append_nil]
    split
    · next hpc => exact h.move hpc ⟨rfl, rfl⟩ ⟨rfl, rfl, rfl⟩
    · next hpc => exact h.move hpc ⟨rfl, rfl⟩ ⟨rfl, rfl, rfl⟩
    · exact h
  | schedReturn c signals =>
    simp only [takes, grants, Bkl.step, append_nil]
    split
    · rename_i m hpc
      split
      · exact h.move hpc ⟨rfl, rfl⟩ ⟨rfl, rfl, rfl⟩
      · exact h.move hpc ⟨rfl, rfl⟩ (bklResume_plain m)
    · exact h
  | delivered c =>
    simp only [takes, grants, Bkl.step, append_nil]
    split
    · next hpc => exact h.move hpc ⟨rfl, rfl⟩ (bklResume_plain .user)
    · exact h

theorem Inv.boot : Inv (Sys.boot n) [] [] := by
  have hcpu : ∀ c : Fin n, ((Sys.boot n).cpus c).held = false ∧
      ((Sys.boot n).cpus c).pc.waits = false ∧ ((Sys.boot n).cpus c).pc.lets = false ∧
      ∀ b, ((Sys.boot n).cpus c).pc.held = some b → b = false := by
    intro c
    simp only [Sys.boot]
    split <;> simp [Pc.waits, Pc.lets, Pc.held]
  have hgrant : ∀ c : Fin n, ((Sys.boot n).cpus c).granted = false := fun c => by
    simp [granted, hcpu c]
  refine ⟨[], [], Tickets.nil, fun c => ?_, fun c hc => ?_, fun c => ⟨fun b hb => ?_, ?_⟩, rfl, rfl⟩
  · simp [queued, hgrant c, hcpu c]
  · rcases hc with hc | ⟨k, hc⟩
    · rw [hgrant] at hc
      cases hc
    · have := (hcpu c).2.1
      rw [hc] at this
      cases this
  · exact (hcpu c).1.trans ((hcpu c).2.2.2 b hb).symm
  · intro k v hk
    have := (hcpu c).2.2.1
    rw [hk] at this
    cases this

theorem Inv.calls (hn : n < 2 ^ 32) (h : Inv s T G) (calls : List (Act n)) :
    Inv (run Bkl.step s calls) (T ++ trace Bkl.step takes s calls)
      (G ++ trace Bkl.step grants s calls) := by
  induction calls generalizing s T G with
  | nil =>
    simp only [trace, append_nil]
    exact h
  | cons a calls ih =>
    simp only [trace, ← append_assoc]
    exact ih (h.step hn a)

/-- Any number of CPUs below `2 ^ 32`, in any order of their steps: at most one has
`bkl_held` set, and holds the ticket that is served; the lock is granted in the order in
which tickets are taken; kernel code of a task runs with `bkl_held` set on its CPU, user
code and the idle loop without. -/
theorem big_kernel_lock (n : Nat) (hn : n < 2 ^ 32) (calls : List (Act n)) :
    let s := run step (Sys.boot n) calls
    (∀ c d, (s.cpus c).held = true → (s.cpus d).held = true → c = d) ∧
    (∀ c, (s.cpus c).held = true → s.serving = (s.cpus c).ticket) ∧
    trace step grants (Sys.boot n) calls <+: trace step takes (Sys.boot n) calls ∧
    (∀ c, (s.cpus c).pc = .runs .kernel → (s.cpus c).held = true) ∧
    ∀ c, (s.cpus c).pc = .runs .user ∨ (s.cpus c).pc = .runs .idle → (s.cpus c).held = false := by
  obtain ⟨done, q, h⟩ := Inv.boot.calls hn calls
  have hpassed : ∀ {c : Fin n}, ((run step (Sys.boot n) calls).cpus c).held = true →
      ((run step (Sys.boot n) calls).cpus c).passed := fun hc =>
    granted_passed (by simp [granted, hc])
  refine ⟨fun c d hc hd => ?_, fun c hc => ?_, ?_, fun c hc => ?_, fun c hc => ?_⟩
  · have := (h.first c (hpassed hc)).symm.trans (h.first d (hpassed hd))
    exact Option.some.inj this
  · exact (h.tickets.served (h.first c (hpassed hc))).symm
  · have htook := h.took
    have hgot := h.got
    rw [nil_append] at htook hgot
    rw [htook, hgot, prefix_append_right_inj]
    -- only the first has got it
    cases q with
    | nil => exact nil_prefix
    | cons c q =>
      by_cases hg : ((Lib.run step (Sys.boot n) calls).cpus c).granted = true
      · obtain ⟨q', heq, -, hrest⟩ := h.split (granted_passed hg)
        cases heq
        rw [filter_cons_of_pos (by rw [hg]), filter_eq_nil_iff.2 fun d hd => by simp [hrest d hd]]
        exact ⟨q, rfl⟩
      · have hnone : (c :: q).filter
            (fun d => ((Lib.run step (Sys.boot n) calls).cpus d).granted) = [] :=
          filter_eq_nil_iff.2 fun d _ hd => by
            have := h.first d (granted_passed hd)
            rw [head?_cons, Option.some.injEq] at this
            exact hg (this ▸ hd)
        rw [hnone]
        exact nil_prefix
  · exact (h.ok c).held _ (by rw [hc]; rfl)
  · rcases hc with hc | hc
    · exact (h.ok c).held _ (by rw [hc]; rfl)
    · exact (h.ok c).held _ (by rw [hc]; rfl)

/-- The kernel task takes the lock and is preempted; its context is picked by the second
CPU, which has no lock, while the first goes on in user mode. -/
theorem big_kernel_lock_switch :
    let calls : List (Act 2) := [.bkl 0, .bkl 0, .bkl 0, .bkl 0, .timer 1, .switch 1 .kernel,
      .schedReturn 1 false, .bkl 1, .bkl 1, .bkl 1, .resched 0, .switch 0 .user,
      .schedReturn 0 false, .bkl 0, .bkl 0, .bkl 0, .bkl 0, .bkl 1, .bkl 1]
    let s := run step (Sys.boot 2) calls
    (s.cpus 0).pc = .runs .user ∧ (s.cpus 1).pc = .runs .kernel ∧
      trace step grants (Sys.boot 2) calls = [0, 1] ∧
      (s.cpus 0).held = false ∧ s.serving = (s.cpus 1).ticket := by
  have h := big_kernel_lock 2 (by decide) [.bkl 0, .bkl 0, .bkl 0, .bkl 0, .timer 1,
    .switch 1 .kernel, .schedReturn 1 false, .bkl 1, .bkl 1, .bkl 1, .resched 0,
    .switch 0 .user, .schedReturn 0 false, .bkl 0, .bkl 0, .bkl 0, .bkl 0, .bkl 1, .bkl 1]
  exact ⟨by decide +kernel, by decide +kernel, by decide +kernel,
    h.2.2.2.2 0 (.inl (by decide +kernel)), h.2.1 1 (by decide +kernel)⟩

end BleedKernel.Bkl
