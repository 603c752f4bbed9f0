import BleedKernel.Proofs.Clone
import BleedKernel.Proofs.Unmap

/-!
# The processes and their address spaces

Every process has an address space of its own, and a number is used once. This
has nothing to do with what is mapped: it holds whatever the allocators say.
-/

namespace BleedKernel.Mm

open BleedKernel.Lib Function

/-! ## Address spaces come and go -/

section spaces

variable {pool slack lost own slots : Frame → Nat} {m : Memory}

theorem grows_clonePte (parent child : Cr3) (i : Nat) (w : CloneWalk) :
    Grows 2 w.m (clonePte parent child i w).2.m := by
  rcases clonePte_cases parent child i w with
    ⟨-, he⟩ | ⟨-, ⟨m1, hw, he⟩ | ⟨m1, b, m2, hw, hc, -, he⟩⟩
  · rw [he]; exact Grows.rfl'.mono (by omega)
  · have hg := Grows.of_quiet (pagingWalkPageTables_quiet w.m child i)
    rw [hw] at hg
    rw [he]; exact hg.mono (by omega)
  · have hg := Grows.of_quiet (pagingWalkPageTables_quiet w.m child i)
    rw [hw] at hg
    rw [he]
    cases hc with
    | device hn => exact (hg.trans .setPteAt).mono (by omega)
    | shared hn hs | cow hn hs hc => exact ((hg.trans .cowRefPage).trans .setPteAt).mono (by omega)
    | writable hn hs hc hw =>
      exact (((hg.trans .setPteAt).trans .cowRefPage).trans .cowRefPage).trans .setPteAt
    | full hn ha =>
      have ha' := Grows.alloc (m := m1)
      rw [ha] at ha'
      exact (hg.trans ha').mono (by omega)
    | readonly hn hs hc hw ha =>
      have ha' := Grows.alloc (m := m1)
      rw [ha] at ha'
      exact (((hg.trans ha').trans .setBytes).trans .setPteAt).mono (by omega)

/-- A walk over a table of whatever size takes some number of references. -/
theorem grows_tryPlaces {n k : Nat} {below : Nat → CloneWalk → Bool × CloneWalk}
    (hb : ∀ i w, ∃ j, Grows j w.m (below i w).2.m) (w : CloneWalk) :
    ∃ j, Grows j w.m (tryPlaces n below k w).2.m :=
  forEach_inv (P := fun w' : CloneWalk => ∃ j, Grows j w.m w'.m)
    (fun _ _ w' ⟨_, hj⟩ => (hb _ w').elim fun _ h => ⟨_, hj.trans h⟩) ⟨0, .rfl'⟩

theorem grows_cloneTable {parent : Cr3} {l k : Nat} {below : Nat → CloneWalk → Bool × CloneWalk}
    (hb : ∀ i w, ∃ j, Grows j w.m (below i w).2.m) (w : CloneWalk) :
    ∃ j, Grows j w.m (cloneTable parent l below k w).2.m := by
  obtain ⟨j, hj⟩ := grows_tryPlaces hb w
  unfold cloneTable
  split
  · exact ⟨0, .rfl'⟩
  dsimp only
  split
  · exact ⟨j, hj⟩
  split
  · exact ⟨_, (hj.trans .setTable).trans .free⟩
  · exact ⟨j, hj⟩

theorem grows_pagingCloneUserSpace (m : Memory) (parent child : Cr3) :
    ∃ j, Grows j m (pagingCloneUserSpace m parent child).2 := by
  unfold pagingCloneUserSpace pagingCloneWalk
  split
  · exact ⟨0, .rfl'⟩
  · exact grows_tryPlaces (fun _ => grows_cloneTable (fun _ => grows_cloneTable
      (fun _ => grows_cloneTable (fun _ w => ⟨2, grows_clonePte _ _ _ w⟩)))) { m }

/-- A new address space is new, empty and the only one that is. -/
theorem pagingCreateAddressSpace_some {cr3 : Cr3} {mm : Memory}
    (h : pagingCreateAddressSpace m = (some cr3, mm)) :
    cr3 = m.spaces.length ∧ (mm.space cr3).isSome ∧ (∀ i, mm.pteAt cr3 i = {}) ∧
      (∀ c, c ≠ cr3 → (mm.space c).isSome = (m.space c).isSome) ∧
      ∀ f, mm.refs f = m.refs f := by
  have hq := Quiet.allocEmpty m
  have hs := pagingAllocEmptyFrame_spaces m
  unfold pagingCreateAddressSpace at h
  split at h
  · cases h
  rename_i m1 ha
  rw [ha] at hq hs
  cases h
  have hlen : m1.spaces.length = m.spaces.length := by rw [hs]
  refine ⟨hlen, ?_, fun i => ?_, fun c hc => ?_, hq.refs⟩
  · rw [Memory.space_addSpace, if_pos rfl]; rfl
  · rw [Memory.pteAt_addSpace]
    unfold Memory.pteAt Memory.space
    rw [List.getElem?_eq_none (Nat.le_refl _)]
    rfl
  · rw [Memory.space_addSpace, if_neg hc]; exact hq.space c

theorem pagingCreateAddressSpace_none {mm : Memory}
    (h : pagingCreateAddressSpace m = (none, mm)) : Grows 0 m mm := by
  have hg := Grows.allocEmpty (m := m)
  unfold pagingCreateAddressSpace at h
  split at h
  · next ha => rw [ha] at hg; cases h; exact hg
  · cases h

theorem space_pagingDestroyAddressSpace {cr3 c : Cr3} (hc : c ≠ cr3) :
    ((pagingDestroyAddressSpace m cr3).space c).isSome = (m.space c).isSome := by
  unfold pagingDestroyAddressSpace
  split
  · rfl
  have hg := Grows.pagingReleaseUserSpace cr3 (m := m)
  generalize pagingReleaseUserSpace m cr3 = m1 at hg
  rw [Memory.space_dropSpace, if_neg hc]
  exact hg.live c

end spaces

/-! ## Between two calls -/

/-- Every process has its list in order and an address space to itself. -/
structure ProcsOk (s : Sys) : Prop where
  listed : Listed s
  pids : ∀ pid, s.nextPid ≤ pid → s.proc pid = none
  maps : ∀ pid p, s.proc pid = some p → (s.mm.space p.pageMap).isSome
  distinct : ∀ pid q p p', s.proc pid = some p → s.proc q = some p' →
    p.pageMap = p'.pageMap → pid = q

/-- The same processes with the same page maps. -/
structure SameMaps (s s' : Sys) : Prop where
  map : ∀ q, (s'.proc q).map Proc.pageMap = (s.proc q).map Proc.pageMap
  nextPid : s'.nextPid = s.nextPid

theorem SameMaps.trans {s s' s'' : Sys} (h : SameMaps s s') (h' : SameMaps s' s'') :
    SameMaps s s'' :=
  ⟨fun q => (h'.map q).trans (h.map q), h'.nextPid.trans h.nextPid⟩

theorem SameTasks.maps {s s' : Sys} (h : SameTasks s s') : SameMaps s s' := by
  refine ⟨fun q => ?_, h.nextPid⟩
  have hb := congrArg (Option.map Proc.pageMap) (h.bare q)
  rw [Option.map_map, Option.map_map] at hb
  exact hb

theorem SameMaps.updProc {s : Sys} {pid : Nat} {g : Proc → Proc}
    (hg : ∀ p, (g p).pageMap = p.pageMap) : SameMaps s (s.updProc pid g) := by
  refine ⟨fun q => ?_, rfl⟩
  rw [Sys.proc_updProc]
  by_cases hq : q = pid
  · subst hq
    rw [if_pos rfl]
    cases s.proc q with
    | none => rfl
    | some p => exact congrArg some (hg p)
  · rw [if_neg hq]

theorem SameMaps.setQueue {s : Sys} (pid : Nat) {q : List IpcMessage} :
    SameMaps s (s.setQueue pid q) := .updProc fun _ => rfl

namespace ProcsOk

variable {s s' t : Sys} {pid : Nat} {cr3 : Cr3} {mm : Memory}

section

variable (h : ProcsOk s)

include h

/-- A call that leaves the processes and the address spaces where they were. -/
theorem of_maps (hl : Listed s') (hm : SameMaps s s')
    (hlive : ∀ c, (s'.mm.space c).isSome = (s.mm.space c).isSome) : ProcsOk s' := by
  have hproc : ∀ q p', s'.proc q = some p' → ∃ p, s.proc q = some p ∧
      p.pageMap = p'.pageMap := fun q p' hp' => by
    have := hm.map q
    rw [hp'] at this
    exact Option.map_eq_some_iff.mp this.symm
  refine ⟨hl, fun q hq => ?_, fun q p' hp' => ?_, fun q r p' p'' hp' hp'' he => ?_⟩
  · have := hm.map q
    rw [h.pids q (hm.nextPid ▸ hq)] at this
    exact Option.map_eq_none_iff.mp this
  · obtain ⟨p, hp, he⟩ := hproc q p' hp'
    rw [hlive, ← he]
    exact h.maps q p hp
  · obtain ⟨p, hp, e1⟩ := hproc q p' hp'
    obtain ⟨r', hr, e2⟩ := hproc r p'' hp''
    exact h.distinct q r p r' hp hr (e1.trans (he.trans e2.symm))

theorem pid_lt (hp : (s.proc pid).isSome) : pid < s.nextPid := by
  by_contra hge
  rw [h.pids pid (Nat.le_of_not_lt hge)] at hp
  cases hp

theorem pageMap_lt {p : Proc} (hp : s.proc pid = some p) : p.pageMap < s.mm.spaces.length := by
  have hlive := h.maps pid p hp
  unfold Memory.space at hlive
  by_contra hge
  rw [List.getElem?_eq_none (Nat.le_of_not_lt hge)] at hlive
  cases hlive

section

variable (hcr : pagingCreateAddressSpace s.mm = (some cr3, mm))

include hcr

/-- A new address space is nobody's yet. -/
theorem created : ∀ q p, s.proc q = some p → p.pageMap ≠ cr3 ∧ (mm.space p.pageMap).isSome := by
  obtain ⟨hlen, -, -, hlive, -⟩ := pagingCreateAddressSpace_some hcr
  intro q p hp
  have hne : p.pageMap ≠ cr3 := by
    rw [hlen]; exact Nat.ne_of_lt (h.pageMap_lt hp)
  exact ⟨hne, by rw [hlive _ hne]; exact h.maps q p hp⟩

/-- A fork that gives up destroys the space it made. -/
theorem dropped (hlive : ∀ c, (t.mm.space c).isSome = (mm.space c).isSome) (hs : SameProcs s t) :
    ProcsOk (dropSpace t cr3) := by
  have hs' : SameProcs s (dropSpace t cr3) := hs.trans (.mm _)
  refine ⟨h.listed.same hs', ?_, fun q p hp => ?_, ?_⟩
  · rw [hs'.proc, hs'.nextPid]; exact h.pids
  · rw [hs'.proc] at hp
    obtain ⟨hne, hother⟩ := h.created hcr q p hp
    exact (space_pagingDestroyAddressSpace hne).trans ((hlive _).trans hother)
  · rw [hs'.proc]; exact h.distinct

/-- A new process gets the space that was made for it. -/
theorem started {l : List UserAlloc}
    (hlive : ∀ c, (t.mm.space c).isSome = (mm.space c).isSome) (hs : SameProcs s t)
    (hl : AllocsOk l) : ProcsOk (t.addProc { pageMap := cr3, allocList := l }) := by
  obtain ⟨-, hnew, -⟩ := pagingCreateAddressSpace_some hcr
  have hother := h.created hcr
  have hproc : ∀ q p, (t.addProc { pageMap := cr3, allocList := l }).proc q = some p →
      q = t.nextPid ∧ p.pageMap = cr3 ∨ s.proc q = some p := fun q p hp => by
    rw [Sys.proc_addProc] at hp
    split at hp
    · next hq => cases hp; exact .inl ⟨hq, rfl⟩
    · rw [hs.proc] at hp; exact .inr hp
  refine ⟨(h.listed.same hs).addProc hl, fun q hq => ?_, fun q p hp => ?_,
    fun q r p p' hp hp' he => ?_⟩
  · have hlt : t.nextPid < q := hq
    rw [Sys.proc_addProc, if_neg (Nat.ne_of_gt hlt), hs.proc]
    exact h.pids q (by rw [← hs.nextPid]; exact Nat.le_of_lt hlt)
  · change (t.mm.space p.pageMap).isSome
    rw [hlive]
    rcases hproc q p hp with ⟨-, he⟩ | hp
    · rw [he]; exact hnew
    · exact (hother q p hp).2
  · rcases hproc q p hp with ⟨hq, e1⟩ | h1 <;> rcases hproc r p' hp' with ⟨hr, e2⟩ | h2
    · rw [hq, hr]
    · exact absurd (he.symm.trans e1) (hother r p' h2).1
    · exact absurd (he.trans e2) (hother q p h1).1
    · exact h.distinct q r p p' h1 h2 he

end

/-- A process goes, and its address space with it. -/
theorem dropProc (hp : (s.proc pid).isSome) : ProcsOk { dropSpace s (s.pageMap pid) with
      proc := update s.proc pid none } := by
  obtain ⟨p, hproc⟩ := Option.isSome_iff_exists.mp hp
  have hpm : s.pageMap pid = p.pageMap := by unfold Sys.pageMap; rw [hproc]
  have hother : ∀ q p', update s.proc pid none q = some p' →
      q ≠ pid ∧ s.proc q = some p' := fun q p' hp' => by
    by_cases hqp : q = pid
    · rw [hqp, update_self] at hp'; cases hp'
    · rw [update_of_ne hqp] at hp'; exact ⟨hqp, hp'⟩
  refine ⟨fun q => ?_, fun q hle => ?_, fun q p' hp' => ?_, fun q r p' p'' hp' hp'' he => ?_⟩
  · have := h.listed q
    unfold Sys.allocs at *
    dsimp only
    by_cases hqp : q = pid
    · rw [hqp, update_self]; exact Listed.nil
    · rw [update_of_ne hqp]; exact this
  · by_cases hqp : q = pid
    · exact hqp ▸ update_self ..
    · exact (update_of_ne hqp ..).trans (h.pids q hle)
  · obtain ⟨hne, hpq⟩ := hother q p' hp'
    refine (space_pagingDestroyAddressSpace ?_).trans (h.maps q p' hpq)
    rw [hpm]
    exact fun he => hne (h.distinct q pid p' p hpq hproc he)
  · exact h.distinct q r p' p'' (hother q p' hp').2 (hother r p'' hp'').2 he

end

end ProcsOk

end BleedKernel.Mm
