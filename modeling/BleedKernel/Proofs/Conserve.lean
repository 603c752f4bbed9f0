import BleedKernel.Proofs.Holders

/-!
# The calls keep the ledger

Each system call, put together from the functions of the previous file. Most
leave the ledger exactly as it was. The ones that map without looking may leave
something in `slack` or in `lost`, and say when they do not.
-/

namespace BleedKernel.Mm

open BleedKernel.Lib List

variable {prot : Prot} {id len va : Nat} {l : List UserAlloc} {obj : ShmObject}

/-! ## Changing what an entry allows -/

section reflag

variable {pool slack lost own slots : Frame → Nat} {m : Memory} {cr3 : Cr3}

/-- The same frame, held in the same way. -/
structure Pte.SameHold (p q : Pte) : Prop where
  phys : q.phys = p.phys
  present : q.present = p.present
  cow : q.cow = p.cow
  nofree : q.nofree = p.nofree
  shared : q.shared = p.shared

theorem MemOk.reflag {i : Nat} {q : Pte} (h : MemOk pool slack lost own slots m)
    (hp : (m.pteAt cr3 i).present = true) (hq : (m.pteAt cr3 i).SameHold q)
    (hw : q.cow = true → q.writable = false) :
    MemOk pool slack lost own slots (m.setPteAt cr3 i q) := by
  refine h.setPte_same ⟨fun hf => ?_, fun hc => ?_, fun hn => ?_⟩
    (h.table_of_present hp) fun f => ?_
  · rw [hq.present, hp] at hf; cases hf
  · have := (h.wf cr3 i).cow (hq.cow ▸ hc)
    exact ⟨hw hc, hq.shared.trans this.2.1, hq.nofree.trans this.2.2⟩
  · exact hq.shared.trans ((h.wf cr3 i).device (hq.nofree ▸ hn))
  · unfold privW cowW sharedW Pte.holds
    rw [hq.phys, hq.present, hq.cow, hq.nofree, hq.shared]
    exact ⟨rfl, rfl, rfl⟩

/-- A copy-on-write fault changes what an entry refers to, not which pages are
there. -/
theorem present_pagingHandleCowFault (cr3 : Cr3) (va err : Nat) (c : Cr3) (i : Nat) :
    ((pagingHandleCowFault m cr3 va err).2.pteAt c i).present = (m.pteAt c i).present := by
  have hinit := Memory.pteAt_congr (cowInit_rest m).2.1
  rcases pagingHandleCowFault_cases m cr3 va err with
    hr | ⟨-, m1, ha, hr⟩ | ⟨hw, -, new, m1, ha, hr⟩ | ⟨hw, -, hr⟩
  · rw [hr]
  · have hq := Quiet.alloc (cowInit m)
    rw [ha] at hq
    rw [hr]
    change (m1.pteAt c i).present = _
    rw [hq.pte, hinit]
  · have hq := Quiet.alloc (cowInit m)
    rw [ha] at hq
    rw [hr]
    rw [Memory.pteAt_congr (cowUnrefPage_rest _ _).2.1, Memory.pteAt_setPteAt]
    split
    · next hc => rw [hc.1, hc.2.1]; rfl
    change (m1.pteAt c i).present = _
    rw [hq.pte, hinit]
  · rw [hr]
    rw [Memory.pteAt_congr (cowUnrefPage_rest _ _).2.1, Memory.pteAt_setPteAt]
    split
    · next hc => rw [hc.1, hc.2.1]; rfl
    · rw [hinit]

theorem MemOk.protectPte (h : MemOk pool slack lost own slots m)
    (hp : (m.pte cr3 va).present = true) :
    MemOk pool slack lost own slots (protectPte cr3 prot va m) := by
  have hc := h.pagingHandleCowFault cr3 va 7
  have hp' := present_pagingHandleCowFault cr3 va 7 (m := m) cr3 (pageIdx va)
  have hflag : ∀ m' : Memory, MemOk pool slack lost own slots m' → (m'.pte cr3 va).present = true →
      MemOk pool slack lost own slots (m'.setPteAt cr3 (pageIdx va) { m'.pte cr3 va with
          user := (protPte prot).user, protnone := (protPte prot).protnone,
          writable := (protPte prot).writable && !(m'.pte cr3 va).cow,
          nx := (protPte prot).nx }) := fun m' h' hp' =>
    h'.reflag hp' ⟨rfl, rfl, rfl, rfl, rfl⟩ fun hcow => by
      rw [hcow]; simp
  unfold Mm.protectPte
  dsimp only
  split
  · exact h
  by_cases hw : (!prot.write && (m.pte cr3 va).cow) = true
  · rw [if_pos hw]
    split
    · exact hc
    · exact hflag _ hc (hp'.trans hp)
  · rw [if_neg hw]
    exact hflag m h hp

theorem Grows.protectPte : Grows 0 m (protectPte cr3 prot va m) := by
  unfold Mm.protectPte
  dsimp only
  split
  · exact rfl'
  by_cases hw : (!prot.write && (m.pte cr3 va).cow) = true
  · rw [if_pos hw]
    split
    · exact pagingHandleCowFault
    · exact pagingHandleCowFault.trans setPteAt
  · rw [if_neg hw]
    exact setPteAt

theorem MemOk.vmaProtectPtes (cr3 : Cr3) (addr len : Nat) (prot : Prot)
    (h : MemOk pool slack lost own slots m) :
    MemOk pool slack lost own slots (vmaProtectPtes m cr3 addr len prot) ∧
      Grows 0 m (Mm.vmaProtectPtes m cr3 addr len prot) := by
  refine foldl_inv (P := fun m' => MemOk pool slack lost own slots m' ∧ Grows 0 m m')
    (fun j _ m' ⟨h', hg⟩ => ?_) ⟨h, .rfl'⟩
  dsimp only
  split
  · next hc =>
      exact ⟨h'.protectPte (Bool.and_eq_true_iff.mp hc).2, hg.trans .protectPte⟩
  · exact ⟨h', hg⟩

/-- One page of the second loop of `sys_mprotect`, on a page that is there. -/
theorem MemOk.mprotectPage
    (h : MemOk pool slack lost own slots m) (hp : (m.pte cr3 va).present = true) :
    MemOk pool slack lost own slots (mprotectPage cr3 prot va m).2 ∧
      Grows 0 m (Mm.mprotectPage cr3 prot va m).2 ∧
      ∀ c i, ((Mm.mprotectPage cr3 prot va m).2.pteAt c i).present = (m.pteAt c i).present := by
  have hpc := present_pagingHandleCowFault cr3 va 7 (m := m)
  have hr : ∀ r : Bool × Memory,
      r = (if !prot.write && (m.pte cr3 va).cow then Mm.pagingHandleCowFault m cr3 va 7
        else (true, m)) → MemOk pool slack lost own slots r.2 ∧ Grows 0 m r.2 ∧
      ∀ c i, (r.2.pteAt c i).present = (m.pteAt c i).present := fun r he => by
    split at he
    · subst he; exact ⟨h.pagingHandleCowFault _ _ _, .pagingHandleCowFault, hpc⟩
    · subst he; exact ⟨h, .rfl', fun _ _ => rfl⟩
  unfold Mm.mprotectPage
  dsimp only
  generalize hre : (if !prot.write && (m.pte cr3 va).cow then
    Mm.pagingHandleCowFault m cr3 va 7 else (true, m)) = r
  obtain ⟨h1, hg, hpr⟩ := hr r hre.symm
  split
  · exact ⟨h1, hg, hpr⟩
  refine ⟨h1.reflag ((hpr _ _).trans hp) ⟨rfl, rfl, rfl, rfl, rfl⟩ fun hcow => ?_,
    hg.trans .setPteAt, fun c i => ?_⟩
  · change (r.2.pte cr3 va).cow = true at hcow
    have hw := ((h1.wf cr3 (pageIdx va)).cow hcow).1
    rw [hcow]
    change (if _ then (r.2.pteAt cr3 (pageIdx va)).writable || _ else _) = false
    rw [hw]
    simp
  · rw [Memory.pteAt_setPteAt]
    split
    · next hc => rw [hc.1, hc.2.1]; exact hpr _ _
    · exact hpr _ _

end reflag

/-! ## What a range may hold before it is mapped -/

/-- What is about to be filled has nothing in it. -/
def PlacedClear (s : Sys) (pid hint len : Nat) (flags : MapFlags) : Prop :=
  flags.type ≠ .private_ → ∀ base s1, vmaPlace s pid hint len flags = (.ok base, s1) →
    ClearAt s1.mm (s1.pageMap pid) base (len / pageSize)

/-- Nothing is mapped where the next `n` pages will be put. -/
def SpotClear (s : Sys) (pid n : Nat) : Prop :=
  ∀ base, (taskMmapReserve s pid n).1 = some base → ClearAt s.mm (s.pageMap pid) base n

/-- The page tables for them are there or can be had. -/
def SpotTables (s : Sys) (pid n : Nat) : Prop :=
  ∀ base, (taskMmapReserve s pid n).1 = some base → tablesFor s.mm (s.pageMap pid) base n = true

/-- Nothing is mapped where the framebuffer will be put, once its size has been
written to the user. -/
def MapfbClear (s : Sys) (pid outPages pages : Nat) : Prop :=
  ∀ s1, copyToUser s pid outPages (leBytes pages) = (true, s1) → SpotClear s1 pid pages

namespace Held

variable {pool slack slack' lost lost' own own' : Frame → Nat} {m0 : Memory}
  {k : Nat} {s s' : Sys} {pid : Nat}

/-! ## Shared memory objects and reservations -/

/-- Frames with one reference each, not yet in any slot. -/
def Gathered (pool slack lost own slots : Frame → Nat) (st : Memory × List Frame) : Prop :=
  MemOk pool (fun f => slack f + st.2.count f) lost own slots st.1 ∧
    ∀ f ∈ st.2, ptes st.1 (cowW f) = 0

theorem gathered_shmCreateFrame {slots : Frame → Nat} {st : Memory × List Frame}
    (h : Gathered pool slack lost own slots st) :
    Gathered pool slack lost own slots (shmCreateFrame st).2 := by
  obtain ⟨m, frames⟩ := st
  have hdrop : ∀ m' : Memory, MemOk pool (fun f => slack f + frames.count f) lost own slots m' →
      Gathered pool slack lost own slots (shmDropFrames m' frames, []) := fun m' h' => by
    refine ⟨?_, fun f hf => by simp at hf⟩
    rw [shmDropFrames_eq]
    have h2 : MemOk pool (fun f => slack f + (frames.map some).count (some f)) lost own
        slots m' := by
      simpa only [count_map_some] using h'
    simpa using h2.framePuts
  have hq := Quiet.allocEmpty m
  unfold Mm.shmCreateFrame
  split
  · next ha => exact hdrop _ (h.1.allocEmptyNone ha)
  rename_i f m1 ha
  rw [ha] at hq
  obtain ⟨h1, hr, hk⟩ := (h.1.allocEmpty ha).refFresh
  have hc := h1.ledger.count f
  rw [bump_self] at hc
  dsimp only
  rw [cowGetRefcount_fst, cowGetRefcount_snd, if_neg (by omega)]
  refine ⟨?_, fun g hg => ?_⟩
  · have he : bump (fun g => slack g + frames.count g) f
        = fun g => slack g + (frames ++ [f]).count g := by
      rw [← count_cons_bump]
      funext g
      rw [count_append, count_cons, count_singleton]
    rw [he] at h1
    exact h1.cowInit
  · rw [ptes_congr (cowInit_rest _).2.1]
    rcases mem_append.mp hg with hg | hg
    · rw [Ledger.ptes_cowRefPage, hq.ptes_eq]
      exact h.2 g hg
    · rw [mem_singleton.mp hg]; exact hk

theorem grows_shmCreateFrame (st : Memory × List Frame) : Grows 1 st.1 (shmCreateFrame st).2.1 := by
  have ha := Grows.allocEmpty (m := st.1)
  unfold Mm.shmCreateFrame
  split
  · rename_i he
    rw [he] at ha
    rw [shmDropFrames_eq]
    exact (ha.trans .framePuts).mono (by omega)
  · rename_i he
    rw [he] at ha
    dsimp only
    rw [cowGetRefcount_snd]
    split
    · rw [shmDropFrames_eq]
      exact (((ha.trans .cowRefPage).trans .cowInit).trans .free).trans .framePuts
    · exact (ha.trans .cowRefPage).trans .cowInit

/-- When it fails there is nothing left over. -/
theorem shmCreateFrame_fail (st : Memory × List Frame)
    (h : (shmCreateFrame st).1 = false) : (shmCreateFrame st).2.2 = [] := by
  unfold Mm.shmCreateFrame at h ⊢
  split
  · rfl
  rename_i he
  rw [he] at h
  dsimp only at h ⊢
  split
  · rfl
  · next hn => rw [if_neg hn] at h; cases h

/-- Reserving a range touches neither the memory nor the objects. -/
structure SameMemory (s s' : Sys) : Prop where
  mm : s'.mm = s.mm
  shm : s'.shm = s.shm
  pageMap : ∀ q, s'.pageMap q = s.pageMap q

theorem kmalloc_memory (s : Sys) : SameMemory s s.kmalloc.2 := by
  unfold Sys.kmalloc
  split <;> exact ⟨rfl, rfl, fun _ => rfl⟩

theorem SameMemory.setAllocs (h : SameMemory s s') : SameMemory s (s'.setAllocs pid l) :=
  ⟨h.mm, h.shm, fun q => Sys.pageMap_setAllocs.trans (h.pageMap q)⟩

theorem reserving_memory {B : Nat → Prop} {o : Option Nat} {pages : Nat}
    (h : Reserving B s pid pages o s') : SameMemory s s' := by
  cases h with
  | refused => exact ⟨rfl, rfl, fun _ => rfl⟩
  | short hk => exact hk ▸ kmalloc_memory s
  | takes hk hb happ hok => subst hk; exact (kmalloc_memory s).setAllocs

theorem leBytes_length (n : Nat) : (leBytes n).length = 8 := by
  unfold leBytes; simp

variable (h : Held pool slack lost own m0 k s)

include h

/-! ## Reaching into user memory -/

theorem cowFault (cr3 : Cr3) (va err : Nat) : Held pool slack lost own m0 k
      { s with mm := (pagingHandleCowFault s.mm cr3 va err).2 } :=
  h.mm (h.mem.pagingHandleCowFault _ _ _) .pagingHandleCowFault

theorem stackFault {cr3 : Cr3} : Held pool slack lost own m0 k
      { s with mm := (pagingHandleStackFault s.mm cr3 va).2 } :=
  h.mm h.mem.pagingHandleStackFault .pagingHandleStackFault

theorem stackIn (pid : Nat) (page : Nat) : Held pool slack lost own m0 k (stackIn s pid page) := by
  unfold Mm.stackIn
  split
  · exact h
  · exact h.stackFault

theorem fillIn (pid : Nat) (page : Nat) (write : Bool) (hl : Listed s) (hroom : Room m0 (k + 2)) :
    Held pool slack lost own m0 (k + 2) (fillIn s pid page write) := by
  unfold Mm.fillIn
  split
  · exact h.mono (by omega)
  · exact h.taskFaultIn _ _ _ _ (hl pid) hroom

theorem userPagePte {page : Nat} {write : Bool} (hl : Listed s) (hroom : Room m0 (k + 2)) :
    Held pool slack lost own m0 (k + 2) (userPagePte s pid page write).2 := by
  have h2 := (h.stackIn pid page).fillIn pid page write (hl.same (stackIn_same _ _ _)) hroom
  unfold Mm.userPagePte
  dsimp only
  split
  · exact h2
  split
  · exact h2
  split
  · have hc := h2.cowFault (s.pageMap pid) page 7
    split
    · next he => rw [he] at hc; exact hc
    rename_i he
    rw [he] at hc
    split <;> exact hc
  · exact h2

theorem userRangeMapped (pid : Nat) (addr : Nat) (write : Bool) (hl : Listed s)
    (hroom : Room m0 (k + (len / pageSize + 2) * 2)) :
    Held pool slack lost own m0 (k + (len / pageSize + 2) * 2)
      (userRangeMapped s pid addr len write).2 := by
  unfold Mm.userRangeMapped
  split
  · exact h.mono (by omega)
  dsimp only
  generalize hn : (addr + len - 1) / pageSize + 1 - addr / pageSize = n
  have hle : n ≤ len / pageSize + 2 := by
    unfold pageSize at *; omega
  have hb := forEach_budget (f := fun p s => Mm.userPagePte s pid (p * pageSize) write)
    (P := fun j t => Held pool slack lost own m0 j t ∧ Listed t)
    (l := range' (addr / pageSize) n)
    (fun _ _ _ hj ht => ⟨ht.1.mono hj, ht.2⟩)
    (fun i _ j t hj ht => ⟨ht.1.userPagePte ht.2 (hroom.mono (by omega)),
      ht.2.same (userPagePte_same _ _ _ _)⟩) ⟨h, hl⟩
    (by rw [length_range']; omega)
  rw [length_range'] at hb
  exact hb.1.mono (by omega)

theorem copyToUser (pid : Nat) (udst : Nat) (src : List UInt8)
    (hl : Listed s) (hroom : Room m0 (k + (src.length / pageSize + 2) * 2)) :
    Held pool slack lost own m0 (k + (src.length / pageSize + 2) * 2)
      (copyToUser s pid udst src).2 := by
  have hr := h.userRangeMapped pid udst true hl hroom
  unfold Mm.copyToUser
  split
  · exact h.mono (by omega)
  split
  · next he => rw [he] at hr; exact hr
  rename_i he
  rw [he] at hr
  refine hr.mm (foldl_inv (fun _ _ _ hm => hm.setBytes) hr.mem)
    (foldl_inv (fun _ _ _ hg => hg.trans .setBytes) .rfl')

/-! ## Mapping -/

/-- The pages a mapping gets filled with. -/
theorem faultInAll (pid : Nat) {n : Nat} (base : Nat) (hl : Listed s)
    (hroom : Room m0 (k + n * 2)) :
    Held pool slack lost own m0 (k + n * 2) (forEach
      (fun i s => Mm.taskFaultIn s pid (base + i * pageSize) false false)
      (range n) s).2 := by
  have hb := forEach_budget (f := fun i s => Mm.taskFaultIn s pid (base + i * pageSize) false false)
    (P := fun j t => Held pool slack lost own m0 j t ∧ Listed t)
    (fun _ _ _ hj ht => ⟨ht.1.mono hj, ht.2⟩)
    (fun i _ j t hj ht => ⟨ht.1.taskFaultIn _ _ _ _ (ht.2 pid) (hroom.mono (by omega)),
      ht.2.same (taskFaultIn_same _ _ _ _ _)⟩) ⟨h, hl⟩
    (by rw [length_range])
  rw [length_range] at hb
  exact hb.1

theorem faultInEach {n base : Nat} (hl : Listed s) (hroom : Room m0 (k + n * 2)) :
    Held pool slack lost own m0 (k + n * 2) ((range n).foldl
      (fun s i => (Mm.taskFaultIn s pid (base + i * pageSize) false false).2) s) := by
  have hb := foldl_budget
    (f := fun s i => (Mm.taskFaultIn s pid (base + i * pageSize) false false).2)
    (P := fun j t => Held pool slack lost own m0 j t ∧ Listed t)
    (fun i _ j t hj ht => ⟨ht.1.taskFaultIn _ _ _ _ (ht.2 pid) (hroom.mono (by omega)),
      ht.2.same (taskFaultIn_same _ _ _ _ _)⟩) ⟨h, hl⟩
    (by rw [length_range])
  rw [length_range] at hb
  exact hb.1

theorem fillShared (cr3 : Cr3) {base pages : Nat} (prot : Prot)
    (hb : base + pages * pageSize ≤ 2 ^ 47) :
    ∃ slack' lost' j, Held pool slack' lost' own m0 j
        { s with mm := (fillShared s.mm cr3 base pages prot).2 } ∧
      (ClearAt s.mm cr3 base pages → slack' = slack ∧ lost' = lost) := by
  obtain ⟨slack', lost', hm, hc⟩ := h.mem.fillShared hb
  obtain ⟨j, hg⟩ : ∃ j, Grows j s.mm (Mm.fillShared s.mm cr3 base pages prot).2 := by
    refine forEach_inv (P := fun m => ∃ j, Grows j s.mm m) (fun i _ m ⟨j, hj⟩ => ?_) ⟨0, .rfl'⟩
    unfold Mm.fillSharedPage
    have ha := Grows.allocEmpty (m := m)
    split
    · next he => rw [he] at ha; exact ⟨_, hj.trans ha⟩
    rename_i he
    rw [he] at ha
    dsimp only
    split
    · exact ⟨_, (((hj.trans ha).trans .cowRefPage).trans (.pagingMapPageInvl _ _ _)).trans
        (Grows.cowUnrefPage.trans .free)⟩
    · exact ⟨_, ((hj.trans ha).trans .cowRefPage).trans (.pagingMapPageInvl _ _ _)⟩
  exact ⟨slack', lost', k + j, h.mm hm hg, hc⟩

theorem taskVmaMap (pid : Nat) (hint : Nat) (prot : Prot) (flags : MapFlags) (hl : Listed s)
    (hlen : len % pageSize = 0)
    (hroom : flags.populate = true → Room m0 (k + len / pageSize * 2)) :
    ∃ slack' lost' j, Held pool slack' lost' own m0 j (taskVmaMap s pid hint len prot flags).2 ∧
      (PlacedClear s pid hint len flags → slack' = slack ∧ lost' = lost) ∧
      (flags.type = .private_ → slack' = slack ∧ lost' = lost ∧
        (flags.populate = false → j = k)) := by
  have hp := h.edits (vmaPlace_edits s pid hint len flags)
  have hpl := (vmaPlace_edits s pid hint len flags).listed hlen hl
  unfold Mm.taskVmaMap
  dsimp only
  split
  · exact ⟨slack, lost, k, h, fun _ => ⟨rfl, rfl⟩, fun _ => ⟨rfl, rfl, fun _ => rfl⟩⟩
  split
  · rename_i he
    rw [he] at hp
    exact ⟨slack, lost, k, hp, fun _ => ⟨rfl, rfl⟩, fun _ => ⟨rfl, rfl, fun _ => rfl⟩⟩
  rename_i base s1 he
  rw [he] at hp hpl
  have hb := vmaPlace_placed hl hlen he
  have hb47 : base + len / pageSize * pageSize ≤ 2 ^ 47 := by
    have := hb.limit; unfold userMmapLimit at this; omega
  have h1 := hp.setAllocs pid (l := allocModify (·.withProt prot) (s1.allocs pid) base)
  have hl1 := hpl.modify pid base (g := (·.withProt prot)) fun _ => ⟨rfl, rfl⟩
  split
  · rename_i hty
    obtain ⟨slack', lost', j, hf, hc⟩ := h1.fillShared
      ((s1.setAllocs pid (allocModify (·.withProt prot) (s1.allocs pid)
        base)).pageMap pid) prot hb47
    refine ⟨slack', lost', j, ?_, fun hcl => ?_, fun hty' => absurd hty' hty⟩
    · split
      · next hfs => rw [hfs] at hf; exact hf.edits (taskVmaUnmap_edits _ _ _ _)
      · next hfs => rw [hfs] at hf; exact hf
    · refine hc ?_
      rw [Sys.pageMap_setAllocs]
      exact hcl hty base s1 he
  · have h2 := h1.setAllocs pid (l := allocModify
      (fun a => { a with lazy := true, shared := false, nowrite := false })
      ((s1.setAllocs pid (allocModify (·.withProt prot) (s1.allocs pid) base)).allocs pid) base)
    have hl2 := hl1.modify pid base
      (g := fun a => { a with lazy := true, shared := false, nowrite := false })
      fun _ => ⟨rfl, rfl⟩
    split
    · rename_i hpop
      have h3 := h2.faultInAll pid base hl2 (hroom (Bool.and_eq_true_iff.mp hpop).1)
      refine ⟨slack, lost, k + len / pageSize * 2, ?_, fun _ => ⟨rfl, rfl⟩,
        fun _ => ⟨rfl, rfl, fun hnp => ?_⟩⟩
      · split
        · next hfs => rw [hfs] at h3; exact h3.edits (taskVmaUnmap_edits _ _ _ _)
        · next hfs => rw [hfs] at h3; exact h3
      · rw [hnp] at hpop; cases hpop
    · exact ⟨slack, lost, k, h2, fun _ => ⟨rfl, rfl⟩, fun _ => ⟨rfl, rfl, fun _ => rfl⟩⟩

theorem probeWriter (inode : Backing) (writes : Bool) :
    Held pool slack lost own m0 k (probeWriter s inode writes).2 := by
  unfold Mm.probeWriter
  split
  · exact h
  rename_i id _
  have h1 := h.memfdTrackWriter id 1
  split
  · exact h
  split
  · next he => rw [he] at h1; exact h1
  · next he => rw [he] at h1; exact h1.memfdTrackWriter _ _

theorem attachFile (pid : Nat) (base offset : Nat) (inode : Backing) (shared nowrite : Bool) :
    Held pool slack lost own m0 k (attachFile s pid base inode offset shared nowrite) := by
  unfold Mm.attachFile
  dsimp only
  split
  · exact (h.setAllocs _).vfsHold.memfdTrackWriter _ _
  · exact (h.setAllocs _).vfsHold

theorem taskVmaMapFile (pid : Nat) (hint : Nat) (prot : Prot) (flags : MapFlags)
    (inode : Backing) (offset : Nat) (hl : Listed s) (hlen : len % pageSize = 0)
    (hroom : flags.populate = true → Room m0 (k + len / pageSize * 2)) :
    ∃ j, Held pool slack lost own m0 j
      (taskVmaMapFile s pid hint len prot flags inode offset).2 := by
  have hw := h.probeWriter inode (decide (flags.type ≠ .private_) && prot.write)
  have hwl := hl.same (probeWriter_same s inode
    (decide (flags.type ≠ .private_) && prot.write)).toSameProcs
  unfold Mm.taskVmaMapFile
  dsimp only
  split
  · next he => rw [he] at hw; exact ⟨k, hw⟩
  rename_i s1 he
  rw [he] at hw hwl
  obtain ⟨slack', lost', j, hm, -, hpriv⟩ :=
    hw.taskVmaMap pid hint prot flags.forFile hwl hlen fun hpop => nomatch hpop
  obtain ⟨rfl, rfl, hj⟩ := hpriv rfl
  obtain rfl := hj rfl
  have hml := (taskVmaMap_edits s1 pid hint len prot flags.forFile).listed ⟨hwl, hlen⟩ hwl
  split
  · next hr => rw [hr] at hm; exact ⟨_, hm⟩
  rename_i base s2 hr
  rw [hr] at hm hml
  have h2 := hm.attachFile pid base offset inode
    (decide (flags.type ≠ .private_)) flags.kernelNowrite
  have hl2 := (attachFile_edits s2 pid base inode offset
    (decide (flags.type ≠ .private_)) flags.kernelNowrite).listed trivial hml
  split
  · next hpop =>
      exact ⟨_, h2.faultInEach hl2 (hroom (Bool.and_eq_true_iff.mp hpop).1)⟩
  · exact ⟨_, h2⟩

/-! ## Protecting -/

theorem trackProt {a : UserAlloc} (prot : Prot) :
    Held pool slack lost own m0 k (trackProt s a prot).2 := by
  unfold Mm.trackProt
  split
  · exact h.memfdTrackWriter _ _
  · exact h.memfdTrackWriter _ _
  · exact h

theorem protectFrom {fin : Nat} : Held pool slack lost own m0 k (protectFrom fin prot l s).2.2 := by
  induction l generalizing s with
  | nil => exact h
  | cons a l ih =>
    rw [Mm.protectFrom]
    split
    · have hr := h.trackProt prot (a := a)
      split
      · next he => rw [he] at hr; exact hr
      · next he => rw [he] at hr; exact ih hr
    · exact h

theorem protectAllocs (addr fin : Nat) (prot : Prot) :
    Held pool slack lost own m0 k (protectAllocs addr fin prot l s).2.2 := by
  induction l with
  | nil => exact h
  | cons a l ih =>
    rw [Mm.protectAllocs]
    split
    · exact h
    split
    · exact h.protectFrom
    · exact ih

theorem taskVmaProtect (pid : Nat) (addr len : Nat) (prot : Prot) :
    Held pool slack lost own m0 k (taskVmaProtect s pid addr len prot).2 := by
  have h1 := h.edits (allocSplit_edits s pid addr)
  unfold Mm.taskVmaProtect
  dsimp only
  split
  · exact h
  split
  · next he => rw [he] at h1; exact h1
  rename_i s1 he
  rw [he] at h1
  have h2 := h1.edits (allocSplit_edits s1 pid (addr + len))
  split
  · next he2 => rw [he2] at h2; exact h2
  rename_i s2 he2
  rw [he2] at h2
  have hp := h2.protectAllocs addr (addr + len) prot (l := s2.allocs pid)
  split
  · exact h2
  split
  · next hr => rw [hr] at hp; exact hp.setAllocs _
  rename_i l s3 hr
  rw [hr] at hp
  obtain ⟨hm, hg⟩ := (hp.setAllocs pid).mem.vmaProtectPtes
    ((s3.setAllocs pid l).pageMap pid) addr len prot
  exact (hp.setAllocs pid).mm hm hg

/-- The second loop of `sys_mprotect`, once every page is known to be there. -/
theorem mprotectPages {cr3 : Cr3} {pages : List Nat}
    (hp : ∀ page ∈ pages, (s.mm.pte cr3 page).present = true) :
    Held pool slack lost own m0 k
      { s with mm := (forEach (mprotectPage cr3 prot) pages s.mm).2 } := by
  have hinv := forEach_inv (f := mprotectPage cr3 prot)
    (P := fun m => MemOk pool slack lost own (slots s) m ∧ Grows 0 s.mm m ∧
      ∀ c i, (m.pteAt c i).present = (s.mm.pteAt c i).present)
    (fun page hpage m ⟨h1, h2, h3⟩ => by
      obtain ⟨h4, h5, h6⟩ := h1.mprotectPage ((h3 _ _).trans (hp page hpage))
      exact ⟨h4, h2.trans h5, fun c i => (h6 c i).trans (h3 c i)⟩)
    ⟨h.mem, .rfl', fun _ _ => rfl⟩
  exact h.mm hinv.1 hinv.2.1

theorem sysMprotect {addr prot : Nat} :
    Held pool slack lost own m0 k (sysMprotect s pid addr len prot).2 := by
  unfold Mm.sysMprotect
  split
  · exact h
  split
  · exact h
  rename_i p _
  split
  · exact h
  split
  · exact h
  dsimp only
  split
  · exact h
  have hp := h.taskVmaProtect pid addr (pageAlignUp (addr + len) - addr) p
  split
  · rename_i s1 he
    rw [he] at hp
    split
    · exact hp
    split
    · rename_i hall
      refine hp.mprotectPages fun page hpage => ?_
      have hany := all_eq_true.mp hall page hpage
      cases hq : pagingGetPage s1.mm (s1.pageMap pid) page with
      | none => rw [hq] at hany; cases hany
      | some q =>
        obtain ⟨rfl, hpr⟩ := pagingGetPage_some hq
        exact hpr
    · exact hp
  · exact hp

/-! ## Shared memory objects -/

theorem shmCreate {pages : Nat} : ∃ j, Held pool slack lost own m0 j (shmCreate s pid pages).2 := by
  have hk := h.kmalloc
  unfold Mm.shmCreate
  split
  · exact ⟨k, h⟩
  split
  · next he => rw [he] at hk; exact ⟨k, hk⟩
  rename_i s1 he
  rw [he] at hk
  obtain ⟨⟨hg, hcow⟩, j, hj⟩ := forEach_inv
    (P := fun st => Gathered pool slack lost own (slots s1) st ∧ ∃ j, Grows j s1.mm st.1)
    (s := (s1.mm, []))
    (fun _ _ st ⟨hst, j, hj⟩ => ⟨gathered_shmCreateFrame hst, j + 1,
      hj.trans (grows_shmCreateFrame st)⟩)
    ⟨⟨by simpa using hk.mem, fun f hf => by simp at hf⟩, 0, .rfl'⟩
  have hfail := forEach_fail (Q := fun st => st.2 = []) (l := range pages) (s := (s1.mm, []))
    fun _ => shmCreateFrame_fail
  generalize forEach (fun _ => shmCreateFrame) (range pages) (s1.mm, []) = r at hg hcow hj hfail
  obtain ⟨b, mm, frames⟩ := r
  cases b with
  | false =>
    obtain rfl : frames = [] := hfail rfl
    exact ⟨k + j, hk.mm (by simpa using hg) hj⟩
  | true =>
    have hm : Held pool (fun f => slack f + frames.count f) lost own m0 (k + j)
      { s1 with mm } := hk.mm hg hj
    refine ⟨k + j, ?_, hm.grows, hm.memfds, fun id hid => ?_⟩
    · refine hg.setSlots (fun f => ?_) (fun f => ?_)
      · have := slots_addShm { ownerPid := pid, frames } (s := { s1 with mm }) f
        dsimp only at this ⊢
        rw [this]
        change slots s1 f + _ + _ = _
        omega
      · by_cases hf : f ∈ frames
        · exact .inr (hcow f hf)
        · left
          have := slots_addShm { ownerPid := pid, frames } (s := { s1 with mm }) f
          rw [this, count_eq_zero_of_not_mem hf]
          exact Nat.le_refl _
    · dsimp only at hid ⊢
      rw [Function.update_of_ne (by omega)]
      exact hk.shms id (Nat.le_of_succ_le hid)

theorem shmDestroy : Held pool slack lost own m0 k (shmDestroy s pid id).2 := by
  unfold Mm.shmDestroy
  split
  · exact h
  rename_i obj hobj
  split
  · exact h
  have hlt := h.shm_lt hobj
  have hsl := slots_setShm (o := none) hlt
  rw [hobj] at hsl
  simp only [shmSlots_some, shmSlots_none] at hsl
  have h1 : MemOk pool (fun f => slack f + obj.frames.count f) lost own
      (slots (s.setShm id none)) s.mm :=
    h.mem.setSlots (fun f => by have := hsl f; omega) (fun f => .inl (by have := hsl f; omega))
  have h2 : MemOk pool slack lost own (slots (s.setShm id none))
      (shmDropFrames s.mm obj.frames) := by
    rw [shmDropFrames_eq]
    refine MemOk.framePuts ?_
    simpa only [count_map_some] using h1
  refine ⟨h2, ?_, h.memfds, fun j hj => ?_⟩
  · rw [shmDropFrames_eq]
    exact h.grows.trans .framePuts
  · change Function.update s.shm id none j = none
    by_cases hj' : j = id
    · rw [hj', Function.update_self]
    · rw [Function.update_of_ne hj']; exact h.shms j hj

theorem shmTaskCleanup (pid : Nat) : Held pool slack lost own m0 k (shmTaskCleanup s pid) :=
  foldl_inv (fun _ _ _ ht => ht.shmDestroy) h

/-! ## Mapping without looking -/

/-- The ledger up to what a call has dropped, and when it has dropped nothing. -/
def Spills (pool slack lost own : Frame → Nat) (m0 : Memory) (noLeak noLoss : Prop)
    (s : Sys) : Prop :=
  ∃ slack' lost' j, Held pool slack' lost' own m0 j s ∧
    (noLeak → slack' = slack) ∧ (noLoss → lost' = lost)

theorem spills {p q : Prop} : Spills pool slack lost own m0 p q s :=
  ⟨slack, lost, k, h, fun _ => rfl, fun _ => rfl⟩

/-- The loop of `shm_map` on part of an object. -/
theorem shmMapFrames (cr3 : Cr3) (flags : Pte) (base : Nat) (frames : List Frame)
    (hn : flags.nofree = false) (hc : flags.cow = false)
    (hs : flags.shared = true) (hobj : s.shm id = some obj) (hsub : frames ⊆ obj.frames)
    (hb : base + frames.length * pageSize ≤ 2 ^ 47)
    (hroom : Room m0 (k + frames.length)) :
    ∃ slack' lost', Held pool slack' lost' own m0 (k + frames.length)
        { s with mm := shmMapFrames cr3 flags base frames s.mm } ∧
      (ClearAt s.mm cr3 base frames.length ∧
        tablesFor s.mm cr3 base frames.length = true → slack' = slack) ∧
      (ClearAt s.mm cr3 base frames.length → lost' = lost) := by
  obtain ⟨slack', lost', hm, hl, hsl⟩ := h.mem.shmMapFrames hn hc hs hb
    (fun f => by have := h.grows.refs f; have := hroom f; omega)
    (fun f hf => by
      have hle := shmSlots_le (h.shm_lt hobj) f
      rw [hobj] at hle
      exact Nat.lt_of_lt_of_le (count_pos_iff.mpr (hsub hf)) hle)
  exact ⟨slack', lost', h.mm hm .shmMapFrames, fun hc => hsl hc.1 hc.2, hl⟩

theorem shmMap (pid : Nat) (ptr : Nat) (hl : Listed s) (hobj : s.shm id = some obj)
    (hroom : Room m0 (k + obj.frames.length + 4)) :
    Spills pool slack lost own m0
      (SpotClear s pid obj.frames.length ∧ SpotTables s pid obj.frames.length)
      (SpotClear s pid obj.frames.length) (shmMap s pid id ptr).2 := by
  have hd := taskMmapReserve_reserving s pid obj.frames.length
  have hr := h.edits hd.edits
  unfold Mm.shmMap
  split
  · exact h.spills
  rw [hobj]
  dsimp only
  split
  · next hm => rw [hm] at hr; exact hr.spills
  rename_i base s1 hm
  rw [hm] at hd hr
  have hsame := reserving_memory hd
  have hb := (hd.placed hl).2
  obtain ⟨slack', lost', hmap, hsl, hlo⟩ := hr.shmMapFrames (s1.pageMap pid)
    { user := true, writable := true, nx := true, shared := true } base obj.frames
    rfl rfl rfl (hsame.shm ▸ hobj) (List.Subset.refl _)
    (by have := hb.limit; unfold userMmapLimit at this; omega)
    (hroom.mono (by omega))
  rw [hsame.mm, hsame.pageMap] at hsl hlo
  have hbase : (Mm.taskMmapReserve s pid obj.frames.length).1 = some base := by
    rw [hm]
  have hfin : ∀ t j, Held pool slack' lost' own m0 j t → Spills pool slack lost own m0
        (SpotClear s pid obj.frames.length ∧ SpotTables s pid obj.frames.length)
        (SpotClear s pid obj.frames.length) t := fun t j ht =>
    ⟨slack', lost', j, ht, fun hc => hsl ⟨hc.1 base hbase, hc.2 base hbase⟩,
      fun hc => hlo (hc base hbase)⟩
  split
  · have hc := hmap.copyToUser pid ptr (leBytes obj.frames.length)
      ((hd.edits.listed trivial hl).same (.mm _))
      (by rw [leBytes_length]; exact hroom.mono (by unfold pageSize; omega))
    split
    · next he => rw [he] at hc; exact hfin _ _ (hc.edits (taskMunmap_edits _ _ _))
    · next he => rw [he] at hc; exact hfin _ _ hc
  · exact hfin _ _ hmap

theorem shmMapAt (pid : Nat) (first pages addr : Nat) (hl : Listed s) (hobj : s.shm id = some obj)
    (hroom : Room m0 (k + obj.frames.length)) :
    Spills pool slack lost own m0
      (ClearAt s.mm (s.pageMap pid) addr pages ∧ tablesFor s.mm (s.pageMap pid) addr pages = true)
      (ClearAt s.mm (s.pageMap pid) addr pages)
      (shmMapAt s pid id first pages addr).2 := by
  have hd := taskMmapReserveAt_reserving s pid addr pages
  have hr := h.edits hd.edits
  unfold Mm.shmMapAt
  split
  · exact h.spills
  rw [hobj]
  dsimp only
  split
  · exact h.spills
  split
  · next hm => rw [hm] at hr; exact hr.spills
  rename_i base s1 hm
  rw [hm] at hd hr
  have hsame := reserving_memory hd
  obtain ⟨rfl, hb⟩ := hd.placed hl
  have hlen : ((obj.frames.drop first).take pages).length = pages := by
    rw [length_take, length_drop]; omega
  obtain ⟨slack', lost', hmap, hsl, hlo⟩ := hr.shmMapFrames (s1.pageMap pid)
    { user := true, writable := true, shared := true } base
    ((obj.frames.drop first).take pages)
    rfl rfl rfl (hsame.shm ▸ hobj)
    (fun f hf => mem_of_mem_drop (mem_of_mem_take hf))
    (by rw [hlen]; have := hb.limit; unfold userMmapLimit at this; omega)
    (hroom.mono (by omega))
  rw [hsame.mm, hsame.pageMap, hlen] at hsl hlo
  exact ⟨slack', lost', _, hmap, hsl, hlo⟩

theorem sysMapfb (pid : Nat) (outPages pages : Nat) (fb : Frame)
    (hl : Listed s) (hroom : Room m0 (k + 4)) :
    Spills pool slack lost own m0 (MapfbClear s pid outPages pages)
      (MapfbClear s pid outPages pages) (sysMapfb s pid outPages fb pages).2 := by
  have hc := h.copyToUser pid outPages (leBytes pages) hl
    (by rw [leBytes_length]; exact hroom.mono (by unfold pageSize; omega))
  have hcl := hl.same (copyToUser_same s pid outPages (leBytes pages))
  unfold Mm.sysMapfb
  split
  · exact h.spills
  split
  · next he => rw [he] at hc; exact hc.spills
  rename_i s1 he
  rw [he] at hc hcl
  have hd := taskMmapReserve_reserving s1 pid pages
  have hr := hc.edits hd.edits
  split
  · next hm => rw [hm] at hr; exact hr.spills
  rename_i base s2 hm
  rw [hm] at hd hr
  have hsame := reserving_memory hd
  have hb := (hd.placed hcl).2
  obtain ⟨slack', lost', hmap, hcl'⟩ := hr.mem.mapDevice (s2.pageMap pid) fb base pages
    (by have := hb.limit; unfold userMmapLimit at this; omega)
  have hclear : MapfbClear s pid outPages pages →
      ClearAt s2.mm (s2.pageMap pid) base pages := fun hcl => by
    rw [hsame.mm, hsame.pageMap]
    exact hcl s1 he base (by rw [hm])
  exact ⟨slack', lost', _, hr.mm hmap .mapDevice,
    fun hc => (hcl' (hclear hc)).1, fun hc => (hcl' (hclear hc)).2⟩

theorem pageFault {cr2 err : Nat} (hl : Listed s) (hroom : Room m0 (k + 2)) :
    Held pool slack lost own m0 (k + 2) (pageFault s pid cr2 err).2 := by
  have hc := h.cowFault (s.pageMap pid) cr2 err
  unfold Mm.pageFault
  split
  · next he => rw [he] at hc; exact hc.mono (by omega)
  rename_i mm he
  rw [he] at hc
  dsimp only
  split
  · exact hc.mono (by omega)
  have hf := hc.taskFaultIn pid cr2 (err.testBit 1) (err.testBit 4) ((hl.same (.mm mm)) pid) hroom
  split
  · next hr => rw [hr] at hf; exact hf
  · next hr => rw [hr] at hf; exact hf.stackFault

end Held

end BleedKernel.Mm
