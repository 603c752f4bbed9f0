import BleedKernel.Proofs.Vmas
import BleedKernel.Proofs.Mapping

/-!
# What unmapping leaves

`task_vma_unmap` cuts the nodes at both ends of its range and lets the nodes in
between go with their pages. So a page of the range that a node covered is gone,
and a page that is still there was in no node: that is the state in which a new
mapping finds its range.
-/

namespace BleedKernel.Mm

open BleedKernel.Lib List

/-! ## Entries that go -/

/-- Entries only go, and the tables stay where they are. -/
structure Sheds (m m' : Memory) : Prop where
  live : ∀ c, (m'.space c).isSome = (m.space c).isSome
  table : ∀ c key, m'.tableAt c key = m.tableAt c key
  pte : ∀ c i, m'.pteAt c i = m.pteAt c i ∨ m'.pteAt c i = {}

namespace Sheds

variable {m m' m'' : Memory} {cr3 : Cr3}

theorem rfl' : Sheds m m := ⟨fun _ => rfl, fun _ _ => rfl, fun _ _ => .inl rfl⟩

theorem trans (h : Sheds m m') (h' : Sheds m' m'') : Sheds m m'' := by
  refine ⟨fun c => (h'.live c).trans (h.live c),
    fun c key => (h'.table c key).trans (h.table c key), fun c i => ?_⟩
  rcases h'.pte c i with e | e
  · rw [e]; exact h.pte c i
  · exact .inr e

theorem of_spaces (h : m'.spaces = m.spaces) : Sheds m m' :=
  ⟨fun c => by rw [Memory.space_congr h], Memory.tableAt_congr h,
    fun c i => .inl (Memory.pteAt_congr h c i)⟩

theorem linked (h : Sheds m m') (hm : Linked m) : Linked m' where
  level c l k ht := hm.level c l k (h.table c _ ▸ ht)
  root c k ht := hm.root c k (h.table c _ ▸ ht)
  half c k ht := hm.half c k (h.table c _ ▸ ht)
  up c l k hl ht := by
    rw [h.table] at ht ⊢
    exact hm.up c l k hl ht
  live c hs := by
    rw [h.table]
    exact hm.live c (h.live c ▸ hs)
  pte c i hne := by
    rw [h.table]
    rcases h.pte c i with e | e
    · exact hm.pte c i (e ▸ hne)
    · exact absurd e hne

/-- What was not there does not come back. -/
theorem present (h : Sheds m m') {c : Cr3} {i : Nat}
    (hp : (m.pteAt c i).present = false) : (m'.pteAt c i).present = false := by
  rcases h.pte c i with e | e
  · rw [e]; exact hp
  · rw [e]

theorem unmapPte {i : Nat} {st : Memory × FreeRun} : Sheds st.1 (unmapPte cr3 i st).1 := by
  refine ⟨Grows.unmapPte.live, fun c key => unmapPte_tableAt _ _ _ _ _, fun c j => ?_⟩
  rw [unmapPte_pteAt]
  split
  · exact .inr rfl
  · exact .inl rfl

theorem vmmFreeRun {run : FreeRun} : Sheds m (vmmFreeRun m run) := by
  unfold Mm.vmmFreeRun
  split
  · exact rfl'
  · exact of_spaces rfl

end Sheds

/-- `vmm_unmap_free_pages` takes out every page of its range. -/
theorem vmmUnmapFreePages_sheds {m : Memory} {cr3 : Cr3} {virt pages : Nat}
    (hm : Linked m) (ha : virt % pageSize = 0) (h0 : virt ≠ 0) :
    Sheds m (vmmUnmapFreePages m cr3 virt pages) ∧
      ∀ j, j < pages → ((vmmUnmapFreePages m cr3 virt pages).pte cr3
        (virt + j * pageSize)).present = false := by
  unfold vmmUnmapFreePages
  split
  · next h => exact ⟨.rfl', fun j hj => by omega⟩
  have hva : pageAlignDown virt = virt := by
    unfold pageAlignDown; unfold pageSize at *; omega
  rw [hva]
  have hloop := foldl_range (n := pages)
    (f := fun st j => if pagingGetTable st.1 cr3 (pageIdx (virt + j * pageSize)) then
      unmapPte cr3 (pageIdx (virt + j * pageSize)) st else st)
    (P := fun k st => Sheds m st.1 ∧
      ∀ j, j < k → (st.1.pte cr3 (virt + j * pageSize)).present = false)
    (s := (m, {}))
    (fun k _ st ⟨hs, hgone⟩ => ?_) ⟨.rfl', fun j hj => absurd hj (Nat.not_lt_zero j)⟩
  · obtain ⟨hs, hgone⟩ := hloop
    exact ⟨hs.trans .vmmFreeRun, fun j hj => Sheds.vmmFreeRun.present (hgone j hj)⟩
  · have hnow : ∀ st' : Memory × FreeRun, Sheds st.1 st'.1 →
        (st'.1.pte cr3 (virt + k * pageSize)).present = false →
        Sheds m st'.1 ∧ ∀ j, j < k + 1 → (st'.1.pte cr3 (virt + j * pageSize)).present = false := by
      intro st' hst hk
      refine ⟨hs.trans hst, fun j hj => ?_⟩
      rcases Nat.lt_succ_iff_lt_or_eq.mp hj with hj | rfl
      · exact hst.present (hgone j hj)
      · exact hk
    split
    · refine hnow _ .unmapPte ?_
      unfold Memory.pte
      rw [unmapPte_pteAt]
      split
      · rfl
      · next hno => simpa using hno
    · rename_i htab
      refine hnow st .rfl' ?_
      -- a page that is there has a table over it
      by_contra hp
      refine htab ((hs.linked hm).getTable ((hs.linked hm).pte _ _ fun e => ?_))
      unfold Memory.pte at hp
      rw [e] at hp
      exact hp rfl

/-! ## Nodes that are cut -/

/-- A node of the list covers the address. -/
def Covered (l : List UserAlloc) (va : Nat) : Prop :=
  ∃ a ∈ l, a.vaddr ≤ va ∧ va < a.allocEnd

/-- No node of the list runs across the address. -/
def Cut (l : List UserAlloc) (v : Nat) : Prop := ∀ a ∈ l, a.vaddr < v → a.allocEnd ≤ v

/-- `b` is `a` or a part of it. -/
structure UserAlloc.PartOf (b a : UserAlloc) : Prop where
  start : a.vaddr ≤ b.vaddr
  stop : b.allocEnd ≤ a.allocEnd
  prot : b.prot = a.prot
  shared : b.shared = a.shared
  nowrite : b.nowrite = a.nowrite
  backing : b.backing = a.backing

theorem UserAlloc.PartOf.rfl' {a : UserAlloc} : a.PartOf a :=
  ⟨Nat.le_refl _, Nat.le_refl _, rfl, rfl, rfl, rfl⟩

/-- What `alloc_split` makes of the list it cuts. -/
structure Splits (v : Nat) (l l' : List UserAlloc) : Prop where
  cut : Cut l' v
  part : ∀ b ∈ l', ∃ a ∈ l, b.PartOf a
  covered : ∀ va, Covered l va → Covered l' va

theorem Splits.cuts {v u : Nat} {l l' : List UserAlloc} (h : Splits v l l')
    (hc : Cut l u) : Cut l' u := fun b hb hlt => by
  obtain ⟨a, ha, hp⟩ := h.part b hb
  have := hc a ha (Nat.lt_of_le_of_lt hp.start hlt)
  exact Nat.le_trans hp.stop this

section split

variable {lo va : Nat} {a : UserAlloc} {l : List UserAlloc}

theorem UserAlloc.splitHead_end (ha : a.vaddr % pageSize = 0) (hva : va % pageSize = 0)
    (hle : a.vaddr ≤ va) : (a.splitHead va).allocEnd = va := by
  unfold allocEnd splitHead
  unfold pageSize at *
  dsimp only
  omega

theorem UserAlloc.splitTail_end (ha : a.vaddr % pageSize = 0) (hva : va % pageSize = 0)
    (hle : va ≤ a.allocEnd) : (a.splitTail va).allocEnd = a.allocEnd := by
  unfold splitTail allocEnd at *
  unfold pageSize at *
  dsimp only
  omega

/-- A list nothing in which runs across `va` is its own split. -/
theorem Splits.refl (h : Cut l va) : Splits va l l :=
  ⟨h, fun b hb => ⟨b, hb, .rfl'⟩, fun _ hc => hc⟩

/-- A node that lies before the cut stays as it is. -/
theorem Splits.cons {l' : List UserAlloc} (h : Splits va l l')
    (ha : a.vaddr < va → a.allocEnd ≤ va) : Splits va (a :: l) (a :: l') := by
  refine ⟨fun b hb hlt => ?_, fun b hb => ?_, fun v ⟨b, hb, hv⟩ => ?_⟩
  · rcases mem_cons.mp hb with rfl | hb
    · exact ha hlt
    · exact h.cut b hb hlt
  · rcases mem_cons.mp hb with rfl | hb
    · exact ⟨b, mem_cons_self, .rfl'⟩
    · obtain ⟨c, hc, hp⟩ := h.part b hb
      exact ⟨c, mem_cons_of_mem _ hc, hp⟩
  · rcases mem_cons.mp hb with rfl | hb
    · exact ⟨b, mem_cons_self, hv⟩
    · obtain ⟨c, hc, hv⟩ := h.covered v ⟨b, hb, hv⟩
      exact ⟨c, mem_cons_of_mem _ hc, hv⟩

theorem AllocsFrom.start_le (h : AllocsFrom lo l) : ∀ b ∈ l, lo ≤ b.vaddr :=
  fun _ hb => (h.ranges.bounds hb).1

/-- Behind the node the cut is in, nothing runs across it. -/
theorem AllocsFrom.cut_tail (h : AllocsFrom lo l) (hle : va ≤ lo) : Cut l va :=
  fun b hb hlt => absurd (h.start_le b hb) (by omega)

theorem splits_splitList (hva : va % pageSize = 0) (h : AllocsFrom lo l) :
    Splits va l (splitList l va) := by
  induction l generalizing lo with
  | nil => exact .refl fun _ hb => by simp at hb
  | cons a l ih =>
    have hal := h.aligned a mem_cons_self
    rw [splitList]
    split
    · refine Splits.cons (.refl (h.tail.cut_tail ?_)) fun hlt => by omega
      have := h.ranges.2.1
      omega
    split
    · rename_i hlt
      have hhead := UserAlloc.splitHead_end hal hva (by omega)
      have htail := UserAlloc.splitTail_end hal hva (Nat.le_of_lt hlt)
      have hrest := h.tail.cut_tail (Nat.le_of_lt hlt)
      refine ⟨fun b hb hb' => ?_, fun b hb => ?_, ?_⟩
      · simp only [mem_cons] at hb
        rcases hb with rfl | rfl | hb
        · exact Nat.le_of_eq hhead
        · exact absurd hb' (Nat.lt_irrefl _)
        · exact hrest b hb hb'
      · simp only [mem_cons] at hb
        rcases hb with rfl | rfl | hb
        · refine ⟨a, mem_cons_self, Nat.le_refl _, ?_, rfl, rfl, rfl, rfl⟩
          rw [hhead]; exact Nat.le_of_lt hlt
        · exact ⟨a, mem_cons_self, by
            change a.vaddr ≤ va; omega, Nat.le_of_eq htail, rfl, rfl, rfl, rfl⟩
        · exact ⟨b, mem_cons_of_mem _ hb, .rfl'⟩
      · rintro v ⟨b, hb, hv⟩
        rcases mem_cons.mp hb with rfl | hb
        · by_cases hlo : v < va
          · exact ⟨_, mem_cons_self, hv.1, by rw [hhead]; exact hlo⟩
          · exact ⟨_, mem_cons_of_mem _ mem_cons_self, by
              change va ≤ v; omega, by rw [htail]; exact hv.2⟩
        · exact ⟨b, mem_cons_of_mem _ (mem_cons_of_mem _ hb), hv⟩
    · next hge => exact (ih h.tail).cons fun _ => by omega

/-- No node of a list without one over `va` runs across it. -/
theorem cut_of_find_none (h : AllocsFrom lo l) (hf : allocFind l va = none) : Cut l va := by
  induction l generalizing lo with
  | nil => exact fun _ hb => by simp at hb
  | cons a l ih =>
    rw [allocFind] at hf
    split at hf
    · refine (Splits.cons (.refl (h.tail.cut_tail ?_)) fun hlt => ?_).cut
      · have := h.ranges.2.1
        omega
      · omega
    · split at hf
      · cases hf
      · next hge => exact ((Splits.refl (ih h.tail hf)).cons fun _ => by omega).cut

/-- Nor does one where a node starts. -/
theorem cut_of_find_start (h : AllocsFrom lo l) (hf : allocFind l va = some a)
    (ha : a.vaddr = va) : Cut l va := by
  induction l generalizing lo with
  | nil => cases hf
  | cons b l ih =>
    rw [allocFind] at hf
    split at hf
    · cases hf
    split at hf
    · rename_i hlt
      cases hf
      exact ((Splits.refl (h.tail.cut_tail (Nat.le_of_lt hlt))).cons fun hlt' => by omega).cut
    · next hge => exact ((Splits.refl (ih h.tail hf)).cons fun _ => by omega).cut

end split

theorem allocSplit_splits {s s' : Sys} {pid va : Nat} (hl : Listed s)
    (hva : va % pageSize = 0) (h : allocSplit s pid va = (true, s')) :
    Splits va (s.allocs pid) (s'.allocs pid) := by
  unfold allocSplit at h
  split at h
  · next hf => cases h; exact .refl (cut_of_find_none (hl pid) hf)
  rename_i a hf
  split at h
  · next hst => cases h; exact .refl (cut_of_find_start (hl pid) hf hst)
  have hk := kmalloc_same s
  split at h
  · cases h
  rename_i s1 he
  rw [he] at hk
  cases h
  have hc := hk.trans (userAllocCopy_same s1 a)
  have hsome : ((userAllocCopy s1 a).proc pid).isSome := by
    rw [hc.proc]
    unfold Sys.allocs at hf
    cases hp : s.proc pid with
    | some p => rfl
    | none => rw [hp] at hf; cases hf
  rw [Sys.allocs_setAllocs, if_pos ⟨rfl, hsome⟩, hc.allocs]
  exact splits_splitList hva (hl pid)

/-! ## `task_vma_unmap` -/

/-- Letting go of some nodes takes out their pages. -/
theorem foldl_unmapAlloc_sheds {s : Sys} (pid : Nat) {l : List UserAlloc}
    (hm : Linked s.mm) (hl : ∀ a ∈ l, a.vaddr % pageSize = 0 ∧ a.vaddr ≠ 0) :
    Sheds s.mm (l.foldl (unmapAlloc pid) s).mm ∧
      ∀ a ∈ l, ∀ j, j < a.pages → ((l.foldl (unmapAlloc pid) s).mm.pte (s.pageMap pid)
        (a.vaddr + j * pageSize)).present = false := by
  have hone : ∀ a ∈ l, ∀ t : Sys, Sheds s.mm t.mm → t.pageMap pid = s.pageMap pid →
      Sheds t.mm (unmapAlloc pid t a).mm ∧ ∀ j, j < a.pages →
        ((unmapAlloc pid t a).mm.pte (s.pageMap pid)
          (a.vaddr + j * pageSize)).present = false := fun a ha t hs hp => by
    obtain ⟨h1, h2⟩ := vmmUnmapFreePages_sheds (hs.linked hm) (hl a ha).1 (hl a ha).2
    have h3 : Sheds _ (unmapAlloc pid t a).mm := .of_spaces (userAllocFree_same
      { t with mm := vmmUnmapFreePages t.mm (t.pageMap pid) a.vaddr a.pages } a).spaces
    exact ⟨h1.trans h3, fun j hj => hp ▸ h3.present (h2 j hj)⟩
  have hall := foldl_all (P := fun t => Sheds s.mm t.mm ∧ t.pageMap pid = s.pageMap pid)
    (Q := fun a t => ∀ j, j < a.pages →
      (t.mm.pte (s.pageMap pid) (a.vaddr + j * pageSize)).present = false)
    (fun a ha t ⟨hs, hp⟩ => ⟨hs.trans (hone a ha t hs hp).1,
      ((unmapAlloc_same t pid a).pageMap pid).trans hp⟩)
    (fun a ha t ⟨hs, hp⟩ => (hone a ha t hs hp).2)
    (fun a ha b t ⟨hs, hp⟩ hb j hj => (hone a ha t hs hp).1.present (hb j hj))
    ⟨.rfl', rfl⟩
  exact ⟨hall.2.2.1, hall.1⟩

/-- The nodes `task_vma_unmap` takes out, once they are cut. -/
def vmaGone (addr fin : Nat) (l : List UserAlloc) : List UserAlloc :=
  (l.takeWhile fun a => a.vaddr < fin).filter fun a => ¬ a.vaddr < addr

/-- The nodes it keeps. -/
def vmaKept (addr fin : Nat) (l : List UserAlloc) : List UserAlloc :=
  (l.takeWhile fun a => a.vaddr < fin).filter (fun a => a.vaddr < addr)
    ++ l.dropWhile fun a => a.vaddr < fin

/-- What `task_vma_unmap` comes to. -/
theorem taskVmaUnmap_cases (s : Sys) (pid addr len : Nat) :
    (∃ s', allocSplit s pid addr = (false, s') ∧
      taskVmaUnmap s pid addr len = (.error .enomem, s')) ∨
    ∃ s1, allocSplit s pid addr = (true, s1) ∧
      ((∃ s', allocSplit s1 pid (addr + len) = (false, s') ∧
        taskVmaUnmap s pid addr len = (.error .enomem, s')) ∨
      ∃ s2, allocSplit s1 pid (addr + len) = (true, s2) ∧ taskVmaUnmap s pid addr len = (.ok (),
          (vmaGone addr (addr + len) (s2.allocs pid)).foldl (unmapAlloc pid)
            (s2.setAllocs pid (vmaKept addr (addr + len) (s2.allocs pid))))) := by
  unfold taskVmaUnmap
  cases h1 : allocSplit s pid addr with
  | mk b1 s1 =>
  cases b1 with
  | false => exact .inl ⟨s1, rfl, rfl⟩
  | true =>
    refine .inr ⟨s1, rfl, ?_⟩
    dsimp only
    cases h2 : allocSplit s1 pid (addr + len) with
    | mk b2 s2 =>
    cases b2 with
    | false => exact .inl ⟨s2, rfl, rfl⟩
    | true => exact .inr ⟨s2, rfl, rfl⟩

theorem mem_vmaGone {lo addr fin : Nat} {l : List UserAlloc} {a : UserAlloc} (h : AllocsFrom lo l) :
    a ∈ vmaGone addr fin l ↔ a ∈ l ∧ addr ≤ a.vaddr ∧ a.vaddr < fin := by
  have htake : a ∈ l.takeWhile (fun a => a.vaddr < fin) ↔ a ∈ l ∧ a.vaddr < fin := by
    induction l generalizing lo with
    | nil => simp
    | cons b l ih =>
      rw [takeWhile_cons]
      by_cases hb : b.vaddr < fin
      · rw [if_pos (by simpa using hb), mem_cons, mem_cons, ih h.tail]
        constructor
        · rintro (rfl | ⟨hm, hlt⟩)
          · exact ⟨.inl rfl, hb⟩
          · exact ⟨.inr hm, hlt⟩
        · rintro ⟨rfl | hm, hlt⟩
          · exact .inl rfl
          · exact .inr ⟨hm, hlt⟩
      · rw [if_neg (by simpa using hb)]
        refine ⟨fun hm => by simp at hm, fun ⟨hm, hlt⟩ => ?_⟩
        -- the list is sorted, so nothing behind `b` starts before `fin`
        rcases mem_cons.mp hm with rfl | hm
        · exact absurd hlt hb
        have := h.tail.start_le a hm
        have := h.ranges.2.1
        omega
  unfold vmaGone
  rw [mem_filter]
  simp only [not_lt, decide_eq_true_eq]
  tauto

/-- A page of the range that a node covered is gone once the range is unmapped. -/
theorem taskVmaUnmap_left {s s' : Sys} {pid addr len : Nat} (hm : Linked s.mm)
    (hl : Listed s) (ha : addr % pageSize = 0) (hlen : len % pageSize = 0)
    (h : taskVmaUnmap s pid addr len = (.ok (), s')) :
    Sheds s.mm s'.mm ∧ ∀ va, va % pageSize = 0 → addr ≤ va → va < addr + len →
      Covered (s.allocs pid) va → (s'.mm.pte (s.pageMap pid) va).present = false := by
  have hfin : (addr + len) % pageSize = 0 := by unfold pageSize at *; omega
  rcases taskVmaUnmap_cases s pid addr len with
    ⟨_, -, he⟩ | ⟨s1, he1, ⟨_, -, he⟩ | ⟨s2, he2, he⟩⟩
  · rw [he] at h; cases h
  · rw [he] at h; cases h
  · rw [he] at h
    cases h
    have hmm1 := allocSplit_spaces s pid addr
    have hd1 := allocSplit_edits (R := SameProcs) s pid addr
    rw [he1] at hmm1 hd1
    have hl1 := hd1.listed ha hl
    have hmm2 := allocSplit_spaces s1 pid (addr + len)
    have hd2 := allocSplit_edits (R := SameProcs) s1 pid (addr + len)
    rw [he2] at hmm2 hd2
    have hl2 := hd2.listed hfin hl1
    have ht2 := hd1.tasks.trans hd2.tasks
    have hsp1 := allocSplit_splits hl ha he1
    have hsp2 := allocSplit_splits hl1 hfin he2
    have hpm : (s2.setAllocs pid (vmaKept addr (addr + len) (s2.allocs pid))).pageMap pid
        = s.pageMap pid := Sys.pageMap_setAllocs.trans (ht2.pageMap pid)
    have hmm : Sheds s.mm (s2.setAllocs pid (vmaKept addr (addr + len) (s2.allocs pid))).mm :=
      .of_spaces (hmm2.trans hmm1)
    obtain ⟨hs, hclear⟩ := foldl_unmapAlloc_sheds pid
      (l := vmaGone addr (addr + len) (s2.allocs pid)) (hmm.linked hm) fun a hmem => by
        have hin := (mem_vmaGone (hl2 pid)).mp hmem
        have hbase := (hl2 pid).start_le a hin.1
        exact ⟨(hl2 pid).aligned a hin.1, by unfold userMmapBase at hbase; omega⟩
    rw [hpm] at hclear
    refine ⟨hmm.trans hs, fun va hva hlo hhi hcov => ?_⟩
    -- the node over the page is cut at both ends of the range
    obtain ⟨a, hmem, hav, hva'⟩ := hsp2.covered va (hsp1.covered va hcov)
    have hcut : addr ≤ a.vaddr := by
      by_contra hlt
      have := hsp2.cuts hsp1.cut a hmem (by omega)
      omega
    have hal := (hl2 pid).aligned a hmem
    have hgone := hclear a ((mem_vmaGone (hl2 pid)).mpr ⟨hmem, hcut, by omega⟩)
      ((va - a.vaddr) / pageSize) (by
        unfold UserAlloc.allocEnd at hva'; unfold pageSize at *; omega)
    have hpage : a.vaddr + (va - a.vaddr) / pageSize * pageSize = va := by
      unfold pageSize at *; omega
    rwa [hpage] at hgone

/-! ## Where a new range goes -/

/-- A node in a list that is in order shares no page with the others. -/
theorem AllocsFrom.not_covered {lo va : Nat} {xs ys : List UserAlloc} {a : UserAlloc}
    (h : AllocsFrom lo (xs ++ a :: ys)) (hlo : a.vaddr ≤ va) (hhi : va < a.allocEnd) :
    ¬ Covered (xs ++ ys) va := by
  rintro ⟨b, hb, hbv, hbe⟩
  have hp := pairwise_append.mp h.ranges.pairwise
  rcases mem_append.mp hb with hb | hb
  · have := hp.2.2 b hb a mem_cons_self
    omega
  · have := (pairwise_cons.mp hp.2.1).1 b hb
    omega

/-- A range was reserved: it was free, and it is a node now. -/
structure Reserves (s : Sys) (pid base pages : Nat) (s1 : Sys) : Prop where
  mm : s1.mm = s.mm
  free : ∀ va, base ≤ va → va < base + pages * pageSize → ¬ Covered (s.allocs pid) va
  nodes : ∀ b ∈ s1.allocs pid, b ∈ s.allocs pid ∨ b = UserAlloc.reserved base pages

section reserves

variable {s s1 : Sys} {pid base pages : Nat}

/-- The node goes between the two halves of the list. -/
theorem Reserves.insert {t : Sys} {xs ys : List UserAlloc} (hmm : t.mm = s.mm)
    (ht : SameProcs s t) (happ : xs ++ ys = s.allocs pid)
    (hok : AllocsOk (xs ++ UserAlloc.reserved base pages :: ys)) :
    Reserves s pid base pages (t.setAllocs pid (xs ++ UserAlloc.reserved base pages :: ys)) := by
  refine ⟨hmm, fun va hlo hhi => happ ▸ hok.not_covered hlo hhi, fun b hb => ?_⟩
  rw [Sys.allocs_setAllocs] at hb
  split at hb
  · rw [← happ, mem_append]
    rcases mem_append.mp hb with hb | hb
    · exact .inl (.inl hb)
    rcases mem_cons.mp hb with rfl | hb
    · exact .inr rfl
    · exact .inl (.inr hb)
  · exact .inl (ht.allocs pid ▸ hb)

theorem Reserving.reserves {B : Nat → Prop} (h : Reserving B s pid pages (some base) s1)
    (hl : Listed s) : Reserves s pid base pages s1 := by
  cases h with
  | takes hk hb happ hok =>
    subst hk
    exact .insert (kmalloc_mm s) (kmalloc_same s).toSameProcs happ (hok (hl pid)).2

theorem Reserving.of_none {B : Nat → Prop} (h : Reserving B s pid pages none s1) :
    SameProcs s s1 ∧ s1.mm = s.mm := by
  cases h with
  | refused => exact ⟨.rfl', rfl⟩
  | short hk => exact hk ▸ ⟨(kmalloc_same s).toSameProcs, kmalloc_mm s⟩

/-- What `vmaPlace` comes to when it finds a place. -/
theorem vmaPlace_ok {hint len : Nat} {flags : MapFlags} (hl : Listed s)
    (hlen : len % pageSize = 0) (h : vmaPlace s pid hint len flags = (.ok base, s1)) :
    (∃ s0, taskVmaUnmap s pid hint len = (.ok (), s0) ∧ hint % pageSize = 0 ∧
      base = hint ∧ Reserves s0 pid base (len / pageSize) s1) ∨
    ∃ s0, SameProcs s s0 ∧ s0.mm = s.mm ∧ Reserves s0 pid base (len / pageSize) s1 := by
  have hp : Placing s pid hint len (some base) s1 := by
    have := vmaPlace_placing s pid hint len flags
    rwa [h] at this
  cases hp with
  | replaced hal hu hr =>
    have hl0 := (taskVmaUnmap_edits s pid hint len).listed ⟨hal, hlen⟩ hl
    rw [hu] at hl0
    exact .inl ⟨_, hu, hal, (hr.placed hl0).1, hr.reserves hl0⟩
  | free h0 hr =>
    rcases h0 with hs | h0
    · exact .inr ⟨s, .rfl', rfl, (hs ▸ hr).reserves hl⟩
    · obtain ⟨hs, hmm⟩ := h0.of_none
      exact .inr ⟨_, hs, hmm, hr.reserves (hl.same hs)⟩

end reserves

/-- What `task_vma_map` finds where it puts its range: only what was in no node. -/
theorem vmaPlace_left {s s1 : Sys} {pid hint len base : Nat} {flags : MapFlags}
    (hm : Linked s.mm) (hl : Listed s) (hlen : len % pageSize = 0)
    (h : vmaPlace s pid hint len flags = (.ok base, s1)) :
    Sheds s.mm s1.mm ∧ ∀ i, i < len / pageSize → Covered (s.allocs pid) (base + i * pageSize) →
      (s1.mm.pte (s.pageMap pid) (base + i * pageSize)).present = false := by
  rcases vmaPlace_ok hl hlen h with ⟨s0, hu, hal, rfl, hr⟩ | ⟨s0, hs, hmm, hr⟩
  · obtain ⟨hs, hgone⟩ := taskVmaUnmap_left hm hl hal hlen hu
    rw [hr.mm]
    exact ⟨hs, fun i hi => hgone _ (by unfold pageSize at *; omega)
      (Nat.le_add_right _ _) (by unfold pageSize at *; omega)⟩
  · rw [hr.mm, hmm]
    refine ⟨.rfl', fun i hi hc => absurd (hs.allocs pid ▸ hc) (hr.free _ ?_ ?_)⟩
    · exact Nat.le_add_right _ _
    · exact Nat.add_lt_add_left (Nat.mul_lt_mul_of_pos_right hi (by decide)) _

end BleedKernel.Mm
