import BleedKernel.Lib.Ranges
import BleedKernel.Lib.Run
import BleedKernel.Model.Ipc

/-!
# The alloc list stays in order

Everything that edits the list of mappings finds its place by walking it, and
the walk is only right on a list that is sorted, disjoint and inside the mmap
window. Here every edit is shown to leave such a list behind.
-/

namespace BleedKernel.Mm

open BleedKernel.Lib UserAlloc List

variable {l' : List UserAlloc} {addr pages : Nat}

/-! ## The list alone -/

/-- The list along its nodes, from `lo` on: ranges that end inside the mmap
window, on page boundaries. -/
structure AllocsFrom (lo : Nat) (l : List UserAlloc) : Prop where
  ranges : Ranges vaddr allocEnd userMmapLimit lo l
  aligned : ∀ a ∈ l, a.vaddr % pageSize = 0

/-- The whole list is one that starts inside the window. -/
abbrev AllocsOk (l : List UserAlloc) : Prop := AllocsFrom userMmapBase l

/-- One node is where it may be. -/
structure UserAlloc.Ok (a : UserAlloc) : Prop where
  aligned : a.vaddr % pageSize = 0
  nonempty : 0 < a.pages
  base : userMmapBase ≤ a.vaddr
  limit : a.allocEnd ≤ userMmapLimit

/-- The list as a whole: strictly sorted, disjoint, every node in its place. -/
structure AllocListOk (l : List UserAlloc) : Prop where
  sorted : l.Pairwise fun a b => a.vaddr < b.vaddr
  disjoint : l.Pairwise fun a b => a.allocEnd ≤ b.vaddr ∨ b.allocEnd ≤ a.vaddr
  node : ∀ a ∈ l, a.Ok

theorem UserAlloc.lt_allocEnd_iff (a : UserAlloc) : a.vaddr < a.allocEnd ↔ 0 < a.pages := by
  unfold allocEnd pageSize; omega

theorem allocsOk_iff (l : List UserAlloc) : AllocsOk l ↔ AllocListOk l := by
  constructor
  · intro h
    have hp := h.ranges.pairwise
    refine ⟨hp.imp_of_mem fun ha _ hab => ?_, hp.imp .inl, fun a ha => ?_⟩
    · have := h.ranges.bounds ha; omega
    · have hb := h.ranges.bounds ha
      exact ⟨h.aligned a ha, a.lt_allocEnd_iff.mp hb.2.1, hb.1, hb.2.2⟩
  · intro h
    refine ⟨Ranges.of_pairwise ?_ (fun a ha => ?_) (by decide), fun a ha => (h.node a ha).aligned⟩
    · refine (h.sorted.and h.disjoint).imp_of_mem fun {a b} _ hb hab => ?_
      have := b.lt_allocEnd_iff.mpr (h.node b hb).nonempty
      omega
    · exact ⟨(h.node a ha).base, a.lt_allocEnd_iff.mpr (h.node a ha).nonempty, (h.node a ha).limit⟩

namespace AllocsFrom

variable {lo : Nat} {a : UserAlloc} {l : List UserAlloc}

theorem tail (h : AllocsFrom lo (a :: l)) : AllocsFrom a.allocEnd l :=
  ⟨h.ranges.2.2, fun b hb => h.aligned b (by simp [hb])⟩

/-- The gap before a node is measured in wrapping arithmetic, and on a list that is in order
there is nothing to wrap. -/
theorem gap_eq (h : AllocsFrom lo (a :: l)) :
    (a.vaddr + (2 ^ 64 - lo)) % 2 ^ 64 = a.vaddr - lo := by
  have hb := h.ranges.bounds (a := a) (by simp)
  unfold userMmapLimit at hb
  omega

/-- Put a node back in front of what the loop made of the rest. -/
theorem cons (h : AllocsFrom lo (a :: l))
    (h' : AllocsFrom a.allocEnd l') : AllocsFrom lo (a :: l') :=
  ⟨⟨h.ranges.1, h.ranges.2.1, h'.ranges⟩, fun b hb => by
    rcases mem_cons.mp hb with rfl | hb
    · exact h.aligned _ (by simp)
    · exact h'.aligned b hb⟩

theorem sublist (h : AllocsFrom lo l) (hs : l'.Sublist l) : AllocsFrom lo l' :=
  ⟨h.ranges.sublist hs, fun b hb => h.aligned b (hs.subset hb)⟩

theorem replace (xs : List UserAlloc) (h : AllocsFrom lo (a :: l))
    (hx : Ranges vaddr allocEnd a.allocEnd a.vaddr xs)
    (hal : ∀ b ∈ xs, b.vaddr % pageSize = 0) : AllocsFrom lo (xs ++ l) :=
  ⟨h.ranges.replace hx, fun b hb => by
    rcases mem_append.mp hb with hb | hb
    · exact hal b hb
    · exact h.aligned b (by simp [hb])⟩

/-- A node stays where it is whatever else is stored in it. -/
theorem modify {g : UserAlloc → UserAlloc} (hg : ∀ a, (g a).vaddr = a.vaddr ∧ (g a).pages = a.pages)
    (h : AllocsFrom lo l) : AllocsFrom lo (allocModify g l addr) := by
  induction l generalizing lo with
  | nil => exact h
  | cons a l ih =>
    rw [allocModify]
    split
    · exact h
    split
    · have he : (g a).allocEnd = a.allocEnd := by
        unfold allocEnd; rw [(hg a).1, (hg a).2]
      refine ⟨⟨?_, ?_, ?_⟩, fun b hb => ?_⟩
      · rw [(hg a).1]; exact h.ranges.1
      · rw [(hg a).1, he]; exact h.ranges.2.1
      · rw [he]; exact h.ranges.2.2
      · rcases mem_cons.mp hb with rfl | hb
        · rw [(hg a).1]; exact h.aligned a (by simp)
        · exact h.aligned b (by simp [hb])
    · exact h.cons (ih h.tail)

theorem unlink {b : UserAlloc} (h : AllocsFrom lo l) (hu : allocListUnlink addr l = some (b, l')) :
    AllocsFrom lo l' ∧ b ∈ l := by
  induction l generalizing lo l' with
  | nil => cases hu
  | cons a l ih =>
    rw [allocListUnlink] at hu
    split at hu
    · obtain ⟨⟨c, l''⟩, hc, he⟩ := Option.map_eq_some_iff.mp hu
      cases he
      obtain ⟨h1, h2⟩ := ih h.tail hc
      exact ⟨h.cons h1, by simp [h2]⟩
    · cases hu
      exact ⟨⟨h.tail.ranges.weaken (by
        have := h.ranges.1; have := h.ranges.2.1; omega), h.tail.aligned⟩, by simp⟩

/-- Cutting a node in two. -/
theorem split {va : Nat} (hva : va % pageSize = 0) (h : AllocsFrom lo l)
    (hne : ∀ a, allocFind l va = some a → a.vaddr ≠ va) :
    AllocsFrom lo (splitList l va) := by
  induction l generalizing lo with
  | nil => exact h
  | cons a l ih =>
    rw [splitList]
    split
    · exact h
    rename_i hle
    split
    · rename_i hlt
      have hal := h.aligned a (by simp)
      have hlt' : a.vaddr < va := by
        have := hne a (by rw [allocFind, if_neg hle, if_pos hlt]); omega
      refine h.replace ([a.splitHead va, a.splitTail va]) ?_ ?_
      · unfold Ranges Ranges Ranges splitHead splitTail
        unfold allocEnd pageSize at *
        dsimp only
        omega
      · intro b hb
        simp only [mem_cons, not_mem_nil, or_false] at hb
        rcases hb with rfl | rfl
        · exact hal
        · exact hva
    · rename_i hge
      refine h.cons (ih h.tail fun b hb => hne b ?_)
      rw [allocFind, if_neg hle, if_neg hge]; exact hb

/-- First fit. -/
theorem reserve (pages : Nat) (hp : 0 < pages) (hlo : lo % pageSize = 0) (h : AllocsFrom lo l)
    (hfit : pages ≤ (userMmapLimit - (reserveLoop pages lo l).1) / pageSize) :
    AllocsFrom lo ((reserveLoop pages lo l).2.1 ++ reserved (reserveLoop pages lo l).1 pages
      :: (reserveLoop pages lo l).2.2) ∧
    (reserveLoop pages lo l).1 % pageSize = 0 := by
  induction l generalizing lo with
  | nil =>
    rw [reserveLoop] at hfit ⊢
    refine ⟨⟨⟨Nat.le_refl _, ?_, ?_⟩, fun b hb => ?_⟩, hlo⟩
    · exact (lt_allocEnd_iff _).mpr hp
    · unfold Ranges allocEnd reserved pageSize at *
      dsimp only at *
      omega
    · rw [nil_append, mem_singleton] at hb
      rw [hb]; exact hlo
  | cons a l ih =>
    have hb := h.ranges.bounds (a := a) (by simp)
    rw [reserveLoop, h.gap_eq] at hfit ⊢
    have hal := h.aligned a (by simp)
    by_cases hge : (a.vaddr - lo) / pageSize ≥ pages
    · rw [if_pos hge]
      refine ⟨⟨⟨Nat.le_refl _, ?_, ?_, h.ranges.2⟩, fun b hb' => ?_⟩, hlo⟩
      · exact (lt_allocEnd_iff _).mpr hp
      · unfold allocEnd reserved pageSize at *
        dsimp only at *
        omega
      · rcases mem_cons.mp hb' with rfl | hb'
        · exact hlo
        · exact h.aligned b hb'
    · rw [if_neg hge] at hfit ⊢
      obtain ⟨h1, h2⟩ := ih (by unfold allocEnd pageSize at *; omega) h.tail hfit
      exact ⟨h.cons h1, h2⟩

/-- A fixed place, taken only when nothing runs into it. -/
theorem reserveAt {r : List UserAlloc × List UserAlloc}
    (hp : 0 < pages) (hal : addr % pageSize = 0) (hlo : lo ≤ addr)
    (hfit : addr + pages * pageSize ≤ userMmapLimit) (h : AllocsFrom lo l)
    (hr : reserveAtLoop addr (addr + pages * pageSize) l = some r) :
    AllocsFrom lo (r.1 ++ reserved addr pages :: r.2) := by
  have hnew : addr < (reserved addr pages).allocEnd :=
    (lt_allocEnd_iff (reserved addr pages)).mpr hp
  induction l generalizing lo r with
  | nil =>
    cases hr
    refine ⟨⟨hlo, hnew, hfit⟩, fun b hb => ?_⟩
    rw [nil_append, mem_singleton] at hb
    rw [hb]; exact hal
  | cons a l ih =>
    rw [reserveAtLoop] at hr
    split at hr
    · rename_i hge
      cases hr
      refine ⟨⟨hlo, hnew, hge, h.ranges.2⟩, fun b hb => ?_⟩
      rcases mem_cons.mp hb with rfl | hb
      · exact hal
      · exact h.aligned b hb
    · split at hr
      · cases hr
      · obtain ⟨r', hr', he⟩ := Option.map_eq_some_iff.mp hr
        subst he
        exact h.cons (ih (by omega) h.tail hr')

/-- What is left of a node with a range out of it lies inside the node. -/
theorem detached {rangeEnd : Nat} (hva : a.vaddr % pageSize = 0)
    (hal : addr % pageSize = 0) (hend : rangeEnd = addr + pages * pageSize)
    (hp : 0 < pages) (hlo : a.vaddr ≤ addr) (hhi : rangeEnd ≤ a.allocEnd) :
    Ranges UserAlloc.vaddr UserAlloc.allocEnd a.allocEnd a.vaddr (a.detached addr rangeEnd pages) ∧
      ∀ b ∈ a.detached addr rangeEnd pages, b.vaddr % pageSize = 0 := by
  have hre : rangeEnd % pageSize = 0 := by unfold pageSize at *; omega
  unfold UserAlloc.detached
  cases hk : detachKind a addr rangeEnd with
  | whole =>
    refine ⟨?_, by simp⟩
    unfold Ranges
    omega
  | front =>
    have hne : addr = a.vaddr ∧ rangeEnd ≠ a.allocEnd := by
      unfold detachKind at hk
      split at hk
      · cases hk
      rename_i h1
      split at hk
      · next h2 => exact ⟨h2, fun h3 => h1 ⟨h2, h3⟩⟩
      · split at hk <;> cases hk
    refine ⟨?_, by simpa using hre⟩
    unfold Ranges Ranges allocEnd pageSize at *
    dsimp only
    omega
  | back =>
    have hne : addr ≠ a.vaddr ∧ rangeEnd = a.allocEnd := by
      unfold detachKind at hk
      split at hk
      · cases hk
      split at hk
      · cases hk
      rename_i h2
      split at hk
      · next h3 => exact ⟨h2, h3⟩
      · cases hk
    refine ⟨?_, by simpa using hva⟩
    unfold Ranges Ranges allocEnd pageSize at *
    dsimp only
    omega
  | middle =>
    have hne : addr ≠ a.vaddr ∧ rangeEnd ≠ a.allocEnd := by
      unfold detachKind at hk
      split at hk
      · cases hk
      split at hk
      · cases hk
      rename_i h2
      split at hk
      · cases hk
      · next h3 => exact ⟨h2, h3⟩
    refine ⟨?_, by simp [hva, hre]⟩
    unfold Ranges Ranges Ranges allocEnd pageSize at *
    dsimp only
    omega

/-- Taking a range out of the node it lies in. -/
theorem detach {rangeEnd : Nat} {b : UserAlloc}
    (hal : addr % pageSize = 0) (hend : rangeEnd = addr + pages * pageSize)
    (hp : 0 < pages) (h : AllocsFrom lo l)
    (hd : detachList addr rangeEnd pages l = some (b, l')) : AllocsFrom lo l' := by
  induction l generalizing lo l' with
  | nil => cases hd
  | cons a l ih =>
    rw [detachList] at hd
    split at hd
    · obtain ⟨⟨c, l''⟩, hc, he⟩ := Option.map_eq_some_iff.mp hd
      cases he
      exact h.cons (ih h.tail hc)
    · cases hd
      have hd := detached (h.aligned b (by simp)) hal hend hp (by omega) (by omega)
      exact h.replace _ hd.1 hd.2

end AllocsFrom

/-- A node that was found is one of the list, and the address is in it. -/
theorem allocFind_some {l : List UserAlloc} {a : UserAlloc}
    (h : allocFind l addr = some a) : a ∈ l ∧ a.vaddr ≤ addr ∧ addr < a.allocEnd := by
  induction l with
  | nil => cases h
  | cons b l ih =>
    rw [allocFind] at h
    split at h
    · cases h
    split at h
    · cases h; exact ⟨by simp, by omega, by assumption⟩
    · obtain ⟨h1, h2⟩ := ih h
      exact ⟨by simp [h1], h2⟩

/-- A mapping is in the user half. -/
theorem AllocsFrom.find_lt {lo : Nat} {l : List UserAlloc} {a : UserAlloc}
    (h : AllocsFrom lo l) (hf : allocFind l addr = some a) : addr < 2 ^ 47 := by
  obtain ⟨hmem, -, hlt⟩ := allocFind_some hf
  have := (h.ranges.bounds hmem).2.2
  unfold userMmapLimit at this
  omega

end BleedKernel.Mm
