import BleedKernel.Proofs.PageTables

/-!
# The faults answered from the page tables

A write to a copy-on-write page, and a touch of the stack below what is mapped.
Both either do nothing or leave the page usable, and neither unbalances the
ledger, whatever the allocator answers.
-/

namespace BleedKernel.Mm

open BleedKernel.Lib Memory

variable {pool slack lost own slots : Frame → Nat} {m m' : Memory} {cr3 : Cr3}

variable {va i : Nat}

/-- What `paging_get_page` found is the entry, and it is present. -/
theorem pagingGetPage_some {p : Pte} (h : pagingGetPage m cr3 va = some p) :
    p = m.pte cr3 va ∧ p.present = true := by
  unfold pagingGetPage at h
  split at h
  · rename_i hc
    cases h
    exact ⟨rfl, (Bool.and_eq_true_iff.mp hc).2⟩
  · cases h

/-- It finds every present entry. -/
theorem Linked.pagingGetPage (h : Linked m) (hp : (m.pte cr3 va).present = true) :
    pagingGetPage m cr3 va = some (m.pte cr3 va) := by
  have hne : m.pteAt cr3 (pageIdx va) ≠ {} := fun e => by
    unfold Memory.pte at hp; rw [e] at hp; cases hp
  unfold Mm.pagingGetPage
  rw [h.getTable (h.pte cr3 _ hne), hp]
  rfl

theorem Linked.absent (h : Linked m) (hg : Mm.pagingGetPage m cr3 va = none) :
    (m.pte cr3 va).present = false := by
  cases hp : (m.pte cr3 va).present with
  | false => rfl
  | true => rw [h.pagingGetPage hp] at hg; cases hg

/-- The faulting access was a user's write to a present copy-on-write page. -/
structure CowWrite (m : Memory) (cr3 : Cr3) (page err : Nat) : Prop where
  err : err % 8 = 7
  present : (m.pte cr3 page).present = true
  cow : (m.pte cr3 page).cow = true

/-- Everything a copy-on-write fault can do: refuse, run out of memory, copy the
frame, or take the frame back. -/
theorem pagingHandleCowFault_cases (m : Memory) (cr3 : Cr3) (va err : Nat) :
    pagingHandleCowFault m cr3 va err = (false, m) ∨
    (CowWrite m cr3 (pageAlignDown va) err ∧ ∃ m1, pmmAllocPages (cowInit m) = (none, m1) ∧
      pagingHandleCowFault m cr3 va err = (false, m1)) ∨
    (CowWrite m cr3 (pageAlignDown va) err ∧ 1 < m.refs (m.pte cr3 (pageAlignDown va)).phys ∧
      ∃ new m1, pmmAllocPages (cowInit m) = (some new, m1) ∧
      pagingHandleCowFault m cr3 va err = (true, (cowUnrefPage
          ((m1.setBytes new (m1.bytes (m.pte cr3 (pageAlignDown va)).phys)).setPteAt
            cr3 (pageIdx (pageAlignDown va))
            ((m.pte cr3 (pageAlignDown va)).taken.withPhys new))
          (m.pte cr3 (pageAlignDown va)).phys).2)) ∨
    (CowWrite m cr3 (pageAlignDown va) err ∧ m.refs (m.pte cr3 (pageAlignDown va)).phys ≤ 1 ∧
      pagingHandleCowFault m cr3 va err = (true, (cowUnrefPage ((cowInit m).setPteAt cr3
            (pageIdx (pageAlignDown va)) (m.pte cr3 (pageAlignDown va)).taken)
          (m.pte cr3 (pageAlignDown va)).phys).2)) := by
  unfold pagingHandleCowFault
  by_cases herr : err % 8 = 7
  · rw [if_neg (by simpa using herr)]
    dsimp only
    generalize pageAlignDown va = page
    cases hpte : pagingGetPage m cr3 page with
    | none => exact .inl rfl
    | some p =>
      obtain ⟨rfl, hp⟩ := pagingGetPage_some hpte
      dsimp only
      cases hc : (m.pte cr3 page).cow with
      | false => exact .inl rfl
      | true =>
        rw [cowGetRefcount_fst, cowGetRefcount_snd]
        by_cases hr : 1 < m.refs (m.pte cr3 page).phys
        · rw [if_pos hr]
          rcases pmmAllocPages_cases (cowInit m) with
            ⟨rest, ha⟩ | ⟨new, rest, -, -, ha⟩
          · rw [ha]; exact .inr (.inl ⟨⟨herr, hp, hc⟩, _, rfl, rfl⟩)
          · rw [ha]
            exact .inr (.inr (.inl ⟨⟨herr, hp, hc⟩, hr, new, _, rfl, rfl⟩))
        · rw [if_neg hr]
          exact .inr (.inr (.inr ⟨⟨herr, hp, hc⟩, by omega, rfl⟩))
  · rw [if_pos herr]; exact .inl rfl

/-- The entry after a copy-on-write fault that was answered. -/
theorem pte_pagingHandleCowFault (cr3 : Cr3) (va err : Nat)
    (h : (pagingHandleCowFault m cr3 va err).1 = true) :
    CowWrite m cr3 (pageAlignDown va) err ∧ ∃ f,
      (pagingHandleCowFault m cr3 va err).2.pte cr3 (pageAlignDown va)
        = (m.pte cr3 (pageAlignDown va)).taken.withPhys f := by
  have hset : ∀ (m1 : Memory) (p : Pte) (f : Frame), CowWrite m cr3 (pageAlignDown va) err →
      (∀ c, (m1.space c).isSome = (m.space c).isSome) →
      (cowUnrefPage (m1.setPteAt cr3 (pageIdx (pageAlignDown va)) p) f).2.pte cr3
        (pageAlignDown va) = p := fun m1 p f hw hs => by
    have hsp : (m1.space cr3).isSome := by
      rw [hs]
      refine space_of_pteAt (i := pageIdx (pageAlignDown va)) fun e => ?_
      have := hw.present
      unfold pte at this
      rw [e] at this
      cases this
    unfold pte
    rw [pteAt_congr (cowUnrefPage_rest _ _).2.1, pteAt_setPteAt, if_pos ⟨rfl, rfl, hsp⟩]
  have hinit : ∀ c, ((cowInit m).space c).isSome = (m.space c).isSome := fun c => by
    rw [space_congr (cowInit_rest m).2.1]
  rcases pagingHandleCowFault_cases m cr3 va err with
    hr | ⟨-, m1, -, hr⟩ | ⟨hw, -, new, m1, ha, hr⟩ | ⟨hw, -, hr⟩
  · rw [hr] at h; cases h
  · rw [hr] at h; cases h
  · have hq := Quiet.alloc (cowInit m)
    rw [ha] at hq
    rw [hr]
    exact ⟨hw, new, hset _ _ _ hw fun c => (hq.space c).trans (hinit c)⟩
  · rw [hr]
    exact ⟨hw, (m.pte cr3 (pageAlignDown va)).phys, hset _ _ _ hw hinit⟩

/-- A user address has its slot in the lower half. -/
theorem pageIdx_lt (h : va < 2 ^ 47) : pageIdx va < 2 ^ 35 := by
  unfold pageIdx pageSize pageSlots
  omega

namespace MemOk

section

variable (h : MemOk pool slack lost own slots m)

include h

/-- The table over a present entry. -/
theorem table_of_present
    (hp : (m.pteAt cr3 i).present = true) : (m.tableAt cr3 (1, i / 512)).isSome :=
  h.linked.pte cr3 i fun e => by rw [e] at hp; cases hp

theorem slot_lt (ht : (m.tableAt cr3 (1, i / 512)).isSome) : i < pageSlots := by
  have := h.linked.slot_lt ht
  unfold pageSlots
  omega

/-- What a present entry counts for is part of the count. -/
theorem pte_le {p : Pte} (hP : m.pteAt cr3 i = p) (hp : p.present = true) (w : Pte → Nat) :
    w p ≤ ptes m w := by
  subst hP
  have ht := h.table_of_present hp
  exact le_ptes w (space_of_tableAt _ ht) (h.slot_lt ht)

/-- A frame that a copy-on-write entry refers to is counted. -/
theorem refs_pos_of_cow {p : Pte} (hP : m.pteAt cr3 i = p) (hp : p.present = true)
    (hc : p.cow = true) : 0 < m.refs p.phys ∧ ptes m (sharedW p.phys) + slots p.phys = 0 := by
  obtain ⟨-, hsh, hn⟩ := (hP ▸ h.wf cr3 i).cow hc
  have hle := h.pte_le hP hp (cowW p.phys)
  rw [(weights_cow hp hn hc hsh p.phys).2.1, decide_eq_true rfl, Bool.toNat_true] at hle
  have hcnt := h.ledger.count p.phys
  have hk := h.ledger.kind p.phys
  exact ⟨by omega, by omega⟩

end

/-- Taking a copy-on-write frame for oneself: the entry becomes private and
refers to a frame in hand, its reference is given back. -/
theorem copyCow {p : Pte} (h : MemOk pool slack lost (bump own p.phys) slots m)
    (hp : (m.pteAt cr3 i).present = true) (hc : (m.pteAt cr3 i).cow = true)
    (hp' : p.present = true) (hn' : p.nofree = false) (hc' : p.cow = false)
    (hs' : p.shared = false) :
    MemOk pool (bump slack (m.pteAt cr3 i).phys) lost own slots (m.setPteAt cr3 i p) := by
  have ht := h.table_of_present hp
  obtain ⟨-, hsh, hn⟩ := (h.wf cr3 i).cow hc
  have hold := weights_cow hp hn hc hsh
  have hnew := weights_priv hp' hn' hc' hs'
  refine h.setPte ⟨fun hf => ?_, fun hf => ?_, fun _ => hs'⟩ ht (fun f => ?_)
    (fun f => ?_) (fun f => .inl ?_) (fun f => .inl ?_)
  · rw [hp'] at hf; cases hf
  · rw [hc'] at hf; cases hf
  · rw [(hold f).1, (hnew f).1, bump]; omega
  · rw [(hold f).2.1, (hold f).2.2, (hnew f).2.1, (hnew f).2.2, bump]
  · rw [(hnew f).2.1]; exact Nat.zero_le _
  · rw [(hnew f).2.2]; exact Nat.zero_le _

theorem pagingHandleCowFault (cr3 : Cr3) (va err : Nat) (h : MemOk pool slack lost own slots m) :
    MemOk pool slack lost own slots (pagingHandleCowFault m cr3 va err).2 := by
  have h1 := h.cowInit
  have hpte1 := pteAt_congr (cowInit_rest m).2.1 cr3 (pageIdx (pageAlignDown va))
  rcases pagingHandleCowFault_cases m cr3 va err with
    hr | ⟨hw, m1, ha, hr⟩ | ⟨hw, hgt, new, m1, ha, hr⟩ | ⟨hw, hle, hr⟩
  · rw [hr]; exact h
  · rw [hr]; exact h1.allocNone ha
  · rw [hr]
    obtain ⟨hwr, hsh, hn⟩ := (h.wf cr3 _).cow hw.cow
    have hq := Quiet.alloc (Mm.cowInit m)
    rw [ha] at hq
    have hpte2 : m1.pteAt cr3 (pageIdx (pageAlignDown va))
        = m.pte cr3 (pageAlignDown va) := (hq.pte _ _).trans hpte1
    have hrefs2 := (hq.refs (m.pte cr3 (pageAlignDown va)).phys).trans (refs_cowInit m _)
    have h2 := (h1.alloc ha).setBytes (f := new) (b := m1.bytes (m.pte cr3 (pageAlignDown va)).phys)
    have h3 := h2.copyCow (p := (m.pte cr3 (pageAlignDown va)).taken.withPhys new)
      (by rw [setBytes_pteAt, hpte2]; exact hw.present)
      (by rw [setBytes_pteAt, hpte2]; exact hw.cow) hw.present hn rfl hsh
    rw [setBytes_pteAt, hpte2] at h3
    have h4 := h3.unref
    rwa [if_neg] at h4
    -- there were more references than this one
    rw [cowUnrefPage_fst]
    change m1.refs _ - 1 ≠ 0
    have : m1.refs (m.pte cr3 (pageAlignDown va)).phys
      = m.refs (m.pte cr3 (pageAlignDown va)).phys := hrefs2
    omega
  · rw [hr]
    obtain ⟨hwr, hsh, hn⟩ := (h.wf cr3 _).cow hw.cow
    have hp1 : ((Mm.cowInit m).pteAt cr3 (pageIdx (pageAlignDown va))).present
        = true := by rw [hpte1]; exact hw.present
    have hc1 : ((Mm.cowInit m).pteAt cr3 (pageIdx (pageAlignDown va))).cow
        = true := by rw [hpte1]; exact hw.cow
    -- clear the entry, give the last reference back, map the frame again
    have h2 := (h1.clear hp1).2.1 (by rw [hpte1]; exact hn) (by rw [hc1]; rfl)
    rw [hpte1] at h2
    have h3 := h2.unref
    rw [if_pos (by
      rw [cowUnrefPage_fst]
      have : ((Mm.cowInit m).setPteAt cr3 (pageIdx (pageAlignDown va)) {}).refs
        (m.pte cr3 (pageAlignDown va)).phys
          = m.refs (m.pte cr3 (pageAlignDown va)).phys := refs_cowInit m _
      change refs _ (m.pte cr3 (pageAlignDown va)).phys - 1 = 0
      omega)] at h3
    rw [cowUnrefPage_setPteAt] at h3 ⊢
    have ht : ((cowUnrefPage (Mm.cowInit m) (m.pte cr3 (pageAlignDown va)).phys).2.tableAt
        cr3 (1, pageIdx (pageAlignDown va) / 512)).isSome := by
      rw [tableAt_congr (cowUnrefPage_rest _ _).2.1]
      exact h1.table_of_present hp1
    have h4 := h3.place (.priv (p := (m.pte cr3 (pageAlignDown va)).taken) hw.present hn rfl hsh)
      (by rw [tableAt_setPteAt]; exact ht)
      (by rw [pteAt_setPteAt, if_pos ⟨rfl, rfl, space_of_tableAt _ ht⟩])
    rw [setPteAt_setPteAt] at h4
    exact h4

/-! ## Mapping a page and looking whether it is there

Nothing tells the caller of `paging_map_page_invl` that a page table was
missing; the ones that care look for the page afterwards. -/

/-- Either no page table could be made and looking finds nothing, or the entry
is there and looking finds it. -/
theorem mapPage_cases (cr3 : Cr3) {f : Frame} (flags : Pte)
    (h : MemOk pool slack lost own slots m) (hi : pageIdx va < 2 ^ 35) :
    ∃ m1, Quiet m m1 ∧ MemOk pool slack lost own slots m1 ∧
      ((pagingWalkPageTables m cr3 (pageIdx va) = (false, m1) ∧
          m.pte cr3 va = {} ∧ pagingMapPageInvl m cr3 f va flags = m1 ∧
          pagingGetPage m1 cr3 va = none) ∨
        (pagingWalkPageTables m cr3 (pageIdx va) = (true, m1) ∧
          (m1.tableAt cr3 (1, pageIdx va / 512)).isSome ∧
          pagingMapPageInvl m cr3 f va flags = m1.setPteAt cr3 (pageIdx va) (flags.mapped f) ∧
          pagingGetPage (m1.setPteAt cr3 (pageIdx va) (flags.mapped f)) cr3 va
            = some (flags.mapped f))) := by
  have hq := pagingWalkPageTables_quiet m cr3 (pageIdx va)
  obtain ⟨hok, htab⟩ := h.walk hi
  -- a page that is there has its page table, and then the walk cannot fail
  have h0 : (pagingWalkPageTables m cr3 (pageIdx va)).1 = false → m.pte cr3 va = {} := by
    intro hf
    by_contra hne
    rw [h.linked.walk_of_table (h.linked.pte cr3 _ hne)] at hf
    cases hf
  have hdef : pagingMapPageInvl m cr3 f va flags
      = if (pagingWalkPageTables m cr3 (pageIdx va)).1 then
          (pagingWalkPageTables m cr3 (pageIdx va)).2.setPteAt cr3 (pageIdx va) (flags.mapped f)
        else (pagingWalkPageTables m cr3 (pageIdx va)).2 := by
    unfold pagingMapPageInvl
    split <;> next hr => rw [hr]; rfl
  rw [hdef]
  obtain ⟨⟨b, m1⟩, hr⟩ : ∃ r, pagingWalkPageTables m cr3 (pageIdx va) = r := ⟨_, rfl⟩
  rw [hr] at hq hok htab h0 ⊢
  refine ⟨m1, hq, hok, ?_⟩
  cases b with
  | false =>
    refine .inl ⟨rfl, h0 rfl, rfl, ?_⟩
    have : m1.pte cr3 va = {} := (hq.pte cr3 _).trans (h0 rfl)
    unfold Mm.pagingGetPage
    rw [this, if_neg (by simp)]
  | true =>
    have ht := htab rfl
    refine .inr ⟨rfl, ht, rfl, ?_⟩
    have hset : (m1.setPteAt cr3 (pageIdx va) (flags.mapped f)).pte cr3 va = flags.mapped f := by
      unfold pte
      rw [pteAt_setPteAt, if_pos ⟨rfl, rfl, space_of_tableAt _ ht⟩]
    rw [(hok.linked.setPte (.inr ht)).pagingGetPage (by rw [hset]; rfl), hset]

/-- A frame in hand is mapped privately, or it is still in hand. -/
theorem mapPriv (cr3 : Cr3) {f : Frame} (va : Nat) (flags : Pte)
    (h : MemOk pool slack lost (bump own f) slots m) (hi : pageIdx va < 2 ^ 35)
    (h0 : m.pte cr3 va = {}) (hn : flags.nofree = false) (hc : flags.cow = false)
    (hs : flags.shared = false) :
    MemOk pool slack lost (if (pagingGetPage (pagingMapPageInvl m cr3 f va flags) cr3 va).isNone
        then bump own f else own) slots (pagingMapPageInvl m cr3 f va flags) := by
  obtain ⟨m1, hq, hok, ⟨-, -, hm, hg⟩ | ⟨-, ht, hm, hg⟩⟩ := h.mapPage_cases _ _ hi
  · rw [hm, hg]; exact hok
  · rw [hm, hg]
    exact hok.place (.priv rfl hn hc hs) ht ((hq.pte cr3 _).trans h0)

/-- What is not found is not there. -/
theorem pte_eq_zero (h : MemOk pool slack lost own slots m)
    (hg : pagingGetPage m cr3 va = none) : m.pte cr3 va = {} :=
  (h.wf cr3 _).zero (h.linked.absent hg)

theorem pagingHandleStackFault (h : MemOk pool slack lost own slots m) :
    MemOk pool slack lost own slots (pagingHandleStackFault m cr3 va).2 := by
  unfold Mm.pagingHandleStackFault
  split
  · exact h
  rename_i hva
  dsimp only
  split
  · exact h
  rename_i hg
  split
  · next m1 ha => exact h.allocEmptyNone ha
  rename_i m1 ha
  have hq := Quiet.allocEmpty m
  rw [ha] at hq
  have h0 : m1.pte cr3 (pageAlignDown va) = {} := (hq.pte cr3 _).trans (h.pte_eq_zero hg)
  have hi : pageIdx (pageAlignDown va) < 2 ^ 35 := pageIdx_lt (by
      unfold userStackTop at hva
      unfold pageAlignDown pageSize; omega)
  have hm := (h.allocEmpty ha).mapPriv cr3 _ { user := true, writable := true } hi h0 rfl rfl rfl
  split
  · next hg' => rw [hg'] at hm; exact hm.freeOne
  · next p hg' => rw [hg'] at hm; exact hm

end MemOk

end BleedKernel.Mm
