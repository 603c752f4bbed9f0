import BleedKernel.Proofs.Faults
import BleedKernel.Proofs.Release
import BleedKernel.Model.Syscalls

/-!
# Mapping without looking

`paging_map_page_invl` says nothing when it could not make a page table, and it
stores its entry over whatever was there. Callers that look for the page
afterwards are in the previous files. The others, `shm_map`, `ipc_recv` and the
framebuffer, are shown here to keep the ledger in one sense: whatever they drop
on the way turns up in `slack` or in `lost`, so nothing is ever freed too early.
And they drop nothing when the pages were clear and the tables could be had.

`Grows` is the other half of what the callers need to know about the memory
after a call: the address spaces are still there, and no count has gone up by
more than was asked for.
-/

namespace BleedKernel.Mm

open BleedKernel.Lib Memory List

variable {base i j k l n pages va : Nat} {f : Frame} {flags p : Pte} {frames : List Frame}
  {prot : Prot}

variable {pool slack lost own slots : Frame → Nat} {m m' m'' : Memory} {cr3 : Cr3}

/-! ## How far the counts can have gone up -/

/-- The address spaces stay, and no count goes up by more than `k`. -/
structure Grows (k : Nat) (m m' : Memory) : Prop where
  live : ∀ c, (m'.space c).isSome = (m.space c).isSome
  refs : ∀ f, m'.refs f ≤ m.refs f + k

namespace Grows

theorem rfl' : Grows 0 m m := ⟨fun _ => rfl, fun _ => Nat.le_refl _⟩

theorem trans (h : Grows k m m') (h' : Grows l m' m'') : Grows (k + l) m m'' :=
  ⟨fun c => (h'.live c).trans (h.live c), fun f => by
    have := h.refs f; have := h'.refs f; omega⟩

theorem mono (h : Grows k m m') (hkl : k ≤ l) : Grows l m m' :=
  ⟨h.live, fun f => (h.refs f).trans (by omega)⟩

theorem of_quiet (h : Quiet m m') : Grows 0 m m' := ⟨h.space, fun f => (h.refs f).le⟩

theorem of_spaces (hs : m'.spaces = m.spaces) (hr : ∀ f, m'.refs f ≤ m.refs f) : Grows 0 m m' :=
  ⟨fun c => by rw [space_congr hs], hr⟩

theorem setBytes {b : Nat → UInt8} : Grows 0 m (m.setBytes f b) :=
  of_spaces rfl fun _ => Nat.le_refl _

theorem setPteAt : Grows 0 m (m.setPteAt cr3 i p) :=
  ⟨fun _ => space_setPteAt, fun _ => Nat.le_refl _⟩

theorem setTable {key : Nat × Nat} {t : Option Frame} : Grows 0 m (m.setTable cr3 key t) :=
  ⟨fun _ => space_setTable, fun _ => Nat.le_refl _⟩

theorem free : Grows 0 m (pmmFreePages m f n) := of_spaces rfl fun _ => Nat.le_refl _

theorem alloc : Grows 0 m (pmmAllocPages m).2 := of_quiet (.alloc m)

theorem allocEmpty : Grows 0 m (pagingAllocEmptyFrame m).2 := of_quiet (.allocEmpty m)

theorem cowInit : Grows 0 m (cowInit m) :=
  of_spaces (cowInit_rest m).2.1 fun f => (refs_cowInit m f).le

theorem cowRefPage : Grows 1 m (cowRefPage m f) := by
  refine ⟨fun c => by rw [space_congr (cowRefPage_rest m f).2.1], fun g => ?_⟩
  have hi := refs_cowInit m g
  unfold Mm.cowRefPage
  unfold Memory.refs at *
  by_cases hr : (Mm.cowInit m).cowReady = true
  · rw [if_pos hr] at hi ⊢
    dsimp only
    rw [if_pos hr, ← hi]
    by_cases hg : g = f
    · subst hg
      rw [Function.update_self]
      exact Nat.mod_le _ _
    · rw [Function.update_of_ne hg]; omega
  · rw [if_neg hr]; omega

theorem cowUnrefPage : Grows 0 m (cowUnrefPage m f).2 :=
  of_spaces (cowUnrefPage_rest m f).2.1 fun g => by
    rw [refs_cowUnrefPage]; exact Nat.sub_le _ _

theorem pagingMapPageInvl (cr3 : Cr3) (va : Nat) (flags : Pte) :
    Grows 0 m (pagingMapPageInvl m cr3 f va flags) := by
  have hw := of_quiet (pagingWalkPageTables_quiet m cr3 (pageIdx va))
  unfold Mm.pagingMapPageInvl
  split
  · next he => rw [he] at hw; exact hw
  · next he => rw [he] at hw; exact hw.trans setPteAt

theorem pagingHandleCowFault {err : Nat} : Grows 0 m (pagingHandleCowFault m cr3 va err).2 := by
  rcases pagingHandleCowFault_cases m cr3 va err with
    hr | ⟨-, m1, ha, hr⟩ | ⟨-, -, new, m1, ha, hr⟩ | ⟨-, -, hr⟩
  · rw [hr]; exact rfl'
  · have h := cowInit.trans (alloc (m := Mm.cowInit m))
    rw [ha] at h
    rw [hr]; exact h
  · have h := cowInit.trans (alloc (m := Mm.cowInit m))
    rw [ha] at h
    rw [hr]
    exact ((h.trans setBytes).trans setPteAt).trans cowUnrefPage
  · rw [hr]; exact (cowInit.trans setPteAt).trans cowUnrefPage

theorem pagingHandleStackFault : Grows 0 m (pagingHandleStackFault m cr3 va).2 := by
  unfold Mm.pagingHandleStackFault
  split
  · exact rfl'
  dsimp only
  split
  · exact rfl'
  have ha := allocEmpty (m := m)
  split
  · next he => rw [he] at ha; exact ha
  rename_i he
  rw [he] at ha
  split
  · exact (ha.trans (pagingMapPageInvl _ _ _)).trans free
  · exact ha.trans (pagingMapPageInvl _ _ _)

theorem vmmFreeRun {run : FreeRun} : Grows 0 m (vmmFreeRun m run) := by
  unfold Mm.vmmFreeRun
  split
  · exact rfl'
  · exact free

theorem freeRunAdd {run : FreeRun} : Grows 0 m (freeRunAdd f (m, run)).1 := by
  unfold Mm.freeRunAdd
  split
  · exact rfl'
  · exact vmmFreeRun

theorem unmapPte {st : Memory × FreeRun} : Grows 0 st.1 (unmapPte cr3 i st).1 := by
  unfold Mm.unmapPte
  dsimp only
  split
  · exact rfl'
  split
  · exact setPteAt
  split
  · split
    · exact setPteAt.trans cowUnrefPage
    · exact (setPteAt.trans cowUnrefPage).trans freeRunAdd
  · exact setPteAt.trans freeRunAdd

theorem vmmUnmapFreePages {virt : Nat} : Grows 0 m (vmmUnmapFreePages m cr3 virt pages) := by
  unfold Mm.vmmUnmapFreePages
  split
  · exact rfl'
  refine trans (foldl_inv (P := fun st : Memory × FreeRun => Grows 0 m st.1)
    (fun j _ st h => ?_) rfl') vmmFreeRun
  split
  · exact h.trans unmapPte
  · exact h

theorem overPlaces {below : Nat → Memory × FreeRun → Memory × FreeRun}
    (st : Memory × FreeRun) (hb : ∀ i st, Grows 0 st.1 (below i st).1) :
    Grows 0 st.1 (overPlaces n below k st).1 :=
  foldl_inv (P := fun st' : Memory × FreeRun => Grows 0 st.1 st'.1)
    (fun _ _ _ h => h.trans (hb _ _)) rfl'

theorem releaseTable {below : Nat → Memory × FreeRun → Memory × FreeRun}
    {st : Memory × FreeRun} (hb : ∀ i st, Grows 0 st.1 (below i st).1) :
    Grows 0 st.1 (releaseTable cr3 l below k st).1 := by
  unfold Mm.releaseTable
  split
  · exact rfl'
  · exact ((overPlaces _ hb).trans free).trans setTable

theorem pagingReleaseUserSpace (cr3 : Cr3) : Grows 0 m (pagingReleaseUserSpace m cr3) := by
  exact (overPlaces ((m, {})) fun _ _ => releaseTable fun _ _ =>
    releaseTable fun _ _ => releaseTable fun _ _ => unmapPte).trans vmmFreeRun

end Grows

/-! ## Storing over whatever is there -/

theorem MemOk.own_lost {own' lost' : Frame → Nat} (h : MemOk pool slack lost own slots m)
    (he : ∀ f, own' f + lost' f = own f + lost f) :
    MemOk pool slack lost' own' slots m :=
  ⟨⟨h.ledger.pool_le, fun f => by have := h.ledger.place f; have := he f; omega,
    h.ledger.kind, h.ledger.count⟩, h.linked, h.wf, h.table⟩

/-- An entry is mapped over whatever is there, or there is no page table and nothing is
stored. -/
theorem MemOk.mapOver (cr3 : Cr3) (va : Nat) (h : MemOk pool slack lost own slots m)
    (hi : pageIdx va < 2 ^ 35) (flags : Pte) (T : (flags.mapped f).Takes m slots own slack own' slack') :
    ((pagingWalkPageTables m cr3 (pageIdx va)).1 = false ∧
      pagingGetPage (pagingMapPageInvl m cr3 f va flags) cr3 va = none ∧
      MemOk pool slack lost own slots (pagingMapPageInvl m cr3 f va flags)) ∨
    ((∃ p, pagingGetPage (pagingMapPageInvl m cr3 f va flags) cr3 va = some p) ∧
      ∃ slack₁ lost₁, MemOk pool slack₁ lost₁ own' slots (pagingMapPageInvl m cr3 f va flags) ∧
        ((m.pte cr3 va).present = false → slack₁ = slack' ∧ lost₁ = lost)) := by
  obtain ⟨m1, hq, hok, ⟨hw, -, hm, hg⟩ | ⟨-, ht, hm, hg⟩⟩ := h.mapPage_cases cr3 flags hi
  · rw [hm, hw]
    exact .inl ⟨rfl, hg, hok⟩
  rw [hm]
  refine .inr ⟨⟨_, hg⟩, _, _, hok.storeOver (T.quiet hq) ht, fun hp => ?_⟩
  rw [show m1.pteAt cr3 (pageIdx va) = m.pte cr3 va from hq.pte cr3 _]
  exact ⟨leakedBy_none hp, lostBy_none hp⟩

/-- A reference just taken is mapped shared. -/
theorem MemOk.mapSharedOver (cr3 : Cr3) (va : Nat)
    (h : MemOk pool (bump slack f) lost own slots m) (hi : pageIdx va < 2 ^ 35)
    (hn : flags.nofree = false) (hc : flags.cow = false) (hs : flags.shared = true)
    (hkind : ptes m (cowW f) = 0) :
    ∃ slack' lost', MemOk pool slack' lost' own slots (pagingMapPageInvl m cr3 f va flags) ∧
      ((m.pte cr3 va).present = false → lost' = lost) ∧
      ((m.pte cr3 va).present = false →
        (pagingWalkPageTables m cr3 (pageIdx va)).1 = true → slack' = slack) := by
  rcases h.mapOver cr3 va hi _ (.ofShared rfl hn hc hs hkind) with
    ⟨hw, -, hok⟩ | ⟨-, slack', lost', hok, hcl⟩
  · exact ⟨_, _, hok, fun _ => rfl, fun _ ht => by rw [hw] at ht; cases ht⟩
  · exact ⟨slack', lost', hok, fun hp => (hcl hp).2, fun hp _ => (hcl hp).1⟩

/-- A frame in hand is mapped privately. -/
theorem MemOk.mapPrivOver
    (h : MemOk pool slack lost (bump own f) slots m) (hi : pageIdx va < 2 ^ 35)
    (hn : flags.nofree = false) (hc : flags.cow = false) (hs : flags.shared = false) :
    ∃ slack' lost', MemOk pool slack' lost' own slots (pagingMapPageInvl m cr3 f va flags) ∧
      ((m.pte cr3 va).present = false → slack' = slack) ∧
      ((m.pte cr3 va).present = false →
        (pagingWalkPageTables m cr3 (pageIdx va)).1 = true → lost' = lost) := by
  rcases h.mapOver cr3 va hi _ (.priv rfl hn hc hs) with
    ⟨hw, -, hok⟩ | ⟨-, slack', lost', hok, hcl⟩
  · refine ⟨slack, bump lost f, hok.own_lost fun g => ?_, fun _ => rfl,
      fun _ ht => by rw [hw] at ht; cases ht⟩
    unfold bump; omega
  · exact ⟨slack', lost', hok, fun hp => (hcl hp).1, fun hp _ => (hcl hp).2⟩

/-! ## Whether the tables can be had

The condition is the walk itself, made for every page and for nothing else. What
the loops do between two walks does not change how the next one ends. -/

/-- The same to a walk: the allocator, and the tables. -/
structure SameTables (m m' : Memory) : Prop where
  answers : m'.answers = m.answers
  free : m'.free = m.free
  live : ∀ c, (m'.space c).isSome = (m.space c).isSome
  table : ∀ c key, m'.tableAt c key = m.tableAt c key

namespace SameTables

theorem rfl' : SameTables m m := ⟨rfl, rfl, fun _ => rfl, fun _ _ => rfl⟩

theorem trans (h : SameTables m m') (h' : SameTables m' m'') : SameTables m m'' :=
  ⟨h'.answers.trans h.answers, h'.free.trans h.free,
    fun c => (h'.live c).trans (h.live c), fun c key => (h'.table c key).trans (h.table c key)⟩

theorem cowRefPage : SameTables m (cowRefPage m f) := by
  obtain ⟨hf, hs, -, ha⟩ := cowRefPage_rest m f
  exact ⟨ha, hf, fun c => by rw [space_congr hs], tableAt_congr hs⟩

theorem setPteAt : SameTables m (m.setPteAt cr3 i p) :=
  ⟨rfl, rfl, fun _ => space_setPteAt, fun _ _ => tableAt_setPteAt⟩

theorem writeTableEntry (h : SameTables m m') (l i : Nat) :
    (pagingWriteTableEntry m' cr3 l i).1 = (pagingWriteTableEntry m cr3 l i).1 ∧
      SameTables (pagingWriteTableEntry m cr3 l i).2 (pagingWriteTableEntry m' cr3 l i).2 := by
  unfold pagingWriteTableEntry
  rw [h.table]
  cases m.tableAt cr3 (tableKey l i) with
  | some t => exact ⟨rfl, h⟩
  | none =>
    unfold pagingAllocEmptyFrame pmmAllocPages
    rw [h.answers, h.free]
    cases m.answers with
    | nil => exact ⟨rfl, h⟩
    | cons a rest =>
      cases a with
      | none => exact ⟨rfl, rfl, rfl, h.live, h.table⟩
      | some f =>
        by_cases hf : f ≠ 0 ∧ m.free f = true
        · simp only [if_pos hf]
          refine ⟨trivial, rfl, rfl, fun c => ?_, fun c key => ?_⟩
          · rw [space_setTable, space_setTable]; exact h.live c
          · rw [tableAt_setTable, tableAt_setTable]
            have hl := h.live cr3
            have ht := h.table c key
            exact if_congr ⟨fun h => ⟨h.1, h.2.1, hl.symm.trans h.2.2⟩,
              fun h => ⟨h.1, h.2.1, hl.trans h.2.2⟩⟩ rfl ht
        · simp only [if_neg hf]
          exact ⟨trivial, rfl, rfl, h.live, h.table⟩

theorem forEach {ι : Type*} {g : ι → Memory → Bool × Memory} (hg : ∀ i {m m'}, SameTables m m' →
      (g i m').1 = (g i m).1 ∧ SameTables (g i m).2 (g i m').2)
    (h : SameTables m m') (l : List ι) :
    (Lib.forEach g l m').1 = (Lib.forEach g l m).1 ∧
      SameTables (Lib.forEach g l m).2 (Lib.forEach g l m').2 := by
  induction l generalizing m m' with
  | nil => exact ⟨rfl, h⟩
  | cons i l ih =>
    obtain ⟨h1, h2⟩ := hg i h
    cases hr : (g i m).1 with
    | true =>
      rw [forEach_cons_ok hr, forEach_cons_ok (h1.trans hr)]
      exact ih h2
    | false =>
      rw [forEach_cons_fail hr, forEach_cons_fail (h1.trans hr)]
      exact ⟨rfl, h2⟩

theorem walk (cr3 : Cr3) (h : SameTables m m') (i : Nat) :
    (pagingWalkPageTables m' cr3 i).1 = (pagingWalkPageTables m cr3 i).1 ∧
      SameTables (pagingWalkPageTables m cr3 i).2 (pagingWalkPageTables m' cr3 i).2 := by
  unfold pagingWalkPageTables
  rw [h.table]
  split
  · exact ⟨rfl, h⟩
  · exact forEach (fun l _ _ h => h.writeTableEntry l i) h _

end SameTables

/-- The page tables for `n` pages from number `k` on are there or can be had. -/
def tablesFrom (m : Memory) (cr3 : Cr3) (base k n : Nat) : Bool :=
  (forEach (fun i m => pagingWalkPageTables m cr3 (pageIdx (base + i * pageSize)))
    (range' k n) m).1

/-- The page tables for the whole range. -/
def tablesFor (m : Memory) (cr3 : Cr3) (base n : Nat) : Bool :=
  tablesFrom m cr3 base 0 n

theorem tablesFrom_succ (h : tablesFrom m cr3 base k (n + 1) = true)
    (hst : SameTables (pagingWalkPageTables m cr3 (pageIdx (base + k * pageSize))).2 m') :
    (pagingWalkPageTables m cr3 (pageIdx (base + k * pageSize))).1 = true ∧
      tablesFrom m' cr3 base (k + 1) n = true := by
  unfold tablesFrom at *
  rw [range'_succ] at h
  cases hr : (pagingWalkPageTables m cr3 (pageIdx (base + k * pageSize))).1 with
  | false => rw [forEach_cons_fail hr] at h; cases h
  | true =>
    rw [forEach_cons_ok hr] at h
    refine ⟨rfl, (SameTables.forEach (g := fun i m =>
      pagingWalkPageTables m cr3 (pageIdx (base + i * pageSize)))
      (fun i _ _ h => h.walk _ _) hst _).1.trans h⟩

/-- Nothing is mapped in the `n` pages from number `k` on. -/
def ClearFrom (m : Memory) (cr3 : Cr3) (base k n : Nat) : Prop :=
  ∀ i, k ≤ i → i < k + n → (m.pte cr3 (base + i * pageSize)).present = false

/-- Nothing is mapped in the whole range. -/
def ClearAt (m : Memory) (cr3 : Cr3) (base n : Nat) : Prop := ClearFrom m cr3 base 0 n

theorem pageIdx_add (h : base + i * pageSize < 2 ^ 47) :
    pageIdx (base + i * pageSize) = base / pageSize + i := by
  unfold pageIdx pageSize pageSlots at *
  omega

theorem page_lt (h : base + j * pageSize < 2 ^ 47) (hij : i ≤ j) : base + i * pageSize < 2 ^ 47 :=
  Nat.lt_of_le_of_lt (Nat.add_le_add_left (Nat.mul_le_mul_right _ hij) _) h

/-- A mapping is stored in one slot. -/
theorem pteAt_pagingMapPageInvl {c : Cr3} (h : c ≠ cr3 ∨ j ≠ pageIdx va) :
    (pagingMapPageInvl m cr3 f va flags).pteAt c j = m.pteAt c j := by
  have hq := pagingWalkPageTables_quiet m cr3 (pageIdx va)
  unfold pagingMapPageInvl
  split
  · next hr => rw [hr] at hq; exact hq.pte c j
  rename_i hr
  rw [hr] at hq
  rw [pteAt_setPteAt, if_neg]
  · exact hq.pte c j
  · rintro ⟨h1, h2, -⟩
    exact h.elim (fun h => h h1) fun h => h h2

/-- And there it is, or nothing happened. -/
theorem pte_pagingMapPageInvl (m : Memory) (cr3 : Cr3) (f : Frame) (va : Nat)
    (flags : Pte) : (pagingMapPageInvl m cr3 f va flags).pte cr3 va = m.pte cr3 va ∨
      (pagingMapPageInvl m cr3 f va flags).pte cr3 va = flags.mapped f := by
  have hq := pagingWalkPageTables_quiet m cr3 (pageIdx va)
  unfold pagingMapPageInvl pte
  split
  · next hr => rw [hr] at hq; exact .inl (hq.pte cr3 _)
  rename_i hr
  rw [hr] at hq
  rw [pteAt_setPteAt]
  split
  · exact .inr rfl
  · exact .inl (hq.pte cr3 _)

/-- The pages after the one just mapped are still clear. -/
theorem ClearFrom.next (h : ClearFrom m cr3 base k (n + 1))
    (hb : base + (k + n) * pageSize < 2 ^ 47)
    (hm : ∀ j, j ≠ pageIdx (base + k * pageSize) → m'.pteAt cr3 j = m.pteAt cr3 j) :
    ClearFrom m' cr3 base (k + 1) n := by
  intro i hk hi
  have hi' := page_lt (i := i) hb (by omega)
  have hk' := page_lt (i := k) hb (by omega)
  unfold pte
  rw [hm _ (by rw [pageIdx_add hi', pageIdx_add hk']; omega)]
  exact h i (by omega) (by omega)

/-! ## The loops -/

/-- The frame of a shared memory object or a memfd is counted, and nobody holds
it copy-on-write. -/
theorem MemOk.slot_counted (h : MemOk pool slack lost own slots m)
    (hf : 0 < slots f) : 0 < m.refs f ∧ ptes m (cowW f) = 0 := by
  have hc := h.ledger.count f
  have hk := h.ledger.kind f
  exact ⟨by omega, by omega⟩

/-- A loop that maps frames one page after the other, from page `k` on, and does
`ref` to each before. What may change only over a page that is mapped already is
`x`, and what may change also where a page table is missing is `y`. -/
theorem mapFrom {X Y : Type*} {P : List Frame → Memory → X → Y → Prop} {x : X} {y : Y}
    (base : Nat) (flags : Pte) (ref : Frame → Memory → Memory) (hsame : ∀ {m f}, SameTables m (ref f m))
    (hpte : ∀ {m f} j, (ref f m).pteAt cr3 j = m.pteAt cr3 j)
    (hstep : ∀ {f frames m x y va}, P (f :: frames) m x y → pageIdx va < 2 ^ 35 →
      ∃ x' y', P frames (pagingMapPageInvl (ref f m) cr3 f va flags) x' y' ∧
        (((ref f m).pte cr3 va).present = false → x' = x) ∧
        (((ref f m).pte cr3 va).present = false →
          (pagingWalkPageTables (ref f m) cr3 (pageIdx va)).1 = true → y' = y))
    (h : P frames m x y) (hb : base + (k + frames.length) * pageSize ≤ 2 ^ 47) :
    ∃ x' y', P [] ((frames.zipIdx k).foldl (fun m fi => pagingMapPageInvl (ref fi.1 m) cr3
          fi.1 (base + fi.2 * pageSize) flags) m) x' y' ∧
      (ClearFrom m cr3 base k frames.length → x' = x) ∧
      (ClearFrom m cr3 base k frames.length →
        tablesFrom m cr3 base k frames.length = true → y' = y) := by
  induction frames generalizing k m x y with
  | nil => exact ⟨x, y, h, fun _ => rfl, fun _ _ => rfl⟩
  | cons f frames ih =>
    simp only [length_cons] at *
    have hva : base + (k + frames.length) * pageSize < 2 ^ 47 := by
      unfold pageSize at *; omega
    obtain ⟨x1, y1, h1, hx1, hy1⟩ := hstep h (pageIdx_lt (page_lt (i := k) hva (by omega)))
    obtain ⟨x2, y2, h2, hx2, hy2⟩ := ih h1
      (by rw [show k + 1 + frames.length = k + (frames.length + 1) by omega]; exact hb)
    have hnext : ClearFrom m cr3 base k (frames.length + 1) →
        ((ref f m).pte cr3 (base + k * pageSize)).present = false ∧
        ClearFrom (pagingMapPageInvl (ref f m) cr3 f
          (base + k * pageSize) flags) cr3 base (k + 1) frames.length := fun hcl => by
      refine ⟨?_, hcl.next hva fun j hj => ?_⟩
      · unfold pte; rw [hpte]; exact hcl k (by omega) (by omega)
      · rw [pteAt_pagingMapPageInvl (.inr hj), hpte]
    refine ⟨x2, y2, h2, fun hcl => ?_, fun hcl ht => ?_⟩
    · obtain ⟨hc0, hc1⟩ := hnext hcl
      exact (hx2 hc1).trans (hx1 hc0)
    · obtain ⟨hc0, hc1⟩ := hnext hcl
      -- the walk is the same after `ref`
      have hw := (hsame (m := m) (f := f)).walk cr3 (pageIdx (base + k * pageSize))
      have hst : SameTables (pagingWalkPageTables m cr3 (pageIdx (base + k * pageSize))).2
          (pagingMapPageInvl (ref f m) cr3 f (base + k * pageSize) flags) := by
        unfold pagingMapPageInvl
        split
        · next hr => rw [hr] at hw; exact hw.2
        · next hr => rw [hr] at hw; exact hw.2.trans .setPteAt
      obtain ⟨ht0, ht1⟩ := tablesFrom_succ ht hst
      exact (hy2 hc1 ht1).trans (hy1 hc0 (hw.1.trans ht0))

/-- The loop of `shm_map`. A page table that is missing leaves a reference nobody
holds. -/
theorem MemOk.shmMapFrames
    (hn : flags.nofree = false) (hc : flags.cow = false) (hs : flags.shared = true)
    (h : MemOk pool slack lost own slots m)
    (hb : base + frames.length * pageSize ≤ 2 ^ 47)
    (hroom : ∀ f, m.refs f + frames.length < 2 ^ 32)
    (hslots : ∀ f ∈ frames, 0 < slots f) :
    ∃ slack' lost', MemOk pool slack' lost' own slots (shmMapFrames cr3 flags base frames m) ∧
      (ClearAt m cr3 base frames.length → lost' = lost) ∧
      (ClearAt m cr3 base frames.length →
        tablesFor m cr3 base frames.length = true → slack' = slack) := by
  have hloop := mapFrom (P := fun frames m lost slack => MemOk pool slack lost own slots m ∧
      (∀ f, m.refs f + frames.length < 2 ^ 32) ∧ ∀ f ∈ frames, 0 < slots f)
    base flags (fun f m => cowRefPage m f) .cowRefPage
    (pteAt_congr (cowRefPage_rest _ _).2.1 cr3)
    (fun {f frames m lost slack va} ⟨h, hroom, hslots⟩ hi => ?_)
    ⟨h, hroom, hslots⟩ (by rwa [Nat.zero_add])
  · obtain ⟨lost', slack', ⟨h', -, -⟩, hcl⟩ := hloop
    exact ⟨slack', lost', h', hcl⟩
  · obtain ⟨hpos, hkind⟩ := h.slot_counted (hslots f (by simp))
    have href := h.ref (by have := hroom f; simp only [length_cons] at this; omega) hpos
    obtain ⟨slack1, lost1, h1, hcl⟩ := href.mapSharedOver cr3 va hi hn hc hs
      (Ledger.ptes_cowRefPage.trans hkind)
    have hgrow : Grows 1 m (pagingMapPageInvl (cowRefPage m f) cr3 f va flags) :=
      Grows.cowRefPage.trans (.pagingMapPageInvl _ _ _)
    refine ⟨lost1, slack1, ⟨h1, fun g => ?_, fun g hg => hslots g (by simp [hg])⟩, hcl⟩
    have := hgrow.refs g
    have := hroom g
    simp only [length_cons] at this
    omega

theorem Grows.shmMapFrames : Grows frames.length m (shmMapFrames cr3 flags base frames m) := by
  have hgen : ∀ k, Grows frames.length m ((frames.zipIdx k).foldl (fun m fi =>
      Mm.pagingMapPageInvl (Mm.cowRefPage m fi.1) cr3 fi.1 (base + fi.2 * pageSize) flags) m) := by
    induction frames generalizing m with
    | nil => exact fun _ => rfl'
    | cons f frames ih =>
      intro k
      exact mono ((Grows.cowRefPage.trans (.pagingMapPageInvl _ _ _)).trans (ih (k + 1)))
        (by rw [length_cons]; omega)
  exact hgen 0

theorem count_cons_bump (own : Frame → Nat) (f : Frame) (l : List Frame) :
    (fun g => own g + (f :: l).count g) = bump (fun g => own g + l.count g) f := by
  funext g
  by_cases hg : g = f
  · subst hg; rw [bump_self, count_cons_self]; rfl
  · rw [bump_of_ne hg, count_cons_of_ne (Ne.symm hg)]

/-- The loop of `ipc_recv`. A page table that is missing loses the frame. -/
theorem MemOk.mapMessage (cr3 : Cr3) (frames : List Frame) (base : Nat)
    (h : MemOk pool slack lost (fun f => own f + frames.count f) slots m)
    (hb : base + frames.length * pageSize ≤ 2 ^ 47) :
    ∃ slack' lost', MemOk pool slack' lost' own slots (mapMessage cr3 base frames m) ∧
      (ClearAt m cr3 base frames.length → slack' = slack) ∧
      (ClearAt m cr3 base frames.length →
        tablesFor m cr3 base frames.length = true → lost' = lost) := by
  refine mapFrom (P := fun frames m slack lost =>
    MemOk pool slack lost (fun f => own f + frames.count f) slots m)
    base _ (fun _ m => m) .rfl' (fun _ => rfl) (fun h hi => ?_) h (by rwa [Nat.zero_add])
  rw [count_cons_bump] at h
  exact h.mapPrivOver hi rfl rfl rfl

theorem Grows.mapMessage (cr3 : Cr3) (frames : List Frame) (base : Nat) :
    Grows 0 m (mapMessage cr3 base frames m) :=
  foldl_inv (fun _ _ _ h => h.trans (.pagingMapPageInvl _ _ _)) rfl'

/-- A loop over pages before page `k`: it has dropped nothing if the range was
clear in `m`, and the pages from `k` on are as they were there. -/
def BeforePage (pool slack lost own slots : Frame → Nat) (m : Memory) (cr3 : Cr3)
    (base pages k : Nat) (m' : Memory) : Prop :=
  ∃ slack' lost', MemOk pool slack' lost' own slots m' ∧
    (ClearAt m cr3 base pages → slack' = slack ∧ lost' = lost) ∧
    ∀ i, k ≤ i → i < pages → m'.pte cr3 (base + i * pageSize) = m.pte cr3 (base + i * pageSize)

theorem BeforePage.next (h : BeforePage pool slack lost own slots m cr3 base pages k m')
    (hk : k < pages) (hb : base + pages * pageSize ≤ 2 ^ 47)
    (hstep : ∀ {slack lost}, MemOk pool slack lost own slots m' →
      pageIdx (base + k * pageSize) < 2 ^ 35 →
      ∃ slack' lost', MemOk pool slack' lost' own slots m'' ∧
        ((m'.pte cr3 (base + k * pageSize)).present = false → slack' = slack ∧ lost' = lost))
    (hm : ∀ j, j ≠ pageIdx (base + k * pageSize) → m''.pteAt cr3 j = m'.pteAt cr3 j) :
    BeforePage pool slack lost own slots m cr3 base pages (k + 1) m'' := by
  obtain ⟨slack1, lost1, h1, hc1, hrest⟩ := h
  have hva : ∀ i, i < pages → base + i * pageSize < 2 ^ 47 := fun i hi => by
    unfold pageSize at *; omega
  obtain ⟨slack2, lost2, h2, hc2⟩ := hstep h1 (pageIdx_lt (hva k hk))
  refine ⟨slack2, lost2, h2, fun hcl => ?_, fun i hi hip => ?_⟩
  · obtain ⟨e1, e2⟩ := hc1 hcl
    obtain ⟨e3, e4⟩ := hc2 (by rw [hrest k (by omega) hk]; exact hcl k (by omega) (by omega))
    exact ⟨e3.trans e1, e4.trans e2⟩
  · refine Eq.trans (hm _ ?_) (hrest i (by omega) hip)
    rw [pageIdx_add (hva i hip), pageIdx_add (hva k hk)]
    omega

theorem MemOk.mapDevice (cr3 : Cr3) (fb : Frame) (base pages : Nat)
    (h : MemOk pool slack lost own slots m) (hb : base + pages * pageSize ≤ 2 ^ 47) :
    ∃ slack' lost', MemOk pool slack' lost' own slots (mapDevice cr3 fb base pages m) ∧
      (ClearAt m cr3 base pages → slack' = slack ∧ lost' = lost) := by
  obtain ⟨slack', lost', h1, h2, -⟩ := foldl_range
    (P := BeforePage pool slack lost own slots m cr3 base pages)
    (fun k hk m1 h1 => h1.next hk hb (fun h hi => by
      rcases h.mapOver cr3 _ hi { writable := true, user := true, nx := true, nofree := true }
        (.nofree rfl rfl rfl rfl) with ⟨-, -, hok⟩ | ⟨-, hok⟩
      · exact ⟨_, _, hok, fun _ => ⟨rfl, rfl⟩⟩
      · exact hok) fun j hj => pteAt_pagingMapPageInvl (.inr hj))
    ⟨slack, lost, h, fun _ => ⟨rfl, rfl⟩, fun _ _ _ => rfl⟩
  exact ⟨slack', lost', h1, h2⟩

theorem Grows.mapDevice {fb : Frame} : Grows 0 m (mapDevice cr3 fb base pages m) :=
  foldl_inv (fun _ _ _ h => h.trans (.pagingMapPageInvl _ _ _)) rfl'

/-- A new frame gets its first reference. -/
theorem MemOk.refFresh (h : MemOk pool slack lost (bump own f) slots m) :
    MemOk pool (bump slack f) lost own slots (cowRefPage m f) ∧
      (cowRefPage m f).refs f ≤ 1 ∧ ptes (cowRefPage m f) (cowW f) = 0 := by
  have h1 := h.refOwn
  have hp := h.ledger.place f
  have hle := h.ledger.pool_le f
  rw [bump_self] at hp
  have hr : (cowRefPage m f).refs f ≤ 1 := by
    have := (Grows.cowRefPage (m := m) (f := f)).refs f
    omega
  have hc := h1.ledger.count f
  rw [bump_self] at hc
  exact ⟨h1, hr, by omega⟩

theorem protPte_flags (prot : Prot) : (protPte prot).nofree = false ∧
    (protPte prot).cow = false ∧ (protPte prot).shared = false := by
  unfold protPte
  split <;> exact ⟨rfl, rfl, rfl⟩

/-- One page of an anonymous shared mapping. -/
theorem MemOk.fillSharedPage (h : MemOk pool slack lost own slots m) (hi : pageIdx va < 2 ^ 35) :
    ∃ slack' lost', MemOk pool slack' lost' own slots (fillSharedPage cr3 prot va m).2 ∧
      ((m.pte cr3 va).present = false → slack' = slack ∧ lost' = lost) := by
  unfold Mm.fillSharedPage
  split
  · next ha => exact ⟨_, _, h.allocEmptyNone ha, fun _ => ⟨rfl, rfl⟩⟩
  rename_i f m1 ha
  obtain ⟨h1, hr, hk⟩ := (h.allocEmpty ha).refFresh
  have hpte : (cowRefPage m1 f).pte cr3 va = m.pte cr3 va := by
    have hq := Quiet.allocEmpty m
    rw [ha] at hq
    unfold pte
    rw [pteAt_congr (cowRefPage_rest m1 f).2.1]
    exact hq.pte cr3 _
  dsimp only
  rcases h1.mapOver cr3 va hi { protPte prot with shared := true }
    (.ofShared rfl (protPte_flags _).1 (protPte_flags _).2.1 rfl hk) with
    ⟨-, hg, hok⟩ | ⟨⟨p, hg⟩, slack', lost', hok, hcl⟩
  · rw [hg]
    have hrefs := (Grows.pagingMapPageInvl cr3 va
      { protPte prot with shared := true } (m := cowRefPage m1 f)
      (f := f)).refs f
    have hu := hok.unref
    rw [if_pos (by rw [cowUnrefPage_fst]; omega)] at hu
    exact ⟨_, _, hu.freeOne, fun _ => ⟨rfl, rfl⟩⟩
  · rw [hg]
    exact ⟨slack', lost', hok, fun hp => hcl (by rw [hpte]; exact hp)⟩

/-- Storing goes to one slot here too. -/
theorem pteAt_fillSharedPage (hj : j ≠ pageIdx va) :
    (fillSharedPage cr3 prot va m).2.pteAt cr3 j = m.pteAt cr3 j := by
  have hq := Quiet.allocEmpty m
  unfold fillSharedPage
  split
  · next ha => rw [ha] at hq; exact hq.pte cr3 j
  rename_i f m1 ha
  rw [ha] at hq
  have hm : (pagingMapPageInvl (cowRefPage m1 f) cr3 f va
      { protPte prot with shared := true }).pteAt cr3 j = m.pteAt cr3 j := by
    rw [pteAt_pagingMapPageInvl (.inr hj), pteAt_congr (cowRefPage_rest m1 f).2.1]
    exact hq.pte cr3 j
  dsimp only
  split
  · rw [← hm]
    exact pteAt_congr (cowUnrefPage_rest _ _).2.1 cr3 j
  · exact hm

theorem MemOk.fillShared
    (h : MemOk pool slack lost own slots m) (hb : base + pages * pageSize ≤ 2 ^ 47) :
    ∃ slack' lost', MemOk pool slack' lost' own slots (fillShared m cr3 base pages prot).2 ∧
      (ClearAt m cr3 base pages → slack' = slack ∧ lost' = lost) := by
  obtain ⟨slack', lost', h1, h2, -⟩ := forEach_range
    (P := BeforePage pool slack lost own slots m cr3 base pages)
    (fun k m1 ⟨slack1, lost1, h1, hc1, hrest⟩ =>
      ⟨slack1, lost1, h1, hc1, fun i hi => hrest i (by omega)⟩)
    (fun k hk m1 h1 => h1.next hk hb MemOk.fillSharedPage fun j => pteAt_fillSharedPage)
    ⟨slack, lost, h, fun _ => ⟨rfl, rfl⟩, fun _ _ _ => rfl⟩
  exact ⟨slack', lost', h1, h2⟩

end BleedKernel.Mm
