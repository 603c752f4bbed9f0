import BleedKernel.Proofs.PageTables

/-!
# Mappings go away

`vmm_unmap_free_pages` and `paging_release_user_space` both clear entries and
gather the frames that come free into runs. A frame in the run is in hand: it
has left the page tables and not reached the bitmap yet. So the invariant of
both loops is `MemOk` with the run added to what is held outside.
-/

namespace BleedKernel.Mm

open BleedKernel.Lib

variable {pool slack lost own slots : Frame → Nat} {m m' : Memory} {cr3 : Cr3}

/-! ## The run of frames to free -/

/-- One for a frame that waits in the run. -/
def FreeRun.held (run : FreeRun) (f : Frame) : Nat :=
  (decide (run.start ≤ f) && decide (f < run.start + run.pages)).toNat

/-- `MemOk`, with the frames of the run in hand. -/
def RunOk (pool slack lost own slots : Frame → Nat) (st : Memory × FreeRun) : Prop :=
  MemOk pool slack lost (fun f => own f + st.2.held f) slots st.1

theorem FreeRun.held_empty {run : FreeRun} (h : run.pages = 0) (f : Frame) : run.held f = 0 := by
  rw [held, h]
  simp

theorem FreeRun.held_one (f g : Frame) :
    ({ start := f, pages := 1 } : FreeRun).held g = (decide (g = f)).toNat := by
  rw [held, ← Bool.decide_and]
  exact congrArg Bool.toNat (decide_eq_decide.mpr (Ledger.eq_iff_run_one g f).symm)

theorem FreeRun.held_succ (run : FreeRun) (g : Frame) :
    ({ run with pages := run.pages + 1 } : FreeRun).held g
      = run.held g + (decide (g = run.start + run.pages)).toNat := by
  have aux : ∀ a b n : Nat, (decide (a ≤ b ∧ b < a + (n + 1))).toNat
      = (decide (a ≤ b ∧ b < a + n)).toNat + (decide (b = a + n)).toNat := by
    intro a b n
    by_cases h1 : a ≤ b ∧ b < a + n
    · have : b ≠ a + n := by omega
      have : b < a + (n + 1) := by omega
      simp [*]
    · by_cases h2 : b = a + n
      · subst h2; simp
      · have : ¬ (a ≤ b ∧ b < a + (n + 1)) := by omega
        rw [decide_eq_false this, decide_eq_false h1, decide_eq_false h2]
        rfl
  simp only [held, ← Bool.decide_and]
  exact aux _ _ _

theorem RunOk.start (h : MemOk pool slack lost own slots m) :
    RunOk pool slack lost own slots (m, {}) := by
  exact h

theorem RunOk.free (st : Memory × FreeRun) (h : RunOk pool slack lost own slots st) :
    MemOk pool slack lost own slots (vmmFreeRun st.1 st.2) := by
  unfold vmmFreeRun
  split
  · rename_i h0
    have : (fun f => own f + st.2.held f) = own := by
      funext f; rw [FreeRun.held_empty h0, Nat.add_zero]
    unfold RunOk at h
    rwa [this] at h
  · exact h.of_spaces rfl h.table (h.ledger.free fun f => rfl)

/-- A frame in hand joins the run. -/
theorem RunOk.add {f : Frame} {run : FreeRun}
    (h : MemOk pool slack lost (bump (fun g => own g + run.held g) f) slots m) :
    RunOk pool slack lost own slots (freeRunAdd f (m, run)) := by
  unfold freeRunAdd
  split
  · rename_i hc
    have e : bump (fun g => own g + run.held g) f
        = fun g => own g + ({ run with pages := run.pages + 1 }).held g := by
      funext g
      rw [FreeRun.held_succ, bump, hc.2]
      dsimp only
      omega
    rw [e] at h
    exact h
  · have e : bump (fun g => own g + run.held g) f = fun g => bump own f g + run.held g := by
      funext g; simp only [bump]; omega
    rw [e] at h
    have h' := RunOk.free ((m, run)) h
    have e' : bump own f = fun g => own g + ({ start := f, pages := 1 } : FreeRun).held g := by
      funext g; rw [FreeRun.held_one, bump]
    rw [e'] at h'
    exact h'

/-- Clearing one entry. -/
theorem RunOk.unmapPte {st : Memory × FreeRun} {i : Nat} (h : RunOk pool slack lost own slots st) :
    RunOk pool slack lost own slots (unmapPte cr3 i st) := by
  obtain ⟨m, run⟩ := st
  unfold Mm.unmapPte
  dsimp only
  split
  · exact h
  rename_i hp
  have hp' : (m.pteAt cr3 i).present = true := by
    simpa using hp
  obtain ⟨hnf, hcnt, hpriv⟩ := MemOk.clear h hp'
  split
  · next hn => exact hnf hn
  rename_i hn
  have hn' : (m.pteAt cr3 i).nofree = false := by simpa using hn
  split
  · rename_i hcs
    have hu := (hcnt hn' hcs).unref
    split
    · next hleft => rw [if_neg hleft] at hu; exact hu
    rename_i hleft
    rw [if_pos (by simpa using hleft)] at hu
    exact RunOk.add hu
  · next hcs => exact RunOk.add (hpriv hn' (by simpa using hcs))

theorem MemOk.vmmUnmapFreePages {virt pages : Nat} (h : MemOk pool slack lost own slots m) :
    MemOk pool slack lost own slots (vmmUnmapFreePages m cr3 virt pages) := by
  unfold Mm.vmmUnmapFreePages
  split
  · exact h
  refine RunOk.free _ (foldl_inv (fun j _ st hst => ?_) (RunOk.start h))
  split
  · exact RunOk.unmapPte hst
  · exact hst

/-! ## Teardown

A table goes once everything below it has gone. `Clears` is what one level of
the loop offers to the level above. -/

/-- `below k` empties place `k` of level `l` and everything under it, and
touches no table above that level. -/
structure Clears (cr3 : Cr3) (l : Nat)
    (below : Nat → Memory × FreeRun → Memory × FreeRun) : Prop where
  ok : ∀ {pool slack lost own slots k st},
    RunOk pool slack lost own slots st → RunOk pool slack lost own slots (below k st)
  gone : ∀ {pool slack lost own slots k st},
    RunOk pool slack lost own slots st → Gone (below k st).1 cr3 l k
  keep : ∀ k st l' j, Gone st.1 cr3 l' j → Gone (below k st).1 cr3 l' j
  above : ∀ k st l' j, l < l' → (below k st).1.tableAt cr3 (l', j) = st.1.tableAt cr3 (l', j)

theorem freeRunAdd_spaces (f : Frame) (st : Memory × FreeRun) :
    (freeRunAdd f st).1.spaces = st.1.spaces := by
  unfold freeRunAdd vmmFreeRun
  split
  · rfl
  · split <;> rfl

/-- What clearing one entry does to the page tables, and nothing more. -/
theorem unmapPte_spaces (cr3 : Cr3) (i : Nat) (st : Memory × FreeRun) : (unmapPte cr3 i st).1.spaces
      = if (st.1.pteAt cr3 i).present then (st.1.setPteAt cr3 i {}).spaces
        else st.1.spaces := by
  unfold unmapPte
  dsimp only
  by_cases hp : (st.1.pteAt cr3 i).present = true
  · rw [if_neg (by simp [hp])]
    split
    · rfl
    split
    · split
      · exact (cowUnrefPage_rest _ _).2.1
      · rw [freeRunAdd_spaces]; exact (cowUnrefPage_rest _ _).2.1
    · rw [freeRunAdd_spaces]
  · rw [if_neg hp, if_pos (by simpa using hp)]

theorem unmapPte_pteAt (cr3 c : Cr3) (i j : Nat) (st : Memory × FreeRun) :
    (unmapPte cr3 i st).1.pteAt c j = if c = cr3 ∧ j = i ∧ (st.1.pteAt cr3 i).present = true then {}
        else st.1.pteAt c j := by
  have hs := unmapPte_spaces cr3 i st
  by_cases hp : (st.1.pteAt cr3 i).present = true
  · have hsome : (st.1.space cr3).isSome := Memory.space_of_pteAt fun e => by
      rw [e] at hp; cases hp
    rw [if_pos hp] at hs
    rw [Memory.pteAt_congr hs, Memory.pteAt_setPteAt, hp, hsome]
  · rw [if_neg hp] at hs
    rw [Memory.pteAt_congr hs, if_neg fun hh => hp hh.2.2]

theorem unmapPte_tableAt (cr3 c : Cr3) (i : Nat) (key : Nat × Nat) (st : Memory × FreeRun) :
    (unmapPte cr3 i st).1.tableAt c key = st.1.tableAt c key := by
  have hs := unmapPte_spaces cr3 i st
  split at hs
  · rw [Memory.tableAt_congr hs, Memory.tableAt_setPteAt]
  · rw [Memory.tableAt_congr hs]

theorem Clears.unmapPte (cr3 : Cr3) : Clears cr3 0 (unmapPte cr3) where
  ok h := h.unmapPte
  gone {_ _ _ _ _ k st} h := by
    rw [Gone, unmapPte_pteAt]
    by_cases hp : (st.1.pteAt cr3 k).present = true
    · rw [if_pos ⟨rfl, rfl, hp⟩]
    · rw [if_neg fun hh => hp hh.2.2]
      exact (h.wf cr3 k).zero (by simpa using hp)
  keep k st l' j hg := by
    cases l' with
    | zero =>
      rw [Gone, unmapPte_pteAt]
      split
      · rfl
      · exact hg
    | succ l' => rw [Gone, unmapPte_tableAt]; exact hg
  above k st l' j _ := unmapPte_tableAt _ _ _ _ _

/-- The loop over one table's places. -/
theorem Clears.overPlaces {l : Nat} {below : Nat → Memory × FreeRun → Memory × FreeRun}
    (hb : Clears cr3 l below) (n k : Nat) (st : Memory × FreeRun) :
    (∀ {pool slack lost own slots}, RunOk pool slack lost own slots st →
      RunOk pool slack lost own slots (overPlaces n below k st) ∧
      ∀ i < n, Gone (Mm.overPlaces n below k st).1 cr3 l (k * n + i)) ∧
    (∀ l' j, Gone st.1 cr3 l' j → Gone (Mm.overPlaces n below k st).1 cr3 l' j) ∧
    (∀ l' j, l < l' → (Mm.overPlaces n below k st).1.tableAt cr3 (l', j)
      = st.1.tableAt cr3 (l', j)) := by
  refine ⟨fun h => ?_, fun l' j hj => ?_, fun l' j hl => ?_⟩
  · have hall := foldl_all (l := List.range n) (Q := fun i st => Gone st.1 cr3 l (k * n + i))
      (fun i _ st hst => hb.ok hst) (fun i _ st => hb.gone)
      (fun i _ j st _ => hb.keep _ st _ _) h
    exact ⟨hall.2.2, fun i hi => hall.1 i (List.mem_range.mpr hi)⟩
  · exact foldl_inv (fun i _ st => hb.keep _ st _ _) hj
  · exact foldl_inv (fun i _ s => (hb.above _ s _ _ hl).trans) rfl

/-- One table of the teardown, from the level below it. -/
theorem Clears.releaseTable {l : Nat}
    {below : Nat → Memory × FreeRun → Memory × FreeRun} (hb : Clears cr3 l below)
    (hl : l < 3) : Clears cr3 (l + 1) (releaseTable cr3 (l + 1) below) where
  ok {pool slack lost own slots k st} h := by
    unfold Mm.releaseTable
    split
    · exact h
    rename_i ht
    obtain ⟨hfold, -, habove⟩ := hb.overPlaces 512 k st
    obtain ⟨hok, hgone⟩ := hfold h
    have ht' := (habove (l + 1) k (by omega)).trans ht
    generalize Mm.overPlaces 512 below k st = st' at *
    refine MemOk.dropTable hok hl ht' fun j hj => ?_
    have := hgone (j % 512) (by omega)
    rwa [show k * 512 + j % 512 = j by omega] at this
  gone {_ _ _ _ _ k st} h := by
    unfold Mm.releaseTable
    split
    · next hn => exact hn
    rename_i ht
    obtain ⟨-, -, habove⟩ := hb.overPlaces 512 k st
    have ht' := (habove (l + 1) k (by omega)).trans ht
    generalize Mm.overPlaces 512 below k st = st' at *
    have hsome : (st'.1.tableAt cr3 (l + 1, k)).isSome := by rw [ht']; rfl
    rw [Gone, Memory.tableAt_setTable, if_pos]
    exact ⟨rfl, rfl, Memory.space_of_tableAt _ hsome⟩
  keep k st l' j hg := by
    unfold Mm.releaseTable
    split
    · exact hg
    have hkeep := (hb.overPlaces 512 k st).2.1 l' j hg
    generalize Mm.overPlaces 512 below k st = st' at *
    refine Linked.gone_setTable ?_
    cases l' <;> exact hkeep
  above k st l' j hlt := by
    unfold Mm.releaseTable
    split
    · rfl
    have habove := (hb.overPlaces 512 k st).2.2 l' j (by omega)
    generalize Mm.overPlaces 512 below k st = st' at *
    rw [Memory.tableAt_setTable, if_neg]
    · exact habove
    · rintro ⟨-, hkey, -⟩
      have : l' = l + 1 := congrArg Prod.fst hkey
      omega

theorem clears_release (cr3 : Cr3) :
    Clears cr3 3 (releaseTable cr3 3 (releaseTable cr3 2 (releaseTable cr3 1 (unmapPte cr3)))) :=
  (((Clears.unmapPte cr3).releaseTable (by omega)).releaseTable (by omega)).releaseTable (by omega)

/-- With the top tables gone, nothing is left below them. -/
theorem Linked.empty (h : Linked m) (h3 : ∀ k, m.tableAt cr3 (3, k) = none) :
    (∀ key, key ≠ (4, 0) → m.tableAt cr3 key = none) ∧ ∀ i, m.pteAt cr3 i = {} := by
  have none_of_up : ∀ l, l < 3 → (∀ k, m.tableAt cr3 (l + 1, k) = none) →
      ∀ k, m.tableAt cr3 (l, k) = none := fun l hl hup k => by
    cases ht : m.tableAt cr3 (l, k) with
    | none => rfl
    | some t =>
      have := h.up cr3 l k (by omega) (by rw [ht]; rfl)
      rw [hup] at this
      cases this
  have h2 := none_of_up 2 (by omega) h3
  have h1 := none_of_up 1 (by omega) h2
  refine ⟨fun ⟨l, k⟩ hne => ?_, fun i => ?_⟩
  · cases ht : m.tableAt cr3 (l, k) with
    | none => rfl
    | some t =>
      have hs : (m.tableAt cr3 (l, k)).isSome := by rw [ht]; rfl
      have hlev := h.level cr3 l k hs
      obtain rfl | rfl | rfl | rfl : l = 1 ∨ l = 2 ∨ l = 3 ∨ l = 4 := by omega
      · rw [h1] at ht; cases ht
      · rw [h2] at ht; cases ht
      · rw [h3] at ht; cases ht
      · exact absurd (by rw [h.root cr3 k hs]) hne
  · by_contra hi
    have := h.pte cr3 i hi
    rw [h1] at this
    cases this

/-- Tearing a space down gives back everything it held but the root. -/
theorem MemOk.pagingReleaseUserSpace (cr3 : Cr3) (h : MemOk pool slack lost own slots m) :
    MemOk pool slack lost own slots (pagingReleaseUserSpace m cr3) ∧
      (∀ k, (Mm.pagingReleaseUserSpace m cr3).tableAt cr3 (3, k) = none) ∧
      (Mm.pagingReleaseUserSpace m cr3).tableAt cr3 (4, 0) = m.tableAt cr3 (4, 0) := by
  obtain ⟨hfold, -, habove⟩ := (clears_release cr3).overPlaces 256 0 (m, {})
  obtain ⟨hok, hgone⟩ := hfold (RunOk.start h)
  have htop := habove 4 0 (by omega)
  unfold Mm.pagingReleaseUserSpace
  generalize Mm.overPlaces 256 _ 0 (m, ({} : FreeRun)) = st' at *
  have hsp : (vmmFreeRun st'.1 st'.2).spaces = st'.1.spaces := by
    unfold vmmFreeRun; split <;> rfl
  have hfree := RunOk.free _ hok
  refine ⟨hfree, fun k => ?_, ?_⟩
  · by_cases hk : k < 256
    · have := hgone k hk
      rw [Nat.zero_add] at this
      rw [Memory.tableAt_congr hsp]
      exact this
    · cases ht : (vmmFreeRun st'.1 st'.2).tableAt cr3 (3, k) with
      | none => rfl
      | some t => exact absurd (hfree.linked.half cr3 k (by rw [ht]; rfl)) hk
  · rw [Memory.tableAt_congr hsp]; exact htop

/-- `paging_destroy_address_space` gives back everything. -/
theorem MemOk.pagingDestroyAddressSpace (h : MemOk pool slack lost own slots m) :
    MemOk pool slack lost own slots (pagingDestroyAddressSpace m cr3) := by
  unfold Mm.pagingDestroyAddressSpace
  split
  · exact h
  rename_i root hroot
  obtain ⟨hrel, h3, htop⟩ := MemOk.pagingReleaseUserSpace _ h
  rw [hroot] at htop
  generalize Mm.pagingReleaseUserSpace m cr3 = m' at *
  obtain ⟨htab, hpte⟩ := hrel.linked.empty h3
  have hdrop : MemOk pool slack lost (bump own root) slots
      { m' with spaces := m'.spaces.set cr3 none } := by
    refine ⟨hrel.ledger.dropSpace htop hpte htab, hrel.linked.dropSpace, fun c j => ?_, hrel.table⟩
    rw [Memory.pteAt_dropSpace]
    split
    · exact Pte.wf_zero
    · exact hrel.wf c j
  exact hdrop.freeOne

/-- `paging_create_address_space` puts one frame to use. -/
theorem MemOk.pagingCreateAddressSpace (h : MemOk pool slack lost own slots m) :
    MemOk pool slack lost own slots (pagingCreateAddressSpace m).2 := by
  unfold Mm.pagingCreateAddressSpace
  split
  · next m' he => exact h.allocEmptyNone he
  rename_i m' he
  have h' := h.allocEmpty he
  refine ⟨h'.ledger.addSpace, h'.linked.addSpace, fun c j => ?_, h'.table⟩
  have := h'.wf c j
  rwa [← Memory.pteAt_addSpace] at this

end BleedKernel.Mm
