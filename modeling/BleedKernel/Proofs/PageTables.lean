import BleedKernel.Proofs.Ledger

/-!
# The page tables hang together

Beside the ledger there are two things every function of the paging code relies
on and never checks. A table that is linked is reachable from the root, and an
entry that is not zero sits in a linked table; so clearing what can be reached
clears everything, and dropping an empty table drops no entry. And the flag bits
of an entry are not arbitrary: copy-on-write excludes being writable, shared or
a device's.

`MemOk` puts the three together, and this file says which of the small steps of
the paging code keep it.
-/

namespace BleedKernel.Mm

open BleedKernel.Lib Memory

variable {k l : Nat} {p : Pte} {f : Frame}

variable {cr3 : Cr3} {m : Memory} {i : Nat}

/-- The combinations of flag bits that occur. -/
structure Pte.Wf (p : Pte) : Prop where
  zero : p.present = false → p = {}
  cow : p.cow = true → p.writable = false ∧ p.shared = false ∧ p.nofree = false
  device : p.nofree = true → p.shared = false

theorem Pte.wf_zero : Pte.Wf {} where
  zero _ := rfl
  cow h := nomatch h
  device h := nomatch h

theorem Pte.Wf.of_present (hp : p.present = true)
    (cow : p.cow = true → p.writable = false ∧ p.shared = false ∧ p.nofree = false)
    (device : p.nofree = true → p.shared = false) : p.Wf :=
  ⟨fun hf => absurd (hp.symm.trans hf) nofun, cow, device⟩

/-- Everything linked hangs from the root, in the user half. -/
structure Linked (m : Memory) : Prop where
  level : ∀ cr3 l k, (m.tableAt cr3 (l, k)).isSome → 1 ≤ l ∧ l ≤ 4
  root : ∀ cr3 k, (m.tableAt cr3 (4, k)).isSome → k = 0
  half : ∀ cr3 k, (m.tableAt cr3 (3, k)).isSome → k < 256
  up : ∀ cr3 l k, l ≤ 3 → (m.tableAt cr3 (l, k)).isSome → (m.tableAt cr3 (l + 1, k / 512)).isSome
  live : ∀ cr3, (m.space cr3).isSome → (m.tableAt cr3 (4, 0)).isSome
  pte : ∀ cr3 i, m.pteAt cr3 i ≠ {} → (m.tableAt cr3 (1, i / 512)).isSome

/-- What holds of the memory between any two statements: the ledger, the shape
of the page tables, the flags of every entry, and that references are counted
at all. -/
structure MemOk (pool slack lost own slots : Frame → Nat) (m : Memory) : Prop where
  ledger : Ledger pool slack lost own slots m
  linked : Linked m
  wf : ∀ cr3 i, (m.pteAt cr3 i).Wf
  table : CowTable m

/-- Nothing is at place `k` of level `l`; entries are level 0. -/
def Gone (m : Memory) (cr3 : Cr3) : Nat → Nat → Prop
  | 0, i => m.pteAt cr3 i = {}
  | l + 1, k => m.tableAt cr3 (l + 1, k) = none

namespace Linked

variable {m m' : Memory} {cr3 : Cr3} {i : Nat}

theorem gone_setTable {l' j : Nat} (h : Gone m cr3 l' j) :
    Gone (m.setTable cr3 (l, k) none) cr3 l' j := by
  cases l' with
  | zero => rw [Gone, pteAt_setTable]; exact h
  | succ l' =>
    rw [Gone, tableAt_setTable]
    split
    · rfl
    · exact h

variable (h : Linked m)

include h

/-- A slot under a linked page table is in the user half. -/
theorem slot_lt (ht : (m.tableAt cr3 (1, i / 512)).isSome) : i < 2 ^ 35 := by
  have h2 := h.up cr3 1 _ (by omega) ht
  have h3 := h.up cr3 2 _ (by omega) h2
  have := h.half cr3 _ h3
  omega

/-- Every linked table is in the range the ledger adds up over. -/
theorem key_lt (ht : (m.tableAt cr3 (l, k)).isSome) : l < 5 ∧ k < 2 ^ 27 := by
  have hl := h.level cr3 l k ht
  have h3 := h.half cr3
  have hup := h.up cr3
  obtain rfl | rfl | rfl | rfl : l = 1 ∨ l = 2 ∨ l = 3 ∨ l = 4 := by omega
  · have := h3 _ (hup 2 _ (by omega) (hup 1 _ (by omega) ht)); omega
  · have := h3 _ (hup 2 _ (by omega) ht); omega
  · have := h3 _ ht; omega
  · have := h.root cr3 k ht; omega

section

variable (ht : (m.tableAt cr3 (1, i / 512)).isSome)

include ht

/-- Over a page table there are all the tables above it. -/
theorem tables_over :
    (m.tableAt cr3 (tableKey 1 i)).isSome ∧ (m.tableAt cr3 (tableKey 2 i)).isSome ∧
      (m.tableAt cr3 (tableKey 3 i)).isSome ∧ (m.tableAt cr3 (tableKey 4 i)).isSome := by
  have h2 := h.up cr3 1 _ (by omega) ht
  have h3 := h.up cr3 2 _ (by omega) h2
  have h4 := h.up cr3 3 _ (by omega) h3
  rw [Nat.div_div_eq_div_mul] at h2
  rw [Nat.div_div_eq_div_mul, Nat.div_div_eq_div_mul] at h3
  rw [Nat.div_div_eq_div_mul, Nat.div_div_eq_div_mul, Nat.div_div_eq_div_mul] at h4
  exact ⟨ht, h2, h3, h4⟩

/-- There is a page table over every entry that is not zero. -/
theorem getTable : pagingGetTable m cr3 i = true := by
  obtain ⟨h1, h2, h3, -⟩ := h.tables_over ht
  unfold pagingGetTable
  rw [h1, h2, h3]
  rfl

/-- A walk to a page table that is there changes nothing. -/
theorem walk_of_table : pagingWalkPageTables m cr3 i = (true, m) := by
  obtain ⟨h1, h2, h3, h4⟩ := h.tables_over ht
  have hw : ∀ l, (m.tableAt cr3 (tableKey l i)).isSome →
      pagingWriteTableEntry m cr3 l i = (true, m) := fun l hl => by
    obtain ⟨t, ht⟩ := Option.isSome_iff_exists.mp hl
    unfold pagingWriteTableEntry
    rw [ht]
  obtain ⟨t, ht4⟩ := Option.isSome_iff_exists.mp h4
  unfold pagingWalkPageTables
  rw [ht4, if_neg (by simp)]
  simp only [forEach, hw 3 h3, hw 2 h2, hw 1 h1]

end

/-- No table is new, and none is missing over what is left. -/
theorem fewer (old : ∀ {c key}, (m'.tableAt c key).isSome → (m.tableAt c key).isSome)
    (up : ∀ c l k, l ≤ 3 → (m'.tableAt c (l, k)).isSome → (m.tableAt c (l + 1, k / 512)).isSome →
      (m'.tableAt c (l + 1, k / 512)).isSome)
    (live : ∀ c, (m'.space c).isSome → (m'.tableAt c (4, 0)).isSome)
    (pte : ∀ c i, m'.pteAt c i ≠ {} → (m'.tableAt c (1, i / 512)).isSome) : Linked m' where
  level c l k hk := h.level c l k (old hk)
  root c k hk := h.root c k (old hk)
  half c k hk := h.half c k (old hk)
  up c l k hl hk := up c l k hl hk (h.up c l k hl (old hk))
  live := live
  pte := pte

/-- The shape reads the spaces only. -/
theorem of_spaces (hs : m'.spaces = m.spaces) : Linked m' := by
  have ht := tableAt_congr hs
  refine h.fewer (fun hk => ht .. ▸ hk) (fun _ _ _ _ _ hk => ht .. ▸ hk) ?_ ?_
  · simpa only [ht, space_congr hs] using h.live
  · simpa only [ht, pteAt_congr hs] using h.pte

theorem setPte (hp : p = {} ∨ (m.tableAt cr3 (1, i / 512)).isSome) :
    Linked (m.setPteAt cr3 i p) := by
  refine h.fewer (fun hk => by rwa [tableAt_setPteAt] at hk)
    (fun _ _ _ _ _ hk => by rwa [tableAt_setPteAt]) ?_ fun c j hj => ?_
  · simpa only [tableAt_setPteAt, space_setPteAt] using h.live
  · rw [tableAt_setPteAt]
    rw [pteAt_setPteAt] at hj
    split at hj
    · rename_i hc
      obtain ⟨rfl, rfl, -⟩ := hc
      exact hp.resolve_left hj
    · exact h.pte c j hj

/-- A new table is linked below one that is linked. -/
theorem link {t : Frame} (hl : 1 ≤ l) (hl' : l ≤ 3)
    (hup : (m.tableAt cr3 (l + 1, k / 512)).isSome) (hhalf : l = 3 → k < 256) :
    Linked (m.setTable cr3 (l, k) (some t)) := by
  have mono : ∀ c key, (m.tableAt c key).isSome →
      ((m.setTable cr3 (l, k) (some t)).tableAt c key).isSome := fun c key hk => by
    rw [tableAt_setTable]; split
    · rfl
    · exact hk
  constructor
  · intro c l' k' hk
    rw [tableAt_setTable] at hk
    split at hk
    · next hc => cases hc.2.1; omega
    · exact h.level c l' k' hk
  · intro c k' hk
    rw [tableAt_setTable] at hk
    split at hk
    · next hc => cases hc.2.1; omega
    · exact h.root c k' hk
  · intro c k' hk
    rw [tableAt_setTable] at hk
    split at hk
    · next hc => cases hc.2.1; exact hhalf rfl
    · exact h.half c k' hk
  · intro c l' k' hl3 hk
    rw [tableAt_setTable] at hk
    split at hk
    · next hc => obtain ⟨rfl, hkey, -⟩ := hc; cases hkey; exact mono _ _ hup
    · exact mono _ _ (h.up c l' k' hl3 hk)
  · intro c hc
    rw [space_setTable] at hc
    exact mono _ _ (h.live c hc)
  · intro c j hj
    rw [pteAt_setTable] at hj
    exact mono _ _ (h.pte c j hj)

/-- A table with nothing below it can be unlinked. -/
theorem unlink (hl : l < 3) (hbelow : ∀ j, j / 512 = k → Gone m cr3 l j) :
    Linked (m.setTable cr3 (l + 1, k) none) := by
  have old : ∀ {c key}, ((m.setTable cr3 (l + 1, k) none).tableAt c key).isSome →
      (m.tableAt c key).isSome := fun hk => by
    rw [tableAt_setTable] at hk
    split at hk
    · cases hk
    · exact hk
  have keep : ∀ c key, ¬ (c = cr3 ∧ key = (l + 1, k)) → (m.tableAt c key).isSome →
      ((m.setTable cr3 (l + 1, k) none).tableAt c key).isSome := fun c key hne hk => by
    rw [tableAt_setTable, if_neg (fun hh => hne ⟨hh.1, hh.2.1⟩)]
    exact hk
  refine h.fewer old (fun c l' k' hl3 hk => keep _ _ ?_) (fun c hc => ?_) fun c j hj => ?_
  · rintro ⟨rfl, hkey⟩
    have hlk : l' = l ∧ k' / 512 = k := by simpa using hkey
    have hsome := old hk
    obtain ⟨n, rfl⟩ : ∃ n, l' = n + 1 := ⟨l' - 1, by have := h.level c l' k' hsome; omega⟩
    have hb := hbelow k' hlk.2
    rw [← hlk.1] at hb
    rw [hb] at hsome
    cases hsome
  · rw [space_setTable] at hc
    refine keep _ _ ?_ (h.live c hc)
    rintro ⟨-, hkey⟩
    have : 4 = l + 1 := congrArg Prod.fst hkey
    omega
  · rw [pteAt_setTable] at hj
    refine keep _ _ ?_ (h.pte c j hj)
    rintro ⟨rfl, hkey⟩
    have hlk : l = 0 ∧ j / 512 = k := by simpa using hkey
    have hb := hbelow j hlk.2
    rw [hlk.1] at hb
    exact hj hb

theorem addSpace {root : Frame} :
    Linked { m with spaces := m.spaces ++ [some (AddrSpace.fresh root)] } := by
  have mono : ∀ c key, (m.tableAt c key).isSome →
      (tableAt { m with spaces := m.spaces ++ [some (AddrSpace.fresh root)] }
        c key).isSome := fun c key hk => by
    rw [tableAt_addSpace]; split
    · rfl
    · exact hk
  constructor
  · intro c l k hk
    rw [tableAt_addSpace] at hk
    split at hk
    · next hc => cases hc.2; omega
    · exact h.level c l k hk
  · intro c k hk
    rw [tableAt_addSpace] at hk
    split at hk
    · next hc => cases hc.2; rfl
    · exact h.root c k hk
  · intro c k hk
    rw [tableAt_addSpace, if_neg (fun hh => by cases hh.2)] at hk
    exact h.half c k hk
  · intro c l k hl hk
    rw [tableAt_addSpace, if_neg (fun hh => by cases hh.2; omega)] at hk
    exact mono _ _ (h.up c l k hl hk)
  · intro c hc
    rw [space_addSpace] at hc
    split at hc
    · next hn => rw [tableAt_addSpace, if_pos ⟨hn, rfl⟩]; rfl
    · exact mono _ _ (h.live c hc)
  · intro c j hj
    rw [pteAt_addSpace] at hj
    exact mono _ _ (h.pte c j hj)

theorem dropSpace : Linked { m with spaces := m.spaces.set cr3 none } := by
  have old : ∀ {c key}, (tableAt { m with spaces := m.spaces.set cr3 none }
      c key).isSome → c ≠ cr3 ∧ (m.tableAt c key).isSome := fun hk => by
    rw [tableAt_dropSpace] at hk
    split at hk
    · cases hk
    · next hc => exact ⟨hc, hk⟩
  have keep : ∀ c key, c ≠ cr3 → (m.tableAt c key).isSome →
      (tableAt { m with spaces := m.spaces.set cr3 none } c key).isSome :=
    fun c key hc hk => by rw [tableAt_dropSpace, if_neg hc]; exact hk
  refine h.fewer (fun hk => (old hk).2) (fun _ _ _ _ hk => keep _ _ (old hk).1) (fun c hc => ?_)
    fun c j hj => ?_
  · rw [space_dropSpace] at hc
    split at hc
    · cases hc
    · next hne => exact keep _ _ hne (h.live c hc)
  · rw [pteAt_dropSpace] at hj
    split at hj
    · exact absurd rfl hj
    · next hne => exact keep _ _ hne (h.pte c j hj)

end Linked

/-! ## What a walk does

Allocating a frame and linking tables is all a walk does, and callers only want
to know what it left alone. -/

/-- Nothing mapped before is mapped differently: only frames were handed out,
cleared, and linked as tables. -/
structure Quiet (m m' : Memory) : Prop where
  pte : ∀ c i, m'.pteAt c i = m.pteAt c i
  table : ∀ c key, (m.tableAt c key).isSome → m'.tableAt c key = m.tableAt c key
  space : ∀ c, (m'.space c).isSome = (m.space c).isSome
  length : m'.spaces.length = m.spaces.length
  refs : ∀ f, m'.refs f = m.refs f
  cowTable : CowTable m → CowTable m'
  free : ∀ f, m'.free f = true → m.free f = true
  bytes : ∀ f, m.free f = false → m'.bytes f = m.bytes f

namespace Quiet

variable {m m' m'' : Memory}

theorem rfl' : Quiet m m := ⟨fun _ _ => rfl, fun _ _ _ => rfl, fun _ => rfl, rfl, fun _ => rfl, id,
    fun _ h => h, fun _ _ => rfl⟩

theorem trans (h : Quiet m m') (h' : Quiet m' m'') : Quiet m m'' where
  pte c i := (h'.pte c i).trans (h.pte c i)
  table c key hk := by
    have e := h.table c key hk
    rw [h'.table c key (by rw [e]; exact hk), e]
  space c := (h'.space c).trans (h.space c)
  length := h'.length.trans h.length
  refs f := (h'.refs f).trans (h.refs f)
  cowTable hc := h'.cowTable (h.cowTable hc)
  free f hf := h.free f (h'.free f hf)
  bytes f hf := by
    have : m'.free f = false := by
      cases hm : m'.free f with
      | false => rfl
      | true => rw [h.free f hm] at hf; cases hf
    rw [h'.bytes f this, h.bytes f hf]

theorem ptes_eq (h : Quiet m m') (w : Pte → Nat) : ptes m' w = ptes m w := by
  unfold ptes
  rw [h.length]
  exact tally_congr fun x _ => by rw [h.pte]

theorem alloc (m : Memory) : Quiet m (pmmAllocPages m).2 := by
  rcases pmmAllocPages_cases m with ⟨rest, hc⟩ | ⟨f, rest, -, hf, hc⟩
  · rw [hc]
    exact ⟨fun _ _ => rfl, fun _ _ _ => rfl, fun _ => rfl, rfl, fun _ => rfl, id,
      fun _ h => h, fun _ _ => rfl⟩
  rw [hc]
  refine ⟨fun _ _ => rfl, fun _ _ _ => rfl, fun _ => rfl, rfl, fun _ => rfl, id,
    fun x hx => ?_, fun _ _ => rfl⟩
  by_cases hxf : x = f
  · rw [hxf]; exact hf
  · simpa [Function.update_of_ne hxf] using hx

/-- Clearing a frame that was free is quiet. -/
theorem allocEmpty (m : Memory) : Quiet m (pagingAllocEmptyFrame m).2 := by
  have ha := Quiet.alloc m
  rcases pmmAllocPages_cases m with ⟨rest, hc⟩ | ⟨f, rest, -, hf, hc⟩
  · rw [hc] at ha
    unfold pagingAllocEmptyFrame
    rw [hc]
    exact ha
  · rw [hc] at ha
    unfold pagingAllocEmptyFrame
    rw [hc]
    refine ⟨ha.pte, ha.table, ha.space, ha.length, ha.refs, ha.cowTable, ha.free, fun x hx => ?_⟩
    have hxf : x ≠ f := fun e => by rw [e, hf] at hx; cases hx
    exact Function.update_of_ne hxf _ _

theorem setTable {key : Nat × Nat} {t : Option Frame}
    (h : m.tableAt cr3 key = none) : Quiet m (m.setTable cr3 key t) := by
  refine ⟨fun _ _ => pteAt_setTable, fun c k hk => ?_,
    fun _ => space_setTable, length_updSpace, fun _ => rfl, id,
    fun _ h => h, fun _ _ => rfl⟩
  rw [tableAt_setTable, if_neg]
  rintro ⟨rfl, rfl, -⟩
  rw [h] at hk
  cases hk

end Quiet

theorem pmmAllocPages_spaces (m : Memory) : (pmmAllocPages m).2.spaces = m.spaces := by
  rcases pmmAllocPages_cases m with ⟨rest, hc⟩ | ⟨f, rest, -, -, hc⟩ <;> rw [hc]

theorem pagingAllocEmptyFrame_spaces (m : Memory) :
    (pagingAllocEmptyFrame m).2.spaces = m.spaces := by
  unfold pagingAllocEmptyFrame
  rcases pmmAllocPages_cases m with ⟨rest, hc⟩ | ⟨f, rest, -, -, hc⟩ <;> rw [hc]
  rfl

theorem pagingWriteTableEntry_quiet (m : Memory) (cr3 : Cr3) (l i : Nat) :
    Quiet m (pagingWriteTableEntry m cr3 l i).2 := by
  unfold pagingWriteTableEntry
  split
  · exact Quiet.rfl'
  rename_i hn
  have ha := Quiet.allocEmpty m
  split
  · next m' he => rw [he] at ha; exact ha
  rename_i m' he
  rw [he] at ha
  have hn' : m'.tableAt cr3 (tableKey l i) = none := by
    have hsp := pagingAllocEmptyFrame_spaces m
    rw [he] at hsp
    rw [tableAt_congr hsp]; exact hn
  exact ha.trans (Quiet.setTable hn')

theorem pagingWalkPageTables_quiet (m : Memory) (cr3 : Cr3) (i : Nat) :
    Quiet m (pagingWalkPageTables m cr3 i).2 := by
  unfold pagingWalkPageTables
  split
  · exact Quiet.rfl'
  · exact forEach_inv (fun l _ s h => h.trans (pagingWriteTableEntry_quiet s cr3 l i)) Quiet.rfl'

/-- A level that is walked through has its table. -/
theorem tableAt_pagingWriteTableEntry (hup : (m.tableAt cr3 (tableKey (l + 1) i)).isSome)
    (hok : (pagingWriteTableEntry m cr3 l i).1 = true) :
    ((pagingWriteTableEntry m cr3 l i).2.tableAt cr3 (tableKey l i)).isSome := by
  have hq := Quiet.allocEmpty m
  unfold pagingWriteTableEntry at hok ⊢
  split at hok
  · next t ht => rw [ht]; rfl
  split at hok
  · cases hok
  rename_i m' he
  rw [he] at hq
  rw [tableAt_setTable, if_pos ⟨rfl, rfl, by rw [hq.space]; exact space_of_tableAt _ hup⟩]
  rfl

/-- What each level keeps, below a table that is there, the walk keeps; and where
it succeeds there is a page table. -/
theorem walk_rule {P : Memory → Prop}
    (hstep : ∀ m l, 1 ≤ l → l ≤ 3 → P m → (m.tableAt cr3 (tableKey (l + 1) i)).isSome →
      P (pagingWriteTableEntry m cr3 l i).2) (h : P m) :
    P (pagingWalkPageTables m cr3 i).2 ∧ ((pagingWalkPageTables m cr3 i).1 = true →
        ((pagingWalkPageTables m cr3 i).2.tableAt cr3 (1, i / 512)).isSome) := by
  let f := fun l m => pagingWriteTableEntry m cr3 l i
  let Q := fun r : Bool × Memory => P r.2 ∧ (r.1 = true → (r.2.tableAt cr3 (1, i / 512)).isSome)
  -- a level that is passed leaves its table for the levels below it
  have level : ∀ {m} l {rest}, 1 ≤ l → l ≤ 3 → P m → (m.tableAt cr3 (tableKey (l + 1) i)).isSome →
      (∀ m, P m → (m.tableAt cr3 (tableKey l i)).isSome → Q (forEach f rest m)) →
      Q (forEach f (l :: rest) m) := fun {m} l _ hl hl' hm hup next => by
    have hp := hstep m l hl hl' hm hup
    cases hr : (pagingWriteTableEntry m cr3 l i).1 with
    | false => rw [forEach_cons_fail hr]; exact ⟨hp, nofun⟩
    | true => rw [forEach_cons_ok hr]; exact next _ hp (tableAt_pagingWriteTableEntry hup hr)
  simp only [pagingWalkPageTables]
  split
  · exact ⟨h, nofun⟩
  rename_i h4
  have h4 : (m.tableAt cr3 (tableKey (3 + 1) i)).isSome := by
    cases hx : m.tableAt cr3 (tableKey 4 i) with
    | none => rw [hx] at h4; simp at h4
    | some t => rfl
  refine level 3 (by omega) (by omega) h h4 fun m hm ht => ?_
  refine level 2 (by omega) (by omega) hm ht fun m hm ht => ?_
  refine level 1 (by omega) (by omega) hm ht fun m hm ht => ⟨hm, fun _ => ?_⟩
  simpa [tableKey] using ht

/-- One level of a walk links its table where it belongs. -/
theorem Linked.writeTableEntry (h : Linked m) (hl : 1 ≤ l) (hl' : l ≤ 3) (hi : i < 2 ^ 35)
    (hup : (m.tableAt cr3 (tableKey (l + 1) i)).isSome) :
    Linked (pagingWriteTableEntry m cr3 l i).2 := by
  have hq := Quiet.allocEmpty m
  have hsp := pagingAllocEmptyFrame_spaces m
  unfold pagingWriteTableEntry
  split
  · exact h
  split
  · next m' he => rw [he] at hsp; exact h.of_spaces hsp
  rename_i m' he
  rw [he] at hq hsp
  refine (h.of_spaces hsp).link hl hl' ?_ fun h3 => ?_
  · rw [Nat.div_div_eq_div_mul, ← pow_succ]
    rw [tableKey] at hup
    rw [hq.table cr3 _ hup]
    exact hup
  · subst h3
    omega

theorem Linked.walk (cr3 : Cr3) (h : Linked m) (hi : i < 2 ^ 35) :
    Linked (pagingWalkPageTables m cr3 i).2 ∧ ((pagingWalkPageTables m cr3 i).1 = true →
        ((pagingWalkPageTables m cr3 i).2.tableAt cr3 (1, i / 512)).isSome) :=
  walk_rule (fun _ _ hl hl' hm => hm.writeTableEntry hl hl' hi) h

/-! ## What an entry weighs -/

theorem weights_none (h : p.present = false ∨ p.nofree = true) (f : Frame) :
    privW f p = 0 ∧ cowW f p = 0 ∧ sharedW f p = 0 := by
  rcases h with h | h <;> simp [privW, cowW, sharedW, Pte.holds, h]

theorem weights_zero (f : Frame) : privW f {} = 0 ∧ cowW f {} = 0 ∧ sharedW f {} = 0 :=
  weights_none (.inl rfl) f

theorem weights_priv (hp : p.present = true) (hn : p.nofree = false)
    (hc : p.cow = false) (hs : p.shared = false) (f : Frame) :
    privW f p = (decide (f = p.phys)).toNat ∧ cowW f p = 0 ∧ sharedW f p = 0 := by
  simp [privW, cowW, sharedW, Pte.holds, hp, hn, hc, hs, eq_comm]

theorem weights_cow (hp : p.present = true) (hn : p.nofree = false)
    (hc : p.cow = true) (hs : p.shared = false) (f : Frame) :
    privW f p = 0 ∧ cowW f p = (decide (f = p.phys)).toNat ∧ sharedW f p = 0 := by
  simp [privW, cowW, sharedW, Pte.holds, hp, hn, hc, hs, eq_comm]

theorem weights_shared (hp : p.present = true) (hn : p.nofree = false)
    (hs : p.shared = true) (f : Frame) :
    privW f p = 0 ∧ cowW f p = 0 ∧ sharedW f p = (decide (f = p.phys)).toNat := by
  simp [privW, cowW, sharedW, Pte.holds, hp, hn, hs, eq_comm]

/-- An entry with a weight is seen in the sum. -/
theorem le_ptes (w : Pte → Nat) (hs : (m.space cr3).isSome) (hi : i < pageSlots) :
    w (m.pteAt cr3 i) ≤ ptes m w :=
  le_tally (F := fun x => m.pteAt x.1 x.2) (a := (cr3, i))
    (by simp only [Finset.mem_product, Finset.mem_range]
        exact ⟨space_lt hs, hi⟩)

/-- What an entry that is stored over leaves behind in `slack`. -/
def leakedBy (p : Pte) (slack : Frame → Nat) : Frame → Nat :=
  fun f => slack f + cowW f p + sharedW f p

/-- And in `lost`. -/
def lostBy (p : Pte) (lost : Frame → Nat) : Frame → Nat := fun f => lost f + privW f p

section

variable {slack lost : Frame → Nat}

theorem leakedBy_none (h : p.present = false) : leakedBy p slack = slack := by
  funext f
  unfold leakedBy
  rw [(weights_none (.inl h) f).2.1, (weights_none (.inl h) f).2.2]
  rfl

theorem lostBy_none (h : p.present = false) : lostBy p lost = lost := by
  funext f
  unfold lostBy
  rw [(weights_none (.inl h) f).1]
  rfl

end

/-- An entry that is stored takes what it holds out of the books. -/
structure Pte.Takes (p : Pte) (m : Memory) (slots own slack own' slack' : Frame → Nat) :
    Prop where
  wf : p.Wf
  own : ∀ f, own' f + privW f p = own f
  slack : ∀ f, slack' f + cowW f p + sharedW f p = slack f
  cow : ∀ f, cowW f p = 0 ∨ ptes m (sharedW f) + slots f = 0 ∧ sharedW f p = 0
  shared : ∀ f, sharedW f p = 0 ∨ ptes m (cowW f) = 0 ∧ cowW f p = 0

namespace Pte.Takes

variable {slots own slack own' slack' : Frame → Nat} {m' : Memory}

theorem quiet (T : p.Takes m slots own slack own' slack') (hq : Quiet m m') :
    p.Takes m' slots own slack own' slack' where
  wf := T.wf
  own := T.own
  slack := T.slack
  cow f := by rw [hq.ptes_eq]; exact T.cow f
  shared f := by rw [hq.ptes_eq]; exact T.shared f

section

variable (hp : p.present = true)

include hp

/-- A device's entry is nobody's. -/
theorem nofree (hn : p.nofree = true) (hc : p.cow = false) (hs : p.shared = false) :
    p.Takes m slots own slack own slack := by
  have hw := weights_none (.inr hn)
  refine ⟨.of_present hp (fun hf => ?_) fun _ => hs, fun f => ?_, fun f => ?_,
    fun f => .inl (hw f).2.1, fun f => .inl (hw f).2.2⟩
  · rw [hc] at hf; cases hf
  · rw [(hw f).1, Nat.add_zero]
  · rw [(hw f).2.1, (hw f).2.2, Nat.add_zero]

variable (hn : p.nofree = false)

include hn

theorem priv (hc : p.cow = false) (hs : p.shared = false) :
    p.Takes m slots (bump own p.phys) slack own slack := by
  have hw := weights_priv hp hn hc hs
  refine ⟨.of_present hp (fun hf => ?_) fun _ => hs, fun f => ?_, fun f => ?_,
    fun f => .inl (hw f).2.1, fun f => .inl (hw f).2.2⟩
  · rw [hc] at hf; cases hf
  · rw [(hw f).1, bump]
  · rw [(hw f).2.1, (hw f).2.2, Nat.add_zero]

theorem ofCow (hc : p.cow = true) (hs : p.shared = false) (hwr : p.writable = false)
    (hkind : ptes m (sharedW p.phys) + slots p.phys = 0) :
    p.Takes m slots own (bump slack p.phys) own slack := by
  have hw := weights_cow hp hn hc hs
  refine ⟨.of_present hp (fun _ => ⟨hwr, hs, hn⟩) fun _ => hs, fun f => ?_, fun f => ?_,
    fun f => ?_, fun f => .inl (hw f).2.2⟩
  · rw [(hw f).1, Nat.add_zero]
  · rw [(hw f).2.1, (hw f).2.2, Nat.add_zero, bump]
  · by_cases hf : f = p.phys
    · subst hf; exact .inr ⟨hkind, (hw _).2.2⟩
    · rw [(hw f).2.1]; simp [hf]

theorem ofShared (hc : p.cow = false) (hs : p.shared = true)
    (hkind : ptes m (cowW p.phys) = 0) : p.Takes m slots own (bump slack p.phys) own slack := by
  have hw := weights_shared hp hn hs
  refine ⟨.of_present hp (fun hf => ?_) fun hf => ?_, fun f => ?_, fun f => ?_,
    fun f => .inl (hw f).2.1, fun f => ?_⟩
  · rw [hc] at hf; cases hf
  · rw [hn] at hf; cases hf
  · rw [(hw f).1, Nat.add_zero]
  · rw [(hw f).2.1, (hw f).2.2, Nat.add_zero, bump]
  · by_cases hf : f = p.phys
    · subst hf; exact .inr ⟨hkind, (hw _).2.1⟩
    · rw [(hw f).2.2]; simp [hf]

end

end Pte.Takes

/-! ## The rules for `MemOk` -/

namespace MemOk

variable {pool slack slack' lost lost' own own' slots slots' : Frame → Nat}
  {m m' : Memory} {cr3 : Cr3} {i : Nat}

section

variable (h : MemOk pool slack lost own slots m)

include h

theorem of_spaces (hs : m'.spaces = m.spaces) (ht : CowTable m')
    (hl : Ledger pool slack' lost' own' slots' m') :
    MemOk pool slack' lost' own' slots' m' := by
  refine ⟨hl, h.linked.of_spaces hs, fun c j => ?_, ht⟩
  rw [pteAt_congr hs]
  exact h.wf c j

theorem setBytes {b : Nat → UInt8} : MemOk pool slack lost own slots (m.setBytes f b) :=
  h.of_spaces rfl h.table h.ledger.setBytes

theorem of_alloc {o : Option Frame} (ha : pmmAllocPages m = (o, m'))
    (hl : Ledger pool slack lost own' slots m') : MemOk pool slack lost own' slots m' := by
  have hs := pmmAllocPages_spaces m
  have hq := Quiet.alloc m
  rw [ha] at hs hq
  exact h.of_spaces hs (hq.cowTable h.table) hl

theorem alloc (ha : pmmAllocPages m = (some f, m')) : MemOk pool slack lost (bump own f) slots m' :=
  h.of_alloc ha (h.ledger.alloc ha)

theorem allocNone (ha : pmmAllocPages m = (none, m')) : MemOk pool slack lost own slots m' :=
  h.of_alloc ha (h.ledger.allocNone ha)

theorem allocEmpty (ha : pagingAllocEmptyFrame m = (some f, m')) :
    MemOk pool slack lost (bump own f) slots m' := by
  unfold pagingAllocEmptyFrame at ha
  split at ha
  · cases ha
  · next g m1 hg => cases ha; exact (h.alloc hg).setBytes

theorem allocEmptyNone (ha : pagingAllocEmptyFrame m = (none, m')) :
    MemOk pool slack lost own slots m' := by
  unfold pagingAllocEmptyFrame at ha
  split at ha
  · next m1 hg => cases ha; exact h.allocNone hg
  · cases ha

theorem cowInit : MemOk pool slack lost own slots (cowInit m) :=
  h.of_spaces (cowInit_rest m).2.1 (.inl h.table.ready) h.ledger.cowInit

theorem ref (hroom : m.refs f + 1 < 2 ^ 32) (hpos : 0 < m.refs f) :
    MemOk pool (bump slack f) lost own slots (cowRefPage m f) :=
  h.of_spaces (cowRefPage_rest m f).2.1 h.table.cowRefPage (h.ledger.ref h.table hroom hpos)

theorem setSlots (hsum : ∀ f, slots' f + slack' f = slots f + slack f)
    (hcow : ∀ f, slots' f ≤ slots f ∨ ptes m (cowW f) = 0) :
    MemOk pool slack' lost own slots' m :=
  h.of_spaces rfl h.table (h.ledger.setSlots hsum hcow)

theorem setPte (hp : p.Wf) (ht : (m.tableAt cr3 (1, i / 512)).isSome)
    (hown : ∀ f, own' f + lost' f + privW f p = own f + lost f + privW f (m.pteAt cr3 i))
    (hslack : ∀ f, slack' f + cowW f p + sharedW f p
      = slack f + cowW f (m.pteAt cr3 i) + sharedW f (m.pteAt cr3 i))
    (hcow : ∀ f, cowW f p ≤ cowW f (m.pteAt cr3 i) ∨
      ptes m (sharedW f) + slots f = 0 ∧ sharedW f p = 0)
    (hshared : ∀ f, sharedW f p ≤ sharedW f (m.pteAt cr3 i) ∨ ptes m (cowW f) = 0 ∧ cowW f p = 0) :
    MemOk pool slack' lost' own' slots (m.setPteAt cr3 i p) := by
  have hi : i < pageSlots := by
    have := h.linked.slot_lt ht
    unfold pageSlots
    omega
  refine ⟨h.ledger.setPte (space_of_tableAt _ ht) hi hown hslack hcow hshared,
    h.linked.setPte (.inr ht), fun c j => ?_, h.table⟩
  rw [pteAt_setPteAt]
  split
  · exact hp
  · exact h.wf c j

/-- An entry may be rewritten freely as long as it stays at its frame and keeps
its kind. -/
theorem setPte_same (hp : p.Wf) (ht : (m.tableAt cr3 (1, i / 512)).isSome)
    (hw : ∀ f, privW f p = privW f (m.pteAt cr3 i) ∧
      cowW f p = cowW f (m.pteAt cr3 i) ∧ sharedW f p = sharedW f (m.pteAt cr3 i)) :
    MemOk pool slack lost own slots (m.setPteAt cr3 i p) :=
  h.setPte hp ht (fun f => by rw [(hw f).1]) (fun f => by rw [(hw f).2.1, (hw f).2.2])
    (fun f => .inl (hw f).2.1.le) (fun f => .inl (hw f).2.2.le)

/-- One level of a walk. -/
theorem writeTableEntry (hl : 1 ≤ l) (hl' : l ≤ 3) (hi : i < 2 ^ 35)
    (hup : (m.tableAt cr3 (tableKey (l + 1) i)).isSome) :
    MemOk pool slack lost own slots (pagingWriteTableEntry m cr3 l i).2 := by
  have hq := Quiet.allocEmpty m
  have hlink := h.linked.writeTableEntry hl hl' hi hup
  unfold pagingWriteTableEntry at hlink ⊢
  split
  · exact h
  rename_i hn
  split
  · next m' he => exact h.allocEmptyNone he
  rename_i m' he
  have h' := h.allocEmpty he
  rw [he] at hq
  have hs := space_of_tableAt _ hup
  rw [← hq.space] at hs
  have hk : i / 512 ^ l < 2 ^ 26 := by
    calc i / 512 ^ l ≤ i / 512 ^ 1 :=
          Nat.div_le_div_left (Nat.pow_le_pow_right (by omega) hl) (by omega)
      _ < 2 ^ 26 := by omega
  have hn' : m'.tableAt cr3 (l, i / 512 ^ l) = none := by
    have hsp := pagingAllocEmptyFrame_spaces m
    rw [he] at hsp
    rw [tableAt_congr hsp]; exact hn
  rw [hn, he] at hlink
  refine ⟨?_, hlink, fun c j => ?_, h'.table⟩
  · refine h'.ledger.setTable hs (by omega) (by omega) fun f => ?_
    rw [hn', bump]
    simp [eq_comm]
  · rw [pteAt_setTable]
    exact h'.wf c j

/-- A walk keeps everything, and where it succeeds there is a page table. -/
theorem walk (hi : i < 2 ^ 35) : MemOk pool slack lost own slots (pagingWalkPageTables m cr3 i).2 ∧
      ((pagingWalkPageTables m cr3 i).1 = true →
        ((pagingWalkPageTables m cr3 i).2.tableAt cr3 (1, i / 512)).isSome) :=
  walk_rule (fun _ _ hl hl' hm => hm.writeTableEntry hl hl' hi) h

theorem storeOver (T : p.Takes m slots own slack own' slack')
    (ht : (m.tableAt cr3 (1, i / 512)).isSome) :
    MemOk pool (leakedBy (m.pteAt cr3 i) slack') (lostBy (m.pteAt cr3 i) lost) own' slots
      (m.setPteAt cr3 i p) := by
  refine h.setPte T.wf ht (fun f => ?_) (fun f => ?_) (fun f => (T.cow f).imp_left ?_)
    fun f => (T.shared f).imp_left ?_
  · have := T.own f
    unfold lostBy; omega
  · have := T.slack f
    unfold leakedBy; omega
  · exact fun e => e ▸ Nat.zero_le _
  · exact fun e => e ▸ Nat.zero_le _

/-- Storing into an empty entry. -/
theorem place (T : p.Takes m slots own slack own' slack')
    (ht : (m.tableAt cr3 (1, i / 512)).isSome) (h0 : m.pteAt cr3 i = {}) :
    MemOk pool slack' lost own' slots (m.setPteAt cr3 i p) := by
  have := h.storeOver T ht
  rwa [h0] at this

/-- What a cleared entry leaves behind: a frame in hand, a reference nobody
holds, or nothing. -/
theorem clear (hp : (m.pteAt cr3 i).present = true) :
    ((m.pteAt cr3 i).nofree = true → MemOk pool slack lost own slots (m.setPteAt cr3 i {})) ∧
    ((m.pteAt cr3 i).nofree = false → ((m.pteAt cr3 i).cow || (m.pteAt cr3 i).shared) = true →
      MemOk pool (bump slack (m.pteAt cr3 i).phys) lost own slots (m.setPteAt cr3 i {})) ∧
    ((m.pteAt cr3 i).nofree = false → ((m.pteAt cr3 i).cow || (m.pteAt cr3 i).shared) = false →
      MemOk pool slack lost (bump own (m.pteAt cr3 i).phys) slots (m.setPteAt cr3 i {})) := by
  have hz := weights_zero
  have ht : (m.tableAt cr3 (1, i / 512)).isSome := by
    refine h.linked.pte cr3 i fun e => ?_
    rw [e] at hp; cases hp
  refine ⟨fun hn => ?_, fun hn hcs => ?_, fun hn hcs => ?_⟩
  · have hw := weights_none (.inr hn)
    refine h.setPte_same Pte.wf_zero ht fun f => ?_
    rw [(hw f).1, (hw f).2.1, (hw f).2.2]
    exact ⟨rfl, rfl, rfl⟩
  · have hw : ∀ f, privW f (m.pteAt cr3 i) = 0 ∧ cowW f (m.pteAt cr3 i) + sharedW f (m.pteAt cr3 i)
          = (decide (f = (m.pteAt cr3 i).phys)).toNat := fun f => by
      cases hsh : (m.pteAt cr3 i).shared with
      | true =>
        have := weights_shared hp hn hsh f
        exact ⟨this.1, by rw [this.2.1, this.2.2, Nat.zero_add]⟩
      | false =>
        rw [hsh, Bool.or_false] at hcs
        have := weights_cow hp hn hcs hsh f
        exact ⟨this.1, by rw [this.2.1, this.2.2, Nat.add_zero]⟩
    refine h.setPte Pte.wf_zero ht (fun f => ?_) (fun f => ?_) (fun f => .inl ?_) (fun f => .inl ?_)
    · rw [(hw f).1, (hz f).1]
    · have := (hw f).2
      rw [(hz f).2.1, (hz f).2.2, bump]; omega
    · exact Nat.zero_le _
    · exact Nat.zero_le _
  · rw [Bool.or_eq_false_iff] at hcs
    have hw := weights_priv hp hn hcs.1 hcs.2
    refine h.setPte Pte.wf_zero ht (fun f => ?_) (fun f => ?_) (fun f => .inl ?_) (fun f => .inl ?_)
    · rw [(hw f).1, (hz f).1, bump]; omega
    · rw [(hw f).2.1, (hw f).2.2, (hz f).2.1, (hz f).2.2]
    · exact Nat.zero_le _
    · exact Nat.zero_le _

end

theorem freeOne (h : MemOk pool slack lost (bump own f) slots m) :
    MemOk pool slack lost own slots (pmmFreePages m f 1) :=
  h.of_spaces rfl h.table h.ledger.freeOne

theorem refOwn (h : MemOk pool slack lost (bump own f) slots m) :
    MemOk pool (bump slack f) lost own slots (cowRefPage m f) :=
  h.of_spaces (cowRefPage_rest m f).2.1 h.table.cowRefPage (h.ledger.refOwn h.table)

theorem unref (h : MemOk pool (bump slack f) lost own slots m) : MemOk pool slack lost
      (if (cowUnrefPage m f).1 = 0 then bump own f else own) slots
      (cowUnrefPage m f).2 :=
  h.of_spaces (cowUnrefPage_rest m f).2.1 h.table.cowUnrefPage h.ledger.unref

/-- An empty table is unlinked and its frame goes back. -/
theorem dropTable {t : Frame} (h : MemOk pool slack lost own slots m)
    (hl : l < 3) (ht : m.tableAt cr3 (l + 1, k) = some t)
    (hbelow : ∀ j, j / 512 = k → Gone m cr3 l j) :
    MemOk pool slack lost own slots (pagingDropTable m cr3 (l + 1, k) t) := by
  have hsome : (m.tableAt cr3 (l + 1, k)).isSome := by rw [ht]; rfl
  have hkey := h.linked.key_lt hsome
  have hled : Ledger pool slack lost (bump own t) slots (m.setTable cr3 (l + 1, k) none) :=
    h.ledger.setTable (space_of_tableAt _ hsome) hkey.1 hkey.2
      fun f => by rw [ht, bump]; simp [eq_comm]
  have hmem : MemOk pool slack lost (bump own t) slots (m.setTable cr3 (l + 1, k) none) :=
    ⟨hled, h.linked.unlink hl hbelow, fun c j => by
      rw [pteAt_setTable]; exact h.wf c j, h.table⟩
  exact hmem.freeOne

end MemOk

end BleedKernel.Mm
