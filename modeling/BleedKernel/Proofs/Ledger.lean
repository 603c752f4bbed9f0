import BleedKernel.Lib.Tally
import BleedKernel.Model.Paging

/-!
# The ledger: what a frame is at any moment

Every frame the allocator manages is in one of five places: in the bitmap as
free, under a page table, mapped by a single private entry, in the hands of
whoever is about to place it, or counted in `cow_refs`, where the count is the
number of entries and slots that refer to it. `Ledger` says so with one
equation a frame.

The equation is kept by every statement of the memory code, one at a time,
once it may say what is held outside the page tables: `own` are the frames in
hand (and the ones a queued message carries), `slots` the references held by
memfd pages, by shared memory objects and by code that has taken a reference
and not placed it yet. `lost` and `slack` are what a statement may fail to
account for: frames nobody can find any more, and references nobody gives
back. Both start at zero, and where the code is right they stay there.
-/

namespace BleedKernel.Mm

open BleedKernel.Lib Memory List Function

variable {c cr3 : Cr3} {f g root : Frame} {i : Nat} {p : Pte} {key : Nat × Nat} {t : Option Frame}
  {w : Pte → Nat}

variable {m m' : Memory}

/-! ## Reading through the writes -/

namespace Memory

theorem space_updSpace {g : AddrSpace → AddrSpace} : (m.updSpace cr3 g).space c
      = if c = cr3 then (m.space c).map g else m.space c := by
  simp only [space, updSpace, getElem?_modify]
  by_cases h : c = cr3
  · subst h
    cases m.spaces[c]? with
    | none => simp
    | some o => cases o <;> simp
  · rw [if_neg h]
    have h' : cr3 ≠ c := fun e => h e.symm
    cases m.spaces[c]? <;> simp [h']

@[simp] theorem length_updSpace {g : AddrSpace → AddrSpace} :
    (m.updSpace cr3 g).spaces.length = m.spaces.length := by
  simp [updSpace]

theorem space_lt (h : (m.space cr3).isSome) : cr3 < m.spaces.length := by
  by_contra hn
  simp only [space] at h
  rw [getElem?_eq_none (Nat.le_of_not_lt hn)] at h
  simp at h

theorem space_setPteAt : ((m.setPteAt cr3 i p).space c).isSome = (m.space c).isSome := by
  rw [setPteAt, space_updSpace]
  split <;> simp

theorem space_setTable : ((m.setTable cr3 key t).space c).isSome = (m.space c).isSome := by
  rw [setTable, space_updSpace]
  split <;> simp

theorem pteAt_setPteAt {j : Nat} : (m.setPteAt cr3 i p).pteAt c j
      = if c = cr3 ∧ j = i ∧ (m.space cr3).isSome then p else m.pteAt c j := by
  unfold pteAt setPteAt
  rw [space_updSpace]
  by_cases hc : c = cr3
  · subst hc
    cases m.space c with
    | none => simp
    | some sp =>
      by_cases hj : j = i
      · subst hj; simp
      · simp [hj]
  · simp [hc]

@[simp] theorem tableAt_setPteAt : (m.setPteAt cr3 i p).tableAt c key = m.tableAt c key := by
  unfold tableAt setPteAt
  rw [space_updSpace]
  by_cases hc : c = cr3
  · rw [if_pos hc]
    cases m.space c <;> rfl
  · rw [if_neg hc]

theorem tableAt_setTable {key' : Nat × Nat} : (m.setTable cr3 key t).tableAt c key'
      = if c = cr3 ∧ key' = key ∧ (m.space cr3).isSome then t
        else m.tableAt c key' := by
  unfold tableAt setTable
  rw [space_updSpace]
  by_cases hc : c = cr3
  · subst hc
    cases m.space c with
    | none => simp
    | some sp =>
      by_cases hj : key' = key
      · subst hj; simp
      · simp [hj]
  · simp [hc]

@[simp] theorem pteAt_setTable : (m.setTable cr3 key t).pteAt c i = m.pteAt c i := by
  unfold pteAt setTable
  rw [space_updSpace]
  by_cases hc : c = cr3
  · rw [if_pos hc]
    cases m.space c <;> rfl
  · rw [if_neg hc]

theorem space_congr (h : m'.spaces = m.spaces) (c : Cr3) : m'.space c = m.space c := by
  unfold space; rw [h]

theorem pteAt_congr (h : m'.spaces = m.spaces) (c : Cr3) (i : Nat) :
    m'.pteAt c i = m.pteAt c i := by
  unfold pteAt; rw [space_congr h]

theorem tableAt_congr (h : m'.spaces = m.spaces) (c : Cr3)
    (key : Nat × Nat) : m'.tableAt c key = m.tableAt c key := by
  unfold tableAt; rw [space_congr h]

theorem space_of_tableAt (key : Nat × Nat)
    (h : (m.tableAt cr3 key).isSome) : (m.space cr3).isSome := by
  unfold tableAt at h
  split at h
  · next sp hs => rw [hs]; rfl
  · cases h

theorem space_of_pteAt (h : m.pteAt cr3 i ≠ {}) : (m.space cr3).isSome := by
  unfold pteAt at h
  split at h
  · next sp hs => rw [hs]; rfl
  · exact absurd rfl h

@[simp] theorem setBytes_pteAt {b : Nat → UInt8} : (m.setBytes f b).pteAt c i = m.pteAt c i := rfl

/-! A space that has been destroyed, and one that has been made. -/

theorem space_dropSpace : ({ m with spaces := m.spaces.set cr3 none } : Memory).space c
      = if c = cr3 then none else m.space c := by
  simp only [space]
  by_cases hc : c = cr3
  · subst hc
    by_cases hlt : c < m.spaces.length <;> simp [hlt]
  · rw [if_neg hc, getElem?_set_ne (Ne.symm hc)]

theorem pteAt_dropSpace : ({ m with spaces := m.spaces.set cr3 none } : Memory).pteAt c i
      = if c = cr3 then {} else m.pteAt c i := by
  unfold pteAt
  rw [space_dropSpace]
  by_cases hc : c = cr3
  · rw [if_pos hc, if_pos hc]
  · rw [if_neg hc, if_neg hc]

theorem tableAt_dropSpace : ({ m with spaces := m.spaces.set cr3 none } : Memory).tableAt c key
      = if c = cr3 then none else m.tableAt c key := by
  unfold tableAt
  rw [space_dropSpace]
  by_cases hc : c = cr3
  · rw [if_pos hc, if_pos hc]
  · rw [if_neg hc, if_neg hc]

theorem space_addSpace :
    ({ m with spaces := m.spaces ++ [some (AddrSpace.fresh root)] } : Memory).space c
      = if c = m.spaces.length then some (AddrSpace.fresh root) else m.space c := by
  simp only [space]
  by_cases hc : c = m.spaces.length
  · subst hc; simp
  rw [if_neg hc]
  by_cases hlt : c < m.spaces.length
  · rw [getElem?_append_left hlt]
  have hgt : m.spaces.length < c := Nat.lt_of_le_of_ne (Nat.le_of_not_lt hlt) (Ne.symm hc)
  rw [getElem?_eq_none (Nat.le_of_lt hgt), getElem?_eq_none (by simpa using hgt)]

theorem pteAt_addSpace :
    ({ m with spaces := m.spaces ++ [some (AddrSpace.fresh root)] } : Memory).pteAt c i
      = m.pteAt c i := by
  unfold pteAt
  rw [space_addSpace]
  by_cases hc : c = m.spaces.length
  · rw [if_pos hc]
    have : m.space c = none := by
      subst hc; simp [space]
    rw [this]
    rfl
  · rw [if_neg hc]

theorem tableAt_addSpace :
    ({ m with spaces := m.spaces ++ [some (AddrSpace.fresh root)] } : Memory).tableAt c key
      = if c = m.spaces.length ∧ key = (4, 0) then some root else m.tableAt c key := by
  unfold tableAt
  rw [space_addSpace]
  by_cases hc : c = m.spaces.length
  · have : m.space c = none := by
      subst hc; simp [space]
    rw [if_pos hc, this]
    by_cases hk : key = (4, 0)
    · rw [if_pos ⟨hc, hk⟩, hk]; simp [AddrSpace.fresh]
    · rw [if_neg fun hh => hk hh.2]; simp [AddrSpace.fresh, update_of_ne hk]
  · rw [if_neg hc, if_neg fun hh => hc hh.1]

end Memory

/-! ## The counts -/

/-- The entry refers to `f` and the frame is not a device's. -/
def Pte.holds (p : Pte) (f : Frame) : Bool :=
  p.present && !p.nofree && decide (p.phys = f)

/-- One for an entry that alone refers to `f`. -/
def privW (f : Frame) (p : Pte) : Nat :=
  (p.holds f && !p.cow && !p.shared).toNat

/-- One for a copy-on-write entry at `f`. -/
def cowW (f : Frame) (p : Pte) : Nat := (p.holds f && p.cow && !p.shared).toNat

/-- One for a shared entry at `f`. -/
def sharedW (f : Frame) (p : Pte) : Nat := (p.holds f && p.shared).toNat

/-- A weight added up over all entries of all address spaces. -/
def ptes (m : Memory) (w : Pte → Nat) : Nat :=
  tally (Finset.range m.spaces.length ×ˢ Finset.range pageSlots)
    (fun x => m.pteAt x.1 x.2) w

/-- How many page tables sit in frame `f`. -/
def tables (m : Memory) (f : Frame) : Nat :=
  tally (Finset.range m.spaces.length ×ˢ (Finset.range 5 ×ˢ Finset.range (2 ^ 27)))
    (fun x => m.tableAt x.1 x.2) (fun t => (decide (t = some f)).toNat)

/-- The count of a frame; there is none before there is a table. -/
def Memory.refs (m : Memory) (f : Frame) : Nat :=
  if m.cowReady then m.cowRefs f else 0

/-- One equation for where the frame is, one for what its count counts. -/
structure Ledger (pool slack lost own slots : Frame → Nat) (m : Memory) : Prop where
  pool_le : ∀ f, pool f ≤ 1
  place : ∀ f, (m.free f).toNat + tables m f + ptes m (privW f) + own f
    + min 1 (m.refs f) + lost f = pool f
  kind : ∀ f, ptes m (cowW f) = 0 ∨ ptes m (sharedW f) + slots f = 0
  count : ∀ f, m.refs f = ptes m (cowW f) + ptes m (sharedW f) + slots f + slack f

/-- One more of `f`. -/
def bump (n : Frame → Nat) (f : Frame) : Frame → Nat :=
  fun g => n g + (decide (g = f)).toNat

theorem ptes_congr (h : m'.spaces = m.spaces) (w : Pte → Nat) : ptes m' w = ptes m w := by
  unfold ptes pteAt space; rw [h]

theorem tables_congr (h : m'.spaces = m.spaces) (f : Frame) : tables m' f = tables m f := by
  unfold tables tableAt space; rw [h]

theorem ptes_setPteAt (w : Pte → Nat) (hs : (m.space cr3).isSome) (hi : i < pageSlots) :
    ptes (m.setPteAt cr3 i p) w + w (m.pteAt cr3 i) = ptes m w + w p := by
  have hF : (fun x => (m.setPteAt cr3 i p).pteAt x.1 x.2)
      = update (fun x => m.pteAt x.1 x.2) (cr3, i) p := by
    funext x
    rw [pteAt_setPteAt]
    by_cases hx : x = (cr3, i)
    · subst hx; simp [hs]
    rw [update_of_ne hx, if_neg]
    rintro ⟨h1, h2, -⟩
    exact hx (Prod.ext h1 h2)
  unfold ptes
  rw [hF, show (m.setPteAt cr3 i p).spaces.length = m.spaces.length from
    length_updSpace]
  have hlt := space_lt hs
  exact tally_update (by simp only [Finset.mem_product, Finset.mem_range]; exact ⟨hlt, hi⟩)

@[simp] theorem tables_setPteAt : tables (m.setPteAt cr3 i p) f = tables m f := by
  unfold tables
  rw [show (m.setPteAt cr3 i p).spaces.length = m.spaces.length from
    length_updSpace]
  exact tally_congr fun x _ => by rw [tableAt_setPteAt]

@[simp] theorem ptes_setTable : ptes (m.setTable cr3 key t) w = ptes m w := by
  unfold ptes
  rw [show (m.setTable cr3 key t).spaces.length = m.spaces.length from
    length_updSpace]
  exact tally_congr fun x _ => by rw [pteAt_setTable]

theorem tables_setTable {l k : Nat}
    (f : Frame) (hs : (m.space cr3).isSome) (hl : l < 5) (hk : k < 2 ^ 27) :
    tables (m.setTable cr3 (l, k) t) f + (decide (m.tableAt cr3 (l, k) = some f)).toNat
      = tables m f + (decide (t = some f)).toNat := by
  have hF : (fun x => (m.setTable cr3 (l, k) t).tableAt x.1 x.2)
      = update (fun x => m.tableAt x.1 x.2) (cr3, l, k) t := by
    funext x
    rw [tableAt_setTable]
    by_cases hx : x = (cr3, l, k)
    · subst hx; simp [hs]
    rw [update_of_ne hx, if_neg]
    rintro ⟨h1, h2, -⟩
    exact hx (Prod.ext h1 h2)
  unfold tables
  rw [hF, show (m.setTable cr3 (l, k) t).spaces.length = m.spaces.length from
    length_updSpace]
  have hlt := space_lt hs
  exact tally_update (by simp only [Finset.mem_product, Finset.mem_range]; exact ⟨hlt, hl, hk⟩)

/-! ## The allocator and the counts, one call each -/

/-- What one call of the allocator does: it fails, or it hands out a frame
that was free. -/
theorem pmmAllocPages_cases (m : Memory) :
    (∃ rest, pmmAllocPages m = (none, { m with answers := rest })) ∨
    ∃ f rest, f ≠ 0 ∧ m.free f = true ∧ pmmAllocPages m
      = (some f, { m with free := update m.free f false, answers := rest }) := by
  unfold pmmAllocPages
  split
  · exact .inl ⟨m.answers, rfl⟩
  · next rest _ => exact .inl ⟨rest, rfl⟩
  · rename_i f rest _
    split
    · next hf => exact .inr ⟨f, rest, hf.1, hf.2, rfl⟩
    · exact .inl ⟨rest, rfl⟩

theorem refs_cowInit (m : Memory) (f : Frame) : (cowInit m).refs f = m.refs f := by
  unfold cowInit refs
  split
  · rfl
  rename_i hr
  split
  · simp [hr]
  · simp [hr]
  · simp

/-- `cow_init` leaves everything but the counts alone. -/
theorem cowInit_rest (m : Memory) : (cowInit m).free = m.free ∧ (cowInit m).spaces = m.spaces ∧
      (cowInit m).bytes = m.bytes ∧ (cowInit m).answers = m.answers := by
  unfold cowInit
  split
  · exact ⟨rfl, rfl, rfl, rfl⟩
  · split <;> exact ⟨rfl, rfl, rfl, rfl⟩

/-- There is a table of counts, or there will be one as soon as it is wanted. -/
def CowTable (m : Memory) : Prop :=
  m.cowReady = true ∨ ∃ rest, m.cowKmalloc = true :: rest

theorem CowTable.ready (h : CowTable m) : (cowInit m).cowReady = true := by
  unfold cowInit
  rcases h with h | ⟨rest, h⟩
  · simp [h]
  rw [h]
  split
  · next hr => exact hr
  · rfl

theorem CowTable.cowRefPage (h : CowTable m) : CowTable (cowRefPage m f) := by
  left
  simp only [Mm.cowRefPage, h.ready, if_true]

theorem CowTable.cowUnrefPage (h : CowTable m) : CowTable (cowUnrefPage m f).2 := by
  left
  simp only [Mm.cowUnrefPage, h.ready, if_true]
  split
  · rfl
  · exact h.ready

theorem refs_cowRefPage (ht : CowTable m) (hroom : m.refs f + 1 < 2 ^ 32) (g : Frame) :
    (cowRefPage m f).refs g = m.refs g + (decide (g = f)).toNat := by
  have hr := ht.ready
  have hg := refs_cowInit m g
  simp only [refs, hr, if_true] at hg
  have hroom' : m.refs f + 1 < 2 ^ 32 := hroom
  rw [refs] at hroom'
  unfold cowRefPage
  simp only [hr, if_true, refs]
  by_cases hgf : g = f
  · subst hgf
    rw [hg, Nat.mod_eq_of_lt hroom']
    simp
  · rw [update_of_ne hgf, hg]
    simp [hgf]

section

variable (m : Memory)

theorem cowRefPage_rest (f : Frame) :
    (cowRefPage m f).free = m.free ∧ (cowRefPage m f).spaces = m.spaces ∧
      (cowRefPage m f).bytes = m.bytes ∧ (cowRefPage m f).answers = m.answers := by
  have h := cowInit_rest m
  unfold cowRefPage
  dsimp only
  split <;> exact h

theorem cowUnrefPage_fst (f : Frame) : (cowUnrefPage m f).1 = m.refs f - 1 := by
  have hf := refs_cowInit m f
  unfold cowUnrefPage
  dsimp only
  unfold refs at hf ⊢
  split
  · rw [← hf]
    split
    · rfl
    · next h0 => omega
  · rename_i hr
    rw [if_neg hr] at hf
    rw [← hf]

theorem refs_cowUnrefPage (f g : Frame) :
    (cowUnrefPage m f).2.refs g = m.refs g - (decide (g = f)).toNat := by
  have hg := refs_cowInit m g
  unfold cowUnrefPage
  dsimp only
  unfold refs at hg ⊢
  split
  · rw [← hg]
    split
    · by_cases hgf : g = f
      · subst hgf; simp
      · simp [hgf]
    · by_cases hgf : g = f
      · subst hgf; simp; omega
      · simp [hgf]
  · rename_i hr
    rw [if_neg hr] at hg
    rw [← hg]
    simp

theorem cowUnrefPage_rest (f : Frame) :
    (cowUnrefPage m f).2.free = m.free ∧ (cowUnrefPage m f).2.spaces = m.spaces ∧
      (cowUnrefPage m f).2.bytes = m.bytes ∧
      (cowUnrefPage m f).2.answers = m.answers := by
  have h := cowInit_rest m
  unfold cowUnrefPage
  dsimp only
  split
  · split <;> exact h
  · exact h

/-! Counts and entries do not get in each other's way. -/

theorem cowInit_setPteAt (cr3 : Cr3) (i : Nat) (p : Pte) :
    cowInit (m.setPteAt cr3 i p) = (cowInit m).setPteAt cr3 i p := by
  unfold cowInit setPteAt updSpace
  dsimp only
  split
  · rfl
  · split <;> rfl

theorem cowRefPage_setPteAt (cr3 : Cr3) (i : Nat) (p : Pte) (f : Frame) :
    cowRefPage (m.setPteAt cr3 i p) f = (cowRefPage m f).setPteAt cr3 i p := by
  unfold cowRefPage
  rw [cowInit_setPteAt]
  unfold setPteAt updSpace
  dsimp only
  split <;> rfl

theorem cowUnrefPage_setPteAt (cr3 : Cr3) (i : Nat) (p : Pte) (f : Frame) :
    cowUnrefPage (m.setPteAt cr3 i p) f
      = ((cowUnrefPage m f).1, (cowUnrefPage m f).2.setPteAt cr3 i p) := by
  unfold cowUnrefPage
  rw [cowInit_setPteAt]
  unfold setPteAt updSpace
  dsimp only
  split
  · split <;> rfl
  · rfl

theorem setPteAt_setPteAt (cr3 : Cr3) (i : Nat) (p q : Pte) :
    (m.setPteAt cr3 i p).setPteAt cr3 i q = m.setPteAt cr3 i q := by
  unfold setPteAt updSpace
  congr 1
  refine ext_getElem? fun n => ?_
  rw [getElem?_modify, getElem?_modify, getElem?_modify]
  cases m.spaces[n]? with
  | none => rfl
  | some o =>
    by_cases hn : cr3 = n
    · cases o <;> simp [hn]
    · simp [hn]

theorem cowGetRefcount_fst (f : Frame) : (cowGetRefcount m f).1 = m.refs f := by
  have hf := refs_cowInit m f
  unfold cowGetRefcount
  dsimp only
  unfold refs at hf
  split
  · next hr => rw [if_pos hr] at hf; exact hf
  · next hr => rw [if_neg hr] at hf; exact hf

theorem cowGetRefcount_snd (f : Frame) : (cowGetRefcount m f).2 = cowInit m := by
  unfold cowGetRefcount
  dsimp only
  split <;> rfl

end

/-! ## The rules

One for each thing a statement can do to the ledger. -/

theorem bump_self (n : Frame → Nat) (f : Frame) : bump n f f = n f + 1 := by
  simp [bump]

theorem bump_of_ne {n : Frame → Nat} (h : g ≠ f) : bump n f g = n g := by
  simp [bump, h]

namespace Ledger

variable {pool slack slack' lost lost' own own' slots slots' : Frame → Nat}
  {m m' : Memory}

section

variable (h : Ledger pool slack lost own slots m)

include h

/-- The page tables stay, and a frame and its references change hands. -/
theorem of_spaces (hsp : m'.spaces = m.spaces)
    (hplace : ∀ f, (m'.free f).toNat + own' f + min 1 (m'.refs f) + lost' f
      = (m.free f).toNat + own f + min 1 (m.refs f) + lost f)
    (hcount : ∀ f, m'.refs f + slack f = m.refs f + slack' f) :
    Ledger pool slack' lost' own' slots m' := by
  refine ⟨h.pool_le, fun f => ?_, fun f => ?_, fun f => ?_⟩
  · have := h.place f
    have := hplace f
    rw [ptes_congr hsp, tables_congr hsp]
    omega
  · rw [ptes_congr hsp, ptes_congr hsp]; exact h.kind f
  · have := h.count f
    have := hcount f
    rw [ptes_congr hsp, ptes_congr hsp]
    omega

/-- The ledger reads the bitmap, the spaces and the counts, nothing else. -/
theorem of_rest (hfree : m'.free = m.free) (hsp : m'.spaces = m.spaces)
    (hrefs : ∀ f, m'.refs f = m.refs f) :
    Ledger pool slack lost own slots m' :=
  h.of_spaces hsp (fun f => by rw [hfree, hrefs]) fun f => by rw [hrefs]

theorem setBytes {b : Nat → UInt8} : Ledger pool slack lost own slots (m.setBytes f b) :=
  h.of_rest rfl rfl fun _ => rfl

theorem cowInit : Ledger pool slack lost own slots (cowInit m) :=
  h.of_rest (cowInit_rest m).1 (cowInit_rest m).2.1 (refs_cowInit m)

/-- A frame that was free is in hand. -/
theorem alloc (ha : pmmAllocPages m = (some f, m')) :
    Ledger pool slack lost (bump own f) slots m' := by
  rcases pmmAllocPages_cases m with ⟨rest, hc⟩ | ⟨g, rest, -, hg, hc⟩
  · rw [hc] at ha; cases ha
  rw [hc] at ha
  cases ha
  refine h.of_spaces rfl (fun x => ?_) fun _ => rfl
  change (update m.free f false x).toNat + bump own f x + min 1 (m.refs x) + lost x = _
  by_cases hx : x = f
  · subst hx
    rw [update_self, bump_self, hg, Bool.toNat_true, Bool.toNat_false]
    omega
  · rw [update_of_ne hx, bump_of_ne hx]

theorem allocNone (ha : pmmAllocPages m = (none, m')) : Ledger pool slack lost own slots m' := by
  rcases pmmAllocPages_cases m with ⟨rest, hc⟩ | ⟨g, rest, -, -, hc⟩
  · rw [hc] at ha
    cases ha
    exact h.of_rest rfl rfl fun _ => rfl
  · rw [hc] at ha; cases ha

/-- Frames in hand go back to the bitmap. -/
theorem free {start : Frame} {count : Nat}
    (hown : ∀ f, own f = own' f + (decide (start ≤ f) && decide (f < start + count)).toNat) :
    Ledger pool slack lost own' slots (pmmFreePages m start count) := by
  refine h.of_spaces rfl (fun x => ?_) fun _ => rfl
  have hpl := h.place x
  have hp := h.pool_le x
  have ho := hown x
  change (m.free x || (decide (start ≤ x) && decide (x < start + count))).toNat
    + own' x + min 1 (m.refs x) + lost x = _
  cases hin : (decide (start ≤ x) && decide (x < start + count)) with
  | false =>
    rw [hin, Bool.toNat_false] at ho
    rw [Bool.or_false]
    omega
  | true =>
    rw [hin, Bool.toNat_true] at ho
    rw [Bool.or_true, Bool.toNat_true]
    -- a frame in hand is not in the bitmap as well
    omega

end

theorem eq_iff_run_one (x f : Nat) : x = f ↔ f ≤ x ∧ x < f + 1 := by omega

theorem freeOne (h : Ledger pool slack lost (bump own f) slots m) :
    Ledger pool slack lost own slots (pmmFreePages m f 1) := by
  refine h.free fun x => ?_
  rw [bump, ← Bool.decide_and]
  congr 2
  exact decide_eq_decide.mpr (eq_iff_run_one x f)

section

variable (h : Ledger pool slack lost own slots m)

include h

/-- Any store to an entry: what the entry held privately is in hand after it,
what it held by count is a reference nobody holds. -/
theorem setPte (hs : (m.space cr3).isSome) (hi : i < pageSlots)
    (hown : ∀ f, own' f + lost' f + privW f p = own f + lost f + privW f (m.pteAt cr3 i))
    (hslack : ∀ f, slack' f + cowW f p + sharedW f p
      = slack f + cowW f (m.pteAt cr3 i) + sharedW f (m.pteAt cr3 i))
    (hcow : ∀ f, cowW f p ≤ cowW f (m.pteAt cr3 i) ∨
      ptes m (sharedW f) + slots f = 0 ∧ sharedW f p = 0)
    (hshared : ∀ f, sharedW f p ≤ sharedW f (m.pteAt cr3 i) ∨ ptes m (cowW f) = 0 ∧ cowW f p = 0) :
    Ledger pool slack' lost' own' slots (m.setPteAt cr3 i p) := by
  have hw := fun f => ptes_setPteAt (p := p) (privW f) hs hi
  have hc := fun f => ptes_setPteAt (p := p) (cowW f) hs hi
  have hsh := fun f => ptes_setPteAt (p := p) (sharedW f) hs hi
  refine ⟨h.pool_le, fun f => ?_, fun f => ?_, fun f => ?_⟩
  · have := h.place f
    have := hw f
    have := hown f
    rw [tables_setPteAt]
    change (m.free f).toNat + tables m f + _ + own' f + min 1 (m.refs f) + lost' f = pool f
    omega
  · have hk := h.kind f
    have := hc f
    have := hsh f
    rcases hcow f with h1 | h1 <;> rcases hshared f with h2 | h2 <;>
      rcases hk with hk | hk <;> omega
  · have := h.count f
    have := hc f
    have := hsh f
    have := hslack f
    change m.refs f = _
    omega

/-- A reference in nobody's hands settles in a slot, or leaves one. -/
theorem setSlots (hsum : ∀ f, slots' f + slack' f = slots f + slack f)
    (hcow : ∀ f, slots' f ≤ slots f ∨ ptes m (cowW f) = 0) :
    Ledger pool slack' lost own slots' m := by
  refine ⟨h.pool_le, h.place, fun f => ?_, fun f => ?_⟩
  · have := h.kind f
    have := hcow f
    omega
  · have := h.count f
    have := hsum f
    omega

theorem setTable {l k : Nat} (hs : (m.space cr3).isSome) (hl : l < 5) (hk : k < 2 ^ 27)
    (hown : ∀ f, own' f + (decide (t = some f)).toNat
      = own f + (decide (m.tableAt cr3 (l, k) = some f)).toNat) :
    Ledger pool slack lost own' slots (m.setTable cr3 (l, k) t) := by
  have ht := fun f => tables_setTable (t := t) f hs hl hk
  refine ⟨h.pool_le, fun f => ?_, fun f => ?_, fun f => ?_⟩
  · have := h.place f
    have := ht f
    have := hown f
    rw [ptes_setTable]
    change (m.free f).toNat + _ + ptes m (privW f) + own' f + min 1 (m.refs f) + lost f = pool f
    omega
  · rw [ptes_setTable, ptes_setTable]; exact h.kind f
  · rw [ptes_setTable, ptes_setTable]; exact h.count f

end

theorem ptes_cowRefPage : ptes (cowRefPage m f) w = ptes m w :=
  ptes_congr (cowRefPage_rest m f).2.1 w

/-- One more reference to a frame that is counted already. -/
theorem ref (h : Ledger pool slack lost own slots m)
    (ht : CowTable m) (hroom : m.refs f + 1 < 2 ^ 32) (hpos : 0 < m.refs f) :
    Ledger pool (bump slack f) lost own slots (cowRefPage m f) := by
  have hr := refs_cowRefPage ht hroom
  refine h.of_spaces (cowRefPage_rest m f).2.1 (fun g => ?_) fun g => ?_
  · rw [(cowRefPage_rest m f).1, hr]
    by_cases hg : g = f
    · subst hg; omega
    · simp only [hg, decide_false, Bool.toNat_false, Nat.add_zero]
  · rw [hr, bump]
    omega

/-- The first reference to a frame in hand. -/
theorem refOwn (h : Ledger pool slack lost (bump own f) slots m) (ht : CowTable m) :
    Ledger pool (bump slack f) lost own slots (cowRefPage m f) := by
  have h0 : m.refs f = 0 := by
    have hpl := h.place f
    have := h.pool_le f
    rw [bump_self] at hpl
    omega
  have hr := refs_cowRefPage (f := f) ht (by omega)
  refine h.of_spaces (cowRefPage_rest m f).2.1 (fun g => ?_) fun g => ?_
  · rw [(cowRefPage_rest m f).1, hr, bump]
    by_cases hg : g = f
    · subst hg; simp only [decide_true, Bool.toNat_true]; omega
    · simp only [hg, decide_false, Bool.toNat_false]; omega
  · rw [hr, bump]
    omega

/-- A reference nobody holds is given back, and the frame is in hand when it
was the last. -/
theorem unref (h : Ledger pool (bump slack f) lost own slots m) : Ledger pool slack lost
      (if (cowUnrefPage m f).1 = 0 then bump own f else own) slots
      (cowUnrefPage m f).2 := by
  have hr := refs_cowUnrefPage m f
  have hpos : 0 < m.refs f := by
    have := h.count f
    rw [bump_self] at this
    omega
  refine h.of_spaces (cowUnrefPage_rest m f).2.1 (fun g => ?_) fun g => ?_
  · rw [(cowUnrefPage_rest m f).1, hr, cowUnrefPage_fst]
    by_cases hg : g = f
    · subst hg
      simp only [decide_true, Bool.toNat_true]
      split
      · rw [bump_self]; omega
      · omega
    · simp only [hg, decide_false, Bool.toNat_false]
      split
      · rw [bump_of_ne hg]; omega
      · omega
  · rw [hr, bump]
    by_cases hg : g = f
    · subst hg; simp only [decide_true, Bool.toNat_true]; omega
    · simp only [hg, decide_false, Bool.toNat_false]; omega

/-! Address spaces come with one table and go when nothing but that table is
left of them. -/

theorem addSpace (h : Ledger pool slack lost (bump own root) slots m) :
    Ledger pool slack lost own slots
      { m with spaces := m.spaces ++ [some (AddrSpace.fresh root)] } := by
  set m' : Memory := { m with spaces := m.spaces ++ [some (AddrSpace.fresh root)] } with hm'
  have hlen : m'.spaces.length = m.spaces.length + 1 := by simp [hm']
  have hpte : ∀ c i, m'.pteAt c i = m.pteAt c i := fun c i => pteAt_addSpace
  have htab : ∀ c key, m'.tableAt c key
      = if c = m.spaces.length ∧ key = (4, 0) then some root else m.tableAt c key :=
    fun c key => tableAt_addSpace
  have hnone : m.space m.spaces.length = none := by simp [space]
  have hp : ∀ w : Pte → Nat, w {} = 0 → ptes m' w = ptes m w := fun w hw => by
    unfold ptes
    rw [hlen, tally_range_succ]
    have h0 : tally (Finset.range pageSlots) (m'.pteAt m.spaces.length) w = 0 :=
      tally_eq_zero fun y _ => by rw [hpte, pteAt, hnone]; exact hw
    rw [h0]
    exact tally_congr fun x _ => by rw [hpte]
  have ht : ∀ f, tables m' f = tables m f + (decide (f = root)).toNat := fun f => by
    have hrow : tally (Finset.range 5 ×ˢ Finset.range (2 ^ 27)) (m'.tableAt m.spaces.length)
        (fun t => (decide (t = some f)).toNat) = (decide (f = root)).toNat := by
      rw [tally_eq_single (a := (4, 0)) (by simp)]
      · rw [htab]; simp [eq_comm]
      · intro x _ hx
        rw [htab, if_neg fun hh => hx hh.2, tableAt, hnone]
        rfl
    unfold tables
    rw [hlen, tally_range_succ, hrow]
    refine congrArg (· + _) (tally_congr fun x hx => ?_)
    simp only [Finset.mem_product, Finset.mem_range] at hx
    rw [htab, if_neg fun hh => absurd hh.1 (Nat.ne_of_lt hx.1)]
  refine ⟨h.pool_le, fun f => ?_, fun f => ?_, fun f => ?_⟩
  · have := h.place f
    rw [hp _ rfl, ht]
    rw [bump] at this
    change (m.free f).toNat + _ + _ + own f + min 1 (m.refs f) + lost f = pool f
    omega
  · rw [hp _ rfl, hp _ rfl]; exact h.kind f
  · rw [hp _ rfl, hp _ rfl]; exact h.count f

theorem dropSpace (h : Ledger pool slack lost own slots m)
    (hroot : m.tableAt cr3 (4, 0) = some root)
    (hpte : ∀ i, m.pteAt cr3 i = {})
    (htab : ∀ key, key ≠ (4, 0) → m.tableAt cr3 key = none) :
    Ledger pool slack lost (bump own root) slots { m with spaces := m.spaces.set cr3 none } := by
  have hs : (m.space cr3).isSome := space_of_tableAt ((4, 0)) (by simp [hroot])
  set m' : Memory := { m with spaces := m.spaces.set cr3 none } with hm'
  have hlen : m'.spaces.length = m.spaces.length := by simp [hm']
  have hp : ∀ w, ptes m' w = ptes m w := fun w => by
    unfold ptes
    rw [hlen]
    refine tally_congr fun x _ => ?_
    rw [show m'.pteAt x.1 x.2 = _ from pteAt_dropSpace]
    split
    · next hx => rw [hx, hpte]
    · rfl
  -- dropping the space has the same tables as unlinking its root
  have ht : ∀ f, tables m' f = tables (m.setTable cr3 (4, 0) none) f := fun f => by
    unfold tables
    rw [hlen, show (m.setTable cr3 (4, 0) none).spaces.length = m.spaces.length from
      length_updSpace]
    refine tally_congr fun x _ => ?_
    rw [tableAt_setTable, show m'.tableAt x.1 x.2 = _ from
      tableAt_dropSpace]
    by_cases hx : x.1 = cr3
    · rw [if_pos hx]
      by_cases hk : x.2 = (4, 0)
      · rw [if_pos ⟨hx, hk, hs⟩]
      · rw [if_neg fun hh => hk hh.2.1, hx, htab _ hk]
    · rw [if_neg hx, if_neg fun hh => hx hh.1]
  have h' : Ledger pool slack lost (bump own root) slots (m.setTable cr3 (4, 0) none) :=
    h.setTable hs (by omega) (by omega) fun f => by
      rw [hroot, bump]
      simp [eq_comm]
  refine ⟨h.pool_le, fun f => ?_, fun f => ?_, fun f => ?_⟩
  · have := h'.place f
    rw [ptes_setTable] at this
    rw [hp, ht]
    exact this
  · rw [hp, hp]; exact h.kind f
  · rw [hp, hp]; exact h.count f

end Ledger

end BleedKernel.Mm
