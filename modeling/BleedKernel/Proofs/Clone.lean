import Mathlib.Tactic.Ring
import BleedKernel.Proofs.Faults

/-!
# Fork

`paging_clone_user_space` goes through the parent's entries once, in order. Up
to where it has come, each entry of the parent has its counterpart in the
child; from there on the child is empty. That is the invariant of all four
loops, one inside the other, and `lo` is how far they have come.

It also has to bound the counts, because `cow_ref_page` adds in 32 bits. A frame
gains at most one reference for each entry of the parent that counts already,
or two when it was the parent's alone, and either way it ends below
`2 * count + 3`.
-/

namespace BleedKernel.Mm

open BleedKernel.Lib Memory

variable {pool slack lost own slots refs0 : Frame → Nat} {m m' : Memory}
  {parent child : Cr3}

/-! ## One entry -/

/-- The clone does something with the entry. -/
def Pte.Cloned (p : Pte) : Prop :=
  p.present = true ∧ (p.user = true ∨ p.protnone = true)

/-- What `paging_clone_walk` does with one entry, once the child has a page
table for it. -/
inductive CloneEntry (m : Memory) (parent child : Cr3) (i : Nat) : Bool → Memory → Prop
  | device (hn : (m.pteAt parent i).nofree = true) :
      CloneEntry m parent child i true (m.setPteAt child i (m.pteAt parent i))
  | shared (hn : (m.pteAt parent i).nofree = false)
      (hs : (m.pteAt parent i).shared = true) :
      CloneEntry m parent child i true
        ((cowRefPage m (m.pteAt parent i).phys).setPteAt child i (m.pteAt parent i))
  | cow (hn : (m.pteAt parent i).nofree = false)
      (hs : (m.pteAt parent i).shared = false)
      (hc : (m.pteAt parent i).cow = true) :
      CloneEntry m parent child i true
        ((cowRefPage m (m.pteAt parent i).phys).setPteAt child i
          (m.pteAt parent i).cowed)
  | writable (hn : (m.pteAt parent i).nofree = false)
      (hs : (m.pteAt parent i).shared = false)
      (hc : (m.pteAt parent i).cow = false)
      (hw : (m.pteAt parent i).writable = true) :
      CloneEntry m parent child i true
        ((cowRefPage (cowRefPage (m.setPteAt parent i (m.pteAt parent i).cowed)
          (m.pteAt parent i).phys) (m.pteAt parent i).phys).setPteAt child i
          (m.pteAt parent i).cowed)
  | full (hn : (m.pteAt parent i).nofree = false) {m1 : Memory}
      (ha : pmmAllocPages m = (none, m1)) : CloneEntry m parent child i false m1
  | readonly (hn : (m.pteAt parent i).nofree = false)
      (hs : (m.pteAt parent i).shared = false)
      (hc : (m.pteAt parent i).cow = false)
      (hw : (m.pteAt parent i).writable = false) {f : Frame} {m1 : Memory}
      (ha : pmmAllocPages m = (some f, m1)) :
      CloneEntry m parent child i true
        ((m1.setBytes f (m1.bytes (m.pteAt parent i).phys)).setPteAt child i
          ((m.pteAt parent i).withPhys f))

/-- Everything `clonePte` can do. -/
theorem clonePte_cases (parent child : Cr3) (i : Nat) (w : CloneWalk) :
    (¬ (w.m.pteAt parent i).Cloned ∧ clonePte parent child i w = (true, w)) ∨
    (w.m.pteAt parent i).Cloned ∧ ((∃ m1, pagingWalkPageTables w.m child i = (false, m1) ∧
          clonePte parent child i w = (false, { w with m := m1 })) ∨
        ∃ m1 b m2, pagingWalkPageTables w.m child i = (true, m1) ∧
          CloneEntry m1 parent child i b m2 ∧
          (clonePte parent child i w).1 = b ∧
          (clonePte parent child i w).2.m = m2) := by
  have hq := pagingWalkPageTables_quiet w.m child i
  unfold clonePte
  dsimp only
  cases hp : (w.m.pteAt parent i).present with
  | false =>
    exact .inl ⟨fun h => Bool.noConfusion (h.1.symm.trans hp), rfl⟩
  | true =>
    simp only [Bool.not_true, Bool.false_eq_true, if_false]
    by_cases hu : ((w.m.pteAt parent i).user || (w.m.pteAt parent i).protnone) = true
    · right
      refine ⟨⟨hp, by simpa using hu⟩, ?_⟩
      rw [hu]
      obtain ⟨⟨b, m1⟩, hr⟩ : ∃ r, pagingWalkPageTables w.m child i = r := ⟨_, rfl⟩
      rw [hr] at hq ⊢
      cases b with
      | false => exact .inl ⟨m1, rfl, rfl⟩
      | true =>
        right
        have hpte : m1.pteAt parent i = w.m.pteAt parent i := hq.pte _ _
        rw [← hpte]
        dsimp only
        cases hn : (m1.pteAt parent i).nofree with
        | true => exact ⟨m1, _, _, rfl, .device hn, rfl, rfl⟩
        | false =>
          cases hs : (m1.pteAt parent i).shared with
          | true => exact ⟨m1, _, _, rfl, .shared hn hs, rfl, rfl⟩
          | false =>
            cases hc : (m1.pteAt parent i).cow with
            | true =>
              simp only [Bool.or_true]
              exact ⟨m1, _, _, rfl, .cow hn hs hc, rfl, rfl⟩
            | false =>
              cases hw : (m1.pteAt parent i).writable with
              | true =>
                exact ⟨m1, _, _, rfl, .writable hn hs hc hw, rfl, rfl⟩
              | false =>
                rcases pmmAllocPages_cases m1 with
                  ⟨rest, ha⟩ | ⟨f, rest, -, -, ha⟩
                · rw [ha]; exact ⟨m1, _, _, rfl, .full hn ha, rfl, rfl⟩
                · rw [ha]
                  exact ⟨m1, _, _, rfl, .readonly hn hs hc hw ha, rfl, rfl⟩
    · left
      refine ⟨fun h => hu (by simpa using h.2), ?_⟩
      rw [if_pos (by simpa using hu)]

/-! ## The counts stay in range -/

/-- One for an entry that a count counts. -/
def countedW (f : Frame) (p : Pte) : Nat := cowW f p + sharedW f p

/-- A weight added up over one address space. -/
def rowW (m : Memory) (cr3 : Cr3) (w : Pte → Nat) : Nat :=
  tally (Finset.range pageSlots) (m.pteAt cr3) w

/-- Two address spaces are seen separately in the sum. -/
theorem rows_le_ptes (w : Pte → Nat) (hne : parent ≠ child)
    (hp : (m.space parent).isSome) (hc : (m.space child).isSome) :
    rowW m parent w + rowW m child w ≤ ptes m w := by
  exact rows_le_tally (F := fun x => m.pteAt x.1 x.2) (Finset.mem_range.mpr (space_lt hp))
    (Finset.mem_range.mpr (space_lt hc)) hne

theorem rowW_congr {w : Pte → Nat} {cr3 : Cr3}
    (h : ∀ i, m'.pteAt cr3 i = m.pteAt cr3 i) : rowW m' cr3 w = rowW m cr3 w :=
  tally_congr fun i _ => by rw [h]

/-- What the four loops keep. `lo` is the first page slot not yet visited,
`refs0` the counts the fork started from. -/
structure CloneInv (pool slack lost own slots refs0 : Frame → Nat)
    (parent child : Cr3) (lo : Nat) (m : Memory) : Prop where
  ok : MemOk pool slack lost own slots m
  parentLive : (m.space parent).isSome
  childLive : (m.space child).isSome
  fresh : ∀ j, lo ≤ j → m.pteAt child j = {}
  mirror : ∀ j f, countedW f (m.pteAt child j) ≤ countedW f (m.pteAt parent j)
  bound : ∀ f, m.refs f ≤ refs0 f + rowW m child (countedW f) + 1
  untouched : ∀ f, rowW m child (countedW f) = 0 → m.refs f ≤ refs0 f

namespace CloneInv

section

variable {lo : Nat} (h : CloneInv pool slack lost own slots refs0 parent child lo m)

include h

theorem mono {lo' : Nat} (hle : lo ≤ lo') :
    CloneInv pool slack lost own slots refs0 parent child lo' m :=
  { h with fresh := fun j hj => h.fresh j (Nat.le_trans hle hj) }

/-- No count more than doubles. -/
theorem refs_le (hne : parent ≠ child) (f : Frame) : m.refs f ≤ 2 * refs0 f + 2 := by
  have hrows : ∀ w, rowW m parent w + rowW m child w ≤ ptes m w :=
    fun w => rows_le_ptes w hne h.parentLive h.childLive
  have hsplit : ∀ c, rowW m c (countedW f)
      = rowW m c (cowW f) + rowW m c (sharedW f) := fun c => tally_add
  have hmirror : rowW m child (countedW f) ≤ rowW m parent (countedW f) :=
    tally_le fun j _ => h.mirror j f
  have h1 := hrows (cowW f)
  have h2 := hrows (sharedW f)
  have h3 := h.ok.ledger.count f
  have h4 := h.bound f
  have h5 := hsplit parent
  have h6 := hsplit child
  omega

/-- The invariant reads entries and counts only. -/
theorem congr (hok : MemOk pool slack lost own slots m')
    (hspace : ∀ c, (m'.space c).isSome = (m.space c).isSome)
    (hpte : ∀ c i, m'.pteAt c i = m.pteAt c i) (hrefs : ∀ f, m'.refs f = m.refs f) :
    CloneInv pool slack lost own slots refs0 parent child lo m' where
  ok := hok
  parentLive := by rw [hspace]; exact h.parentLive
  childLive := by rw [hspace]; exact h.childLive
  fresh j hj := by rw [hpte]; exact h.fresh j hj
  mirror j f := by rw [hpte, hpte]; exact h.mirror j f
  bound f := by rw [hrefs, rowW_congr (hpte child)]; exact h.bound f
  untouched f := by rw [hrefs, rowW_congr (hpte child)]; exact h.untouched f

end

/-- One more entry of the parent has its counterpart `p` in the child, and is
itself `q` now. -/
theorem entry {i : Nat} {p q : Pte} (h : CloneInv pool slack lost own slots refs0 parent child i m)
    (hok : MemOk pool slack lost own slots m') (hi : i < pageSlots)
    (hspace : ∀ c, (m'.space c).isSome = (m.space c).isSome)
    (hchild : ∀ j, m'.pteAt child j = if j = i then p else m.pteAt child j)
    (hparent : ∀ j, m'.pteAt parent j = if j = i then q else m.pteAt parent j)
    (hpq : ∀ f, countedW f p ≤ countedW f q)
    (hrefs : ∀ f, m'.refs f ≤ m.refs f + countedW f p ∨
      m.refs f = 0 ∧ m'.refs f ≤ 2 ∧ countedW f p = 1) :
    CloneInv pool slack lost own slots refs0 parent child (i + 1) m' := by
  have hrow : ∀ f, rowW m' child (countedW f)
      = rowW m child (countedW f) + countedW f p := fun f => by
    have hF : m'.pteAt child = Function.update (m.pteAt child) i p := by
      funext j
      rw [hchild]
      by_cases hj : j = i
      · subst hj; simp
      · rw [if_neg hj, Function.update_of_ne hj]
    have hup := tally_update (F := m.pteAt child) (g := countedW f) (b := p)
      (Finset.mem_range.mpr hi)
    have hz : countedW f (m.pteAt child i) = 0 := by
      rw [h.fresh i (Nat.le_refl i)]
      exact Nat.add_eq_zero_iff.mpr ⟨(weights_zero f).2.1, (weights_zero f).2.2⟩
    rw [hz, Nat.add_zero] at hup
    unfold rowW
    rw [hF]
    exact hup
  refine ⟨hok, ?_, ?_, fun j hj => ?_, fun j f => ?_, fun f => ?_, fun f hf => ?_⟩
  · rw [hspace]; exact h.parentLive
  · rw [hspace]; exact h.childLive
  · rw [hchild, if_neg (by omega)]
    exact h.fresh j (by omega)
  · rw [hchild, hparent]
    by_cases hj : j = i
    · rw [if_pos hj, if_pos hj]; exact hpq f
    · rw [if_neg hj, if_neg hj]; exact h.mirror j f
  · have := h.bound f
    have := hrefs f
    rw [hrow]
    omega
  · have := hrefs f
    rw [hrow] at hf
    have := h.untouched f (by omega)
    omega

end CloneInv

/-! ## The ledger across one entry -/

namespace MemOk

variable {i : Nat} {p : Pte}

section

variable (h : MemOk pool slack lost own slots m) (hP : m.pteAt parent i = p)
  (hp : p.present = true) (hn : p.nofree = false)

include h hP hp hn

/-- A frame that a shared entry refers to is counted, and never copy-on-write. -/
theorem refs_pos_of_shared (hs : p.shared = true) :
    0 < m.refs p.phys ∧ ptes m (cowW p.phys) = 0 := by
  have hle := h.pte_le hP hp (sharedW p.phys)
  rw [(weights_shared hp hn hs p.phys).2.2, decide_eq_true rfl, Bool.toNat_true] at hle
  have hcnt := h.ledger.count p.phys
  have hk := h.ledger.kind p.phys
  exact ⟨by omega, by omega⟩

/-- A frame that a private entry refers to is not counted. -/
theorem refs_zero_of_priv (hc : p.cow = false) (hs : p.shared = false) : m.refs p.phys = 0 := by
  have hle := h.pte_le hP hp (privW p.phys)
  rw [(weights_priv hp hn hc hs p.phys).1, decide_eq_true rfl, Bool.toNat_true] at hle
  have hpl := h.ledger.place p.phys
  have := h.ledger.pool_le p.phys
  omega

/-- The parent's own page becomes copy-on-write, with one reference. -/
theorem makeCow (hc : p.cow = false) (hs : p.shared = false) :
    MemOk pool slack lost own slots (cowRefPage (m.setPteAt parent i p.cowed) p.phys) := by
  have h0 := h.refs_zero_of_priv hP hp hn hc hs
  have ht := h.table_of_present (hP ▸ hp)
  -- in the order the ledger likes: clear, count, store
  have h1 := (h.clear (hP ▸ hp)).2.2 (hP ▸ hn) (by rw [hP, hc, hs]; rfl)
  rw [hP] at h1
  have h2 := h1.refOwn
  rw [cowRefPage_setPteAt] at h2 ⊢
  have ht' : ((cowRefPage m p.phys).tableAt parent (1, i / 512)).isSome := by
    rw [tableAt_congr (cowRefPage_rest _ _).2.1]; exact ht
  have hcnt := h2.ledger.count p.phys
  have hrefs := refs_cowRefPage (f := p.phys) h.table (by omega) p.phys
  have hk : ptes ((cowRefPage m p.phys).setPteAt parent i {}) (sharedW p.phys) + slots p.phys
      = 0 := by
    change (cowRefPage m p.phys).refs _ = _ at hcnt
    rw [hrefs, bump_self, decide_eq_true rfl, Bool.toNat_true] at hcnt
    omega
  have h3 := h2.place (.ofCow (p := p.cowed) hp hn rfl hs rfl hk)
    (by rw [tableAt_setPteAt]; exact ht')
    (by rw [pteAt_setPteAt, if_pos ⟨rfl, rfl, space_of_tableAt _ ht'⟩])
  rw [setPteAt_setPteAt] at h3
  exact h3

end

end MemOk

/-- No count is near the top of its 32 bits. -/
def RefRoom (refs0 : Frame → Nat) : Prop := ∀ f, 2 * refs0 f + 4 < 2 ^ 32

namespace CloneInv

variable {i : Nat}

/-- Adding a counted entry to the child, whose reference has just been taken. -/
theorem place {p q : Pte} {M : Memory}
    (h : CloneInv pool slack lost own slots refs0 parent child i m)
    (hP : m.pteAt parent i = q) (hne : parent ≠ child)
    (hM : M.spaces = m.spaces)
    (hok : MemOk pool slack lost own slots (M.setPteAt child i p))
    (ht : (m.tableAt child (1, i / 512)).isSome)
    (hp : ∀ f, countedW f p ≤ countedW f q)
    (hrefs : ∀ f, M.refs f ≤ m.refs f + countedW f p) :
    CloneInv pool slack lost own slots refs0 parent child (i + 1) (M.setPteAt child i p) := by
  have hs : (M.space child).isSome := by
    rw [space_congr hM]; exact h.childLive
  refine h.entry hok (h.ok.slot_lt ht)
    (fun c => ?_) (fun j => ?_) (fun j => ?_) hp fun f => .inl (hrefs f)
  · rw [space_setPteAt, space_congr hM]
  · rw [pteAt_setPteAt, pteAt_congr hM]
    by_cases hj : j = i
    · rw [if_pos ⟨rfl, hj, hs⟩, if_pos hj]
    · rw [if_neg fun hh => hj hh.2.1, if_neg hj]
  · rw [pteAt_setPteAt, if_neg fun hh => hne hh.1, pteAt_congr hM]
    by_cases hj : j = i
    · rw [if_pos hj, hj, hP]
    · rw [if_neg hj]

theorem countedW_priv {p : Pte} (hp : p.present = true) (hn : p.nofree = false)
    (hc : p.cow = false) (hs : p.shared = false) (f : Frame) : countedW f p = 0 := by
  have := weights_priv hp hn hc hs f
  unfold countedW; omega

theorem countedW_counted {p : Pte} (hp : p.present = true) (hn : p.nofree = false)
    (hcs : p.cow = true ∨ p.shared = true) (f : Frame) :
    countedW f p = (decide (f = p.phys)).toNat := by
  unfold countedW
  cases hs : p.shared with
  | true =>
    have := weights_shared hp hn hs f
    omega
  | false =>
    have := weights_cow hp hn (hcs.resolve_right (by simp [hs])) hs f
    omega

/-- One entry keeps the invariant, whatever it is. -/
theorem cloneEntry {b : Bool} {m2 : Memory}
    (h : CloneInv pool slack lost own slots refs0 parent child i m)
    (hne : parent ≠ child) (hroom : RefRoom refs0)
    (hp : (m.pteAt parent i).present = true)
    (ht : (m.tableAt child (1, i / 512)).isSome)
    (he : CloneEntry m parent child i b m2) :
    CloneInv pool slack lost own slots refs0 parent child (i + 1) m2 := by
  have h0 := h.fresh i (Nat.le_refl i)
  have htab : ∀ f, ((cowRefPage m f).tableAt child (1, i / 512)).isSome := fun f => by
    rw [tableAt_congr (cowRefPage_rest _ _).2.1]; exact ht
  have hz : ∀ f, (cowRefPage m f).pteAt child i = {} := fun f => by
    rw [pteAt_congr (cowRefPage_rest _ _).2.1]; exact h0
  have hwf := h.ok.wf parent i
  generalize hP : m.pteAt parent i = p at hp hwf
  have hbnd := h.refs_le hne p.phys
  have hrm := hroom p.phys
  cases he with
  | device hn =>
    rw [hP] at hn ⊢
    have hc : p.cow = false := by
      cases hc : p.cow with
      | false => rfl
      | true => rw [(hwf.cow hc).2.2] at hn; cases hn
    exact h.place hP hne rfl (h.ok.place (.nofree hp hn hc (hwf.device hn)) ht h0) ht
      (fun f => Nat.le_refl _) fun f => Nat.le_add_right _ _
  | shared hn hs =>
    rw [hP] at hn hs ⊢
    have hc : p.cow = false := by
      cases hc : p.cow with
      | false => rfl
      | true => rw [(hwf.cow hc).2.1] at hs; cases hs
    obtain ⟨hpos, hk⟩ := h.ok.refs_pos_of_shared hP hp hn hs
    have hr : m.refs p.phys + 1 < 2 ^ 32 := by omega
    have h1 := h.ok.ref hr hpos
    refine h.place hP hne (cowRefPage_rest _ _).2.1
      (h1.place (.ofShared hp hn hc hs (by rw [Ledger.ptes_cowRefPage]; exact hk))
        (htab _) (hz _)) ht (fun f => Nat.le_refl _) fun f => ?_
    rw [refs_cowRefPage h.ok.table hr, countedW_counted hp hn (.inr hs)]
  | cow hn hs hc =>
    rw [hP] at hn hs hc ⊢
    obtain ⟨hpos, hk⟩ := h.ok.refs_pos_of_cow hP hp hc
    have hr : m.refs p.phys + 1 < 2 ^ 32 := by omega
    have h1 := h.ok.ref hr hpos
    have hcw : ∀ f, countedW f p.cowed = countedW f p := fun f => by
      rw [countedW_counted hp hn (.inl hc), countedW_counted (p := p.cowed) hp hn (.inl rfl)]
      rfl
    refine h.place hP hne (cowRefPage_rest _ _).2.1 (h1.place (.ofCow hp hn rfl hs rfl
        (by change ptes _ (sharedW p.phys) + slots _ = 0
            rw [Ledger.ptes_cowRefPage]; exact hk)) (htab _) (hz _)) ht
      (fun f => Nat.le_of_eq (hcw f)) fun f => ?_
    rw [refs_cowRefPage h.ok.table hr, hcw, countedW_counted hp hn (.inl hc)]
  | writable hn hs hc hw =>
    rw [hP] at hn hs hc ⊢
    have hr0 := h.ok.refs_zero_of_priv hP hp hn hc hs
    have hM := h.ok.makeCow hP hp hn hc hs
    have hsp : ∀ c j, (cowRefPage (m.setPteAt parent i p.cowed) p.phys).pteAt c j
        = if c = parent ∧ j = i then p.cowed else m.pteAt c j :=
      fun c j => by
        rw [pteAt_congr (cowRefPage_rest _ _).2.1, pteAt_setPteAt]
        simp only [h.parentLive, and_true]
    have hr1 : ∀ f, (cowRefPage (m.setPteAt parent i p.cowed) p.phys).refs f
        = m.refs f + (decide (f = p.phys)).toNat := fun f => by
      rw [cowRefPage_setPteAt]
      exact refs_cowRefPage h.ok.table (by omega) f
    have hlive : ∀ c, ((cowRefPage (m.setPteAt parent i p.cowed) p.phys).space c).isSome
        = (m.space c).isSome := fun c => by
      rw [space_congr (cowRefPage_rest _ _).2.1, space_setPteAt]
    have htM : ((cowRefPage (m.setPteAt parent i p.cowed) p.phys).tableAt child
        (1, i / 512)).isSome := by
      rw [tableAt_congr (cowRefPage_rest _ _).2.1, tableAt_setPteAt]
      exact ht
    generalize cowRefPage (m.setPteAt parent i p.cowed) p.phys = M at *
    have hpM : M.pteAt parent i = p.cowed := by rw [hsp, if_pos ⟨rfl, rfl⟩]
    obtain ⟨hpos, hk⟩ := hM.refs_pos_of_cow hpM hp rfl
    have hrM : M.refs p.phys = 1 := by
      rw [hr1, hr0, decide_eq_true rfl]; rfl
    have h2 := hM.ref (f := p.phys) (by omega) (by omega)
    have h3 := h2.place
      (.ofCow (p := p.cowed) hp hn rfl hs rfl (by rw [Ledger.ptes_cowRefPage]; exact hk))
      (by rw [tableAt_congr (cowRefPage_rest _ _).2.1]; exact htM)
      (by rw [pteAt_congr (cowRefPage_rest _ _).2.1, hsp, if_neg fun hh => hne hh.1.symm]; exact h0)
    refine h.entry (p := p.cowed) h3 (h.ok.slot_lt ht) (fun c => ?_)
      (fun j => ?_) (fun j => ?_) (fun f => Nat.le_refl _) fun f => ?_
    · rw [space_setPteAt, space_congr (cowRefPage_rest _ _).2.1, hlive]
    · rw [pteAt_setPteAt, space_congr (cowRefPage_rest _ _).2.1, hlive,
        pteAt_congr (cowRefPage_rest _ _).2.1, hsp child,
        if_neg (c := child = parent ∧ j = i) fun hh => hne hh.1.symm]
      simp only [h.childLive, true_and, and_true]
    · rw [pteAt_setPteAt, if_neg fun hh => hne hh.1, pteAt_congr (cowRefPage_rest _ _).2.1, hsp]
      simp only [true_and]
    · have e : (cowRefPage M p.phys).refs f = M.refs f + (decide (f = p.phys)).toNat :=
        refs_cowRefPage hM.table (by omega) f
      change (cowRefPage M p.phys).refs f ≤ _ ∨ _ ∧ (cowRefPage M p.phys).refs f ≤ 2 ∧ _
      rw [e, hr1, countedW_counted (p := p.cowed) hp hn (.inl rfl)]
      by_cases hf : f = p.phys
      · subst hf
        simp [hr0, Pte.cowed]
      · simp [hf]
  | full hn ha =>
    have hq := Quiet.alloc m
    rw [ha] at hq
    exact (h.congr (h.ok.allocNone ha) hq.space hq.pte hq.refs).mono (Nat.le_succ i)
  | @readonly hn hs hc hw f m1 ha =>
    rw [hP] at hn hs hc ⊢
    have hsp := pmmAllocPages_spaces m
    have hq := Quiet.alloc m
    rw [ha] at hsp hq
    have h1 := (h.ok.alloc ha).setBytes (f := f) (b := m1.bytes p.phys)
    have h2 := h1.place (.priv (p := p.withPhys f) hp hn hc hs)
      ((congrArg Option.isSome (tableAt_congr hsp _ _)).trans ht)
      ((pteAt_congr hsp _ _).trans h0)
    refine h.place hP hne hsp h2 ht (fun g => ?_) fun g => ?_
    · rw [countedW_priv (p := p.withPhys f) hp hn hc hs]
      exact Nat.zero_le _
    · exact Nat.le_trans (Nat.le_of_eq (hq.refs g)) (Nat.le_add_right _ _)

/-- One entry of the loop, the walk to the child's table included. -/
theorem clonePte {w : CloneWalk} (h : CloneInv pool slack lost own slots refs0 parent child i w.m)
    (hne : parent ≠ child) (hroom : RefRoom refs0) :
    CloneInv pool slack lost own slots refs0 parent child (i + 1)
      (clonePte parent child i w).2.m := by
  rcases clonePte_cases parent child i w with ⟨-, hr⟩ | ⟨hcl, hr⟩
  · rw [hr]; exact h.mono (Nat.le_succ i)
  have hi : i < 2 ^ 35 := h.ok.linked.slot_lt (h.ok.table_of_present hcl.1)
  have hq := pagingWalkPageTables_quiet w.m child i
  obtain ⟨hwalk, htab⟩ := h.ok.walk hi
  have h1 := h.congr hwalk hq.space hq.pte hq.refs
  rcases hr with ⟨m1, hw, hr⟩ | ⟨m1, b, m2, hw, he, -, hr⟩
  · rw [hr]
    rw [hw] at h1
    exact h1.mono (Nat.le_succ i)
  · rw [hr]
    rw [hw] at h1 htab hq
    exact h1.cloneEntry hne hroom (by rw [show m1.pteAt parent i = _ from hq.pte _ _]; exact hcl.1)
      (htab rfl) he

end CloneInv

/-! ## The loops -/

theorem pagingTableEmpty_gone {cr3 : Cr3} {l k : Nat}
    (h : pagingTableEmpty m cr3 (l + 1) k = true) (j : Nat) (hj : j / 512 = k) :
    Gone m cr3 l j := by
  unfold pagingTableEmpty at h
  rw [List.all_eq_true] at h
  have := h (j % 512) (List.mem_range.mpr (Nat.mod_lt _ (by omega)))
  rw [show k * 512 + j % 512 = j by omega] at this
  cases l with
  | zero => simpa [Gone] using this
  | succ l => simpa [Gone] using this

/-- What one level of the clone offers to the level above: it visits the page
slots below its place, and leaves the parent's tables above it linked. -/
structure CloneLevel (parent child : Cr3) (l : Nat)
    (below : Nat → CloneWalk → Bool × CloneWalk) : Prop where
  inv : ∀ {pool slack lost own slots refs0 k w}, RefRoom refs0 →
    CloneInv pool slack lost own slots refs0 parent child (k * 512 ^ l) w.m →
    CloneInv pool slack lost own slots refs0 parent child ((k + 1) * 512 ^ l)
      (below k w).2.m
  above : ∀ k w l' j t, l < l' → w.m.tableAt parent (l', j) = some t →
    (below k w).2.m.tableAt parent (l', j) = some t

theorem CloneEntry.tableAt {i : Nat} {b : Bool} {m2 : Memory}
    (h : CloneEntry m parent child i b m2) (c : Cr3) (key : Nat × Nat) :
    m2.tableAt c key = m.tableAt c key := by
  have hal := pmmAllocPages_spaces m
  cases h with
  | device => rw [tableAt_setPteAt]
  | shared | cow =>
    rw [tableAt_setPteAt, tableAt_congr (cowRefPage_rest _ _).2.1]
  | writable =>
    rw [tableAt_setPteAt, tableAt_congr (cowRefPage_rest _ _).2.1,
      tableAt_congr (cowRefPage_rest _ _).2.1, tableAt_setPteAt]
  | full hn ha => rw [ha] at hal; exact tableAt_congr hal _ _
  | readonly hn hs hc hw ha =>
    rw [ha] at hal
    rw [tableAt_setPteAt]
    exact tableAt_congr hal _ _

theorem CloneLevel.clonePte (hne : parent ≠ child) :
    CloneLevel parent child 0 (clonePte parent child) where
  inv hroom h := by
    rw [pow_zero, Nat.mul_one] at h ⊢
    exact h.clonePte hne hroom
  above k w l' j t _ ht := by
    have hq := pagingWalkPageTables_quiet w.m child k
    have hk := hq.table parent (l', j) (by rw [ht]; rfl)
    rcases clonePte_cases parent child k w with
      ⟨-, hr⟩ | ⟨-, ⟨m1, hw, hr⟩ | ⟨m1, b, m2, hw, he, -, hr⟩⟩
    · rw [hr]; exact ht
    · rw [hr]; rw [hw] at hk; exact hk.trans ht
    · rw [hr, he.tableAt]; rw [hw] at hk; exact hk.trans ht

/-- The loop over one table's places. -/
theorem CloneLevel.tryPlaces {l : Nat} {below : Nat → CloneWalk → Bool × CloneWalk}
    (hb : CloneLevel parent child l below) (n k : Nat) (w : CloneWalk) :
    (∀ {pool slack lost own slots refs0}, RefRoom refs0 →
      CloneInv pool slack lost own slots refs0 parent child (k * n * 512 ^ l) w.m →
      CloneInv pool slack lost own slots refs0 parent child ((k * n + n) * 512 ^ l)
        (tryPlaces n below k w).2.m) ∧
    (∀ l' j t, l < l' → w.m.tableAt parent (l', j) = some t →
      (Mm.tryPlaces n below k w).2.m.tableAt parent (l', j) = some t) := by
  refine ⟨fun {pool slack lost own slots refs0} hroom h => ?_, fun l' j t hl ht => ?_⟩
  · exact forEach_range (P := fun i (w : CloneWalk) => CloneInv pool slack lost own slots refs0
        parent child ((k * n + i) * 512 ^ l) w.m)
      (fun i w hw => hw.mono (Nat.mul_le_mul_right _ (Nat.le_succ _)))
      (fun i _ w => hb.inv hroom) h
  · exact forEach_inv (fun i _ w => hb.above _ w _ _ _ hl) ht

/-- One table of the clone, from the level below it. -/
theorem CloneLevel.cloneTable {l : Nat} {below : Nat → CloneWalk → Bool × CloneWalk}
    (hb : CloneLevel parent child l below) (hl : l < 3) :
    CloneLevel parent child (l + 1) (cloneTable parent (l + 1) below) where
  inv {pool slack lost own slots refs0 k w} hroom h := by
    obtain ⟨hinv, habove⟩ := hb.tryPlaces 512 k w
    have hlo : k * 512 ^ (l + 1) = k * 512 * 512 ^ l := by ring
    have hhi : (k + 1) * 512 ^ (l + 1) = (k * 512 + 512) * 512 ^ l := by
      ring
    unfold Mm.cloneTable
    split
    · exact h.mono (Nat.mul_le_mul_right _ (by omega))
    rename_i t ht
    have h' := hinv hroom (hlo ▸ h)
    have ht' := habove (l + 1) k t (by omega) ht
    rw [hhi]
    generalize Mm.tryPlaces 512 below k w = r at *
    dsimp only
    split
    · exact h'
    split
    · rename_i hempty
      exact h'.congr (h'.ok.dropTable hl ht' (pagingTableEmpty_gone hempty))
        (fun c => space_setTable) (fun c i => pteAt_setTable)
        fun f => rfl
    · exact h'
  above k w l' j t hlt ht := by
    have habove := (hb.tryPlaces 512 k w).2 l' j t (by omega) ht
    unfold Mm.cloneTable
    split
    · exact ht
    generalize Mm.tryPlaces 512 below k w = r at *
    dsimp only
    split
    · exact habove
    split
    · change tableAt (r.2.m.setTable _ _ _) _ _ = _
      rw [tableAt_setTable, if_neg]
      · exact habove
      · rintro ⟨-, hkey, -⟩
        have : l' = l + 1 := congrArg Prod.fst hkey
        omega
    · exact habove

/-- A fork that starts with counts to spare keeps the ledger, whether it
succeeds or runs out of memory half way. -/
theorem MemOk.pagingCloneUserSpace (h : MemOk pool slack lost own slots m)
    (hne : parent ≠ child) (hp : (m.space parent).isSome)
    (hc : (m.space child).isSome) (hfresh : ∀ j, m.pteAt child j = {})
    (hroom : RefRoom m.refs) :
    MemOk pool slack lost own slots (pagingCloneUserSpace m parent child).2 := by
  have h0 : CloneInv pool slack lost own slots m.refs parent child 0 m := by
    refine ⟨h, hp, hc, fun j _ => hfresh j, fun j f => ?_, fun f => by omega,
      fun f _ => Nat.le_refl _⟩
    rw [hfresh]
    have := weights_zero f
    unfold countedW; omega
  have hlev := (((CloneLevel.clonePte hne).cloneTable (by omega)).cloneTable
    (by omega)).cloneTable (by omega)
  unfold Mm.pagingCloneUserSpace pagingCloneWalk
  split
  · exact h
  have := (hlev.tryPlaces 256 0 { m }).1 hroom (by simpa only [Nat.zero_mul] using h0)
  exact this.ok

end BleedKernel.Mm
