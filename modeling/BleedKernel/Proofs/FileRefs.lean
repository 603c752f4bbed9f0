import BleedKernel.Lib.Tally
import BleedKernel.Lib.Loop
import BleedKernel.Lib.Run
import BleedKernel.Proofs.Descriptors

/-!
# `shared` counts the holds

A file's `shared` is the number of slots it is in, over all tables, plus the number
of times something else holds it. That is why a file is never freed while a
descriptor still names it, and it holds in every run, whatever the allocator does.

Most calls are off by one for a moment, between the slot and the count. `Off s a`
says so: the count of the file at `a` is one more than its holds.
-/

namespace BleedKernel.Fs

open BleedKernel.Lib List Option

variable {s s' : Sys} {fd t : Nat} {addr x : Option Addr} {a b : Addr} {f : File} {T : FdTable}

/-- The count of the file at `a`, and 0 if there is none. -/
def Sys.sharedAt (s : Sys) (a : Addr) : Int := ((s.files a).map File.shared).getD 0

/-- One for a slot that has the file, nothing for any other. -/
def weight (a : Addr) (x : Option Addr) : Nat := if x = some a then 1 else 0

/-- The slots of all tables. -/
def Sys.cells (s : Sys) : Finset (Nat × Nat) :=
  Finset.range s.tables.length ×ˢ Finset.range maxFds

/-- How often the file at `a` is held. -/
def Sys.holds (s : Sys) (a : Addr) : Nat :=
  tally s.cells (fun p => s.slot p.1 p.2) (weight a) + s.held.count a

/-- Every file is counted right, save that the one at `x` may count `k` more. -/
structure Off (s : Sys) (x : Addr) (k : Nat) : Prop where
  count : ∀ a, s.sharedAt a = s.holds a + if a = x then k else 0
  pos : ∀ a f, s.files a = some f → 0 < f.shared

/-- Every file's count is the number of its holds. -/
structure Counted (s : Sys) : Prop where
  count : ∀ a, s.sharedAt a = s.holds a
  pos : ∀ a f, s.files a = some f → 0 < f.shared

/-! ## Holds -/

theorem holds_congr (ht : s'.tables.length = s.tables.length)
    (hs : ∀ t fd, s'.slot t fd = s.slot t fd) (hh : s'.held = s.held) (a : Addr) :
    s'.holds a = s.holds a := by
  unfold Sys.holds Sys.cells
  rw [ht, hh]
  congr 1
  exact tally_congr fun p _ => by rw [hs]

theorem tables_setSlot : (s.setSlot t fd x).tables.length = s.tables.length := by
  unfold Sys.setSlot
  split
  · rfl
  · simp [Sys.setTable]

theorem held_setSlot : (s.setSlot t fd x).held = s.held := by
  unfold Sys.setSlot
  split <;> rfl

theorem lt_of_table (h : (s.table t).isSome) : t < s.tables.length := by
  by_contra hge
  simp [Sys.table, getElem?_eq_none (Nat.le_of_not_lt hge)] at h

theorem weight_some : weight b (some a) = if b = a then 1 else 0 := by
  simp only [weight, some.injEq, eq_comm]

/-- Writing a slot moves the holds of the file that goes and of the one that
comes. -/
theorem holds_setSlot (hT : (s.table t).isSome) (hfd : fd < maxFds) (a : Addr) :
    (s.setSlot t fd x).holds a + weight a (s.slot t fd) = s.holds a + weight a x := by
  have hcell : (t, fd) ∈ s.cells := by
    simp [Sys.cells, lt_of_table hT, hfd]
  have hfun : (fun p => (s.setSlot t fd x).slot p.1 p.2) =
      Function.update (fun p => s.slot p.1 p.2) (t, fd) x := by
    funext p
    rw [slot_setSlot hT hfd, Function.update_apply]
    simp only [Prod.ext_iff]
  unfold Sys.holds
  have hcells : (s.setSlot t fd x).cells = s.cells := by
    unfold Sys.cells
    rw [tables_setSlot]
  rw [hcells, hfun, held_setSlot]
  have := tally_update (F := fun p => s.slot p.1 p.2) (g := weight a) (b := x) hcell
  dsimp only at this
  omega

theorem holds_pos_of_slot (h : s.slot t fd = some a) : 0 < s.holds a := by
  obtain ⟨T, hT, hlt, -⟩ := slot_some h
  have hcell : (t, fd) ∈ s.cells := by
    simp [Sys.cells, lt_of_table (s := s) (t := t) (by simp [hT]), hlt]
  have := le_tally (F := fun p => s.slot p.1 p.2) (g := weight a) hcell
  simp only [h, weight, if_true] at this
  unfold Sys.holds
  omega

/-- A file that is held is there. -/
theorem Counted.file (h : Counted s) (ha : 0 < s.holds a) : ∃ f, s.files a = some f := by
  cases hf : s.files a with
  | some f => exact ⟨f, rfl⟩
  | none =>
    have := h.count a
    simp only [Sys.sharedAt, hf, map_none, getD_none] at this
    omega

/-- A descriptor names a file that is there. -/
theorem Counted.file_of_slot (h : Counted s)
    (ha : s.slot t fd = some a) : ∃ f, s.files a = some f :=
  h.file (holds_pos_of_slot ha)

/-! ## Counts -/

theorem sharedAt_setFile {f : Option File} : (s.setFile a f).sharedAt b =
      if b = a then (f.map File.shared).getD 0 else s.sharedAt b := by
  unfold Sys.sharedAt Sys.setFile
  by_cases hb : b = a
  · subst hb; simp
  · simp [hb]

@[simp] theorem sharedAt_setSlot : (s.setSlot t fd x).sharedAt a = s.sharedAt a := by
  unfold Sys.setSlot
  split <;> rfl

theorem files_setSlot : (s.setSlot t fd x).files = s.files := by
  unfold Sys.setSlot
  split <;> rfl

theorem holds_setFile {f : Option File} : (s.setFile a f).holds b = s.holds b := rfl

theorem pos_setFile {f : Option File}
    (h : ∀ b f, s.files b = some f → 0 < f.shared) (hf : ∀ f', f = some f' → 0 < f'.shared)
    (b : Addr) (f' : File) (hb : (s.setFile a f).files b = some f') : 0 < f'.shared := by
  by_cases he : b = a
  · subst he
    exact hf f' (by simpa [Sys.setFile] using hb)
  · exact h b f' (by simpa [Sys.setFile, he] using hb)

theorem pos_hold (h : ∀ b f, s.files b = some f → 0 < f.shared) :
    ∀ b f, (s.hold a).files b = some f → 0 < f.shared := by
  unfold Sys.hold
  split
  · exact h
  rename_i f hf
  have := h a f hf
  exact pos_setFile h fun f' hf' => by cases hf'; dsimp only; omega

/-- Only slots, counts and holds matter. -/
theorem Counted.congr (h : Counted s)
    (ht : s'.tables.length = s.tables.length) (hs : ∀ t fd, s'.slot t fd = s.slot t fd)
    (hh : s'.held = s.held) (hc : ∀ a, s'.sharedAt a = s.sharedAt a)
    (hp : ∀ a f, s'.files a = some f → 0 < f.shared) : Counted s' :=
  ⟨fun a => by rw [hc, h.count, holds_congr ht hs hh], hp⟩

theorem Counted.clear (h : Counted s)
    (ha : s.slot t fd = some a) : Off (s.setSlot t fd none) a 1 := by
  obtain ⟨T, hT, hlt, -⟩ := slot_some ha
  refine ⟨fun b => ?_, fun b f hf => h.pos b f (by rwa [files_setSlot] at hf)⟩
  have hmove := holds_setSlot (x := none) (table_isSome_of_slot ha) hlt b
  rw [ha, weight_some, show weight b none = 0 from rfl] at hmove
  rw [sharedAt_setSlot, h.count]
  omega

theorem Off.fill (h : Off s a 1)
    (hT : (s.table t).isSome) (hfd : fd < maxFds) (hfree : s.slot t fd = none) :
    Counted (s.setSlot t fd (some a)) := by
  refine ⟨fun b => ?_, fun b f hf => h.pos b f (by rwa [files_setSlot] at hf)⟩
  have hmove := holds_setSlot (x := some a) hT hfd b
  rw [hfree, weight_some, show weight b none = 0 from rfl] at hmove
  rw [sharedAt_setSlot, h.count]
  omega

theorem Off.put (h : Off s a 1) : Counted (vfsFilePut s a) := by
  have hcount := h.count a
  rw [if_pos rfl] at hcount
  -- whether the file stays with one hold less or goes, the others are as they were
  have hput : ∀ x : Option File, (x.map File.shared).getD 0 = s.holds a →
      (∀ f, x = some f → 0 < f.shared) → Counted (s.setFile a x) := by
    refine fun x hx hpos => ⟨fun b => ?_, pos_setFile h.pos hpos⟩
    rw [sharedAt_setFile, holds_setFile]
    split
    · next hb => rw [hb, hx]
    · next hb => rw [h.count, if_neg hb]; simp
  unfold vfsFilePut
  cases hf : s.files a with
  | none =>
    simp only [Sys.sharedAt, hf, map_none, getD_none] at hcount
    omega
  | some f =>
    simp only [Sys.sharedAt, hf, map_some, getD_some] at hcount
    dsimp only
    split
    · rename_i hmore
      exact hput _ (by simp only [map_some, getD_some]; omega)
        fun f' hf' => by cases hf'; exact hmore
    · exact hput none (by simp only [map_none, getD_none]; omega) fun f' hf' => by cases hf'

theorem sharedAt_hold (ha : ∃ f, s.files a = some f) :
    (s.hold a).sharedAt b = s.sharedAt b + if b = a then 1 else 0 := by
  obtain ⟨f, hf⟩ := ha
  unfold Sys.hold
  rw [hf]
  rw [sharedAt_setFile]
  split
  · next hb => subst hb; simp [Sys.sharedAt, hf]
  · simp

theorem holds_hold : (s.hold a).holds b = s.holds b := by
  unfold Sys.hold
  split <;> rfl

theorem Counted.hold (h : Counted s) (ha : ∃ f, s.files a = some f) : Off (s.hold a) a 1 := by
  refine ⟨fun b => ?_, pos_hold h.pos⟩
  rw [sharedAt_hold ha, holds_hold, h.count]
  split <;> rfl

theorem Counted.create (h : Counted s)
    (ha : s.files a = none) (hf : f.shared = 1) : Off (s.create a f) a 1 := by
  have hzero : s.sharedAt a = 0 := by simp [Sys.sharedAt, ha]
  refine ⟨fun b => ?_, pos_setFile h.pos fun f' hf' => by cases hf'; dsimp only; omega⟩
  show (s.setFile a (some { f with serial := s.serial })).sharedAt b = s.holds b + _
  rw [sharedAt_setFile, ← h.count]
  split
  · next hb => subst hb; simp [hzero, hf]
  · simp

/-! ## The calls -/

theorem Counted.vfsClose (h : Counted s) (t fd : Nat) : Counted (Fs.vfsClose s t fd).2 := by
  unfold Fs.vfsClose
  split
  · exact h
  · next a ha => exact (h.clear ha).put

/-- A slot that is handed out is one of a table in use, and empty. -/
theorem free_slot {lowest : Nat} (h : ((s.table t).bind fun T => T.free lowest) = some fd) :
    (s.table t).isSome ∧ fd < maxFds ∧ s.slot t fd = none := by
  obtain ⟨T, hT, hfd⟩ := bind_eq_some_iff.mp h
  obtain ⟨-, hlt, hempty⟩ := free_spec hfd
  exact ⟨by simp [hT], hlt, by simp [Sys.slot, hT, FdTable.slot, hempty]⟩

theorem Counted.opened {lowest : Nat}
    {x : Place} (h : Counted s) (hx : opens s t lowest addr = some x) :
    Counted (s.withFile x f) := by
  obtain ⟨rfl, hnone, -, hfree⟩ := opens_some hx
  obtain ⟨hT, hlt, hempty⟩ := free_slot hfree
  exact (h.create hnone rfl).fill hT hlt hempty

theorem Counted.openFile {lowest : Nat}
    (h : Counted s) : Counted (Fs.openFile s t lowest f addr).2 := by
  rw [openFile_eq]
  cases hx : opens s t lowest addr with
  | none => exact h
  | some x => exact h.opened hx

theorem Counted.vfsPipe {r w : File} {addr' : Option Addr}
    (h : Counted s) : Counted (Fs.vfsPipe s t r w addr addr').2 := by
  rw [vfsPipe_eq]
  cases hx : opens s t 3 addr with
  | none => exact h
  | some x =>
    dsimp only
    split
    · exact h
    · next y hy => exact (h.opened hx).opened hy

theorem Counted.duplicated {oldfd : Nat} {newfd : Option Nat} {x : Place}
    (h : Counted s) (hx : dups s t oldfd newfd = some x) : Counted (s.withDup x) := by
  obtain ⟨rfl, -, hlt, hne, hold⟩ := dups_some hx
  have hclosed := h.vfsClose x.t x.fd
  -- the descriptor that is copied is another one, so the file is still there
  have hstill : (Fs.vfsClose s x.t x.fd).2.slot x.t oldfd = some x.file := by
    rw [slot_vfsClose, if_neg (fun he => hne he.2), hold]
  refine (hclosed.hold (hclosed.file_of_slot hstill)).fill ?_ hlt ?_
  · rw [table_hold]
    exact table_isSome_of_slot hstill
  · rw [slot_hold, slot_vfsClose, if_pos ⟨rfl, rfl⟩]

theorem Counted.dup (h : Counted s) (t oldfd : Nat) (newfd : Option Nat) :
    Counted ((dups s t oldfd newfd).elim s s.withDup) := by
  cases hx : dups s t oldfd newfd with
  | none => exact h
  | some x => exact h.duplicated hx

theorem holds_held {l : List Addr} :
    Sys.holds { s with held := l } a + s.held.count a = s.holds a + l.count a := by
  show tally s.cells (fun p => s.slot p.1 p.2) (weight a) + l.count a + s.held.count a = _
  unfold Sys.holds
  omega

theorem count_cons_addr {l : List Addr} :
    (a :: l).count b = l.count b + if b = a then 1 else 0 := by
  simp only [count_cons, beq_iff_eq, @eq_comm _ a]

theorem Off.keep (h : Off s a 1) : Counted { s with held := a :: s.held } := by
  refine ⟨fun b => ?_, h.pos⟩
  have hmove := holds_held (s := s) (l := a :: s.held) (a := b)
  have hb := h.count b
  show s.sharedAt b = _
  rw [count_cons_addr] at hmove
  omega

section

variable (h : Counted s)

include h

theorem Counted.release (ha : a ∈ s.held) : Off { s with held := s.held.erase a } a 1 := by
  refine ⟨fun b => ?_, h.pos⟩
  have hmove := holds_held (s := s) (l := s.held.erase a) (a := b)
  have hb := h.count b
  show s.sharedAt b = _
  by_cases he : b = a
  · subst he
    rw [count_erase_self] at hmove
    have := count_pos_iff.mpr ha
    rw [if_pos rfl]
    omega
  · rw [count_erase_of_ne he] at hmove
    rw [if_neg he]
    omega

theorem Counted.vfsFileGet (t fd : Nat) : Counted (Fs.vfsFileGet s t fd) := by
  unfold Fs.vfsFileGet
  split
  · exact h
  rename_i a ha
  have hheld : (s.hold a).held = s.held := by
    unfold Sys.hold
    split <;> rfl
  rw [← hheld]
  exact (h.hold (h.file_of_slot ha)).keep

theorem Counted.vfsInstall (t : Nat) (a : Addr) : Counted (Fs.vfsInstall s t a).2 := by
  unfold Fs.vfsInstall
  split
  · rename_i ha
    split
    · exact h
    rename_i hfree
    obtain ⟨hT, hlt, hempty⟩ := free_slot hfree
    exact (h.release ha).fill hT hlt hempty
  · exact h

theorem Counted.dropHeld (a : Addr) : Counted (Fs.dropHeld s a) := by
  unfold Fs.dropHeld
  split
  · next ha => exact (h.release ha).put
  · exact h

/-! ## Tables that come and go -/

theorem Counted.setTable {T' : FdTable} (hT : s.table t = some T)
    (hs : ∀ fd, (s.setTable t T').slot t fd = s.slot t fd) : Counted (s.setTable t T') := by
  refine h.congr (by simp [Sys.setTable]) (fun t' fd => ?_) rfl (fun _ => rfl) h.pos
  by_cases ht : t' = t
  · subst ht; exact hs fd
  · unfold Sys.slot
    rw [table_setTable (by simp [hT]), if_neg ht]

theorem Counted.vfsFdTableShare (t : Nat) : Counted (Fs.vfsFdTableShare s t) := by
  unfold Fs.vfsFdTableShare
  split
  · exact h
  rename_i hT
  refine h.setTable hT fun fd => ?_
  unfold Sys.slot
  rw [table_setTable (by simp [hT]), if_pos rfl, hT]
  rfl

end

/-- A table with nothing in it can go. -/
theorem slot_drop_empty (hT : s.table t = some T) (hempty : ∀ fd, s.slot t fd = none) (fd : Nat) :
    (s.setTable t { T with refs := 0 }).slot t fd = s.slot t fd := by
  rw [hempty]
  unfold Sys.slot
  rw [table_setTable (by simp [hT]), if_pos rfl]
  rfl

theorem slot_closeAll :
    ((range maxFds).foldl (fun s fd => (vfsClose s t fd).2) s).slot t fd = none := by
  by_cases hfd : fd < maxFds
  · obtain ⟨hall, -, -⟩ := foldl_all (f := fun s fd => (vfsClose s t fd).2)
      (P := fun _ => True) (Q := fun fd s => s.slot t fd = none)
      (fun _ _ _ _ => trivial)
      (fun i _ s _ => by rw [slot_vfsClose, if_pos ⟨rfl, rfl⟩])
      (fun i _ j s _ hj => by
        rw [slot_vfsClose]
        split
        · rfl
        · exact hj) trivial
    exact hall fd (mem_range.mpr hfd)
  · unfold Sys.slot FdTable.slot
    simp [hfd]

theorem Counted.vfsFdTableDrop (h : Counted s) (t : Nat) : Counted (Fs.vfsFdTableDrop s t) := by
  unfold Fs.vfsFdTableDrop
  split
  · exact h
  rename_i hT
  split
  · refine h.setTable hT fun fd => ?_
    unfold Sys.slot
    rw [table_setTable (by simp [hT]), if_pos rfl, if_pos (by dsimp only; omega), hT]
    rfl
  · have hclosed : Counted ((range maxFds).foldl (fun s fd => (Fs.vfsClose s t fd).2) s) :=
      foldl_inv (fun fd _ s hs => hs.vfsClose t fd) h
    dsimp only
    split
    · exact hclosed
    · next T' hT' =>
        exact hclosed.setTable hT' (slot_drop_empty hT' fun fd => slot_closeAll)

theorem files_hold (hb : ∃ f, s.files b = some f) : ∃ f, (s.hold a).files b = some f := by
  unfold Sys.hold
  split
  · exact hb
  by_cases he : b = a
  · subst he
    exact ⟨_, Function.update_self ..⟩
  · rw [show (s.setFile a _).files b = s.files b from Function.update_of_ne he ..]
    exact hb

/-- Each file of the list is held once more for each time it is in it. -/
theorem sharedAt_holdAll {l : List Addr} (h : ∀ a ∈ l, ∃ f, s.files a = some f)
    (b : Addr) : (l.foldl Sys.hold s).sharedAt b = s.sharedAt b + l.count b := by
  induction l generalizing s with
  | nil => simp
  | cons a l ih =>
    rw [foldl_cons, ih fun c hc => files_hold (h c (by simp [hc])),
      sharedAt_hold (h a (by simp)), count_cons_addr]
    split <;> push_cast <;> omega

/-- The files of a table, counted slot by slot. -/
theorem count_filterMap_range (F : Nat → Option Addr) (n : Nat) (a : Addr) :
    ((range n).filterMap F).count a = tally (Finset.range n) F (weight a) := by
  unfold tally
  induction n with
  | zero => rfl
  | succ n ih =>
    rw [range_succ, filterMap_append, count_append, ih, Finset.sum_range_succ]
    cases hF : F n with
    | none => simp [hF, weight]
    | some b => simp [hF, weight, count_singleton]

theorem holds_addTable (hr : 0 < T.refs) : Sys.holds { s with tables := s.tables ++ [T] } a =
      s.holds a + tally (Finset.range maxFds) T.fds (weight a) := by
  have hold : ∀ t < s.tables.length, ∀ fd,
      Sys.slot { s with tables := s.tables ++ [T] } t fd = s.slot t fd := by
    intro t ht fd
    simp [Sys.slot, Sys.table, getElem?_append_left ht]
  have hnew : ∀ fd < maxFds, Sys.slot { s with tables := s.tables ++ [T] } s.tables.length fd
      = T.fds fd := by
    intro fd hfd
    simp [Sys.slot, Sys.table, Option.filter, hr, FdTable.slot, hfd]
  unfold Sys.holds Sys.cells
  dsimp only
  rw [length_append, length_singleton, tally_range_succ]
  have h1 : tally (Finset.range s.tables.length ×ˢ Finset.range maxFds)
      (fun p => Sys.slot { s with tables := s.tables ++ [T] } p.1 p.2) (weight a) =
      tally (Finset.range s.tables.length ×ˢ Finset.range maxFds)
        (fun p => s.slot p.1 p.2) (weight a) := by
    refine tally_congr fun p hp => ?_
    rw [hold _ (Finset.mem_range.mp (Finset.mem_product.mp hp).1)]
  have h2 : tally (Finset.range maxFds)
      (Sys.slot { s with tables := s.tables ++ [T] } s.tables.length) (weight a) =
      tally (Finset.range maxFds) T.fds (weight a) := by
    refine tally_congr fun fd hfd => ?_
    rw [hnew fd (Finset.mem_range.mp hfd)]
  rw [h2]
  omega

section

variable (h : Counted s)

include h

theorem Counted.vfsFdTableClone (t : Nat) : Counted (Fs.vfsFdTableClone s t) := by
  unfold Fs.vfsFdTableClone
  split
  · exact h
  rename_i T hT
  have hfiles : ∀ a ∈ (range maxFds).filterMap T.fds, ∃ f, s.files a = some f := by
    intro a ha
    obtain ⟨fd, hfd, hslot⟩ := mem_filterMap.mp ha
    have hs : s.slot t fd = some a := by
      simp [Sys.slot, hT, FdTable.slot, mem_range.mp hfd, hslot]
    exact h.file_of_slot hs
  have hkeep : ∀ (l : List Addr) (s : Sys), (∀ b f, s.files b = some f → 0 < f.shared) →
      (l.foldl Sys.hold s).tables = s.tables ∧ (l.foldl Sys.hold s).held = s.held ∧
        ∀ b f, (l.foldl Sys.hold s).files b = some f → 0 < f.shared := by
    intro l
    induction l with
    | nil => exact fun s hs => ⟨rfl, rfl, hs⟩
    | cons a l ih =>
      intro s hs
      obtain ⟨ht, hh, hp⟩ := ih (s.hold a) (pos_hold hs)
      rw [foldl_cons, ht, hh]
      refine ⟨?_, ?_, hp⟩ <;> unfold Sys.hold <;> split <;> rfl
  obtain ⟨htab, hheld, hpos⟩ := hkeep ((range maxFds).filterMap T.fds) s h.pos
  refine ⟨fun a => ?_, hpos⟩
  rw [holds_addTable (by exact Nat.one_pos), ← count_filterMap_range]
  show (foldl Sys.hold s _).sharedAt a = _
  rw [sharedAt_holdAll hfiles, h.count, holds_congr (by rw [htab]) (fun t fd => ?_) hheld]
  · simp
  · unfold Sys.slot Sys.table
    rw [htab]

/-! ## Epoll -/

/-- Writing a file back with the count it had. -/
theorem Counted.rewrite {f' : File} (hf : s.files a = some f) (hs : f'.shared = f.shared) :
    Counted (s.setFile a (some f')) := by
  have hpos := h.pos a f hf
  refine h.congr rfl (fun _ _ => rfl) rfl (fun b => ?_)
    (pos_setFile h.pos fun f'' hf'' => by cases hf''; omega)
  rw [sharedAt_setFile]
  split
  · next hb => subst hb; simp [Sys.sharedAt, hf, hs]
  · rfl

theorem Counted.setItems (a : Addr) (l : List Item) : Counted (s.setItems a l) := by
  unfold Sys.setItems
  split
  · next f hf => exact h.rewrite hf rfl
  · exact h

theorem Counted.epollCtl {epfd : Nat} {op : CtlOp} {ev : Event}
    {mem : Bool} : Counted (Fs.epollCtl s t epfd op fd ev mem).2 := by
  rcases epollCtl_inv s t epfd op fd ev mem with ⟨e, he, -⟩ | ⟨a, b, items, found, -, -, he, -⟩
  · rw [he]
    exact h
  rw [he]
  have hdrop := h.setItems a items
  unfold ctlSwitch
  dsimp only
  split
  · exact hdrop
  · split
    · exact hdrop
    · rename_i he
      split
      · exact hdrop
      · exact hdrop.rewrite he rfl
  · exact hdrop
  · exact hdrop.setItems _ _
  · exact hdrop
  · exact hdrop.setItems _ _
  · exact hdrop

theorem Counted.epollCollect {depth : Nat} {max : Nat} {turns : List Turn}
    (hr : Fs.epollCollect s t depth a max = some (s', turns)) : Counted s' :=
  collectLoop_rule (P := fun _ s _ => Counted s) (fun _ _ _ _ h1 _ _ => h1.setItems _ _)
    (fun _ _ _ _ h1 _ _ _ => h1) (fun _ _ _ _ _ h1 _ _ _ _ => h1.setItems _ _) rfl h hr

theorem Counted.setReady (a : Addr) (mask : UInt32) : Counted (Fs.setReady s a mask) := by
  unfold Fs.setReady
  split
  · next f hf => exact h.rewrite hf rfl
  · exact h

/-- Every step keeps the counts right. -/
theorem Counted.step (act : Act) : Counted (step s act) := by
  cases act with
  | openAt t f addr => exact h.openFile
  | install t f addr => exact h.openFile
  | pipe t r w addr addr' => exact h.vfsPipe
  | create t valid mem addr =>
    simp only [Fs.step, epollCreate]
    split
    · exact h
    split
    · exact h
    · exact h.openFile
  | close t fd => exact h.vfsClose t fd
  | dup t fd =>
    simp only [Fs.step, vfsDup]
    rw [vfsDupFrom_eq (by decide)]
    exact h.dup t fd _
  | dup2 t oldfd newfd =>
    simp only [Fs.step, vfsDup2_eq]
    exact h.dup t oldfd _
  | dupFrom t fd lowest =>
    simp only [Fs.step]
    by_cases hl : lowest < maxFds
    · rw [vfsDupFrom_eq hl]
      exact h.dup t fd _
    · unfold vfsDupFrom
      rw [if_neg hl]
      split <;> exact h
  | get t fd => exact h.vfsFileGet t fd
  | receive t a => exact h.vfsInstall t a
  | drop a => exact h.dropHeld a
  | fork t => exact h.vfsFdTableClone t
  | share t => exact h.vfsFdTableShare t
  | exit t => exact h.vfsFdTableDrop t
  | ctl t epfd op fd ev mem => exact h.epollCtl
  | collect t epfd depth max =>
    show Counted (((waitRound s t epfd depth max).map Prod.fst).getD s)
    cases hr : waitRound s t epfd depth max with
    | none => exact h
    | some r =>
      obtain ⟨a, -, hr⟩ := bind_eq_some_iff.mp hr
      exact h.epollCollect hr
  | ready a mask => exact h.setReady a mask

end

theorem Counted.init : Counted Sys.init := by
  refine ⟨fun a => ?_, fun a f hf => by cases hf⟩
  have hzero : Sys.init.holds a = 0 := by
    unfold Sys.holds
    rw [tally_eq_zero fun p _ => ?_]
    · rfl
    · have : Sys.init.slot p.1 p.2 = none := by
        unfold Sys.slot Sys.table Sys.init
        rcases p.1 with _ | n <;> simp [FdTable.slot]
      rw [this]
      rfl
  rw [hzero]
  rfl

/-- In every run a file counts its holds, and no slot names one that was freed. -/
theorem open_files_counted (acts : List Act) : let s := run step Sys.init acts
    Counted s ∧ ∀ t fd a, s.slot t fd = some a → ∃ f, s.files a = some f := by
  have h : Counted (run step Sys.init acts) :=
    run_inv (fun _ act h _ => h.step act) .init (.of_all fun _ _ => trivial)
  exact ⟨h, fun _ _ _ ha => h.file_of_slot ha⟩

end BleedKernel.Fs
