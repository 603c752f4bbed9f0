import Mathlib.Data.List.Perm.Subperm
import BleedKernel.Model.Epoll

/-!
# What the calls do to slots and interests

Two views of the state are enough for most of what follows: what each table has
at each descriptor, and which interests each epoll file lists. Every elementary
update is described once, by what it makes of the two.
-/

namespace BleedKernel.Fs

open List Option

variable {a b : Addr} {f : File} {depth fd fd' i left lowest max oldfd t t' : Nat} {l : List Item}
  {T : FdTable} {addr x : Option Addr} {it : Item} {turns : List Turn} {found : Option Nat}

variable {s s' : Sys}

/-! ## Slots -/

@[simp] theorem table_hold : (s.hold a).table t = s.table t := by
  unfold Sys.hold
  split <;> rfl

@[simp] theorem slot_hold : (s.hold a).slot t fd = s.slot t fd := by rw [Sys.slot, table_hold]; rfl

@[simp] theorem table_vfsFilePut : (vfsFilePut s a).table t = s.table t := by
  unfold vfsFilePut
  split
  · rfl
  · split <;> rfl

@[simp] theorem slot_vfsFilePut : (vfsFilePut s a).slot t fd = s.slot t fd := by
  rw [Sys.slot, table_vfsFilePut]
  rfl

@[simp] theorem slot_setItems : (s.setItems a l).slot t fd = s.slot t fd := by
  unfold Sys.setItems
  split <;> rfl

theorem table_setTable (h : (s.table t).isSome) : (s.setTable t T).table t' =
      if t' = t then (if 0 < T.refs then some T else none) else s.table t' := by
  have hlt : t < s.tables.length := by
    by_contra hge
    simp [Sys.table, getElem?_eq_none (Nat.le_of_not_lt hge)] at h
  unfold Sys.table Sys.setTable
  by_cases ht : t' = t
  · subst ht
    simp only [getElem?_set_self hlt, if_true, Option.filter, decide_eq_true_eq]
  · rw [if_neg ht, getElem?_set_ne (Ne.symm ht)]

theorem refs_of_table (h : s.table t = some T) : 0 < T.refs := by
  simpa using (filter_eq_some_iff.mp h).2

theorem slot_some (h : s.slot t fd = some a) :
    ∃ T, s.table t = some T ∧ fd < maxFds ∧ T.fds fd = some a := by
  obtain ⟨T, hT, hs⟩ := bind_eq_some_iff.mp h
  refine ⟨T, hT, ?_⟩
  unfold FdTable.slot at hs
  split at hs
  · next hlt => exact ⟨hlt, hs⟩
  · cases hs

/-- Writing a slot of a table in use. -/
theorem slot_setSlot (h : (s.table t).isSome) (hfd : fd < maxFds) :
    (s.setSlot t fd x).slot t' fd' = if t' = t ∧ fd' = fd then x else s.slot t' fd' := by
  obtain ⟨T, hT⟩ := isSome_iff_exists.mp h
  have hr := refs_of_table hT
  unfold Sys.setSlot
  rw [hT]
  show ((s.setTable t _).table t').bind _ = _
  rw [table_setTable h]
  by_cases ht : t' = t
  · subst ht
    rw [if_pos rfl, if_pos hr]
    show FdTable.slot _ fd' = _
    by_cases hf : fd' = fd
    · subst hf
      simp [FdTable.slot, hfd]
    · have hs : s.slot t' fd' = T.slot fd' := by simp [Sys.slot, hT]
      simp [FdTable.slot, hf, hs]
  · rw [if_neg ht, if_neg (fun h => ht h.1)]
    rfl

theorem table_isSome_of_slot (h : s.slot t fd = some a) : (s.table t).isSome := by
  obtain ⟨T, hT, -⟩ := slot_some h
  simp [hT]

/-- The slot that is handed out is free and within the table. -/
theorem free_spec (h : T.free lowest = some fd) : lowest ≤ fd ∧ fd < maxFds ∧ T.fds fd = none := by
  have hmem := mem_of_find?_eq_some h
  have hnone := find?_some h
  rw [mem_range'_1] at hmem
  refine ⟨hmem.1, by omega, by simpa using hnone⟩

/-! ## Interests -/

@[simp] theorem items_setSlot : (s.setSlot t fd x).items a = s.items a := by
  unfold Sys.setSlot
  split <;> rfl

theorem items_setFile {f : Option File} : (s.setFile a f).items b =
      if b = a then interests f else s.items b := by
  unfold Sys.items Sys.setFile
  by_cases hb : b = a
  · subst hb; simp
  · simp [hb]

/-- A file that is written back with its interests keeps them. -/
theorem items_rewrite {f' : File} (hf : s.files a = some f)
    (hi : interests (some f') = interests (some f)) :
    (s.setFile a (some f')).items b = s.items b := by
  rw [items_setFile]
  split
  · next hb => rw [hb, hi, ← hf]; rfl
  · rfl

@[simp] theorem items_hold : (s.hold a).items b = s.items b := by
  unfold Sys.hold
  split
  · rfl
  · next f hf => exact items_rewrite hf rfl

/-- Putting a file may be the end of it, and of its interests. -/
theorem items_vfsFilePut :
    (vfsFilePut s a).items b = s.items b ∨ b = a ∧ (vfsFilePut s a).items b = [] := by
  unfold vfsFilePut
  split
  · exact .inl rfl
  rename_i hf
  split
  · exact .inl (items_rewrite hf rfl)
  rw [items_setFile]
  split
  · next hb => exact .inr ⟨hb, rfl⟩
  · exact .inl rfl

theorem items_create (hw : f.watch.items = []) :
    (s.create a f).items b = if b = a then [] else s.items b := by
  have : (s.create a f).items b = (s.setFile a (some { f with serial := s.serial })).items b := rfl
  rw [this, items_setFile]
  simp [interests, hw]

theorem items_setItems (h : ∃ f, s.files a = some f ∧ f.type = .epoll) :
    (s.setItems a l).items b = if b = a then l else s.items b := by
  obtain ⟨f, hf, hty⟩ := h
  unfold Sys.setItems
  rw [hf]
  show (s.setFile a _).items b = _
  rw [items_setFile]
  simp [interests, hty]

theorem epoll_of_mem (h : it ∈ s.items a) : ∃ f, s.files a = some f ∧ f.type = .epoll := by
  unfold Sys.items interests at h
  split at h
  · rename_i f hf
    split at h
    · next hty => exact ⟨f, hf, hty⟩
    · cases h
  · cases h

theorem epollFromFd_some (h : epollFromFd s t fd = some a) :
    s.slot t fd = some a ∧ ∃ f, s.files a = some f ∧ f.type = .epoll := by
  obtain ⟨hs, hty⟩ := filter_eq_some_iff.mp h
  refine ⟨hs, ?_⟩
  cases hf : s.files a with
  | none => simp [hf] at hty
  | some f => exact ⟨f, rfl, by simpa [hf] using hty⟩

/-! ## Removing an interest -/

theorem swapIn_perm (rest : List Item) : (swapIn rest).Perm rest := by
  unfold swapIn
  split
  · next h => rw [getLast?_eq_none_iff.mp h]
  rename_i last h
  obtain ⟨l, rfl⟩ := getLast?_eq_some_iff.mp h
  simpa using (perm_append_singleton last l).symm

/-- `item_remove` takes out one item and keeps the others, in another order. -/
theorem itemRemove_perm {items : List Item} : (itemRemove items i).Perm (items.eraseIdx i) := by
  rw [eraseIdx_eq_take_drop_succ]
  exact (swapIn_perm _).append_left _

/-- What is said of a list of items is said of what is left of it. -/
theorem subperm_map {α β : Type*} {l l' : List α} (h : l.Subperm l') (f : α → β) :
    (l.map f).Subperm (l'.map f) := by
  obtain ⟨l1, hp, hs⟩ := h
  exact ⟨l1.map f, hp.map f, hs.map f⟩

theorem itemRemove_subperm {items : List Item} : (itemRemove items i).Subperm items :=
  itemRemove_perm.subperm.trans (eraseIdx_sublist items i).subperm

theorem itemRemove_subset {items : List Item} (h : it ∈ itemRemove items i) : it ∈ items :=
  mem_of_mem_eraseIdx (itemRemove_perm.mem_iff.mp h)

theorem length_itemRemove {items : List Item} (h : i < items.length) :
    (itemRemove items i).length + 1 = items.length := by
  rw [itemRemove_perm.length_eq, length_eraseIdx_of_lt h]
  omega

/-! ## Serial numbers -/

/-- Which file is at an address. -/
def Sys.serialAt (s : Sys) (a : Addr) : Option Nat := (s.files a).map File.serial

@[simp] theorem serialAt_setSlot : (s.setSlot t fd x).serialAt a = s.serialAt a := by
  unfold Sys.setSlot
  split <;> rfl

theorem serialAt_setFile {f : Option File} :
    (s.setFile a f).serialAt b = if b = a then f.map File.serial else s.serialAt b := by
  unfold Sys.serialAt Sys.setFile
  by_cases hb : b = a
  · subst hb; simp
  · simp [hb]

theorem serialAt_create :
    (s.create a f).serialAt b = if b = a then some s.serial else s.serialAt b := by
  have : (s.create a f).serialAt b =
      (s.setFile a (some { f with serial := s.serial })).serialAt b := rfl
  rw [this, serialAt_setFile]
  rfl

/-- A file that is written back keeps its serial number. -/
theorem serialAt_rewrite {f' : File} (hf : s.files a = some f)
    (hs : f'.serial = f.serial) : (s.setFile a (some f')).serialAt b = s.serialAt b := by
  rw [serialAt_setFile]
  split
  · next hb => subst hb; simp [Sys.serialAt, hf, hs]
  · rfl

@[simp] theorem serialAt_hold : (s.hold a).serialAt b = s.serialAt b := by
  unfold Sys.hold
  split
  · rfl
  · next f hf => exact serialAt_rewrite hf rfl

@[simp] theorem serialAt_setItems : (s.setItems a l).serialAt b = s.serialAt b := by
  unfold Sys.setItems
  split
  · next f hf => exact serialAt_rewrite hf rfl
  · rfl

theorem serialAt_vfsFilePut : (vfsFilePut s a).serialAt b = s.serialAt b ∨
      b = a ∧ (vfsFilePut s a).serialAt b = none := by
  unfold vfsFilePut
  split
  · exact .inl rfl
  rename_i hf
  split
  · exact .inl (serialAt_rewrite hf rfl)
  rw [serialAt_setFile]
  split
  · next hb => exact .inr ⟨hb, rfl⟩
  · exact .inl rfl

/-! ## Steps that only take away

Closing, removing, counting and answering: every slot, interest and file of the
state after is one of the state before. A table may be a copy of another, so a
table of the state after is compared with some table of the state before.

How much of an interest is compared is left open. Most steps do not touch the
interests they keep; a round of `epoll_wait` and a control change their marks. -/

/-- The descriptor, the address and the file an interest was registered for. -/
def Item.key (it : Item) : Nat × Addr × Nat := (it.fd, it.file, it.serial)

theorem key_eq {it0 : Item} (h : it0.key = it.key) :
    it0.fd = it.fd ∧ it0.file = it.file ∧ it0.serial = it.serial := by
  simpa [Item.key] using h

/-- Descriptors, interests and files go, and none come. -/
structure Shrinks {κ : Type} (k : Item → κ) (s s' : Sys) : Prop where
  slots : ∀ t', ∃ t, ∀ fd b, s'.slot t' fd = some b → s.slot t fd = some b
  listed : ∀ a, ((s'.items a).map k).Subperm ((s.items a).map k)
  files : ∀ b, s'.serialAt b = s.serialAt b ∨ s'.serialAt b = none

namespace Shrinks

variable {κ : Type} {k : Item → κ} {s s' s'' : Sys}

theorem refl (s : Sys) : Shrinks k s s :=
  ⟨fun t => ⟨t, fun _ _ h => h⟩, fun _ => .refl _, fun _ => .inl rfl⟩

theorem trans (h : Shrinks k s s') (h' : Shrinks k s' s'') : Shrinks k s s'' := by
  refine ⟨fun t'' => ?_, fun a => (h'.listed a).trans (h.listed a), fun b => ?_⟩
  · obtain ⟨t', ht'⟩ := h'.slots t''
    obtain ⟨t, ht⟩ := h.slots t'
    exact ⟨t, fun fd b hb => ht fd b (ht' fd b hb)⟩
  · rcases h'.files b with hb | hb
    · rw [hb]; exact h.files b
    · exact .inr hb

theorem items (h : Shrinks k s s') (a : Addr) (it : Item) (hit : it ∈ s'.items a) :
    ∃ it0 ∈ s.items a, k it0 = k it :=
  mem_map.mp ((h.listed a).subset (mem_map_of_mem hit))

/-- Nothing changes that is looked at here. -/
theorem of_same (hs : ∀ t fd, s'.slot t fd = s.slot t fd) (hi : ∀ a, s'.items a = s.items a)
    (hf : ∀ b, s'.serialAt b = s.serialAt b) : Shrinks k s s' :=
  ⟨fun t => ⟨t, fun fd b h => by rw [hs] at h; exact h⟩, fun a => by rw [hi], fun b => .inl (hf b)⟩

theorem hold (s : Sys) (a : Addr) : Shrinks k s (s.hold a) :=
  of_same (fun _ _ => slot_hold) (fun _ => items_hold) (fun _ => serialAt_hold)

theorem held (s : Sys) (l : List Addr) : Shrinks k s { s with held := l } :=
  of_same (fun _ _ => rfl) (fun _ => rfl) (fun _ => rfl)

theorem vfsFilePut (s : Sys) (a : Addr) : Shrinks k s (Fs.vfsFilePut s a) := by
  refine ⟨fun t => ⟨t, fun fd b h => by rw [slot_vfsFilePut] at h; exact h⟩,
    fun b => ?_, fun b => serialAt_vfsFilePut.imp_right And.right⟩
  rcases items_vfsFilePut with h | ⟨-, h⟩
  · rw [h]
  · rw [h]; exact nil_subperm

/-- New interests of an epoll file that it had before, up to their marks. -/
theorem setItems (h : (l.map k).Subperm ((s.items a).map k)) : Shrinks k s (s.setItems a l) := by
  refine ⟨fun t => ⟨t, fun fd b hb => by rwa [slot_setItems] at hb⟩, fun b => ?_,
    fun b => .inl serialAt_setItems⟩
  by_cases he : ∃ f, s.files a = some f ∧ f.type = .epoll
  · rw [items_setItems he]
    split
    · next hb => subst hb; exact h
    · exact .refl _
  -- what is not an epoll file has no interests to store
  unfold Sys.setItems
  split
  · rename_i f hf
    have hty : f.type ≠ .epoll := fun hty => he ⟨f, hf, hty⟩
    rw [items_setFile]
    split
    · simp [interests, hty]
    · exact .refl _
  · exact .refl _

theorem setTable {T' : FdTable} (hT : s.table t = some T)
    (hsub : ∀ fd b, T'.slot fd = some b → T.slot fd = some b) :
    Shrinks k s (s.setTable t T') := by
  refine ⟨fun t' => ⟨t', fun fd b h => ?_⟩, fun a => .refl _, fun b => .inl rfl⟩
  obtain ⟨T1, hT1, hs⟩ := bind_eq_some_iff.mp h
  rw [table_setTable (by simp [hT])] at hT1
  by_cases ht : t' = t
  · subst ht
    rw [if_pos rfl] at hT1
    split at hT1
    · cases hT1
      simp [Sys.slot, hT, hsub fd b hs]
    · cases hT1
  · rw [if_neg ht] at hT1
    simp [Sys.slot, hT1, hs]

theorem clearSlot (s : Sys) (t fd : Nat) : Shrinks k s (s.setSlot t fd none) := by
  unfold Sys.setSlot
  split
  · exact refl s
  rename_i hT
  refine setTable hT fun fd' b h => ?_
  by_cases he : fd' = fd
  · simp [FdTable.slot, he] at h
  · simpa [FdTable.slot, he] using h

theorem vfsClose (s : Sys) (t fd : Nat) : Shrinks k s (Fs.vfsClose s t fd).2 := by
  unfold Fs.vfsClose
  split
  · exact refl s
  · exact (clearSlot s t fd).trans (vfsFilePut _ _)

theorem foldl {ι : Type*} {f : Sys → ι → Sys} (hf : ∀ s i, Shrinks k s (f s i)) (l : List ι)
    (s : Sys) : Shrinks k s (l.foldl f s) := by
  induction l generalizing s with
  | nil => exact refl s
  | cons i l ih => exact (hf s i).trans (ih (f s i))

theorem vfsFileGet (s : Sys) (t fd : Nat) : Shrinks k s (Fs.vfsFileGet s t fd) := by
  unfold Fs.vfsFileGet
  split
  · exact refl s
  · exact (hold s _).trans (held _ _)

theorem dropHeld (s : Sys) (a : Addr) : Shrinks k s (Fs.dropHeld s a) := by
  unfold Fs.dropHeld
  split
  · exact (held s _).trans (vfsFilePut _ _)
  · exact refl s

theorem vfsFdTableShare (s : Sys) (t : Nat) : Shrinks k s (Fs.vfsFdTableShare s t) := by
  unfold Fs.vfsFdTableShare
  split
  · exact refl s
  · next T hT => exact setTable hT fun _ _ h => h

theorem vfsFdTableDrop (s : Sys) (t : Nat) : Shrinks k s (Fs.vfsFdTableDrop s t) := by
  unfold Fs.vfsFdTableDrop
  split
  · exact refl s
  rename_i hT
  split
  · exact setTable hT fun _ _ h => h
  have hall := foldl (k := k) (fun s => vfsClose s t) (range maxFds) s
  refine hall.trans ?_
  dsimp only
  split
  · exact refl _
  · next T' hT' => exact setTable hT' fun _ _ h => h

theorem addTable (hT : s.table t = some T) :
    Shrinks k s { s with tables := s.tables ++ [{ T with refs := 1 }] } := by
  refine ⟨fun t' => ?_, fun a => .refl _, fun b => .inl rfl⟩
  rcases Nat.lt_trichotomy t' s.tables.length with hlt | heq | hgt
  · refine ⟨t', fun fd b h => ?_⟩
    simpa [Sys.slot, Sys.table, getElem?_append_left hlt] using h
  · refine ⟨t, fun fd b h => ?_⟩
    have hnew : Sys.table { s with tables := s.tables ++ [{ T with refs := 1 }] } t'
        = some { T with refs := 1 } := by
      simp [Sys.table, heq]
    rw [Sys.slot, hnew] at h
    rw [Sys.slot, hT]
    exact h
  · refine ⟨t', fun fd b h => ?_⟩
    have hn : (s.tables ++ [{ T with refs := 1 }])[t']? = none := by
      simp
      omega
    simp [Sys.slot, Sys.table, hn] at h

theorem vfsFdTableClone (s : Sys) (t : Nat) : Shrinks k s (Fs.vfsFdTableClone s t) := by
  unfold Fs.vfsFdTableClone
  split
  · exact refl s
  rename_i T hT
  have hfold := foldl (k := k) hold ((range maxFds).filterMap T.fds) s
  refine hfold.trans (addTable (t := t) ?_)
  have : ∀ (l : List Addr) (s : Sys), (l.foldl Sys.hold s).table t = s.table t := by
    intro l
    induction l with
    | nil => exact fun _ => rfl
    | cons a l ih =>
      intro s
      rw [foldl_cons, ih, table_hold]
  rw [this, hT]

theorem setReady (s : Sys) (a : Addr) (mask : UInt32) : Shrinks k s (Fs.setReady s a mask) := by
  unfold Fs.setReady
  split
  · rename_i hf
    exact of_same (fun _ _ => rfl) (fun _ => items_rewrite hf rfl)
      (fun _ => serialAt_rewrite hf rfl)
  · exact refl s

end Shrinks

/-! ## Rounds and controls -/

theorem collectItem_key (it : Item) (ready : UInt32) (room : Bool) :
    (collectItem it ready room).after.key = it.key := by
  unfold collectItem
  dsimp only
  split <;> rfl

theorem collectItem_before (it : Item) (ready : UInt32) (room : Bool) :
    (collectItem it ready room).before = it := by
  unfold collectItem
  dsimp only
  split <;> rfl

/-- What each turn of the loop keeps, the loop keeps: a stale interest is dropped,
a disarmed one is passed over, any other one gets its turn. -/
theorem collectLoop_rule {P : Nat → Sys → List Turn → Prop}
    (hdrop : ∀ i s turns it, P i s turns → (s.items a)[i]? = some it →
      itemAlive s t it = false → P i (s.setItems a (itemRemove (s.items a) i)) turns)
    (hpass : ∀ i s turns it, P i s turns → (s.items a)[i]? = some it →
      itemAlive s t it = true → it.disarmed = true → P (i + 1) s turns)
    (hturn : ∀ i s turns it ready, P i s turns → (s.items a)[i]? = some it →
      itemAlive s t it = true → it.disarmed = false → itemReady s t depth it = some ready →
      P (i + 1) (s.setItems a ((s.items a).set i
          (collectItem it ready (decide (reports turns < max))).after))
        (turns ++ [collectItem it ready (decide (reports turns < max))])) {turns' : List Turn}
    (hleft : left + i = (s.items a).length) (h : P i s turns)
    (hr : collectLoop t depth a max left i s turns = some (s', turns')) :
    P (s'.items a).length s' turns' := by
  induction left generalizing i s turns with
  | zero =>
    cases hr
    rw [← hleft, Nat.zero_add]
    exact h
  | succ left ih =>
    have hlt : i < (s.items a).length := by omega
    have hlen : ∀ l, ((s.setItems a l).items a).length = l.length := by
      intro l
      rw [items_setItems (epoll_of_mem (getElem_mem hlt)), if_pos rfl]
    rw [collectLoop, getElem?_eq_getElem hlt] at hr
    have hit : (s.items a)[i]? = some (s.items a)[i] := getElem?_eq_getElem hlt
    dsimp only at hr
    split at hr
    · rename_i hdead
      refine ih ?_ (hdrop i s turns _ h hit (by simpa using hdead)) hr
      have := length_itemRemove hlt
      rw [hlen]
      omega
    rename_i halive
    have halive : itemAlive s t (s.items a)[i] = true := by simpa using halive
    split at hr
    · next hdis => exact ih (by omega) (hpass i s turns _ h hit halive hdis) hr
    rename_i harmed
    split at hr
    · cases hr
    rename_i ready hready
    refine ih ?_ (hturn i s turns _ ready h hit halive (by simpa using harmed) hready) hr
    rw [hlen, length_set]
    omega

/-- The interest that had a turn keeps its key. -/
theorem map_key_set (hit : l[i]? = some it) (ready : UInt32) (room : Bool) :
    (l.set i (collectItem it ready room).after).map Item.key = l.map Item.key := by
  rw [List.map_set, collectItem_key]
  obtain ⟨hlt, rfl⟩ := List.getElem?_eq_some_iff.mp hit
  rw [← List.getElem_map Item.key (h := by simpa using hlt), List.set_getElem_self]

theorem Shrinks.epollCollect (h : Fs.epollCollect s t depth a max = some (s', turns)) :
    Shrinks Item.key s s' := by
  refine collectLoop_rule (P := fun _ s1 _ => Shrinks Item.key s s1)
    (fun i s1 _ it h1 _ _ => ?_) (fun _ _ _ _ h1 _ _ _ => h1)
    (fun i s1 _ it ready h1 hit _ _ _ => ?_) rfl (refl s) h
  · exact h1.trans (setItems (subperm_map itemRemove_subperm _))
  · exact h1.trans (setItems (by rw [map_key_set hit _ _]))

theorem Shrinks.waitRound {epfd : Nat}
    (h : Fs.waitRound s t epfd depth max = some (s', turns)) : Shrinks Item.key s s' := by
  obtain ⟨a, -, h⟩ := bind_eq_some_iff.mp h
  exact epollCollect h

theorem dropStale_subperm {items : List Item} :
    (dropStale s t fd left i items found).1.Subperm items := by
  induction left generalizing i items found with
  | zero => exact .refl _
  | succ left ih =>
    rw [dropStale]
    split
    · exact .refl _
    split
    · exact ih.trans itemRemove_subperm
    · exact ih

/-- What the loop says about `fd`: where it is, or that it is not there. -/
theorem dropStale_found {items : List Item} (hleft : left + i = items.length)
    (hsome : ∀ j, found = some j → j < i ∧ ∃ it, items[j]? = some it ∧ it.fd = fd ∧
      itemAlive s t it = true)
    (hnone : found = none → ∀ it ∈ items.take i, it.fd ≠ fd) :
    (∀ j, (dropStale s t fd left i items found).2 = some j →
      ∃ it, (dropStale s t fd left i items found).1[j]? = some it ∧ it.fd = fd ∧
        itemAlive s t it = true) ∧
    ((dropStale s t fd left i items found).2 = none →
      ∀ it ∈ (dropStale s t fd left i items found).1, it.fd ≠ fd) := by
  induction left generalizing i items found with
  | zero =>
    refine ⟨fun j hj => (hsome j hj).2, fun hn it hit => hnone hn it ?_⟩
    rw [take_of_length_le (by omega)]
    exact hit
  | succ left ih =>
    have hlt : i < items.length := by omega
    have hget : items[i]? = some items[i] := getElem?_eq_getElem hlt
    rw [dropStale, hget]
    dsimp only
    have hbelow : ∀ j < i, (itemRemove items i)[j]? = items[j]? := by
      intro j hj
      unfold itemRemove
      rw [getElem?_append_left (by rw [length_take]; omega), getElem?_take, if_pos hj]
    split
    · have hlen := length_itemRemove hlt
      refine ih (by omega) (fun j hj => ?_) (fun hn it hit => ?_)
      · obtain ⟨hji, it, h⟩ := hsome j hj
        exact ⟨hji, it, by rw [hbelow j hji]; exact h⟩
      · refine hnone hn it ?_
        unfold itemRemove at hit
        rwa [take_append_of_le_length (by rw [length_take]; omega), take_take, Nat.min_self] at hit
    · rename_i halive
      refine ih (by omega) (fun j hj => ?_) (fun hn it hit => ?_)
      · split at hj
        · rename_i hfd
          cases hj
          exact ⟨Nat.lt_succ_self i, _, hget, hfd, by simpa using halive⟩
        · obtain ⟨hji, it, h⟩ := hsome j hj
          exact ⟨by omega, it, h⟩
      · split at hn
        · cases hn
        · rename_i hfd
          rw [take_succ_eq_append_getElem hlt] at hit
          rcases mem_append.mp hit with hit | hit
          · exact hnone hn it hit
          · rw [mem_singleton.mp hit]; exact hfd

theorem dropStale_all (s : Sys) (t fd : Nat) (items : List Item) :
    (∀ j, (dropStale s t fd items.length 0 items none).2 = some j →
      ∃ it, (dropStale s t fd items.length 0 items none).1[j]? = some it ∧ it.fd = fd ∧
        itemAlive s t it = true) ∧
    ((dropStale s t fd items.length 0 items none).2 = none →
      ∀ it ∈ (dropStale s t fd items.length 0 items none).1, it.fd ≠ fd) :=
  dropStale_found rfl (fun _ h => by cases h) (fun _ _ hit => by cases hit)

/-- `EPOLL_CTL_ADD` went well: the epoll file at `a` now has an interest in the
file at `b` under `fd`. -/
structure Added (s : Sys) (a b : Addr) (fd : Nat) (s' : Sys) : Prop where
  slots : ∀ t fd, s'.slot t fd = s.slot t fd
  others : ∀ a', a' ≠ a → s'.items a' = s.items a'
  listed : ∃ l it, s'.items a = l ++ [it] ∧ l.Subperm (s.items a) ∧
    it.key = (fd, b, (s.serialAt b).getD 0) ∧ it.outSeen = false ∧ ∀ it ∈ l, it.fd ≠ fd
  files : ∀ b, s'.serialAt b = s.serialAt b

theorem Added.items (h : Added s a b fd s') (a' : Addr)
    (it : Item) (hit : it ∈ s'.items a') : (∃ it0 ∈ s.items a', it0.key = it.key) ∨
      a' = a ∧ it.key = (fd, b, (s.serialAt b).getD 0) := by
  by_cases ha : a' = a
  · subst ha
    obtain ⟨l, new, he, hsub, hkey, -, -⟩ := h.listed
    rw [he] at hit
    rcases mem_append.mp hit with hit | hit
    · exact .inl ⟨it, hsub.subset hit, rfl⟩
    · rw [mem_singleton.mp hit]
      exact .inr ⟨rfl, hkey⟩
  · rw [h.others a' ha] at hit
    exact .inl ⟨it, hit, rfl⟩

theorem map_key_modify {f : Item → Item}
    (hf : ∀ it, (f it).key = it.key) : (l.modify i f).map Item.key = l.map Item.key := by
  refine ext_getElem? fun j => ?_
  rw [getElem?_map, getElem?_map, getElem?_modify]
  cases l[j]? with
  | none => rfl
  | some it =>
    show some (Item.key (if i = j then f it else it)) = some it.key
    split
    · rw [hf]
    · rfl

theorem ctlSwitch_cases {items : List Item} {op : CtlOp} {f : Addr} {ev : Event} {mem : Bool}
    (he : ∃ x, s.files a = some x ∧ x.type = .epoll) (hsub : items.Subperm (s.items a))
    (hnone : found = none → ∀ it ∈ items, it.fd ≠ fd) :
    Shrinks Item.key s (ctlSwitch s a items found op fd f ev mem).2 ∨
      op = .add ∧ Added s a f fd (ctlSwitch s a items found op fd f ev mem).2 := by
  have hdrop : Shrinks Item.key s (s.setItems a items) := .setItems (subperm_map hsub _)
  have hitems : ∀ b, (s.setItems a items).items b = if b = a then items else s.items b :=
    fun b => items_setItems he
  unfold ctlSwitch
  dsimp only
  split
  · exact .inl hdrop
  · split
    · exact .inl hdrop
    · rename_i e hf
      split
      · exact .inl hdrop
      have hty : e.type = .epoll := by
        obtain ⟨x, hx, hty⟩ := he
        unfold Sys.setItems at hf
        rw [hx] at hf
        have : e = { x with watch := { x.watch with items := items } } := by
          simpa [Sys.setFile] using hf.symm
        rw [this]
        exact hty
      have hserial : ((s.setItems a items).files f).map File.serial = s.serialAt f :=
        serialAt_setItems
      refine .inr ⟨rfl, fun _ _ => slot_setItems, fun a' ha => ?_, ⟨items,
        ⟨fd, f, ev.events, ev.data, false, false, (s.serialAt f).getD 0⟩, ?_, hsub, rfl,
        rfl, hnone rfl⟩, fun b => ?_⟩
      · rw [items_setFile, if_neg ha, hitems, if_neg ha]
      · rw [items_setFile]
        simp only [interests, hty, if_true, hserial]
      · refine Eq.trans (serialAt_rewrite hf ?_) serialAt_setItems
        rfl
  · exact .inl hdrop
  · refine .inl (hdrop.trans (.setItems ?_))
    rw [hitems, if_pos rfl, map_key_modify]
    exact fun _ => rfl
  · exact .inl hdrop
  · refine .inl (hdrop.trans (.setItems ?_))
    rw [hitems, if_pos rfl]
    exact subperm_map itemRemove_subperm _
  · exact .inl hdrop

/-- A control is refused, or it comes to the switch with the stale interests gone
and `fd` looked for. -/
theorem epollCtl_inv (s : Sys) (t epfd : Nat) (op : CtlOp) (fd : Nat) (ev : Event) (mem : Bool) :
    (∃ e, epollCtl s t epfd op fd ev mem = (.error e, s) ∧ e ≠ .eexist) ∨
      ∃ a b items found, epollFromFd s t epfd = some a ∧ s.slot t fd = some b ∧
        epollCtl s t epfd op fd ev mem = ctlSwitch s a items found op fd b ev mem ∧
        items.Subperm (s.items a) ∧
        (∀ j, found = some j → ∃ it, items[j]? = some it ∧ it.fd = fd ∧ itemAlive s t it = true) ∧
        (found = none → ∀ it ∈ items, it.fd ≠ fd) := by
  unfold epollCtl
  split
  · left
    split
    · exact ⟨_, rfl, by decide⟩
    · exact ⟨_, rfl, by decide⟩
  rename_i a ha
  split
  · exact .inl ⟨_, rfl, by decide⟩
  rename_i b hb
  split
  · exact .inl ⟨_, rfl, by decide⟩
  split
  · exact .inl ⟨_, rfl, by decide⟩
  · exact .inr ⟨a, b, _, _, ha, hb, rfl, dropStale_subperm, dropStale_all s t fd (s.items a)⟩

/-- What a control can do: it takes something away, or it adds one interest. -/
theorem epollCtl_cases (s : Sys) (t epfd : Nat) (op : CtlOp) (fd : Nat) (ev : Event) (mem : Bool) :
    Shrinks Item.key s (epollCtl s t epfd op fd ev mem).2 ∨
      op = .add ∧ ∃ a b, epollFromFd s t epfd = some a ∧ s.slot t fd = some b ∧
        Added s a b fd (epollCtl s t epfd op fd ev mem).2 := by
  rcases epollCtl_inv s t epfd op fd ev mem with
    ⟨e, he, -⟩ | ⟨a, b, items, found, ha, hb, he, hsub, -, hnone⟩
  · rw [he]
    exact .inl (.refl s)
  · rw [he]
    rcases ctlSwitch_cases (epollFromFd_some ha).2 hsub hnone with h | ⟨hop, h⟩
    · exact .inl h
    · exact .inr ⟨hop, a, b, ha, hb, h⟩

/-! ## Steps that fill a slot -/

/-- A slot of a table, and the file that it gets. -/
structure Place where
  t : Nat
  fd : Nat
  file : Addr

/-- The slot that opening a file fills. -/
def opens (s : Sys) (t lowest : Nat) (addr : Option Addr) : Option Place :=
  (kmallocFile s addr).bind fun a =>
    ((s.table t).bind fun T => T.free lowest).map fun fd => ⟨t, fd, a⟩

/-- A file that was just opened, in its slot. -/
def Sys.withFile (s : Sys) (x : Place) (f : File) : Sys :=
  (s.create x.file { f with shared := 1 }).setSlot x.t x.fd (some x.file)

/-- The slot that a duplicate fills. -/
def dups (s : Sys) (t oldfd : Nat) (newfd : Option Nat) : Option Place :=
  (s.slot t oldfd).bind fun a =>
    (newfd.filter fun fd => decide (fd < maxFds ∧ oldfd ≠ fd)).map fun fd => ⟨t, fd, a⟩

/-- A duplicate in its slot, with what was there closed. -/
def Sys.withDup (s : Sys) (x : Place) : Sys :=
  ((vfsClose s x.t x.fd).2.hold x.file).setSlot x.t x.fd (some x.file)

/-- The slots a step fills, and with which file. -/
def fills (s : Sys) : Act → List Place
  | .openAt t _ addr => (opens s t 0 addr).toList
  | .install t _ addr => (opens s t 3 addr).toList
  | .create t valid mem addr => if valid && mem then (opens s t 3 addr).toList else []
  | .pipe t r _ addr addr' =>
    match opens s t 3 addr with
    | none => []
    | some x =>
      match opens (s.withFile x (plain r)) t (x.fd + 1) addr' with
      | none => []
      | some y => [x, y]
  | .dup2 t oldfd newfd => (dups s t oldfd (some newfd)).toList
  | .dup t fd => (dups s t fd ((s.table t).bind fun T => T.free 0)).toList
  | .dupFrom t fd lowest =>
    if lowest < maxFds then (dups s t fd ((s.table t).bind fun T => T.free lowest)).toList
    else []
  | .receive t a =>
    if a ∈ s.held then (((s.table t).bind fun T => T.free 3).map fun fd => ⟨t, fd, a⟩).toList
    else []
  | _ => []

/-- One slot is filled, and what was in it before is gone. -/
structure Moved {κ : Type} (k : Item → κ) (s : Sys) (x : Place) (s' : Sys) : Prop where
  inTable : x.fd < maxFds
  others : ∀ t, t ≠ x.t → ∀ fd b, s'.slot t fd = some b → s.slot t fd = some b
  slots : ∀ fd b, s'.slot x.t fd = some b →
    fd = x.fd ∧ b = x.file ∨ fd ≠ x.fd ∧ s.slot x.t fd = some b
  listed : ∀ a, ((s'.items a).map k).Subperm ((s.items a).map k)
  files : ∀ b, s'.serialAt b = s.serialAt b ∨ s'.serialAt b = none ∨
    b = x.file ∧ s.serialAt b = none

section

variable {κ : Type} {k : Item → κ}

theorem Moved.items {x : Place} (h : Moved k s x s') (a : Addr) (it : Item)
    (hit : it ∈ s'.items a) : ∃ it0 ∈ s.items a, k it0 = k it :=
  mem_map.mp ((h.listed a).subset (mem_map_of_mem hit))

/-- The slot is written once the rest is done. -/
theorem Moved.of_setSlot {s0 : Sys} (hT : (s0.table t).isSome)
    (hfd : fd < maxFds) (hslots : ∀ t' fd' b, ¬ (t' = t ∧ fd' = fd) →
      s0.slot t' fd' = some b → s.slot t' fd' = some b)
    (hitems : ∀ a, ((s0.items a).map k).Subperm ((s.items a).map k))
    (hfiles : ∀ b, s0.serialAt b = s.serialAt b ∨ s0.serialAt b = none ∨
      b = a ∧ s.serialAt b = none) :
    Moved k s ⟨t, fd, a⟩ (s0.setSlot t fd (some a)) := by
  refine ⟨hfd, fun t' ht fd' b h => ?_, fun fd' b h => ?_, fun a' => ?_, fun b => ?_⟩
  · rw [slot_setSlot hT hfd, if_neg (fun he => ht he.1)] at h
    exact hslots t' fd' b (fun he => ht he.1) h
  · rw [slot_setSlot hT hfd] at h
    split at h
    · next he => cases h; exact .inl ⟨he.2, rfl⟩
    rename_i he
    have hne : fd' ≠ fd := fun hf => he ⟨rfl, hf⟩
    exact .inr ⟨hne, hslots t fd' b he h⟩
  · rw [items_setSlot]
    exact hitems a'
  · rw [serialAt_setSlot]
    exact hfiles b

theorem kmallocFile_some (h : kmallocFile s addr = some a) : s.files a = none := by
  simpa using (filter_eq_some_iff.mp h).2

theorem serialAt_fresh (h : s.files a = none) : s.serialAt a = none := by
  simp [Sys.serialAt, h]

theorem opens_some {x : Place} (h : opens s t lowest addr = some x) :
    x.t = t ∧ s.files x.file = none ∧ kmallocFile s addr = some x.file ∧
      ((s.table t).bind fun T => T.free lowest) = some x.fd := by
  obtain ⟨a, ha, h⟩ := bind_eq_some_iff.mp h
  obtain ⟨fd, hfd, rfl⟩ := map_eq_some_iff.mp h
  exact ⟨rfl, kmallocFile_some ha, ha, hfd⟩

/-- Opening a file fills one slot with a file that was not there. -/
theorem Moved.opened {x : Place} (h : opens s t lowest addr = some x) (hw : f.watch.items = []) :
    Moved k s x (s.withFile x f) := by
  obtain ⟨rfl, hnone, -, hfree⟩ := opens_some h
  obtain ⟨T, hT, hfd⟩ := bind_eq_some_iff.mp hfree
  refine of_setSlot ?_ (free_spec hfd).2.1 (fun t' fd' b _ h => h) ?_ ?_
  · rw [show (s.create x.file { f with shared := 1 }).table x.t = s.table x.t from rfl, hT]
    rfl
  · intro a
    rw [items_create (f := { f with shared := 1 }) hw]
    split
    · exact nil_subperm
    · exact .refl _
  · intro b
    rw [serialAt_create]
    split
    · next hb => exact .inr (.inr ⟨hb, by rw [hb]; exact serialAt_fresh hnone⟩)
    · exact .inl rfl

theorem openFile_eq :
    (openFile s t lowest f addr).2 = (opens s t lowest addr).elim s (s.withFile · f) := by
  unfold openFile opens
  cases kmallocFile s addr with
  | none => rfl
  | some a =>
    cases ((s.table t).bind fun T => T.free lowest) <;> rfl

/-- The table of the calling task stays. -/
theorem table_setSlot : ((s.setSlot t fd x).table t').isSome = (s.table t').isSome := by
  unfold Sys.setSlot
  split
  · rfl
  rename_i hT
  rw [table_setTable (by simp [hT])]
  split
  · next ht => subst ht; simp [refs_of_table hT, hT]
  · rfl

theorem table_vfsClose : ((vfsClose s t fd).2.table t').isSome = (s.table t').isSome := by
  unfold vfsClose
  split
  · rfl
  · rw [table_vfsFilePut, table_setSlot]

/-- Closing empties the slot and touches no other. -/
theorem slot_vfsClose : (vfsClose s t fd).2.slot t' fd' =
      if t' = t ∧ fd' = fd then none else s.slot t' fd' := by
  unfold vfsClose
  split
  · rename_i h
    split
    · next he => rw [he.1, he.2, h]
    · rfl
  · rename_i ha
    obtain ⟨T, hT, hlt, -⟩ := slot_some ha
    rw [slot_vfsFilePut, slot_setSlot (by simp [hT]) hlt]

theorem dups_some {newfd : Option Nat} {x : Place} (h : dups s t oldfd newfd = some x) :
    x.t = t ∧ newfd = some x.fd ∧ x.fd < maxFds ∧ oldfd ≠ x.fd ∧ s.slot t oldfd = some x.file := by
  obtain ⟨a, ha, h⟩ := bind_eq_some_iff.mp h
  obtain ⟨fd, hfd, rfl⟩ := map_eq_some_iff.mp h
  obtain ⟨hnew, hlt⟩ := filter_eq_some_iff.mp hfd
  simp only [decide_eq_true_eq] at hlt
  exact ⟨rfl, hnew, hlt.1, hlt.2, ha⟩

/-- A duplicate fills one slot with a file that is open. -/
theorem Moved.duplicated {newfd : Option Nat} {x : Place} (h : dups s t oldfd newfd = some x) :
    Moved k s x (s.withDup x) := by
  obtain ⟨rfl, -, hlt, -, hslot⟩ := dups_some h
  have hclose := Shrinks.vfsClose (k := k) s x.t x.fd
  refine of_setSlot ?_ hlt (fun t' fd' b hne hb => ?_) (fun a => ?_) (fun b => ?_)
  · rw [table_hold, table_vfsClose]
    exact table_isSome_of_slot hslot
  · rw [slot_hold, slot_vfsClose, if_neg hne] at hb
    exact hb
  · rw [items_hold]
    exact hclose.listed a
  · rw [serialAt_hold]
    exact (hclose.files b).imp_right .inl

theorem vfsDup2_eq {newfd : Nat} :
    (vfsDup2 s t oldfd newfd).2 = (dups s t oldfd (some newfd)).elim s s.withDup := by
  unfold vfsDup2 dups
  cases s.slot t oldfd with
  | none => simp
  | some a =>
    by_cases hlt : newfd < maxFds
    · by_cases he : oldfd = newfd
      · simp [hlt, he, Option.filter]
      · simp [hlt, he, Option.filter, Sys.withDup]
    · simp [hlt, Option.filter]

theorem vfsDupFrom_eq (hl : lowest < maxFds) : (vfsDupFrom s t oldfd lowest).2 =
      (dups s t oldfd ((s.table t).bind fun T => T.free lowest)).elim s s.withDup := by
  unfold vfsDupFrom
  cases hs : s.slot t oldfd with
  | none => simp [dups, hs]
  | some a =>
    simp only [hl]
    cases ((s.table t).bind fun T => T.free lowest) with
    | none => simp [dups]
    | some fd => exact vfsDup2_eq

/-- Whatever held a file passes its hold on to a slot. -/
theorem Moved.received (h : ((s.table t).bind fun T => T.free 3) = some fd) (l : List Addr) :
    Moved k s ⟨t, fd, a⟩ (Sys.setSlot { s with held := l } t fd (some a)) := by
  obtain ⟨T, hT, hfree⟩ := bind_eq_some_iff.mp h
  have htable : (Sys.table { s with held := l } t).isSome := by
    rw [show Sys.table { s with held := l } t = s.table t from rfl, hT]
    rfl
  exact of_setSlot htable (free_spec hfree).2.1 (fun _ _ _ _ hb => hb) (fun a => .refl _)
    (fun b => .inl rfl)

/-! ## Every step -/

theorem plain_items (f : File) : (plain f).watch.items = [] := by
  unfold plain
  split <;> rfl

/-- Filling a slot leaves the slots after it as free as they were. -/
theorem free_update :
    FdTable.free { T with fds := Function.update T.fds fd x } (fd + 1) = T.free (fd + 1) := by
  have hcongr : ∀ l : List Nat, fd ∉ l → l.find? (fun i => (Function.update T.fds fd x i).isNone)
        = l.find? (fun i => (T.fds i).isNone) := by
    intro l hl
    induction l with
    | nil => rfl
    | cons i l ih =>
      have hne : i ≠ fd := fun h => hl (by simp [h])
      rw [find?_cons, find?_cons, Function.update_of_ne hne, ih fun h => hl (by simp [h])]
  refine hcongr _ fun hmem => ?_
  rw [mem_range'_1] at hmem
  omega

theorem table_free_setSlot (hT : s.table t = some T) :
    (((s.create a f).setSlot t fd x).table t).bind (fun T => T.free (fd + 1)) =
      T.free (fd + 1) := by
  have hT' : (s.create a f).table t = some T := hT
  unfold Sys.setSlot
  rw [hT']
  rw [table_setTable (by simp [hT']), if_pos rfl, if_pos (refs_of_table hT)]
  exact free_update

theorem vfsPipe_eq {r w : File} {addr' : Option Addr} : (vfsPipe s t r w addr addr').2 =
      match opens s t 3 addr with
      | none => s
      | some x =>
        match opens (s.withFile x r) t (x.fd + 1) addr' with
        | none => s
        | some y => (s.withFile x r).withFile y w := by
  unfold vfsPipe opens
  cases hT : s.table t with
  | none => cases kmallocFile s addr <;> rfl
  | some T =>
    simp only [bind_some]
    cases hr : T.free 3 with
    | none => cases kmallocFile s addr <;> rfl
    | some fd =>
      cases hka : kmallocFile s addr with
      | none =>
        simp only [bind_some]
        cases T.free (fd + 1) <;> rfl
      | some a =>
        simp only [bind_some, map_some, Sys.withFile, table_free_setSlot hT]
        cases hw : T.free (fd + 1) with
        | none =>
          cases kmallocFile _ addr' <;> rfl
        | some fd' =>
          simp only [map_some]
          cases kmallocFile _ addr' <;> rfl

/-- What a step can do, apart from a control and a round: it takes away, it fills
one slot, or, for a pipe, it opens two files one after the other. The interests it
keeps it keeps as they are. -/
theorem step_cases {act : Act} (hctl : ∀ t epfd op fd ev mem, act ≠ .ctl t epfd op fd ev mem)
    (hcol : ∀ t epfd depth max, act ≠ .collect t epfd depth max) :
    Shrinks k s (step s act) ∨ (∃ x ∈ fills s act, Moved k s x (step s act)) ∨
      ∃ t r w addr addr', ∃ x ∈ fills s act, ∃ y ∈ fills s act, opens s t 3 addr = some x ∧
        opens (s.withFile x (plain r)) t (x.fd + 1) addr' = some y ∧
        step s act = (s.withFile x (plain r)).withFile y (plain w) := by
  have hfill : ∀ (o : Option Place) (g : Place → Sys), (∀ x, o = some x → Moved k s x (g x)) →
      Shrinks k s (o.elim s g) ∨ ∃ x ∈ o.toList, Moved k s x (o.elim s g) := by
    intro o g hg
    cases o with
    | none => exact .inl (.refl s)
    | some x => exact .inr ⟨x, by simp, hg x rfl⟩
  have hopen : ∀ t lowest (f : File) addr, f.watch.items = [] →
      Shrinks k s (openFile s t lowest f addr).2 ∨
        ∃ x ∈ (opens s t lowest addr).toList, Moved k s x (openFile s t lowest f addr).2 := by
    intro t lowest f addr hw
    rw [openFile_eq]
    exact hfill _ _ fun x hx => .opened hx hw
  have hdup := fun t oldfd newfd => hfill (dups s t oldfd newfd) s.withDup fun x => .duplicated
  cases act with
  | openAt t f addr => exact (hopen t 0 _ addr (plain_items f)).imp_right .inl
  | install t f addr => exact (hopen t 3 _ addr (plain_items f)).imp_right .inl
  | create t valid mem addr =>
    cases valid with
    | false => exact .inl (.refl s)
    | true =>
      cases mem with
      | false => exact .inl (.refl s)
      | true => exact (hopen t 3 _ addr rfl).imp_right .inl
  | pipe t r w addr addr' =>
    simp only [step, fills, vfsPipe_eq]
    cases hx : opens s t 3 addr with
    | none => exact .inl (.refl s)
    | some x =>
      dsimp only
      split
      · exact .inl (.refl s)
      · next y hy =>
          exact .inr (.inr ⟨t, r, w, addr, addr', x, by simp, y, by simp, hx, hy, rfl⟩)
  | close t fd => exact .inl (.vfsClose s t fd)
  | dup t fd =>
    simp only [step, vfsDup]
    rw [vfsDupFrom_eq (by decide)]
    exact (hdup t fd _).imp_right .inl
  | dup2 t oldfd newfd =>
    simp only [step, vfsDup2_eq]
    exact (hdup t oldfd _).imp_right .inl
  | dupFrom t fd lowest =>
    simp only [step, fills]
    by_cases hl : lowest < maxFds
    · rw [vfsDupFrom_eq hl, if_pos hl]
      exact (hdup t fd _).imp_right .inl
    left
    unfold vfsDupFrom
    rw [if_neg hl]
    split <;> exact .refl s
  | get t fd => exact .inl (.vfsFileGet s t fd)
  | receive t a =>
    simp only [step, vfsInstall, fills]
    split
    · split
      · exact .inl (.refl s)
      · rename_i hfd
        rw [hfd]
        exact .inr (.inl ⟨_, by simp, .received hfd _⟩)
    · exact .inl (.refl s)
  | drop a => exact .inl (.dropHeld s a)
  | fork t => exact .inl (.vfsFdTableClone s t)
  | share t => exact .inl (.vfsFdTableShare s t)
  | exit t => exact .inl (.vfsFdTableDrop s t)
  | ctl t epfd op fd ev mem => exact absurd rfl (hctl t epfd op fd ev mem)
  | collect t epfd depth max => exact absurd rfl (hcol t epfd depth max)
  | ready a mask => exact .inl (.setReady s a mask)

end

/-- What any step can do, down to the marks of interests. -/
theorem step_cases_key (s : Sys) (act : Act) : Shrinks Item.key s (step s act) ∨
      (∃ x ∈ fills s act, Moved Item.key s x (step s act)) ∨
      (∃ t r w addr addr', ∃ x ∈ fills s act, ∃ y ∈ fills s act, opens s t 3 addr = some x ∧
        opens (s.withFile x (plain r)) t (x.fd + 1) addr' = some y ∧
        step s act = (s.withFile x (plain r)).withFile y (plain w)) ∨
      ∃ t epfd fd ev mem a b, act = .ctl t epfd .add fd ev mem ∧
        epollFromFd s t epfd = some a ∧ s.slot t fd = some b ∧ Added s a b fd (step s act) := by
  by_cases hctl : ∃ t epfd op fd ev mem, act = .ctl t epfd op fd ev mem
  · obtain ⟨t, epfd, op, fd, ev, mem, rfl⟩ := hctl
    rcases epollCtl_cases s t epfd op fd ev mem with hs | ⟨rfl, a, b, ha, hb, hadd⟩
    · exact .inl hs
    · exact .inr (.inr (.inr ⟨t, epfd, fd, ev, mem, a, b, rfl, ha, hb, hadd⟩))
  by_cases hcol : ∃ t epfd depth max, act = .collect t epfd depth max
  · obtain ⟨t, epfd, depth, max, rfl⟩ := hcol
    left
    show Shrinks Item.key s (((waitRound s t epfd depth max).map Prod.fst).getD s)
    cases h : waitRound s t epfd depth max with
    | none => exact .refl s
    | some r => exact .waitRound h
  · rcases step_cases (fun t epfd op fd ev mem he => hctl ⟨t, epfd, op, fd, ev, mem, he⟩)
      (fun t epfd depth max he => hcol ⟨t, epfd, depth, max, he⟩) with h | h | h
    · exact .inl h
    · exact .inr (.inl h)
    · exact .inr (.inr (.inl h))

end BleedKernel.Fs
