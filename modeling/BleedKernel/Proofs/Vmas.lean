import BleedKernel.Proofs.AllocList
import BleedKernel.Proofs.Frames

/-!
# Every call leaves every alloc list in order

The edits of the previous file, put back into the functions that make them. A
call may fail in the middle, after one split of two, after the unmapping and
before the mapping; the lists are in order there too. So each function is walked
once, into the steps it takes, and what holds of every step holds of the call.
-/

namespace BleedKernel.Mm

open BleedKernel.Lib List

variable {l : List UserAlloc} {addr len lo pages : Nat}

/-- Every process's alloc list is in order. -/
def Listed (s : Sys) : Prop := ∀ pid, AllocsOk (s.allocs pid)

/-- A range that can be reserved. -/
structure Placed (vaddr pages : Nat) : Prop where
  nonempty : 0 < pages
  aligned : vaddr % pageSize = 0
  base : userMmapBase ≤ vaddr
  limit : vaddr + pages * pageSize ≤ userMmapLimit

namespace Listed

variable {s s' : Sys} {pid : Nat}

theorem same (h : Listed s) (hs : SameProcs s s') : Listed s' := fun q => by
  rw [hs.allocs]; exact h q

theorem setAllocs (h : Listed s) (hl : AllocsOk l) : Listed (s.setAllocs pid l) := fun q => by
  rw [Sys.allocs_setAllocs]
  split
  · exact hl
  · exact h q

theorem modify (pid : Nat) {g : UserAlloc → UserAlloc} (base : Nat) (h : Listed s)
    (hg : ∀ a, (g a).vaddr = a.vaddr ∧ (g a).pages = a.pages) :
    Listed (s.setAllocs pid (allocModify g (s.allocs pid) base)) :=
  h.setAllocs ((h pid).modify hg)

end Listed

/-! ## The steps of a call -/

/-- A step of a call that edits alloc lists. Under `ok` the list it puts in place
is in order if the one before was; `R` is what else the call does. -/
inductive Edit (R : Sys → Sys → Prop) (ok : Prop) (s : Sys) : Sys → Prop
  | kmalloc : Edit R ok s s.kmalloc.2
  | copy (a : UserAlloc) : Edit R ok s (userAllocCopy s a)
  | free (a : UserAlloc) : Edit R ok s (userAllocFree s a)
  | unmap (cr3 : Cr3) (virt pages : Nat) :
      Edit R ok s { s with mm := vmmUnmapFreePages s.mm cr3 virt pages }
  | allocs {pid : Nat} {l : List UserAlloc} (h : ok → AllocsOk (s.allocs pid) → AllocsOk l) :
      Edit R ok s (s.setAllocs pid l)
  | other {t : Sys} (h : R s t) : Edit R ok s t

/-- Any number of steps. -/
abbrev Edits (R : Sys → Sys → Prop) (ok : Prop) : Sys → Sys → Prop :=
  Relation.ReflTransGen (Edit R ok)

section steps

variable {R : Sys → Sys → Prop} {ok ok' : Prop} {s t : Sys} {pid : Nat}

theorem Edit.cases (h : Edit SameProcs ok s t) : SameProcs s t ∨ ∃ pid l,
    (ok → AllocsOk (s.allocs pid) → AllocsOk l) ∧ t = s.setAllocs pid l := by
  cases h with
  | kmalloc => exact .inl (kmalloc_same s).toSameProcs
  | copy a => exact .inl (userAllocCopy_same s a).toSameProcs
  | free a => exact .inl (userAllocFree_same s a).toSameProcs
  | unmap cr3 virt pages => exact .inl (.mm _)
  | allocs h => exact .inr ⟨_, _, h, rfl⟩
  | other h => exact .inl h

namespace Edits

theorem mono (h : Edits R ok s t) (hi : ok' → ok) : Edits R ok' s t := by
  refine Relation.ReflTransGen.mono (fun s t he => ?_) s t h
  cases he with
  | kmalloc => exact .kmalloc
  | copy a => exact .copy a
  | free a => exact .free a
  | unmap cr3 virt pages => exact .unmap cr3 virt pages
  | allocs h => exact .allocs fun hok => h (hi hok)
  | other h => exact .other h

theorem tasks (h : Edits SameProcs ok s t) : SameTasks s t := by
  induction h with
  | refl => exact .rfl'
  | tail _ he ih =>
    rcases he.cases with hs | ⟨_, _, -, rfl⟩
    · exact ih.trans hs.tasks
    · exact ih.trans (.setAllocs _)

theorem listed (h : Edits SameProcs ok s t) (hok : ok) (hl : Listed s) : Listed t := by
  induction h with
  | refl => exact hl
  | tail _ he ih =>
    rcases he.cases with hs | ⟨pid, _, hi, rfl⟩
    · exact ih.same hs
    · exact ih.setAllocs (hi hok (ih pid))

theorem same (h : Edits SameProcs ok s t) {t' : Sys} (hs : SameProcs t t') :
    Edits SameProcs ok s t' := h.tail (.other hs)

theorem modify (pid base : Nat) {g : UserAlloc → UserAlloc} (h : Edits R ok s t)
    (hg : ∀ a, (g a).vaddr = a.vaddr ∧ (g a).pages = a.pages) :
    Edits R ok s (t.setAllocs pid (allocModify g (t.allocs pid) base)) :=
  h.tail (.allocs fun _ hl => hl.modify hg)

end Edits

/-! ## Splitting and letting go -/

theorem allocSplit_edits (s : Sys) (pid va : Nat) :
    Edits R (va % pageSize = 0) s (allocSplit s pid va).2 := by
  have hk : Edits R (va % pageSize = 0) s s.kmalloc.2 := .single .kmalloc
  have hs := kmalloc_same s
  unfold allocSplit
  split
  · exact .refl
  rename_i a ha
  split
  · exact .refl
  rename_i hne
  split
  · next he => rw [he] at hk; exact hk
  rename_i s1 he
  rw [he] at hk hs
  have hc := hs.trans (userAllocCopy_same s1 a)
  refine (hk.tail (.copy a)).tail (.allocs fun hva hl => hl.split hva fun b hb => ?_)
  rw [hc.allocs, ha] at hb
  cases hb
  exact hne

theorem taskMmapRelease_edits (s : Sys) (pid addr : Nat) :
    Edits R True s (taskMmapRelease s pid addr) := by
  unfold taskMmapRelease
  split
  · exact .refl
  · next hu => exact (Relation.ReflTransGen.single
      (.allocs fun _ hl => (hl.unlink hu).1)).tail (.free _)

theorem taskMunmap_edits (s : Sys) (pid addr : Nat) : Edits R True s (taskMunmap s pid addr) := by
  unfold taskMunmap
  split
  · exact .refl
  · next hu => exact ((Relation.ReflTransGen.single
      (.allocs fun _ hl => (hl.unlink hu).1)).tail (.unmap _ _ _)).tail (.free _)

/-- The nodes the loop of `task_vma_unmap` keeps are some of the nodes. -/
theorem kept_sublist (l : List UserAlloc) (p q : UserAlloc → Bool) :
    ((l.takeWhile p).filter q ++ l.dropWhile p).Sublist l := by
  have := filter_sublist (p := q) (l := l.takeWhile p)
  have h := this.append (List.Sublist.refl (l.dropWhile p))
  rwa [takeWhile_append_dropWhile] at h

/-- The range of a call on mappings. -/
def Paged (addr len : Nat) : Prop := addr % pageSize = 0 ∧ len % pageSize = 0

theorem Paged.fin (h : Paged addr len) : (addr + len) % pageSize = 0 := by
  obtain ⟨_, _⟩ := h
  unfold pageSize at *
  omega

theorem taskVmaUnmap_edits (s : Sys) (pid addr len : Nat) :
    Edits R (Paged addr len) s (taskVmaUnmap s pid addr len).2 := by
  have h1 := (allocSplit_edits (R := R) s pid addr).mono (And.left (b := len % pageSize = 0))
  unfold taskVmaUnmap
  dsimp only
  split
  · next he => rw [he] at h1; exact h1
  rename_i s1 he
  rw [he] at h1
  have h2 := h1.trans ((allocSplit_edits s1 pid (addr + len)).mono Paged.fin)
  split
  · next he2 => rw [he2] at h2; exact h2
  rename_i he2
  rw [he2] at h2
  refine foldl_inv (fun _ _ _ h => (h.tail (.unmap _ _ _)).tail (.free _))
    (h2.tail (.allocs fun _ hl => hl.sublist (kept_sublist _ _ _)))

/-! ## Reserving -/

theorem base_le_reserveLoop (pages : Nat)
    (h : AllocsFrom lo l) : lo ≤ (reserveLoop pages lo l).1 := by
  induction l generalizing lo with
  | nil => exact Nat.le_refl _
  | cons a l ih =>
    rw [reserveLoop]
    split
    · exact Nat.le_refl _
    have := ih h.tail
    have := h.ranges.1
    have := h.ranges.2.1
    dsimp only
    omega

theorem reserveLoop_append (pages lo : Nat) (l : List UserAlloc) :
    (reserveLoop pages lo l).2.1 ++ (reserveLoop pages lo l).2.2 = l := by
  induction l generalizing lo with
  | nil => rfl
  | cons a l ih =>
    rw [reserveLoop]
    split
    · rfl
    · exact congrArg (a :: ·) (ih a.allocEnd)

theorem reserveAtLoop_append {fin : Nat} {l : List UserAlloc}
    {r : List UserAlloc × List UserAlloc} (h : reserveAtLoop addr fin l = some r) :
    r.1 ++ r.2 = l := by
  induction l generalizing r with
  | nil => cases h; rfl
  | cons a l ih =>
    rw [reserveAtLoop] at h
    split at h
    · cases h; rfl
    split at h
    · cases h
    · obtain ⟨r', hr', rfl⟩ := Option.map_eq_some_iff.mp h
      exact congrArg (a :: ·) (ih hr')

/-- What reserving a range comes to; `B` is where it may be. -/
inductive Reserving (B : Nat → Prop) (s : Sys) (pid pages : Nat) : Option Nat → Sys → Prop
  | refused : Reserving B s pid pages none s
  | short {t : Sys} (hk : s.kmalloc.2 = t) : Reserving B s pid pages none t
  | takes {t : Sys} {base : Nat} {xs ys : List UserAlloc} (hk : s.kmalloc.2 = t) (hb : B base)
      (happ : xs ++ ys = s.allocs pid) (hok : AllocsOk (s.allocs pid) → Placed base pages ∧
        AllocsOk (xs ++ UserAlloc.reserved base pages :: ys)) :
      Reserving B s pid pages (some base)
        (t.setAllocs pid (xs ++ UserAlloc.reserved base pages :: ys))

theorem taskMmapReserve_reserving (s : Sys) (pid pages : Nat) :
    Reserving (fun _ => True) s pid pages
      (taskMmapReserve s pid pages).1 (taskMmapReserve s pid pages).2 := by
  unfold taskMmapReserve
  split
  · exact .refused
  dsimp only
  split
  · exact .refused
  split
  · exact .refused
  split
  · next he => exact .short (congrArg Prod.snd he)
  rename_i he
  refine .takes (congrArg Prod.snd he) trivial (reserveLoop_append _ _ _) fun h => ?_
  obtain ⟨hl, hal⟩ := h.reserve pages (by omega) (by decide) (by omega)
  have hb := base_le_reserveLoop pages h
  exact ⟨⟨by omega, hal, hb, by unfold pageSize at *; omega⟩, hl⟩

theorem taskMmapReserveAt_reserving (s : Sys) (pid addr pages : Nat) :
    Reserving (· = addr) s pid pages
      (taskMmapReserveAt s pid addr pages).1 (taskMmapReserveAt s pid addr pages).2 := by
  unfold taskMmapReserveAt
  split
  · exact .refused
  split
  · exact .refused
  split
  · exact .refused
  have hfit : addr + pages * pageSize ≤ userMmapLimit := by
    unfold pageSize at *; omega
  split
  · exact .refused
  rename_i hr
  split
  · next he => exact .short (congrArg Prod.snd he)
  rename_i he
  exact .takes (congrArg Prod.snd he) rfl (reserveAtLoop_append hr) fun h =>
    ⟨⟨by omega, by omega, by omega, hfit⟩, h.reserveAt (by omega) (by omega) (by omega) hfit hr⟩

namespace Reserving

variable {B : Nat → Prop} {o : Option Nat} {base : Nat}

theorem edits (h : Reserving B s pid pages o t) : Edits R True s t := by
  cases h with
  | refused => exact .refl
  | short hk => exact hk ▸ .single .kmalloc
  | takes hk hb happ hok =>
    subst hk
    exact (Relation.ReflTransGen.single .kmalloc).tail (.allocs fun _ hl =>
      (hok ((kmalloc_same s).allocs pid ▸ hl)).2)

theorem placed (h : Reserving B s pid pages (some base) t) (hl : Listed s) :
    B base ∧ Placed base pages := by
  cases h with
  | takes hk hb happ hok => exact ⟨hb, (hok (hl pid)).1⟩

end Reserving

theorem taskMmapReserve_edits (s : Sys) (pid pages : Nat) :
    Edits R True s (taskMmapReserve s pid pages).2 :=
  (taskMmapReserve_reserving s pid pages).edits

theorem taskMmapReserveAt_edits (s : Sys) (pid addr pages : Nat) :
    Edits R True s (taskMmapReserveAt s pid addr pages).2 :=
  (taskMmapReserveAt_reserving s pid addr pages).edits

/-! ## Mapping -/

/-- What `vmaPlace` tries, and what it gets. -/
inductive Placing (s : Sys) (pid hint len : Nat) : Option Nat → Sys → Prop
  | refused : Placing s pid hint len none s
  | kept {t : Sys} (hal : hint % pageSize = 0) {e : Errno}
      (h : taskVmaUnmap s pid hint len = (.error e, t)) : Placing s pid hint len none t
  | replaced {s0 t : Sys} {o : Option Nat} (hal : hint % pageSize = 0)
      (hu : taskVmaUnmap s pid hint len = (.ok (), s0))
      (h : Reserving (· = hint) s0 pid (len / pageSize) o t) : Placing s pid hint len o t
  | free {s0 t : Sys} {o : Option Nat} {B : Nat → Prop}
      (h0 : s0 = s ∨ Reserving (· = pageAlignDown hint) s pid (len / pageSize) none s0)
      (h : Reserving B s0 pid (len / pageSize) o t) : Placing s pid hint len o t

theorem vmaPlace_placing (s : Sys) (pid hint len : Nat) (flags : MapFlags) :
    Placing s pid hint len (vmaPlace s pid hint len flags).1.toOption
      (vmaPlace s pid hint len flags).2 := by
  have hat : ∀ s a, Reserving (· = a) s pid (len / pageSize) _ _ := fun s a =>
    taskMmapReserveAt_reserving s pid a (len / pageSize)
  unfold vmaPlace
  dsimp only
  split
  · split
    · exact .refused
    split
    · exact .refused
    have hal : hint % pageSize = 0 := by omega
    by_cases hnr : flags.fixedNoreplace = true
    · have hr := hat s hint
      rw [if_pos hnr]
      dsimp only
      split
      · next he => rw [he] at hr; exact .free (.inl rfl) hr
      · next he => rw [he] at hr; exact .free (.inl rfl) hr
    rw [if_neg hnr]
    split
    · next he => exact .kept hal he
    rename_i s1 hu
    have hr := hat s1 hint
    split
    · next he => rw [he] at hr; exact .replaced hal hu hr
    · next he => rw [he] at hr; exact .replaced hal hu hr
  · have hlast : ∀ s0,
        (s0 = s ∨ Reserving (· = pageAlignDown hint) s pid (len / pageSize) none s0) →
        Placing s pid hint len (taskMmapReserve s0 pid (len / pageSize)).1
          (taskMmapReserve s0 pid (len / pageSize)).2 := fun s0 h0 =>
      .free h0 (taskMmapReserve_reserving s0 pid (len / pageSize))
    by_cases h0 : hint = 0
    · rw [if_neg (by simpa using h0)]
      dsimp only
      have hr := hlast s (.inl rfl)
      split
      · next he => rw [he] at hr; exact hr
      · next he => rw [he] at hr; exact hr
    have hr := hat s (pageAlignDown hint)
    rw [if_pos h0]
    split
    · next he => rw [he] at hr; exact .free (.inl rfl) hr
    rename_i he
    rw [he] at hr
    have hr := hlast _ (.inr hr)
    split
    · next he => rw [he] at hr; exact hr
    · next he => rw [he] at hr; exact hr

namespace Placing

variable {hint base : Nat} {o : Option Nat}

theorem edits (h : Placing s pid hint len o t) : Edits R (len % pageSize = 0) s t := by
  have hu : hint % pageSize = 0 → Edits R (len % pageSize = 0) s _ := fun hal =>
    (taskVmaUnmap_edits s pid hint len).mono fun hl => ⟨hal, hl⟩
  cases h with
  | refused => exact .refl
  | kept hal h => have := hu hal; rw [h] at this; exact this
  | replaced hal hs h =>
    have := hu hal
    rw [hs] at this
    exact this.trans (h.edits.mono fun _ => trivial)
  | free h0 h =>
    have ht := h.edits (R := R) |>.mono fun _ : len % pageSize = 0 => trivial
    rcases h0 with rfl | h0
    · exact ht
    · exact (h0.edits.mono fun _ => trivial).trans ht

theorem placed (h : Placing s pid hint len (some base) t) (hl : Listed s)
    (hlen : len % pageSize = 0) : Placed base (len / pageSize) := by
  cases h with
  | replaced hal hs h =>
    have := (taskVmaUnmap_edits s pid hint len).listed ⟨hal, hlen⟩ hl
    rw [hs] at this
    exact (h.placed this).2
  | free h0 h =>
    rcases h0 with rfl | h0
    · exact (h.placed hl).2
    · exact (h.placed (h0.edits.listed trivial hl)).2

end Placing

theorem vmaPlace_edits (s : Sys) (pid hint len : Nat) (flags : MapFlags) :
    Edits R (len % pageSize = 0) s (vmaPlace s pid hint len flags).2 :=
  (vmaPlace_placing s pid hint len flags).edits

theorem vmaPlace_placed {hint base : Nat} {flags : MapFlags} (hl : Listed s)
    (hlen : len % pageSize = 0) (h : vmaPlace s pid hint len flags = (.ok base, t)) :
    Placed base (len / pageSize) := by
  have hp := vmaPlace_placing s pid hint len flags
  rw [h] at hp
  exact hp.placed hl hlen

theorem faultInAll_same (s : Sys) (pid n base : Nat) : SameProcs s (forEach
      (fun i s => taskFaultIn s pid (base + i * pageSize) false false)
      (range n) s).2 :=
  forEach_inv (fun _ _ _ ht => ht.trans (taskFaultIn_same _ _ _ _ _)) .rfl'

theorem taskVmaMap_edits (s : Sys) (pid hint len : Nat) (prot : Prot) (flags : MapFlags) :
    Edits SameProcs (Listed s ∧ len % pageSize = 0) s (taskVmaMap s pid hint len prot flags).2 := by
  have hp := (vmaPlace_edits (R := SameProcs) s pid hint len flags).mono (And.right (a := Listed s))
  unfold taskVmaMap
  dsimp only
  split
  · exact .refl
  split
  · next he => rw [he] at hp; exact hp
  rename_i base s1 he
  rw [he] at hp
  have hu : ∀ t, Edits SameProcs (Listed s ∧ len % pageSize = 0) t _ := fun t =>
    (taskVmaUnmap_edits t pid base len).mono fun h => ⟨(vmaPlace_placed h.1 h.2 he).aligned, h.2⟩
  have h1 := hp.modify pid base (g := (·.withProt prot)) fun _ => ⟨rfl, rfl⟩
  split
  · split
    · exact (h1.same (.mm _)).trans (hu _)
    · exact h1.same (.mm _)
  have h2 := h1.modify pid base
    (g := fun a => { a with lazy := true, shared := false, nowrite := false })
    fun _ => ⟨rfl, rfl⟩
  split
  · have h3 := h2.same (faultInAll_same _ pid (len / pageSize) base)
    split
    · next hf => rw [hf] at h3; exact h3.trans (hu _)
    · next hf => rw [hf] at h3; exact h3
  · exact h2

theorem attachFile_edits (s : Sys) (pid base : Nat) (inode : Backing) (offset : Nat)
    (shared nowrite : Bool) :
    Edits SameProcs True s (attachFile s pid base inode offset shared nowrite) := by
  have h1 := (Edits.modify pid base (g := UserAlloc.ofFile inode offset shared nowrite)
    (Relation.ReflTransGen.refl : Edits SameProcs True s s) fun _ => ⟨rfl, rfl⟩).same
      (vfsHold_same _ inode).toSameProcs
  unfold attachFile
  dsimp only
  split
  · exact h1.same (memfdTrackWriter_same _ _ _).toSameProcs
  · exact h1

theorem taskVmaMapFile_edits (s : Sys) (pid hint len : Nat) (prot : Prot)
    (flags : MapFlags) (inode : Backing) (offset : Nat) :
    Edits SameProcs (Listed s ∧ len % pageSize = 0) s
      (taskVmaMapFile s pid hint len prot flags inode offset).2 := by
  have hs := (probeWriter_same s inode (decide (flags.type ≠ .private_) && prot.write)).toSameProcs
  have hw : Edits SameProcs (Listed s ∧ len % pageSize = 0) s _ := .single (.other hs)
  unfold taskVmaMapFile
  dsimp only
  split
  · next he => rw [he] at hw; exact hw
  rename_i s1 he
  rw [he] at hs hw
  have hm := hw.trans ((taskVmaMap_edits s1 pid hint len prot flags.forFile).mono
    fun h => ⟨h.1.same hs, h.2⟩)
  split
  · next hr => rw [hr] at hm; exact hm
  rename_i base s2 hr
  rw [hr] at hm
  have h2 := hm.trans ((attachFile_edits s2 pid base inode offset
    (decide (flags.type ≠ .private_)) flags.kernelNowrite).mono fun _ => trivial)
  split
  · exact h2.tail (.other (foldl_inv (fun _ _ _ ht => ht.trans (taskFaultIn_same _ _ _ _ _)) .rfl'))
  · exact h2

/-! ## Protecting -/

/-- Protecting changes what the nodes allow and not where they are. -/
theorem AllocsFrom.protectFrom {fin : Nat} {prot : Prot} :
    AllocsFrom lo l → AllocsFrom lo (protectFrom fin prot l s).2.1 := by
  induction l generalizing lo s with
  | nil => exact id
  | cons a l ih =>
    intro h
    rw [Mm.protectFrom]
    split
    · split
      · exact h
      · exact ⟨⟨h.ranges.1, h.ranges.2.1, (ih h.tail).ranges⟩, fun b hb => by
          rcases mem_cons.mp hb with rfl | hb
          · exact h.aligned a (by simp)
          · exact (ih h.tail).aligned b hb⟩
    · exact h

theorem AllocsFrom.protectAllocs (addr fin : Nat) (prot : Prot) :
    AllocsFrom lo l → AllocsFrom lo (protectAllocs addr fin prot l s).2.1 := by
  induction l generalizing lo with
  | nil => exact id
  | cons a l ih =>
    intro h
    rw [Mm.protectAllocs]
    split
    · exact h
    split
    · exact h.protectFrom
    · exact h.cons (ih h.tail)

theorem taskVmaProtect_edits (s : Sys) (pid addr len : Nat) (prot : Prot) :
    Edits SameProcs (Paged addr len) s (taskVmaProtect s pid addr len prot).2 := by
  have h1 := (allocSplit_edits (R := SameProcs) s pid addr).mono
    (And.left (b := len % pageSize = 0))
  unfold taskVmaProtect
  dsimp only
  split
  · exact .refl
  split
  · next he => rw [he] at h1; exact h1
  rename_i s1 he
  rw [he] at h1
  have h2 := h1.trans ((allocSplit_edits s1 pid (addr + len)).mono Paged.fin)
  split
  · next he2 => rw [he2] at h2; exact h2
  rename_i s2 he2
  rw [he2] at h2
  have hs := protectAllocs_same addr (addr + len) prot (s2.allocs pid) s2
  have hp : AllocsOk (s2.allocs pid) → AllocsOk _ :=
    AllocsFrom.protectAllocs (s := s2) addr (addr + len) prot
  have h3 := h2.tail (.other hs)
  split
  · exact h2
  split
  · rename_i hr
    rw [hr] at hs hp h3
    exact h3.tail (.allocs fun _ hl => hp (hs.allocs pid ▸ hl))
  · rename_i hr
    rw [hr] at hs hp h3
    exact (h3.tail (.allocs fun _ hl => hp (hs.allocs pid ▸ hl))).tail (.other (.mm _))

/-! ## Giving a range away -/

/-- Pages of user memory. -/
abbrev InUser (addr pages : Nat) : Prop :=
  addr % pageSize = 0 ∧ pages ≤ userStackTop / pageSize

theorem ipcDetachAllocRange_edits (s : Sys) (pid addr pages : Nat) :
    Edits R (InUser addr pages) s (ipcDetachAllocRange s pid addr pages).2 := by
  unfold ipcDetachAllocRange
  split
  · exact .refl
  dsimp only
  split
  · exact .refl
  split
  · exact .refl
  rename_i a l hd
  have hl : InUser addr pages → AllocsOk (s.allocs pid) → AllocsOk l := fun ⟨ha, hp⟩ h => by
    have hend : (addr + pages * pageSize) % 2 ^ 64 = addr + pages * pageSize := by
      unfold userStackTop pageSize at *
      omega
    exact h.detach ha hend (by omega) hd
  have hset : Edits R (InUser addr pages) s _ := .single (.allocs hl)
  split
  · exact hset.tail (.free _)
  · exact hset
  · exact hset
  · have hk := kmalloc_same s
    have h1 : Edits R (InUser addr pages) s _ := .single .kmalloc
    split
    · next he => rw [he] at h1; exact h1
    rename_i s1 he
    rw [he] at h1 hk
    exact (h1.tail (.copy a)).tail (.allocs fun hok h => hl hok
      ((hk.trans (userAllocCopy_same s1 a)).allocs pid ▸ h))

/-! ## System calls -/

theorem vmaLen_aligned (addr len : Nat) : vmaLen addr len % pageSize = 0 := by
  unfold vmaLen
  split
  · rfl
  · exact Nat.mul_mod_left _ _

theorem sysMunmap_edits (s : Sys) (pid addr len : Nat) :
    Edits R True s (sysMunmap s pid addr len).2 := by
  unfold sysMunmap
  split
  · exact .refl
  split
  · exact taskMunmap_edits _ _ _
  dsimp only
  split
  · exact .refl
  · exact (taskVmaUnmap_edits _ _ _ _).mono fun _ => ⟨by omega, vmaLen_aligned _ _⟩

theorem sysMprotect_edits (s : Sys) (pid addr len prot : Nat) :
    Edits SameProcs True s (sysMprotect s pid addr len prot).2 := by
  rcases sysMprotect_cases s pid addr len prot with ⟨r, he⟩ | ⟨pr, -, hal, -, hc⟩
  · rw [he]
  have hp := (taskVmaProtect_edits s pid addr (mprotectLen addr len) pr).mono
    fun _ : True => ⟨hal, by unfold mprotectLen pageAlignUp pageSize at *; omega⟩
  rcases hc with he | ⟨s1, hp1, r, he | ⟨-, he⟩⟩
  · rw [he]; exact hp
  · rw [hp1] at hp
    rw [he]; exact hp
  · rw [hp1] at hp
    rw [he]; exact hp.same (.mm _)

theorem sysMapfb_edits (s : Sys) (pid outPages : Nat) (fb : Frame) (pages : Nat) :
    Edits SameProcs True s (sysMapfb s pid outPages fb pages).2 := by
  have hc : Edits SameProcs True s _ :=
    .single (.other (copyToUser_same s pid outPages (leBytes pages)))
  unfold sysMapfb
  split
  · exact .refl
  split
  · next he => rw [he] at hc; exact hc
  rename_i s1 he
  rw [he] at hc
  have hr := hc.trans (taskMmapReserve_edits s1 pid pages)
  split
  · next hm => rw [hm] at hr; exact hr
  · next hm => rw [hm] at hr; exact hr.tail (.other (.mm _))

theorem shmMap_edits (s : Sys) (pid id ptr : Nat) :
    Edits SameProcs True s (shmMap s pid id ptr).2 := by
  unfold shmMap
  split
  · exact .refl
  split
  · exact .refl
  rename_i obj _
  have hr := taskMmapReserve_edits (R := SameProcs) s pid obj.frames.length
  split
  · next hm => rw [hm] at hr; exact hr
  rename_i s1 hm
  rw [hm] at hr
  dsimp only
  generalize shmMapFrames _ _ _ _ _ = mm
  replace hr := hr.same (.mm mm)
  split
  · have hc := hr.same (copyToUser_same { s1 with mm } pid ptr (leBytes obj.frames.length))
    split
    · next he => rw [he] at hc; exact hc.trans (taskMunmap_edits _ _ _)
    · next he => rw [he] at hc; exact hc
  · exact hr

theorem shmMapAt_edits (s : Sys) (pid id first pages addr : Nat) :
    Edits SameProcs True s (shmMapAt s pid id first pages addr).2 := by
  unfold shmMapAt
  split
  · exact .refl
  split
  · exact .refl
  split
  · exact .refl
  have hr := taskMmapReserveAt_edits (R := SameProcs) s pid addr pages
  split
  · next hm => rw [hm] at hr; exact hr
  · next hm => rw [hm] at hr; exact hr.same (.mm _)

/-! ## What sending and receiving do to the queues -/

theorem ipcSendPages_cases (s : Sys) (pid target addr pages : Nat) :
    (∃ r s1, ipcSendPages s pid target addr pages = (r, none, s1) ∧ Edits SameProcs True s s1) ∨
    ∃ msg s1, ipcSendPages s pid target addr pages
        = (.ok (), some msg, s1.setQueue target (s1.queue target ++ [msg])) ∧
      Edits SameProcs True s s1 ∧ (s.proc target).any (·.live) = true := by
  unfold ipcSendPages
  split
  · exact .inl ⟨_, _, rfl, .refl⟩
  split
  · exact .inl ⟨_, _, rfl, .refl⟩
  rename_i hpages
  split
  · exact .inl ⟨_, _, rfl, .refl⟩
  rename_i hlive
  have hv : Edits SameProcs True s _ :=
    .single (.other (ipcValidateSendRange_same s pid addr pages))
  split
  · next he => rw [he] at hv; exact .inl ⟨_, _, rfl, hv⟩
  rename_i he
  have hal : addr % pageSize = 0 := by
    unfold ipcValidateSendRange at he
    split at he
    · cases he
    split at he
    · cases he
    · omega
  rw [he] at hv
  have hk1 := hv.tail .kmalloc
  split
  · next hk => rw [hk] at hk1; exact .inl ⟨_, _, rfl, hk1⟩
  rename_i hk
  rw [hk] at hk1
  have hk2 := hk1.tail .kmalloc
  split
  · next hk' => rw [hk'] at hk2; exact .inl ⟨_, _, rfl, hk2⟩
  rename_i s3 hk'
  rw [hk'] at hk2
  dsimp only
  split
  · exact .inl ⟨_, _, rfl, hk2⟩
  have hd := hk2.trans ((ipcDetachAllocRange_edits s3 pid addr pages).mono
    fun _ => ⟨hal, Nat.le_of_not_lt hpages⟩)
  split
  · next hr => rw [hr] at hd; exact .inl ⟨_, _, rfl, hd⟩
  rename_i hr
  rw [hr] at hd
  exact .inr ⟨_, _, rfl, hd.tail (.other (.mm _)), by simpa using hlive⟩

theorem ipcRecv_cases (s : Sys) (pid ptr : Nat) : (∃ r, ipcRecv s pid ptr = (r, none, s)) ∨
    ∃ msg rest r s1, s.queue pid = msg :: rest ∧ ipcRecv s pid ptr = (r, some msg, s1) ∧
      Edits SameProcs True (s.setQueue pid rest) s1 := by
  unfold ipcRecv
  split
  · exact .inl ⟨_, rfl⟩
  split
  · exact .inl ⟨_, rfl⟩
  rename_i msg rest hq
  refine .inr ⟨msg, rest, ?_⟩
  dsimp only
  have hr := taskMmapReserve_edits (R := SameProcs) (s.setQueue pid rest) pid msg.physPages.length
  split
  · next hm => rw [hm] at hr; exact ⟨_, _, hq, rfl, hr.same (.mm _)⟩
  rename_i base s1 hm
  rw [hm] at hr
  have hc := (hr.same (.mm (mapMessage (s1.pageMap pid) base msg.physPages
    s1.mm))).same (copyToUser_same _ pid ptr (leBytes msg.senderPid
      ++ leBytes base ++ leBytes msg.physPages.length ++ leBytes msg.flags))
  split
  · rename_i he
    rw [he] at hc
    exact ⟨_, _, hq, rfl, hc.trans (taskMunmap_edits _ _ _)⟩
  · next he => rw [he] at hc; exact ⟨_, _, hq, rfl, hc⟩

end steps

namespace Listed

variable {s s' : Sys} {id pid : Nat}

theorem of_proc (h : Listed s) (hp : s'.proc = s.proc) : Listed s' := fun q => by
  unfold Sys.allocs; rw [hp]; exact h q

theorem setQueue (pid : Nat) {q : List IpcMessage} (h : Listed s) : Listed (s.setQueue pid q) :=
  fun p => by rw [Sys.allocs_setQueue]; exact h p

theorem ipcSendPages {target : Nat} (h : Listed s) :
    Listed (ipcSendPages s pid target addr pages).2.2 := by
  rcases ipcSendPages_cases s pid target addr pages with ⟨_, _, he, hd⟩ | ⟨_, _, he, hd, -⟩
  · rw [he]; exact hd.listed trivial h
  · rw [he]; exact (hd.listed trivial h).setQueue _

theorem ipcRecv {ptr : Nat} (h : Listed s) : Listed (ipcRecv s pid ptr).2.2 := by
  rcases ipcRecv_cases s pid ptr with ⟨_, he⟩ | ⟨_, _, _, _, -, he, hd⟩
  · rw [he]; exact h
  · rw [he]; exact hd.listed trivial (h.setQueue _)

theorem shmCreate_proc : (shmCreate s pid pages).2.proc = s.proc := by
  have hk := kmalloc_same s
  unfold Mm.shmCreate
  split
  · rfl
  split
  · next he => rw [he] at hk; exact hk.proc
  rename_i he
  rw [he] at hk
  split <;> exact hk.proc

theorem shmDestroy_proc : (shmDestroy s pid id).2.proc = s.proc := by
  unfold Mm.shmDestroy
  split
  · rfl
  · split <;> rfl

theorem shmTaskCleanup_proc : (shmTaskCleanup s pid).proc = s.proc :=
  foldl_inv (P := fun t : Sys => t.proc = s.proc) (fun _ _ _ => shmDestroy_proc.trans) rfl

/-- A process comes with a list that is in order. -/
theorem addProc {p : Proc} (h : Listed s) (hp : AllocsOk p.allocList) :
    Listed (s.addProc p) := fun q => by
  rw [Sys.allocs_addProc]
  split
  · exact hp
  · exact h q

theorem nil : AllocsOk [] := ⟨by unfold Ranges; decide, by simp⟩

theorem boot {pool : Frame → Bool} {answers : List (Option Frame)}
    {cowKmalloc kmallocs : List Bool} {fileReads : List (Option (Nat → UInt8))}
    {bytes : Frame → Nat → UInt8} {usableMem : Nat} :
    Listed (Sys.boot pool answers cowKmalloc kmallocs fileReads bytes usableMem) :=
  fun _ => nil

theorem spawn (h : Listed s) : Listed (spawn s).2 := by
  unfold Mm.spawn
  split
  · exact h.same (.mm _)
  · exact h.addProc nil

theorem updProc {g : Proc → Proc} (h : Listed s) (hg : ∀ p, (g p).allocList = p.allocList) :
    Listed (s.updProc pid g) := fun q => by
  have := h q
  unfold Sys.allocs at this ⊢
  rw [Sys.proc_updProc]
  by_cases hq : q = pid
  · subst hq
    rw [if_pos rfl]
    cases hp : s.proc q with
    | none => exact nil
    | some p => rw [hp] at this; change AllocsOk (g p).allocList; rw [hg]; exact this
  · rw [if_neg hq]; exact this

theorem processExit (pid : Nat) (h : Listed s) : Listed (processExit s pid) := by
  have h1 : Listed (Mm.shmTaskCleanup s pid) := h.of_proc shmTaskCleanup_proc
  have h2 := h1.same (foldl_unmapAlloc_same _ pid ((Mm.shmTaskCleanup s pid).allocs pid))
  refine updProc (same (h2.setAllocs nil) (.mm _)) fun _ => rfl

end Listed

/-! ## The calls on their own

The same for the functions of `mmap.c` and `zero_copy.c` called in any order by
anyone, with the arguments the system calls can pass on. -/

/-- A call that edits an alloc list. -/
inductive VmaCall where
  | reserve (pid pages : Nat)
  | reserveAt (pid addr pages : Nat)
  | release (pid addr : Nat)
  | map (pid hint len : Nat) (prot : Prot) (flags : MapFlags)
  | mapFile (pid hint len : Nat) (prot : Prot) (flags : MapFlags) (inode : Backing)
      (offset : Nat)
  | unmap (pid addr len : Nat)
  | protect (pid addr len : Nat) (prot : Prot)
  | discard (pid addr len : Nat)
  | detach (pid addr pages : Nat)

/-- A length as `vma_len` leaves it. -/
def lenAdmitted (addr len : Nat) : Bool :=
  decide (len % pageSize = 0) && decide (0 < len) && decide (addr + len < 2 ^ 64)

/-- What the system calls have checked before they make the call. -/
def VmaCall.admitted : VmaCall → Bool
  | .reserve _ _ | .reserveAt _ _ _ | .release _ _ => true
  | .map _ hint len _ _ | .mapFile _ hint len _ _ _ _ => lenAdmitted hint len
  | .unmap _ addr len | .protect _ addr len _ | .discard _ addr len =>
    decide (addr % pageSize = 0) && lenAdmitted addr len
  | .detach _ addr pages =>
    decide (addr % pageSize = 0) && decide (pages ≤ userStackTop / pageSize)

/-- Make the call. -/
def VmaCall.perform (s : Sys) : VmaCall → Sys
  | .reserve pid pages => (taskMmapReserve s pid pages).2
  | .reserveAt pid addr pages => (taskMmapReserveAt s pid addr pages).2
  | .release pid addr => taskMmapRelease s pid addr
  | .map pid hint len prot flags => (taskVmaMap s pid hint len prot flags).2
  | .mapFile pid hint len prot flags inode offset =>
    (taskVmaMapFile s pid hint len prot flags inode offset).2
  | .unmap pid addr len => (taskVmaUnmap s pid addr len).2
  | .protect pid addr len prot => (taskVmaProtect s pid addr len prot).2
  | .discard pid addr len => taskVmaDiscard s pid addr len
  | .detach pid addr pages => (ipcDetachAllocRange s pid addr pages).2

theorem VmaCall.listed {s : Sys} {c : VmaCall} (h : Listed s)
    (hc : c.admitted = true) : Listed (c.perform s) := by
  cases c with
  | reserve pid pages => exact (taskMmapReserve_edits s pid pages).listed trivial h
  | reserveAt pid addr pages => exact (taskMmapReserveAt_edits s pid addr pages).listed trivial h
  | release pid addr => exact (taskMmapRelease_edits s pid addr).listed trivial h
  | map pid hint len prot flags =>
    simp only [admitted, lenAdmitted, Bool.and_eq_true, decide_eq_true_eq] at hc
    exact (taskVmaMap_edits s pid hint len prot flags).listed ⟨h, hc.1.1⟩ h
  | mapFile pid hint len prot flags inode offset =>
    simp only [admitted, lenAdmitted, Bool.and_eq_true, decide_eq_true_eq] at hc
    exact (taskVmaMapFile_edits s pid hint len prot flags inode offset).listed ⟨h, hc.1.1⟩ h
  | unmap pid addr len =>
    simp only [admitted, lenAdmitted, Bool.and_eq_true, decide_eq_true_eq] at hc
    exact (taskVmaUnmap_edits s pid addr len).listed ⟨hc.1, hc.2.1.1⟩ h
  | protect pid addr len prot =>
    simp only [admitted, lenAdmitted, Bool.and_eq_true, decide_eq_true_eq] at hc
    exact (taskVmaProtect_edits s pid addr len prot).listed ⟨hc.1, hc.2.1.1⟩ h
  | discard pid addr len => exact h.same (taskVmaDiscard_same _ _ _ _)
  | detach pid addr pages =>
    simp only [admitted, Bool.and_eq_true, decide_eq_true_eq] at hc
    exact (ipcDetachAllocRange_edits s pid addr pages).listed hc h

/-- Whatever is called in whatever order, and whatever `kmalloc`, the frame
allocator and the files say in between, every alloc list stays strictly sorted
and disjoint, with its nodes non-empty, on page boundaries and inside the mmap
window. -/
theorem allocList_stays_in_order (s : Sys) (calls : List VmaCall)
    (h : ∀ pid, AllocListOk (s.allocs pid))
    (hc : ∀ c ∈ calls, c.admitted = true) (pid : Nat) :
    AllocListOk ((run VmaCall.perform s calls).allocs pid) := by
  have hl : Listed s := fun q => (allocsOk_iff _).mpr (h q)
  have hm : Meets VmaCall.perform (fun _ c => c.admitted = true) s calls := Meets.of_all hc
  exact (allocsOk_iff _).mp (run_inv (fun _ _ => VmaCall.listed) hl hm pid)

/-- Four pages, the second of them unmapped again, the third made read-only, the
last given away. -/
def holeCalls : List VmaCall :=
  [.reserve 1 4, .unmap 1 (userMmapBase + pageSize) pageSize,
    .protect 1 (userMmapBase + 2 * pageSize) pageSize { read := true },
    .detach 1 (userMmapBase + 3 * pageSize) 1]

theorem allocList_stays_in_order_holes : AllocListOk ((run VmaCall.perform
      (spawn (Sys.small [some 1] [true] (replicate 9 true))).2 holeCalls).allocs 1) ∧
    (((run VmaCall.perform
      (spawn (Sys.small [some 1] [true] (replicate 9 true))).2 holeCalls).allocs 1).map
        fun a => (a.vaddr, a.pages, a.prot.write))
      = [(userMmapBase, 1, true), (userMmapBase + 2 * pageSize, 1, false)] :=
  ⟨allocList_stays_in_order _ holeCalls
      (fun q => (allocsOk_iff _).mp (Listed.spawn Listed.boot q)) (by decide) 1,
    by decide +kernel⟩

/-! ## The stack

No node stands for the stack. What keeps a range out of it are the bounds of the
mmap window alone, and the window ends above the bottom of the stack. -/

/-- No page of the range is one `paging_handle_stack_fault` fills in. -/
def ClearOfStack (base pages : Nat) : Prop :=
  ∀ va, base ≤ va → va < base + pages * pageSize →
    va < userStackTop - userStackSize ∨ va ≥ userStackTop

/-- The bounds a range is held to, in any list. -/
def InWindow (base pages : Nat) : Prop := 0 < pages ∧ base + pages * pageSize ≤ userMmapLimit

theorem InWindow.clearOfStack_iff {base : Nat} (h : InWindow base pages) :
    ClearOfStack base pages ↔ base + pages * pageSize ≤ userStackTop - userStackSize := by
  obtain ⟨h0, hlim⟩ := h
  unfold ClearOfStack userStackTop userMmapLimit pageSize at *
  constructor
  · intro hc
    -- the last byte of the range is below the top, so it has to be below the bottom
    have := hc (base + pages * 4096 - 1) (by omega) (by omega)
    omega
  · omega

/-- The pages from `addr` on are in the mmap window below `top`, and no node has one of them. -/
abbrev Free (top : Nat) (l : List UserAlloc) (pages addr : Nat) : Prop :=
  userMmapBase ≤ addr ∧ addr + pages * pageSize ≤ top ∧
    ∀ a ∈ l, a.allocEnd ≤ addr ∨ addr + pages * pageSize ≤ a.vaddr

/-- What is asked of the three calls. -/
inductive Request where
  | reserve (pages : Nat)
  | reserveAt (addr pages : Nat)
  | map (hint len : Nat) (prot : Prot) (flags : MapFlags)

namespace Request

/-- The pages of the range. -/
def size : Request → Nat
  | reserve pages | reserveAt _ pages => pages
  | map _ len _ _ => len / pageSize

/-- The start of the range that is returned. -/
def answer (s : Sys) (pid : Nat) : Request → Option Nat
  | reserve pages => (taskMmapReserve s pid pages).1
  | reserveAt addr pages => (taskMmapReserveAt s pid addr pages).1
  | map hint len prot flags => (taskVmaMap s pid hint len prot flags).1.toOption

/-- The address the range has to be at. A hint is followed if the pages are free and there is
memory for the node; without an address it is the first gap that is taken. -/
def place (s : Sys) (pid : Nat) : Request → Option Nat
  | reserve _ => none
  | reserveAt addr _ => some addr
  | map hint len _ flags =>
    if flags.fixed || flags.fixedNoreplace then some hint
    else if hint ≠ 0 ∧ Free userMmapLimit (s.allocs pid) (len / pageSize) (pageAlignDown hint) ∧
        s.kmalloc.1 = true then some (pageAlignDown hint)
    else none

/-- The pages end at or below the bottom of the stack, or there is a gap for them that does. -/
def BelowStack (s : Sys) (pid : Nat) (r : Request) : Prop :=
  match r.place s pid with
  | some addr => addr + r.size * pageSize ≤ userStackTop - userStackSize
  | none => ∃ addr, Free (userStackTop - userStackSize) (s.allocs pid) r.size addr

end Request

section

variable {s : Sys} {pid hint base : Nat} {flags : MapFlags}

/-- What the loop gives is free, and nothing lower is. -/
theorem AllocsFrom.first_fit (h : AllocsFrom lo l) (pages : Nat) :
    (lo ≤ (reserveLoop pages lo l).1 ∧ ∀ a ∈ l, a.allocEnd ≤ (reserveLoop pages lo l).1 ∨
      (reserveLoop pages lo l).1 + pages * pageSize ≤ a.vaddr) ∧
    ∀ addr, lo ≤ addr → (∀ a ∈ l, a.allocEnd ≤ addr ∨ addr + pages * pageSize ≤ a.vaddr) →
      (reserveLoop pages lo l).1 ≤ addr := by
  induction l generalizing lo with
  | nil => exact ⟨⟨Nat.le_refl _, nofun⟩, fun _ hle _ => hle⟩
  | cons a l ih =>
    have hb := h.ranges.bounds (a := a) (by simp)
    rw [reserveLoop, h.gap_eq]
    dsimp only
    split
    · rename_i hfit
      have hend : lo + pages * pageSize ≤ a.vaddr := by
        unfold pageSize at *
        omega
      refine ⟨⟨Nat.le_refl _, fun b hb' => .inr ?_⟩, fun _ hle _ => hle⟩
      rcases mem_cons.mp hb' with rfl | hb'
      · exact hend
      · have := h.tail.ranges.bounds hb'
        omega
    · rename_i hfit
      obtain ⟨⟨hle, hfree⟩, hfirst⟩ := ih h.tail
      refine ⟨⟨by omega, forall_mem_cons.mpr ⟨.inl hle, hfree⟩⟩, fun addr hlo haddr => ?_⟩
      rw [forall_mem_cons] at haddr
      refine hfirst addr (haddr.1.resolve_right fun hend => hfit ?_) haddr.2
      unfold pageSize at *
      omega

/-- A place is refused only if a node has a page of it. -/
theorem AllocsFrom.reserveAtLoop_none_iff (h : AllocsFrom lo l) (addr fin : Nat) :
    reserveAtLoop addr fin l = none ↔ ¬∀ a ∈ l, a.allocEnd ≤ addr ∨ fin ≤ a.vaddr := by
  induction l generalizing lo with
  | nil => simp [reserveAtLoop]
  | cons a l ih =>
    rw [reserveAtLoop, forall_mem_cons]
    split
    · rename_i hge
      refine iff_of_false (fun h => by cases h) (not_not_intro ⟨.inr hge, fun b hb => .inr ?_⟩)
      have ha := h.ranges.bounds (a := a) (by simp)
      have := h.tail.ranges.bounds hb
      omega
    split
    · next hge hlt => exact iff_of_true rfl fun h => h.1.elim (by omega) hge
    · next hge hle =>
      rw [Option.map_eq_none_iff, ih h.tail, and_iff_right (.inl (Nat.not_lt.mp hle))]

theorem taskMmapReserve_window (h : (taskMmapReserve s pid pages).1 = some base) :
    InWindow base pages ∧ base = (reserveLoop pages userMmapBase (s.allocs pid)).1 := by
  unfold taskMmapReserve at h
  split at h
  · cases h
  dsimp only at h
  split at h
  · cases h
  split at h
  · cases h
  split at h
  · cases h
  · cases h
    unfold InWindow pageSize at *
    omega

theorem taskMmapReserveAt_window (h : (taskMmapReserveAt s pid hint pages).1 = some base) :
    InWindow base pages ∧ base = hint := by
  unfold taskMmapReserveAt at h
  split at h
  · cases h
  split at h
  · cases h
  split at h
  · cases h
  split at h
  · cases h
  split at h
  · cases h
  · cases h
    unfold InWindow pageSize at *
    omega

theorem taskMmapReserveAt_some_iff (h : AllocsOk (s.allocs pid)) (hp : 0 < pages)
    (hal : hint % pageSize = 0) : (taskMmapReserveAt s pid hint pages).1 = some hint ↔
      Free userMmapLimit (s.allocs pid) pages hint ∧ s.kmalloc.1 = true := by
  have hloop := h.reserveAtLoop_none_iff hint (hint + pages * pageSize)
  unfold taskMmapReserveAt
  split
  · omega
  split
  · refine iff_of_false nofun fun hfree => ?_
    have := hfree.1.2.1
    omega
  split
  · refine iff_of_false nofun fun hfree => ?_
    have := hfree.1.2.1
    unfold pageSize at *
    omega
  split
  · next hnone => exact iff_of_false nofun fun hfree => hloop.mp hnone hfree.1.2.2
  rename_i hsome
  have hfree := not_not.mp (hloop.not.mp (by rw [hsome]; nofun))
  split
  · next he => exact iff_of_false nofun fun h => by rw [he] at h; exact absurd h.2 nofun
  · next he => exact iff_of_true rfl ⟨⟨by omega, by unfold pageSize at *; omega, hfree⟩, by rw [he]⟩

theorem taskMmapReserveAt_none {t : Sys} (h : taskMmapReserveAt s pid hint pages = (none, t)) :
    t.allocs pid = s.allocs pid := by
  have hr := taskMmapReserveAt_reserving s pid hint pages
  rw [h] at hr
  cases hr with
  | refused => rfl
  | short hk =>
    cases hk
    exact (kmalloc_same s).allocs pid

/-- The range is at the address it has to be at, or else where it first fits. -/
theorem vmaPlace_window {prot : Prot} (hl : AllocsOk (s.allocs pid))
    (h : (vmaPlace s pid hint len flags).1 = .ok base) : InWindow base (len / pageSize) ∧
      base = ((Request.map hint len prot flags).place s pid).getD
        (reserveLoop (len / pageSize) userMmapBase (s.allocs pid)).1 := by
  have hdown : pageAlignDown hint % pageSize = 0 := by simp [pageAlignDown]
  have hiff : 0 < len / pageSize → _ := fun hp => taskMmapReserveAt_some_iff hl hp hdown
  unfold vmaPlace at h
  rw [Request.place]
  dsimp only at h
  split at h
  · next hfixed =>
    rw [if_pos hfixed]
    split at h
    · cases h
    split at h
    · cases h
    split at h
    · cases h
    split at h
    · next he => cases h; exact taskMmapReserveAt_window (congrArg Prod.fst he)
    · cases h
  next hfixed =>
  rw [if_neg hfixed]
  split at h
  · next he =>
    cases h
    split at he
    · next h0 =>
      obtain ⟨hw, rfl⟩ := taskMmapReserveAt_window (congrArg Prod.fst he)
      rw [if_pos ⟨h0, (hiff hw.1).mp (congrArg Prod.fst he)⟩]
      exact ⟨hw, rfl⟩
    · cases he
  next s1 he =>
  split at h
  · next he' =>
    cases h
    obtain ⟨hw, hfit⟩ := taskMmapReserve_window (congrArg Prod.fst he')
    split at he
    · rw [if_neg fun hat => by rw [← hiff hw.1, he] at hat; exact absurd hat.2 nofun,
        ← taskMmapReserveAt_none he]
      exact ⟨hw, hfit⟩
    · next h0 =>
      cases he
      rw [if_neg fun hat => h0 hat.1]
      exact ⟨hw, hfit⟩
  · cases h

theorem taskVmaMap_placed {prot : Prot} (h : (taskVmaMap s pid hint len prot flags).1 = .ok base) :
    (vmaPlace s pid hint len flags).1 = .ok base := by
  unfold taskVmaMap at h
  dsimp only at h
  split at h
  · cases h
  split at h
  · cases h
  next b s1 he =>
    have hb : b = base := by
      split at h
      · split at h
        · cases h
        · exact Except.ok.inj h
      split at h
      · split at h
        · cases h
        · exact Except.ok.inj h
      · exact Except.ok.inj h
    rw [he, hb]

theorem Request.answer_window {r : Request} (hl : AllocsOk (s.allocs pid))
    (h : r.answer s pid = some base) : InWindow base r.size ∧
      base = (r.place s pid).getD (reserveLoop r.size userMmapBase (s.allocs pid)).1 := by
  cases r with
  | reserve pages => exact taskMmapReserve_window h
  | reserveAt addr pages => exact taskMmapReserveAt_window h
  | map hint len prot flags =>
    have ha : (taskVmaMap s pid hint len prot flags).1 = .ok base := by
      rw [Request.answer] at h
      cases ha : (taskVmaMap s pid hint len prot flags).1 with
      | error e => rw [ha] at h; cases h
      | ok b => rw [ha] at h; cases h; rfl
    exact vmaPlace_window hl (taskVmaMap_placed ha)

end

/-- A range that any of the three calls returns stays out of the stack exactly if the address
it was asked for at, or the lowest gap it fits in, is that far below the bottom of the stack. -/
theorem range_clear_of_stack_iff (s : Sys) (pid base : Nat) (r : Request)
    (hl : AllocListOk (s.allocs pid)) (h : r.answer s pid = some base) :
    ClearOfStack base r.size ↔ r.BelowStack s pid := by
  have hl := (allocsOk_iff _).mpr hl
  obtain ⟨hw, hbase⟩ := Request.answer_window hl h
  rw [hw.clearOfStack_iff, Request.BelowStack]
  cases hp : r.place s pid with
  | some addr => rw [hbase, hp]; rfl
  | none =>
    rw [hp] at hbase
    obtain ⟨⟨hle, hfree⟩, hfirst⟩ := hl.first_fit r.size
    constructor
    · intro hend
      exact ⟨base, hbase ▸ hle, hend, hbase ▸ hfree⟩
    · rintro ⟨addr, hlo, hend, haddr⟩
      have := hfirst addr hlo haddr
      rw [hbase, Option.getD_none]
      omega

/-- A process, and room for its nodes and pages. -/
def oneProc : Sys :=
  (spawn (Sys.small ((range' 1 9).map some) [true] (replicate 9 true))).2

/-- It has a page above the bottom of the stack. The next one goes far below. -/
theorem range_clear_of_stack_next :
    let s := (taskMmapReserveAt oneProc 1 0x7fffff900000 1).2
    (taskMmapReserve s 1 2).1 = some userMmapBase ∧ ClearOfStack userMmapBase 2 := by
  intro s
  have hl : AllocListOk (s.allocs 1) := (allocsOk_iff _).mp ((taskMmapReserveAt_edits
    (R := SameProcs) oneProc 1 0x7fffff900000 1).listed trivial (Listed.spawn Listed.boot) 1)
  have hnext : (taskMmapReserve s 1 2).1 = some userMmapBase := by decide +kernel
  exact ⟨hnext, (range_clear_of_stack_iff s 1 userMmapBase (.reserve 2) hl hnext).mpr
    ⟨userMmapBase, by decide, by decide, by decide⟩⟩

/-- `oneProc` with the lowest page of the stack mapped, at a fixed address. -/
def mapsStack : Except Errno Nat × Sys :=
  taskVmaMap oneProc 1 0x7fffff7ff000 4096 { read := true, write := true }
    { type := .private_, fixed := true }

/-- It is mapped, and it is filled in as a page of the stack. -/
theorem fixed_range_in_stack : mapsStack.1 = .ok 0x7fffff7ff000 ∧ ¬ ClearOfStack 0x7fffff7ff000 1 ∧
    (pagingHandleStackFault mapsStack.2.mm (mapsStack.2.pageMap 1) 0x7fffff7ff000).1 = true :=
  ⟨rfl, fun h => absurd (h 0x7fffff7ff000 (by decide) (by decide)) (by decide),
    by decide +kernel⟩

end BleedKernel.Mm
