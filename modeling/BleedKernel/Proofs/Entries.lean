import BleedKernel.Proofs.Mapping
import BleedKernel.Proofs.Vmas

/-!
# Which entries a fault changes, and how

The kernel fills pages in on its own: on a fault, and on a call that wants to
read or write a user's memory. Much of what is said about these functions later
has one form: every entry is either left alone or changed in a way some relation
allows. This file says it once, for any relation that is reflexive and transitive,
in terms of the three things a fault can do to the entry of its page: take a
copy-on-write page, grow the stack into an absent one, and fill an absent one
from a mapping.
-/

namespace BleedKernel.Mm

open BleedKernel.Lib

variable {va : Nat} {write : Bool}

/-- A relation between what an entry was and what it is, slot by slot, that can
be followed over several steps. -/
structure PteRel (R : Cr3 → Nat → Pte → Pte → Prop) : Prop where
  refl : ∀ c i p, R c i p p
  trans : ∀ {c i p q r}, R c i p q → R c i q r → R c i p r

/-- The entry the stack grows by. -/
def stackPte (f : Frame) : Pte := ({ user := true, writable := true } : Pte).mapped f

/-- The page is the stack's. -/
def InStack (va : Nat) : Prop := userStackTop - userStackSize ≤ va ∧ va < userStackTop

/-- Every entry has changed as `R` allows, and the page tables hang together. -/
structure Changes (R : Cr3 → Nat → Pte → Pte → Prop) (m m' : Memory) : Prop where
  linked : Linked m'
  live : ∀ c, (m'.space c).isSome = (m.space c).isSome
  pte : ∀ c i, R c i (m.pteAt c i) (m'.pteAt c i)

theorem pageIdx_pageAlignDown (va : Nat) : pageIdx (pageAlignDown va) = pageIdx va := by
  unfold pageIdx pageAlignDown
  rw [Nat.mul_div_cancel _ (by decide)]

namespace Changes

variable {R : Cr3 → Nat → Pte → Pte → Prop} {m m' m'' : Memory} {cr3 : Cr3} (hR : PteRel R)

include hR

theorem trans (h : Changes R m m') (h' : Changes R m' m'') : Changes R m m'' :=
  ⟨h'.linked, fun c => (h'.live c).trans (h.live c), fun c i => hR.trans (h.pte c i) (h'.pte c i)⟩

variable (hm : Linked m)

include hm

theorem refl : Changes R m m := ⟨hm, fun _ => rfl, fun c i => hR.refl c i _⟩

theorem of_spaces (hs : m'.spaces = m.spaces) : Changes R m m' :=
  ⟨hm.of_spaces hs, fun c => by rw [Memory.space_congr hs],
    fun c i => by rw [Memory.pteAt_congr hs]; exact hR.refl c i _⟩

theorem setPteAt {i : Nat} {p : Pte}
    (ht : p = {} ∨ (m.tableAt cr3 (1, i / 512)).isSome) (hp : R cr3 i (m.pteAt cr3 i) p) :
    Changes R m (m.setPteAt cr3 i p) := by
  refine ⟨hm.setPte ht, fun _ => Memory.space_setPteAt, fun c j => ?_⟩
  rw [Memory.pteAt_setPteAt]
  split
  · next hc => obtain ⟨rfl, rfl, -⟩ := hc; exact hp
  · exact hR.refl c j _

theorem walk (cr3 : Cr3) {i : Nat} (hi : i < 2 ^ 35) :
    Changes R m (pagingWalkPageTables m cr3 i).2 := by
  have hq := pagingWalkPageTables_quiet m cr3 i
  exact ⟨(hm.walk _ hi).1, hq.space, fun c j => by rw [hq.pte]; exact hR.refl c j _⟩

theorem pagingMapPageInvl {f : Frame} {flags : Pte} (hi : pageIdx va < 2 ^ 35)
    (hp : R cr3 (pageIdx va) (m.pte cr3 va) (flags.mapped f)) :
    Changes R m (pagingMapPageInvl m cr3 f va flags) := by
  have hw := walk hR hm cr3 hi
  have ht := (hm.walk cr3 hi).2
  have hq := pagingWalkPageTables_quiet m cr3 (pageIdx va)
  unfold Mm.pagingMapPageInvl
  generalize pagingWalkPageTables m cr3 (pageIdx va) = r at hw ht hq
  obtain ⟨b | b, m1⟩ := r
  · exact hw
  refine hw.trans hR (setPteAt hR hw.linked (.inr (ht rfl)) ?_)
  rw [hq.pte]
  exact hp

/-- A copy-on-write fault takes the page, with its frame or with another. -/
theorem pagingHandleCowFault (cr3 : Cr3) (va err : Nat)
    (hp : ∀ p f, p.cow = true → R cr3 (pageIdx va) p (p.taken.withPhys f)) :
    Changes R m (pagingHandleCowFault m cr3 va err).2 := by
  have hal := pmmAllocPages_spaces (cowInit m)
  have hset : ∀ (m1 : Memory) (f g : Frame), CowWrite m cr3 (pageAlignDown va) err →
      m1.spaces = m.spaces → Changes R m (cowUnrefPage (m1.setPteAt cr3
        (pageIdx (pageAlignDown va)) ((m.pte cr3 (pageAlignDown va)).taken.withPhys f))
        g).2 := fun m1 f g hw hs => by
    have h1 := of_spaces hR hm hs
    have ht : (m1.tableAt cr3 (1, pageIdx (pageAlignDown va) / 512)).isSome := by
      refine h1.linked.pte cr3 _ fun e => ?_
      rw [Memory.pteAt_congr hs] at e
      have := hw.present
      unfold Memory.pte at this
      rw [e] at this
      cases this
    refine (h1.trans hR (setPteAt hR h1.linked (.inr ht) ?_)).trans hR
      (of_spaces hR (h1.linked.setPte (.inr ht)) (cowUnrefPage_rest _ _).2.1)
    rw [Memory.pteAt_congr hs]
    have hc := hw.cow
    unfold Memory.pte at hc ⊢
    rw [pageIdx_pageAlignDown] at hc ⊢
    exact hp _ f hc
  rcases pagingHandleCowFault_cases m cr3 va err with
    hr | ⟨-, m1, ha, hr⟩ | ⟨hw, -, new, m1, ha, hr⟩ | ⟨hw, -, hr⟩
  · rw [hr]; exact refl hR hm
  · rw [ha] at hal
    rw [hr]; exact of_spaces hR hm (hal.trans (cowInit_rest m).2.1)
  · rw [ha] at hal
    rw [hr]; exact hset _ new _ hw (hal.trans (cowInit_rest m).2.1)
  · rw [hr]; exact hset _ (m.pte cr3 (pageAlignDown va)).phys _ hw (cowInit_rest m).2.1

theorem pagingHandleStackFault
    (hp : InStack va → ∀ p f, p.present = false → R cr3 (pageIdx va) p (stackPte f)) :
    Changes R m (pagingHandleStackFault m cr3 va).2 := by
  have hal := pagingAllocEmptyFrame_spaces m
  unfold Mm.pagingHandleStackFault
  split
  · exact refl hR hm
  rename_i hin
  dsimp only
  split
  · exact refl hR hm
  rename_i hnone
  have habs := hm.absent hnone
  split
  · next ha => rw [ha] at hal; exact of_spaces hR hm hal
  rename_i f m1 ha
  rw [ha] at hal
  have h1 := of_spaces hR hm hal
  have h2 : Changes R m (Mm.pagingMapPageInvl m1 cr3 f (pageAlignDown va)
      { user := true, writable := true }) := by
    refine h1.trans hR (pagingMapPageInvl hR h1.linked ?_ ?_)
    · rw [pageIdx_pageAlignDown]
      unfold userStackTop at hin
      exact pageIdx_lt (by omega)
    · unfold Memory.pte at habs ⊢
      rw [Memory.pteAt_congr hal]
      rw [pageIdx_pageAlignDown] at habs ⊢
      exact hp ⟨by omega, by omega⟩ _ f habs
  split
  · exact h2.trans hR (of_spaces hR h2.linked rfl)
  · exact h2

end Changes

/-! ## Filling in and copying out -/

/-- The entry a page of a mapping is filled in with. -/
def filledPte (prot : Prot) (shared : Bool) (f : Frame) : Pte :=
  ({ protPte prot with shared } : Pte).mapped f

theorem protPte_mapped (prot : Prot) (f : Frame) :
    (protPte prot).mapped f = filledPte prot false f := by
  unfold filledPte protPte
  split <;> rfl

/-- What `R` allows to happen to the page at an address when it is missing and a
mapping's. -/
def FillOk (R : Cr3 → Nat → Pte → Pte → Prop) (s : Sys) (pid va : Nat) (write : Bool) : Prop :=
  ∀ a, allocFind (s.allocs pid) va = some a → a.lazy = true →
    (write = true → a.prot.write = true) → ∀ p f shared, p.present = false →
      R (s.pageMap pid) (pageIdx va) p (filledPte a.prot shared f)

/-- `R` allows whatever the kernel may do to the page at an address. -/
structure FaultOk (R : Cr3 → Nat → Pte → Pte → Prop) (s : Sys) (pid va : Nat)
    (write : Bool) : Prop where
  cow : ∀ p f, p.cow = true → R (s.pageMap pid) (pageIdx va) p (p.taken.withPhys f)
  stack : InStack va → ∀ p f, p.present = false → R (s.pageMap pid) (pageIdx va) p (stackPte f)
  fill : FillOk R s pid va write

theorem FaultOk.same {R : Cr3 → Nat → Pte → Pte → Prop} {s s' : Sys} {pid : Nat}
    (h : FaultOk R s pid va write) (hs : SameProcs s s') :
    FaultOk R s' pid va write := by
  refine ⟨?_, ?_, ?_⟩
  · rw [hs.pageMap]; exact h.cow
  · rw [hs.pageMap]; exact h.stack
  · unfold FillOk; rw [hs.pageMap, hs.allocs]; exact h.fill

namespace Changes

variable {R : Cr3 → Nat → Pte → Pte → Prop} {s : Sys} {pid : Nat} (hR : PteRel R)
  (hm : Linked s.mm)

include hR hm

theorem faultInShared {a : UserAlloc} {page : Nat}
    (hi : pageIdx page < 2 ^ 35) (hp : ∀ f, R (s.pageMap pid) (pageIdx page)
      (s.mm.pte (s.pageMap pid) page) (filledPte a.prot true f)) :
    Changes R s.mm (faultInShared s pid a page).2.mm := by
  unfold Mm.faultInShared
  split
  · exact refl hR hm
  rename_i id _
  obtain ⟨hpm, hs⟩ := memfdPage_same s id ((a.offset + (page - a.vaddr)) / pageSize) true
  have hpm := hpm.pageMap pid
  split
  · next he => rw [he] at hs; exact of_spaces hR hm hs
  rename_i f s1 he
  rw [he] at hs hpm
  dsimp only
  have hs1 := ((cowRefPage_rest s1.mm f).2.1).trans hs
  have h1 := of_spaces hR hm hs1
  have h2 : Changes R s.mm (Mm.pagingMapPageInvl (cowRefPage s1.mm f)
      (s1.pageMap pid) f page { protPte a.prot with shared := true }) := by
    rw [hpm]
    refine h1.trans hR (pagingMapPageInvl hR h1.linked hi ?_)
    unfold Memory.pte
    rw [Memory.pteAt_congr hs1]
    exact hp f
  split
  · exact h2.trans hR (of_spaces hR h2.linked (cowUnrefPage_rest _ _).2.1)
  · exact h2

theorem faultInPrivate {a : UserAlloc} {page : Nat}
    (hi : pageIdx page < 2 ^ 35) (hp : ∀ f, R (s.pageMap pid) (pageIdx page)
      (s.mm.pte (s.pageMap pid) page) (filledPte a.prot false f)) :
    Changes R s.mm (faultInPrivate s pid a page).2.mm := by
  have ha := pagingAllocEmptyFrame_spaces s.mm
  unfold Mm.faultInPrivate
  split
  · next he => rw [he] at ha; exact of_spaces hR hm ha
  rename_i f mm he
  rw [he] at ha
  obtain ⟨hpm, hs⟩ := readIn_same { s with mm } a f page
  have hpm := hpm.pageMap pid
  split
  · next hr => rw [hr] at hs; exact of_spaces hR hm (hs.trans ha)
  rename_i s1 hr
  rw [hr] at hs hpm
  dsimp only
  have hs1 := hs.trans ha
  have h1 := of_spaces hR hm hs1
  have h2 : Changes R s.mm (Mm.pagingMapPageInvl s1.mm (s1.pageMap pid) f page
      (protPte a.prot)) := by
    rw [hpm]
    refine h1.trans hR (pagingMapPageInvl hR h1.linked hi ?_)
    unfold Memory.pte
    rw [Memory.pteAt_congr hs1, protPte_mapped]
    exact hp f
  split
  · exact h2.trans hR (of_spaces hR h2.linked rfl)
  · exact h2

theorem taskFaultIn {exec : Bool} (hl : Listed s) (hp : FillOk R s pid va write) :
    Changes R s.mm (taskFaultIn s pid va write exec).2.mm := by
  unfold Mm.taskFaultIn
  split
  · exact refl hR hm
  rename_i a hfind
  split
  · exact refl hR hm
  rename_i hlazy
  split
  · exact refl hR hm
  split
  · exact refl hR hm
  rename_i hprot
  split
  · exact refl hR hm
  rename_i hnone
  have habs := hm.absent hnone
  have hi : pageIdx (pageAlignDown va) < 2 ^ 35 := by
    rw [pageIdx_pageAlignDown]
    exact pageIdx_lt ((hl pid).find_lt hfind)
  have hfill : ∀ f shared, R (s.pageMap pid) (pageIdx (pageAlignDown va))
      (s.mm.pte (s.pageMap pid) (pageAlignDown va))
      (filledPte a.prot shared f) := fun f shared => by
    rw [pageIdx_pageAlignDown]
    refine hp a hfind (by simpa using hlazy) (fun hw => ?_) _ f shared habs
    simp only [hw, Bool.or_eq_true, not_or] at hprot
    simpa using hprot.1
  split
  · exact faultInShared hR hm hi fun f => hfill f true
  · exact faultInPrivate hR hm hi fun f => hfill f false

theorem fillIn (pid : Nat) (va : Nat) (write : Bool)
    (hl : Listed s) (hp : FillOk R s pid va write) :
    Changes R s.mm (fillIn s pid va write).mm := by
  unfold Mm.fillIn
  split
  · exact refl hR hm
  · exact taskFaultIn hR hm hl hp

theorem stackIn
    (hp : InStack va → ∀ p f, p.present = false → R (s.pageMap pid) (pageIdx va) p (stackPte f)) :
    Changes R s.mm (stackIn s pid va).mm := by
  unfold Mm.stackIn
  split
  · exact refl hR hm
  · exact pagingHandleStackFault hR hm hp

theorem userPagePte (hl : Listed s) (hp : FaultOk R s pid va write) :
    Changes R s.mm (userPagePte s pid va write).2.mm := by
  have hs := stackIn_same s pid va
  have h1 := stackIn hR hm hp.stack
  have h2 := h1.trans hR (fillIn hR h1.linked _ _ _ (hl.same hs) (hp.same hs).fill)
  have h3 := h2.trans hR (pagingHandleCowFault hR h2.linked _ _ 7 hp.cow)
  unfold Mm.userPagePte
  dsimp only
  split
  · exact h2
  split
  · exact h2
  split
  · split
    · next he => rw [he] at h3; exact h3
    · rename_i he
      rw [he] at h3
      split <;> exact h3
  · exact h2

/-- Writing to a user's memory: every page of the range may be filled in. -/
theorem copyToUser {udst : Nat} {src : List UInt8} (hl : Listed s) (hp : ∀ p, udst / pageSize ≤ p →
      p ≤ (udst + src.length - 1) / pageSize → p < 2 ^ 35 →
      FaultOk R s pid (p * pageSize) true) :
    Changes R s.mm (copyToUser s pid udst src).2.mm := by
  have hr : Changes R s.mm (userRangeMapped s pid udst src.length true).2.mm := by
    unfold userRangeMapped
    split
    · exact refl hR hm
    rename_i hmax
    refine (forEach_inv (P := fun t => SameProcs s t ∧ Changes R s.mm t.mm)
      (fun p hmem t ⟨ht, h⟩ => ⟨ht.trans (userPagePte_same _ _ _ _), h.trans hR
        (userPagePte hR h.linked (hl.same ht) (FaultOk.same (hp p ?_ ?_ ?_) ht))⟩)
      ⟨.rfl', refl hR hm⟩).2
    all_goals
      have hin := List.mem_range'_1.mp hmem
      unfold userMax at hmax
      unfold pageSize at *
      omega
  unfold Mm.copyToUser
  split
  · exact refl hR hm
  split
  · next he => rw [he] at hr; exact hr
  rename_i he
  rw [he] at hr
  exact hr.trans hR (foldl_inv
    (fun k _ m h => h.trans hR (of_spaces hR h.linked rfl)) (refl hR hr.linked))

end Changes

end BleedKernel.Mm
