import BleedKernel.Lib.Loop
import BleedKernel.Model.Memory

/-!
# `mm/paging.c` and the unmapping half of `mm/vmm.c`

Walking and filling the page tables, the two faults that are answered from
them, the copy a fork takes of a whole user half, and the two ways mappings go
away. Functions that take an address in the source take the address here; the
ones that step over table indices take page slots.

What the source says to the TLB is left out. `flush` is kept because
`paging_clone_user_space` decides on it whether the other CPUs hear of the fork
at all.
-/

namespace BleedKernel.Mm

open BleedKernel.Lib

/-- `USER_STACK_TOP` -/
def userStackTop : Nat := 0x00007ffffffff000

/-- `USER_STACK_SIZE` -/
def userStackSize : Nat := 8 * 1024 * 1024

/-! ## Walking the tables -/

/-- `paging_alloc_empty_frame` -/
def pagingAllocEmptyFrame (m : Memory) : Option Frame × Memory :=
  match pmmAllocPages m with
  | (none, m) => (none, m)
  | (some f, m) => (some f, m.setBytes f fun _ => 0)

/-- `paging_write_table_entry`: the table over page slot `i` at level `l`,
made and linked when it is not there. -/
def pagingWriteTableEntry (m : Memory) (cr3 : Cr3) (l i : Nat) : Bool × Memory :=
  match m.tableAt cr3 (tableKey l i) with
  | some _ => (true, m)
  | none =>
    match pagingAllocEmptyFrame m with
    | (none, m) => (false, m)
    | (some p, m) => (true, m.setTable cr3 (tableKey l i) (some p))

/-- `paging_walk_page_tables`: whether there is a page table over slot `i` now.
Tables made before one that could not be made stay linked. -/
def pagingWalkPageTables (m : Memory) (cr3 : Cr3) (i : Nat) : Bool × Memory :=
  if (m.tableAt cr3 (tableKey 4 i)).isNone then (false, m)
  else forEach (fun l m => pagingWriteTableEntry m cr3 l i) [3, 2, 1] m

/-- `paging_map_page_invl`: nothing at all happens when a table is missing and
cannot be made, and nobody is told. -/
def pagingMapPageInvl (m : Memory) (cr3 : Cr3) (paddr : Frame) (vaddr : Nat)
    (flags : Pte) : Memory :=
  match pagingWalkPageTables m cr3 (pageIdx vaddr) with
  | (false, m) => m
  | (true, m) =>
    m.setPteAt cr3 (pageIdx vaddr) (flags.mapped paddr)

/-- `paging_get_table`: there is a page table over slot `i`. -/
def pagingGetTable (m : Memory) (cr3 : Cr3) (i : Nat) : Bool :=
  (m.tableAt cr3 (tableKey 3 i)).isSome && (m.tableAt cr3 (tableKey 2 i)).isSome
    && (m.tableAt cr3 (tableKey 1 i)).isSome

/-- `paging_get_page` without `create`: the entry of a present page. -/
def pagingGetPage (m : Memory) (cr3 : Cr3) (vaddr : Nat) : Option Pte :=
  if pagingGetTable m cr3 (pageIdx vaddr) && (m.pte cr3 vaddr).present then
    some (m.pte cr3 vaddr)
  else none

/-- `paging_unmap_page` -/
def pagingUnmapPage (m : Memory) (cr3 : Cr3) (vaddr : Nat) : Memory :=
  match pagingGetPage m cr3 vaddr with
  | none => m
  | some _ => m.setPteAt cr3 (pageIdx vaddr) {}

/-! ## Faults -/

/-- `paging_handle_cow_fault`: the last one holding the frame takes it back,
everyone else gets their own copy. -/
def pagingHandleCowFault (m : Memory) (cr3 : Cr3) (faultAddr pfError : Nat) :
    Bool × Memory :=
  if pfError % 8 ≠ 7 then (false, m)
  else
    let page := pageAlignDown faultAddr
    match pagingGetPage m cr3 page with
    | none => (false, m)
    | some pte =>
      if !pte.cow then (false, m)
      else
        let refs := (cowGetRefcount m pte.phys).1
        let m := (cowGetRefcount m pte.phys).2
        if refs > 1 then
          match pmmAllocPages m with
          | (none, m) => (false, m)
          | (some new, m) =>
            let m := m.setBytes new (m.bytes pte.phys)
            let m := m.setPteAt cr3 (pageIdx page) (pte.taken.withPhys new)
            (true, (cowUnrefPage m pte.phys).2)
        else
          let m := m.setPteAt cr3 (pageIdx page) pte.taken
          (true, (cowUnrefPage m pte.phys).2)

/-- `paging_handle_stack_fault`, for a user task. -/
def pagingHandleStackFault (m : Memory) (cr3 : Cr3) (faultAddr : Nat) :
    Bool × Memory :=
  if faultAddr < userStackTop - userStackSize ∨ faultAddr ≥ userStackTop then
    (false, m)
  else
    let page := pageAlignDown faultAddr
    match pagingGetPage m cr3 page with
    | some _ => (false, m)
    | none =>
      match pagingAllocEmptyFrame m with
      | (none, m) => (false, m)
      | (some phys, m) =>
        let m := pagingMapPageInvl m cr3 phys page
          { user := true, writable := true }
        match pagingGetPage m cr3 page with
        | none => (false, pmmFreePages m phys 1)
        | some _ => (true, m)

/-! ## Dropping mappings

Frames that go back are gathered into runs of neighbours and freed a run at a
time, in `vmm_unmap_free_pages` and in `paging_release_user_space` alike. -/

/-- A run of neighbouring frames waiting to be freed. -/
structure FreeRun where
  start : Frame := 0
  pages : Nat := 0
deriving DecidableEq, Repr

/-- `vmm_free_run` -/
def vmmFreeRun (m : Memory) (run : FreeRun) : Memory :=
  if run.pages = 0 then m else pmmFreePages m run.start run.pages

/-- Add a frame to the run, freeing the run first if this is no neighbour. -/
def freeRunAdd (f : Frame) (st : Memory × FreeRun) : Memory × FreeRun :=
  if st.2.pages ≠ 0 ∧ f = st.2.start + st.2.pages then
    (st.1, { st.2 with pages := st.2.pages + 1 })
  else (vmmFreeRun st.1 st.2, { start := f, pages := 1 })

/-- Clear the entry of slot `i` and let go of its frame: a device's frame is
not ours to free, a counted one goes with its last holder. -/
def unmapPte (cr3 : Cr3) (i : Nat) (st : Memory × FreeRun) : Memory × FreeRun :=
  let pte := st.1.pteAt cr3 i
  if !pte.present then st
  else
    let m := st.1.setPteAt cr3 i {}
    if pte.nofree then (m, st.2)
    else if pte.cow || pte.shared then
      let left := (cowUnrefPage m pte.phys).1
      let m := (cowUnrefPage m pte.phys).2
      if left ≠ 0 then (m, st.2) else freeRunAdd pte.phys (m, st.2)
    else freeRunAdd pte.phys (m, st.2)

/-- `vmm_unmap_free_pages`. The source steps over a missing page table a table
at a time; none of the pages under it is present. -/
def vmmUnmapFreePages (m : Memory) (cr3 : Cr3) (virt pageCount : Nat) : Memory :=
  if virt = 0 ∨ pageCount = 0 then m
  else
    let va := pageAlignDown virt
    let st := (List.range pageCount).foldl
      (fun st j =>
        if pagingGetTable st.1 cr3 (pageIdx (va + j * pageSize)) then
          unmapPte cr3 (pageIdx (va + j * pageSize)) st
        else st)
      (m, {})
    vmmFreeRun st.1 st.2

/-- Go over the `n` places of the table named `k`. -/
def overPlaces {σ : Type*} (n : Nat) (below : Nat → σ → σ) (k : Nat) (st : σ) : σ :=
  (List.range n).foldl (fun st i => below (k * n + i) st) st

/-- One table of `paging_release_user_space` and everything below it. -/
def releaseTable (cr3 : Cr3) (l : Nat)
    (below : Nat → Memory × FreeRun → Memory × FreeRun) (k : Nat)
    (st : Memory × FreeRun) : Memory × FreeRun :=
  match st.1.tableAt cr3 (l, k) with
  | none => st
  | some t =>
    let st := overPlaces 512 below k st
    ((pmmFreePages st.1 t 1).setTable cr3 (l, k) none, st.2)

/-- `paging_release_user_space` -/
def pagingReleaseUserSpace (m : Memory) (cr3 : Cr3) : Memory :=
  let st := overPlaces 256
    (releaseTable cr3 3 (releaseTable cr3 2 (releaseTable cr3 1 (unmapPte cr3))))
    0 (m, {})
  vmmFreeRun st.1 st.2

/-- `paging_create_address_space`: the name of the new space. Its kernel half
is shared with every other and not part of the model. -/
def pagingCreateAddressSpace (m : Memory) : Option Cr3 × Memory :=
  match pagingAllocEmptyFrame m with
  | (none, m) => (none, m)
  | (some p, m) =>
    (some m.spaces.length,
      { m with spaces := m.spaces ++ [some (AddrSpace.fresh p)] })

/-- `paging_destroy_address_space` -/
def pagingDestroyAddressSpace (m : Memory) (cr3 : Cr3) : Memory :=
  match m.tableAt cr3 (4, 0) with
  | none => m
  | some root =>
    let m := pagingReleaseUserSpace m cr3
    let m := pmmFreePages m root 1
    { m with spaces := m.spaces.set cr3 none }

/-! ## Fork -/

/-- Where `paging_clone_walk` has got to: the memory, and `*flushp`. -/
structure CloneWalk where
  m : Memory
  flush : Bool := false

/-- One entry of `paging_clone_walk`. The child's table is walked to for every
entry here and for the first one in the source, where the rest use what that
walk found. -/
def clonePte (parent child : Cr3) (i : Nat) (w : CloneWalk) : Bool × CloneWalk :=
  let pte := w.m.pteAt parent i
  if !pte.present then (true, w)
  else if !(pte.user || pte.protnone) then (true, w)
  else
    match pagingWalkPageTables w.m child i with
    | (false, m) => (false, { w with m })
    | (true, m) =>
      if pte.nofree then (true, { w with m := m.setPteAt child i pte })
      else if pte.shared then
        (true, { w with m := (cowRefPage m pte.phys).setPteAt child i pte })
      else if pte.writable || pte.cow then
        let w' : CloneWalk :=
          if pte.cow then { w with m }
          else
            { m := cowRefPage (m.setPteAt parent i pte.cowed) pte.phys,
              flush := true }
        (true, { w' with m := (cowRefPage w'.m pte.phys).setPteAt child i pte.cowed })
      else
        match pmmAllocPages m with
        | (none, m) => (false, { w with m })
        | (some f, m) =>
          let m := m.setBytes f (m.bytes pte.phys)
          (true, { w with m := m.setPteAt child i (pte.withPhys f) })

/-- `paging_table_empty`, on the table at level `l` named `k`. -/
def pagingTableEmpty (m : Memory) (cr3 : Cr3) (l k : Nat) : Bool :=
  (List.range 512).all fun i =>
    if l = 1 then m.pteAt cr3 (k * 512 + i) = {}
    else (m.tableAt cr3 (l - 1, k * 512 + i)).isNone

/-- `paging_drop_table` -/
def pagingDropTable (m : Memory) (cr3 : Cr3) (key : Nat × Nat) (t : Frame) :
    Memory :=
  pmmFreePages (m.setTable cr3 key none) t 1

/-- Go over the `n` places of the table named `k`, up to the first failure. -/
def tryPlaces {σ : Type*} (n : Nat) (below : Nat → σ → Bool × σ) (k : Nat) (st : σ) :
    Bool × σ :=
  forEach (fun i => below (k * n + i)) (List.range n) st

/-- One table of `paging_clone_walk`: what is below it, and then the table
itself if the walk found it empty. -/
def cloneTable (parent : Cr3) (l : Nat)
    (below : Nat → CloneWalk → Bool × CloneWalk) (k : Nat) (w : CloneWalk) :
    Bool × CloneWalk :=
  match w.m.tableAt parent (l, k) with
  | none => (true, w)
  | some t =>
    let r := tryPlaces 512 below k w
    if !r.1 then r
    else if pagingTableEmpty r.2.m parent l k then
      (true, { r.2 with m := pagingDropTable r.2.m parent (l, k) t })
    else r

/-- `paging_clone_walk` -/
def pagingCloneWalk (m : Memory) (parent child : Cr3) : Bool × CloneWalk :=
  if (m.tableAt parent (4, 0)).isNone || (m.tableAt child (4, 0)).isNone then
    (false, { m })
  else
    tryPlaces 256
      (cloneTable parent 3 (cloneTable parent 2 (cloneTable parent 1
        (clonePte parent child))))
      0 { m }

/-- `paging_clone_user_space`, up to the flushes it asks for. -/
def pagingCloneUserSpace (m : Memory) (parent child : Cr3) : Bool × Memory :=
  let r := pagingCloneWalk m parent child
  (r.1, r.2.m)

end BleedKernel.Mm
