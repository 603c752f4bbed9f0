import Mathlib.Data.List.Basic
import Mathlib.Algebra.Ring.Nat

/-!
# Physical frames, reference counts and page tables

The state the memory code works on, and the three small modules at the bottom
of it: the frame allocator as its callers see it (`mm/pmm.c`), the table of
shared-frame counts (`mm/cow.c`) and the entries of the page tables.

Two things are left to the environment. `answers` is what `pmm_alloc_pages`
will say, one entry a call: a frame it found, or nothing when it found none;
every behaviour of the bitmap search is one such list, and an answer that is
not a free frame counts as a failure. `cowKmalloc` is what `kmalloc` will say
to `cow_init`, which asks again on every call until it has its table.

An address space is named by its position in `spaces`, where the source names
it by the frame in CR3; that frame is the table at level 4. The entry for a
page sits in the table at level 1 over it, that table is linked from the one at
level 2, and so on, each table covering 512 of the level below. No user mapping
is made with `PTE_PAT_4K` in a directory, so an entry above level 1 is a table
or nothing.
-/

namespace BleedKernel.Mm

open Function

/-- The size of a page, `PAGE_SIZE`. -/
def pageSize : Nat := 4096

/-- A physical frame, by number. Frame 0 is the allocator's word for none. -/
abbrev Frame := Nat

/-- An address space, by its place in `Memory.spaces`. -/
abbrev Cr3 := Nat

/-- `PAGE_ALIGN_DOWN` -/
def pageAlignDown (n : Nat) : Nat := n / pageSize * pageSize

/-- `PAGE_ALIGN_UP`, on a sum that does not wrap. -/
def pageAlignUp (n : Nat) : Nat := (n + (pageSize - 1)) / pageSize * pageSize

/-- A page table entry: the frame and the flag bits the kernel reads. The zero
entry is the default. -/
structure Pte where
  phys : Frame := 0
  present : Bool := false
  writable : Bool := false
  user : Bool := false
  cow : Bool := false
  nofree : Bool := false
  shared : Bool := false
  protnone : Bool := false
  nx : Bool := false
deriving DecidableEq, Repr, Inhabited

/-- The entry with another frame in it. -/
def Pte.withPhys (p : Pte) (f : Frame) : Pte := { p with phys := f }

/-- The entry that maps `f` with these flags. -/
def Pte.mapped (flags : Pte) (f : Frame) : Pte := { flags with phys := f, present := true }

/-- The entry as a fork leaves it: `PTE_COW` for `PTE_WRITABLE`. -/
def Pte.cowed (p : Pte) : Pte := { p with writable := false, cow := true }

/-- The entry as a copy-on-write fault leaves it. -/
def Pte.taken (p : Pte) : Pte := { p with writable := true, cow := false }

/-- The user half of one address space. `table (l, k)` is the frame of the
table at level `l` over pages `k * 512 ^ l` and up, `pte i` the entry of page
`i`. -/
structure AddrSpace where
  table : Nat × Nat → Option Frame
  pte : Nat → Pte

/-- A new address space, with its root and nothing else. -/
def AddrSpace.fresh (root : Frame) : AddrSpace :=
  { table := update (fun _ => none) (4, 0) (some root), pte := fun _ => {} }

/-- The number of page slots the four nine-bit indices can name. -/
def pageSlots : Nat := 2 ^ 36

/-- The page slot of an address: its four table indices, as one number. -/
def pageIdx (va : Nat) : Nat := va / pageSize % pageSlots

/-- Which table at level `l` lies over page slot `i`. -/
def tableKey (l i : Nat) : Nat × Nat := (l, i / 512 ^ l)

/-- What the memory code reads and writes. -/
structure Memory where
  /-- The bit of a frame is clear in the allocator's bitmap. -/
  free : Frame → Bool
  answers : List (Option Frame)
  cowReady : Bool
  cowKmalloc : List Bool
  cowRefs : Frame → Nat
  bytes : Frame → Nat → UInt8
  spaces : List (Option AddrSpace)

namespace Memory

/-- The address space named `cr3`, if it has not been destroyed. -/
def space (m : Memory) (cr3 : Cr3) : Option AddrSpace := (m.spaces[cr3]?).join

/-- The entry in page slot `i`; nothing is mapped where there is no space. -/
def pteAt (m : Memory) (cr3 : Cr3) (i : Nat) : Pte :=
  match m.space cr3 with
  | some sp => sp.pte i
  | none => {}

/-- The frame of a table, if it is linked. -/
def tableAt (m : Memory) (cr3 : Cr3) (key : Nat × Nat) : Option Frame :=
  match m.space cr3 with
  | some sp => sp.table key
  | none => none

/-- The entry for an address. -/
def pte (m : Memory) (cr3 : Cr3) (va : Nat) : Pte := m.pteAt cr3 (pageIdx va)

/-- Change one space, if it is there. -/
def updSpace (m : Memory) (cr3 : Cr3) (g : AddrSpace → AddrSpace) : Memory :=
  { m with spaces := m.spaces.modify cr3 (Option.map g) }

/-- Store an entry in page slot `i`. -/
def setPteAt (m : Memory) (cr3 : Cr3) (i : Nat) (p : Pte) : Memory :=
  m.updSpace cr3 fun sp => { sp with pte := update sp.pte i p }

/-- Link a table, or unlink one. -/
def setTable (m : Memory) (cr3 : Cr3) (key : Nat × Nat) (t : Option Frame) :
    Memory :=
  m.updSpace cr3 fun sp => { sp with table := update sp.table key t }

/-- Give a frame new contents. -/
def setBytes (m : Memory) (f : Frame) (b : Nat → UInt8) : Memory :=
  { m with bytes := update m.bytes f b }

end Memory

/-! ## `mm/pmm.c` -/

/-- `pmm_alloc_pages(1)` -/
def pmmAllocPages (m : Memory) : Option Frame × Memory :=
  match m.answers with
  | [] => (none, m)
  | none :: rest => (none, { m with answers := rest })
  | some f :: rest =>
    if f ≠ 0 ∧ m.free f = true then
      (some f, { m with free := update m.free f false, answers := rest })
    else (none, { m with answers := rest })

/-- `pmm_free_pages`: a bit that is clear already stays clear. -/
def pmmFreePages (m : Memory) (start : Frame) (count : Nat) : Memory :=
  { m with free := fun f =>
      m.free f || (decide (start ≤ f) && decide (f < start + count)) }

/-! ## `mm/cow.c` -/

/-- `cow_init`: the table of counts, all zero, the first time `kmalloc` has
room for it. -/
def cowInit (m : Memory) : Memory :=
  if m.cowReady then m
  else
    match m.cowKmalloc with
    | [] => m
    | false :: rest => { m with cowKmalloc := rest }
    | true :: rest =>
      { m with cowReady := true, cowRefs := fun _ => 0, cowKmalloc := rest }

/-- `cow_ref_page`, on a `uint32_t` count. Without the table it does nothing. -/
def cowRefPage (m : Memory) (f : Frame) : Memory :=
  let m := cowInit m
  if m.cowReady then
    { m with cowRefs := update m.cowRefs f ((m.cowRefs f + 1) % 2 ^ 32) }
  else m

/-- `cow_unref_page`: the count that is left, and 0 also when there was none. -/
def cowUnrefPage (m : Memory) (f : Frame) : Nat × Memory :=
  let m := cowInit m
  if m.cowReady then
    if 0 < m.cowRefs f then
      (m.cowRefs f - 1,
        { m with cowRefs := update m.cowRefs f (m.cowRefs f - 1) })
    else (0, m)
  else (0, m)

/-- `cow_get_refcount` -/
def cowGetRefcount (m : Memory) (f : Frame) : Nat × Memory :=
  let m := cowInit m
  if m.cowReady then (m.cowRefs f, m) else (0, m)

end BleedKernel.Mm
