import BleedKernel.Model.Memory

/-!
# The sizes of `mm/kalloc.c`

A small request gets an object of a slab of its class, a large one whole pages with a
header in front. `size_t` has 64 bits.
-/

namespace BleedKernel.Kalloc

open Mm

/-- `SIZE_CLASSES` -/
def sizeClasses : List Nat := [8, 16, 32, 64, 128, 256, 512, 1024, 2048]

/-- `class_for` -/
def classFor (bytes : Nat) : Nat := sizeClasses.findIdx (· ≥ if bytes < 8 then 8 else bytes)

/-- `hdr_bytes` of `slab_init_page`; a `slab_hdr_t` has 48 bytes. -/
def slabHdrBytes : Nat := (48 + 8 - 1) / 8 * 8

/-- `total` of `slab_init_page`: how many objects are in a slab. -/
def slabTotal (ci : Nat) : Nat := (pageSize - slabHdrBytes) / sizeClasses.getD ci 0

/-- `sizeof(large_hdr_t)` -/
def largeHdrBytes : Nat := 16

/-- What is handed out, and the part of a page or the pages that it is from. -/
structure Block where
  ptr : Nat
  start : Nat
  length : Nat

/-- `vmm_alloc_pages` -/
def vmmAllocPages (vmm : Nat → Option Nat) (pages : Nat) : Option Nat :=
  if pages = 0 then none else vmm pages

/-- `kmalloc`, the first object of the freelist of a slab being `slot ci`: the page and
which of its objects. -/
def kmalloc (bytes : Nat) (slot : (ci : Nat) → Option (Nat × Fin (slabTotal ci)))
    (vmm : Nat → Option Nat) : Option Block :=
  if bytes = 0 then none
  else
    let ci := classFor bytes
    if ci = sizeClasses.length then
      let totalBytes := (bytes + largeHdrBytes) % 2 ^ 64
      let pages := (totalBytes + pageSize - 1) % 2 ^ 64 / pageSize
      (vmmAllocPages vmm pages).map fun mem =>
        { ptr := mem + largeHdrBytes, start := mem, length := pages * pageSize }
    else
      (slot ci).map fun (page, i) =>
        let obj := page + slabHdrBytes + i * sizeClasses.getD ci 0
        { ptr := obj, start := obj, length := sizeClasses.getD ci 0 }

end BleedKernel.Kalloc
