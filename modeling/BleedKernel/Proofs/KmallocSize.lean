import BleedKernel.Model.Kalloc

/-!
# How much `kmalloc` reserves
-/

namespace BleedKernel.Kalloc

open Mm

/-- The bytes asked for are there. -/
def Block.Holds (b : Block) (bytes : Nat) : Prop :=
  b.start ≤ b.ptr ∧ b.ptr + bytes ≤ b.start + b.length

theorem classFor_size {bytes : Nat} (h : classFor bytes ≠ sizeClasses.length) :
    bytes ≤ sizeClasses.getD (classFor bytes) 0 ∧ sizeClasses.getD (classFor bytes) 0 ≤ 2048 := by
  have hlt : classFor bytes < sizeClasses.length := Nat.lt_of_le_of_ne List.findIdx_le_length h
  have hge := List.findIdx_getElem (w := hlt)
  rw [decide_eq_true_eq] at hge
  have hsize : sizeClasses.getD (classFor bytes) 0 = sizeClasses[classFor bytes] := by
    rw [List.getD_eq_getElem?_getD, List.getElem?_eq_getElem hlt, Option.getD_some]
  have hmax : ∀ c ∈ sizeClasses, c ≤ 2048 := by decide
  rw [hsize]
  refine ⟨Nat.le_trans ?_ hge, hmax _ (List.getElem_mem hlt)⟩
  split <;> omega

/-- For a size of 64 bits, what `kmalloc` hands out is large enough exactly if the header
can be added to the size. -/
theorem kmalloc_holds_iff (bytes : Nat) (slot : (ci : Nat) → Option (Nat × Fin (slabTotal ci)))
    (vmm : Nat → Option Nat) (b : Block) (hb : bytes < 2 ^ 64)
    (h : kmalloc bytes slot vmm = some b) :
    b.Holds bytes ↔ bytes + largeHdrBytes ≤ 2 ^ 64 := by
  unfold kmalloc at h
  split at h
  · cases h
  dsimp only at h
  split at h
  · obtain ⟨mem, hmem, rfl⟩ := Option.map_eq_some_iff.mp h
    unfold vmmAllocPages at hmem
    split at hmem
    · cases hmem
    unfold Block.Holds
    unfold pageSize at *
    dsimp only
    omega
  · next hc =>
    obtain ⟨⟨page, i⟩, -, rfl⟩ := Option.map_eq_some_iff.mp h
    obtain ⟨hle, hmax⟩ := classFor_size hc
    unfold Block.Holds largeHdrBytes
    dsimp only
    omega

/-- A page, and no slab. -/
theorem kmalloc_holds_page : (⟨4112, 4096, 4096⟩ : Block).Holds 4080 :=
  (kmalloc_holds_iff 4080 (fun _ => none) (fun _ => some 4096) _ (by decide) rfl).mpr (by decide)

/-- One byte less than the address space: the sum with the header is 15. -/
theorem kmalloc_wraps :
    kmalloc (2 ^ 64 - 1) (fun _ => none) (fun _ => some 4096) = some ⟨4112, 4096, 4096⟩ ∧
    ¬(⟨4112, 4096, 4096⟩ : Block).Holds (2 ^ 64 - 1) :=
  ⟨rfl, fun h => absurd h.2 (by decide)⟩

end BleedKernel.Kalloc
