import Mathlib.Algebra.BigOperators.Intervals
import Mathlib.Algebra.Order.BigOperators.Group.Finset

/-!
# Tallies: adding up a weight over the cells of a finite store

`tally S F g` adds the weight `g` of what the store `F` holds over the cells in
`S`. A proof about reference counts never looks at the sum itself: it needs
that writing one cell moves the sum by the difference of two weights, that a
cell with a weight is seen in the sum, and that two such cells are seen twice.
-/

namespace BleedKernel.Lib

open Finset Function

variable {ι α : Type*}

variable {S : Finset ι} {F : ι → α} {g : α → Nat} {a : ι}

/-- The weight `g` of the store `F`, over the cells of `S`. -/
def tally (S : Finset ι) (F : ι → α) (g : α → Nat) : Nat := ∑ x ∈ S, g (F x)

theorem tally_congr {F' : ι → α} {g' : α → Nat}
    (h : ∀ x ∈ S, g' (F' x) = g (F x)) : tally S F' g' = tally S F g :=
  sum_congr rfl h

/-- One write moves the tally by the weight that came and the weight that
went. -/
theorem tally_update [DecidableEq ι] {b : α} (ha : a ∈ S) :
    tally S (update F a b) g + g (F a) = tally S F g + g b := by
  unfold tally
  have hrest : ∑ x ∈ S.erase a, g (update F a b x) = ∑ x ∈ S.erase a, g (F x) := by
    refine sum_congr rfl fun x hx => ?_
    rw [update_of_ne (ne_of_mem_erase hx)]
  rw [← add_sum_erase S _ ha, ← add_sum_erase S (fun x => g (F x)) ha, update_self]
  omega

theorem le_tally (ha : a ∈ S) : g (F a) ≤ tally S F g :=
  single_le_sum (f := fun x => g (F x)) (fun _ _ => Nat.zero_le _) ha

/-- Two cells are counted separately. -/
theorem add_le_tally [DecidableEq ι] {b : ι} (ha : a ∈ S) (hb : b ∈ S) (hne : a ≠ b) :
    g (F a) + g (F b) ≤ tally S F g := by
  unfold tally
  rw [← add_sum_erase S (fun x => g (F x)) ha]
  have : g (F b) ≤ ∑ x ∈ S.erase a, g (F x) :=
    single_le_sum (f := fun x => g (F x)) (fun _ _ => Nat.zero_le _) (mem_erase.mpr ⟨hne.symm, hb⟩)
  omega

theorem tally_eq_zero (h : ∀ x ∈ S, g (F x) = 0) : tally S F g = 0 := sum_eq_zero h

/-- A positive tally has a cell to show for it. -/
theorem exists_of_tally_pos (h : 0 < tally S F g) : ∃ x ∈ S, 0 < g (F x) := sum_pos_iff.mp h

theorem tally_le {F' : ι → α} (h : ∀ x ∈ S, g (F' x) ≤ g (F x)) : tally S F' g ≤ tally S F g :=
  sum_le_sum h

/-- The last row of a table, apart from the rows before it. -/
theorem tally_range_succ {n : Nat} {T : Finset ι} {F : Nat × ι → α} : tally (range (n + 1) ×ˢ T) F g
      = tally (range n ×ˢ T) F g + tally T (fun y => F (n, y)) g := by
  unfold tally
  rw [sum_product, sum_product, sum_range_succ]

/-- A store with weight in one cell only. -/
theorem tally_eq_single (ha : a ∈ S) (h : ∀ x ∈ S, x ≠ a → g (F x) = 0) : tally S F g = g (F a) :=
  sum_eq_single_of_mem a ha h

/-- Two rows of a table are counted separately. -/
theorem rows_le_tally {κ : Type*} [DecidableEq κ] {S : Finset κ} {T : Finset ι}
    {F : κ × ι → α} {a b : κ} (ha : a ∈ S) (hb : b ∈ S) (hne : a ≠ b) :
    tally T (fun y => F (a, y)) g + tally T (fun y => F (b, y)) g ≤ tally (S ×ˢ T) F g := by
  have hrows : tally (S ×ˢ T) F g = tally S (fun x => tally T (fun y => F (x, y)) g) id := by
    exact sum_product _ _ _
  rw [hrows]
  exact add_le_tally (F := fun x => tally T (fun y => F (x, y)) g) (g := id) ha hb hne

theorem tally_add {h : α → Nat} : tally S F (fun x => g x + h x) = tally S F g + tally S F h :=
  sum_add_distrib

/-- A cell is added at the end. -/
theorem tally_push {n : Nat} {F : Nat → α} {b : α} :
    tally (range (n + 1)) (update F n b) g = tally (range n) F g + g b := by
  unfold tally
  rw [sum_range_succ, update_self]
  congr 1
  refine sum_congr rfl fun x hx => ?_
  rw [update_of_ne (Nat.ne_of_lt (mem_range.mp hx))]

end BleedKernel.Lib
