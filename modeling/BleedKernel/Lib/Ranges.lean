import Mathlib.Data.List.Basic

/-!
# Lists of ranges, one after the other

A list whose elements carry half-open ranges `[start, stop)`, none empty, each
one ending before the next begins, all within `[lo, hi]`. Said along the list
it is a recursion, which is the shape every loop over such a list has; said of
the list as a whole it is that the ranges are sorted, disjoint and in bounds.
-/

namespace BleedKernel.Lib

variable {α : Type*} {start stop : α → Nat}

variable {hi lo : Nat} {l : List α}

/-- The ranges of the list follow each other from `lo` on and end by `hi`. -/
def Ranges (start stop : α → Nat) (hi : Nat) : Nat → List α → Prop
  | lo, [] => lo ≤ hi
  | lo, a :: l => lo ≤ start a ∧ start a < stop a ∧ Ranges start stop hi (stop a) l

namespace Ranges

section

variable (h : Ranges start stop hi lo l)

include h

theorem le : lo ≤ hi := by
  induction l generalizing lo with
  | nil => exact h
  | cons a l ih => have := ih h.2.2; have := h.1; have := h.2.1; omega

theorem weaken {lo' : Nat} (hle : lo' ≤ lo) : Ranges start stop hi lo' l := by
  cases l with
  | nil => exact Nat.le_trans hle h
  | cons a l => exact ⟨Nat.le_trans hle h.1, h.2⟩

theorem bounds {a : α} (ha : a ∈ l) : lo ≤ start a ∧ start a < stop a ∧ stop a ≤ hi := by
  induction l generalizing lo with
  | nil => cases ha
  | cons b l ih =>
    rcases List.mem_cons.mp ha with rfl | ha
    · exact ⟨h.1, h.2.1, h.2.2.le⟩
    have := ih h.2.2 ha
    have := h.1
    have := h.2.1
    exact ⟨by omega, by omega, by omega⟩

theorem pairwise : l.Pairwise fun a b => stop a ≤ start b := by
  induction l generalizing lo with
  | nil => exact .nil
  | cons a l ih =>
    exact List.pairwise_cons.mpr ⟨fun b hb => (h.2.2.bounds hb).1, ih h.2.2⟩

end

/-- From the list as a whole to along the list. -/
theorem of_pairwise (hp : l.Pairwise fun a b => stop a ≤ start b)
    (hb : ∀ a ∈ l, lo ≤ start a ∧ start a < stop a ∧ stop a ≤ hi) (hle : lo ≤ hi) :
    Ranges start stop hi lo l := by
  induction l generalizing lo with
  | nil => exact hle
  | cons a l ih =>
    rw [List.pairwise_cons] at hp
    have ha := hb a (by simp)
    exact ⟨ha.1, ha.2.1, ih hp.2 (fun b hb' => ⟨hp.1 b hb', (hb b (by simp [hb'])).2⟩) ha.2.2⟩

theorem sublist {l' : List α} (h : Ranges start stop hi lo l)
    (hs : l'.Sublist l) : Ranges start stop hi lo l' :=
  of_pairwise (h.pairwise.sublist hs) (fun _ ha => h.bounds (hs.subset ha)) h.le

/-- An element may be replaced by ranges that lie inside it. -/
theorem replace {a : α} {xs : List α} (h : Ranges start stop hi lo (a :: l))
    (hx : Ranges start stop (stop a) (start a) xs) :
    Ranges start stop hi lo (xs ++ l) := by
  have aux : ∀ (xs : List α) lo', lo' ≥ lo → Ranges start stop (stop a) lo' xs →
      Ranges start stop hi lo' (xs ++ l) := by
    intro xs
    induction xs with
    | nil => intro lo' _ h'; exact h.2.2.weaken h'
    | cons x xs ih =>
      intro lo' hlo h'
      have := h'.1
      have := h'.2.1
      exact ⟨h'.1, h'.2.1, ih _ (by omega) h'.2.2⟩
  exact (aux xs (start a) h.1 hx).weaken h.1

end Ranges

end BleedKernel.Lib
