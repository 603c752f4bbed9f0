import Mathlib.Order.WellFounded

/-!
# Paths that end

A relation is read as a graph. That every path along it ends is the form of
"no cycle" that a recursion along the edges needs, and unlike the absence of
cycles it asks nothing of the number of nodes.
-/

namespace BleedKernel.Lib

open Relation

variable {α : Type*} {r r' : α → α → Prop}

/-- Every path along `r` that starts in `a` ends. -/
def Ends (r : α → α → Prop) (a : α) : Prop := Acc (fun y x => r x y) a

theorem Ends.next {a b : α} (h : Ends r a) (hab : r a b) : Ends r b := h.inv hab

theorem Ends.of_next {a : α} (h : ∀ b, r a b → Ends r b) : Ends r a := Acc.intro a h

/-- To prove something of a node, prove it from all that the node leads to. -/
theorem Ends.induct {P : α → Prop} {a : α} (h : Ends r a)
    (hP : ∀ x, (∀ y, r x y → P y) → P x) : P a := by
  induction h with
  | intro x _ ih => exact hP x ih

theorem Ends.mono {a : α} (hsub : ∀ x y, r' x y → r x y) (h : Ends r a) : Ends r' a :=
  h.induct fun x ih => .of_next fun y hy => ih y (hsub x y hy)

theorem Ends.not_self {a : α} (h : Ends r a) : ¬ TransGen r a a := by
  refine h.induct (P := fun x => ¬ TransGen r x x) fun x ih hx => ?_
  obtain ⟨y, hxy, hyx⟩ := TransGen.head'_iff.mp hx
  exact ih y hxy (TransGen.tail' hyx hxy)

/-- New edges that all lead to `f` make no path endless if none of them starts
in a node that `f` leads to. -/
theorem Ends.of_added {f : α} (h : ∀ x, Ends r x)
    (hadd : ∀ x y, r' x y → r x y ∨ y = f ∧ ¬ ReflTransGen r f x) (a : α) : Ends r' a := by
  -- from `f` on, the new graph has no edge that the old one does not have
  have hfrom : ∀ x, ReflTransGen r f x → Ends r' x := by
    intro x
    refine (h x).induct (P := fun x => ReflTransGen r f x → Ends r' x) fun x ih hx => ?_
    refine .of_next fun y hxy => ?_
    rcases hadd x y hxy with hold | ⟨-, hno⟩
    · exact ih y hold (hx.tail hold)
    · exact absurd hx hno
  refine (h a).induct fun x ih => .of_next fun y hxy => ?_
  rcases hadd x y hxy with hold | ⟨rfl, -⟩
  · exact ih y hold
  · exact hfrom y .refl

end BleedKernel.Lib
