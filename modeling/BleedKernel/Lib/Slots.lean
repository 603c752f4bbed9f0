import Mathlib.Algebra.BigOperators.Group.List.Basic
import Mathlib.Algebra.Ring.Nat

/-!
# Tables of slots that are overwritten in place

A table is a function on the slots or a list of them. A write moves the sum of a
weight over a list by the difference of two weights. Where `P` picks the slots of some
kind and there is at most one of them, it picks the same ones after a write to another
slot, and the new content alone after a write to the only one, or to a free one when
there was none.
-/

namespace BleedKernel.Lib

open List Function

variable {α : Type*} {P : α → Bool} {l : List α} {i : Nat} {a b : α}

section Functions

variable {κ β : Type*} [DecidableEq κ] {f : κ → Option β} {k k' : κ} {x y : β}

theorem update_some (h : update f k (some x) k' = some y) :
    (k' = k ∧ y = x) ∨ (k' ≠ k ∧ f k' = some y) := by
  rw [update_apply] at h
  split at h
  · exact .inl ⟨‹_›, (Option.some.inj h).symm⟩
  · exact .inr ⟨‹_›, h⟩

theorem update_none (h : update f k none k' = some y) : k' ≠ k ∧ f k' = some y := by
  rw [update_apply] at h
  split at h
  · exact nomatch h
  · exact ⟨‹_›, h⟩

/-- One more member of one set of a family. -/
theorem mem_push {α : Type*} {d : κ → List α} {a m : α} :
    m ∈ update d k (a :: d k) k' ↔ m ∈ d k' ∨ (m = a ∧ k' = k) := by
  rw [update_apply]
  split
  · rename_i hk
    subst hk
    rw [or_comm]
    simp
  · next hk => simp [hk]

theorem nodup_push {α : Type*} {d : κ → List α} {a : α} (hd : ∀ k, (d k).Nodup) (ha : a ∉ d k) :
    (update d k (a :: d k) k').Nodup := by
  rw [update_apply]
  split
  · exact nodup_cons.mpr ⟨ha, hd k⟩
  · exact hd k'

end Functions

theorem sum_set (w : α → Nat) (ha : l[i]? = some a) :
    ((l.set i b).map w).sum + w a = (l.map w).sum + w b := by
  obtain ⟨hlt, rfl⟩ := List.getElem?_eq_some_iff.mp ha
  have h1 := ((List.set_perm_cons_eraseIdx hlt b).map w).sum_eq
  have h2 := ((List.getElem_cons_eraseIdx_perm hlt).map w).sum_eq
  rw [List.map_cons, List.sum_cons] at h1 h2
  omega

theorem eq_or_mem_of_mem_set {x : α} (h : x ∈ l.set i b) : x = b ∨ x ∈ l.eraseIdx i := by
  by_cases hlt : i < l.length
  · exact mem_cons.mp ((set_perm_cons_eraseIdx hlt b).mem_iff.mp h)
  · rw [set_eq_of_length_le (by omega)] at h
    exact .inr (by rwa [eraseIdx_of_length_le (by omega)])

theorem filter_set_of_other (ha : l[i]? = some a) (hPa : P a = false) (hPb : P b = false) :
    (l.set i b).filter P = l.filter P := by
  induction l generalizing i with
  | nil => rfl
  | cons x l ih =>
    cases i with
    | zero =>
      cases ha
      simp [hPa, hPb]
    | succ i => simp [filter_cons, ih ha]

theorem filter_set_of_none (ha : l[i]? = some a) (hl : l.filter P = []) :
    (l.set i b).filter P = [b].filter P := by
  induction l generalizing i with
  | nil => cases ha
  | cons x l ih =>
    obtain ⟨hx, hrest⟩ : P x = false ∧ l.filter P = [] := by
      cases hx : P x with
      | true => simp [hx] at hl
      | false => simpa [hx] using hl
    cases i with
    | zero => simp [filter_cons, hrest]
    | succ i =>
      rw [set_cons_succ, filter_cons, hx]
      exact ih ha hrest

theorem filter_set_of_only (ha : l[i]? = some a) (hPa : P a = true) (hl : l.filter P = [a]) :
    (l.set i b).filter P = [b].filter P := by
  induction l generalizing i with
  | nil => cases ha
  | cons x l ih =>
    cases i with
    | zero =>
      cases ha
      have hrest : l.filter P = [] := by simpa [hPa] using hl
      simp [filter_cons, hrest]
    | succ i =>
      have hmem : a ∈ l.filter P := mem_filter.mpr ⟨mem_of_getElem? ha, hPa⟩
      have hx : P x = false := by
        cases hx : P x with
        | false => rfl
        | true =>
          rw [filter_cons, if_pos hx] at hl
          obtain ⟨-, hnil⟩ := cons.inj hl
          rw [hnil] at hmem
          cases hmem
      rw [set_cons_succ, filter_cons, hx]
      refine ih ha ?_
      rwa [filter_cons, hx] at hl

end BleedKernel.Lib
