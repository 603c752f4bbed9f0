import Mathlib.Data.List.Nodup

/-!
# Linked lists in a store

Each node names its neighbours through functions on the nodes, and a root names
the first of them. `Lead` reads such a chain: from the root `h` the function
`next` passes over exactly the nodes `xs` and arrives at `e`. A list that is
linked both ways is two such chains over the same nodes, one of them backwards.

The edits are stated on whatever the store has become: only the cells that an
edit writes are described, and the others need to agree on the nodes of the list
alone. So one store may hold many lists, and a node's other fields do not matter.
-/

namespace BleedKernel.Lib

open List

variable {α : Type*} {next next' prev prev' : α → Option α}
variable {h h' t t' e e' : Option α} {a : α} {xs l r : List α}

/-- From `h`, following `next` over the nodes `xs` arrives at `e`. -/
def Lead (next : α → Option α) : Option α → List α → Option α → Prop
  | h, [], e => h = e
  | h, a :: xs, e => h = some a ∧ Lead next (next a) xs e

theorem lead_append : Lead next h (l ++ r) e ↔ ∃ m, Lead next h l m ∧ Lead next m r e := by
  induction l generalizing h with
  | nil => simp [Lead]
  | cons a l ih => simp [Lead, ih, and_assoc]

theorem lead_middle :
    Lead next h (l ++ a :: r) e ↔ Lead next h l (some a) ∧ Lead next (next a) r e := by
  rw [lead_append]
  constructor
  · rintro ⟨m, hl, rfl, hr⟩
    exact ⟨hl, hr⟩
  · rintro ⟨hl, hr⟩
    exact ⟨some a, hl, rfl, hr⟩

theorem lead_concat : Lead next h (l ++ [a]) e ↔ Lead next h l (some a) ∧ next a = e := by
  rw [lead_middle]
  rfl

theorem Lead.congr (hl : Lead next h xs e) (hag : ∀ x ∈ xs, next' x = next x) :
    Lead next' h xs e := by
  induction xs generalizing h with
  | nil => exact hl
  | cons a xs ih =>
    refine ⟨hl.1, ?_⟩
    rw [hag a (by simp)]
    exact ih hl.2 fun x hx => hag x (by simp [hx])

theorem Lead.root (hl : Lead next h xs e) : h = xs.head?.or e := by
  cases xs with
  | nil => simpa [Lead] using hl
  | cons a xs => simpa using hl.1

theorem Lead.head_eq (hl : Lead next h xs none) : h = xs.head? := by
  simpa using hl.root

/-- Induction for a loop that goes over the nodes of a chain, with fuel for one round
more than there are nodes. -/
@[elab_as_elim] theorem fuel_induction {motive : (xs : List α) → (n : Nat) → xs.length < n → Prop}
    (nil : ∀ n, motive [] (n + 1) (Nat.succ_pos n))
    (cons : ∀ a xs n hn, motive xs n hn → motive (a :: xs) (n + 1) (Nat.succ_lt_succ hn))
    (xs : List α) (n : Nat) (hn : xs.length < n) : motive xs n hn := by
  induction xs generalizing n with
  | nil => obtain ⟨n, rfl⟩ := Nat.exists_eq_succ_of_ne_zero (Nat.ne_of_gt hn); exact nil n
  | cons a xs ih =>
    obtain ⟨n, rfl⟩ := Nat.exists_eq_succ_of_ne_zero (Nat.ne_zero_of_lt hn)
    exact cons a xs n (Nat.lt_of_succ_lt_succ hn) (ih n _)

/-! ## Writing one cell of a chain

The cell that leads out of a chain is the `next` field of its last node, or the
root when there is none. `Stored` says that `v` was stored in the cell named so,
and that the nodes `xs` are otherwise as they were. -/

/-- `next'` and `h'` are `next` and `h` on `xs`, with `v` stored in the field of
the node `c`, or in the root when there is no such node. -/
def Stored (next next' : α → Option α) (h h' c v : Option α) (xs : List α) : Prop :=
  (match c with
    | none => h' = v
    | some p => h' = h ∧ next' p = v) ∧
  ∀ x ∈ xs, c ≠ some x → next' x = next x

theorem Stored.lead {v : Option α} (hs : Stored next next' h h' xs.getLast? v xs)
    (hl : Lead next h xs e) (hnd : xs.Nodup) : Lead next' h' xs v := by
  obtain ⟨hc, hag⟩ := hs
  rcases eq_nil_or_concat xs with rfl | ⟨ys, p, rfl⟩
  · exact hc
  rw [concat_eq_append] at hnd hl hc hag ⊢
  rw [getLast?_concat] at hc hag
  rw [lead_concat] at hl ⊢
  have hp : p ∉ ys := by
    rw [nodup_append] at hnd
    exact fun hy => hnd.2.2 p hy p (by simp) rfl
  obtain ⟨hroot, hv⟩ := hc
  rw [hroot]
  refine ⟨hl.1.congr fun x hx => hag x (by simp [hx]) ?_, hv⟩
  intro heq
  rw [Option.some.injEq] at heq
  exact hp (heq ▸ hx)

theorem Stored.mono {c v : Option α} (hs : Stored next next' h h' c v xs)
    (hsub : ∀ x ∈ l, x ∈ xs) : Stored next next' h h' c v l :=
  ⟨hs.1, fun x hx => hs.2 x (hsub x hx)⟩

/-- The cells of a chain beyond the one that was written. -/
theorem Stored.beyond {c v : Option α} (hs : Stored next next' h h' c v xs)
    {m : Option α} (hr : Lead next m r e) (hsub : ∀ x ∈ r, x ∈ xs)
    (hc : ∀ x ∈ r, c ≠ some x) : Lead next' m r e :=
  hr.congr fun x hx => hs.2 x (hsub x hx) (hc x hx)

/-! ## Lists linked both ways -/

/-- `xs` are the nodes from the root `h` to the root `t`. -/
structure Linked (next prev : α → Option α) (h t : Option α) (xs : List α) : Prop where
  fwd : Lead next h xs none
  bwd : Lead prev t xs.reverse none
  nodup : xs.Nodup

theorem Linked.nil : Linked next prev none none [] := ⟨rfl, rfl, nodup_nil⟩

section

variable (hl : Linked next prev h t xs)

include hl

theorem Linked.head_eq : h = xs.head? := hl.fwd.head_eq

theorem Linked.tail_eq : t = xs.getLast? := by
  rw [hl.bwd.head_eq, head?_reverse]

theorem Linked.head_isNone : h = none ↔ xs = [] := by
  rw [hl.head_eq, head?_eq_none_iff]

theorem Linked.congr (hn : ∀ x ∈ xs, next' x = next x)
    (hp : ∀ x ∈ xs, prev' x = prev x) : Linked next' prev' h t xs :=
  ⟨hl.fwd.congr hn, hl.bwd.congr fun x hx => hp x (by simpa using hx), hl.nodup⟩

theorem Linked.symm : Linked prev next t h xs.reverse :=
  ⟨hl.bwd, by rw [reverse_reverse]; exact hl.fwd, nodup_reverse.2 hl.nodup⟩

end

/-- A node's own cells, read off its place in the list. -/
theorem Linked.next_eq (hl : Linked next prev h t (l ++ a :: r)) : next a = r.head? :=
  (lead_middle.1 hl.fwd).2.head_eq

theorem Linked.prev_eq (hl : Linked next prev h t (l ++ a :: r)) : prev a = l.getLast? := by
  have hb := hl.bwd
  rw [reverse_append, reverse_cons, append_assoc, singleton_append, lead_middle] at hb
  rw [hb.2.head_eq, head?_reverse]

/-- A node put behind the last one. -/
theorem Linked.push (hl : Linked next prev h t xs) (ha : a ∉ xs) (hna : next' a = none)
    (hpa : prev' a = t) (hst : Stored next next' h h' t (some a) xs)
    (hp : ∀ x ∈ xs, prev' x = prev x) :
    Linked next' prev' h' (some a) (xs ++ [a]) := by
  refine ⟨?_, ?_, ?_⟩
  · rw [lead_concat]
    rw [hl.tail_eq] at hst
    exact ⟨hst.lead hl.fwd hl.nodup, hna⟩
  · rw [reverse_append]
    refine ⟨rfl, ?_⟩
    rw [hpa]
    exact hl.bwd.congr fun x hx => hp x (by simpa using hx)
  · exact hl.nodup.append (nodup_singleton a) (by simpa using ha)

/-- A node taken out of a chain: its successor is stored in the cell that led to it. -/
theorem Lead.unlink (hl : Lead next h (l ++ a :: r) none) (hnd : (l ++ r).Nodup)
    (hst : Stored next next' h h' l.getLast? (next a) (l ++ r)) :
    Lead next' h' (l ++ r) none := by
  obtain ⟨hl1, hl2⟩ := lead_middle.1 hl
  refine lead_append.2 ⟨next a, ?_, ?_⟩
  · exact (hst.mono fun x hx => by simp [hx]).lead hl1 (nodup_append.1 hnd).1
  · refine hst.beyond hl2 (fun x hx => by simp [hx]) fun x hx heq => ?_
    have hlast : x ∈ l := mem_of_getLast? heq
    exact (nodup_append.1 hnd).2.2 x hlast x hx rfl

theorem Linked.unlink_fwd (hl : Linked next prev h t (l ++ a :: r))
    (hst : Stored next next' h h' (prev a) (next a) (l ++ r)) :
    Lead next' h' (l ++ r) none := by
  rw [hl.prev_eq] at hst
  exact hl.fwd.unlink (hl.nodup.sublist (by simp)) hst

/-- A node taken out: its neighbours, or the roots, are given each other. -/
theorem Linked.unlink (hl : Linked next prev h t (l ++ a :: r))
    (hfwd : Stored next next' h h' (prev a) (next a) (l ++ r))
    (hbwd : Stored prev prev' t t' (next a) (prev a) (l ++ r)) :
    Linked next' prev' h' t' (l ++ r) := by
  refine ⟨hl.unlink_fwd hfwd, ?_, hl.nodup.sublist (by simp)⟩
  have hrev : Linked prev next t h (r.reverse ++ a :: l.reverse) := by
    simpa using hl.symm
  rw [reverse_append]
  exact hrev.unlink_fwd (hbwd.mono fun x hx => by simpa [or_comm] using hx)

end BleedKernel.Lib
