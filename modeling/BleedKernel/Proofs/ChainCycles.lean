import BleedKernel.Model.ChainGuard
import Mathlib.Algebra.Ring.Nat
import Mathlib.Data.Nat.Log
import Mathlib.Data.Finset.Card

/-!
# Cycles are noticed

The mark is at place `2 ^ k - 1` of the chain while the next `2 ^ k` clusters are looked at,
so it is met again in the first window that starts on the cycle and is as long.
-/

namespace BleedKernel.Fat

variable {x : Nat → UInt32} {i : Nat} {g : ChainGuard}

theorem chainGuardStep_eq_none {next : UInt32} : chainGuardStep g next = none ↔ next = g.mark := by
  unfold chainGuardStep
  split
  · simp [*]
  · split <;> simp [*]

/-- What the guard knows: the mark is at place `m`, and `len` clusters have come since. In a
chain that is not too long the places of the marks are given by the powers of two. -/
structure Watches (x : Nat → UInt32) (i m : Nat) (g : ChainGuard) : Prop where
  le : m ≤ i
  mark : g.mark = x m
  window : i ≤ 2 ^ 30 → g.power.toNat = m + 1 ∧ g.len.toNat + m = i ∧ i ≤ 2 * m ∧
    ∃ k, m + 1 = 2 ^ k

theorem guardAfter_watches (h : guardAfter x i = some g) : ∃ m, Watches x i m g := by
  induction i generalizing g with
  | zero =>
    cases h
    exact ⟨0, Nat.le_refl 0, rfl, fun _ => ⟨rfl, rfl, Nat.le_refl 0, 0, rfl⟩⟩
  | succ i ih =>
    obtain ⟨g₀, h₀, hstep⟩ := Option.bind_eq_some_iff.mp h
    obtain ⟨m, hle, hmark, hw⟩ := ih h₀
    have hnext : i < 2 ^ 30 → (g₀.len + 1).toNat = i - m + 1 := by
      intro hi
      obtain ⟨-, hlen, -⟩ := hw (by omega)
      simp
      omega
    unfold chainGuardStep at hstep
    split at hstep
    · cases hstep
    split at hstep
    · rename_i hfull
      cases hstep
      refine ⟨i + 1, Nat.le_refl _, rfl, fun hi => ?_⟩
      obtain ⟨hpower, -, -, k, hk⟩ := hw (by omega)
      rw [← UInt32.toNat_inj] at hfull
      refine ⟨?_, by simp, by omega, k + 1, by omega⟩
      rw [if_pos (UInt32.lt_iff_toNat_lt.mpr (by simp; omega))]
      simp
      omega
    · rename_i hmore
      cases hstep
      refine ⟨m, by omega, hmark, fun hi => ?_⟩
      obtain ⟨hpower, hlen, h2, hk⟩ := hw (by omega)
      rw [← UInt32.toNat_inj] at hmore
      exact ⟨hpower, by rw [hnext hi]; omega, by omega, hk⟩

/-- A chain of few clusters comes back to where it was. -/
theorem exists_cycle {next : UInt32 → UInt32} {s : Finset UInt32}
    (hnext : ∀ i, x (i + 1) = next (x i)) (hs : ∀ i, x i ∈ s) :
    ∃ tail cycle, 0 < cycle ∧ tail + cycle ≤ s.card ∧ ∀ i ≥ tail, x (i + cycle) = x i := by
  have hcard : s.card < (Finset.range (s.card + 1)).card := by simp
  obtain ⟨a, ha, b, hb, hne, hab⟩ :=
    Finset.exists_ne_map_eq_of_card_lt_of_maps_to hcard fun i _ => hs i
  wlog hlt : a < b generalizing a b
  · exact this b hb a ha hne.symm hab.symm (by omega)
  rw [Finset.mem_range] at hb
  refine ⟨a, b - a, by omega, by omega, fun i hi => ?_⟩
  induction i, hi using Nat.le_induction with
  | base => rw [show a + (b - a) = b by omega, hab]
  | succ i hi ih => rw [show i + 1 + (b - a) = i + (b - a) + 1 by omega, hnext, ih, hnext]

/-- The guard stops a chain only at a cluster it had before, whatever the chain is. One that
follows the table of clusters is stopped before it is four times as long as it has clusters. -/
theorem chain_guard_stops_cycles (x : Nat → UInt32) :
    (∀ i g, guardAfter x i = some g → chainGuardStep g (x (i + 1)) = none →
      ∃ j ≤ i, x j = x (i + 1)) ∧
    ∀ (next : UInt32 → UInt32) (s : Finset UInt32), (∀ i, x (i + 1) = next (x i)) →
      (∀ c, c ∈ s ↔ ∃ i, x i = c) → s.card ≤ 2 ^ 28 →
      ∃ i ≤ 4 * s.card, guardAfter x i = none := by
  constructor
  · intro i g h hstop
    obtain ⟨m, hle, hmark, -⟩ := guardAfter_watches h
    exact ⟨m, hle, by rw [chainGuardStep_eq_none.mp hstop, hmark]⟩
  · intro next s hnext hs hn
    obtain ⟨tail, cycle, hpos, hle, hx⟩ := exists_cycle hnext fun i => (hs _).mpr ⟨i, rfl⟩
    -- the window from place `p` on starts on the cycle and is as long
    obtain ⟨p, k, hp, hlo, hhi⟩ : ∃ p k, p + 1 = 2 ^ k ∧ max tail cycle ≤ p ∧
        p < 2 * max tail cycle := by
      have hlo := Nat.pow_log_le_self 2 (show max tail cycle ≠ 0 by omega)
      have hhi := Nat.lt_pow_succ_log_self (show 1 < 2 by decide) (max tail cycle)
      refine ⟨2 ^ (Nat.log 2 (max tail cycle) + 1) - 1, _, Nat.sub_add_cancel Nat.one_le_two_pow, ?_⟩
      omega
    refine ⟨p + (cycle - 1) + 1, by omega, ?_⟩
    rw [guardAfter, Option.bind_eq_none_iff]
    intro g hg
    obtain ⟨m, hm, hmark, hw⟩ := guardAfter_watches hg
    replace hw := hw (by omega)
    obtain ⟨-, -, h2, l, hl⟩ := hw
    obtain rfl : l = k := by
      rw [← Nat.log_eq_of_pow_le_of_lt_pow (show 2 ^ l ≤ p + cycle by omega) (by omega)]
      exact Nat.log_eq_of_pow_le_of_lt_pow (by omega) (by omega)
    obtain rfl : m = p := by omega
    rw [chainGuardStep_eq_none, hmark, show m + (cycle - 1) + 1 = m + cycle by omega]
    exact hx m (by omega)

/-- The chain 1, 2, 3, 4, 3, 4, … -/
theorem chain_guard_stops_tail : let next : UInt32 → UInt32 := fun c => if c = 4 then 3 else c + 1
    ∃ i ≤ 4 * 4, guardAfter (fun i => next^[i] 1) i = none := by
  intro next
  have hmem : ∀ c ∈ ({1, 2, 3, 4} : Finset UInt32), c = 1 ∨ c = 2 ∨ c = 3 ∨ c = 4 := by simp
  have hclosed : ∀ c ∈ ({1, 2, 3, 4} : Finset UInt32), next c ∈ ({1, 2, 3, 4} : Finset UInt32) := by
    intro c hc
    rcases hmem c hc with rfl | rfl | rfl | rfl <;> decide
  refine (chain_guard_stops_cycles fun i => next^[i] 1).2 next {1, 2, 3, 4}
    (fun i => Function.iterate_succ_apply' _ _ _) (fun c => ⟨fun hc => ?_, ?_⟩) (by decide)
  · rcases hmem c hc with rfl | rfl | rfl | rfl
    exacts [⟨0, rfl⟩, ⟨1, rfl⟩, ⟨2, rfl⟩, ⟨3, rfl⟩]
  · rintro ⟨i, rfl⟩
    induction i with
    | zero => decide
    | succ i ih =>
      rw [Function.iterate_succ_apply']
      exact hclosed _ ih

end BleedKernel.Fat
