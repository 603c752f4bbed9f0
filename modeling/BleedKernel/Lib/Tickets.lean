import Mathlib.Data.BitVec

/-!
# Tickets that wrap around

The parties that have taken a ticket and are not through yet stand in a queue. Two
counters of `w` bits run along it: `serving` is the ticket of the first, `next` the
ticket the next to come will take. Counters wrap, so a ticket alone does not say where
its party stands; it does as long as the queue is shorter than `2 ^ w`.
-/

namespace BleedKernel.Lib

open List

variable {ι : Type*} {w : Nat} {serving next : BitVec w} {ticket : ι → BitVec w}
  {q : List ι} {c : ι}

/-- The parties in `q` hold the tickets from `serving` on, and `next` comes after the
last. -/
structure Tickets (serving next : BitVec w) (ticket : ι → BitVec w) (q : List ι) : Prop where
  nodup : q.Nodup
  next_eq : next = serving + BitVec.ofNat w q.length
  ticket_eq : ∀ i (h : i < q.length), ticket q[i] = serving + BitVec.ofNat w i

theorem Tickets.nil : Tickets serving serving ticket [] :=
  ⟨nodup_nil, by simp, fun i h => absurd h (Nat.not_lt_zero i)⟩

theorem Tickets.congr {ticket' : ι → BitVec w} (h : Tickets serving next ticket q)
    (ht : ∀ d ∈ q, ticket' d = ticket d) : Tickets serving next ticket' q :=
  ⟨h.nodup, h.next_eq, fun i hi => (ht _ (getElem_mem hi)).trans (h.ticket_eq i hi)⟩

/-- A party takes the next ticket. -/
theorem Tickets.join {ticket' : ι → BitVec w} (h : Tickets serving next ticket q)
    (hc : c ∉ q) (hself : ticket' c = next) (hother : ∀ d ∈ q, ticket' d = ticket d) :
    Tickets serving (next + 1) ticket' (q ++ [c]) := by
  refine ⟨?_, ?_, fun i hi => ?_⟩
  · rw [nodup_append]
    refine ⟨h.nodup, nodup_singleton c, fun a ha b hb hab => ?_⟩
    rw [mem_singleton.1 hb] at hab
    exact hc (hab ▸ ha)
  · rw [h.next_eq, length_append, BitVec.ofNat_add, BitVec.add_assoc]
    rfl
  · by_cases hlt : i < q.length
    · rw [getElem_append_left hlt, hother _ (getElem_mem hlt)]
      exact h.ticket_eq i hlt
    · have hi' : i = q.length := by
        rw [length_append, length_singleton] at hi
        omega
      subst hi'
      rw [getElem_concat_length rfl, hself, h.next_eq]

/-- The first party is through. -/
theorem Tickets.leave (h : Tickets serving next ticket (c :: q)) :
    Tickets (serving + 1) next ticket q := by
  have hsucc : ∀ k, serving + BitVec.ofNat w (k + 1) = serving + 1 + BitVec.ofNat w k := by
    intro k
    rw [BitVec.ofNat_add, BitVec.add_comm (BitVec.ofNat w k), ← BitVec.add_assoc]
    rfl
  refine ⟨(nodup_cons.1 h.nodup).2, ?_, fun i hi => ?_⟩
  · rw [h.next_eq, length_cons, hsucc]
  · have := h.ticket_eq (i + 1) (Nat.succ_lt_succ hi)
    rw [getElem_cons_succ] at this
    rw [this, hsucc]

/-- Who holds the ticket that is served stands first. -/
theorem Tickets.first (h : Tickets serving next ticket q) (hq : q.length ≤ 2 ^ w)
    (hc : c ∈ q) (ht : ticket c = serving) : q.head? = some c := by
  obtain ⟨i, hi, rfl⟩ := getElem_of_mem hc
  have heq : serving + BitVec.ofNat w i = serving := (h.ticket_eq i hi).symm.trans ht
  have hzero : BitVec.ofNat w i = 0#w := by
    have := congrArg (fun x => x - serving) heq
    simpa [BitVec.add_comm serving] using this
  have hi0 : i = 0 := by
    have := congrArg BitVec.toNat hzero
    rw [BitVec.toNat_ofNat, Nat.mod_eq_of_lt (by omega)] at this
    simpa using this
  subst hi0
  rw [head?_eq_getElem?, getElem?_eq_getElem hi]

/-- And who stands first holds it. -/
theorem Tickets.served (h : Tickets serving next ticket q) (hc : q.head? = some c) :
    ticket c = serving := by
  cases q with
  | nil => cases hc
  | cons d q =>
    cases hc
    have := h.ticket_eq 0 (Nat.succ_pos _)
    simpa using this

end BleedKernel.Lib
