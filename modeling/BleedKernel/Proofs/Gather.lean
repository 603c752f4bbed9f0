import BleedKernel.Model.Iovec

/-!
# What a walk over an iovec list copies

Between kernel buffers a walk of any pieces is one over the concatenation of the
elements. Between user buffers it is as long as it comes to no empty element: the copies
of `user_copy.c` refuse the length zero, so an empty element ends the walk with `-EFAULT`
although bytes of the list remain. They refuse the last user address as well.
-/

namespace BleedKernel.Iov

open Lib List

/-- The addresses of the bytes of the list, one element after the other. -/
def addrs (v : List Iovec) : List Nat := v.flatMap fun e => range' e.base e.len

/-- A user copy of no bytes is refused, and so is one of the last user address. -/
def Refused (user : Bool) (addr n : Nat) : Prop :=
  user = true ∧ (n = 0 ∨ addr ≤ userMax ∧ userMax < addr + n)

instance {user : Bool} {addr n : Nat} : Decidable (Refused user addr n) :=
  inferInstanceAs (Decidable (_ ∧ _))

@[simp] theorem not_refused_kernel {addr n : Nat} : ¬Refused false addr n := fun h => nomatch h.1

/-- How many bytes a walk gets to: all of them between kernel buffers, those before the
first empty element and before the last user address between user buffers. -/
def limit (user : Bool) : List Iovec → Nat
  | [] => 0
  | e :: v =>
    if Refused user e.base e.len then min e.len (userMax - e.base) else e.len + limit user v

/-- The cursor after `p` bytes. -/
def place : List Iovec → (p : Nat) → Cursor
  | [], _ => ⟨[], 0⟩
  | e :: v, p => if p = 0 ∨ p < e.len then ⟨e :: v, p⟩ else place v (p - e.len)

theorem place_zero {v : List Iovec} : place v 0 = ⟨v, 0⟩ := by
  cases v with
  | nil => rfl
  | cons e v => rw [place, if_pos (.inl rfl)]

section Walk

variable {σ : Type} {copy : Nat → Nat → σ → Option σ} {g : σ → Nat → σ} {Q : Nat → Prop}
  {user : Bool} {v : List Iovec} {p k : Nat} (st : σ)

/-- `copy` does `g` for each address in turn, unless it is refused. -/
def Copies (user : Bool) (Q : Nat → Prop) (g : σ → Nat → σ)
    (copy : Nat → Nat → σ → Option σ) : Prop :=
  ∀ addr n st, (∀ a ∈ range' addr n, Q a) → copy addr n st =
    if Refused user addr n then none else some ((range' addr n).foldl g st)

/-- What a walk from place `p` on comes to. -/
def Walks (user : Bool) (g : σ → Nat → σ) (v : List Iovec) (p len : Nat) (st : σ)
    (r : Bool × Cursor × σ) : Prop :=
  (p + len ≤ limit user v → r = (true, place v (p + len),
    (((addrs v).drop p).take len).foldl g st)) ∧
  (limit user v < p + len → r.1 = false)

theorem Copies.walks (hcopy : Copies user Q g copy) (hp : p ≤ limit user v)
    (hlen : p + k ≤ iovTotal v) (hQ : ∀ a ∈ addrs v, Q a) :
    Walks user g v p k st (curLoop copy (place v p).v (place v p).off k st) := by
  induction v generalizing p k st with
  | nil =>
    obtain ⟨rfl, rfl⟩ : p = 0 ∧ k = 0 := by
      simp only [iovTotal, map_nil, sum_nil] at hlen
      omega
    exact ⟨fun _ => rfl, nofun⟩
  | cons e v ih =>
    cases k with
    | zero => exact ⟨fun _ => by rw [curLoop]; rfl, fun h => absurd hp (Nat.not_le.mpr h)⟩
    | succ len =>
      have htotal : iovTotal (e :: v) = e.len + iovTotal v := sum_cons
      have haddrs : addrs (e :: v) = range' e.base e.len ++ addrs v := flatMap_cons
      rw [haddrs, forall_mem_append] at hQ
      rw [limit] at hp
      by_cases hat : p = 0 ∨ p < e.len
      swap
      · -- the place is behind the element
        have hr : ¬Refused user e.base e.len := fun hr => by
          rw [if_pos hr] at hp
          have := hr.2
          omega
        rw [if_neg hr] at hp
        rw [place, if_neg hat]
        obtain ⟨hgo, hstop⟩ := ih st (p := p - e.len) (k := len + 1) (by omega) (by omega) hQ.2
        have hdrop := @List.drop_length_add_append _ (range' e.base e.len) (addrs v) (p - e.len)
        rw [length_range', ← haddrs, Nat.add_sub_cancel' (by omega)] at hdrop
        rw [Walks, limit, if_neg hr]
        refine ⟨fun h => ?_, fun h => hstop (by omega)⟩
        rw [hgo (by omega), place, if_neg (by omega), hdrop,
          show p + (len + 1) - e.len = p - e.len + (len + 1) by omega]
      rw [place, if_pos hat, curLoop]
      generalize hn : min (e.len - p) (len + 1) = n
      obtain ⟨k, hk⟩ : ∃ k, len + 1 = n + k := ⟨len + 1 - n, by omega⟩
      rw [hk, Nat.add_sub_cancel_left, Walks, limit,
        hcopy (e.base + p) n st fun a ha => hQ.1 a (by rw [mem_range'_1] at ha ⊢; omega)]
      by_cases hno : Refused user (e.base + p) n
      · have hout := hno.2
        rw [if_pos hno, if_pos ⟨hno.1, by omega⟩]
        exact ⟨fun h => by omega, fun _ => rfl⟩
      rw [if_neg hno]
      -- the bytes of this turn and those after it
      have hsplit : ((addrs (e :: v)).drop p).take (n + k) =
          range' (e.base + p) n ++ ((addrs (e :: v)).drop (p + n)).take k := by
        rw [take_add, drop_drop, haddrs, drop_append_of_le_length (by rw [length_range']; omega),
          take_append_of_le_length (by rw [length_drop, length_range']; omega),
          drop_range', take_range'_of_length_ge (by omega), Nat.mul_one]
      rw [hsplit, foldl_append]
      dsimp only
      by_cases hend : p + n = e.len
      · have hr : ¬Refused user e.base e.len := fun hr => hno ⟨hr.1, by
          rw [if_pos hr] at hp
          have := hr.2
          omega⟩
        rw [if_pos hend, if_neg hr]
        obtain ⟨hgo, hstop⟩ := ih ((range' (e.base + p) n).foldl g st)
          (k := k) (Nat.zero_le _) (by omega) hQ.2
        rw [place_zero, Nat.zero_add] at hgo hstop
        refine ⟨fun h => ?_, fun h => hstop (by omega)⟩
        rw [hgo (by omega), place, if_neg (by omega), hend, haddrs,
          drop_left' length_range', show p + (n + k) - e.len = k by omega]
        rfl
      · obtain rfl : k = 0 := by omega
        rw [if_neg hend]
        refine ⟨fun _ => ?_, fun h => ?_⟩
        · rw [place, if_pos (.inr (by omega))]
          rfl
        split at h
        · rename_i hr
          rw [if_pos hr] at hp
          have hout : ¬(n = 0 ∨ e.base + p ≤ userMax ∧ userMax < e.base + p + n) :=
            fun h => hno ⟨hr.1, h⟩
          have := hr.2
          omega
        · omega

/-- Calls one after the other are one walk. -/
theorem Copies.calls (hcopy : Copies user Q g copy) (hp : p ≤ limit user v) (ns : List Nat)
    (hn : p + ns.sum ≤ iovTotal v) (hQ : ∀ a ∈ addrs v, Q a) :
    Walks user g v p ns.sum st (Iov.calls (fun c => curLoop copy c.v c.off) (place v p) ns st) := by
  induction ns generalizing p st with
  | nil => exact ⟨fun _ => rfl, fun h => absurd hp (Nat.not_le.mpr h)⟩
  | cons n ns ih =>
    rw [sum_cons, ← Nat.add_assoc] at hn
    obtain ⟨hgo, hstop⟩ := hcopy.walks st (k := n) hp (by omega) hQ
    rw [Iov.calls, sum_cons]
    by_cases hl : p + n ≤ limit user v
    · rw [hgo hl]
      obtain ⟨hgo', hstop'⟩ := ih ((((addrs v).drop p).take n).foldl g st) hl hn
      rw [Nat.add_assoc, drop_drop.symm] at hgo'
      rw [Nat.add_assoc] at hstop'
      refine ⟨fun h => ?_, hstop'⟩
      rw [take_add, foldl_append]
      exact hgo' h
    · have hfail := hstop (Nat.lt_of_not_le hl)
      refine ⟨fun h => absurd h (by omega), fun _ => ?_⟩
      split
      · rename_i heq
        rw [heq] at hfail
        cases hfail
      · rfl

theorem Walks.iff {r : Bool × Cursor × σ} (h : Walks user g v 0 k st r) :
    (∃ c, r = (true, c, ((addrs v).take k).foldl g st)) ↔ k ≤ limit user v := by
  rw [Walks, Nat.zero_add] at h
  constructor
  · rintro ⟨c, rfl⟩
    exact Nat.le_of_not_lt fun hl => nomatch h.2 hl
  · exact fun hl => ⟨_, h.1 hl⟩

end Walk

/-! ## `cur_in` and `cur_out` -/

/-- A user address, in a page that the task may read and write. -/
def Pages.Mapped (pages : Pages) (a : Nat) : Prop :=
  userMin ≤ a ∧ a ≤ userMax ∧ pages.readable (a / pageSize) = true ∧
    pages.writable (a / pageSize) = true

variable {pages : Pages} {mem src : Nat → UInt8} {user : Bool}

/-- What both copies come to, where all of the range is the task's. -/
theorem user_copy_eq {α : Type} {x : α} {pte : Nat → Bool} {addr n : Nat}
    (h : ∀ a ∈ range' addr n, userMin ≤ a ∧ a ≤ userMax ∧ pte (a / pageSize) = true) :
    (if addr = 0 ∨ n = 0 then none else if userRangeMapped pte addr n then some x else none) =
      if Refused true addr n then none else some x := by
  by_cases hn : n = 0
  · rw [if_pos (.inr hn), if_pos ⟨rfl, .inl hn⟩]
  simp only [mem_range'_1] at h
  have hfirst := h addr ⟨Nat.le_refl _, by omega⟩
  have hmin : userMin = 4096 := rfl
  have hpages : (range' (addr / pageSize)
      ((addr + n - 1) / pageSize + 1 - addr / pageSize)).all pte = true := by
    rw [all_eq_true]
    intro p hp
    -- the first address of the range in this page
    have hsize : pageSize = 4096 := rfl
    rw [mem_range'_1, hsize] at hp
    have hin := h (max addr (p * pageSize)) (by rw [hsize]; omega)
    rw [show max addr (p * pageSize) / pageSize = p by rw [hsize]; omega] at hin
    exact hin.2.2
  rw [if_neg (by omega), userRangeMapped, hpages, Bool.and_true]
  simp only [decide_eq_true_eq]
  split
  · rw [if_neg fun hr => by have := hr.2; omega]
  · rw [if_pos ⟨rfl, by omega⟩]

theorem slice_eq_map {addr n : Nat} : slice mem addr n = (range' addr n).map mem := by
  rw [range'_eq_map_range, map_map]
  rfl

theorem foldl_snoc {l : List Nat} {dst : List UInt8} :
    l.foldl (fun dst a => dst ++ [mem a]) dst = dst ++ l.map mem := by
  induction l generalizing dst with
  | nil => simp
  | cons a l ih => rw [foldl_cons, ih, append_assoc, map_cons, singleton_append]

theorem curIn_copies (mem : Nat → UInt8) : Copies user (fun a => user = true → pages.Mapped a)
    (fun dst a => dst ++ [mem a]) fun addr n dst => (if user then copyFromUser pages mem addr n
      else some (slice mem addr n)).map (dst ++ ·) := by
  intro addr n dst hQ
  rw [foldl_snoc]
  cases user with
  | false => simp [slice_eq_map]
  | true =>
    have hcopy : copyFromUser pages mem addr n = _ := user_copy_eq fun a ha =>
      have hm := hQ a ha rfl
      ⟨hm.1, hm.2.1, hm.2.2.1⟩
    simp only [if_true, hcopy, slice_eq_map]
    split <;> rfl

/-- The next byte goes to the next address. -/
def putNext (src : Nat → UInt8) : (Nat → UInt8) × Nat → Nat → (Nat → UInt8) × Nat
  | (mem, s), a => (Function.update mem a (src s), s + 1)

theorem foldl_putNext {a n s : Nat} : (range' a n).foldl (putNext src) (mem, s) =
    (store mem a (slice src s n), s + n) := by
  induction n generalizing mem a s with
  | zero =>
    have hnone : store mem a [] = mem := by
      funext i
      simp [store]
    exact Prod.ext hnone.symm rfl
  | succ n ih =>
    have hstore : store (Function.update mem a (src s)) (a + 1) (slice src (s + 1) n) =
        store mem a (slice src s (n + 1)) := by
      rw [slice_eq_map, slice_eq_map, range'_succ, map_cons]
      funext i
      simp only [store, Function.update_apply]
      rcases Nat.lt_trichotomy i a with hi | rfl | hi
      · simp [hi, Nat.lt_succ_of_lt hi, Nat.ne_of_lt hi]
      · simp
      · rw [if_neg (by omega), if_neg (by omega), if_neg (by omega),
          show i - a = i - (a + 1) + 1 by omega, getElem?_cons_succ]
    rw [range'_succ, foldl_cons, putNext, ih, hstore, Nat.add_right_comm]
    rfl

theorem curOut_copies (src : Nat → UInt8) : Copies user (fun a => user = true → pages.Mapped a)
    (putNext src) fun addr n (mem, s) =>
      (if user then copyToUser pages mem addr (fun i => src (s + i)) n
        else some (store mem addr (slice src s n))).map (·, s + n) := by
  rintro addr n ⟨mem, s⟩ hQ
  rw [foldl_putNext]
  cases user with
  | false => simp
  | true =>
    have hcopy : copyToUser pages mem addr (fun i => src (s + i)) n = _ := user_copy_eq fun a ha =>
        have hm := hQ a ha rfl
        ⟨hm.1, hm.2.1, hm.2.2.2⟩
    have hslice : slice (fun i => src (s + i)) 0 n = slice src s n := by
      simp only [slice, Nat.zero_add]
    rw [hslice] at hcopy
    simp only [if_true, hcopy]
    split <;> rfl

theorem limit_kernel {v : List Iovec} : limit false v = iovTotal v := by
  induction v with
  | nil => rfl
  | cons e v ih => simp [limit, iovTotal, ih]

/-- Successive calls of `cur_in` give consecutive pieces of the concatenation of the
elements, and successive calls of `cur_out` write to consecutive places of it: always
between kernel buffers, and between mapped user buffers exactly as far as the first empty
element and the last user address. -/
theorem walk_concatenates_iff (mem src : Nat → UInt8) (v : List Iovec) (user : Bool)
    (ns : List Nat) (hn : ns.sum ≤ iovTotal v) (h : user = true → ∀ a ∈ addrs v, pages.Mapped a) :
    ((∃ c, calls (curIn pages mem user) ⟨v, 0⟩ ns [] =
        (true, c, ((addrs v).take ns.sum).map mem)) ↔ ns.sum ≤ limit user v) ∧
    ((∃ c, calls (curOut pages src user) ⟨v, 0⟩ ns (mem, 0) =
        (true, c, ((addrs v).take ns.sum).foldl (putNext src) (mem, 0))) ↔
      ns.sum ≤ limit user v) ∧ limit false v = iovTotal v := by
  have hQ : ∀ a ∈ addrs v, user = true → pages.Mapped a := fun a ha hu => h hu a ha
  rw [← Nat.zero_add ns.sum] at hn
  have hin := (curIn_copies mem).calls [] (Nat.zero_le _) ns hn hQ
  have hout := (curOut_copies src).calls (mem, 0) (Nat.zero_le _) ns hn hQ
  rw [place_zero] at hin hout
  have hread := hin.iff
  rw [foldl_snoc] at hread
  exact ⟨hread, hout.iff, limit_kernel⟩

/-- Two elements at the start of two pages. -/
theorem walk_concatenates_iff_pages :
    (∃ c, calls (curIn ⟨fun _ => true, fun _ => true⟩ (fun a => UInt8.ofNat a) true)
      ⟨[⟨0x1000, 2⟩, ⟨0x5000, 1⟩], 0⟩ [1, 2] [] = (true, c, [0, 1, 0])) :=
  (walk_concatenates_iff _ (fun _ => 0) [⟨0x1000, 2⟩, ⟨0x5000, 1⟩] true [1, 2] (by decide)
    (fun _ => by simp [addrs, Pages.Mapped, userMin, userMax, range'])).1.mpr (by decide)

/-- An empty element between two others: the list is taken and has two bytes, all mapped, and
kernel buffers of this shape give both, but the walk over user buffers fails. -/
theorem empty_element_fails : copyIov 3 true (some [⟨0x1000, 1⟩, ⟨0x3000, 0⟩, ⟨0x5000, 1⟩]) =
        .ok [⟨0x1000, 1⟩, ⟨0x3000, 0⟩, ⟨0x5000, 1⟩] ∧
      (curIn ⟨fun _ => true, fun _ => true⟩ (fun a => UInt8.ofNat a) true
        ⟨[⟨0x1000, 1⟩, ⟨0x3000, 0⟩, ⟨0x5000, 1⟩], 0⟩ 2 []).1 = false ∧
      (curIn ⟨fun _ => true, fun _ => true⟩ (fun a => UInt8.ofNat a) false
        ⟨[⟨0x1000, 1⟩, ⟨0x3000, 0⟩, ⟨0x5000, 1⟩], 0⟩ 2 []).2.2 = [0, 0] := by
  refine ⟨by rfl, by rfl, by rfl⟩

end BleedKernel.Iov
