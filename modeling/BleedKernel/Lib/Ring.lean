import Mathlib.Data.List.Basic
import Mathlib.Algebra.Ring.Nat

/-!
# A ring in an array

`n` elements of a ring of size `N` that starts at `pos`: the place after `N - 1`
is 0. Code that works on a ring copies straight runs of the array, up to the end
and then from the start; these lemmas say what such a run is of the ring.
-/

namespace BleedKernel.Lib

open List

variable {α : Type*} {N pos n k : Nat} {buf : Nat → α}

variable {l : List α} {i : Nat}

/-- A straight run of the array. -/
def slice (buf : Nat → α) (pos n : Nat) : List α := (range n).map fun k => buf (pos + k)

/-- What the ring holds, first element first. -/
def ringList (N : Nat) (buf : Nat → α) (pos n : Nat) : List α :=
  (range n).map fun k => buf ((pos + k) % N)

/-- The array with a list written over it from `pos` on. -/
def store (buf : Nat → α) (pos : Nat) (l : List α) : Nat → α := fun i =>
  if i < pos then buf i else (l[i - pos]?).getD (buf i)

@[simp] theorem length_slice : (slice buf pos n).length = n := by simp [slice]

@[simp] theorem length_ringList : (ringList N buf pos n).length = n := by simp [ringList]

@[simp] theorem ringList_zero : ringList N buf pos 0 = [] := rfl

/-- A straight run that ends in the array is one of the ring. -/
theorem slice_eq_ringList (h : pos + n ≤ N) : slice buf pos n = ringList N buf pos n := by
  refine map_congr_left fun k hk => ?_
  have hk := mem_range.mp hk
  rw [Nat.mod_eq_of_lt (by omega)]

/-- The ring from its `k`th element on is a ring that starts further along. -/
theorem ringList_split (h : k ≤ n) :
    ringList N buf pos n = ringList N buf pos k ++ ringList N buf ((pos + k) % N) (n - k) := by
  obtain ⟨d, rfl⟩ := Nat.exists_eq_add_of_le h
  simp only [ringList, range_add, map_append, map_map, Nat.add_sub_cancel_left]
  congr 1
  refine map_congr_left fun j _ => ?_
  show buf _ = buf _
  rw [Nat.mod_add_mod, Nat.add_assoc]

theorem ringList_drop (h : k ≤ n) :
    ringList N buf ((pos + k) % N) (n - k) = (ringList N buf pos n).drop k := by
  rw [ringList_split h, drop_left' length_ringList]

/-- A part of the ring is a ring of its own. -/
theorem ringList_part {off : Nat} (h : off + k ≤ n) :
    ringList N buf ((pos + off) % N) k = ((ringList N buf pos n).drop off).take k := by
  rw [← ringList_drop (show off ≤ n by omega), ringList_split (show k ≤ n - off by omega),
    take_left' length_ringList]

theorem store_of_lt (h : i < pos) : store buf pos l i = buf i := if_pos h

theorem store_of_ge (h : pos + l.length ≤ i) : store buf pos l i = buf i := by
  rw [store, if_neg (by omega), getElem?_eq_none (by omega)]
  rfl

theorem slice_store : slice (store buf pos l) pos l.length = l := by
  refine ext_getElem (by simp) fun i h _ => ?_
  have hi : i < l.length := by simpa using h
  simp only [slice, getElem_map, getElem_range, store]
  rw [if_neg (by omega), Nat.add_sub_cancel_left, getElem?_eq_getElem hi, Option.getD_some]

/-- What the ring held is still there when a run is written over free places. -/
theorem ringList_store_of_free (hpos : pos < N) (hfit : n + l.length ≤ N) :
    ringList N (store buf ((pos + n) % N) l) pos n = ringList N buf pos n := by
  refine map_congr_left fun k hk => ?_
  have hk := mem_range.mp hk
  rcases Nat.lt_or_ge (pos + n) N with hlt | hge
  · rw [Nat.mod_eq_of_lt hlt, Nat.mod_eq_of_lt (by omega)]
    exact store_of_lt (by omega)
  have hm : (pos + n) % N = pos + n - N := by
    rw [Nat.mod_eq_sub_mod hge, Nat.mod_eq_of_lt (by omega)]
  rw [hm]
  rcases Nat.lt_or_ge (pos + k) N with hkl | hkg
  · rw [Nat.mod_eq_of_lt hkl]
    exact store_of_ge (by omega)
  · rw [Nat.mod_eq_sub_mod hkg, Nat.mod_eq_of_lt (by omega)]
    exact store_of_lt (by omega)

/-- A run written behind the last element is appended to the ring. -/
theorem ringList_store (hpos : pos < N) (hfit : n + l.length ≤ N)
    (hend : (pos + n) % N + l.length ≤ N) :
    ringList N (store buf ((pos + n) % N) l) pos (n + l.length) = ringList N buf pos n ++ l := by
  rw [ringList_split (Nat.le_add_right n l.length), ringList_store_of_free hpos hfit,
    Nat.add_sub_cancel_left, ← slice_eq_ringList hend, slice_store]

/-- Reading up to the end of the array and then from its start. -/
theorem slice_append_slice (hpos : pos < N) (hn : n ≤ N) :
    let first := if N - pos < n then N - pos else n
    slice buf pos first ++ slice buf 0 (n - first) = ringList N buf pos n := by
  intro first
  have hfirst : first ≤ n ∧ pos + first ≤ N ∧ (first < n → pos + first = N) := by
    simp only [first]
    split <;> omega
  rw [ringList_split hfirst.1, slice_eq_ringList hfirst.2.1]
  rcases Nat.lt_or_ge first n with hlt | hge
  · rw [hfirst.2.2 hlt, Nat.mod_self, slice_eq_ringList (N := N) (by omega)]
  · rw [Nat.sub_eq_zero_of_le hge]
    rfl

/-- The array with a list written over it from `pos` on, up to its end and then from its
start. -/
def ringStore (N : Nat) (buf : Nat → α) (pos : Nat) (l : List α) : Nat → α :=
  let first := if N - pos < l.length then N - pos else l.length
  store (store buf pos (l.take first)) 0 (l.drop first)

/-- What is `k` places after `pos` then. -/
theorem ringStore_mod (hpos : pos < N) (hl : l.length ≤ N) (hk : k < N) :
    ringStore N buf pos l ((pos + k) % N) = l.getD k (buf ((pos + k) % N)) := by
  simp only [ringStore]
  generalize hfirst : (if N - pos < l.length then N - pos else l.length) = first
  have hf : first ≤ l.length ∧ pos + first ≤ N ∧ (first < l.length → pos + first = N) := by
    rw [← hfirst]
    split <;> omega
  rcases Nat.lt_or_ge (pos + k) N with hlt | hge
  · -- Before the end of the array: the second part does not get this far.
    rw [Nat.mod_eq_of_lt hlt, store_of_ge (by simp only [length_drop]; omega)]
    simp only [store, Nat.not_lt.mpr (Nat.le_add_right pos k), if_false, Nat.add_sub_cancel_left,
      getD_eq_getElem?_getD, getElem?_take]
    split
    · rfl
    · rw [getElem?_eq_none (by omega)]
  · have hm : (pos + k) % N = pos + k - N := by
      rw [Nat.mod_eq_sub_mod hge, Nat.mod_eq_of_lt (by omega)]
    rw [hm]
    simp only [store, Nat.not_lt_zero, if_false, Nat.sub_zero, getElem?_drop, getD_eq_getElem?_getD]
    rcases Nat.lt_or_ge k l.length with hkl | hkl
    · have hplace : first + (pos + k - N) = k := by omega
      rw [hplace, getElem?_eq_getElem hkl]
      rfl
    · rw [if_pos (by omega), getElem?_eq_none (by omega), getElem?_eq_none hkl]

/-- A list written `m` places after `pos`, seen from `pos`. -/
theorem ringStore_at {m : Nat} (hl : m + l.length ≤ N) (hi : i < N) :
    ringStore N buf ((pos + m) % N) l ((pos + i) % N)
      = if m ≤ i then l.getD (i - m) (buf ((pos + i) % N)) else buf ((pos + i) % N) := by
  have hN : 0 < N := by omega
  have hpos : (pos + m) % N < N := Nat.mod_lt _ hN
  split
  · rename_i hmi
    have hplace : (pos + i) % N = ((pos + m) % N + (i - m)) % N := by
      rw [Nat.mod_add_mod, Nat.add_assoc, Nat.add_sub_cancel' hmi]
    rw [hplace]
    exact ringStore_mod hpos (by omega) (by omega)
  · have hplace : (pos + i) % N = ((pos + m) % N + (N - m + i)) % N := by
      rw [Nat.mod_add_mod, show pos + m + (N - m + i) = pos + i + N by omega, Nat.add_mod_right]
    rw [hplace, ringStore_mod hpos (by omega) (by omega)]
    rw [getD_eq_getElem?_getD, getElem?_eq_none (by omega)]
    rfl

/-- A list written behind the last element is appended to the ring. -/
theorem ringList_ringStore (hl : n + l.length ≤ N) :
    ringList N (ringStore N buf ((pos + n) % N) l) pos (n + l.length)
      = ringList N buf pos n ++ l := by
  rw [ringList_split (Nat.le_add_right n l.length), Nat.add_sub_cancel_left]
  congr 1
  · refine map_congr_left fun k hk => ?_
    have hk := mem_range.mp hk
    rw [ringStore_at hl (by omega), if_neg (by omega)]
  · refine ext_getElem length_ringList fun k hk hk' => ?_
    simp only [ringList, getElem_map, getElem_range]
    rw [ringStore_mod (Nat.mod_lt _ (by omega)) (by omega) (by omega)]
    simp [hk']

end BleedKernel.Lib
