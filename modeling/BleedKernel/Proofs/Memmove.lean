import BleedKernel.Model.Klibc

/-!
# `memmove` moves

Every loop of `memcpy` and `memmove` is the one `block` that reads all before it writes.
-/

namespace BleedKernel.Klibc

variable {m : Mem} {dest src n : Nat} {size : Nat → Nat} {f rest : Copy}
  {C : Nat → Nat → Nat → Prop}

/-- `f` copies wherever `C` allows it. -/
def Copies (C : Nat → Nat → Nat → Prop) (f : Copy) : Prop :=
  ∀ ⦃m dest src n⦄, C dest src n → f m dest src n = block m dest src n

/-- `rest` copies what a loop leaves. -/
def Ends (C : Nat → Nat → Nat → Prop) (size : Nat → Nat) (rest : Copy) : Prop :=
  ∀ ⦃m dest src n⦄, C dest src n → ¬(0 < size n ∧ size n ≤ n) →
    rest m dest src n = block m dest src n

theorem Copies.block : Copies C block := fun _ _ _ _ _ => rfl

theorem Copies.ends (h : Copies C rest) : Ends C size rest := fun _ _ _ _ hc _ => h hc

theorem ends_done (hs : ∀ n, ¬(0 < size n ∧ size n ≤ n) → n = 0) : Ends C size done := by
  intro m dest src n _ hn
  rw [hs n hn]
  funext a
  exact (if_neg (by omega)).symm

theorem units_one (n : Nat) (h : ¬(0 < units 1 n ∧ units 1 n ≤ n)) : n = 0 := by
  unfold units at h
  grind

theorem simd_chunk (n : Nat) (h : ¬(0 < min simdChunk n ∧ min simdChunk n ≤ n)) : n = 0 := by
  unfold simdChunk at h
  omega

/-- A copy upwards does not write what is still to be read. -/
def Clear (dest src n : Nat) : Prop := dest ≤ src ∨ src + n ≤ dest

theorem copyUp_copies (hf : Copies Clear f) (hr : Ends Clear size rest) :
    Copies Clear (copyUp size f rest) := by
  intro m dest src n h
  fun_induction copyUp size f rest m dest src n with
  | case1 m dest src n k hk ih =>
    unfold Clear at *
    rw [ih (by omega), hf (by omega)]
    funext a
    simp only [block]
    grind
  | case2 m dest src n k hk => exact hr h hk

/-- A copy from the end is right for these. -/
def Above (dest src _n : Nat) : Prop := src ≤ dest

theorem copyDown_copies (hf : Copies Above f) (hr : Ends Above size rest) :
    Copies Above (copyDown size f rest) := by
  intro m dest src n h
  fun_induction copyDown size f rest m dest src n with
  | case1 m n k hk ih =>
    unfold Above at *
    rw [ih h, hf (by omega)]
    funext a
    simp only [block]
    grind
  | case2 m n k hk => exact hr h hk

theorem memcpy_copies : Copies Clear memcpy := by
  have hone : Copies Clear (copyUp (units 1) block done) :=
    copyUp_copies .block (ends_done units_one)
  intro m dest src n h
  unfold memcpy
  split
  · exact copyUp_copies (copyUp_copies .block (copyUp_copies .block hone.ends).ends)
      (ends_done simd_chunk) h
  · exact copyUp_copies .block hone.ends h

theorem moveBackSimd_copies : Copies Above moveBackSimd :=
  copyDown_copies (copyDown_copies .block (copyDown_copies .block (ends_done units_one)).ends)
    (ends_done simd_chunk)

/-- `m'` is `m` with the bytes that were at `src` at `dest`, and nothing else changed. -/
def Moved (m m' : Mem) (dest src n : Nat) : Prop :=
  (∀ i < n, m' (dest + i) = m (src + i)) ∧ ∀ a, a < dest ∨ dest + n ≤ a → m' a = m a

theorem moved_block : Moved m (block m dest src n) dest src n := by
  refine ⟨fun i hi => ?_, fun a ha => if_neg (by omega)⟩
  rw [block, if_pos (by omega), Nat.add_sub_cancel_left]

/-- `memmove` moves the bytes whatever the overlap, and `memcpy` does when it is downwards. -/
theorem memmove_moves (m : Mem) (hdest : dest + n ≤ 2 ^ 64) (hsrc : src + n ≤ 2 ^ 64) :
    Moved m (memmove m dest src n) dest src n ∧
      (dest ≤ src → Moved m (memcpy m dest src n) dest src n) := by
  constructor
  · unfold memmove
    split
    · have h : Clear dest src n := by
        unfold Clear
        omega
      rw [memcpy_copies h]
      exact moved_block
    · rw [moveBackSimd_copies (by unfold Above; omega)]
      exact moved_block
  · intro h
    rw [memcpy_copies (.inl h)]
    exact moved_block

theorem memmove_moves_up :
    Moved (fun a => .ofNat a) (memmove (fun a => .ofNat a) 18 16 100) 18 16 100 :=
  (memmove_moves _ (by decide) (by decide)).1

end BleedKernel.Klibc
