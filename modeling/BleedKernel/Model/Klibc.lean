import Mathlib.Algebra.Ring.Nat

/-!
# Copying memory

`klibc/string.c`. A pointer past a range that ends with the address space is `2 ^ 64`.
-/

namespace BleedKernel.Klibc

/-- The bytes by address. -/
abbrev Mem := Nat → UInt8

/-- A copy with `dest`, `src` and `n`. -/
abbrev Copy := Mem → Nat → Nat → Nat → Mem

/-- `SIMD_CHUNK`: the most that is copied with interrupts off in one go. -/
def simdChunk : Nat := 64 * 1024

/-- `SIMD_MIN`: a shorter copy is made without vector registers. -/
def simdMin : Nat := 1024

/-- `n` bytes are read, and then all of them written. -/
def block : Copy := fun m dest src n a =>
  if dest ≤ a ∧ a < dest + n then m (src + (a - dest)) else m a

/-- A loop that copies `size n` of the `n` bytes left by `f`, upwards, and then `rest`. -/
def copyUp (size : Nat → Nat) (f rest : Copy) : Copy := fun m dest src n =>
  let k := size n
  if 0 < k ∧ k ≤ n then copyUp size f rest (f m dest src k) (dest + k) (src + k) (n - k)
  else rest m dest src n
termination_by _ _ _ n => n

/-- The loop from the end. -/
def copyDown (size : Nat → Nat) (f rest : Copy) : Copy := fun m dest src n =>
  let k := size n
  if 0 < k ∧ k ≤ n then
    copyDown size f rest (f m (dest + (n - k)) (src + (n - k)) k) dest src (n - k)
  else rest m dest src n
termination_by _ _ _ n => n

/-- The step of `while (n >= k)`, or of a `rep movs` with units of `k` bytes. -/
def units (k n : Nat) : Nat := if k ≤ n then k else 0

/-- The end of a copy: no bytes are left. -/
def done : Copy := fun m _ _ _ => m

/-- `copy_fwd_vec` -/
def copyFwdVec : Copy :=
  copyUp (units 128) block (copyUp (units 16) block (copyUp (units 1) block done))

/-- `copy_back_vec` -/
def copyBackVec : Copy := copyDown (units 16) block (copyDown (units 1) block done)

/-- `copy_simd` -/
def copySimd : Copy := copyUp (min simdChunk) copyFwdVec done

/-- `move_back_simd` -/
def moveBackSimd : Copy := copyDown (min simdChunk) copyBackVec done

/-- `memcpy` -/
def memcpy : Copy := fun m dest src n =>
  if simdMin ≤ n then copySimd m dest src n
  else copyUp (units 8) block (copyUp (units 1) block done) m dest src n

/-- `memmove` -/
def memmove : Copy := fun m dest src n =>
  if dest ≤ src ∨ (src + n) % 2 ^ 64 ≤ dest then memcpy m dest src n
  else moveBackSimd m dest src n

end BleedKernel.Klibc
