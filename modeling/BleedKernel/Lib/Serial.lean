import Mathlib.Data.UInt

/-!
# Serial numbers

A counter without bound, kept in 32 bits: place `x` of a stream has the number
`base + x`, modulo `2 ^ 32`. Two places that are less than half a turn apart are
compared by the sign of the difference of their numbers, and the difference of the
numbers is the distance of the places as long as that is less than a turn.
-/

namespace BleedKernel.Lib

/-- The first number is before the second: their difference is negative as a signed one. -/
def serialLt (a b : UInt32) : Bool := decide ((a - b).toInt32 < 0)

/-- The first number is not past the second. -/
def serialLe (a b : UInt32) : Bool := decide ((a - b).toInt32 ≤ 0)

/-- The number of place `x` when place 0 has the number `base`. -/
def serial (base : UInt32) (x : Nat) : UInt32 := base + UInt32.ofNat x

variable {base a b : UInt32} {x y n : Nat}

theorem toNat_serial : (serial base x).toNat = (base.toNat + x) % 2 ^ 32 := by
  simp [serial]

@[simp] theorem serial_zero : serial base 0 = base := by simp [serial]

theorem serial_add_ofNat : serial base x + UInt32.ofNat n = serial base (x + n) := by
  apply UInt32.toNat_inj.mp
  rw [UInt32.toNat_add, toNat_serial, toNat_serial, UInt32.toNat_ofNat']
  omega

theorem serial_add_one : serial base x + 1 = serial base (x + 1) := serial_add_ofNat

/-- Every number is that of the place as far from the base as it is. -/
@[simp] theorem serial_sub_toNat : serial a (b - a).toNat = b := by
  rw [serial, UInt32.ofNat_toNat, UInt32.add_comm, UInt32.sub_add_cancel]

theorem serial_serial : serial (serial base x) y = serial base (x + y) := serial_add_ofNat

/-- The distance of two places, from their numbers. -/
theorem toNat_serial_sub (h : y ≤ x) (hlt : x < y + 2 ^ 32) :
    (serial base x - serial base y).toNat = x - y := by
  rw [UInt32.toNat_sub, toNat_serial, toNat_serial]
  omega

/-- The distance the other way round. -/
theorem toNat_serial_sub_of_lt (h : x < y) (hlt : y ≤ x + 2 ^ 32) :
    (serial base x - serial base y).toNat = (2 ^ 32 - (y - x)) % 2 ^ 32 := by
  rw [UInt32.toNat_sub, toNat_serial, toNat_serial]
  omega

theorem serial_inj (h : serial base x = serial base y) (h1 : x < y + 2 ^ 32)
    (h2 : y < x + 2 ^ 32) : x = y := by
  have h := congrArg UInt32.toNat h
  rw [toNat_serial, toNat_serial] at h
  omega

/-- The sign of a number that was read as a signed one. -/
theorem toInt32_neg_iff (c : UInt32) : c.toInt32 < 0 ↔ 2 ^ 31 ≤ c.toNat := by
  rw [Int32.lt_iff_toInt_lt]
  show c.toBitVec.toInt < 0 ↔ _
  rw [BitVec.toInt_neg_iff, UInt32.toNat_toBitVec]
  omega

theorem serialLt_iff : serialLt a b = true ↔ 2 ^ 31 ≤ (a - b).toNat := by
  rw [serialLt, decide_eq_true_iff, toInt32_neg_iff]

theorem serialLe_iff : serialLe a b = true ↔ (a - b).toNat = 0 ∨ 2 ^ 31 ≤ (a - b).toNat := by
  have hzero : (a - b).toInt32 = 0 ↔ (a - b).toNat = 0 := by
    rw [← UInt32.toNat_zero, UInt32.toNat_inj]
    exact ⟨congrArg Int32.toUInt32, fun h => by rw [h]; rfl⟩
  rw [serialLe, decide_eq_true_iff, ← toInt32_neg_iff, ← hzero, Int32.le_iff_lt_or_eq]
  exact or_comm

/-- Places less than half a turn apart are in the order of their numbers. -/
theorem serialLt_serial (h1 : x < y + 2 ^ 31) (h2 : y ≤ x + 2 ^ 31) :
    serialLt (serial base x) (serial base y) = decide (x < y) := by
  rw [Bool.eq_iff_iff, serialLt_iff, decide_eq_true_iff]
  rcases Nat.lt_or_ge x y with h | h
  · rw [toNat_serial_sub_of_lt h (by omega)]
    omega
  · rw [toNat_serial_sub h (by omega)]
    omega

theorem serialLe_serial (h1 : x < y + 2 ^ 31) (h2 : y ≤ x + 2 ^ 31) :
    serialLe (serial base x) (serial base y) = decide (x ≤ y) := by
  rw [Bool.eq_iff_iff, serialLe_iff, decide_eq_true_iff]
  rcases Nat.lt_or_ge x y with h | h
  · rw [toNat_serial_sub_of_lt h (by omega)]
    omega
  · rw [toNat_serial_sub h (by omega)]
    omega

end BleedKernel.Lib
