import Mathlib.Data.UInt
import Mathlib.Data.Nat.ModEq

/-!
# A 32-bit reading of an unbounded clock

Real time is a natural number; a device reads it modulo `2 ^ 32` and computes an
age as the wrapping difference of two readings.  The age is right exactly when
the real difference fits in 32 bits; otherwise it is the difference modulo
`2 ^ 32`.
-/

namespace WardenSdk
namespace Lib

/-- What a 32-bit counter shows at real time `t`. -/
def reading (t : ℕ) : UInt32 := UInt32.ofNat t

@[simp] theorem toNat_reading (t : ℕ) : (reading t).toNat = t % 2 ^ 32 := by
  simp [reading]

/-- The wrapping age of two readings is the real age modulo `2 ^ 32`. -/
theorem toNat_reading_sub {s t : ℕ} (h : s ≤ t) :
    (reading t - reading s).toNat = (t - s) % 2 ^ 32 := by
  rw [UInt32.toNat_sub, toNat_reading, toNat_reading]
  omega

/-- A real age below `2 ^ 32` is read off exactly. -/
theorem toNat_reading_sub_of_lt {s t : ℕ} (h : s ≤ t) (hlt : t - s < 2 ^ 32) :
    (reading t - reading s).toNat = t - s := by
  rw [toNat_reading_sub h, Nat.mod_eq_of_lt hlt]

end Lib
end WardenSdk
