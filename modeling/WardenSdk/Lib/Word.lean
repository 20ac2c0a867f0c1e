import Mathlib.Algebra.Order.Ring.Int

/-!
# Words of 32 bits

The conversions of C between `int` and `u32`, and what of a word is in its lowest byte.
-/

namespace WardenSdk
namespace Lib

/-- `int n = x`, where `x` is a `u32`. -/
def cInt (x : UInt32) : ℤ := (x.toNat : ℤ).bmod (2 ^ 32)

/-- `u32 x = n`, where `n` is an `int`. -/
def cWord (i : ℤ) : UInt32 := UInt32.ofNat (i % 2 ^ 32).toNat

theorem toNat_cWord {n : ℕ} (h : n < 2 ^ 32) : (cWord n).toNat = n := by
  unfold cWord
  rw [UInt32.toNat_ofNat', Int.emod_eq_of_lt (by omega) (by omega), Int.toNat_natCast,
    Nat.mod_eq_of_lt h]

/-- A word with a byte in the place of its lowest one. -/
def withByte (w : UInt32) (b : UInt8) : UInt32 := (w &&& 0xffffff00) ||| b.toUInt32

@[simp] theorem toUInt8_withByte (w : UInt32) (b : UInt8) : (withByte w b).toUInt8 = b := by
  unfold withByte
  rw [UInt32.toUInt8_or, UInt32.toUInt8_and, UInt8.toUInt8_toUInt32]
  exact (congrArg (· ||| b) (UInt8.and_zero (a := w.toUInt8))).trans UInt8.zero_or

/-- A mask for bits of the lowest byte. -/
theorem and_eq_zero_iff_toUInt8 {w mask : UInt32} (h : mask.toNat < 2 ^ 8) :
    w &&& mask = 0 ↔ w.toUInt8 &&& mask.toUInt8 = 0 := by
  rw [← UInt32.toUInt8_and]
  refine ⟨fun hw => hw ▸ rfl, fun hw => UInt32.toNat_inj.mp ?_⟩
  have hlt : (w &&& mask).toNat < 2 ^ 8 := by
    rw [UInt32.toNat_and]
    exact Nat.and_le_right.trans_lt h
  have hbyte := congrArg UInt8.toNat hw
  rwa [UInt32.toNat_toUInt8, Nat.mod_eq_of_lt hlt] at hbyte

/-- The bits below the `k`-th of a byte that is less than `2 ^ k`. -/
theorem ofNat_and_two_pow_sub_one {n k : ℕ} (hn : n < 2 ^ k) (hk : k ≤ 8) :
    UInt8.ofNat n &&& UInt8.ofNat (2 ^ k - 1) = UInt8.ofNat n := by
  have hpow : 2 ^ k ≤ 2 ^ 8 := Nat.pow_le_pow_right (by decide) hk
  apply UInt8.toNat_inj.mp
  rw [UInt8.toNat_and, UInt8.toNat_ofNat', UInt8.toNat_ofNat', Nat.mod_eq_of_lt (by omega),
    Nat.mod_eq_of_lt (by omega), Nat.and_two_pow_sub_one_eq_mod, Nat.mod_eq_of_lt hn]

end Lib
end WardenSdk
