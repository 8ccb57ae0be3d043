import Mathlib.Algebra.Group.Nat.Defs
import Mathlib.Data.Nat.Basic

/-! Fields of 64-bit words that masks and shifts cut out. -/

namespace PwrApi.Bits

variable {x mask shift : UInt64} {high low : ℕ}

theorem toNat_and_mask (hmask : mask.toNat = 2 ^ high - 1) :
    (x &&& mask).toNat = x.toNat % 2 ^ high := by
  rw [UInt64.toNat_and, hmask, Nat.and_two_pow_sub_one_eq_mod]

theorem toNat_field (hmask : mask.toNat = 2 ^ high - 1) (hshift : shift.toNat = low)
    (hlow : low < 64) : ((x &&& mask) >>> shift).toNat = x.toNat % 2 ^ high / 2 ^ low := by
  rw [UInt64.toNat_shiftRight, toNat_and_mask hmask, hshift, Nat.mod_eq_of_lt hlow,
    Nat.shiftRight_eq_div_pow]

theorem toNat_not_and_mask (hmask : mask.toNat = 2 ^ high - 1) (hhigh : high ≤ 64)
    (hx : x.toNat < 2 ^ high) : (~~~x &&& mask).toNat = 2 ^ high - 1 - x.toNat := by
  have hsize : UInt64.size = 2 ^ high * 2 ^ (64 - high) := by
    rw [← Nat.pow_add, Nat.add_sub_of_le hhigh]
  have hpos := Nat.two_pow_pos (64 - high)
  obtain ⟨times, htimes⟩ := Nat.exists_eq_succ_of_ne_zero (Nat.ne_of_gt hpos)
  rw [toNat_and_mask hmask, UInt64.toNat_not, hsize, htimes, Nat.mul_succ]
  have hsplit : 2 ^ high * times + 2 ^ high - 1 - x.toNat =
      2 ^ high * times + (2 ^ high - 1 - x.toNat) := by omega
  rw [hsplit, Nat.mul_add_mod, Nat.mod_eq_of_lt (by omega)]

end PwrApi.Bits
