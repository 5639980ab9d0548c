import Mathlib.Data.Nat.ModEq

/-!
# Free-running counters

A 32-bit counter that wraps, seen as the count it has reached.  Differences of two
counters are exact while the counts are close, and the low bits of a counter are the
cell of a ring whose size is a power of two.
-/

namespace Transition.Wrap

/-- Counters that are less than `2 ^ 32` apart subtract exactly. -/
theorem toNat_sub {a b : Nat} (hle : b ≤ a) (hlt : a < b + 2 ^ 32) :
    (UInt32.ofNat a - UInt32.ofNat b).toNat = a - b := by
  rw [← UInt32.ofNat_sub hle]
  apply UInt32.toNat_ofNat_of_lt'
  show a - b < 2 ^ 32
  omega

theorem toNat_ofNat (n : Nat) : (UInt32.ofNat n).toNat = n % 2 ^ 32 :=
  UInt32.toNat_ofNat'

/-- Counters that are less than `2 ^ 32` apart are equal only at one count. -/
theorem eq_of_ofNat_eq {a b : Nat} (heq : UInt32.ofNat a = UInt32.ofNat b) (hle : b ≤ a)
    (hlt : a < b + 2 ^ 32) : a = b := by
  have hsub := toNat_sub hle hlt
  rw [heq, UInt32.sub_self] at hsub
  have hzero : a - b = 0 := hsub.symm
  omega

/-- The low `k` bits of a counter. -/
theorem and_mask {k : Nat} (hk : k ≤ 32) (n : Nat) :
    UInt32.ofNat n &&& UInt32.ofNat (2 ^ k - 1) = UInt32.ofNat (n % 2 ^ k) := by
  have hpow : 2 ^ k ≤ 2 ^ 32 := Nat.pow_le_pow_right (by omega) hk
  have hpos : 0 < 2 ^ k := Nat.two_pow_pos k
  apply UInt32.toNat_inj.mp
  rw [UInt32.toNat_and, toNat_ofNat, toNat_ofNat, toNat_ofNat,
    Nat.mod_eq_of_lt (show 2 ^ k - 1 < 2 ^ 32 by omega), Nat.and_two_pow_sub_one_eq_mod,
    Nat.mod_mod_of_dvd _ (Nat.pow_dvd_pow 2 hk),
    Nat.mod_eq_of_lt (lt_of_lt_of_le (Nat.mod_lt n hpos) hpow)]

/-- Two counts of one window share a cell only if they are equal. -/
theorem cell_inj {size a b : Nat} (hmod : a % size = b % size) (hle : b ≤ a)
    (hlt : a < b + size) : a = b := by
  have hdvd : size ∣ a - b := (Nat.modEq_iff_dvd' hle).mp hmod.symm
  have hzero : a - b = 0 := Nat.eq_zero_of_dvd_of_lt hdvd (by omega)
  omega

end Transition.Wrap
