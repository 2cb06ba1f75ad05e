import Mathlib.Order.Lattice
import Mathlib.Algebra.Group.Nat.Defs

/-!
# Counters of 32 bits

The operations of a counter are those of its value, as long as they fit.
-/

namespace Ns3.Lib

theorem toNat_add_of_lt {a b : UInt32} (h : a.toNat + b.toNat < 2 ^ 32) : (a + b).toNat = a.toNat + b.toNat := by
  rw [UInt32.toNat_add, Nat.mod_eq_of_lt h]

theorem toNat_mul_of_lt {a b : UInt32} (h : a.toNat * b.toNat < 2 ^ 32) : (a * b).toNat = a.toNat * b.toNat := by
  rw [UInt32.toNat_mul, Nat.mod_eq_of_lt h]

theorem toNat_max (a b : UInt32) : (max a b).toNat = max a.toNat b.toNat := by
  change (if a ≤ b then b else a).toNat = _
  split_ifs with hle
  · exact (Nat.max_eq_right (UInt32.le_iff_toNat_le.mp hle)).symm
  · exact (Nat.max_eq_left (Nat.le_of_not_le (mt UInt32.le_iff_toNat_le.mpr hle))).symm

theorem toNat_min (a b : UInt32) : (min a b).toNat = min a.toNat b.toNat := by
  change (if a ≤ b then a else b).toNat = _
  split_ifs with hle
  · exact (Nat.min_eq_left (UInt32.le_iff_toNat_le.mp hle)).symm
  · exact (Nat.min_eq_right (Nat.le_of_not_le (mt UInt32.le_iff_toNat_le.mpr hle))).symm

end Ns3.Lib
