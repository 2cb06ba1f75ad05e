import Ns3.Core.FixedPointProduct
import Mathlib.Algebra.Order.Ring.Int

/-!
# The quotient of fixed-point numbers

How far a quotient is from the exact one. The remainder of the division of the raw numbers is divided once more for the
fraction. If it is not below 2 ^ 64 it is divided by the integer part of the divisor only, which is too much by up to 1.

* `div_eq`, `cairoDiv_eq` — what the implementations compute; it is the same.
* `div_iff` — when a quotient is off by at most 2 ^ -63.
-/

namespace Ns3

namespace Int64x64

open CairoUint128

/-- The fraction of a quotient, in units of 2 ^ -64. -/
def fraction (a b : ℕ) : ℕ := if a % b < 2 ^ 64 then a % b * 2 ^ 64 / b else a % b / (b / 2 ^ 64)

/-- The quotient that is computed, in units of 2 ^ -64. -/
def quotient (a b : ℕ) : ℕ := a / b * 2 ^ 64 + fraction a b

/-- What `Divu` computes. -/
theorem divu_eq {a b : BitVec 128} (hb : b.toNat ≠ 0) :
    divu a b = some (BitVec.ofNat 128 (quotient a.toNat b.toNat)) := by
  have hne : b ≠ 0 := by
    rintro rfl
    exact hb rfl
  have hrem : a.toNat % b.toNat < b.toNat := Nat.mod_lt _ (Nat.pos_of_ne_zero hb)
  have hlt := b.isLt
  have hshift : ((a % b) >>> 64).toNat = a.toNat % b.toNat / 2 ^ 64 := by
    rw [BitVec.toNat_ushiftRight, Nat.shiftRight_eq_div_pow, BitVec.toNat_umod]
  have hsmall : (a % b) >>> 64 = 0 ↔ a.toNat % b.toNat < 2 ^ 64 := by
    rw [← BitVec.toNat_inj, hshift]
    change _ = 0 ↔ _
    omega
  simp only [divu, if_neg hne, hsmall]
  rw [quotient, fraction]
  by_cases hcase : a.toNat % b.toNat < 2 ^ 64
  · rw [if_pos hcase, if_pos hcase]
    dsimp only
    rw [if_neg hne, Option.some.injEq]
    apply BitVec.eq_of_toNat_eq
    rw [BitVec.toNat_add, BitVec.toNat_shiftLeft, BitVec.toNat_udiv, BitVec.toNat_udiv, BitVec.toNat_shiftLeft,
      BitVec.toNat_umod, Nat.shiftLeft_eq, Nat.shiftLeft_eq, BitVec.toNat_ofNat,
      Nat.mod_eq_of_lt (show a.toNat % b.toNat * 2 ^ 64 < 2 ^ 128 by omega)]
    omega
  · have hhi : (b >>> 64).toNat = b.toNat / 2 ^ 64 := by
      rw [BitVec.toNat_ushiftRight, Nat.shiftRight_eq_div_pow]
    have hdiv : b >>> 64 ≠ 0 := by
      rw [Ne, ← BitVec.toNat_inj, hhi]
      change ¬ _ = 0
      omega
    rw [if_neg hcase, if_neg hcase]
    dsimp only
    rw [if_neg hdiv, Option.some.injEq]
    apply BitVec.eq_of_toNat_eq
    rw [BitVec.toNat_add, BitVec.toNat_shiftLeft, BitVec.toNat_udiv, BitVec.toNat_udiv, BitVec.toNat_umod, hhi,
      Nat.shiftLeft_eq, BitVec.toNat_ofNat]
    omega

/-- What `Udiv` computes. -/
theorem cairoUdiv_eq {a b : CairoUint128} (hb : b.toNat ≠ 0) :
    CairoInt64x64.udiv a b = some (.ofBits (BitVec.ofNat 128 (quotient a.toNat b.toNat))) := by
  obtain ⟨quo, rem, hdivrem, hquo, hrem⟩ := @exists_divrem a b (Nat.pos_of_ne_zero hb)
  have hlt := b.toNat_lt
  have hremlt : rem.toNat < b.toNat := by
    rw [hrem]
    exact Nat.mod_lt _ (Nat.pos_of_ne_zero hb)
  have hsmall : rem.rsl 64 = ⟨0, 0⟩ ↔ rem.toNat < 2 ^ 64 := by
    have hzero : (⟨0, 0⟩ : CairoUint128).toNat = 0 := rfl
    rw [← toNat_inj, toNat_rsl_64, hzero]
    omega
  have hadd : ∀ q : CairoUint128, (quo.lsl 64).add q = .ofBits (BitVec.ofNat 128 (quo.toNat * 2 ^ 64 + q.toNat)) := by
    intro q
    rw [eq_ofBits_iff, toNat_add, toNat_lsl_64, BitVec.toNat_ofNat]
    omega
  simp only [CairoInt64x64.udiv, hdivrem, hsmall, Option.bind_eq_bind, Option.bind_some]
  rw [quotient, fraction, ← hrem, ← hquo]
  by_cases hcase : rem.toNat < 2 ^ 64
  · rw [if_pos hcase, if_pos hcase]
    dsimp only
    obtain ⟨q, r, hq, hqnat, -⟩ := @exists_divrem (rem.lsl 64) b (Nat.pos_of_ne_zero hb)
    rw [hq, Option.bind_some, hadd, hqnat, toNat_lsl_64, Nat.mod_eq_of_lt (show rem.toNat * 2 ^ 64 < 2 ^ 128 by omega)]
  · have hpos : 0 < (b.rsl 64).toNat := by
      rw [toNat_rsl_64]
      omega
    rw [if_neg hcase, if_neg hcase]
    dsimp only
    obtain ⟨q, r, hq, hqnat, -⟩ := @exists_divrem rem (b.rsl 64) hpos
    rw [hq, Option.bind_some, hadd, hqnat, toNat_rsl_64]

variable {x o : Int64x64}

theorem size_ne_zero (ho : o.v ≠ 0) : o.size ≠ 0 := by
  rw [size, ← toNat_absolute]
  have hv := toInt_eq o.v
  have hne : o.v.toNat ≠ 0 := fun h => ho (BitVec.toNat_inj.mp h)
  rw [toNat_absolute]
  omega

theorem div_eq (x : Int64x64) (ho : o.v ≠ 0) :
    div x o = some ⟨addSign (outputSign x.v o.v) (BitVec.ofNat 128 (quotient x.size o.size))⟩ := by
  rw [div, divu_eq (by rw [toNat_absolute]; exact size_ne_zero ho), toNat_absolute, toNat_absolute, ← size, ← size]
  rfl

theorem cairoDiv_eq (x : Int64x64) (ho : o.v ≠ 0) :
    (CairoInt64x64.ofBits x).div (.ofBits o) = (div x o).map .ofBits := by
  have hne : (CairoUint128.ofBits (absolute o.v)).toNat ≠ 0 := by
    rw [toNat_ofBits, toNat_absolute]
    exact size_ne_zero ho
  rw [div_eq x ho, CairoInt64x64.div, CairoInt64x64.ofBits, CairoInt64x64.ofBits, cairoAbsolute_ofBits,
    cairoAbsolute_ofBits, cairoOutputSign_ofBits, cairoUdiv_eq hne, toNat_ofBits, toNat_ofBits, toNat_absolute,
    toNat_absolute, ← size, ← size, Option.map_some, Option.map_some, addSign]
  split_ifs
  · rw [negate_ofBits, CairoInt64x64.ofBits]
  · rfl

/-- The exact quotient is in the range of the numbers. -/
def QuotientInRange (x o : Int64x64) : Prop :=
  -2 ^ 127 * (o.size : ℤ) ≤ x.v.toInt * 2 ^ 64 * o.v.toInt.sign ∧
    x.v.toInt * 2 ^ 64 * o.v.toInt.sign ≤ (2 ^ 127 - 1) * o.size

/-- A number is off the exact quotient by 2 ^ -63 at most, and does not have the other sign. -/
structure Near (x o result : Int64x64) : Prop where
  close : (result.v.toInt * o.v.toInt - x.v.toInt * 2 ^ 64).natAbs ≤ 2 * o.size
  nonneg : 0 ≤ x.v.toInt * o.v.toInt → 0 ≤ result.v.toInt
  nonpos : x.v.toInt * o.v.toInt ≤ 0 → result.v.toInt ≤ 0

/-- The remainder is divided by the whole divisor, or the lower half of the divisor that is left out makes the fraction
not much more, and the quotient stays in range. -/
def SmallError (x o : Int64x64) : Prop :=
  x.size % o.size < 2 ^ 64 ∨
    x.size % o.size / (o.size / 2 ^ 64) * (o.size % 2 ^ 64) ≤
      x.size % o.size % (o.size / 2 ^ 64) * 2 ^ 64 + 2 * o.size ∧
    x.size / o.size * 2 ^ 64 + x.size % o.size / (o.size / 2 ^ 64) ≤
      if outputSign x.v o.v then 2 ^ 127 else 2 ^ 127 - 1

/-- The greatest absolute value of a number with the sign. -/
def greatest (negative : Bool) : ℕ := if negative then 2 ^ 127 else 2 ^ 127 - 1

theorem toInt_mul_sign (x : BitVec 128) {y : BitVec 128} (hy : y ≠ 0) :
    x.toInt * y.toInt.sign = if outputSign x y then -(x.toInt.natAbs : ℤ) else x.toInt.natAbs := by
  have hzero : y.toInt ≠ 0 := fun h => hy (BitVec.toInt_inj.mp (h.trans BitVec.toInt_zero.symm))
  rw [outputSign, slt_zero_eq, slt_zero_eq]
  by_cases hx : x.toInt < 0 <;> by_cases hneg : y.toInt < 0
  · rw [Int.sign_eq_neg_one_of_neg hneg, Int.ofNat_natAbs_of_nonpos (Int.le_of_lt hx)]
    simp [hx, hneg]
  · rw [Int.sign_eq_one_of_pos (by omega), Int.ofNat_natAbs_of_nonpos (Int.le_of_lt hx)]
    simp [hx, hneg]
  · rw [Int.sign_eq_neg_one_of_neg hneg, Int.natAbs_of_nonneg (Int.not_lt.mp hx)]
    simp [hx, hneg]
  · rw [Int.sign_eq_one_of_pos (by omega), Int.natAbs_of_nonneg (Int.not_lt.mp hx)]
    simp [hx, hneg]

theorem quotientInRange_iff (ho : o.v ≠ 0) :
    QuotientInRange x o ↔ x.size * 2 ^ 64 ≤ greatest (outputSign x.v o.v) * o.size := by
  have hsign := toInt_mul_sign x.v ho
  rw [QuotientInRange, Int.mul_right_comm, hsign, greatest, ← size]
  split_ifs <;> omega

/-- A result of the right sign is as near as its absolute value. -/
theorem near_iff {result : Int64x64} {n : ℕ} (ho : o.v ≠ 0)
    (hresult : result.v.toInt = if outputSign x.v o.v then -(n : ℤ) else n) (hn : x.size = 0 → n = 0) :
    Near x o result ↔ n * o.size ≤ x.size * 2 ^ 64 + 2 * o.size ∧ x.size * 2 ^ 64 ≤ n * o.size + 2 * o.size := by
  have hproduct := mul_toInt_eq x.v o.v
  have hsign := toInt_mul_sign x.v ho
  have habs : (result.v.toInt * o.v.toInt - x.v.toInt * 2 ^ 64).natAbs =
      (result.v.toInt * o.size - x.v.toInt * o.v.toInt.sign * 2 ^ 64).natAbs := by
    have hzero : o.v.toInt ≠ 0 := fun h => ho (BitVec.toInt_inj.mp (h.trans BitVec.toInt_zero.symm))
    rcases Int.lt_or_gt_of_ne hzero with hneg | hpos
    · have hswap : result.v.toInt * -o.v.toInt - x.v.toInt * -1 * 2 ^ 64 =
          -(result.v.toInt * o.v.toInt - x.v.toInt * 2 ^ 64) := by ring
      rw [size, Int.ofNat_natAbs_of_nonpos (Int.le_of_lt hneg), Int.sign_eq_neg_one_of_neg hneg, hswap, Int.natAbs_neg]
    · rw [size, Int.natAbs_of_nonneg (Int.le_of_lt hpos), Int.sign_eq_one_of_pos hpos, Int.mul_one]
  have hclose : (result.v.toInt * o.v.toInt - x.v.toInt * 2 ^ 64).natAbs ≤ 2 * o.size ↔
      n * o.size ≤ x.size * 2 ^ 64 + 2 * o.size ∧ x.size * 2 ^ 64 ≤ n * o.size + 2 * o.size := by
    rw [habs, hresult, hsign, ← size]
    split_ifs
    · rw [Int.neg_mul]
      omega
    · omega
  have hzero : (x.size * o.size : ℕ) = (0 : ℤ) → n = 0 := fun h =>
    hn ((Nat.mul_eq_zero.mp (Int.natCast_eq_zero.mp h)).resolve_right (size_ne_zero ho))
  rw [← size, ← size] at hproduct
  constructor
  · exact fun h => hclose.mp h.close
  · intro h
    refine ⟨hclose.mpr h, fun hnonneg => ?_, fun hnonpos => ?_⟩ <;> rw [hproduct] at * <;> rw [hresult] <;>
      split_ifs at * with hs
    · have := hzero (by omega)
      omega
    · exact Int.natCast_nonneg _
    · omega
    · have := hzero (by omega)
      omega

theorem quotient_mul (x o : Int64x64) :
    x.size / o.size * 2 ^ 64 * o.size + x.size % o.size * 2 ^ 64 = x.size * 2 ^ 64 := by
  conv_rhs => rw [← Nat.div_add_mod x.size o.size]
  ring

/-- The fraction that is computed with the upper half of the divisor, and the lower half that is left out. -/
theorem fraction_le_iff (r o : ℕ) :
    r / (o / 2 ^ 64) * o ≤ r * 2 ^ 64 + 2 * o ↔
      r / (o / 2 ^ 64) * (o % 2 ^ 64) ≤ r % (o / 2 ^ 64) * 2 ^ 64 + 2 * o := by
  have hdivisor : r / (o / 2 ^ 64) * o =
      o / 2 ^ 64 * (r / (o / 2 ^ 64)) * 2 ^ 64 + r / (o / 2 ^ 64) * (o % 2 ^ 64) := by
    calc r / (o / 2 ^ 64) * o
        = r / (o / 2 ^ 64) * (2 ^ 64 * (o / 2 ^ 64) + o % 2 ^ 64) := by rw [Nat.div_add_mod o (2 ^ 64)]
      _ = _ := by ring
  have hremainder : r * 2 ^ 64 = o / 2 ^ 64 * (r / (o / 2 ^ 64)) * 2 ^ 64 + r % (o / 2 ^ 64) * 2 ^ 64 := by
    rw [← Nat.add_mul, Nat.div_add_mod]
  omega

/-- A quotient in range that is computed is near the exact one exactly if the error is small. -/
theorem exists_near_iff (ho : o.v ≠ 0) (hrange : QuotientInRange x o) :
    (∃ result, div x o = some result ∧ Near x o result) ↔ SmallError x o := by
  have hpos : 0 < o.size := Nat.pos_of_ne_zero (size_ne_zero ho)
  have hole := o.size_le
  have hsum := quotient_mul x o
  have hremlt : x.size % o.size < o.size := Nat.mod_lt _ hpos
  rw [quotientInRange_iff ho] at hrange
  have hzero : x.size = 0 → quotient x.size o.size = 0 := by
    intro h
    rw [h, quotient, fraction, Nat.zero_mod, Nat.zero_div, if_pos (by decide), Nat.zero_mul, Nat.zero_div]
  have hbits : quotient x.size o.size < 2 ^ 128 := by
    have hgreatest : greatest (outputSign x.v o.v) ≤ 2 ^ 127 := by
      rw [greatest]
      split_ifs <;> decide
    have hle : x.size * 2 ^ 64 ≤ 2 ^ 127 * o.size := Nat.le_trans hrange (Nat.mul_le_mul_right _ hgreatest)
    have hquo : x.size / o.size ≤ 2 ^ 63 := Nat.div_le_of_le_mul (by omega)
    have hfraction : fraction x.size o.size < 2 ^ 65 := by
      rw [fraction]
      split_ifs
      · exact Nat.div_lt_of_lt_mul (by omega)
      · exact Nat.div_lt_of_lt_mul (by omega)
    rw [quotient]
    omega
  have hdiv := div_eq x ho
  have hresult : (BitVec.ofNat 128 (quotient x.size o.size)).toNat = quotient x.size o.size := by
    rw [BitVec.toNat_ofNat, Nat.mod_eq_of_lt hbits]
  have hiff : (∃ result, div x o = some result ∧ Near x o result) ↔ Near x o
      ⟨addSign (outputSign x.v o.v) (BitVec.ofNat 128 (quotient x.size o.size))⟩ := by
    rw [hdiv]
    simp only [Option.some.injEq, exists_eq_left']
  rw [hiff]
  by_cases hle : quotient x.size o.size ≤ greatest (outputSign x.v o.v)
  · have hvalue := @toInt_addSign (outputSign x.v o.v) (BitVec.ofNat 128 (quotient x.size o.size))
      (by rw [hresult]; rw [greatest] at hle; split_ifs at hle <;> omega)
      (fun h => by rw [hresult]; rw [greatest, h, if_neg Bool.false_ne_true] at hle; omega)
    rw [hresult] at hvalue
    have hnear := @near_iff x o ⟨addSign (outputSign x.v o.v) (BitVec.ofNat 128 (quotient x.size o.size))⟩ _ ho hvalue
      hzero
    rw [hnear, SmallError, ← greatest]
    rw [quotient, fraction] at hle ⊢
    by_cases hsmall : x.size % o.size < 2 ^ 64
    · have hfloor := Nat.div_mul_le_self (x.size % o.size * 2 ^ 64) o.size
      have hceil := Nat.lt_div_mul_add hpos (a := x.size % o.size * 2 ^ 64)
      rw [if_pos hsmall, Nat.add_mul]
      exact iff_of_true (by omega) (.inl hsmall)
    · have hover : x.size % o.size * 2 ^ 64 < x.size % o.size / (o.size / 2 ^ 64) * o.size + o.size := by
        have hhi : 0 < o.size / 2 ^ 64 := by omega
        calc x.size % o.size * 2 ^ 64
            < (x.size % o.size / (o.size / 2 ^ 64) * (o.size / 2 ^ 64) + o.size / 2 ^ 64) * 2 ^ 64 :=
              Nat.mul_lt_mul_of_pos_right (Nat.lt_div_mul_add hhi) (by decide)
          _ = (x.size % o.size / (o.size / 2 ^ 64) + 1) * (o.size / 2 ^ 64 * 2 ^ 64) := by ring
          _ ≤ (x.size % o.size / (o.size / 2 ^ 64) + 1) * o.size := Nat.mul_le_mul_left _ (Nat.div_mul_le_self _ _)
          _ = x.size % o.size / (o.size / 2 ^ 64) * o.size + o.size := Nat.succ_mul _ _
      rw [if_neg hsmall] at hle ⊢
      rw [or_iff_right hsmall, and_iff_left hle, Nat.add_mul, ← fraction_le_iff]
      omega
  · have hproduct := mul_toInt_eq x.v o.v
    have hneg := toInt_eq (-BitVec.ofNat 128 (quotient x.size o.size))
    have hself := toInt_eq (BitVec.ofNat 128 (quotient x.size o.size))
    rw [BitVec.toNat_neg, hresult] at hneg
    rw [hresult] at hself
    have hsmall : ¬ SmallError x o := by
      intro herror
      by_cases hsmall : x.size % o.size < 2 ^ 64
      · have hfloor := Nat.div_mul_le_self (x.size % o.size * 2 ^ 64) o.size
        rw [quotient, fraction, if_pos hsmall] at hle
        have hmul : (x.size / o.size * 2 ^ 64 + x.size % o.size * 2 ^ 64 / o.size) * o.size ≤
            greatest (outputSign x.v o.v) * o.size := by
          rw [Nat.add_mul]
          omega
        exact hle (Nat.le_of_mul_le_mul_right hmul hpos)
      · rw [quotient, fraction, if_neg hsmall] at hle
        exact hle (herror.resolve_left hsmall).2
    refine iff_of_false (fun h => ?_) hsmall
    have hnonneg := h.nonneg
    have hnonpos := h.nonpos
    rw [hproduct] at hnonneg hnonpos
    dsimp only [addSign] at hnonneg hnonpos
    rw [greatest] at hle
    split_ifs at * with hs
    · have hneg' := hnonpos (by omega)
      have hgt : 2 ^ 127 < quotient x.size o.size := Nat.not_le.mp hle
      rw [Nat.mod_eq_of_lt (show 2 ^ 128 - quotient x.size o.size < 2 ^ 128 by omega)] at hneg
      rcases hneg with ⟨-, hvalue⟩ | ⟨hge, -⟩
      · rw [hvalue] at hneg'
        exact absurd (Int.ofNat_le.mp hneg') (Nat.not_le.mpr (Nat.sub_pos_of_lt hbits))
      · omega
    · have hpos' := hnonneg (Int.natCast_nonneg _)
      rcases hself with ⟨hlt, -⟩ | ⟨-, hvalue⟩
      · exact hle (Nat.le_sub_one_of_lt hlt)
      · rw [hvalue] at hpos'
        have hlt : ((quotient x.size o.size : ℕ) : ℤ) < (2 ^ 128 : ℕ) := Int.ofNat_lt.mpr hbits
        exact absurd (Int.le_of_sub_nonneg hpos') (Int.not_le.mpr hlt)

/-! ### What a product is divided by again -/

variable {a b product : Int64x64}

/-- What makes an exact product is the exact quotient, and is in range. -/
theorem quotientInRange_of_exact (hproduct : product.v.toInt * 2 ^ 64 = a.v.toInt * b.v.toInt) :
    QuotientInRange product b := by
  have ha := toInt_eq a.v
  have hlt := a.v.isLt
  have habs : b.v.toInt * b.v.toInt.sign = b.size := Int.mul_sign_self _
  have hpos : (0 : ℤ) ≤ b.size := Int.natCast_nonneg _
  rw [QuotientInRange, hproduct, Int.mul_assoc, habs]
  constructor
  · exact Int.mul_le_mul_of_nonneg_right (by omega) hpos
  · exact Int.mul_le_mul_of_nonneg_right (by omega) hpos

theorem near_exact_iff {result : Int64x64} (hb : b.v ≠ 0)
    (hproduct : product.v.toInt * 2 ^ 64 = a.v.toInt * b.v.toInt) :
    Near product b result ↔ (result.v.toInt - a.v.toInt).natAbs ≤ 2 ∧
      (0 ≤ a.v.toInt → 0 ≤ result.v.toInt) ∧ (a.v.toInt ≤ 0 → result.v.toInt ≤ 0) := by
  have hpos : 0 < b.size := Nat.pos_of_ne_zero (size_ne_zero hb)
  have hsquare : 0 < b.v.toInt * b.v.toInt := by
    rw [← Int.natAbs_mul_self', ← size]
    exact Int.mul_pos (Int.natCast_pos.mpr hpos) (Int.natCast_pos.mpr hpos)
  have hsign : product.v.toInt * b.v.toInt * 2 ^ 64 = a.v.toInt * (b.v.toInt * b.v.toInt) := by
    rw [Int.mul_right_comm, hproduct, Int.mul_assoc]
  have hclose : (result.v.toInt * b.v.toInt - product.v.toInt * 2 ^ 64).natAbs ≤ 2 * b.size ↔
      (result.v.toInt - a.v.toInt).natAbs ≤ 2 := by
    rw [hproduct, ← Int.sub_mul, Int.natAbs_mul, ← size, Nat.mul_le_mul_right_iff hpos]
  have hnonneg : 0 ≤ product.v.toInt * b.v.toInt ↔ 0 ≤ a.v.toInt := by
    rw [← mul_nonneg_iff_of_pos_right (show (0 : ℤ) < 2 ^ 64 by decide), hsign, mul_nonneg_iff_of_pos_right hsquare]
  have hnonpos : product.v.toInt * b.v.toInt ≤ 0 ↔ a.v.toInt ≤ 0 := by
    rw [← not_lt, ← not_lt, ← mul_pos_iff_of_pos_right (show (0 : ℤ) < 2 ^ 64 by decide), hsign,
      mul_pos_iff_of_pos_right hsquare]
  constructor
  · exact fun h => ⟨hclose.mp h.close, fun ha => h.nonneg (hnonneg.mpr ha), fun ha => h.nonpos (hnonpos.mpr ha)⟩
  · exact fun h => ⟨hclose.mpr h.1, fun hs => h.2.1 (hnonneg.mp hs), fun hs => h.2.2 (hnonpos.mp hs)⟩

/-- A quotient in range is off the exact one by 2 ^ -63 at most, with its sign, exactly if the error is small; so is
what is left of a number after an exact product is divided again; and the implementations agree on all quotients. -/
theorem div_iff (x o : Int64x64) :
    (o.v ≠ 0 → QuotientInRange x o → ((∃ result, div x o = some result ∧ Near x o result) ↔ SmallError x o)) ∧
    (∀ a : Int64x64, o.v ≠ 0 → x.v.toInt * 2 ^ 64 = a.v.toInt * o.v.toInt →
      ((∃ result, div x o = some result ∧ (result.v.toInt - a.v.toInt).natAbs ≤ 2 ∧
        (0 ≤ a.v.toInt → 0 ≤ result.v.toInt) ∧ (a.v.toInt ≤ 0 → result.v.toInt ≤ 0)) ↔ SmallError x o)) ∧
    (o.v ≠ 0 → (CairoInt64x64.ofBits x).div (.ofBits o) = (div x o).map .ofBits) := by
  refine ⟨fun ho hrange => exists_near_iff ho hrange, fun a ho hproduct => ?_, fun ho => cairoDiv_eq x ho⟩
  rw [← exists_near_iff ho (quotientInRange_of_exact hproduct)]
  exact exists_congr fun result => and_congr_right fun _ => (near_exact_iff ho hproduct).symm

/-- The remainder `1.5` is divided by the integer part `1` of a divisor just below 2: the quotient of `1.5` is almost
twice too much. -/
theorem not_near_truncated :
    ∃ x o : Int64x64, o.v ≠ 0 ∧ QuotientInRange x o ∧ ¬∃ result, div x o = some result ∧ Near x o result := by
  refine ⟨⟨BitVec.ofNat 128 (3 * 2 ^ 63)⟩, ⟨BitVec.ofNat 128 (2 ^ 65 - 1)⟩, by decide,
    by unfold QuotientInRange; decide, ?_⟩
  rintro ⟨result, hresult, hnear⟩
  have hdiv : div ⟨BitVec.ofNat 128 (3 * 2 ^ 63)⟩ ⟨BitVec.ofNat 128 (2 ^ 65 - 1)⟩ =
      some ⟨BitVec.ofNat 128 (3 * 2 ^ 63)⟩ := by decide +kernel
  obtain rfl := Option.some.inj (hdiv.symm.trans hresult)
  exact absurd hnear.close (by decide +kernel)

end Int64x64

end Ns3
