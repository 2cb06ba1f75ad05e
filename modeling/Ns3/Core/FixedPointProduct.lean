import Ns3.Core.CairoWideint

/-!
# The product of fixed-point numbers

When `int64x64_t` multiplies rightly, in both implementations. The fraction of the product is added up from two parts.
What that carries is lost with pairs of words, and with the integers of the compiler, which join it to the integer part
by a bitwise or, if that is odd. A product that is out of range aborts only if the product of the integer parts is.

* `mul_eq`, `cairoMul_eq` — what the implementations compute.
* `mul_iff` — when they compute the product, abort out of range, and agree.
-/

namespace Ns3

namespace CairoUint128

variable {a b : CairoUint128}

theorem hi_eq (a : CairoUint128) : a.hi.toNat = a.toNat / 2 ^ 64 := by
  have hlo := a.lo.toNat_lt
  rw [toNat]
  omega

theorem lo_eq (a : CairoUint128) : a.lo.toNat = a.toNat % 2 ^ 64 := by
  have hlo := a.lo.toNat_lt
  rw [toNat]
  omega

theorem negative_iff (a : CairoUint128) : negative a = true ↔ 2 ^ 127 ≤ a.toNat := by
  have hlo := a.lo.toNat_lt
  have hhi := a.hi.toNat_lt
  rw [negative, decide_eq_true_eq, Int64.lt_iff_toInt_lt]
  change a.hi.toBitVec.toInt < 0 ↔ _
  rw [BitVec.toInt_eq_toNat_cond, toNat]
  change (if 2 * a.hi.toNat < 2 ^ 64 then (a.hi.toNat : ℤ) else a.hi.toNat - (2 ^ 64 : ℕ)) < 0 ↔ _
  split_ifs <;> omega

theorem negative_ofBits (x : BitVec 128) : negative (ofBits x) = x.slt 0 := by
  have hx := Int64x64.toInt_eq x
  rw [Bool.eq_iff_iff, negative_iff, toNat_ofBits, Int64x64.slt_zero_eq, decide_eq_true_eq]
  omega

theorem negate_ofBits (x : BitVec 128) : negate (ofBits x) = ofBits (-x) := by
  rw [eq_ofBits_iff, toNat_negate, toNat_ofBits, BitVec.toNat_neg]

end CairoUint128

namespace Int64x64

open CairoUint128

/-- What `Umul` makes of the partial products. -/
theorem cairoUmul_eq {a b : CairoUint128} (ha : a.toNat ≤ 2 ^ 127) (hb : b.toNat ≤ 2 ^ 127) :
    CairoInt64x64.umul a b = if a.toNat / 2 ^ 64 * (b.toNat / 2 ^ 64) < 2 ^ 64 then
      some (.ofBits (BitVec.ofNat 128
        (fractionSum a.toNat b.toNat % 2 ^ 64 + integerSum a.toNat b.toNat % 2 ^ 64 * 2 ^ 64)))
    else none := by
  have hmid : (add (mul64 a.lo b.hi) (mul64 a.hi b.lo)).toNat = midProduct a.toNat b.toNat := by
    have hleft : a.toNat % 2 ^ 64 * (b.toNat / 2 ^ 64) ≤ (2 ^ 64 - 1) * 2 ^ 63 := Nat.mul_le_mul (by omega) (by omega)
    have hright : a.toNat / 2 ^ 64 * (b.toNat % 2 ^ 64) ≤ 2 ^ 63 * (2 ^ 64 - 1) := Nat.mul_le_mul (by omega) (by omega)
    rw [toNat_add, toNat_mul64, toNat_mul64, lo_eq, lo_eq, hi_eq, hi_eq, midProduct, Nat.mod_eq_of_lt (by omega)]
  have hhi : (mul64 a.hi b.hi).toNat = a.toNat / 2 ^ 64 * (b.toNat / 2 ^ 64) := by rw [toNat_mul64, hi_eq, hi_eq]
  have hlo : (mul64 a.lo b.lo).toNat = a.toNat % 2 ^ 64 * (b.toNat % 2 ^ 64) := by rw [toNat_mul64, lo_eq, lo_eq]
  simp only [CairoInt64x64.umul]
  generalize add (mul64 a.lo b.hi) (mul64 a.hi b.lo) = midPart at hmid ⊢
  generalize mul64 a.hi b.hi = hiPart at hhi ⊢
  generalize mul64 a.lo b.lo = loPart at hlo ⊢
  have hsmall : hiPart.hi ≠ 0 ↔ ¬ a.toNat / 2 ^ 64 * (b.toNat / 2 ^ 64) < 2 ^ 64 := by
    rw [Ne, ← UInt64.toNat_inj, hi_eq, hhi, UInt64.toNat_zero]
    omega
  by_cases hfits : a.toNat / 2 ^ 64 * (b.toNat / 2 ^ 64) < 2 ^ 64
  · rw [if_neg (fun hbig => hsmall.mp hbig hfits), if_pos hfits, Option.some.injEq, eq_ofBits_iff, CairoUint128.toNat,
      UInt64.toNat_add, UInt64.toNat_add, hi_eq, hi_eq, lo_eq, lo_eq, hmid, hhi, hlo, BitVec.toNat_ofNat,
      ← fractionSum, integerSum]
    omega
  · rw [if_pos (hsmall.mpr hfits), if_neg hfits]

theorem cairoAbsolute_ofBits (x : BitVec 128) : CairoInt64x64.absolute (ofBits x) = ofBits (absolute x) := by
  rw [CairoInt64x64.absolute, negative_ofBits, negate_ofBits, absolute]
  split_ifs <;> rfl

theorem cairoOutputSign_ofBits (x y : BitVec 128) :
    CairoInt64x64.outputSign (ofBits x) (ofBits y) = outputSign x y := by
  rw [CairoInt64x64.outputSign, negative_ofBits, negative_ofBits, outputSign]

/-- The absolute value of a number, in units of 2 ^ -64. -/
def size (x : Int64x64) : ℕ := x.v.toInt.natAbs

/-- The exact product, in units of 2 ^ -128. -/
def product (x o : Int64x64) : ℤ := x.v.toInt * o.v.toInt

/-- The product is in the range of the numbers. -/
def ProductInRange (x o : Int64x64) : Prop := -2 ^ 127 * 2 ^ 64 ≤ product x o ∧ product x o ≤ (2 ^ 127 - 1) * 2 ^ 64

/-- The product is cut towards zero if it is in range, the operation aborts if it is not, and the implementations
agree. -/
structure MultipliesRight (x o : Int64x64) : Prop where
  exact : ProductInRange x o → ∃ result, mul x o = some result ∧ result.v.toInt = (product x o).tdiv (2 ^ 64)
  aborts : ¬ ProductInRange x o → mul x o = none
  same : (CairoInt64x64.ofBits x).mul (.ofBits o) = (mul x o).map .ofBits

variable {x o : Int64x64}

theorem size_le (x : Int64x64) : x.size ≤ 2 ^ 127 := by
  rw [size, ← toNat_absolute]
  exact toNat_absolute_le x.v

/-- The sign of a product is that of the operands. -/
theorem mul_toInt_eq (x y : BitVec 128) :
    x.toInt * y.toInt = if outputSign x y then -((x.toInt.natAbs * y.toInt.natAbs : ℕ) : ℤ)
      else (x.toInt.natAbs * y.toInt.natAbs : ℕ) := by
  rw [outputSign, slt_zero_eq, slt_zero_eq, Int.natCast_mul]
  by_cases hx : x.toInt < 0 <;> by_cases hy : y.toInt < 0
  · rw [Int.ofNat_natAbs_of_nonpos (Int.le_of_lt hx), Int.ofNat_natAbs_of_nonpos (Int.le_of_lt hy)]
    simp [hx, hy]
  · rw [Int.ofNat_natAbs_of_nonpos (Int.le_of_lt hx), Int.natAbs_of_nonneg (Int.not_lt.mp hy)]
    simp [hx, hy]
  · rw [Int.natAbs_of_nonneg (Int.not_lt.mp hx), Int.ofNat_natAbs_of_nonpos (Int.le_of_lt hy)]
    simp [hx, hy]
  · rw [Int.natAbs_of_nonneg (Int.not_lt.mp hx), Int.natAbs_of_nonneg (Int.not_lt.mp hy)]
    simp [hx, hy]

theorem tdiv_ite (negative : Bool) (n d : ℕ) :
    (if negative then -(n : ℤ) else n).tdiv d = if negative then -((n / d : ℕ) : ℤ) else (n / d : ℕ) := by
  cases negative with
  | false => exact (Int.ofNat_tdiv n d).symm
  | true =>
    rw [if_pos rfl, if_pos rfl, Int.neg_tdiv, ← Int.ofNat_tdiv]

/-- What `Mul` computes. -/
theorem mul_eq (x o : Int64x64) :
    mul x o = if x.size / 2 ^ 64 * (o.size / 2 ^ 64) < 2 ^ 64 then
      some ⟨addSign (outputSign x.v o.v)
        (BitVec.ofNat 128 (fractionSum x.size o.size ||| integerSum x.size o.size % 2 ^ 64 * 2 ^ 64))⟩
    else none := by
  rw [mul, umul_eq (toNat_absolute_le _) (toNat_absolute_le _), toNat_absolute, toNat_absolute, ← size, ← size]
  split_ifs <;> rfl

/-- What `Mul` computes with pairs of words. -/
theorem cairoMul_eq (x o : Int64x64) :
    (CairoInt64x64.ofBits x).mul (.ofBits o) = if x.size / 2 ^ 64 * (o.size / 2 ^ 64) < 2 ^ 64 then
      some (.ofBits ⟨addSign (outputSign x.v o.v)
        (BitVec.ofNat 128 (fractionSum x.size o.size % 2 ^ 64 + integerSum x.size o.size % 2 ^ 64 * 2 ^ 64))⟩)
    else none := by
  rw [CairoInt64x64.mul, CairoInt64x64.ofBits, CairoInt64x64.ofBits, cairoAbsolute_ofBits, cairoAbsolute_ofBits,
    cairoOutputSign_ofBits, cairoUmul_eq (toNat_ofBits _ ▸ toNat_absolute_le _) (toNat_ofBits _ ▸ toNat_absolute_le _),
    toNat_ofBits, toNat_ofBits, toNat_absolute, toNat_absolute, ← size, ← size]
  by_cases hfits : x.size / 2 ^ 64 * (o.size / 2 ^ 64) < 2 ^ 64
  · rw [if_pos hfits, if_pos hfits, Option.map_some, addSign]
    split_ifs
    · rw [negate_ofBits, CairoInt64x64.ofBits]
    · rfl
  · rw [if_neg hfits, if_neg hfits]
    rfl

theorem addSign_inj {s : Bool} {a b : BitVec 128} : addSign s a = addSign s b ↔ a = b := by
  rw [addSign, addSign]
  split_ifs
  · exact BitVec.neg_inj
  · exact Iff.rfl

theorem ofBits_inj {x y : Int64x64} : CairoInt64x64.ofBits x = .ofBits y ↔ x = y := by
  constructor
  · intro h
    have hbits : CairoUint128.ofBits x.v = .ofBits y.v := congrArg CairoInt64x64.v h
    rw [eq_ofBits_iff, toNat_ofBits, BitVec.toNat_inj] at hbits
    cases x
    cases y
    exact congrArg mk hbits
  · rintro rfl
    rfl

theorem same_iff (hfits : x.size / 2 ^ 64 * (o.size / 2 ^ 64) < 2 ^ 64) :
    (CairoInt64x64.ofBits x).mul (.ofBits o) = (mul x o).map .ofBits ↔
      fractionSum x.size o.size < 2 ^ 64 ∨ integerSum x.size o.size % 2 = 1 := by
  have hfraction := fractionSum_lt x.size o.size
  have hor := or_eq (d := integerSum x.size o.size % 2 ^ 64) hfraction
  rw [cairoMul_eq, mul_eq, if_pos hfits, if_pos hfits, Option.map_some, Option.some.injEq, ofBits_inj, mk.injEq,
    addSign_inj, ← BitVec.toNat_inj, BitVec.toNat_ofNat, BitVec.toNat_ofNat, hor]
  split_ifs <;> omega

theorem productInRange_iff : ProductInRange x o ↔
    if outputSign x.v o.v then x.size * o.size ≤ 2 ^ 127 * 2 ^ 64 else x.size * o.size ≤ (2 ^ 127 - 1) * 2 ^ 64 := by
  rw [ProductInRange, product, mul_toInt_eq, ← size, ← size]
  split_ifs <;> omega

theorem tdiv_product (x o : Int64x64) :
    (product x o).tdiv (2 ^ 64) = if outputSign x.v o.v then -((x.size * o.size / 2 ^ 64 : ℕ) : ℤ)
      else (x.size * o.size / 2 ^ 64 : ℕ) := by
  rw [product, mul_toInt_eq, ← size, ← size]
  exact tdiv_ite _ _ _

/-- When the product in range is the one that is computed. -/
theorem exact_iff (hrange : ProductInRange x o) (hfits : x.size / 2 ^ 64 * (o.size / 2 ^ 64) < 2 ^ 64) :
    (∃ result, mul x o = some result ∧ result.v.toInt = (product x o).tdiv (2 ^ 64)) ↔
      fractionSum x.size o.size < 2 ^ 64 ∨ integerSum x.size o.size % 2 = 0 := by
  have hfraction := fractionSum_lt x.size o.size
  have hquotient := mul_div_eq x.size o.size
  have hle : x.size * o.size / 2 ^ 64 ≤ 2 ^ 127 ∧
      (outputSign x.v o.v = false → x.size * o.size / 2 ^ 64 < 2 ^ 127) := by
    rw [productInRange_iff] at hrange
    split_ifs at hrange with hsign
    · exact ⟨by omega, fun h => absurd (hsign.symm.trans h) (by decide)⟩
    · exact ⟨by omega, fun _ => by omega⟩
  have hor := or_eq (d := integerSum x.size o.size % 2 ^ 64) hfraction
  generalize hresult : fractionSum x.size o.size ||| integerSum x.size o.size % 2 ^ 64 * 2 ^ 64 = result at hor
  have hresultle : result ≤ x.size * o.size / 2 ^ 64 := by
    split_ifs at hor <;> omega
  have hvalue := @toInt_addSign (outputSign x.v o.v) (BitVec.ofNat 128 result)
    (by rw [BitVec.toNat_ofNat]; omega) (fun h => by have := hle.2 h; rw [BitVec.toNat_ofNat]; omega)
  rw [BitVec.toNat_ofNat, Nat.mod_eq_of_lt (by omega)] at hvalue
  simp only [mul_eq, if_pos hfits, hresult, Option.some.injEq, exists_eq_left', hvalue, tdiv_product]
  split_ifs at hor ⊢ <;> omega

/-- When numbers are multiplied rightly: no carry gets lost if the product is in range, and the product of the integer
parts is seen not to fit if it is not. -/
theorem mul_iff (x o : Int64x64) :
    MultipliesRight x o ↔
      (ProductInRange x o → fractionSum x.size o.size < 2 ^ 64) ∧
      (¬ ProductInRange x o → 2 ^ 64 ≤ x.size / 2 ^ 64 * (o.size / 2 ^ 64)) := by
  by_cases hfits : x.size / 2 ^ 64 * (o.size / 2 ^ 64) < 2 ^ 64
  · have hsome : mul x o ≠ none := by
      rw [mul_eq, if_pos hfits]
      exact Option.some_ne_none _
    constructor
    · intro h
      refine ⟨fun hrange => ?_, fun hrange => absurd (h.aborts hrange) hsome⟩
      have hexact := (exact_iff hrange hfits).mp (h.exact hrange)
      have hsame := (same_iff hfits).mp h.same
      omega
    · rintro ⟨hin, hout⟩
      have hrange : ProductInRange x o := by
        by_contra hrange
        exact Nat.not_le.mpr hfits (hout hrange)
      exact ⟨fun _ => (exact_iff hrange hfits).mpr (.inl (hin hrange)), fun h => absurd hrange h,
        (same_iff hfits).mpr (.inl (hin hrange))⟩
  · have hnone : mul x o = none := by rw [mul_eq, if_neg hfits]
    have hrange : ¬ ProductInRange x o := by
      have hle := mul_div_eq x.size o.size
      rw [integerSum] at hle
      rw [productInRange_iff]
      split_ifs <;> omega
    refine iff_of_true ⟨fun h => absurd h hrange, fun _ => hnone, ?_⟩
      ⟨fun h => absurd h hrange, fun _ => Nat.not_lt.mp hfits⟩
    rw [cairoMul_eq, mul_eq, if_neg hfits, if_neg hfits]
    rfl

/-- The square of 2.875 is 8.265625; 7.265625 is computed. -/
theorem not_multipliesRight_carry :
    ¬ MultipliesRight ⟨BitVec.ofNat 128 (23 * 2 ^ 61)⟩ ⟨BitVec.ofNat 128 (23 * 2 ^ 61)⟩ := by
  intro h
  have hmul : mul ⟨BitVec.ofNat 128 (23 * 2 ^ 61)⟩ ⟨BitVec.ofNat 128 (23 * 2 ^ 61)⟩ =
      some ⟨BitVec.ofNat 128 (465 * 2 ^ 58)⟩ := by decide +kernel
  obtain ⟨result, hresult, hexact⟩ := h.exact (by unfold ProductInRange; decide +kernel)
  obtain rfl := Option.some.inj (hmul.symm.trans hresult)
  exact absurd hexact (by decide +kernel)

end Int64x64

end Ns3
