import Mathlib.Data.Nat.Bitwise
import Mathlib.Tactic.Ring

/-!
# Fixed-point numbers

`int64x64_t` (`core/model/int64x64-128.cc`): a number is a 128-bit integer, counted in units of 2 ^ -64. An operation
works on the absolute values, and gives the result its sign. The integers are those of the compiler, two's complement.

* `toNat_umul` — what the four partial products make: the carry out of the fraction is lost where the integer part is
  odd.
-/

namespace Ns3

/-- `int64x64_t`. -/
structure Int64x64 where
  v : BitVec 128
  deriving DecidableEq

namespace Int64x64

/-- `MASK_LO`. -/
def maskLo : BitVec 128 := (1 <<< 64) - 1

/-- `MASK_HI`. -/
def maskHi : BitVec 128 := ~~~ maskLo

/-- The absolute value that `OUTPUT_SIGN` stores. -/
def absolute (sa : BitVec 128) : BitVec 128 := if sa.slt 0 then -sa else sa

/-- The sign that `OUTPUT_SIGN` returns. -/
def outputSign (sa sb : BitVec 128) : Bool := sa.slt 0 && !sb.slt 0 || !sa.slt 0 && sb.slt 0

/-- The sign is added to the result. -/
def addSign (negResult : Bool) (result : BitVec 128) : BitVec 128 := if negResult then -result else result

/-- `Umul`; nothing where it aborts. -/
def umul (a b : BitVec 128) : Option (BitVec 128) :=
  let aL := a &&& maskLo
  let bL := b &&& maskLo
  let aH := (a >>> 64) &&& maskLo
  let bH := (b >>> 64) &&& maskLo
  let loPart := aL * bL
  let midPart := aL * bH + aH * bL
  let result := (loPart >>> 64) + (midPart &&& maskLo)
  let hiPart := aH * bH
  let result := result ||| (((hiPart &&& maskLo) <<< 64) + (midPart &&& maskHi))
  if hiPart &&& maskHi ≠ 0 then none else some result

/-- The product of the absolute values, with the sign. -/
def mul (x o : Int64x64) : Option Int64x64 :=
  (umul (absolute x.v) (absolute o.v)).map fun result => ⟨addSign (outputSign x.v o.v) result⟩

/-- `Divu`; nothing where it divides by zero. -/
def divu (a b : BitVec 128) : Option (BitVec 128) :=
  if b = 0 then none
  else
    let quo := a / b
    let rem := a % b
    let result := quo <<< 64
    let tmp := rem >>> 64
    let (rem, div) := if tmp = 0 then (rem <<< 64, b) else (rem, b >>> 64)
    if div = 0 then none else some (result + rem / div)

/-- The quotient of the absolute values, with the sign. -/
def div (x o : Int64x64) : Option Int64x64 :=
  (divu (absolute x.v) (absolute o.v)).map fun result => ⟨addSign (outputSign x.v o.v) result⟩

/-! ### Values -/

section

variable (x : BitVec 128)
include x

theorem toNat_and_maskLo : (x &&& maskLo).toNat = x.toNat % 2 ^ 64 := by
  rw [BitVec.toNat_and]
  exact Nat.and_two_pow_sub_one_eq_mod _ 64

theorem toNat_and_maskHi : (x &&& maskHi).toNat = x.toNat / 2 ^ 64 * 2 ^ 64 := by
  have hmask : maskHi.toNat = 2 ^ 128 - 2 ^ 64 := by decide
  have hhi : (x &&& maskHi).toNat / 2 ^ 64 = x.toNat / 2 ^ 64 := by
    rw [BitVec.toNat_and, Nat.and_div_two_pow, hmask, show (2 ^ 128 - 2 ^ 64) / 2 ^ 64 = 2 ^ 64 - 1 by decide,
      Nat.and_two_pow_sub_one_eq_mod, Nat.mod_eq_of_lt (by omega)]
  have hlo : (x &&& maskHi).toNat % 2 ^ 64 = 0 := by
    rw [BitVec.toNat_and, Nat.and_mod_two_pow, hmask, show (2 ^ 128 - 2 ^ 64) % 2 ^ 64 = 0 by decide, Nat.and_zero]
  omega

theorem toInt_eq :
    x.toNat < 2 ^ 127 ∧ x.toInt = x.toNat ∨ 2 ^ 127 ≤ x.toNat ∧ x.toInt = x.toNat - 2 ^ 128 := by
  rw [BitVec.toInt_eq_toNat_cond]
  split_ifs <;> omega

theorem slt_zero_eq : x.slt 0 = decide (x.toInt < 0) := by
  rw [Bool.eq_iff_iff, BitVec.slt_iff_toInt_lt, decide_eq_true_eq]
  rfl

theorem toNat_absolute : (absolute x).toNat = x.toInt.natAbs := by
  have hx := toInt_eq x
  simp only [absolute, slt_zero_eq, decide_eq_true_eq]
  split_ifs
  · rw [BitVec.toNat_neg]
    omega
  · omega

theorem toNat_absolute_le : (absolute x).toNat ≤ 2 ^ 127 := by
  have hx := toInt_eq x
  rw [toNat_absolute]
  omega

end

/-- A result that fits keeps its absolute value. -/
theorem toInt_addSign {negResult : Bool} {result : BitVec 128} (hle : result.toNat ≤ 2 ^ 127)
    (hlt : negResult = false → result.toNat < 2 ^ 127) :
    (addSign negResult result).toInt = if negResult then -(result.toNat : ℤ) else result.toNat := by
  have hneg := toInt_eq (-result)
  have hpos := toInt_eq result
  rw [BitVec.toNat_neg] at hneg
  cases negResult with
  | false =>
    have hlt := hlt rfl
    rw [addSign, if_neg Bool.false_ne_true, if_neg Bool.false_ne_true]
    omega
  | true =>
    rw [addSign, if_pos rfl, if_pos rfl]
    omega

/-! ### Multiplication -/

variable (a b : ℕ)

/-- The products of an integer part and a fraction. -/
def midProduct : ℕ := a % 2 ^ 64 * (b / 2 ^ 64) + a / 2 ^ 64 * (b % 2 ^ 64)

/-- What is added up for the fraction of a product. -/
def fractionSum : ℕ := a % 2 ^ 64 * (b % 2 ^ 64) / 2 ^ 64 + midProduct a b % 2 ^ 64

/-- What is added up for the integer part of a product. -/
def integerSum : ℕ := a / 2 ^ 64 * (b / 2 ^ 64) + midProduct a b / 2 ^ 64

theorem mul_div_eq : a * b / 2 ^ 64 = integerSum a b * 2 ^ 64 + fractionSum a b := by
  have ha := Nat.div_add_mod a (2 ^ 64)
  have hb := Nat.div_add_mod b (2 ^ 64)
  have hprod : a * b = (a / 2 ^ 64 * (b / 2 ^ 64) * 2 ^ 64 + midProduct a b) * 2 ^ 64 +
      a % 2 ^ 64 * (b % 2 ^ 64) := by
    rw [midProduct]
    generalize a / 2 ^ 64 = aH at ha ⊢
    generalize a % 2 ^ 64 = aL at ha ⊢
    generalize b / 2 ^ 64 = bH at hb ⊢
    generalize b % 2 ^ 64 = bL at hb ⊢
    rw [← ha, ← hb]
    ring
  rw [hprod, Nat.mul_comm _ (2 ^ 64), Nat.mul_add_div (by decide), integerSum, fractionSum]
  omega

theorem fractionSum_lt : fractionSum a b < 2 ^ 65 := by
  have hle : a % 2 ^ 64 * (b % 2 ^ 64) ≤ (2 ^ 64 - 1) * (2 ^ 64 - 1) := Nat.mul_le_mul (by omega) (by omega)
  rw [fractionSum]
  omega

theorem toNat_mul_of_halves {x y : BitVec 128} (hx : x.toNat < 2 ^ 64) (hy : y.toNat < 2 ^ 64) :
    (x * y).toNat = x.toNat * y.toNat := by
  have hle : x.toNat * y.toNat ≤ (2 ^ 64 - 1) * (2 ^ 64 - 1) := Nat.mul_le_mul (by omega) (by omega)
  rw [BitVec.toNat_mul, Nat.mod_eq_of_lt (by omega)]

theorem toNat_hi (x : BitVec 128) : ((x >>> 64) &&& maskLo).toNat = x.toNat / 2 ^ 64 := by
  rw [toNat_and_maskLo, BitVec.toNat_ushiftRight, Nat.shiftRight_eq_div_pow]
  omega

/-- What `Umul` makes of the partial products. -/
theorem umul_eq {a b : BitVec 128} (ha : a.toNat ≤ 2 ^ 127) (hb : b.toNat ≤ 2 ^ 127) :
    umul a b = if a.toNat / 2 ^ 64 * (b.toNat / 2 ^ 64) < 2 ^ 64 then
      some (BitVec.ofNat 128 (fractionSum a.toNat b.toNat ||| integerSum a.toNat b.toNat % 2 ^ 64 * 2 ^ 64))
    else none := by
  have hlo : ∀ x : BitVec 128, (x &&& maskLo).toNat < 2 ^ 64 := fun x => by
    rw [toNat_and_maskLo]
    exact Nat.mod_lt _ (by decide)
  have hhi : ∀ x : BitVec 128, ((x >>> 64) &&& maskLo).toNat < 2 ^ 64 := fun x => hlo _
  have hloPart : ((a &&& maskLo) * (b &&& maskLo)).toNat = a.toNat % 2 ^ 64 * (b.toNat % 2 ^ 64) := by
    rw [toNat_mul_of_halves (hlo a) (hlo b), toNat_and_maskLo, toNat_and_maskLo]
  have hmidPart : ((a &&& maskLo) * ((b >>> 64) &&& maskLo) + ((a >>> 64) &&& maskLo) * (b &&& maskLo)).toNat =
      midProduct a.toNat b.toNat := by
    have hleft : a.toNat % 2 ^ 64 * (b.toNat / 2 ^ 64) ≤ (2 ^ 64 - 1) * 2 ^ 63 := Nat.mul_le_mul (by omega) (by omega)
    have hright : a.toNat / 2 ^ 64 * (b.toNat % 2 ^ 64) ≤ 2 ^ 63 * (2 ^ 64 - 1) := Nat.mul_le_mul (by omega) (by omega)
    rw [BitVec.toNat_add, toNat_mul_of_halves (hlo a) (hhi b), toNat_mul_of_halves (hhi a) (hlo b), toNat_hi a,
      toNat_hi b, toNat_and_maskLo a, toNat_and_maskLo b, midProduct, Nat.mod_eq_of_lt (by omega)]
  have hhiPart : (((a >>> 64) &&& maskLo) * ((b >>> 64) &&& maskLo)).toNat = a.toNat / 2 ^ 64 * (b.toNat / 2 ^ 64) := by
    rw [toNat_mul_of_halves (hhi a) (hhi b), toNat_hi, toNat_hi]
  have hmid : midProduct a.toNat b.toNat < 2 ^ 128 := hmidPart ▸ BitVec.isLt _
  have hfraction := fractionSum_lt a.toNat b.toNat
  simp only [umul]
  generalize (a &&& maskLo) * (b &&& maskLo) = loPart at hloPart ⊢
  generalize (a &&& maskLo) * ((b >>> 64) &&& maskLo) + ((a >>> 64) &&& maskLo) * (b &&& maskLo) = midPart
    at hmidPart ⊢
  generalize ((a >>> 64) &&& maskLo) * ((b >>> 64) &&& maskLo) = hiPart at hhiPart ⊢
  have hsmall : hiPart &&& maskHi ≠ 0 ↔ ¬ a.toNat / 2 ^ 64 * (b.toNat / 2 ^ 64) < 2 ^ 64 := by
    rw [Ne, ← BitVec.toNat_inj, toNat_and_maskHi, hhiPart]
    change ¬ _ = 0 ↔ _
    omega
  by_cases hfits : a.toNat / 2 ^ 64 * (b.toNat / 2 ^ 64) < 2 ^ 64
  · rw [if_neg (fun hbig => hsmall.mp hbig hfits), if_pos hfits, Option.some.injEq]
    apply BitVec.eq_of_toNat_eq
    have hlow : ((loPart >>> 64) + (midPart &&& maskLo)).toNat = fractionSum a.toNat b.toNat := by
      rw [BitVec.toNat_add, BitVec.toNat_ushiftRight, Nat.shiftRight_eq_div_pow, toNat_and_maskLo, hloPart, hmidPart,
        ← fractionSum]
      exact Nat.mod_eq_of_lt (by omega)
    have hhigh : (((hiPart &&& maskLo) <<< 64) + (midPart &&& maskHi)).toNat =
        integerSum a.toNat b.toNat % 2 ^ 64 * 2 ^ 64 := by
      rw [BitVec.toNat_add, BitVec.toNat_shiftLeft, Nat.shiftLeft_eq, toNat_and_maskLo, toNat_and_maskHi, hhiPart,
        hmidPart, integerSum]
      omega
    rw [BitVec.toNat_or, hlow, hhigh, BitVec.toNat_ofNat, Nat.mod_eq_of_lt (Nat.or_lt_two_pow (by omega) (by omega))]
  · rw [if_pos (hsmall.mpr hfits), if_neg hfits]

theorem or_eq {c d : ℕ} (hc : c < 2 ^ 65) :
    c ||| d * 2 ^ 64 = if 2 ^ 64 ≤ c ∧ d % 2 = 1 then c + d * 2 ^ 64 - 2 ^ 64 else c + d * 2 ^ 64 := by
  have hhi : (c ||| d * 2 ^ 64) / 2 ^ 64 = c / 2 ^ 64 ||| d := by
    rw [Nat.or_div_two_pow, Nat.mul_div_cancel _ (by decide)]
  have hlo : (c ||| d * 2 ^ 64) % 2 ^ 64 = c % 2 ^ 64 := by
    rw [Nat.or_mod_two_pow, Nat.mul_mod_left, Nat.or_zero]
  have hbit : 1 ||| d = if d % 2 = 1 then d else d + 1 := by
    have hhalf : (1 ||| d) / 2 = d / 2 := by rw [Nat.or_div_two, Nat.zero_or]
    have hodd : (1 ||| d) % 2 = 1 := Nat.or_mod_two_eq_one.mpr (.inl rfl)
    split_ifs <;> omega
  have hcases : c / 2 ^ 64 = 0 ∨ c / 2 ^ 64 = 1 := by omega
  rcases hcases with hzero | hone
  · rw [hzero, Nat.zero_or] at hhi
    split_ifs <;> omega
  · rw [hone, hbit] at hhi
    split_ifs at hhi ⊢ <;> omega

end Int64x64

end Ns3
