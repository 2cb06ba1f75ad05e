import Ns3.Core.FixedPointQuotient
import Ns3.Core.Timer

/-!
# Units of time

`Time::ToInteger` and `Time::FromInteger` (`core/model/nstime.h`), and the conversion to a fixed-point number by
`Time::To`. A unit that is coarser than the resolution has a factor to divide by. `ToInteger` divides as the factor is,
without a sign; `To` multiplies with the rounded inverse of the factor.

* `toNat_umulByInvert` — the inverse of a factor divides a whole number as the factor does, and leaves less than one.
* `conversions_iff` — the conversions agree on the times that are not negative.
-/

namespace Ns3

namespace Int64x64

/-- `int64x64_t (v)` of an `int64_t`. -/
def ofInt64 (v : Int64) : Int64x64 := ⟨v.toBitVec.signExtend 128 <<< 64⟩

/-- `int64x64_t (v, false)` of a `uint64_t`, whose integer part is an `int64_t`. -/
def ofHigh (v : UInt64) : Int64x64 :=
  let hi := v.toBitVec.signExtend 128
  let isNegative := hi.slt 0
  let v := if isNegative then -hi else hi
  let v := v <<< 64
  ⟨if isNegative then -v else v⟩

/-- The integer part, cut towards zero. -/
def getHigh (x : Int64x64) : Int64 :=
  let negative := x.v.slt 0
  let v := if negative then -x.v else x.v
  let retval := Int64.ofBitVec ((v.sshiftRight 64).setWidth 64)
  if negative then -retval else retval

/-- The upper half of a product of 128-bit numbers, without all carries. -/
def umulByInvert (a b : BitVec 128) : BitVec 128 :=
  let ah := a >>> 64
  let bh := b >>> 64
  let al := a &&& maskLo
  let bl := b &&& maskLo
  let hi := ah * bh
  let mid := ah * bl + al * bh
  let mid := mid >>> 64
  hi + mid

/-- `umulByInvert` of the absolute value, with the sign. -/
def mulByInvert (x o : Int64x64) : Int64x64 :=
  let negResult := x.v.slt 0
  let a := if negResult then -x.v else x.v
  let result := umulByInvert a o.v
  ⟨if negResult then -result else result⟩

/-- `Invert`; nothing where the assertion fails. -/
def invert (v : UInt64) : Option Int64x64 :=
  if ¬ 1 < v then none
  else do
    let result ← divu (1 <<< 64) (v.toBitVec.setWidth 128)
    let tmp := (ofHigh v).mulByInvert ⟨result⟩
    some ⟨if tmp.getHigh ≠ 1 then result + 1 else result⟩

/-! ### The inverse of a factor -/

/-- The numerator of the inverse of `v`, over 2 ^ 128. -/
def inverse (v : ℕ) : ℕ := 2 ^ 128 / v + 1

variable {v n : ℕ}

theorem lt_mul_inverse (hv : 0 < v) : 2 ^ 128 < v * inverse v := Nat.lt_mul_div_succ _ hv

theorem mul_inverse_le (v : ℕ) : v * inverse v ≤ 2 ^ 128 + v := by
  have hle := Nat.mul_div_le (2 ^ 128) v
  rw [inverse, Nat.mul_add_one]
  exact Nat.add_le_add_right hle v

/-- The inverse divides as the factor does. -/
theorem mul_inverse_div (hv : 0 < v) (hsmall : n * v < 2 ^ 128) : n * inverse v / 2 ^ 128 = n / v := by
  have hlow : n / v * v ≤ n := Nat.div_mul_le_self n v
  have hhigh : n + 1 ≤ (n / v + 1) * v := by
    rw [Nat.mul_comm]
    exact Nat.lt_mul_div_succ n hv
  apply Nat.div_eq_of_lt_le
  · calc n / v * 2 ^ 128 ≤ n / v * (v * inverse v) := Nat.mul_le_mul_left _ (Nat.le_of_lt (lt_mul_inverse hv))
      _ = n / v * v * inverse v := (Nat.mul_assoc _ _ _).symm
      _ ≤ n * inverse v := Nat.mul_le_mul_right _ hlow
  · -- the rounding of the inverse adds less than one to the exact quotient, which is below the next whole number
    apply Nat.lt_of_mul_lt_mul_left (a := v)
    calc v * (n * inverse v) = n * (v * inverse v) := Nat.mul_left_comm _ _ _
      _ ≤ n * (2 ^ 128 + v) := Nat.mul_le_mul_left _ (mul_inverse_le v)
      _ = n * 2 ^ 128 + n * v := Nat.mul_add _ _ _
      _ < n * 2 ^ 128 + 2 ^ 128 := Nat.add_lt_add_left hsmall _
      _ = (n + 1) * 2 ^ 128 := (Nat.succ_mul _ _).symm
      _ ≤ (n / v + 1) * v * 2 ^ 128 := Nat.mul_le_mul_right _ hhigh
      _ = v * ((n / v + 1) * 2 ^ 128) := by rw [Nat.mul_comm (n / v + 1) v, Nat.mul_assoc]

/-- The remainder is divided in the first way, and the quotient is the exact one, rounded down. -/
theorem quotient_one (hv : 0 < v) (hlt : v ≤ 2 ^ 64) : quotient (2 ^ 64) v = 2 ^ 128 / v := by
  have hrem : 2 ^ 64 % v < 2 ^ 64 := Nat.lt_of_lt_of_le (Nat.mod_lt _ hv) hlt
  have hparts : 2 ^ 128 = 2 ^ 64 % v * 2 ^ 64 + v * (2 ^ 64 / v * 2 ^ 64) := by
    rw [← Nat.mul_assoc, ← Nat.add_mul, Nat.mod_add_div]
    rfl
  rw [quotient, fraction, if_pos hrem, hparts, Nat.add_mul_div_left _ _ hv, Nat.add_comm]

/-! ### Multiplication by an inverse -/

/-- The inverse of a factor divides a whole number as the factor does, and leaves less than one. -/
theorem toNat_umulByInvert {a : BitVec 128} (b : BitVec 128) (ha : a.toNat = n * 2 ^ 64) :
    (umulByInvert a b).toNat = n * b.toNat / 2 ^ 64 := by
  have hlt := a.isLt
  have hblt := b.isLt
  have hn : (a >>> 64).toNat = n := by
    rw [BitVec.toNat_ushiftRight, Nat.shiftRight_eq_div_pow, ha, Nat.mul_div_cancel _ (by decide)]
  have hbh : (b >>> 64).toNat = b.toNat / 2 ^ 64 := by
    rw [BitVec.toNat_ushiftRight, Nat.shiftRight_eq_div_pow]
  have hal : a &&& maskLo = 0#128 := by
    apply BitVec.eq_of_toNat_eq
    rw [toNat_and_maskLo, ha, Nat.mul_mod_left]
    rfl
  have hbl := toNat_and_maskLo b
  have hparts : n * b.toNat = n * (b.toNat % 2 ^ 64) + 2 ^ 64 * (n * (b.toNat / 2 ^ 64)) := by
    rw [Nat.mul_left_comm, ← Nat.mul_add, Nat.mod_add_div]
  have hhi : n * (b.toNat / 2 ^ 64) ≤ (2 ^ 64 - 1) * (2 ^ 64 - 1) := Nat.mul_le_mul (by omega) (by omega)
  have hmid : n * (b.toNat % 2 ^ 64) ≤ (2 ^ 64 - 1) * (2 ^ 64 - 1) := Nat.mul_le_mul (by omega) (by omega)
  simp only [umulByInvert, hal, BitVec.zero_mul, BitVec.add_zero]
  rw [BitVec.toNat_add, toNat_mul_of_halves (by omega) (by omega), hn, hbh, BitVec.toNat_ushiftRight,
    Nat.shiftRight_eq_div_pow, toNat_mul_of_halves (by omega) (by omega), hn, hbl, hparts,
    Nat.add_mul_div_left _ _ (by decide), Nat.mod_eq_of_lt (by omega), Nat.add_comm]

/-- The absolute value without its fraction, with the sign. -/
theorem toInt_getHigh {x : Int64x64} (hx : x.v.toInt.natAbs < 2 ^ 127) :
    x.getHigh.toInt =
      if x.v.toInt < 0 then -((x.v.toInt.natAbs / 2 ^ 64 : ℕ) : ℤ) else (x.v.toInt.natAbs / 2 ^ 64 : ℕ) := by
  have habs := toNat_absolute x.v
  have hmsb : (absolute x.v).msb = false := BitVec.msb_eq_false_iff_two_mul_lt.mpr (by omega)
  have hretval : (Int64.ofBitVec (((absolute x.v).sshiftRight 64).setWidth 64)).toInt =
      (x.v.toInt.natAbs / 2 ^ 64 : ℕ) := by
    rw [Int64.toInt_ofBitVec, BitVec.sshiftRight_eq_of_msb_false hmsb, BitVec.toInt_eq_toNat_of_lt,
      BitVec.toNat_setWidth, BitVec.toNat_ushiftRight, Nat.shiftRight_eq_div_pow, habs]
    · omega
    · rw [BitVec.toNat_setWidth, BitVec.toNat_ushiftRight, Nat.shiftRight_eq_div_pow, habs]
      omega
  change (if x.v.slt 0 then -Int64.ofBitVec (((absolute x.v).sshiftRight 64).setWidth 64)
    else Int64.ofBitVec (((absolute x.v).sshiftRight 64).setWidth 64)).toInt = _
  generalize Int64.ofBitVec (((absolute x.v).sshiftRight 64).setWidth 64) = retval at hretval ⊢
  rw [slt_zero_eq]
  simp only [decide_eq_true_eq]
  split_ifs
  · rw [Int64.toInt_neg, hretval, Int.bmod_eq_of_le (by omega) (by omega)]
  · exact hretval

theorem toInt_getHigh_mulByInvert {x o : Int64x64} {t : ℤ} (hx : x.v.toInt = t * 2 ^ 64) (ho : o.v.toNat ≤ 2 ^ 127) :
    (x.mulByInvert o).getHigh.toInt =
      if t < 0 then -((t.natAbs * o.v.toNat / 2 ^ 128 : ℕ) : ℤ) else (t.natAbs * o.v.toNat / 2 ^ 128 : ℕ) := by
  have hbound := toInt_eq x.v
  have hlt := x.v.isLt
  have hsign : x.v.toInt < 0 ↔ t < 0 := by omega
  have habs : (absolute x.v).toNat = t.natAbs * 2 ^ 64 := by
    rw [toNat_absolute]
    omega
  have hresult := toNat_umulByInvert o.v habs
  have hle : t.natAbs * o.v.toNat ≤ 2 ^ 63 * 2 ^ 127 := Nat.mul_le_mul (by omega) ho
  have hv : (x.mulByInvert o).v.toInt = if t < 0 then -((t.natAbs * o.v.toNat / 2 ^ 64 : ℕ) : ℤ) else
      (t.natAbs * o.v.toNat / 2 ^ 64 : ℕ) := by
    change (addSign (x.v.slt 0) (umulByInvert (absolute x.v) o.v)).toInt = _
    rw [toInt_addSign (by omega) (fun _ => by omega), slt_zero_eq, hresult]
    simp only [decide_eq_true_eq, hsign]
  generalize t.natAbs * o.v.toNat = product at *
  rw [toInt_getHigh (by split_ifs at hv <;> omega), hv]
  split_ifs <;> omega

theorem toInt_shiftLeft_signExtend (x : BitVec 64) : (x.signExtend 128 <<< 64).toInt = x.toInt * 2 ^ 64 := by
  have hlow := @BitVec.le_two_mul_toInt 64 x
  have hhigh := @BitVec.two_mul_toInt_lt 64 x
  have hext : (x.signExtend 128).toInt = x.toInt := BitVec.toInt_signExtend_of_le (by decide)
  have hbits := toInt_eq (x.signExtend 128)
  have hresult := toInt_eq (x.signExtend 128 <<< 64)
  have hshift : (x.signExtend 128 <<< 64).toNat = (x.signExtend 128).toNat * 2 ^ 64 % 2 ^ 128 := by
    rw [BitVec.toNat_shiftLeft, Nat.shiftLeft_eq]
  omega

theorem toInt_ofInt64 (t : Int64) : (ofInt64 t).v.toInt = t.toInt * 2 ^ 64 := toInt_shiftLeft_signExtend _

theorem toInt_ofHigh {v : UInt64} (hv : v.toNat < 2 ^ 63) : (ofHigh v).v.toInt = v.toNat * 2 ^ 64 := by
  have hvalue : v.toBitVec.toInt = v.toNat := BitVec.toInt_eq_toNat_of_lt (show 2 * v.toNat < 2 ^ 64 by omega)
  have hpos : (v.toBitVec.signExtend 128).slt 0 = false := by
    rw [slt_zero_eq, BitVec.toInt_signExtend_of_le (by decide), hvalue]
    exact decide_eq_false (by omega)
  simp only [ofHigh, hpos]
  exact (toInt_shiftLeft_signExtend _).trans (by rw [hvalue])

/-- The inverse of a factor that is not a power of two is rounded up. -/
theorem invert_eq {v : UInt64} (hv : 1 < v) (hsmall : v.toNat < 2 ^ 63) (hdvd : ¬ v.toNat ∣ 2 ^ 128) :
    invert v = some ⟨BitVec.ofNat 128 (inverse v.toNat)⟩ := by
  have hone : 1 < v.toNat := UInt64.lt_iff_toNat_lt.mp hv
  have hquotient : divu (1 <<< 64) (v.toBitVec.setWidth 128) = some (BitVec.ofNat 128 (2 ^ 128 / v.toNat)) := by
    have hb : (v.toBitVec.setWidth 128).toNat = v.toNat := by
      rw [BitVec.toNat_setWidth]
      exact Nat.mod_eq_of_lt (by omega)
    rw [divu_eq (by omega), hb, show (1 <<< 64 : BitVec 128).toNat = 2 ^ 64 by decide,
      quotient_one (by omega) (by omega)]
  have hhalf : 2 ^ 128 / v.toNat ≤ 2 ^ 127 := by
    rw [show 2 ^ 127 = 2 ^ 128 / 2 by decide]
    exact Nat.div_le_div_left hone (by decide)
  have hexact : v.toNat * (2 ^ 128 / v.toNat) < 2 ^ 128 :=
    Nat.lt_of_le_of_ne (Nat.mul_div_le _ _) fun heq => hdvd ⟨_, heq.symm⟩
  have hhigh : ((ofHigh v).mulByInvert ⟨BitVec.ofNat 128 (2 ^ 128 / v.toNat)⟩).getHigh.toInt = 0 := by
    have ho : (BitVec.ofNat 128 (2 ^ 128 / v.toNat)).toNat = 2 ^ 128 / v.toNat := by
      rw [BitVec.toNat_ofNat, Nat.mod_eq_of_lt (Nat.lt_of_le_of_lt hhalf (by decide))]
    rw [toInt_getHigh_mulByInvert (toInt_ofHigh hsmall) (by rw [ho]; exact hhalf), if_neg (by omega), ho,
      Int.natAbs_natCast, Nat.div_eq_of_lt hexact]
    rfl
  have hne : ((ofHigh v).mulByInvert ⟨BitVec.ofNat 128 (2 ^ 128 / v.toNat)⟩).getHigh ≠ 1 := by
    intro h
    rw [h] at hhigh
    exact absurd hhigh (by decide)
  rw [invert, if_neg (not_not_intro hv), hquotient]
  change some (Int64x64.mk (if _ then _ else _)) = _
  rw [if_pos hne, inverse, BitVec.ofNat_add]
  rfl

end Int64x64

namespace Time

/-- The units of time. -/
inductive Unit where
  | S
  | MS
  | US
  | NS
  | PS
  | FS
  deriving DecidableEq

/-- `power` of a unit: the decimal places it has to a femtosecond. -/
def Unit.power : Unit → ℤ
  | S => 15
  | MS => 12
  | US => 9
  | NS => 6
  | PS => 3
  | FS => 0

/-- How to convert from and to a unit. -/
structure Information where
  toMul : Bool
  fromMul : Bool
  factor : UInt64
  timeTo : Int64x64
  deriving DecidableEq

/-- What `SetResolution` stores for the unit `i`. -/
def setResolution (unit i : Unit) : Option Information :=
  let shift := i.power - unit.power
  let factor := UInt64.ofNat (10 ^ shift.natAbs)
  if shift = 0 then some ⟨true, true, factor, .ofInt64 1⟩
  else if shift > 0 then (Int64x64.invert factor).map fun timeTo => ⟨false, true, factor, timeTo⟩
  else some ⟨true, false, factor, .ofInt64 factor.toInt64⟩

namespace Information

/-- `FromInteger`: the `m_data` of the time. -/
def fromInteger (info : Information) (value : UInt64) : Int64 :=
  if info.fromMul then (value * info.factor).toInt64 else (value / info.factor).toInt64

/-- `ToInteger`: the factor is a `uint64_t`, and makes the time one. -/
def toInteger (info : Information) (data : Int64) : Int64 :=
  if info.toMul then (data.toUInt64 * info.factor).toInt64 else (data.toUInt64 / info.factor).toInt64

/-- `To`; nothing where the multiplication aborts. -/
def toInt64x64 (info : Information) (data : Int64) : Option Int64x64 :=
  let retval := Int64x64.ofInt64 data
  if info.toMul then retval.mul info.timeTo else some (retval.mulByInvert info.timeTo)

/-- `ToInteger` cuts a time towards zero. -/
def Truncates (info : Information) (data : Int64) : Prop :=
  (info.toInteger data).toInt = data.toInt.tdiv info.factor.toNat

/-- The integer part of the fixed-point number is the time cut towards zero. -/
def TruncatesFixed (info : Information) (data : Int64) : Prop :=
  ∃ x, info.toInt64x64 data = some x ∧ x.getHigh.toInt = data.toInt.tdiv info.factor.toNat

/-- A number of units comes back from the time it makes. -/
def ComesBack (info : Information) (value : UInt64) : Prop :=
  (info.toInteger (info.fromInteger value)).toInt = value.toNat

/-! ### The conversions of a factor -/

variable {info : Information} {t : Int64} {k : UInt64}

theorem tdiv_eq (t : ℤ) (v : ℕ) :
    t.tdiv v = if t < 0 then -((t.natAbs / v : ℕ) : ℤ) else (t.natAbs / v : ℕ) := by
  split_ifs with hneg
  · rw [← Int.neg_neg t, Int.neg_tdiv, Int.natAbs_neg, ← Int.natAbs_of_nonneg (a := -t) (by omega)]
    rfl
  · rw [← Int.natAbs_of_nonneg (a := t) (by omega)]
    rfl

theorem toInt_toInt64 (x : UInt64) :
    x.toNat < 2 ^ 63 ∧ x.toInt64.toInt = x.toNat ∨ 2 ^ 63 ≤ x.toNat ∧ x.toInt64.toInt = x.toNat - 2 ^ 64 := by
  have hcond := BitVec.toInt_eq_toNat_cond x.toBitVec
  change x.toInt64.toInt = if 2 * x.toNat < 2 ^ 64 then (x.toNat : ℤ) else x.toNat - (2 ^ 64 : ℕ) at hcond
  have hlt := x.toNat_lt
  split_ifs at hcond <;> omega

/-- A time below zero is a great number without its sign. -/
theorem truncates_iff (hmul : info.toMul = false) (hv : 1 < info.factor.toNat) (hle : info.factor.toNat ≤ 2 ^ 63) :
    info.Truncates t ↔ 0 ≤ t := by
  have hbits := toInt_toInt64 t.toUInt64
  rw [Int64.toInt64_toUInt64] at hbits
  have hlt := t.toUInt64.toNat_lt
  have hquotient : t.toUInt64.toNat / info.factor.toNat < 2 ^ 63 :=
    Nat.div_lt_of_lt_mul (Nat.lt_of_lt_of_le hlt (Nat.mul_le_mul_right (2 ^ 63) hv))
  have hresult : (info.toInteger t).toInt = (t.toUInt64.toNat / info.factor.toNat : ℕ) := by
    have hcases := toInt_toInt64 (t.toUInt64 / info.factor)
    rw [UInt64.toNat_div] at hcases
    rw [toInteger, hmul, if_neg Bool.false_ne_true]
    omega
  rw [Truncates, hresult, tdiv_eq, Int64.le_iff_toInt_le]
  change _ ↔ 0 ≤ t.toInt
  rcases hbits with ⟨hsmall, ht⟩ | ⟨hge, ht⟩
  · rw [if_neg (by omega), ht, Int.natAbs_natCast]
    exact iff_of_true rfl (Int.natCast_nonneg _)
  · -- without its sign the time is not below the factor, so that its quotient is above zero
    have hpos : 0 < t.toUInt64.toNat / info.factor.toNat := Nat.div_pos (Nat.le_trans hle hge) (Nat.lt_of_succ_lt hv)
    rw [if_pos (by omega)]
    refine iff_of_false (fun heq => ?_) (by omega)
    exact absurd (heq ▸ Int.natCast_pos.mpr hpos) (Int.not_lt.mpr (Int.neg_nonpos_of_nonneg (Int.natCast_nonneg _)))

theorem truncatesFixed (hmul : info.toMul = false) (hv : 0 < info.factor.toNat) (hle : info.factor.toNat ≤ 2 ^ 63)
    (hinverse : info.timeTo.v.toNat = Int64x64.inverse info.factor.toNat) (hhalf : info.timeTo.v.toNat ≤ 2 ^ 127) :
    info.TruncatesFixed t := by
  have hlow := t.le_toInt
  have hhigh := t.toInt_lt
  have hsmall : t.toInt.natAbs * info.factor.toNat < 2 ^ 128 :=
    Nat.lt_of_le_of_lt (Nat.mul_le_mul (show t.toInt.natAbs ≤ 2 ^ 63 by omega) hle) (by decide)
  refine ⟨_, by rw [toInt64x64, hmul, if_neg Bool.false_ne_true], ?_⟩
  rw [Int64x64.toInt_getHigh_mulByInvert (Int64x64.toInt_ofInt64 t) hhalf, hinverse, Int64x64.mul_inverse_div hv hsmall,
    tdiv_eq]

theorem comesBack_of_coarser (hmul : info.toMul = false) (hfrom : info.fromMul = true) (hv : 0 < info.factor.toNat)
    (hfits : k.toNat * info.factor.toNat < 2 ^ 63) : info.ComesBack k := by
  have hproduct : (k * info.factor).toNat = k.toNat * info.factor.toNat := by
    rw [UInt64.toNat_mul]
    exact Nat.mod_eq_of_lt (by omega)
  have hcases := toInt_toInt64 (k * info.factor / info.factor)
  rw [UInt64.toNat_div, hproduct, Nat.mul_div_cancel _ hv] at hcases
  have hle : k.toNat ≤ k.toNat * info.factor.toNat := Nat.le_mul_of_pos_right _ hv
  rw [ComesBack, toInteger, fromInteger, hmul, hfrom, if_neg Bool.false_ne_true, if_pos rfl, UInt64.toUInt64_toInt64]
  omega

/-- A number of finer units comes back if they make whole ones of the resolution. -/
theorem comesBack_iff_of_finer (hmul : info.toMul = true) (hfrom : info.fromMul = false)
    (hfits : k.toNat * info.factor.toNat < 2 ^ 63) (hv : 0 < info.factor.toNat) :
    info.ComesBack k ↔ info.factor.toNat ∣ k.toNat := by
  have hle := Nat.div_mul_le_self k.toNat info.factor.toNat
  have hlt : k.toNat ≤ k.toNat * info.factor.toNat := Nat.le_mul_of_pos_right _ hv
  have hproduct : (k / info.factor * info.factor).toNat = k.toNat / info.factor.toNat * info.factor.toNat := by
    rw [UInt64.toNat_mul, UInt64.toNat_div]
    exact Nat.mod_eq_of_lt (by omega)
  have hcases := toInt_toInt64 (k / info.factor * info.factor)
  rw [hproduct] at hcases
  rw [ComesBack, toInteger, fromInteger, hmul, hfrom, if_neg Bool.false_ne_true, if_pos rfl, UInt64.toUInt64_toInt64,
    Nat.dvd_iff_div_mul_eq]
  omega

end Information

/-! ### The units -/

/-- The factor of a unit. -/
theorem toNat_factor (resolution unit : Unit) :
    (UInt64.ofNat (10 ^ (unit.power - resolution.power).natAbs)).toNat = 10 ^ (unit.power - resolution.power).natAbs ∧
      10 ^ (unit.power - resolution.power).natAbs ≤ 10 ^ 15 := by
  have hle : (unit.power - resolution.power).natAbs ≤ 15 := by
    cases unit <;> cases resolution <;> decide
  have hpow : 10 ^ (unit.power - resolution.power).natAbs ≤ 10 ^ 15 := Nat.pow_le_pow_right (by decide) hle
  exact ⟨UInt64.toNat_ofNat_of_lt' (Nat.lt_of_le_of_lt hpow (by decide)), hpow⟩

theorem not_ten_pow_dvd {e : ℕ} (he : e ≠ 0) : ¬ 10 ^ e ∣ 2 ^ 128 := by
  intro hdvd
  have hten : 10 ∣ 2 ^ 128 := Nat.dvd_trans (dvd_pow_self 10 he) hdvd
  exact absurd hten (by decide)

/-- A unit that is coarser than the resolution has the inverse of its factor. -/
theorem setResolution_of_coarser {resolution unit : Unit} (hpower : resolution.power < unit.power) :
    ∃ factor timeTo, setResolution resolution unit = some ⟨false, true, factor, timeTo⟩ ∧ 1 < factor.toNat ∧
      factor.toNat ≤ 10 ^ 15 ∧ timeTo.v.toNat = Int64x64.inverse factor.toNat ∧ timeTo.v.toNat ≤ 2 ^ 127 := by
  obtain ⟨hfactor, hle⟩ := toNat_factor resolution unit
  have hne : (unit.power - resolution.power).natAbs ≠ 0 := by omega
  have hone : 1 < 10 ^ (unit.power - resolution.power).natAbs := Nat.one_lt_pow hne (by decide)
  have hinvert := Int64x64.invert_eq (v := UInt64.ofNat (10 ^ (unit.power - resolution.power).natAbs))
    (UInt64.lt_iff_toNat_lt.mpr (by rw [hfactor]; exact hone))
    (by rw [hfactor]; exact Nat.lt_of_le_of_lt hle (by decide)) (by rw [hfactor]; exact not_ten_pow_dvd hne)
  have hhalf : Int64x64.inverse (10 ^ (unit.power - resolution.power).natAbs) ≤ 2 ^ 127 := by
    have hten : 10 ≤ 10 ^ (unit.power - resolution.power).natAbs := Nat.le_self_pow hne 10
    exact Nat.le_trans (Nat.add_le_add_right (Nat.div_le_div_left hten (by decide)) 1) (by decide)
  have htimeTo : (BitVec.ofNat 128 (Int64x64.inverse (10 ^ (unit.power - resolution.power).natAbs))).toNat =
      Int64x64.inverse (10 ^ (unit.power - resolution.power).natAbs) := by
    rw [BitVec.toNat_ofNat, Nat.mod_eq_of_lt (Nat.lt_of_le_of_lt hhalf (by decide))]
  rw [hfactor] at hinvert
  refine ⟨_, _, by rw [setResolution, if_neg (by omega), if_pos (by omega), hinvert]; rfl, ?_⟩
  rw [hfactor, htimeTo]
  exact ⟨hone, hle, rfl, hhalf⟩

theorem setResolution_of_finer {resolution unit : Unit} (hpower : unit.power < resolution.power) :
    ∃ factor timeTo, setResolution resolution unit = some ⟨true, false, factor, timeTo⟩ ∧ 1 < factor.toNat := by
  obtain ⟨hfactor, -⟩ := toNat_factor resolution unit
  refine ⟨_, _, by rw [setResolution, if_neg (by omega), if_neg (by omega)], ?_⟩
  rw [hfactor]
  exact Nat.one_lt_pow (by omega) (by decide)

/-- A time that is converted to a coarser unit is cut towards zero exactly if it is not negative, and its fixed-point
number always; a number of units that fits comes back, of finer units if they make whole ones of the resolution. -/
theorem conversions_iff (resolution unit : Unit) :
    ∃ info, setResolution resolution unit = some info ∧ (unit ≠ resolution → 1 < info.factor.toNat) ∧
      (resolution.power < unit.power →
        (∀ t, (info.Truncates t ∧ info.TruncatesFixed t ↔ 0 ≤ t) ∧ info.TruncatesFixed t) ∧
        ∀ k : UInt64, k.toNat * info.factor.toNat < 2 ^ 63 → info.ComesBack k) ∧
      (unit.power < resolution.power → ∀ k : UInt64, k.toNat * info.factor.toNat < 2 ^ 63 →
        (info.ComesBack k ↔ info.factor.toNat ∣ k.toNat)) := by
  rcases Int.lt_trichotomy resolution.power unit.power with hcoarser | hsame | hfiner
  · obtain ⟨factor, timeTo, hinfo, hone, hle, hinverse, hhalf⟩ := setResolution_of_coarser hcoarser
    have hbound : factor.toNat ≤ 2 ^ 63 := Nat.le_trans hle (by decide)
    have hfixed : ∀ t, Information.TruncatesFixed ⟨false, true, factor, timeTo⟩ t := fun t =>
      Information.truncatesFixed rfl (by exact Nat.lt_of_succ_lt hone) hbound hinverse hhalf
    refine ⟨_, hinfo, fun _ => hone, fun _ => ⟨fun t => ⟨?_, hfixed t⟩, fun k hfits => ?_⟩,
      fun hfiner => absurd hfiner (Int.lt_asymm hcoarser)⟩
    · rw [← @Information.truncates_iff ⟨false, true, factor, timeTo⟩ t rfl hone hbound]
      exact and_iff_left (hfixed t)
    · exact Information.comesBack_of_coarser rfl rfl (by exact Nat.lt_of_succ_lt hone) hfits
  · have heq : unit = resolution := by
      revert hsame
      cases unit <;> cases resolution <;> decide
    obtain rfl := heq
    refine ⟨_, by rw [setResolution, if_pos (by omega)], fun hne => absurd rfl hne, fun hlt => ?_, fun hlt => ?_⟩
    · exact absurd hlt (Int.lt_irrefl _)
    · exact absurd hlt (Int.lt_irrefl _)
  · obtain ⟨factor, timeTo, hinfo, hone⟩ := setResolution_of_finer hfiner
    refine ⟨_, hinfo, fun _ => hone, fun hcoarser => absurd hcoarser (Int.lt_asymm hfiner), fun _ k hfits => ?_⟩
    exact Information.comesBack_iff_of_finer rfl rfl hfits (by exact Nat.lt_of_succ_lt hone)

theorem setResolution_microSeconds :
    setResolution .NS .US = some ⟨false, true, 1000, ⟨BitVec.ofNat 128 (Int64x64.inverse 1000)⟩⟩ := by
  decide +kernel

/-- A microsecond before the start is not minus one microsecond. -/
theorem not_truncates_negative :
    ∃ info, setResolution .NS .US = some info ∧ ¬ (info.Truncates (-1000) ∧ info.TruncatesFixed (-1000)) := by
  refine ⟨_, setResolution_microSeconds, fun h => ?_⟩
  exact absurd (show (Information.toInteger _ _).toInt = _ from h.1) (by decide +kernel)

/-- `GetMicroSeconds` at the default resolution, in which a `Timer` counts. -/
theorem getMicroSeconds_eq (t : Int64) :
    ∃ info, setResolution .NS .US = some info ∧ (info.toInteger t).toInt = getMicroSeconds t.toInt := by
  refine ⟨_, setResolution_microSeconds, ?_⟩
  have hbits := Information.toInt_toInt64 t.toUInt64
  have hresult := Information.toInt_toInt64 (t.toUInt64 / 1000)
  have hlt := t.toUInt64.toNat_lt
  have hthousand : (1000 : UInt64).toNat = 1000 := rfl
  rw [Int64.toInt64_toUInt64] at hbits
  rw [UInt64.toNat_div, hthousand] at hresult
  rw [getMicroSeconds]
  change (t.toUInt64 / 1000).toInt64.toInt = _
  omega

end Time

end Ns3
