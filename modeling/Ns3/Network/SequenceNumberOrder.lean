import Ns3.Network.SequenceNumber
import Mathlib.Algebra.Group.Nat.Defs
import Mathlib.Tactic.SplitIfs

/-!
# Serial number arithmetic

The laws of the operators of `SequenceNumber` (`network/utils/sequence-number.h`), for any number of bits. How two
numbers compare depends on the distance from the one to the other alone, but for numbers that are exactly half of the
number space apart (`gt_iff_ahead`): the rule of the comparison makes one of these greater by its value, and the
difference is negative either way.
-/

namespace Ns3.SequenceNumber

variable {w : ℕ}

/-- How far `a` is ahead of `b`, around the number space. -/
def ahead (a b : SequenceNumber w) : ℕ := (a.value - b.value).toNat

/-- Exactly half of the number space apart. -/
def HalfApart (a b : SequenceNumber w) : Prop := a.ahead b = 2 ^ (w - 1)

/-- In the half of the number space that begins with `base`. -/
def InWindow (base : SequenceNumber w) (a : SequenceNumber w) : Prop := a.ahead base < 2 ^ (w - 1)

/-- The laws, two of them for the pairs that are `Comparable`. -/
structure Laws (w : ℕ) (Comparable : SequenceNumber w → SequenceNumber w → Prop) : Prop where
  /-- Exactly one of `<`, `==` and `>` holds. -/
  one_of : ∀ a b : SequenceNumber w, a.lt b = true ∧ a ≠ b ∧ a.gt b = false ∨ a.lt b = false ∧ a = b ∧ a.gt b = false ∨
    a.lt b = false ∧ a ≠ b ∧ a.gt b = true
  /-- The difference leads from `b` to `a`. -/
  add_sub : ∀ a b : SequenceNumber w, b.add (a.sub b) = a
  /-- The greater number has a positive difference. -/
  gt_iff : ∀ a b : SequenceNumber w, Comparable a b → (a.gt b = true ↔ 0 < (a.sub b).toInt)
  /-- The relations do not change when the same delta is added to both sides. -/
  add_delta : ∀ a b : SequenceNumber w, Comparable a b → ∀ delta : BitVec w,
    (a.add delta).gt (b.add delta) = a.gt b ∧ (a.add delta).lt (b.add delta) = a.lt b ∧
      (a.add delta).ge (b.add delta) = a.ge b ∧ (a.add delta).le (b.add delta) = a.le b ∧
      (a.add delta = b.add delta ↔ a = b)
  /-- `>` is transitive in a window. -/
  gt_trans : ∀ base a b c : SequenceNumber w, InWindow base a → InWindow base b → InWindow base c →
    a.gt b = true → b.gt c = true → a.gt c = true

theorem sub_eq (a b : SequenceNumber w) : a.sub b = a.value - b.value := by
  rw [sub, ← BitVec.neg_one_eq_allOnes]
  dsimp only
  split_ifs <;> grind

theorem two_mul_half (hw : 1 < w) : 2 * 2 ^ (w - 1) = 2 ^ w := by
  rw [← Nat.pow_succ', Nat.succ_eq_add_one, Nat.sub_add_cancel (Nat.le_of_lt hw)]

theorem toNat_halfMaxValue (hw : 1 < w) : (halfMaxValue w).toNat = 2 ^ (w - 1) - 1 := by
  have hhalf := two_mul_half hw
  have hlt : 2 < 2 ^ w := Nat.lt_of_lt_of_le (by decide) (Nat.pow_le_pow_right (by decide) hw)
  have htwo : (2 : BitVec w).toNat = 2 := Nat.mod_eq_of_lt hlt
  rw [halfMaxValue, BitVec.toNat_udiv, BitVec.toNat_allOnes, htwo]
  omega

theorem toNat_sub_eq (x y : BitVec w) :
    (x - y).toNat = if y.toNat ≤ x.toNat then x.toNat - y.toNat else 2 ^ w + x.toNat - y.toNat := by
  have hx := x.isLt
  have hy := y.isLt
  rw [BitVec.toNat_sub]
  split_ifs with h
  · rw [show 2 ^ w - y.toNat + x.toNat = x.toNat - y.toNat + 2 ^ w by omega, Nat.add_mod_right]
    exact Nat.mod_eq_of_lt (by omega)
  · rw [Nat.mod_eq_of_lt (by omega)]
    omega

variable {a b : SequenceNumber w}

theorem ahead_eq_zero_iff : a.ahead b = 0 ↔ a = b := by
  have ha := a.value.isLt
  have hb := b.value.isLt
  rw [ahead, toNat_sub_eq]
  constructor
  · intro h
    have hvalue : a.value.toNat = b.value.toNat := by split_ifs at h <;> omega
    rw [← (show (⟨a.value⟩ : SequenceNumber w) = a from rfl), BitVec.eq_of_toNat_eq hvalue]
  · rintro rfl
    rw [if_pos (Nat.le_refl _), Nat.sub_self]

theorem ahead_add_ahead (h : a ≠ b) : a.ahead b + b.ahead a = 2 ^ w := by
  have ha := a.value.isLt
  have hb := b.value.isLt
  have hne : a.ahead b ≠ 0 := mt ahead_eq_zero_iff.mp h
  rw [ahead, toNat_sub_eq] at hne
  rw [ahead, ahead, toNat_sub_eq, toNat_sub_eq]
  split_ifs at * <;> omega

/-- A number is greater when it is ahead by less than half of the number space, and in the middle by its value. -/
theorem gt_iff_ahead (hw : 1 < w) (a b : SequenceNumber w) :
    a.gt b = true ↔ 0 < a.ahead b ∧ a.ahead b < 2 ^ (w - 1) ∨ HalfApart a b ∧ a.value.toNat < b.value.toNat := by
  have hhalf := two_mul_half hw
  have hpos : 0 < 2 ^ (w - 1) := Nat.two_pow_pos _
  have ha := a.value.isLt
  have hb := b.value.isLt
  simp only [gt, HalfApart, ahead, Bool.or_eq_true, Bool.and_eq_true, decide_eq_true_eq, BitVec.lt_def, BitVec.le_def,
    gt_iff_lt, toNat_sub_eq, toNat_halfMaxValue hw]
  split_ifs <;> omega

theorem gt_asymm (hw : 1 < w) (h : a.gt b = true) : b.gt a = false := by
  have hhalf := two_mul_half hw
  have hne : a ≠ b := by
    rintro rfl
    rw [gt_iff_ahead hw, HalfApart, ahead_eq_zero_iff.mpr rfl] at h
    omega
  have hsum := ahead_add_ahead hne
  rw [gt_iff_ahead hw, HalfApart] at h
  rw [Bool.eq_false_iff, ne_eq, gt_iff_ahead hw, HalfApart]
  omega

theorem ahead_add_delta (a b : SequenceNumber w) (delta : BitVec w) :
    (a.add delta).ahead (b.add delta) = a.ahead b := by
  have hsub : a.value + delta - (b.value + delta) = a.value - b.value := by grind
  rw [ahead, ahead, add, add, hsub]

theorem gt_add_delta (hw : 1 < w) (h : ¬ HalfApart a b) (delta : BitVec w) :
    (a.add delta).gt (b.add delta) = a.gt b := by
  have hmoved : ¬ HalfApart (a.add delta) (b.add delta) := by rwa [HalfApart, ahead_add_delta]
  rw [Bool.eq_iff_iff, gt_iff_ahead hw, gt_iff_ahead hw, ahead_add_delta]
  simp only [h, hmoved, false_and]

theorem add_delta_inj (a b : SequenceNumber w) (delta : BitVec w) : a.add delta = b.add delta ↔ a = b := by
  rw [← ahead_eq_zero_iff, ahead_add_delta, ahead_eq_zero_iff]

theorem gt_iff_of_inWindow (hw : 1 < w) {base a b : SequenceNumber w} (ha : InWindow base a) (hb : InWindow base b) :
    a.gt b = true ↔ b.ahead base < a.ahead base := by
  have hhalf := two_mul_half hw
  have hvalue := a.value.isLt
  have hvalue' := b.value.isLt
  have hvalue'' := base.value.isLt
  rw [gt_iff_ahead hw]
  simp only [InWindow, HalfApart, ahead, toNat_sub_eq] at *
  split_ifs at * <;> omega

theorem sub_pos_iff (hw : 1 < w) (a b : SequenceNumber w) :
    0 < (a.sub b).toInt ↔ 0 < a.ahead b ∧ a.ahead b < 2 ^ (w - 1) := by
  have hhalf := two_mul_half hw
  have hlt := (a.value - b.value).isLt
  rw [sub_eq, BitVec.toInt_eq_toNat_cond, ahead]
  split_ifs <;> omega

/-- The laws hold of numbers that are not half of the number space apart. -/
theorem laws_of_one_lt (hw : 1 < w) : Laws w fun a b => ¬ HalfApart a b where
  one_of a b := by
    have hself : a.gt a = false := by
      rw [Bool.eq_false_iff, ne_eq, gt_iff_ahead hw, ahead_eq_zero_iff.mpr rfl]
      omega
    rw [lt]
    by_cases heq : a = b
    · subst heq
      exact .inr (.inl ⟨by simp, rfl, hself⟩)
    · cases hgt : a.gt b with
      | false => exact .inl ⟨by simp [heq], heq, rfl⟩
      | true => exact .inr (.inr ⟨by simp, heq, rfl⟩)
  add_sub a b := by
    have hadd : b.value + (a.value - b.value) = a.value := by grind
    rw [add, sub_eq, hadd]
  gt_iff a b h := by
    rw [sub_pos_iff hw, gt_iff_ahead hw]
    exact or_iff_left fun hand => h hand.1
  add_delta a b h delta := by
    have hgt := gt_add_delta hw h delta
    have hinj := add_delta_inj a b delta
    refine ⟨hgt, ?_, ?_, ?_, hinj⟩
    · simp only [lt, hgt, ne_eq, hinj]
    · simp only [ge, hgt, hinj]
    · simp only [le, hgt]
  gt_trans base a b c ha hb hc hab hbc := by
    rw [gt_iff_of_inWindow hw ha hb] at hab
    rw [gt_iff_of_inWindow hw hb hc] at hbc
    exact (gt_iff_of_inWindow hw ha hc).mpr (Nat.lt_trans hbc hab)

/-- `SequenceNumber16` and `SequenceNumber32` obey the laws, as far as no two numbers are half of the number space
apart that are compared, or moved together. -/
theorem laws : (Laws 16 fun a b => ¬ HalfApart a b) ∧ Laws 32 fun a b => ¬ HalfApart a b :=
  ⟨laws_of_one_lt (by decide), laws_of_one_lt (by decide)⟩

/-- Half of the number space apart, `0` is the greater one, and the difference is negative. -/
theorem not_laws_halfApart : ¬ ((Laws 16 fun _ _ => True) ∧ Laws 32 fun _ _ => True) := by
  rintro ⟨-, h⟩
  have hgt := h.gt_iff ⟨0⟩ ⟨0x80000000#32⟩ trivial
  exact absurd (hgt.mp (by decide)) (by decide)

end Ns3.SequenceNumber

namespace Ns3.SequenceNumber32

theorem plus_plus (a : SequenceNumber32) (m n : ℕ) : (a.plus (.ofNat m)).plus (.ofNat n) = a.plus (.ofNat (m + n)) := by
  simp only [plus, SequenceNumber.add, UInt32.ofNat_add, UInt32.toBitVec_add, BitVec.add_assoc]

theorem plus_zero (a : SequenceNumber32) : a.plus 0 = a := congrArg SequenceNumber.mk (BitVec.add_zero a.value)

theorem toNat_minus (a b : SequenceNumber32) : (a.minus b).toNat = a.ahead b := by
  rw [minus, SequenceNumber.sub_eq]
  rfl

theorem plus_ahead (a b : SequenceNumber32) : b.plus (.ofNat (a.ahead b)) = a := by
  rw [← toNat_minus, UInt32.ofNat_toNat, minus, SequenceNumber.sub_eq, plus, SequenceNumber.add]
  exact congrArg SequenceNumber.mk (by grind)

theorem ahead_plus {a b : SequenceNumber32} {n : UInt32} (h : a.ahead b + n.toNat < 2 ^ 32) :
    (a.plus n).ahead b = a.ahead b + n.toNat := by
  have hsub : a.value + n.toBitVec - b.value = a.value - b.value + n.toBitVec := by grind
  rw [SequenceNumber.ahead, SequenceNumber.ahead, plus, SequenceNumber.add, hsub, BitVec.toNat_add]
  exact Nat.mod_eq_of_lt h

theorem minus_plus (a : SequenceNumber32) {m n : ℕ} (h : m ≤ n) :
    (a.plus (.ofNat n)).minus (a.plus (.ofNat m)) = .ofNat (n - m) := by
  rw [UInt32.ofNat_sub h, minus, SequenceNumber.sub_eq, plus, plus, SequenceNumber.add, SequenceNumber.add]
  exact UInt32.toBitVec_inj.mp (by rw [UInt32.toBitVec_sub]; grind)

end Ns3.SequenceNumber32
