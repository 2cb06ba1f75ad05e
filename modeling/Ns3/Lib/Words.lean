import Mathlib.Algebra.Group.Nat.Defs
import Mathlib.Data.List.Basic

/-!
# Rows of bits in words

A row of bits that is kept in words of 32 bits, the lowest bit first: `bit words i` is the bit `i` of the row. Behind
the last word all bits are `false`. The shifts of words are those of C, which are not defined from 32 on.
-/

namespace Ns3.Lib

/-- `a << n`. -/
def shiftLeft32 (a n : UInt32) : Option UInt32 := if n.toNat < 32 then some (a <<< n) else none

/-- `a >> n`. -/
def shiftRight32 (a n : UInt32) : Option UInt32 := if n.toNat < 32 then some (a >>> n) else none

/-- The bit `i` of a row. -/
def bit (words : List UInt32) (i : ℕ) : Bool := (words[i / 32]?.getD 0).toNat.testBit (i % 32)

theorem testBit_shiftLeft32 {a b n : UInt32} (h : shiftLeft32 a n = some b) (i : ℕ) :
    b.toNat.testBit i = (decide (i < 32) && (decide (n.toNat ≤ i) && a.toNat.testBit (i - n.toNat))) := by
  rw [shiftLeft32] at h
  split_ifs at h with hn
  rw [← Option.some.inj h, UInt32.toNat_shiftLeft, Nat.mod_eq_of_lt hn, Nat.testBit_mod_two_pow, Nat.testBit_shiftLeft]

theorem testBit_shiftRight32 {a b n : UInt32} (h : shiftRight32 a n = some b) (i : ℕ) :
    b.toNat.testBit i = a.toNat.testBit (n.toNat + i) := by
  rw [shiftRight32] at h
  split_ifs at h with hn
  rw [← Option.some.inj h, UInt32.toNat_shiftRight, Nat.mod_eq_of_lt hn, Nat.testBit_shiftRight]

theorem testBit_of_ge (a : UInt32) {i : ℕ} (h : 32 ≤ i) : a.toNat.testBit i = false :=
  Nat.testBit_lt_two_pow (Nat.lt_of_lt_of_le a.toNat_lt (Nat.pow_le_pow_right (by decide) h))

/-- A word has the bits of its place in the row. -/
theorem testBit_getElem {words : List UInt32} {j : ℕ} {a : UInt32} (h : words[j]? = some a) {m : ℕ} (hm : m < 32) :
    a.toNat.testBit m = bit words (32 * j + m) := by
  have hdiv : (32 * j + m) / 32 = j := by omega
  have hmod : (32 * j + m) % 32 = m := by omega
  rw [bit, hdiv, hmod, h, Option.getD_some]

/-- A word at the end of a row. -/
theorem bit_concat (words : List UInt32) (a : UInt32) (i : ℕ) :
    bit (words ++ [a]) i =
      if i < 32 * words.length then bit words i else a.toNat.testBit (i - 32 * words.length) := by
  rw [bit]
  split_ifs with h
  · rw [List.getElem?_append_left (by omega), bit]
  · by_cases hlast : i < 32 * words.length + 32
    · have hdiv : i / 32 = words.length := by omega
      have hmod : i % 32 = i - 32 * words.length := by omega
      rw [hdiv, hmod, List.getElem?_concat_length, Option.getD_some]
    · rw [List.getElem?_eq_none (by rw [List.length_append, List.length_singleton]; omega), testBit_of_ge a (by omega)]
      exact Nat.zero_testBit _

/-- Bits that are written behind the first `m` of a word, whose others are `false`. -/
theorem testBit_or_shift {a v b m : UInt32} {n i : ℕ} (hb : shiftLeft32 v m = some b) (hv : v.toNat < 2 ^ n)
    (ha : m.toNat ≤ i → a.toNat.testBit i = false) (hi : i < 32 ∨ m.toNat + n ≤ i) :
    (b ||| a).toNat.testBit i = if i < m.toNat then a.toNat.testBit i else v.toNat.testBit (i - m.toNat) := by
  rw [UInt32.toNat_or, Nat.testBit_or, testBit_shiftLeft32 hb]
  split_ifs with h
  · rw [decide_eq_false (Nat.not_le.mpr h), Bool.false_and, Bool.and_false, Bool.false_or]
  · rw [ha (Nat.not_lt.mp h), decide_eq_true (Nat.not_lt.mp h), Bool.true_and, Bool.or_false]
    rcases hi with hi | hi
    · rw [decide_eq_true hi, Bool.true_and]
    · have hfalse : v.toNat.testBit (i - m.toNat) = false :=
        Nat.testBit_lt_two_pow (Nat.lt_of_lt_of_le hv (Nat.pow_le_pow_right (by decide) (by omega)))
      rw [hfalse, Bool.and_false]

end Ns3.Lib
