import Mathlib.Algebra.Group.Nat.Defs
import Mathlib.Data.List.Basic

/-!
# Blocks of memory

A block of memory is a list, read and written at offsets: `slice l p n` is what lies in `l` from the
offset `p` on, `n` places of it, and `overwrite l p x` is `l` with `x` written there. The lemmas say how
slices are put together and which of them a write leaves as they are.
-/

namespace Ns3.Lib

universe u

variable {α : Type u}

/-- The `n` places from the offset `p` on. -/
def slice (l : List α) (p n : ℕ) : List α := (l.drop p).take n

/-- The block with `x` written at the offset `p`. -/
def overwrite (l : List α) (p : ℕ) (x : List α) : List α := l.take p ++ x ++ l.drop (p + x.length)

@[simp] theorem slice_zero (l : List α) (p : ℕ) : slice l p 0 = [] := by simp [slice]

/-- Slices of the same places. -/
theorem slice_congr {l : List α} {p q m n : ℕ} (hmn : m = n) (hpq : n = 0 ∨ p = q) :
    slice l p m = slice l q n := by
  subst hmn
  rcases hpq with rfl | rfl
  · simp
  · rfl

theorem length_slice {l : List α} {p n : ℕ} (h : p + n ≤ l.length) : (slice l p n).length = n := by
  rw [slice, List.length_take, List.length_drop]
  omega

theorem slice_add (l : List α) (p m n : ℕ) : slice l p (m + n) = slice l p m ++ slice l (p + m) n := by
  rw [slice, slice, slice, List.take_add, List.drop_drop]

theorem drop_slice (l : List α) (p n k : ℕ) : (slice l p n).drop k = slice l (p + k) (n - k) := by
  rw [slice, slice, List.drop_take, List.drop_drop]

theorem take_slice (l : List α) (p n k : ℕ) : (slice l p n).take k = slice l p (min k n) := by
  rw [slice, slice, List.take_take]

variable {l x : List α}

theorem slice_append_of_le {p n : ℕ} (h : p + n ≤ l.length) : slice (l ++ x) p n = slice l p n := by
  rw [slice, slice, List.drop_append_of_le_length (by omega),
    List.take_append_of_le_length (by rw [List.length_drop]; omega)]

theorem length_overwrite {p : ℕ} (h : p + x.length ≤ l.length) : (overwrite l p x).length = l.length := by
  simp only [overwrite, List.length_append, List.length_take, List.length_drop]
  omega

theorem overwrite_nil (l : List α) (p : ℕ) : overwrite l p [] = l := by
  rw [overwrite, List.append_nil, List.length_nil, Nat.add_zero, List.take_append_drop]

/-- Writing one block behind another is writing both. -/
theorem overwrite_append {l x y : List α} {p : ℕ} (h : p ≤ l.length) :
    overwrite (overwrite l p x) (p + x.length) y = overwrite l p (x ++ y) := by
  have hlen : (l.take p ++ x).length = p + x.length := by rw [List.length_append, List.length_take_of_le h]
  have htake : (overwrite l p x).take (p + x.length) = l.take p ++ x := List.take_left' hlen
  have hdrop : (overwrite l p x).drop (p + x.length + y.length) = l.drop (p + (x ++ y).length) := by
    rw [overwrite, ← hlen, List.drop_append, Nat.add_sub_cancel_left,
      List.drop_eq_nil_of_le (Nat.le_add_right _ _), List.nil_append, List.drop_drop, hlen,
      List.length_append, Nat.add_assoc]
  rw [overwrite, htake, hdrop, overwrite, List.append_assoc (l.take p) x y]

/-- What was written is read back. -/
theorem slice_overwrite {p : ℕ} (h : p ≤ l.length) : slice (overwrite l p x) p x.length = x := by
  have hp : (l.take p).length = p := List.length_take_of_le h
  rw [slice, overwrite, List.append_assoc, List.drop_left' hp, List.take_left']
  rfl

/-- A write leaves what lies before it. -/
theorem slice_overwrite_of_le {p q n : ℕ} (h : q + n ≤ p) (hp : p ≤ l.length) :
    slice (overwrite l p x) q n = slice l q n := by
  have hlen : (l.take p).length = p := List.length_take_of_le hp
  rw [overwrite, List.append_assoc, slice_append_of_le (by omega), slice, slice, List.drop_take,
    List.take_take, Nat.min_eq_left (by omega)]

/-- A write leaves what lies behind it. -/
theorem slice_overwrite_of_ge {p q n : ℕ} (h : p + x.length ≤ q) (hp : p ≤ l.length) :
    slice (overwrite l p x) q n = slice l q n := by
  have hlen : (l.take p ++ x).length = p + x.length := by
    rw [List.length_append, List.length_take_of_le hp]
  have hq : q = (l.take p ++ x).length + (q - (p + x.length)) := by omega
  rw [slice, slice, overwrite, hq, List.drop_append, List.drop_eq_nil_of_le (by omega), List.nil_append,
    List.drop_drop, hlen]
  congr 2
  omega

end Ns3.Lib
