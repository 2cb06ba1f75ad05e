import Mathlib.Algebra.Group.Nat.Defs
import Mathlib.Data.List.Basic

/-!
# Reading octets

A `Reader` walks along a memory of octets and makes a value of what it reads. It does not know
where the octets end that it is meant to read: the memory goes on.

* `Cursor.At c bytes` — the octets `bytes` lie at the place `c`.
* `Reader.Reads r bytes a` — wherever `bytes` lie, `r` makes `a` of them and stops behind them;
  `Reads.bind` puts two such readers together.
* `Reader.consumed r c` — the number of octets `r` reads from the place `c` on.
* `bigEndian`, `ofBigEndian` — numbers as octets.
-/

namespace Ns3.Lib

/-- A place in a memory of octets. -/
structure Cursor where
  /-- The octet at each position. -/
  octet : ℕ → UInt8
  pos : ℕ

namespace Cursor

variable (c : Cursor)

/-- The place `n` octets further on. -/
def advance (n : ℕ) : Cursor := { c with pos := c.pos + n }

@[simp] theorem octet_advance (n : ℕ) : (c.advance n).octet = c.octet := rfl

@[simp] theorem pos_advance (n : ℕ) : (c.advance n).pos = c.pos + n := rfl

@[simp] theorem advance_zero : c.advance 0 = c := rfl

@[simp] theorem advance_advance (m n : ℕ) : (c.advance m).advance n = c.advance (m + n) := by
  simp [advance, Nat.add_assoc]

variable (bytes : List UInt8)

/-- The octets `bytes` lie here. -/
def At : Prop :=
  ∀ (i : ℕ) (b : UInt8), bytes[i]? = some b → c.octet (c.pos + i) = b

theorem at_nil : c.At [] := by
  intro i b hb
  simp at hb

theorem at_cons_iff {c : Cursor} {b : UInt8} {bytes : List UInt8} :
    c.At (b :: bytes) ↔ c.octet c.pos = b ∧ (c.advance 1).At bytes := by
  constructor
  · intro h
    refine ⟨h 0 b rfl, fun i b' hb => ?_⟩
    have hi := h (i + 1) b' hb
    rwa [Nat.add_comm i, ← Nat.add_assoc] at hi
  · rintro ⟨hb, h⟩ i b' hb'
    cases i with
    | zero =>
      cases hb'
      exact hb
    | succ i =>
      have hi := h i b' hb'
      rwa [octet_advance, pos_advance, Nat.add_assoc, Nat.add_comm 1] at hi

theorem at_append_iff {c : Cursor} {bytes bytes' : List UInt8} :
    c.At (bytes ++ bytes') ↔ c.At bytes ∧ (c.advance bytes.length).At bytes' := by
  induction bytes generalizing c with
  | nil => simp [at_nil]
  | cons b bytes ih =>
    rw [List.cons_append, at_cons_iff, at_cons_iff, ih, advance_advance, List.length_cons, and_assoc,
      Nat.add_comm 1]

/-- The start of a memory that begins with `bytes` and goes on with zeros. -/
def ofList : Cursor := ⟨fun i => bytes[i]?.getD 0, 0⟩

theorem at_ofList : (ofList bytes).At bytes := by
  intro i b hb
  simp [ofList, hb]

end Cursor

/-- A program that reads octets. -/
abbrev Reader (α : Type) := StateM Cursor α

namespace Reader

variable {α β : Type}

@[simp] theorem pure_apply (a : α) (c : Cursor) : (pure a : Reader α) c = (a, c) := rfl

@[simp] theorem bind_apply (r : Reader α) (f : α → Reader β) (c : Cursor) :
    (r >>= f) c = f (r c).1 (r c).2 := rfl

/-- Reads one octet. -/
def octet : Reader UInt8 := fun c => (c.octet c.pos, c.advance 1)

@[simp] theorem octet_apply (c : Cursor) : octet c = (c.octet c.pos, c.advance 1) := rfl

/-- Reads `n` octets. -/
def octets (n : ℕ) : Reader (List UInt8) := fun c =>
  ((List.range n).map fun i => c.octet (c.pos + i), c.advance n)

@[simp] theorem octets_snd (n : ℕ) (c : Cursor) : (octets n c).2 = c.advance n := rfl

@[simp] theorem length_octets (n : ℕ) (c : Cursor) : (octets n c).1.length = n := by
  rw [octets, List.length_map, List.length_range]

/-- Wherever `bytes` lie, the reader makes `a` of them and stops behind them. -/
def Reads (r : Reader α) (bytes : List UInt8) (a : α) : Prop :=
  ∀ c : Cursor, c.At bytes → r c = (a, c.advance bytes.length)

theorem Reads.pure (a : α) : Reads (pure a) [] a := fun _ _ => rfl

theorem Reads.bind {r : Reader α} {f : α → Reader β} {bytes bytes' : List UInt8} {a : α} {b : β}
    (hr : r.Reads bytes a) (hf : (f a).Reads bytes' b) : (r >>= f).Reads (bytes ++ bytes') b := by
  intro c hc
  obtain ⟨hbytes, hbytes'⟩ := Cursor.at_append_iff.mp hc
  rw [bind_apply, hr c hbytes]
  change f a (c.advance bytes.length) = _
  rw [hf _ hbytes', Cursor.advance_advance, List.length_append]

theorem Reads.map {r : Reader α} {bytes : List UInt8} {a : α} (hr : r.Reads bytes a) (f : α → β) :
    (f <$> r).Reads bytes (f a) := by
  intro c hc
  change (f (r c).1, (r c).2) = _
  rw [hr c hc]

theorem reads_octet (b : UInt8) : octet.Reads [b] b := by
  intro c hc
  rw [octet_apply, (Cursor.at_cons_iff.mp hc).1]
  rfl

theorem reads_octets (bytes : List UInt8) : (octets bytes.length).Reads bytes bytes := by
  intro c hc
  have hbytes : (List.range bytes.length).map (fun i => c.octet (c.pos + i)) = bytes := by
    refine List.ext_getElem (by simp) fun i _ hi => ?_
    rw [List.getElem_map, List.getElem_range]
    exact hc i _ (List.getElem?_eq_getElem hi)
  rw [octets, hbytes]

/-- The number of octets a reader reads. -/
def consumed (r : Reader α) (c : Cursor) : ℕ := (r c).2.pos - c.pos

theorem consumed_eq {r : Reader α} {c : Cursor} {n : ℕ} (h : (r c).2 = c.advance n) : r.consumed c = n := by
  rw [consumed, h, Cursor.pos_advance, Nat.add_sub_cancel_left]

end Reader

/-! ### Numbers -/

/-- The lowest `k` octets of a number, the highest of them first. -/
def bigEndian : ℕ → ℕ → List UInt8
  | 0, _ => []
  | k + 1, n => UInt8.ofNat (n / 256 ^ k) :: bigEndian k n

/-- The number with the given octets, the highest of them first. -/
def ofBigEndian : List UInt8 → ℕ
  | [] => 0
  | b :: bytes => b.toNat * 256 ^ bytes.length + ofBigEndian bytes

@[simp] theorem length_bigEndian (k n : ℕ) : (bigEndian k n).length = k := by
  induction k with
  | zero => rfl
  | succ k ih => rw [bigEndian, List.length_cons, ih]

theorem ofBigEndian_bigEndian (k n : ℕ) : ofBigEndian (bigEndian k n) = n % 256 ^ k := by
  induction k with
  | zero => simp [bigEndian, ofBigEndian, Nat.mod_one]
  | succ k ih =>
    have hb : (UInt8.ofNat (n / 256 ^ k)).toNat = n / 256 ^ k % 256 := UInt8.toNat_ofNat'
    rw [bigEndian, ofBigEndian, ih, length_bigEndian, hb, Nat.pow_succ, Nat.mod_mul, Nat.mul_comm,
      Nat.add_comm]

namespace Reader

/-- Reads a number of `k` octets, the highest of them first. -/
def number (k : ℕ) : Reader ℕ := ofBigEndian <$> octets k

@[simp] theorem number_apply (k : ℕ) (c : Cursor) :
    number k c = (ofBigEndian (octets k c).1, c.advance k) := rfl

theorem reads_number (k n : ℕ) : (number k).Reads (bigEndian k n) (n % 256 ^ k) := by
  have h := (reads_octets (bigEndian k n)).map ofBigEndian
  rwa [length_bigEndian, ofBigEndian_bigEndian] at h

/-- Reads a number of `k` octets, the lowest of them first. -/
def numberLow (k : ℕ) : Reader ℕ := (fun bytes => ofBigEndian bytes.reverse) <$> octets k

theorem reads_numberLow (k n : ℕ) : (numberLow k).Reads (bigEndian k n).reverse (n % 256 ^ k) := by
  have h := (reads_octets (bigEndian k n).reverse).map fun bytes => ofBigEndian bytes.reverse
  rwa [List.length_reverse, length_bigEndian, List.reverse_reverse, ofBigEndian_bigEndian] at h

end Reader

end Ns3.Lib
