import Ns3.Lib.Reader

/-!
# Octets in a block

Programs that write into a block by a pointer and read it again. A `Pen` is the pointer with the block: the
octets before it and the octets from it on. A program that reads has the octets from its pointer on.

* `Pen.put`, `Pen.seek` — writing, and moving the pointer; `Pen.put_append` puts two writes together.
* `readOctets` — reading; `readOctets_append` reads back what was written.
* `littleEndian`, `ByteOrder` — numbers of a fixed number of octets, in a given order or in the machine's own.
* `leb128`, `readLeb128` — numbers in groups of seven bits, the lowest first.
-/

namespace Ns3.Lib

/-! ### Writing -/

/-- A pointer into a block. -/
structure Pen where
  /-- The octets before the pointer. -/
  before : List UInt8
  /-- The octets from the pointer on. -/
  after : List UInt8

namespace Pen

variable (p : Pen)

/-- The block. -/
def block : List UInt8 := p.before ++ p.after

/-- Writes, unless the block ends before. -/
def put (bytes : List UInt8) : Option Pen :=
  if bytes.length ≤ p.after.length then some ⟨p.before ++ bytes, p.after.drop bytes.length⟩ else none

/-- The pointer at an offset of the block. -/
def seek (n : ℕ) : Pen := ⟨p.block.take n, p.block.drop n⟩

/-- The pointer and the block after `bytes` was written. -/
def wrote (bytes : List UInt8) : Pen := ⟨p.before ++ bytes, p.after.drop bytes.length⟩

@[simp] theorem before_wrote (bytes : List UInt8) : (p.wrote bytes).before = p.before ++ bytes := rfl

@[simp] theorem length_after_wrote (bytes : List UInt8) :
    (p.wrote bytes).after.length = p.after.length - bytes.length := List.length_drop

@[simp] theorem wrote_nil : p.wrote [] = p := by
  simp [wrote]

theorem wrote_wrote (bytes bytes' : List UInt8) : (p.wrote bytes).wrote bytes' = p.wrote (bytes ++ bytes') := by
  simp [wrote]

theorem put_eq {bytes : List UInt8} (h : bytes.length ≤ p.after.length) : p.put bytes = some (p.wrote bytes) := if_pos h

/-- The pointer moved on: what it passes stays as it is. -/
theorem seek_wrote (bytes : List UInt8) {n : ℕ} (h : bytes.length + n ≤ p.after.length) :
    ∃ pad, pad.length = n ∧
      (p.wrote bytes).seek (p.before.length + (bytes.length + n)) = p.wrote (bytes ++ pad) := by
  refine ⟨(p.after.drop bytes.length).take n, ?_, ?_⟩
  · rw [List.length_take, List.length_drop]
    omega
  · have hlen : ((p.after.drop bytes.length).take n).length = n := by
      rw [List.length_take, List.length_drop]
      omega
    have hpos : p.before.length + (bytes.length + n) = (p.before ++ bytes).length + n := by
      rw [List.length_append]
      omega
    rw [seek, block, hpos]
    simp only [wrote]
    rw [List.take_length_add_append, List.drop_length_add_append, List.drop_drop, List.length_append, hlen,
      List.append_assoc]

end Pen

/-! ### Reading -/

/-- Reads `n` octets, unless there are fewer. -/
def readOctets (n : ℕ) (l : List UInt8) : Option (List UInt8 × List UInt8) :=
  if n ≤ l.length then some (l.take n, l.drop n) else none

theorem length_of_readOctets {n : ℕ} {l bytes rest : List UInt8} (h : readOctets n l = some (bytes, rest)) :
    bytes.length = n := by
  rw [readOctets] at h
  split_ifs at h with hn
  obtain ⟨rfl, -⟩ := Prod.mk.inj (Option.some.inj h)
  exact List.length_take_of_le hn

theorem readOctets_append {bytes : List UInt8} {n : ℕ} (h : bytes.length = n) (rest : List UInt8) :
    readOctets n (bytes ++ rest) = some (bytes, rest) := by
  rw [readOctets, if_pos (by rw [List.length_append]; omega), List.take_left' h, List.drop_left' h]

/-! ### Numbers of a fixed size -/

/-- The lowest `k` octets of a number, the lowest of them first. -/
def littleEndian (k n : ℕ) : List UInt8 := (bigEndian k n).reverse

/-- The number with the given octets, the lowest of them first. -/
def ofLittleEndian (l : List UInt8) : ℕ := ofBigEndian l.reverse

@[simp] theorem length_littleEndian (k n : ℕ) : (littleEndian k n).length = k := by
  simp [littleEndian]

theorem ofLittleEndian_littleEndian (k n : ℕ) : ofLittleEndian (littleEndian k n) = n % 256 ^ k := by
  rw [ofLittleEndian, littleEndian, List.reverse_reverse, ofBigEndian_bigEndian]

theorem ofBigEndian_lt (l : List UInt8) : ofBigEndian l < 256 ^ l.length := by
  induction l with
  | nil => simp [ofBigEndian]
  | cons b l ih =>
    have hb := b.toNat_lt
    rw [ofBigEndian, List.length_cons, Nat.pow_succ']
    calc b.toNat * 256 ^ l.length + ofBigEndian l
        < b.toNat * 256 ^ l.length + 256 ^ l.length := Nat.add_lt_add_left ih _
      _ = (b.toNat + 1) * 256 ^ l.length := (Nat.succ_mul _ _).symm
      _ ≤ 256 * 256 ^ l.length := Nat.mul_le_mul_right _ hb

/-- Octets of one number are the same, if they are as many. -/
theorem ofBigEndian_inj {l l' : List UInt8} (hlen : l.length = l'.length) (h : ofBigEndian l = ofBigEndian l') :
    l = l' := by
  induction l generalizing l' with
  | nil => exact (List.length_eq_zero_iff.mp hlen.symm).symm
  | cons b l ih =>
    obtain ⟨b', l', rfl⟩ := List.exists_cons_of_length_eq_add_one hlen.symm
    have hlen' : l.length = l'.length := Nat.succ.inj hlen
    have hlt := ofBigEndian_lt l
    have hlt' := ofBigEndian_lt l'
    rw [ofBigEndian, ofBigEndian, ← hlen', Nat.mul_comm, Nat.mul_comm b'.toNat] at h
    rw [← hlen'] at hlt'
    have hdiv := congrArg (· / 256 ^ l.length) h
    have hmod := congrArg (· % 256 ^ l.length) h
    simp only [Nat.mul_add_mod, Nat.mod_eq_of_lt hlt, Nat.mod_eq_of_lt hlt'] at hmod
    simp only [Nat.mul_add_div (Nat.pow_pos (n := l.length) (Nat.zero_lt_succ 255)), Nat.div_eq_of_lt hlt,
      Nat.div_eq_of_lt hlt', Nat.add_zero] at hdiv
    rw [ih hlen' hmod, UInt8.toNat_inj.mp hdiv]

/-- Octets that are shifted into a number of `w` octets, the highest first. -/
theorem toNat_foldl_octets {β : Type*} {toNat : β → ℕ} {push : β → UInt8 → β} {w : ℕ}
    (hpush : ∀ v byte, toNat v < 256 ^ w → toNat (push v byte) = toNat v * 256 + byte.toNat) {bytes : List UInt8}
    {v : β} {k : ℕ} (hv : toNat v < 256 ^ k) (hlen : k + bytes.length ≤ w + 1) :
    toNat (bytes.foldl push v) = toNat v * 256 ^ bytes.length + ofBigEndian bytes := by
  induction bytes generalizing v k with
  | nil => rw [List.foldl_nil, List.length_nil, Nat.pow_zero, Nat.mul_one, ofBigEndian, Nat.add_zero]
  | cons byte bytes ih =>
    rw [List.length_cons] at hlen
    have hsmall : toNat v < 256 ^ w := Nat.lt_of_lt_of_le hv (Nat.pow_le_pow_right (by decide) (by omega))
    have hstep := hpush v byte hsmall
    have hbyte := byte.toNat_lt
    have hnext : toNat (push v byte) < 256 ^ (k + 1) := by
      rw [hstep, Nat.pow_succ]
      omega
    rw [List.foldl_cons, ih hnext (by omega), hstep, List.length_cons, ofBigEndian, Nat.pow_succ', Nat.add_mul,
      Nat.mul_assoc, Nat.add_assoc]

theorem ofLittleEndian_lt (l : List UInt8) : ofLittleEndian l < 256 ^ l.length := by
  have h := ofBigEndian_lt l.reverse
  rwa [List.length_reverse] at h

/-- How a machine keeps its numbers in octets. -/
structure ByteOrder where
  /-- The lowest `k` octets of a number. -/
  encode : ℕ → ℕ → List UInt8
  /-- The number with the given octets. -/
  decode : List UInt8 → ℕ
  /-- A number of `k` octets has `k` octets. -/
  length_encode : ∀ k n, (encode k n).length = k
  /-- A number of `k` octets is read back. -/
  decode_encode : ∀ k n, decode (encode k n) = n % 256 ^ k

namespace ByteOrder

/-- The lowest octet first. -/
def little : ByteOrder := ⟨littleEndian, ofLittleEndian, length_littleEndian, ofLittleEndian_littleEndian⟩

/-- The highest octet first. -/
def big : ByteOrder := ⟨bigEndian, ofBigEndian, length_bigEndian, ofBigEndian_bigEndian⟩

variable (order : ByteOrder)

/-- Reads a number of `k` octets. -/
def read (k : ℕ) (l : List UInt8) : Option (ℕ × List UInt8) := do
  let (bytes, l) ← readOctets k l
  some (order.decode bytes, l)

/-- A number that fits is read back. -/
theorem read_append {k n : ℕ} (h : n < 256 ^ k) (rest : List UInt8) :
    order.read k (order.encode k n ++ rest) = some (n, rest) := by
  have hread := readOctets_append (order.length_encode k n) rest
  rw [read, hread]
  change some (order.decode (order.encode k n), rest) = _
  rw [order.decode_encode, Nat.mod_eq_of_lt h]

end ByteOrder

/-! ### Numbers in groups of seven bits -/

/-- A number in `k + 1` groups of seven bits, the lowest first: all but the last have the highest bit set. -/
def leb128 : ℕ → ℕ → List UInt8
  | 0, n => [UInt8.ofNat n]
  | k + 1, n => UInt8.ofNat (n % 128 + 128) :: leb128 k (n / 128)

@[simp] theorem length_leb128 (k n : ℕ) : (leb128 k n).length = k + 1 := by
  induction k generalizing n with
  | zero => rfl
  | succ k ih => simp [leb128, ih]

/-- Reads groups of seven bits up to one with the highest bit clear, which is among the next `k + 1`. -/
def readLeb128 : ℕ → List UInt8 → Option (ℕ × List UInt8)
  | _, [] => none
  | 0, b :: l => if b.toNat < 128 then some (b.toNat, l) else none
  | k + 1, b :: l =>
    if b.toNat < 128 then some (b.toNat, l)
    else do
      let (n, l) ← readLeb128 k l
      some (b.toNat - 128 + 128 * n, l)

/-- A number is read back by a reader that takes as many groups. -/
theorem readLeb128_append {k j n : ℕ} (hk : k ≤ j) (hn : n < 128 ^ (k + 1)) (rest : List UInt8) :
    readLeb128 j (leb128 k n ++ rest) = some (n, rest) := by
  induction k generalizing j n with
  | zero =>
    have hb : (UInt8.ofNat n).toNat = n := by
      rw [UInt8.toNat_ofNat']
      omega
    have hlt : n < 128 := by simpa using hn
    cases j with
    | zero => simp [leb128, readLeb128, hb, hlt]
    | succ j => simp [leb128, readLeb128, hb, hlt]
  | succ k ih =>
    obtain ⟨j, rfl⟩ := Nat.exists_eq_succ_of_ne_zero (by omega : j ≠ 0)
    have hb : (UInt8.ofNat (n % 128 + 128)).toNat = n % 128 + 128 := by
      rw [UInt8.toNat_ofNat']
      omega
    have hrest := ih (j := j) (n := n / 128) (by omega) (Nat.div_lt_of_lt_mul (by rwa [Nat.pow_succ'] at hn))
    rw [leb128, List.cons_append, readLeb128, hb, if_neg (by omega), hrest]
    change some (n % 128 + 128 - 128 + 128 * (n / 128), rest) = _
    rw [Nat.add_sub_cancel, Nat.mod_add_div]

end Ns3.Lib
