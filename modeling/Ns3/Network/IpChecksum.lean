import Ns3.Network.BufferIterator

/-!
# The Internet checksum

`Buffer::Iterator::CalculateIpChecksum` (`network/model/buffer.cc`): the octets are added as words with the lower octet
first, by `ReadU16`, and `WriteU16` stores a word in the same order. `wordSum` is the sum without a bound; the
accumulator of 32 bits never leaves it, and the carries are folded modulo 65535.

`calculateIpChecksum_writeU16` says that the checksum is the complement of the folded sum, and that it makes the
checksum zero when it is stored in its field.
-/

namespace Ns3

open Lib

namespace Buffer

namespace BlockIterator

/-! ### The code -/

variable (i : BlockIterator)

/-- Two bytes, the low one first. -/
def readU16 : Option (UInt16 × BlockIterator) := do
  let (byte0, i) ← i.readU8
  let (byte1, i) ← i.readU8
  let data := byte1.toUInt16
  let data := data <<< 8 ||| byte0.toUInt16
  some (data, i)

/-- The position is in the data, and not in the zero area. -/
def Check (k : ℕ) : Prop :=
  i.dataStart ≤ k ∧ ¬ (i.zeroStart ≤ k ∧ k < i.zeroEnd) ∧ k ≤ i.dataEnd
deriving Decidable

/-- An octet is written to the block. -/
def store (p : ℕ) (data : UInt8) : Option BlockIterator :=
  if p < i.data.length then some ({ i with data := i.data.set p data }.advance 1) else none

/-- A byte is written, behind the zero area to its displaced place. -/
def writeU8 (data : UInt8) : Option BlockIterator :=
  if ¬ i.Check i.current then none
  else if i.current < i.zeroStart then i.store i.current data
  else i.store i.displaced data

/-- Two bytes, the low one first. -/
def writeU16 (data : UInt16) : Option BlockIterator := do
  let i ← i.writeU8 (data &&& 0xff).toUInt8
  let data := data >>> 8
  i.writeU8 (data &&& 0xff).toUInt8

/-- The loop over the words. -/
def sumWords : ℕ → UInt32 → BlockIterator → Option (UInt32 × BlockIterator)
  | 0, sum, i => some (sum, i)
  | n + 1, sum, i => do
    let (data, i) ← i.readU16
    sumWords n (sum + data.toUInt32) i

/-- The sum of all octets: the words, and the last octet where their number is odd. -/
def accumulate (size : UInt16) (initialChecksum : UInt32) : Option (UInt32 × BlockIterator) := do
  let (sum, i) ← sumWords (size.toNat / 2) initialChecksum i
  if size &&& 1 ≠ 0 then do
    let (data, i) ← i.readU8
    some (sum + data.toUInt32, i)
  else some (sum, i)

theorem toNat_high (sum : UInt32) : (sum >>> 16).toNat = sum.toNat / 2 ^ 16 := by
  have hsixteen : (16 : UInt32).toNat % 32 = 16 := rfl
  rw [UInt32.toNat_shiftRight, hsixteen, Nat.shiftRight_eq_div_pow]

/-- The carries, added to the sum. -/
def carry (sum : UInt32) : UInt32 := (sum &&& (0xffff : UInt32)) + (sum >>> 16)

theorem toNat_low (sum : UInt32) : (sum &&& (0xffff : UInt32)).toNat = sum.toNat % 2 ^ 16 := by
  rw [UInt32.toNat_and]
  exact Nat.and_two_pow_sub_one_eq_mod sum.toNat 16

theorem toNat_carry (sum : UInt32) : (carry sum).toNat = sum.toNat % 2 ^ 16 + sum.toNat / 2 ^ 16 := by
  have hlt := sum.toNat_lt
  rw [carry, UInt32.toNat_add, toNat_low, toNat_high]
  exact Nat.mod_eq_of_lt (by omega)

variable {sum : UInt32}

theorem high_ne_zero : sum >>> 16 ≠ 0 ↔ 2 ^ 16 ≤ sum.toNat := by
  have hhigh := toNat_high sum
  constructor
  · intro h
    by_contra hlt
    exact h (UInt32.toNat_inj.mp (hhigh.trans (Nat.div_eq_of_lt (Nat.not_le.mp hlt))))
  · intro h hzero
    rw [hzero, UInt32.toNat_zero] at hhigh
    omega

/-- `while (sum >> 16)`. -/
def fold (sum : UInt32) : UInt32 := if sum >>> 16 ≠ 0 then fold (carry sum) else sum
termination_by sum.toNat
decreasing_by
  have hhigh := high_ne_zero.mp (by assumption)
  rw [toNat_carry]
  omega

/-- The complement of the folded sum. -/
def calculateIpChecksum (size : UInt16) (initialChecksum : UInt32) :
    Option (UInt16 × BlockIterator) := do
  let (sum, i) ← i.accumulate size initialChecksum
  some ((~~~fold sum).toUInt16, i)

/-! ### The sum -/

/-- The octets as words, the lower octet first, without a bound. -/
def wordSum : List UInt8 → ℕ
  | [] => 0
  | [x] => x.toNat
  | x :: y :: l => x.toNat + 256 * y.toNat + wordSum l

theorem wordSum_le : ∀ l : List UInt8, wordSum l ≤ 65535 * ((l.length + 1) / 2)
  | [] => Nat.zero_le _
  | [x] => by
    have := x.toNat_lt
    rw [wordSum, List.length_singleton]
    omega
  | x :: y :: l => by
    have := x.toNat_lt
    have := y.toNat_lt
    have := wordSum_le l
    rw [wordSum, List.length_cons, List.length_cons]
    omega

theorem wordSum_set : ∀ {l : List UInt8} {k : ℕ} (x y : UInt8), k % 2 = 0 → l[k]? = some 0 → l[k + 1]? = some 0 →
    wordSum ((l.set k x).set (k + 1) y) = wordSum l + (x.toNat + 256 * y.toNat)
  | [], k, _, _, _, h, _ => absurd h (by simp)
  | [_], 0, _, _, _, _, h => absurd h (by simp)
  | [_], k + 1, _, _, _, h, _ => absurd h (by simp)
  | a :: b :: l, 0, x, y, _, ha, hb => by
    obtain rfl : a = 0 := Option.some.inj ha
    obtain rfl : b = 0 := Option.some.inj hb
    simp only [List.set_cons_zero, List.set_cons_succ, wordSum, UInt8.toNat_zero]
    omega
  | _ :: _ :: _, 1, _, _, hk, _, _ => absurd hk (by decide)
  | a :: b :: l, k + 2, x, y, hk, ha, hb => by
    have hrest := @wordSum_set l k x y (by omega) ha hb
    simp only [List.set_cons_succ, wordSum, hrest]
    omega

variable {b : Buffer} {d : Data} {c : ℕ}

theorem drop_content {x : UInt8} (hstart : b.start ≤ c) (hx : (b.content d.data)[c - b.start]? = some x) :
    (b.content d.data).drop (c - b.start) = x :: (b.content d.data).drop (c + 1 - b.start) := by
  obtain ⟨hlt, rfl⟩ := List.getElem?_eq_some_iff.mp hx
  rw [List.drop_eq_getElem_cons hlt, ← Nat.sub_add_comm hstart]

/-- `ReadU16` reads the next two octets. -/
theorem readU16_construct (hin : b.InBounds d) (hstart : b.start ≤ c) (hstop : c + 2 ≤ b.stop) :
    ∃ x y data, (b.content d.data).drop (c - b.start) = x :: y :: (b.content d.data).drop (c + 2 - b.start) ∧
      (construct b d c).readU16 = some (data, construct b d (c + 2)) ∧ data.toNat = x.toNat + 256 * y.toNat := by
  obtain ⟨x, hx, hreadX⟩ := readU8_construct hin hstart (by omega)
  obtain ⟨y, hy, hreadY⟩ := @readU8_construct b d (c + 1) hin (by omega) (by omega)
  refine ⟨x, y, y.toUInt16 <<< 8 ||| x.toUInt16, ?_, ?_, ?_⟩
  · rw [drop_content hstart hx, drop_content (by omega) hy]
  · simp only [readU16, hreadX, hreadY, Option.bind_eq_bind, Option.bind_some]
  · have hlt : y.toUInt16.toNat < 256 ^ 1 := by
      rw [UInt8.toNat_toUInt16]
      exact y.toNat_lt
    rw [toNat_push16 y.toUInt16 x hlt, UInt8.toNat_toUInt16]
    omega

theorem toNat_add_word {data : UInt16} (h : sum.toNat + data.toNat < 2 ^ 32) :
    (sum + data.toUInt32).toNat = sum.toNat + data.toNat := by
  rw [UInt32.toNat_add, UInt16.toNat_toUInt32]
  exact Nat.mod_eq_of_lt h

/-- The accumulator holds the sum of the words. -/
theorem sumWords_construct (hin : b.InBounds d) {n : ℕ} (hstart : b.start ≤ c) (hstop : c + 2 * n ≤ b.stop)
    (hlt : sum.toNat + 65535 * n < 2 ^ 32) :
    ∃ sum', sumWords n sum (construct b d c) = some (sum', construct b d (c + 2 * n)) ∧
      sum'.toNat = sum.toNat + wordSum (slice (b.content d.data) (c - b.start) (2 * n)) := by
  induction n generalizing c sum with
  | zero => exact ⟨sum, rfl, by rw [Nat.mul_zero, slice_zero, wordSum, Nat.add_zero]⟩
  | succ n ih =>
    obtain ⟨x, y, data, hdrop, hread, hdata⟩ := readU16_construct hin hstart (by omega)
    have hword := data.toNat_lt
    have hadd : (sum + data.toUInt32).toNat = sum.toNat + data.toNat := toNat_add_word (by omega)
    obtain ⟨sum', hsum', hvalue⟩ := @ih (sum + data.toUInt32) (c + 2) (by omega) (by omega) (by omega)
    refine ⟨sum', ?_, ?_⟩
    · simp only [sumWords, hread, Option.bind_eq_bind, Option.bind_some, hsum']
      congr 3
      omega
    · have hslice : slice (b.content d.data) (c - b.start) (2 * (n + 1)) =
          x :: y :: slice (b.content d.data) (c + 2 - b.start) (2 * n) := by
        rw [slice, hdrop]
        rfl
      rw [hvalue, hadd, hdata, hslice, wordSum]
      omega

/-- The accumulator holds the sum of all octets, in every round and at the end, and no carry is lost. -/
structure NeverOverflows (b : Buffer) (d : Data) (c : ℕ) (size : UInt16) (initial : UInt32) : Prop where
  /-- In front of every round of the loop. -/
  words : ∀ n ≤ size.toNat / 2, ∃ sum, sumWords n initial (construct b d c) = some (sum, construct b d (c + 2 * n)) ∧
    sum.toNat = initial.toNat + wordSum (slice (b.content d.data) (c - b.start) (2 * n))
  total : ∃ sum, (construct b d c).accumulate size initial = some (sum, construct b d (c + size.toNat)) ∧
    sum.toNat = initial.toNat + wordSum (slice (b.content d.data) (c - b.start) size.toNat)
  /-- In every round of the loop over the carries. -/
  carries : ∀ sum, (carry sum).toNat = (sum &&& (0xffff : UInt32)).toNat + (sum >>> 16).toNat

theorem and_one_ne_zero {size : UInt16} : size &&& 1 ≠ 0 ↔ size.toNat % 2 = 1 := by
  have hand : (size &&& 1).toNat = size.toNat % 2 := by
    rw [UInt16.toNat_and]
    exact Nat.and_one_is_mod size.toNat
  constructor
  · intro h
    by_contra hodd
    exact h (UInt16.toNat_inj.mp (by rw [hand, UInt16.toNat_zero]; omega))
  · intro h hzero
    rw [hzero, UInt16.toNat_zero] at hand
    omega

theorem wordSum_concat : ∀ {l : List UInt8} (x : UInt8), l.length % 2 = 0 → wordSum (l ++ [x]) = wordSum l + x.toNat
  | [], x, _ => by simp only [List.nil_append, wordSum, Nat.zero_add]
  | [_], _, h => absurd h (by simp)
  | a :: b :: l, x, h => by
    have hrest := @wordSum_concat l x (by simp only [List.length_cons] at h; omega)
    simp only [List.cons_append, wordSum, hrest]
    omega

theorem neverOverflows (hin : b.InBounds d) {size : UInt16} {initial : UInt32} (hstart : b.start ≤ c)
    (hstop : c + size.toNat ≤ b.stop) (hinitial : initial.toNat < 2 ^ 16) : NeverOverflows b d c size initial := by
  have hsize := size.toNat_lt
  have hwords : ∀ n ≤ size.toNat / 2, ∃ sum, sumWords n initial (construct b d c) =
      some (sum, construct b d (c + 2 * n)) ∧
        sum.toNat = initial.toNat + wordSum (slice (b.content d.data) (c - b.start) (2 * n)) :=
    fun n hn => sumWords_construct hin hstart (by omega) (by omega)
  have hcarries : ∀ sum, (carry sum).toNat = (sum &&& (0xffff : UInt32)).toNat + (sum >>> 16).toNat := by
    intro sum
    rw [toNat_carry, toNat_low, toNat_high]
  refine ⟨hwords, ?_, hcarries⟩
  obtain ⟨sum, hsum, hvalue⟩ := hwords (size.toNat / 2) le_rfl
  by_cases hodd : size &&& 1 ≠ 0
  · have hodd' := and_one_ne_zero.mp hodd
    obtain ⟨x, hx, hread⟩ := @readU8_construct b d (c + 2 * (size.toNat / 2)) hin (by omega) (by omega)
    have hlen : (slice (b.content d.data) (c - b.start) (2 * (size.toNat / 2))).length = 2 * (size.toNat / 2) := by
      have hlt := (List.getElem?_eq_some_iff.mp hx).1
      exact length_slice (by omega)
    have hslice : slice (b.content d.data) (c - b.start) size.toNat =
        slice (b.content d.data) (c - b.start) (2 * (size.toNat / 2)) ++ [x] := by
      have hsplit : size.toNat = 2 * (size.toNat / 2) + 1 := by omega
      have hplace : c - b.start + 2 * (size.toNat / 2) = c + 2 * (size.toNat / 2) - b.start := by omega
      have hlast : slice (b.content d.data) (c + 2 * (size.toNat / 2) - b.start) 1 = [x] := by
        rw [slice, drop_content (by omega) hx]
        rfl
      conv_lhs => rw [hsplit]
      rw [slice_add, hplace, hlast]
    have hbound := wordSum_le (slice (b.content d.data) (c - b.start) (2 * (size.toNat / 2)))
    rw [hlen] at hbound
    have hbyte := x.toNat_lt
    have hadd : (sum + x.toUInt32).toNat = sum.toNat + x.toNat := by
      rw [UInt32.toNat_add, UInt8.toNat_toUInt32]
      exact Nat.mod_eq_of_lt (by omega)
    refine ⟨sum + x.toUInt32, ?_, ?_⟩
    · simp only [accumulate, hsum, Option.bind_eq_bind, Option.bind_some, if_pos hodd, hread]
      congr 3
      omega
    · rw [hadd, hvalue, hslice, wordSum_concat x (by omega), Nat.add_assoc]
  · have heven : 2 * (size.toNat / 2) = size.toNat := by
      have := mt and_one_ne_zero.mpr hodd
      omega
    rw [heven] at hsum hvalue
    refine ⟨sum, ?_, hvalue⟩
    simp only [accumulate, hsum, Option.bind_eq_bind, Option.bind_some, if_neg hodd]

/-! ### The folded sum -/

theorem fold_lt (sum : UInt32) : (fold sum).toNat < 2 ^ 16 := by
  fun_induction fold sum with
  | case1 sum _ ih => exact ih
  | case2 sum h => exact Nat.not_le.mp (mt high_ne_zero.mpr h)

theorem fold_mod (sum : UInt32) : (fold sum).toNat % 65535 = sum.toNat % 65535 := by
  fun_induction fold sum with
  | case1 sum _ ih =>
    rw [ih, toNat_carry]
    omega
  | case2 sum _ => rfl

theorem fold_pos (h : 0 < sum.toNat) : 0 < (fold sum).toNat := by
  fun_induction fold sum with
  | case1 sum _ ih =>
    refine ih ?_
    rw [toNat_carry]
    omega
  | case2 sum _ => exact h

theorem fold_le (sum : UInt32) : (fold sum).toNat ≤ sum.toNat := by
  fun_induction fold sum with
  | case1 sum _ ih =>
    rw [toNat_carry] at ih
    omega
  | case2 sum _ => exact le_rfl

theorem toNat_complement (sum : UInt32) : (~~~fold sum).toUInt16.toNat = 65535 - (fold sum).toNat := by
  have hlt := fold_lt sum
  have hnot : (~~~fold sum).toNat = 2 ^ 32 - 1 - (fold sum).toNat := UInt32.toNat_not _
  rw [UInt32.toNat_toUInt16, hnot]
  omega

/-- A sum is folded to 65535, when what was returned for another is added to that. -/
theorem complement_add {sum sum' : UInt32} (h : sum'.toNat = sum.toNat + (~~~fold sum).toUInt16.toNat) :
    (~~~fold sum').toUInt16 = 0 := by
  have hmod := fold_mod sum
  have hmod' := fold_mod sum'
  have hlt := fold_lt sum
  have hlt' := fold_lt sum'
  rw [toNat_complement] at h
  have hpos : 0 < (fold sum').toNat := by
    refine fold_pos ?_
    -- for a sum of zero 65535 is returned
    have hle := fold_le sum
    omega
  apply UInt16.toNat_inj.mp
  rw [toNat_complement, UInt16.toNat_zero]
  omega

/-! ### The field of the checksum -/

/-- A byte of the buffer is replaced in the block. -/
theorem content_set {x y z : ℕ} (hb : b.Sized x y z) {l : List UInt8} (hl : b.start + x + z ≤ l.length) {m p : ℕ}
    (hm : m < x + y + z) (hp : (m < x ∧ p = b.start + m) ∨ (x + y ≤ m ∧ p = b.start + m - y)) (v : UInt8) :
    b.content (l.set p v) = (b.content l).set m v := by
  have hl' : b.start + x + z ≤ (l.set p v).length := by rwa [List.length_set]
  have hlen := hb.length_content hl
  have hplt : p < l.length := by omega
  refine List.ext_getElem? fun k => ?_
  by_cases hk : k < x + y + z
  · by_cases hmk : m = k
    · subst hmk
      rw [List.getElem?_set_self (hlen.symm ▸ hk), hb.getElem?_content hl' hk]
      rcases hp with ⟨h, rfl⟩ | ⟨h, rfl⟩
      · rw [if_pos h, List.getElem?_set_self hplt]
      · rw [if_neg (by omega), if_neg (by omega), List.getElem?_set_self hplt]
    · rw [List.getElem?_set_ne hmk, hb.getElem?_content hl' hk, hb.getElem?_content hl hk]
      split_ifs with h₁ h₂
      · rw [List.getElem?_set_ne (by omega)]
      · rfl
      · rw [List.getElem?_set_ne (by omega)]
  · have hnone : (b.content l).length ≤ k := by omega
    rw [List.getElem?_eq_none (by rw [hb.length_content hl']; omega),
      List.getElem?_eq_none (by rwa [List.length_set])]

theorem store_construct (hin : b.InBounds d) (hstop : c < b.stop) {p : ℕ} (hp : p < d.data.length) (v : UInt8) :
    (construct b d c).store p v = some (construct b { d with data := d.data.set p v } (c + 1)) := by
  have hnext := @advance_construct b d c 1 hin hstop
  have hadd : add32 c 1 = c + 1 := congrArg BlockIterator.current hnext
  rw [store]
  refine (if_pos hp).trans (congrArg some ?_)
  simp only [advance, construct, hadd]

/-- A byte of the buffer that is not in the zero area is written. -/
theorem writeU8_construct (hin : b.InBounds d) (hstart : b.start ≤ c) (hstop : c < b.stop)
    (houtside : ¬ (b.zeroAreaStart ≤ c ∧ c < b.zeroAreaEnd)) (v : UInt8) :
    ∃ d', (construct b d c).writeU8 v = some (construct b d' (c + 1)) ∧ b.InBounds d' ∧
      b.content d'.data = (b.content d.data).set (c - b.start) v := by
  obtain ⟨x, y, z, hb⟩ := hin.exists_sized
  have hl := hin.le_length hb
  have hsized := hb
  obtain ⟨hx, hy, hz⟩ := hb
  have hcheck : ¬ ¬ (construct b d c).Check (construct b d c).current := not_not.mpr ⟨hstart, houtside, hstop.le⟩
  have hbounds : ∀ p, b.InBounds { d with data := d.data.set p v } := by
    refine fun p => ⟨hin.toOrdered, ?_⟩
    have hle := hin.internalEnd_le
    rw [Data.size] at hle ⊢
    rwa [List.length_set]
  rw [writeU8, if_neg hcheck]
  by_cases hbefore : (construct b d c).current < (construct b d c).zeroStart
  · have hbefore' : c < b.zeroAreaStart := hbefore
    rw [if_pos hbefore]
    exact ⟨_, store_construct hin hstop (show c < d.data.length by omega) v, hbounds c,
      content_set hsized hl (by omega) (.inl ⟨by omega, by omega⟩) v⟩
  · have hbefore' : ¬ c < b.zeroAreaStart := hbefore
    have hdisplaced := displaced_construct (c := c) hin (by omega)
    rw [if_neg hbefore, hdisplaced]
    exact ⟨_, store_construct hin hstop (by omega) v, hbounds _,
      content_set hsized hl (by omega) (.inr ⟨by omega, by omega⟩) v⟩

theorem slice_set {l : List UInt8} {p n m : ℕ} (h : p ≤ m) (v : UInt8) :
    slice (l.set m v) p n = (slice l p n).set (m - p) v := by
  rw [slice, slice, List.drop_set, if_neg (Nat.not_lt.mpr h), List.take_set]

/-- The two octets of a word. -/
theorem octets_word (word : UInt16) :
    (word &&& 0xff).toUInt8.toNat + 256 * ((word >>> 8) &&& 0xff).toUInt8.toNat = word.toNat := by
  have height : (8 : UInt16).toNat % 16 = 8 := rfl
  have hmask : ∀ v : UInt16, (v &&& 0xff).toNat = v.toNat % 2 ^ 8 := by
    intro v
    rw [UInt16.toNat_and]
    exact Nat.and_two_pow_sub_one_eq_mod v.toNat 8
  have hlt := word.toNat_lt
  rw [UInt16.toNat_toUInt8, UInt16.toNat_toUInt8, hmask, hmask, UInt16.toNat_shiftRight, height,
    Nat.shiftRight_eq_div_pow]
  omega

/-- The checksum is the complement of the folded sum of all octets; when it is written to its field, which was zero, it
makes the checksum zero. -/
theorem calculateIpChecksum_writeU16 {size : UInt16} {initial : UInt32} {k : ℕ} (hin : b.InBounds d)
    (hstart : b.start ≤ c) (hstop : c + size.toNat ≤ b.stop) (hinitial : initial.toNat < 2 ^ 16) (heven : k % 2 = 0)
    (hfield : k + 2 ≤ size.toNat) (hzero : slice (b.content d.data) (c + k - b.start) 2 = [0, 0])
    (houtside : ∀ j < 2, ¬ (b.zeroAreaStart ≤ c + k + j ∧ c + k + j < b.zeroAreaEnd)) :
    ∃ checksum d', (construct b d c).calculateIpChecksum size initial =
        some (checksum, construct b d (c + size.toNat)) ∧
      (∃ sum, sum.toNat = initial.toNat + wordSum (slice (b.content d.data) (c - b.start) size.toNat) ∧
        checksum = (~~~fold sum).toUInt16) ∧
      (construct b d (c + k)).writeU16 checksum = some (construct b d' (c + k + 2)) ∧
      (construct b d' c).calculateIpChecksum size initial = some (0, construct b d' (c + size.toNat)) ∧
      NeverOverflows b d c size initial ∧ NeverOverflows b d' c size initial := by
  have hbefore := neverOverflows hin hstart hstop hinitial
  obtain ⟨sum, hsum, hvalue⟩ := hbefore.total
  obtain ⟨d₁, hwrite₁, hin₁, hcontent₁⟩ :=
    @writeU8_construct b d (c + k) hin (by omega) (by omega) (houtside 0 (by decide))
      ((~~~fold sum).toUInt16 &&& 0xff).toUInt8
  obtain ⟨d₂, hwrite₂, hin₂, hcontent₂⟩ :=
    @writeU8_construct b d₁ (c + k + 1) hin₁ (by omega) (by omega) (houtside 1 (by decide))
      (((~~~fold sum).toUInt16 >>> 8) &&& 0xff).toUInt8
  have hafter := neverOverflows hin₂ hstart hstop hinitial
  obtain ⟨sum', hsum', hvalue'⟩ := hafter.total
  refine ⟨(~~~fold sum).toUInt16, d₂, ?_, ⟨sum, hvalue, rfl⟩, ?_, ?_, hbefore, hafter⟩
  · simp only [calculateIpChecksum, hsum, Option.bind_eq_bind, Option.bind_some]
  · simp only [writeU16, hwrite₁, hwrite₂, Option.bind_eq_bind, Option.bind_some]
  · have hadded : sum'.toNat = sum.toNat + (~~~fold sum).toUInt16.toNat := by
      have hplace : c + k - b.start - (c - b.start) = k := by omega
      have hplace' : c + k + 1 - b.start - (c - b.start) = k + 1 := by omega
      have hread : ∀ j < 2, (slice (b.content d.data) (c - b.start) size.toNat)[k + j]? = some 0 := by
        intro j hj
        have hoctet := congrArg (fun l : List UInt8 => l[j]?) hzero
        simp only [getElem?_slice hj] at hoctet
        have hj' : c - b.start + (k + j) = c + k - b.start + j := by omega
        have hzeros : (List.replicate 2 (0 : UInt8))[j]? = some 0 := List.getElem?_replicate.trans (if_pos hj)
        rw [getElem?_slice (by omega), hj', hoctet]
        exact hzeros
      rw [hvalue', hvalue, hcontent₂, hcontent₁, slice_set (by omega), slice_set (by omega), hplace, hplace',
        wordSum_set _ _ heven (hread 0 (by decide)) (hread 1 (by decide)), octets_word, Nat.add_assoc]
    simp only [calculateIpChecksum, hsum', Option.bind_eq_bind, Option.bind_some, complement_add hadded]

/-- Four octets in front of a zero area of two, and three behind it: a field is at the offset 2. -/
def aroundZeros : Buffer := ⟨0, 0, 4, 6, 0, 9⟩

/-- The block of `aroundZeros`. -/
def aroundZerosData : Data := ⟨1, 0, 9, [0x45, 0xc0, 0, 0, 0xff, 0xfe, 0x80]⟩

/-- `calculateIpChecksum_writeU16` for an odd number of octets with a zero area among them. -/
theorem calculateIpChecksum_aroundZeros : ∃ checksum d',
    (construct aroundZeros aroundZerosData 0).calculateIpChecksum 9 6 =
      some (checksum, construct aroundZeros aroundZerosData 9) ∧
    (∃ sum : UInt32, sum.toNat = 6 + wordSum (slice (aroundZeros.content aroundZerosData.data) 0 9) ∧
      checksum = (~~~fold sum).toUInt16) ∧
    (construct aroundZeros aroundZerosData 2).writeU16 checksum = some (construct aroundZeros d' 4) ∧
    (construct aroundZeros d' 0).calculateIpChecksum 9 6 = some (0, construct aroundZeros d' 9) ∧
    NeverOverflows aroundZeros aroundZerosData 0 9 6 ∧ NeverOverflows aroundZeros d' 0 9 6 :=
  @calculateIpChecksum_writeU16 aroundZeros aroundZerosData 0 9 6 2
    ⟨⟨by decide, by decide, by decide, by decide⟩, by decide⟩ (by decide) (by decide) (by decide) (by decide)
    (by decide) (by decide) (by decide)

end BlockIterator

end Buffer

end Ns3
