import Ns3.Lib.Octets
import Ns3.Network.BufferSharing

/-!
# Iterators over a block

`Buffer::Iterator` (`network/model/buffer.h`, `buffer.cc`) as it is: a position in a buffer, which an octet is found
by in the block through the offsets of the zero area. `ReadU8` finds each octet on its own; `ReadNtohU16` and
`ReadNtohU32` look once where the word is and read all of it there. A read or a write is `none` where an assertion
fails or the place is outside of the block. Positions are numbers of `uint32_t`.

* `readTimes_construct` — repeated `ReadU8` gives the octets of the buffer.
* `fastReads_iff` — when the words are those that repeated `ReadU8` gives: the displacement of what lies behind the
  zero area is missing in both.
-/

namespace Ns3

open Lib

namespace Buffer

/-- `Buffer::Iterator`, with the block. -/
structure BlockIterator where
  zeroStart : ℕ
  zeroEnd : ℕ
  dataStart : ℕ
  dataEnd : ℕ
  current : ℕ
  /-- What `m_data` points to. -/
  data : List UInt8

namespace BlockIterator

/-- `Construct`, and a position. -/
def construct (b : Buffer) (d : Data) (current : ℕ) : BlockIterator where
  zeroStart := b.zeroAreaStart
  zeroEnd := b.zeroAreaEnd
  dataStart := b.start
  dataEnd := b.stop
  current := current
  data := d.data

/-- `m_current += delta`. -/
def advance (i : BlockIterator) (delta : ℕ) : BlockIterator := { i with current := add32 i.current delta }

/-- Where an octet behind the zero area is. -/
def displaced (i : BlockIterator) : ℕ := sub32 i.current (sub32 i.zeroEnd i.zeroStart)

/-- A byte is read, 0 in the zero area; an assertion keeps the position in the data. -/
def readU8 (i : BlockIterator) : Option (UInt8 × BlockIterator) :=
  if ¬ (i.dataStart ≤ i.current ∧ i.current ≤ i.dataEnd) then none
  else if i.current < i.zeroStart then do
    let data ← i.data[i.current]?
    some (data, i.advance 1)
  else if i.current < i.zeroEnd then some (0, i.advance 1)
  else do
    let data ← i.data[i.displaced]?
    some (data, i.advance 1)

/-- `ReadU8`, `n` times. -/
def readTimes : ℕ → BlockIterator → Option (List UInt8 × BlockIterator)
  | 0, i => some ([], i)
  | n + 1, i => do
    let (data, i) ← i.readU8
    let (rest, i) ← readTimes n i
    some (data :: rest, i)

/-- The octets in a number of 16 bits: `retval |= …; retval <<= 8`. -/
def retval16 (bytes : List UInt8) : UInt16 := bytes.foldl (fun retval byte => retval <<< 8 ||| byte.toUInt16) 0

/-- The octets in a number of 32 bits: `retval |= …; retval <<= 8`. -/
def retval32 (bytes : List UInt8) : UInt32 := bytes.foldl (fun retval byte => retval <<< 8 ||| byte.toUInt32) 0

section

variable {α : Type} (n : ℕ) (retval : List UInt8 → α) (i : BlockIterator)

/-- A word of `n` octets, by as many `ReadU8`. -/
def slowReadNtoh : Option (α × BlockIterator) := do
  let (bytes, i) ← i.readTimes n
  some (retval bytes, i)

/-- A word of `n` octets, from `buffer` on. -/
def readBuffer (buffer : ℕ) : Option (α × BlockIterator) :=
  if buffer + n ≤ i.data.length then some (retval (slice i.data buffer n), i.advance n) else none

/-- A word of `n` octets, with one look at where it is. -/
def readNtoh : Option (α × BlockIterator) :=
  if add32 i.current n ≤ i.zeroStart then readBuffer n retval i i.current
  else if i.zeroEnd ≤ i.current then readBuffer n retval i i.current
  else slowReadNtoh n retval i

end

/-- Byte by byte. -/
def slowReadNtohU16 : BlockIterator → Option (UInt16 × BlockIterator) := slowReadNtoh 2 retval16

/-- Byte by byte. -/
def slowReadNtohU32 : BlockIterator → Option (UInt32 × BlockIterator) := slowReadNtoh 4 retval32

/-- At once where no zero area is near, else byte by byte. -/
def readNtohU16 : BlockIterator → Option (UInt16 × BlockIterator) := readNtoh 2 retval16

/-- At once where no zero area is near, else byte by byte. -/
def readNtohU32 : BlockIterator → Option (UInt32 × BlockIterator) := readNtoh 4 retval32

/-- The loop of `Read (buffer, size)`, from the round `k` on. -/
def readFrom (buffer : List UInt8) (k : ℕ) : ℕ → BlockIterator → Option (List UInt8 × BlockIterator)
  | 0, i => some (buffer, i)
  | n + 1, i => do
    let (data, i) ← i.readU8
    readFrom (buffer.set k data) (k + 1) n i

/-- `Read (buffer, size)`, with what is in `buffer` then. -/
def read (i : BlockIterator) (buffer : List UInt8) (size : ℕ) : Option (List UInt8 × BlockIterator) :=
  readFrom buffer 0 size i

/-! ### Octet by octet -/

end BlockIterator

theorem getElem?_slice {l : List UInt8} {p n k : ℕ} (hk : k < n) : (slice l p n)[k]? = l[p + k]? := by
  rw [slice, List.getElem?_take_of_lt hk, List.getElem?_drop]

/-- Where an octet of a buffer is. -/
theorem Sized.getElem?_content {b : Buffer} {x y z : ℕ} (h : b.Sized x y z) {l : List UInt8}
    (hl : b.start + x + z ≤ l.length) {k : ℕ} (hk : k < x + y + z) :
    (b.content l)[k]? =
      if k < x then l[b.start + k]? else if k < x + y then some 0 else l[b.start + k - y]? := by
  have hfront : (slice l b.start x).length = x := length_slice (by omega)
  rw [h.content_eq]
  split_ifs with h₁ h₂
  · rw [List.getElem?_append_left (by omega), getElem?_slice h₁]
  · rw [List.getElem?_append_right (by omega), hfront, List.getElem?_append_left (by rw [List.length_replicate]; omega),
      List.getElem?_replicate, if_pos (by omega)]
  · rw [List.getElem?_append_right (by omega), hfront,
      List.getElem?_append_right (by rw [List.length_replicate]; omega), List.length_replicate,
      getElem?_slice (by omega)]
    congr 1
    omega

namespace BlockIterator

variable {b : Buffer} {d : Data} {c : ℕ}

theorem advance_construct {n : ℕ} (hin : b.InBounds d) (hstop : c + n ≤ b.stop) :
    (construct b d c).advance n = construct b d (c + n) := by
  have hlt := hin.stop_lt
  have hadd : add32 c n = c + n := add32_of_lt (by omega)
  simp only [advance, construct, hadd]

theorem displaced_construct (hin : b.InBounds d) (hc : b.zeroAreaEnd ≤ c) :
    (construct b d c).displaced = c - (b.zeroAreaEnd - b.zeroAreaStart) := by
  have hsub : sub32 c (b.zeroAreaEnd - b.zeroAreaStart) = c - (b.zeroAreaEnd - b.zeroAreaStart) :=
    sub32_of_le (by omega)
  simp only [displaced, construct, hin.zeroSize_eq, hsub]

/-- `ReadU8` reads the octet of the buffer that is at its position. -/
theorem readU8_construct (hin : b.InBounds d) (hstart : b.start ≤ c) (hstop : c < b.stop) :
    ∃ x, (b.content d.data)[c - b.start]? = some x ∧ (construct b d c).readU8 = some (x, construct b d (c + 1)) := by
  obtain ⟨x, y, z, hb⟩ := hin.exists_sized
  have hl := hin.le_length hb
  obtain ⟨hx, hy, hz⟩ := hb
  have hplace := Sized.getElem?_content ⟨hx, hy, hz⟩ hl (show c - b.start < x + y + z by omega)
  have hnext := advance_construct (n := 1) hin hstop
  have hassert : ¬ ¬ ((construct b d c).dataStart ≤ (construct b d c).current ∧
      (construct b d c).current ≤ (construct b d c).dataEnd) := not_not.mpr ⟨hstart, hstop.le⟩
  rw [hplace, readU8, hnext, if_neg hassert]
  by_cases hbefore : (construct b d c).current < (construct b d c).zeroStart
  · have hbefore' : c < b.zeroAreaStart := hbefore
    have hlt : c < d.data.length := by omega
    have hread : (construct b d c).data[(construct b d c).current]? = some d.data[c] := List.getElem?_eq_getElem hlt
    refine ⟨d.data[c], ?_, ?_⟩
    · rw [if_pos (by omega), Nat.add_sub_cancel' hstart, List.getElem?_eq_getElem hlt]
    · rw [if_pos hbefore, hread]
      rfl
  have hbefore' : ¬ c < b.zeroAreaStart := hbefore
  by_cases hinside : (construct b d c).current < (construct b d c).zeroEnd
  · have hinside' : c < b.zeroAreaEnd := hinside
    refine ⟨0, by rw [if_neg (by omega), if_pos (by omega)], ?_⟩
    rw [if_neg hbefore, if_pos hinside]
  · have hinside' : ¬ c < b.zeroAreaEnd := hinside
    have hdisplaced := displaced_construct hin (Nat.not_lt.mp hinside')
    have hlt : c - (b.zeroAreaEnd - b.zeroAreaStart) < d.data.length := by omega
    have hread : (construct b d c).data[(construct b d c).displaced]? =
        some d.data[c - (b.zeroAreaEnd - b.zeroAreaStart)] := by
      rw [hdisplaced]
      exact List.getElem?_eq_getElem hlt
    refine ⟨d.data[c - (b.zeroAreaEnd - b.zeroAreaStart)], ?_, ?_⟩
    · rw [if_neg (by omega), if_neg (by omega), ← List.getElem?_eq_getElem hlt]
      congr 1
      omega
    · rw [if_neg hbefore, if_neg hinside, hread]
      rfl

/-- Repeated `ReadU8` reads the octets of the buffer from its position on. -/
theorem readTimes_construct (hin : b.InBounds d) {n : ℕ} (hstart : b.start ≤ c) (hstop : c + n ≤ b.stop) :
    readTimes n (construct b d c) = some (slice (b.content d.data) (c - b.start) n, construct b d (c + n)) := by
  induction n generalizing c with
  | zero => rw [readTimes, slice_zero, Nat.add_zero]
  | succ n ih =>
    obtain ⟨x, hx, hread⟩ := readU8_construct hin hstart (by omega)
    have hrest := @ih (c + 1) (by omega) (by omega)
    have hslice : slice (b.content d.data) (c - b.start) (n + 1) =
        x :: slice (b.content d.data) (c + 1 - b.start) n := by
      have hlen : c - b.start < (b.content d.data).length := (List.getElem?_eq_some_iff.mp hx).1
      rw [slice, List.drop_eq_getElem_cons hlen, List.take_succ_cons, (List.getElem?_eq_some_iff.mp hx).2,
        ← Nat.sub_add_comm hstart]
      rfl
    rw [readTimes, hread, hslice]
    simp only [Option.bind_eq_bind, Option.bind_some, hrest]
    rw [Nat.add_assoc, Nat.add_comm 1 n]

/-! ### `Read (buffer, size)` -/

theorem readFrom_eq {n k : ℕ} {i i' : BlockIterator} {buffer bytes : List UInt8}
    (hread : readTimes n i = some (bytes, i')) (hlen : k + n ≤ buffer.length) :
    readFrom buffer k n i = some (buffer.take k ++ (bytes ++ buffer.drop (k + n)), i') := by
  induction n generalizing i buffer bytes k with
  | zero =>
    obtain ⟨rfl, rfl⟩ := Prod.mk.inj (Option.some.inj hread)
    rw [readFrom, Nat.add_zero, List.nil_append, List.take_append_drop]
  | succ n ih =>
    rw [readTimes] at hread
    simp only [Option.bind_eq_bind, Option.bind_eq_some_iff, Option.some.injEq, Prod.mk.injEq, Prod.exists] at hread
    obtain ⟨x, i₁, hx, rest, i₂, hrest, rfl, rfl⟩ := hread
    have hset : (buffer.set k x).take (k + 1) = buffer.take k ++ [x] := by
      rw [List.take_set, List.take_succ_eq_append_getElem (by omega), List.set_append_right _ _ (by simp),
        List.length_take_of_le (by omega), Nat.sub_self, List.set_cons_zero]
    have hdrop : (buffer.set k x).drop (k + 1 + n) = buffer.drop (k + (n + 1)) := by
      rw [List.drop_set_of_lt (by omega), Nat.add_assoc, Nat.add_comm 1 n]
    rw [readFrom, hx]
    simp only [Option.bind_eq_bind, Option.bind_some]
    rw [ih hrest (by rw [List.length_set]; omega), hset, hdrop, List.append_assoc]
    rfl

theorem read_eq {size : ℕ} {i i' : BlockIterator} {buffer bytes : List UInt8}
    (hread : readTimes size i = some (bytes, i')) (hlen : size ≤ buffer.length) :
    i.read buffer size = some (bytes ++ buffer.drop size, i') := by
  rw [read, readFrom_eq hread (by omega), List.take_zero, List.nil_append, Nat.zero_add]

/-! ### Words -/

theorem toNat_push16 (v : UInt16) (byte : UInt8) (hv : v.toNat < 256 ^ 1) :
    (v <<< 8 ||| byte.toUInt16).toNat = v.toNat * 256 + byte.toNat := by
  have hmod : v.toNat <<< 8 % 2 ^ 16 = v.toNat <<< 8 := by
    rw [Nat.shiftLeft_eq]
    exact Nat.mod_eq_of_lt (by omega)
  have height : (8 : UInt16).toNat % 16 = 8 := rfl
  rw [UInt16.toNat_or, UInt16.toNat_shiftLeft, height, hmod, UInt8.toNat_toUInt16,
    ← Nat.shiftLeft_add_eq_or_of_lt byte.toNat_lt, Nat.shiftLeft_eq]

theorem toNat_push32 (v : UInt32) (byte : UInt8) (hv : v.toNat < 256 ^ 3) :
    (v <<< 8 ||| byte.toUInt32).toNat = v.toNat * 256 + byte.toNat := by
  have hmod : v.toNat <<< 8 % 2 ^ 32 = v.toNat <<< 8 := by
    rw [Nat.shiftLeft_eq]
    exact Nat.mod_eq_of_lt (by omega)
  have height : (8 : UInt32).toNat % 32 = 8 := rfl
  rw [UInt32.toNat_or, UInt32.toNat_shiftLeft, height, hmod, UInt8.toNat_toUInt32,
    ← Nat.shiftLeft_add_eq_or_of_lt byte.toNat_lt, Nat.shiftLeft_eq]

variable {bytes : List UInt8}

theorem toNat_retval16 (hlen : bytes.length = 2) : (retval16 bytes).toNat = ofBigEndian bytes := by
  have h := @toNat_foldl_octets _ UInt16.toNat _ 1 toNat_push16 bytes 0 0 (by decide) (by omega)
  rwa [UInt16.toNat_zero, Nat.zero_mul, Nat.zero_add] at h

theorem toNat_retval32 (hlen : bytes.length = 4) : (retval32 bytes).toNat = ofBigEndian bytes := by
  have h := @toNat_foldl_octets _ UInt32.toNat _ 3 toNat_push32 bytes 0 0 (by decide) (by omega)
  rwa [UInt32.toNat_zero, Nat.zero_mul, Nat.zero_add] at h

theorem slice_content_before (hin : b.InBounds d) {n : ℕ} (hstart : b.start ≤ c) (hstop : c + n ≤ b.zeroAreaStart) :
    slice (b.content d.data) (c - b.start) n = slice d.data c n := by
  obtain ⟨x, y, z, hb⟩ := hin.exists_sized
  have hl := hin.le_length hb
  have hx := hb.zeroAreaStart_eq
  have hlen : (slice d.data b.start x).length = x := length_slice (by omega)
  rw [hb.content_eq, slice_append_of_le (by omega), slice, drop_slice, take_slice, Nat.min_eq_left (by omega)]
  exact slice_congr rfl (by omega)

/-- The octets behind the zero area. -/
theorem slice_content_behind (hin : b.InBounds d) {n : ℕ} (hstart : b.zeroAreaEnd ≤ c) (hstop : c + n ≤ b.stop) :
    slice (b.content d.data) (c - b.start) n = slice d.data (c - (b.zeroAreaEnd - b.zeroAreaStart)) n := by
  obtain ⟨x, y, z, hb⟩ := hin.exists_sized
  have hl := hin.le_length hb
  have hdrop := hb.drop_content hl (c - b.start)
  obtain ⟨hx, hy, hz⟩ := hb
  have hfront : x - (c - b.start) = 0 := by omega
  have hzeros : y - (c - b.start - x) = 0 := by omega
  rw [hfront, hzeros, slice_zero, List.replicate_zero, List.nil_append, List.nil_append] at hdrop
  rw [slice, hdrop, take_slice, Nat.min_eq_left (by omega)]
  exact slice_congr rfl (by omega)

/-- The word at `c` in the block is the word that is at `c` in the buffer. -/
def SameAt (b : Buffer) (d : Data) (c n : ℕ) : Prop :=
  c + n ≤ d.data.length ∧ slice d.data c n = slice d.data (c - (b.zeroAreaEnd - b.zeroAreaStart)) n

/-- A word is what repeated `ReadU8` gives, and as many positions are passed. -/
def ReadsWord {α : Type} (n : ℕ) (value : List UInt8 → α) (i : BlockIterator)
    (word : Option (α × BlockIterator)) : Prop :=
  ∃ bytes i', readTimes n i = some (bytes, i') ∧ word = some (value bytes, i')

theorem readsWord_readNtoh_iff {α : Type} {retval : List UInt8 → α} {n : ℕ} (hn : 0 < n)
    (hinj : ∀ l l', l.length = n → l'.length = n → retval l = retval l' → l = l') (hin : b.InBounds d)
    (hstart : b.start ≤ c) (hstop : c + n ≤ b.stop) :
    ReadsWord n retval (construct b d c) (readNtoh n retval (construct b d c)) ↔
      c < b.zeroAreaEnd ∨ SameAt b d c n := by
  have hread := readTimes_construct hin hstart hstop
  have hadd : add32 c n = c + n := add32_of_lt (by have := hin.stop_lt; omega)
  have hadvance := advance_construct hin hstop
  have hinternal := hin.internalEnd_le
  rw [Data.size] at hinternal
  have hreads : ∀ word, ReadsWord n retval (construct b d c) word ↔
      word = some (retval (slice (b.content d.data) (c - b.start) n), construct b d (c + n)) := by
    intro word
    rw [ReadsWord, hread]
    constructor
    · rintro ⟨bytes, i', h, rfl⟩
      obtain ⟨rfl, rfl⟩ := Prod.mk.inj (Option.some.inj h)
      rfl
    · rintro rfl
      exact ⟨_, _, rfl, rfl⟩
  rw [hreads]
  obtain ⟨h₁, h₂, h₃, h₄⟩ := hin.toOrdered
  rw [readNtoh]
  by_cases hbefore : add32 (construct b d c).current n ≤ (construct b d c).zeroStart
  · have hbefore' : c + n ≤ b.zeroAreaStart := hadd ▸ hbefore
    have hlen : (construct b d c).current + n ≤ (construct b d c).data.length :=
      show c + n ≤ d.data.length by omega
    rw [if_pos hbefore, readBuffer, if_pos hlen, slice_content_before hin hstart hbefore', hadvance]
    exact iff_of_true rfl (.inl (by omega))
  have hbefore' : ¬ c + n ≤ b.zeroAreaStart := fun h => hbefore (hadd.symm ▸ h)
  rw [if_neg hbefore]
  by_cases hbehind : (construct b d c).zeroEnd ≤ (construct b d c).current
  · have hbehind' : b.zeroAreaEnd ≤ c := hbehind
    have hlen : (slice d.data (c - (b.zeroAreaEnd - b.zeroAreaStart)) n).length = n := length_slice (by omega)
    rw [if_pos hbehind, readBuffer, slice_content_behind hin hbehind' hstop, hadvance]
    constructor
    · intro hword
      split_ifs at hword with hroom
      have hroom' : c + n ≤ d.data.length := hroom
      exact .inr ⟨hroom', hinj _ _ (length_slice hroom') hlen (Prod.mk.inj (Option.some.inj hword)).1⟩
    · rintro (hlt | ⟨hroom, hsame⟩)
      · exact absurd hlt (Nat.not_lt.mpr hbehind')
      · rw [← hsame]
        exact if_pos hroom
  · have hbehind' : ¬ b.zeroAreaEnd ≤ c := hbehind
    rw [if_neg hbehind, slowReadNtoh, hread]
    exact iff_of_true rfl (.inl (Nat.not_le.mp hbehind'))

theorem retval16_inj (l l' : List UInt8) (hl : l.length = 2) (hl' : l'.length = 2) (h : retval16 l = retval16 l') :
    l = l' :=
  ofBigEndian_inj (hl.trans hl'.symm) (by rw [← toNat_retval16 hl, ← toNat_retval16 hl', h])

theorem retval32_inj (l l' : List UInt8) (hl : l.length = 4) (hl' : l'.length = 4) (h : retval32 l = retval32 l') :
    l = l' :=
  ofBigEndian_inj (hl.trans hl'.symm) (by rw [← toNat_retval32 hl, ← toNat_retval32 hl', h])

/-- The words are the big-endian values of what repeated `ReadU8` gives, and `Read` fills a buffer with it, where there
are octets enough. -/
structure FastReads (b : Buffer) (d : Data) (c : ℕ) : Prop where
  /-- `ReadNtohU16`. -/
  u16 : c + 2 ≤ b.stop → ReadsWord 2 (fun bytes => UInt16.ofNat (ofBigEndian bytes)) (construct b d c)
    (construct b d c).readNtohU16
  /-- `ReadNtohU32`. -/
  u32 : c + 4 ≤ b.stop → ReadsWord 4 (fun bytes => UInt32.ofNat (ofBigEndian bytes)) (construct b d c)
    (construct b d c).readNtohU32
  /-- `Read`. -/
  buffer : ∀ size buffer, c + size ≤ b.stop → size ≤ buffer.length →
    ReadsWord size (fun bytes => bytes ++ buffer.drop size) (construct b d c) ((construct b d c).read buffer size)

theorem length_readTimes {n : ℕ} {i i' : BlockIterator} (h : readTimes n i = some (bytes, i')) : bytes.length = n := by
  induction n generalizing i i' bytes with
  | zero =>
    obtain ⟨rfl, -⟩ := Prod.mk.inj (Option.some.inj h)
    rfl
  | succ n ih =>
    rw [readTimes] at h
    simp only [Option.bind_eq_bind, Option.bind_eq_some_iff, Option.some.injEq, Prod.mk.injEq, Prod.exists] at h
    obtain ⟨x, i₁, -, rest, i₂, hrest, rfl, -⟩ := h
    exact congrArg Nat.succ (ih hrest)

theorem readsWord_congr {α : Type} {value value' : List UInt8 → α} {n : ℕ} {i : BlockIterator}
    {word : Option (α × BlockIterator)} (hvalue : ∀ l, l.length = n → value l = value' l) :
    ReadsWord n value i word ↔ ReadsWord n value' i word := by
  constructor
  · rintro ⟨bytes, i', hread, rfl⟩
    exact ⟨bytes, i', hread, by rw [hvalue bytes (length_readTimes hread)]⟩
  · rintro ⟨bytes, i', hread, rfl⟩
    exact ⟨bytes, i', hread, by rw [hvalue bytes (length_readTimes hread)]⟩

theorem value16_eq (bytes : List UInt8) (hlen : bytes.length = 2) :
    UInt16.ofNat (ofBigEndian bytes) = retval16 bytes := by
  rw [← toNat_retval16 hlen, UInt16.ofNat_toNat]

theorem value32_eq (bytes : List UInt8) (hlen : bytes.length = 4) :
    UInt32.ofNat (ofBigEndian bytes) = retval32 bytes := by
  rw [← toNat_retval32 hlen, UInt32.ofNat_toNat]

/-- Fast reads are what repeated `ReadU8` gives before the end of the zero area. From there on it is so exactly if the
block happens to hold the same words at both places. -/
theorem fastReads_iff (hin : b.InBounds d) (hstart : b.start ≤ c) :
    FastReads b d c ↔
      c < b.zeroAreaEnd ∨ (c + 2 ≤ b.stop → SameAt b d c 2) ∧ (c + 4 ≤ b.stop → SameAt b d c 4) := by
  have h16 : ∀ hstop : c + 2 ≤ b.stop, ReadsWord 2 (fun bytes => UInt16.ofNat (ofBigEndian bytes)) (construct b d c)
      (construct b d c).readNtohU16 ↔ c < b.zeroAreaEnd ∨ SameAt b d c 2 := by
    intro hstop
    exact (readsWord_congr value16_eq).trans (readsWord_readNtoh_iff (by decide) retval16_inj hin hstart hstop)
  have h32 : ∀ hstop : c + 4 ≤ b.stop, ReadsWord 4 (fun bytes => UInt32.ofNat (ofBigEndian bytes)) (construct b d c)
      (construct b d c).readNtohU32 ↔ c < b.zeroAreaEnd ∨ SameAt b d c 4 := by
    intro hstop
    exact (readsWord_congr value32_eq).trans (readsWord_readNtoh_iff (by decide) retval32_inj hin hstart hstop)
  constructor
  · rintro ⟨hu16, hu32, -⟩
    by_cases hc : c < b.zeroAreaEnd
    · exact .inl hc
    · exact .inr ⟨fun hstop => ((h16 hstop).mp (hu16 hstop)).resolve_left hc,
        fun hstop => ((h32 hstop).mp (hu32 hstop)).resolve_left hc⟩
  · intro h
    refine ⟨fun hstop => (h16 hstop).mpr (h.imp_right fun h => h.1 hstop),
      fun hstop => (h32 hstop).mpr (h.imp_right fun h => h.2 hstop), fun size buffer hstop hlen => ?_⟩
    have hread := readTimes_construct hin hstart hstop
    exact ⟨_, _, hread, read_eq hread hlen⟩

/-- A buffer of four zeros, and two octets behind them. -/
def behindZeros : Buffer := ⟨0, 0, 0, 4, 0, 6⟩

/-- The block of `behindZeros`. -/
def behindZerosData : Data := ⟨1, 0, 6, [7, 8]⟩

theorem inBounds_behindZeros : behindZeros.InBounds behindZerosData :=
  ⟨⟨by decide, by decide, by decide, by decide⟩, by decide⟩

/-- `fastReads_iff` in the middle of the zeros, where the words are read octet by octet. -/
theorem fastReads_inside : FastReads behindZeros behindZerosData 2 :=
  (fastReads_iff inBounds_behindZeros (by decide)).mpr (.inl (by decide))

/-- The two octets behind the zeros are read outside of the block. -/
theorem not_fastReads_behind : ¬ FastReads behindZeros behindZerosData 4 := by
  intro h
  obtain ⟨bytes, i', -, hword⟩ := h.u16 (by decide)
  have hnone : (construct behindZeros behindZerosData 4).readNtohU16 = none := by decide
  exact Option.some_ne_none _ (hword.symm.trans hnone)

end BlockIterator

end Buffer

end Ns3
