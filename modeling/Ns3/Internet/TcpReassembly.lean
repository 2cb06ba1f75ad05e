import Ns3.Internet.TcpBuffers
import Ns3.Lib.Block
import Ns3.Lib.Spans
import Ns3.Network.SequenceNumberOrder
import Mathlib.Data.List.Forall2
import Mathlib.Data.List.Infix

/-!
# The receive buffer puts a stream together

`TcpRxBuffer` (`internet/model/tcp-rx-buffer.cc`) over a stream of fewer than 2^31 bytes, which segments are cut from in
any way. A block stored is a span of places of the stream; the loops of `Add` and `Extract` over the blocks are `put`,
`trim`, `reach` and `removeFirst` over the spans, as the comparison of sequence numbers is that of the places.
-/

namespace Ns3

open Lib Lib.Span

/-! ### Places and their sequence numbers -/

/-- The sequence number of a place of the stream, whose first byte has `isn`. -/
def seqOf (isn : UInt32) (p : ℕ) : SequenceNumber32 := (SequenceNumber32.ofUInt32 isn).plus (.ofNat p)

section Places

variable (isn : UInt32)

theorem toNat_value_seqOf (p : ℕ) : (seqOf isn p).value.toNat = (isn.toNat + p) % 2 ^ 32 := by
  rw [seqOf, SequenceNumber32.plus, SequenceNumber.add, SequenceNumber32.ofUInt32, BitVec.toNat_add]
  simp only [UInt32.toNat_toBitVec, UInt32.toNat_ofNat', Nat.add_mod_mod]

theorem seqOf_plus (p n : ℕ) : (seqOf isn p).plus (.ofNat n) = seqOf isn (p + n) := by
  simp only [seqOf, SequenceNumber32.plus, SequenceNumber.add, UInt32.ofNat_add, UInt32.toBitVec_add, BitVec.add_assoc]

/-- Fewer than 2^31 places apart. -/
def Near (p q : ℕ) : Prop := p < q + 2 ^ 31 ∧ q < p + 2 ^ 31

variable {isn} {p q : ℕ}

theorem gt_seqOf (h : Near p q) : (seqOf isn p).gt (seqOf isn q) = decide (q < p) := by
  obtain ⟨hp, hq⟩ := h
  have hhalf : SequenceNumber.halfMaxValue 32 = 0x7fffffff#32 := by decide
  have hpv := toNat_value_seqOf isn p
  have hqv := toNat_value_seqOf isn q
  rw [SequenceNumber.gt, hhalf, Bool.eq_iff_iff]
  simp only [Bool.or_eq_true, Bool.and_eq_true, decide_eq_true_eq, BitVec.lt_def, BitVec.le_def, gt_iff_lt,
    BitVec.toNat_sub, BitVec.toNat_ofNat, hpv, hqv]
  omega

theorem seqOf_inj (h : Near p q) : seqOf isn p = seqOf isn q ↔ p = q := by
  obtain ⟨hp, hq⟩ := h
  refine ⟨fun heq => ?_, fun heq => by rw [heq]⟩
  have hvalue := congrArg (fun s => s.value.toNat) heq
  simp only [toNat_value_seqOf] at hvalue
  omega

theorem lt_seqOf (h : Near p q) : (seqOf isn p).lt (seqOf isn q) = decide (p < q) := by
  rw [SequenceNumber.lt, gt_seqOf h, Bool.eq_iff_iff]
  simp only [Bool.and_eq_true, Bool.not_eq_true', decide_eq_false_iff_not, decide_eq_true_eq, ne_eq, seqOf_inj h]
  omega

theorem le_seqOf (h : Near p q) : (seqOf isn p).le (seqOf isn q) = decide (p ≤ q) := by
  rw [SequenceNumber.le, gt_seqOf h, Bool.eq_iff_iff]
  simp only [Bool.not_eq_true', decide_eq_false_iff_not, decide_eq_true_eq, Nat.not_lt]

theorem ge_seqOf (h : Near p q) : (seqOf isn p).ge (seqOf isn q) = decide (q ≤ p) := by
  rw [SequenceNumber.ge, gt_seqOf h, Bool.eq_iff_iff]
  simp only [Bool.or_eq_true, decide_eq_true_eq, seqOf_inj h]
  omega

theorem seqOf_add_period (p : ℕ) : seqOf isn (p + 2 ^ 32) = seqOf isn p := by
  rw [← seqOf_plus, show UInt32.ofNat (2 ^ 32) = 0 from rfl, SequenceNumber32.plus, SequenceNumber.add]
  exact congrArg _ (BitVec.add_zero _)

theorem seqOf_zero : seqOf isn 0 = .ofUInt32 isn := congrArg _ (BitVec.add_zero _)

theorem minus_seqOf (h : q ≤ p) : (seqOf isn p).minus (seqOf isn q) = .ofNat (p - q) := by
  have hpv := toNat_value_seqOf isn p
  have hqv := toNat_value_seqOf isn q
  refine UInt32.toNat_inj.mp ?_
  rw [SequenceNumber32.minus, SequenceNumber.sub_eq, UInt32.toNat_ofNat', UInt32.toNat_ofBitVec, BitVec.toNat_sub, hpv,
    hqv]
  omega

end Places

/-! ### The loops over the blocks -/

namespace TcpRxBuffer

section Loops

/-- The place is one of the 2^31 from `m` on. -/
def InWindow (m p : ℕ) : Prop := m ≤ p ∧ p < m + 2 ^ 31

theorem InWindow.near {m p q : ℕ} (hp : InWindow m p) (hq : InWindow m q) : Near p q := by
  rw [InWindow] at hp hq
  exact ⟨by omega, by omega⟩

/-- The spans lie within the 2^31 places from `m` on. -/
def Inside (m : ℕ) (l : List Span) : Prop := ∀ x ∈ l, InWindow m x.first ∧ InWindow m x.stop

theorem inside_cons {m : ℕ} {x : Span} {l : List Span} :
    Inside m (x :: l) ↔ (InWindow m x.first ∧ InWindow m x.stop) ∧ Inside m l := List.forall_mem_cons

variable {isn : UInt32} {R : SequenceNumber32 × List UInt8 → Span → Prop}
  {data : List (SequenceNumber32 × List UInt8)} {l : List Span} {m : ℕ}

/-- Blocks that belong to spans have their places. -/
def Measures (isn : UInt32) (R : SequenceNumber32 × List UInt8 → Span → Prop) : Prop :=
  ∀ d x, R d x → d.1 = seqOf isn x.first ∧ packetSize d.2 = .ofNat x.length

theorem insert_rel (hR : Measures isn R) {x : Span} {p : List UInt8} (hx : R (seqOf isn x.first, p) x)
    (hl : Inside m (x :: l)) (h : List.Forall₂ R data l) :
    List.Forall₂ R (insert (seqOf isn x.first) p data) (put x l) := by
  obtain ⟨⟨hxf, hxs⟩, hl⟩ := inside_cons.mp hl
  induction h with
  | nil => exact .cons hx .nil
  | @cons d y data l hd h ih =>
    obtain ⟨k, q⟩ := d
    obtain ⟨⟨hyf, -⟩, hrest⟩ := inside_cons.mp hl
    obtain ⟨hkey, -⟩ := hR _ _ hd
    dsimp only at hkey
    subst hkey
    rw [insert, lt_seqOf (hxf.near hyf), lt_seqOf (hyf.near hxf), put]
    simp only [decide_eq_true_eq]
    split_ifs with h₁ h₂
    · exact .cons hx (.cons hd h)
    · exact .cons hd (ih (inside_cons.mpr ⟨⟨hxf, hxs⟩, hrest⟩) hrest)
    · rw [show y.first = x.first by omega]
      exact .cons hx h

theorem removeOverlap_rel (hR : Measures isn R) (h : List.Forall₂ R data l) (hl : Inside m l) {head tail : ℕ}
    (hhead : InWindow m head) (htail : InWindow m tail) :
    ∃ kept, removeOverlap (seqOf isn head) (seqOf isn tail) data =
        (kept, .ofNat (trim head tail l).2.1, seqOf isn (trim head tail l).2.2.1, seqOf isn (trim head tail l).2.2.2) ∧
      List.Forall₂ R kept (trim head tail l).1 := by
  induction h generalizing head tail with
  | nil => exact ⟨[], rfl, .nil⟩
  | @cons d x data l hd h ih =>
    obtain ⟨k, q⟩ := d
    obtain ⟨⟨hxf, hxs⟩, hrest⟩ := inside_cons.mp hl
    obtain ⟨hkey, hsize⟩ := hR _ _ hd
    dsimp only at hkey hsize
    subst hkey
    have hlast : (seqOf isn x.first).plus (packetSize q) = seqOf isn x.stop := by rw [hsize, seqOf_plus, stop]
    rw [removeOverlap, trim]
    simp only [hlast, le_seqOf (hxf.near htail), gt_seqOf (hxs.near hhead), gt_seqOf (hxf.near hhead),
      lt_seqOf (hxs.near htail), le_seqOf (hxf.near hhead), ge_seqOf (hxs.near htail), decide_eq_true_eq,
      Bool.and_eq_true]
    by_cases h₁ : tail < x.first
    · rw [if_neg (Nat.not_le.mpr h₁), if_pos h₁]
      exact ⟨_, rfl, .cons hd h⟩
    rw [if_pos (Nat.not_lt.mp h₁), if_neg h₁]
    by_cases h₂ : x.stop ≤ head
    · obtain ⟨kept, heq, hkept⟩ := ih hrest hhead htail
      rw [if_neg (Nat.not_lt.mpr h₂), if_pos h₂, heq]
      exact ⟨_, rfl, .cons hd hkept⟩
    rw [if_pos (Nat.not_le.mp h₂), if_neg h₂]
    by_cases h₃ : head < x.first ∧ x.stop < tail
    · obtain ⟨kept, heq, hkept⟩ := ih hrest hhead htail
      rw [if_pos h₃, if_pos h₃, heq, hsize]
      dsimp only
      rw [← UInt32.ofNat_add]
      exact ⟨_, rfl, hkept⟩
    · have hhead' : InWindow m (if x.first ≤ head then x.stop else head) := by
        split_ifs
        · exact hxs
        · exact hhead
      have htail' : InWindow m (if tail ≤ x.stop then x.first else tail) := by
        split_ifs
        · exact hxf
        · exact htail
      obtain ⟨kept, heq, hkept⟩ := ih hrest hhead' htail'
      rw [if_neg h₃, if_neg h₃, ← apply_ite (seqOf isn), ← apply_ite (seqOf isn), heq]
      exact ⟨_, rfl, .cons hd hkept⟩

theorem advance_rel (hR : Measures isn R) (h : List.Forall₂ R data l) (hl : Inside m l) {n : ℕ} (hn : InWindow m n)
    (availBytes : UInt32) :
    advance (seqOf isn n) availBytes data = (seqOf isn (reach n l), availBytes + .ofNat (reach n l - n)) := by
  induction h generalizing n availBytes with
  | nil => rw [advance, reach, Nat.sub_self, show UInt32.ofNat 0 = 0 from rfl, UInt32.add_zero]
  | @cons d x data l hd h ih =>
    obtain ⟨k, q⟩ := d
    obtain ⟨⟨hxf, hxs⟩, hrest⟩ := inside_cons.mp hl
    obtain ⟨hkey, hsize⟩ := hR _ _ hd
    dsimp only at hkey hsize
    subst hkey
    rw [advance, lt_seqOf (hxf.near hn), gt_seqOf (hxf.near hn), reach]
    simp only [decide_eq_true_eq]
    split_ifs with h₁ h₂
    · exact ih hrest hn availBytes
    · rw [Nat.sub_self, show UInt32.ofNat 0 = 0 from rfl, UInt32.add_zero]
    · have hfirst : x.first = n := by omega
      have hle := le_reach x.stop l
      have hsplit : reach x.stop l - n = x.length + (reach x.stop l - x.stop) := by
        rw [stop] at hle ⊢
        omega
      rw [hsize, seqOf_plus, ← stop, ih hrest hxs, hsplit, UInt32.ofNat_add, UInt32.add_assoc]

end Loops

section Blocks

/-- What is stored for a span. -/
def block (isn : UInt32) (stream : List UInt8) (x : Span) : SequenceNumber32 × List UInt8 :=
  (seqOf isn x.first, slice stream x.first x.length)

variable (isn : UInt32) {stream : List UInt8}

/-- The spans lie in the stream. -/
def Within (stream : List UInt8) (l : List Span) : Prop := ∀ x ∈ l, x.stop ≤ stream.length

theorem within_cons {x : Span} {l : List Span} :
    Within stream (x :: l) ↔ x.stop ≤ stream.length ∧ Within stream l := List.forall_mem_cons

theorem near_of_le (hlen : stream.length < 2 ^ 31) {p q : ℕ} (hp : p ≤ stream.length) (hq : q ≤ stream.length) :
    Near p q := ⟨by omega, by omega⟩

theorem packetSize_slice {x : Span} (hx : x.stop ≤ stream.length) :
    packetSize (slice stream x.first x.length) = .ofNat x.length := by
  rw [packetSize, length_slice hx]

theorem inWindow_of_le (hlen : stream.length < 2 ^ 31) {p : ℕ} (hp : p ≤ stream.length) : InWindow 0 p :=
  ⟨Nat.zero_le p, by omega⟩

theorem inside_of_within (hlen : stream.length < 2 ^ 31) {l : List Span} (hl : Within stream l) : Inside 0 l :=
  fun x hx => ⟨inWindow_of_le hlen (Nat.le_trans x.first_le_stop (hl x hx)), inWindow_of_le hlen (hl x hx)⟩

theorem measures_block :
    Measures isn fun d x => d = block isn stream x ∧ x.stop ≤ stream.length := by
  rintro d x ⟨rfl, hx⟩
  exact ⟨rfl, packetSize_slice hx⟩

theorem forall₂_block_iff {data : List (SequenceNumber32 × List UInt8)} {l : List Span} :
    List.Forall₂ (fun d x => d = block isn stream x ∧ x.stop ≤ stream.length) data l ↔
      data = l.map (block isn stream) ∧ Within stream l := by
  induction l generalizing data with
  | nil =>
    rw [List.forall₂_nil_right_iff]
    exact ⟨fun h => ⟨h, fun x hx => absurd hx List.not_mem_nil⟩, And.left⟩
  | cons x l ih =>
    rw [List.forall₂_cons_right_iff, within_cons, List.map_cons]
    constructor
    · rintro ⟨d, data, ⟨rfl, hx⟩, h, rfl⟩
      obtain ⟨rfl, hl⟩ := ih.mp h
      exact ⟨rfl, hx, hl⟩
    · rintro ⟨rfl, hx, hl⟩
      exact ⟨_, _, ⟨rfl, hx⟩, ih.mpr ⟨rfl, hl⟩, rfl⟩

theorem createFragment_slice {first length start n : ℕ} (h : start + n ≤ length) (hlength : length < 2 ^ 32) :
    createFragment (slice stream first length) (.ofNat start) (.ofNat n) = slice stream (first + start) n := by
  rw [createFragment, UInt32.toNat_ofNat', UInt32.toNat_ofNat', Nat.mod_eq_of_lt (by omega),
    Nat.mod_eq_of_lt (by omega), drop_slice, take_slice, Nat.min_eq_left (by omega)]

section

variable (hlen : stream.length < 2 ^ 31)
include hlen

theorem insert_block {x : Span} (hx : x.stop ≤ stream.length) {l : List Span}
    (hl : Within stream l) : insert (seqOf isn x.first) (slice stream x.first x.length) (l.map (block isn stream)) =
      (put x l).map (block isn stream) :=
  ((forall₂_block_iff isn).mp (insert_rel (measures_block isn) ⟨rfl, hx⟩
    (inside_of_within hlen (within_cons.mpr ⟨hx, hl⟩)) ((forall₂_block_iff isn).mpr ⟨rfl, hl⟩))).1

theorem removeOverlap_block {l : List Span} (hl : Within stream l) {head tail : ℕ}
    (hhead : head ≤ stream.length) (htail : tail ≤ stream.length) :
    removeOverlap (seqOf isn head) (seqOf isn tail) (l.map (block isn stream)) =
      ((trim head tail l).1.map (block isn stream), .ofNat (trim head tail l).2.1, seqOf isn (trim head tail l).2.2.1,
        seqOf isn (trim head tail l).2.2.2) := by
  obtain ⟨kept, heq, hkept⟩ := removeOverlap_rel (measures_block isn) ((forall₂_block_iff isn).mpr ⟨rfl, hl⟩)
    (inside_of_within hlen hl) (inWindow_of_le hlen hhead) (inWindow_of_le hlen htail)
  rw [heq, ((forall₂_block_iff isn).mp hkept).1]

theorem advance_block {l : List Span} (hl : Within stream l) {n : ℕ}
    (hn : n ≤ stream.length) (availBytes : UInt32) :
    advance (seqOf isn n) availBytes (l.map (block isn stream)) =
      (seqOf isn (reach n l), availBytes + .ofNat (reach n l - n)) :=
  advance_rel (measures_block isn) ((forall₂_block_iff isn).mpr ⟨rfl, hl⟩) (inside_of_within hlen hl)
    (inWindow_of_le hlen hn) availBytes

theorem take_block {e k : ℕ} {l : List Span} (h : InOrder l) (hl : Within stream l)
    (hfrom : ∀ x ∈ l, e ≤ x.first) (hcovers : ∀ p, e ≤ p → p < e + k → Covers l p) (hk : k < 2 ^ 32) :
    take (l.map (block isn stream)) (.ofNat k) = (slice stream e k, (removeFirst k l).map (block isn stream)) := by
  induction l generalizing e k with
  | nil =>
    have hk : k = 0 := by
      by_contra hk
      exact not_covers_nil e (hcovers e (Nat.le_refl e) (by omega))
    rw [hk, List.map_nil, take, slice_zero, removeFirst, List.map_nil]
  | cons x l ih =>
    obtain ⟨hx, hrest⟩ := within_cons.mp hl
    obtain ⟨hbehind, hin⟩ := inOrder_cons.mp h
    rw [List.map_cons, block, take, removeFirst, packetSize_slice hx]
    by_cases hzero : k = 0
    · rw [hzero, if_pos (show UInt32.ofNat 0 = 0 from rfl), if_pos rfl, slice_zero]
      rfl
    have hxlen : x.length ≤ stream.length := Nat.le_trans (Nat.le_add_left _ _) hx
    have hne : ¬ UInt32.ofNat k = 0 := by
      rw [← UInt32.toNat_inj, UInt32.toNat_ofNat', Nat.mod_eq_of_lt hk]
      exact hzero
    have hle : UInt32.ofNat x.length ≤ .ofNat k ↔ x.length ≤ k := by
      rw [UInt32.le_iff_toNat_le, UInt32.toNat_ofNat', UInt32.toNat_ofNat', Nat.mod_eq_of_lt hk,
        Nat.mod_eq_of_lt (by omega)]
    obtain ⟨hfirst, hon⟩ := covers_from h hfrom hcovers (Nat.pos_of_ne_zero hzero)
    rw [if_neg hne, if_neg hzero]
    by_cases hwhole : x.length ≤ k
    · have hrow : ∀ y ∈ l, e + x.length ≤ y.first := by
        intro y hy
        have := (hbehind y hy).2
        have := hfrom y (List.mem_cons_of_mem _ hy)
        rw [stop] at *
        omega
      have htaken := @ih (e + x.length) (k - x.length) hin hrest hrow (fun p hp hlt => hon p (by omega) (by omega))
        (by omega)
      rw [if_pos (hle.mpr hwhole), if_pos hwhole, ← UInt32.ofNat_sub hwhole, htaken]
      have hsplit : slice stream e k = slice stream x.first x.length ++ slice stream (e + x.length) (k - x.length) := by
        rw [slice_congr rfl hfirst, ← slice_add, Nat.add_sub_cancel' hwhole]
      rw [hsplit]
    · have hplace : x.first = e := hfirst.resolve_left (by omega)
      have hrest' : insert (seqOf isn (x.first + k)) (slice stream (x.first + k) (x.length - k))
          (l.map (block isn stream)) = (put ⟨x.first + k, x.length - k⟩ l).map (block isn stream) :=
        insert_block isn hlen (x := ⟨x.first + k, x.length - k⟩) (by rw [stop] at hx ⊢; dsimp only; omega) hrest
      rw [if_neg (mt hle.mp hwhole), if_neg hwhole, ← UInt32.ofNat_sub (by omega),
        show (0 : UInt32) = .ofNat 0 from rfl,
        createFragment_slice (by omega) (by omega), createFragment_slice (by omega) (by omega), seqOf_plus, hrest',
        hplace, Nat.add_zero]

end

end Blocks

/-! ### Calls -/

/-- A call. -/
inductive Call where
  /-- `Add` with a segment of the stream. -/
  | add (first length : ℕ)
  | extract (maxSize : UInt32)

/-- The buffer and the bytes extracted after a call. -/
def call (isn : UInt32) (stream : List UInt8) (s : TcpRxBuffer × List UInt8) : Call → TcpRxBuffer × List UInt8
  | .add first length => ((s.1.add (slice stream first length) (seqOf isn first)).2, s.2)
  | .extract maxSize => ((s.1.extract maxSize).2, s.2 ++ (s.1.extract maxSize).1.getD [])

/-- The buffer and the bytes extracted after calls. -/
def calls (isn maxBuffer : UInt32) (stream : List UInt8) (l : List Call) : TcpRxBuffer × List UInt8 :=
  l.foldl (call isn stream) ((new isn).setMaxBufferSize maxBuffer, [])

/-- The segment is cut from the stream. -/
def Call.Cut (stream : List UInt8) : Call → Prop
  | .add first length => first + length ≤ stream.length
  | .extract _ => True

/-- The end of the window, which is `m_maxBuffer` bytes behind the first byte stored, is not 2^31 to 2^32 bytes behind
the end of the segment. -/
def Call.Near (isn : UInt32) (b : TcpRxBuffer) : Call → Prop
  | .add first length => ∀ x ∈ b.data.head?,
    (x.1.minus (.ofUInt32 isn)).toNat + b.maxBuffer.toNat < first + length + 2 ^ 31 ∨
      first + length + 2 ^ 32 ≤ (x.1.minus (.ofUInt32 isn)).toNat + b.maxBuffer.toNat
  | .extract _ => True

instance (stream : List UInt8) : ∀ c : Call, Decidable (c.Cut stream)
  | .add _ _ => inferInstanceAs (Decidable (_ ≤ _))
  | .extract _ => .isTrue trivial

instance (isn : UInt32) (b : TcpRxBuffer) : ∀ c : Call, Decidable (c.Near isn b)
  | .add first length => inferInstanceAs (Decidable (∀ x ∈ b.data.head?,
      (x.1.minus (.ofUInt32 isn)).toNat + b.maxBuffer.toNat < first + length + 2 ^ 31 ∨
        first + length + 2 ^ 32 ≤ (x.1.minus (.ofUInt32 isn)).toNat + b.maxBuffer.toNat))
  | .extract _ => .isTrue trivial

/-- A byte of the stream lies in the buffer. -/
def Stored (isn : UInt32) (b : TcpRxBuffer) (p : ℕ) : Prop :=
  ∃ x ∈ b.data, ∃ j < x.2.length, x.1.plus (.ofNat j) = seqOf isn p

/-- A byte of the stream lay in the buffer at some time. -/
def Received (isn maxBuffer : UInt32) (stream : List UInt8) (l : List Call) (p : ℕ) : Prop :=
  ∃ before, before <+: l ∧ Stored isn (calls isn maxBuffer stream before).1 p

/-- The stream is put together. -/
structure Reassembled (isn : UInt32) (stream : List UInt8) (received : ℕ → Prop) (s : TcpRxBuffer × List UInt8) :
    Prop where
  /-- The blocks stored are apart, and are the stream at their places. -/
  blocks : ∃ l, InOrder l ∧ Within stream l ∧ s.1.data = l.map (block isn stream)
  /-- `NextRxSequence` is the end of what was received without a gap, and `Available` is what of it was not
  extracted. -/
  next : ∃ n ≤ stream.length, s.1.nextRxSeq = seqOf isn n ∧ (∀ p < n, received p) ∧ ¬ received n ∧
    s.2.length + s.1.availBytes.toNat = n
  /-- `Size` is what is stored. -/
  size : s.1.size.toNat = (s.1.data.flatMap Prod.snd).length
  /-- What was extracted is the beginning of the stream. -/
  extracted : s.2 <+: stream

/-! ### A call keeps the stream together -/

section Keeps

variable {isn : UInt32} {stream out : List UInt8} {b : TcpRxBuffer} {l : List Span} {n : ℕ}

theorem stored_iff (hlen : stream.length < 2 ^ 31) (hdata : b.data = l.map (block isn stream)) (hl : Within stream l)
    {p : ℕ} (hp : p ≤ stream.length) : Stored isn b p ↔ Covers l p := by
  have hbytes : ∀ x ∈ l, (slice stream x.first x.length).length = x.length := fun x hx => length_slice (hl x hx)
  simp only [Stored, hdata, List.mem_map, exists_exists_and_eq_and, block, seqOf_plus]
  constructor
  · rintro ⟨x, hx, j, hj, heq⟩
    rw [hbytes x hx] at hj
    have hxl := hl x hx
    rw [stop] at hxl
    have hplace := (seqOf_inj (near_of_le hlen (by omega) hp)).mp heq
    exact ⟨x, hx, by omega, by rw [stop]; omega⟩
  · rintro ⟨x, hx, hle, hlt⟩
    rw [stop] at hlt
    refine ⟨x, hx, p - x.first, by rw [hbytes x hx]; omega, ?_⟩
    rw [Nat.add_sub_cancel' hle]

/-- What holds of the buffer, whose blocks are the spans, and of the bytes extracted. -/
structure Holds (isn : UInt32) (stream : List UInt8) (b : TcpRxBuffer) (out : List UInt8) (l : List Span) (n : ℕ) :
    Prop where
  data_eq : b.data = l.map (block isn stream)
  inOrder : InOrder l
  within : Within stream l
  le_first : ∀ x ∈ l, out.length ≤ x.first
  nextRxSeq_eq : b.nextRxSeq = seqOf isn n
  le_next : out.length ≤ n
  next_le : n ≤ stream.length
  covers : ∀ p, out.length ≤ p → p < n → Covers l p
  not_covers : ¬ Covers l n
  availBytes_eq : b.availBytes = .ofNat (n - out.length)
  size_eq : b.size = .ofNat (total l)
  gotFin : b.gotFin = false
  out_eq : out = slice stream 0 out.length

theorem Holds.beside (h : Holds isn stream b out l n) {x : Span} (hx : x ∈ l) : x.stop ≤ n ∨ n ≤ x.first := by
  by_contra hboth
  exact h.not_covers ⟨x, hx, by omega, by omega⟩

theorem holds_new (isn maxBuffer : UInt32) (stream : List UInt8) :
    Holds isn stream ((new isn).setMaxBufferSize maxBuffer) [] [] 0 where
  data_eq := rfl
  inOrder := .nil
  within _ hx := absurd hx List.not_mem_nil
  le_first _ hx := absurd hx List.not_mem_nil
  nextRxSeq_eq := seqOf_zero.symm
  le_next := Nat.le_refl 0
  next_le := Nat.zero_le _
  covers p _ hlt := absurd hlt (Nat.not_lt_zero p)
  not_covers := not_covers_nil 0
  availBytes_eq := rfl
  size_eq := rfl
  gotFin := rfl
  out_eq := (slice_zero stream 0).symm

/-- What `Add` makes of the end of the segment for the window. -/
theorem Holds.window_tail (h : Holds isn stream b out l n) (hlen : stream.length < 2 ^ 31) {first length : ℕ}
    (hcut : first + length ≤ stream.length) (hnear : (Call.add first length).Near isn b) :
    ∃ tail ≤ first + length,
      (if ((b.data.head?.map fun x => x.1.plus b.maxBuffer).getD (seqOf isn (first + length))).lt
          (seqOf isn (first + length))
        then (b.data.head?.map fun x => x.1.plus b.maxBuffer).getD (seqOf isn (first + length))
        else seqOf isn (first + length)) = seqOf isn tail := by
  rw [Call.Near, h.data_eq] at hnear
  rw [h.data_eq]
  cases l with
  | nil =>
    refine ⟨first + length, Nat.le_refl _, ?_⟩
    exact ite_self _
  | cons x l =>
    have hx := (within_cons.mp h.within).1
    have hxf := Nat.le_trans x.first_le_stop hx
    have hplace := hnear _ rfl
    rw [block, ← seqOf_zero, minus_seqOf (Nat.zero_le _), Nat.sub_zero, UInt32.toNat_ofNat',
      Nat.mod_eq_of_lt (by omega)] at hplace
    have hmax : (seqOf isn x.first).plus b.maxBuffer = seqOf isn (x.first + b.maxBuffer.toNat) := by
      rw [← seqOf_plus, UInt32.ofNat_toNat]
    rw [List.map_cons, List.head?_cons, Option.map_some, Option.getD_some, block, hmax]
    rcases hplace with hplace | hplace
    · rw [lt_seqOf ⟨hplace, by omega⟩]
      split_ifs with hlt
      · exact ⟨_, Nat.le_of_lt (of_decide_eq_true hlt), rfl⟩
      · exact ⟨_, Nat.le_refl _, rfl⟩
    · -- the end of the window has come around
      have hround : seqOf isn (x.first + b.maxBuffer.toNat) = seqOf isn (x.first + b.maxBuffer.toNat - 2 ^ 32) := by
        rw [← seqOf_add_period (x.first + b.maxBuffer.toNat - 2 ^ 32), Nat.sub_add_cancel (by omega)]
      have hbuffer := b.maxBuffer.toNat_lt
      rw [hround, lt_seqOf ⟨by omega, by omega⟩, if_neg (by rw [decide_eq_true_eq]; omega)]
      exact ⟨_, Nat.le_refl _, rfl⟩

/-- The place that is next moves on over spans that hold more of the stream. -/
theorem Holds.advance (h : Holds isn stream b out l n) {l' : List Span} (hin : InOrder l') (hwithin : Within stream l')
    (hafter : ∀ x ∈ l', x ∈ l ∨ n ≤ x.first) (hmore : ∀ p, Covers l p → Covers l' p) :
    Holds isn stream
      { b with
        data := l'.map (block isn stream)
        size := .ofNat (total l')
        nextRxSeq := seqOf isn (reach n l')
        availBytes := b.availBytes + .ofNat (reach n l' - n) }
      out l' (reach n l') := by
  have hle := le_reach n l'
  have hbeside : ∀ x ∈ l', x.stop ≤ n ∨ n ≤ x.first := by
    intro x hx
    rcases hafter x hx with hx | hx
    · exact h.beside hx
    · exact .inr hx
  obtain ⟨hcovers, hnot⟩ := reach_spec hin hbeside
  have hout := h.le_next
  refine { h with
    data_eq := rfl
    inOrder := hin
    within := hwithin
    le_first := fun x hx => ?_
    nextRxSeq_eq := rfl
    le_next := Nat.le_trans hout hle
    next_le := reach_le h.next_le hwithin
    covers := fun p hp hlt => ?_
    not_covers := hnot
    availBytes_eq := ?_
    size_eq := rfl }
  · rcases hafter x hx with hx | hx
    · exact h.le_first x hx
    · exact Nat.le_trans hout hx
  · by_cases hn : p < n
    · exact hmore p (h.covers p hp hn)
    · exact hcovers p (Nat.not_lt.mp hn) hlt
  · dsimp only
    rw [h.availBytes_eq, ← UInt32.ofNat_add]
    congr 1
    omega

/-- A segment is added: the spans hold more of the stream. -/
theorem Holds.add (h : Holds isn stream b out l n) (hlen : stream.length < 2 ^ 31) {first length : ℕ}
    (hcut : first + length ≤ stream.length) (hnear : (Call.add first length).Near isn b) :
    ∃ l' n', Holds isn stream (b.add (slice stream first length) (seqOf isn first)).2 out l' n' ∧
      ∀ p, Covers l p → Covers l' p := by
  obtain ⟨tail, htail, hwindow⟩ := h.window_tail hlen hcut hnear
  have hsize : packetSize (slice stream first length) = .ofNat length := by rw [packetSize, length_slice hcut]
  have hfirst : first ≤ stream.length := Nat.le_trans (Nat.le_add_right _ _) hcut
  have hn := h.next_le
  -- what is not buffered yet begins at `start`
  obtain ⟨start, hstart, hbegin⟩ : ∃ start, max first n = start ∧
      (if (seqOf isn first).lt b.nextRxSeq then b.nextRxSeq else seqOf isn first) = seqOf isn start := by
    refine ⟨_, rfl, ?_⟩
    rw [h.nextRxSeq_eq, lt_seqOf (near_of_le hlen hfirst hn)]
    split_ifs with hlt
    · rw [Nat.max_eq_right (Nat.le_of_lt (of_decide_eq_true hlt))]
    · rw [Nat.max_eq_left (by rw [decide_eq_true_eq] at hlt; omega)]
  obtain ⟨head, hhead, hinside, hrange⟩ : ∃ head ≤ stream.length, (head < tail → head = start) ∧
      (if b.data ≠ [] ∧ (seqOf isn tail).lt (seqOf isn start) then seqOf isn tail else seqOf isn start) =
        seqOf isn head := by
    split_ifs with hempty
    · exact ⟨tail, by omega, fun hlt => absurd hlt (Nat.lt_irrefl _), rfl⟩
    · exact ⟨start, by omega, fun _ => rfl, rfl⟩
  have htail' : tail ≤ stream.length := by omega
  have htrim := trim_spec h.inOrder head tail
  obtain ⟨hin, hmore, hmem, htotal⟩ := store_spec h.inOrder head tail
  have hoverlap := removeOverlap_block isn hlen h.within hhead htail'
  rw [TcpRxBuffer.add]
  dsimp only
  rw [hsize, seqOf_plus, hwindow, hbegin, hrange, h.data_eq, hoverlap]
  rw [store] at hin hmore hmem htotal
  generalize trim head tail l = r at *
  obtain ⟨kept, dropped, head', tail'⟩ := r
  dsimp only at *
  have hhead' : head' ≤ stream.length := htrim.head_bound _ hhead h.within
  have hend := htrim.tail_le
  have hkept : Within stream kept := fun x hx => h.within x (htrim.sublist.subset hx)
  have hsize' : b.size - .ofNat dropped = .ofNat (total kept) := by
    rw [h.size_eq, ← htrim.total_eq, UInt32.ofNat_add, UInt32.add_sub_cancel]
  rw [ge_seqOf (near_of_le hlen hhead' (by omega))]
  have hfin : ∀ {p : Prop}, ¬ (b.gotFin = true ∧ p) := by simp [h.gotFin]
  simp only [decide_eq_true_eq]
  by_cases hempty : tail' ≤ head'
  · -- nothing is left of the segment
    rw [if_pos hempty] at hin hmore
    rw [if_pos hempty]
    refine ⟨kept, n, ?_, hmore⟩
    exact { h with
      data_eq := rfl
      inOrder := hin
      within := hkept
      le_first := fun x hx => h.le_first x (htrim.sublist.subset hx)
      covers := fun p hle hlt => hmore p (h.covers p hle hlt)
      not_covers := by
        rintro ⟨x, hx, hcov⟩
        exact h.not_covers ⟨x, htrim.sublist.subset hx, hcov⟩
      size_eq := hsize' }
  · rw [if_neg hempty] at hin hmore hmem htotal
    rw [if_neg hempty]
    have hhead_le := htrim.head_le
    have hstart' := hinside (by omega)
    have hstop : (⟨head', tail' - head'⟩ : Span).stop = tail' := Nat.add_sub_cancel' (Nat.le_of_not_le hempty)
    have hfragment : createFragment (slice stream first length) ((seqOf isn head').minus (seqOf isn first))
        ((seqOf isn tail').minus (seqOf isn head')) = slice stream head' (tail' - head') := by
      rw [minus_seqOf (by omega), minus_seqOf (by omega), createFragment_slice (by omega) (by omega),
        Nat.add_sub_cancel' (by omega)]
    have hin' : Within stream (put ⟨head', tail' - head'⟩ kept) := by
      intro x hx
      rcases hmem x hx with hx | ⟨-, -, hx⟩
      · exact h.within x hx
      · omega
    have hinsert := insert_block isn hlen (x := ⟨head', tail' - head'⟩) (by rw [hstop]; omega) hkept
    dsimp only at hinsert
    have hadvance := advance_block isn hlen hin' hn b.availBytes
    have hnew : b.size - .ofNat dropped + packetSize (slice stream head' (tail' - head')) =
        .ofNat (total (put ⟨head', tail' - head'⟩ kept)) := by
      rw [hsize', packetSize, length_slice (by omega), ← UInt32.ofNat_add]
      have := htrim.total_eq
      congr 1
      omega
    have hafter : ∀ x ∈ put ⟨head', tail' - head'⟩ kept, x ∈ l ∨ n ≤ x.first := by
      intro x hx
      rcases hmem x hx with hx | ⟨hle, -, -⟩
      · exact .inl hx
      · exact .inr (by omega)
    rw [hfragment, hinsert, h.nextRxSeq_eq, hadvance, hnew, if_neg hfin]
    exact ⟨_, _, h.advance hin hin' hafter hmore, hmore⟩

theorem exists_min_eq_ofNat (maxSize avail : UInt32) : ∃ k ≤ avail.toNat, min maxSize avail = .ofNat k := by
  refine ⟨(min maxSize avail).toNat, ?_, UInt32.ofNat_toNat.symm⟩
  rw [show min maxSize avail = if maxSize ≤ avail then maxSize else avail from rfl]
  split_ifs with hle
  · exact UInt32.le_iff_toNat_le.mp hle
  · exact Nat.le_refl _

/-- Bytes are extracted: the spans hold the others. -/
theorem Holds.extract (h : Holds isn stream b out l n) (hlen : stream.length < 2 ^ 31) (maxSize : UInt32) :
    ∃ l', Holds isn stream (b.extract maxSize).2 (out ++ (b.extract maxSize).1.getD []) l' n ∧
      ∀ p, p < (out ++ (b.extract maxSize).1.getD []).length ∨ Covers l' p ↔ p < out.length ∨ Covers l p := by
  have hout := h.le_next
  have hn := h.next_le
  have havail : b.availBytes.toNat = n - out.length := by
    rw [h.availBytes_eq, UInt32.toNat_ofNat', Nat.mod_eq_of_lt (by omega)]
  obtain ⟨k, hk, hextract⟩ := exists_min_eq_ofNat maxSize b.availBytes
  rw [havail] at hk
  rw [TcpRxBuffer.extract]
  dsimp only
  rw [hextract]
  by_cases hzero : UInt32.ofNat k = 0
  · rw [if_pos hzero]
    exact ⟨l, by rwa [Option.getD_none, List.append_nil], fun p => by rw [Option.getD_none, List.append_nil]⟩
  have hcovers : ∀ p, out.length ≤ p → p < out.length + k → Covers l p := fun p hp hlt => h.covers p hp (by omega)
  have htake := take_block isn hlen h.inOrder h.within h.le_first hcovers (by omega)
  have hremoves := removeFirst_spec h.inOrder h.le_first hcovers
  have hpos : 0 < k := by
    by_contra hk
    rw [Nat.eq_zero_of_not_pos hk] at hzero
    exact hzero rfl
  have hlength : (slice stream out.length k).length = k := length_slice (by omega)
  have htaken : ¬ slice stream out.length k = [] := fun hnil => by
    rw [hnil, List.length_nil] at hlength
    omega
  rw [if_neg hzero, h.data_eq, htake]
  dsimp only
  rw [if_neg htaken, Option.getD_some]
  refine ⟨removeFirst k l, { h with
    data_eq := rfl
    inOrder := hremoves.inOrder
    within := fun x hx => ?_
    le_first := fun x hx => ?_
    le_next := ?_
    covers := fun p hp hlt => ?_
    not_covers := ?_
    availBytes_eq := ?_
    size_eq := ?_
    out_eq := ?_ }, fun p => ?_⟩
  · obtain ⟨y, hy, hle⟩ := hremoves.stop_le x hx
    exact Nat.le_trans hle (h.within y hy)
  · rw [List.length_append, hlength]
    exact hremoves.le_first x hx
  · rw [List.length_append, hlength]
    omega
  · rw [List.length_append, hlength] at hp
    exact (hremoves.covers_iff p hp).mpr (h.covers p (by omega) hlt)
  · rw [hremoves.covers_iff n (by omega)]
    exact h.not_covers
  · rw [List.length_append, hlength, h.availBytes_eq, ← UInt32.ofNat_sub hk, Nat.sub_sub]
  · rw [h.size_eq, ← hremoves.total_eq, UInt32.ofNat_add, UInt32.add_sub_cancel]
  · rw [List.length_append, hlength, slice_add, Nat.zero_add, ← h.out_eq]
  · rw [List.length_append, hlength]
    by_cases hp : out.length + k ≤ p
    · rw [hremoves.covers_iff p hp]
      exact or_congr_left ⟨fun hlt => absurd hlt (Nat.not_lt.mpr hp), fun hlt => by omega⟩
    · refine ⟨fun _ => ?_, fun _ => .inl (Nat.not_le.mp hp)⟩
      by_cases hlt : p < out.length
      · exact .inl hlt
      · exact .inr (hcovers p (Nat.not_lt.mp hlt) (Nat.not_le.mp hp))

end Keeps

/-! ### Any calls -/

section Runs

variable {isn maxBuffer : UInt32} {stream : List UInt8}

theorem calls_concat (l : List Call) (c : Call) :
    calls isn maxBuffer stream (l ++ [c]) = call isn stream (calls isn maxBuffer stream l) c := List.foldl_concat ..

theorem received_concat {l : List Call} {c : Call} {p : ℕ} :
    Received isn maxBuffer stream (l ++ [c]) p ↔
      Stored isn (call isn stream (calls isn maxBuffer stream l) c).1 p ∨ Received isn maxBuffer stream l p := by
  simp only [Received, List.prefix_concat_iff, or_and_right, exists_or, exists_eq_left, calls_concat]

theorem Holds.length_bytes {b : TcpRxBuffer} {out : List UInt8} {l : List Span} {n : ℕ}
    (h : Holds isn stream b out l n) : (b.data.flatMap Prod.snd).length = total l := by
  have hl := h.within
  rw [h.data_eq]
  clear h
  induction l with
  | nil => rfl
  | cons x l ih =>
    obtain ⟨hx, hrest⟩ := within_cons.mp hl
    rw [List.map_cons, List.flatMap_cons, List.length_append, ih hrest, block, length_slice hx, total]

theorem holds_calls (hlen : stream.length < 2 ^ 31) {l : List Call} (hcut : ∀ c ∈ l, c.Cut stream)
    (hnear : ∀ before c, before ++ [c] <+: l → c.Near isn (calls isn maxBuffer stream before).1) :
    ∃ spans n, Holds isn stream (calls isn maxBuffer stream l).1 (calls isn maxBuffer stream l).2 spans n ∧
      ∀ p ≤ stream.length, Received isn maxBuffer stream l p ↔
        p < (calls isn maxBuffer stream l).2.length ∨ Covers spans p := by
  induction l using List.reverseRecOn with
  | nil =>
    refine ⟨[], 0, holds_new isn maxBuffer stream, fun p _ => ?_⟩
    constructor
    · rintro ⟨before, hbefore, x, hx, -⟩
      rw [List.prefix_nil.mp hbefore] at hx
      exact absurd hx List.not_mem_nil
    · rintro (hlt | hcov)
      · exact absurd hlt (Nat.not_lt_zero p)
      · exact absurd hcov (not_covers_nil p)
  | append_singleton l c ih =>
    obtain ⟨spans, n, hholds, hreceived⟩ := ih (fun d hd => hcut d (List.mem_append_left _ hd))
      fun before d hd => hnear before d (hd.trans (List.prefix_append l [c]))
    have hc := hcut c (List.mem_append_right _ List.mem_cons_self)
    have hn := hnear l c (List.prefix_refl _)
    rw [calls_concat]
    cases c with
    | add first length =>
      obtain ⟨spans', n', hholds', hmore⟩ := hholds.add hlen hc hn
      refine ⟨spans', n', hholds', fun p hp => ?_⟩
      rw [received_concat, hreceived p hp, call, stored_iff hlen hholds'.data_eq hholds'.within hp]
      constructor
      · rintro (hcov | hlt | hcov)
        · exact .inr hcov
        · exact .inl hlt
        · exact .inr (hmore p hcov)
      · rintro (hlt | hcov)
        · exact .inr (.inl hlt)
        · exact .inl hcov
    | extract maxSize =>
      obtain ⟨spans', hholds', hsame⟩ := hholds.extract hlen maxSize
      refine ⟨spans', n, hholds', fun p hp => ?_⟩
      rw [received_concat, hreceived p hp, call, stored_iff hlen hholds'.data_eq hholds'.within hp, hsame p]
      exact or_iff_right_of_imp fun hcov => (hsame p).mp (.inr hcov)

/-- A stream of twelve bytes. -/
def twelve : List UInt8 := [0, 1, 2, 3, 4, 5, 6, 7, 8, 9, 10, 11]

/-- Segments that overlap and come out of order, over the end of the sequence numbers. -/
def overlapping : List Call := [.add 4 3, .add 0 6, .extract 5, .add 2 10]

/-- An old segment whose end is more than 2^31 bytes before the end of the window, after a block with a gap before
it. -/
def oldSegment : List Call := [.add 0 5, .extract 5, .add 5 3, .add 10 2, .add 0 3, .add 8 2]

end Runs

end TcpRxBuffer

end Ns3
