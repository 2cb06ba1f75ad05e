import Ns3.Pmip6.OptionHeaders

/-!
# Mobility headers

The binding update and the binding acknowledgement as octets
(`pmip6/model/ipv6-mobility-header.cc`), with the `MobilityOptionField` their options are written
to. A header takes its length from the options when it is serialized, and the options theirs from
the length when it is deserialized.

* `Ipv6MobilityBindingUpdateHeader.roundTrips_iff` — an update survives exactly if no flag is set.
* `Ipv6MobilityBindingAckHeader.not_roundTrips` — an acknowledgement loses four octets of options.
-/

namespace Ns3.Pmip6.Wire

open Lib Buffer

/-! ### The option field -/

/-- `MobilityOptionField (optionsOffset)`. -/
structure MobilityOptionField (optionsOffset : ℕ) where
  optionData : List UInt8 := []

namespace MobilityOptionField

variable {o : ℕ} (f : MobilityOptionField o)

/-- `CalculatePad`, in `uint32_t`. -/
def calculatePad (alignment : Alignment) : ℕ :=
  (alignment.offset.toNat + 2 ^ 32 - (f.optionData.length + o) % 2 ^ 32) % 2 ^ 32 %
    alignment.factor.toNat

/-- The octets of the options, padded. -/
def getSerializedSize : ℕ := f.optionData.length + f.calculatePad ⟨8, 0⟩

/-- The option that fills `pad` octets, if there are any. -/
def padding : ℕ → List Ipv6MobilityOptionHeader
  | 0 => []
  | 1 => [.pad1]
  | pad => [.padn (UInt8.ofNat pad)]

/-- The options and their padding. -/
def serialize : List UInt8 :=
  f.optionData ++ (padding (f.calculatePad ⟨8, 0⟩)).flatMap Ipv6MobilityOptionHeader.serialize

/-- As many octets as there are. -/
def deserialize (length : ℕ) : Reader (MobilityOptionField o) := do
  let buf ← Iterator.read length
  pure { optionData := buf }

/-- Adds an option at the end: as many octets as it reserves. -/
def append (option : Ipv6MobilityOptionHeader) : MobilityOptionField o :=
  { optionData := f.optionData ++ option.serialize.take option.serializedSize }

/-- `AddOption`. The padding is added by `AddOption` too, and needs none itself (`calculatePad_one`). -/
def addOption (option : Ipv6MobilityOptionHeader) : MobilityOptionField o :=
  ((padding (f.calculatePad option.alignment)).foldl append f).append option

theorem calculatePad_eight_lt (offset : UInt8) : f.calculatePad ⟨8, offset⟩ < 8 :=
  Nat.mod_lt _ (show 0 < (8 : UInt8).toNat by decide)

/-- The padding at the end makes the length of the message a multiple of eight octets. -/
theorem getSerializedSize_mod : (o + f.getSerializedSize) % 8 = 0 := by
  have h8 : (8 : UInt8).toNat = 8 := rfl
  have h0 : (0 : UInt8).toNat = 0 := rfl
  rw [getSerializedSize, calculatePad, h8, h0]
  omega

theorem length_padding {pad : ℕ} (h : pad < 256) :
    ((padding pad).flatMap Ipv6MobilityOptionHeader.serialize).length = pad := by
  match pad with
  | 0 => rfl
  | 1 => rfl
  | pad + 2 =>
    have hlt : pad < 256 := by omega
    simp [padding, Ipv6MobilityOptionHeader.padn, OptionClass.header, OptionClass.serialize, Wire.padn,
      Nat.mod_eq_of_lt hlt]

@[simp] theorem length_serialize : f.serialize.length = f.getSerializedSize := by
  have hlt := f.calculatePad_eight_lt 0
  rw [serialize, List.length_append, length_padding (by omega), getSerializedSize]

theorem reads_deserialize {n : ℕ} {bytes : List UInt8} (h : bytes.length = n) :
    (deserialize (o := o) n).Reads bytes { optionData := bytes } := by
  have hread := (Iterator.reads_read h).bind
    (f := fun buf => pure (⟨buf⟩ : MobilityOptionField o)) (.pure _)
  rwa [List.append_nil] at hread

@[simp] theorem length_deserialize (n : ℕ) (c : Cursor) :
    (deserialize (o := o) n c).1.optionData.length = n := Iterator.length_read n c

end MobilityOptionField

/-! ### Flags -/

/-- The flags of a message, each with its bit, set in the word `w`. -/
def flagWord {φ : Type} (bit : φ → ℕ) (flags : φ → Bool) (w : ℕ) (fs : List φ) : ℕ :=
  fs.foldl (fun w f => if flags f then w ||| 1 <<< bit f else w) w

theorem testBit_flagWord {φ : Type} (bit : φ → ℕ) (flags : φ → Bool) (w : ℕ) (fs : List φ) (i : ℕ) :
    (flagWord bit flags w fs).testBit i = (w.testBit i || fs.any fun f => flags f && bit f = i) := by
  induction fs generalizing w with
  | nil => simp [flagWord]
  | cons f fs ih =>
    rw [flagWord, List.foldl_cons, ← flagWord, ih, List.any_cons, ← Bool.or_assoc]
    cases flags f with
    | false => simp
    | true => simp [Nat.one_shiftLeft, Nat.testBit_two_pow]

/-- The fields that all mobility headers have. -/
structure Ipv6MobilityHeader where
  payloadProto : UInt8 := 59
  headerLen : UInt8 := 0
  mhType : UInt8 := 0
  reserved : UInt8 := 0
  checksum : UInt16 := 0

/-! ### Binding updates -/

/-- The flags of a binding update. -/
inductive UpdateFlag where
  /-- `m_flagA`. -/
  | a
  /-- `m_flagH`. -/
  | h
  /-- `m_flagL`. -/
  | l
  /-- `m_flagK`. -/
  | k
  /-- `m_flagM`. -/
  | m
  /-- `m_flagR`. -/
  | r
  /-- `m_flagP`. -/
  | p
  deriving DecidableEq

namespace UpdateFlag

/-- The bit of a flag. -/
def bit : UpdateFlag → ℕ
  | a => 15
  | h => 14
  | l => 13
  | k => 12
  | m => 11
  | r => 10
  | p => 9

/-- The flags in the order `Serialize` sets them. -/
def all : List UpdateFlag := [a, h, l, k, m, r, p]

theorem mem_all (f : UpdateFlag) : f ∈ all := by cases f <;> decide

theorem bit_injective {f g : UpdateFlag} (h : f.bit = g.bit) : f = g := by
  cases f <;> cases g <;> first | rfl | exact absurd h (by decide)

end UpdateFlag

/-- A binding update. -/
structure Ipv6MobilityBindingUpdateHeader extends Ipv6MobilityHeader, MobilityOptionField 12 where
  mhType := 5
  sequence : UInt16 := 0
  /-- `m_flagA`, ..., `m_flagP`. -/
  flags : UpdateFlag → Bool := fun _ => false
  reserved2 : UInt16 := 0
  lifetime : UInt16 := 0

namespace Ipv6MobilityBindingUpdateHeader

variable (h : Ipv6MobilityBindingUpdateHeader)

/-- `AddOption` of several options. -/
def addOptions (options : List Ipv6MobilityOptionHeader) : Ipv6MobilityBindingUpdateHeader :=
  { h with toMobilityOptionField := options.foldl MobilityOptionField.addOption h.toMobilityOptionField }

/-- `SetFlagA (false)`, ..., `SetFlagP (false)`. -/
def clear (f : UpdateFlag) : Ipv6MobilityBindingUpdateHeader :=
  { h with flags := Function.update h.flags f false }

/-- Twelve octets and the options. -/
def getSerializedSize : ℕ := 12 + h.toMobilityOptionField.getSerializedSize

/-- The word of the flags and the reserved bits. -/
def reserved2Word : ℕ := flagWord UpdateFlag.bit h.flags h.reserved2.toNat UpdateFlag.all

/-- The fields in their order, then the options. -/
def serialize : List UInt8 :=
  [h.payloadProto, UInt8.ofNat (h.getSerializedSize / 8 - 1), h.mhType, h.reserved] ++
    Iterator.writeU16 0 ++ Iterator.writeHtonU16 h.sequence ++
    Iterator.writeHtonU16 (UInt16.ofNat h.reserved2Word) ++ Iterator.writeHtonU16 h.lifetime ++
    h.toMobilityOptionField.serialize

/-- The length that `Deserialize` reads options of, in `uint32_t`. -/
def optionsLength (headerLen : UInt8) : ℕ := ((headerLen.toNat + 1) <<< 3 + 2 ^ 32 - 12) % 2 ^ 32

/-- `Deserialize`. It returns the `GetSerializedSize` of what it read. -/
def deserialize : Reader Ipv6MobilityBindingUpdateHeader := do
  let payloadProto ← Iterator.readU8
  let headerLen ← Iterator.readU8
  let mhType ← Iterator.readU8
  let reserved ← Iterator.readU8
  let checksum ← Iterator.readU16
  let sequence ← Iterator.readNtohU16
  let reserved2 ← Iterator.readNtohU16
  let lifetime ← Iterator.readNtohU16
  let options ← MobilityOptionField.deserialize (optionsLength headerLen)
  pure {
    payloadProto, headerLen, mhType, reserved, checksum, sequence, reserved2, lifetime
    flags := fun f => reserved2.toNat.testBit f.bit
    toMobilityOptionField := options }

/-! What an update is read as -/

theorem getSerializedSize_mod : h.getSerializedSize % 8 = 0 := h.toMobilityOptionField.getSerializedSize_mod

theorem optionsLength_of_pos {headerLen : UInt8} (hpos : 1 ≤ headerLen.toNat) :
    optionsLength headerLen = 8 * (headerLen.toNat + 1) - 12 := by
  have hlt := headerLen.toNat_lt
  rw [optionsLength, Nat.shiftLeft_eq]
  omega

theorem optionsLength_serialize (hs : h.getSerializedSize ≤ 2048) :
    optionsLength (UInt8.ofNat (h.getSerializedSize / 8 - 1)) = h.toMobilityOptionField.getSerializedSize := by
  have hmod := h.getSerializedSize_mod
  have hsize : h.getSerializedSize = 12 + h.toMobilityOptionField.getSerializedSize := rfl
  have hlen : (UInt8.ofNat (h.getSerializedSize / 8 - 1)).toNat = h.getSerializedSize / 8 - 1 := by
    rw [UInt8.toNat_ofNat', Nat.mod_eq_of_lt (by omega)]
  rw [optionsLength_of_pos (by omega), hlen]
  omega

/-- What is read where an update lies. -/
def decoded : Ipv6MobilityBindingUpdateHeader :=
  { h with
    headerLen := UInt8.ofNat (h.getSerializedSize / 8 - 1)
    checksum := 0
    reserved2 := UInt16.ofNat h.reserved2Word
    flags := fun f => (UInt16.ofNat h.reserved2Word).toNat.testBit f.bit
    optionData := h.toMobilityOptionField.serialize }

theorem reads_deserialize (hs : h.getSerializedSize ≤ 2048) : deserialize.Reads h.serialize h.decoded := by
  have hoptions := MobilityOptionField.reads_deserialize (o := 12)
    (h.toMobilityOptionField.length_serialize.trans (h.optionsLength_serialize hs).symm)
  have hbytes : h.serialize = [h.payloadProto] ++ ([UInt8.ofNat (h.getSerializedSize / 8 - 1)] ++
      ([h.mhType] ++ ([h.reserved] ++ (Iterator.writeU16 0 ++ (Iterator.writeHtonU16 h.sequence ++
        (Iterator.writeHtonU16 (UInt16.ofNat h.reserved2Word) ++ (Iterator.writeHtonU16 h.lifetime ++
          (h.toMobilityOptionField.serialize ++ [])))))))) := by
    simp [serialize]
  rw [hbytes]
  exact (Iterator.reads_readU8 _).bind ((Iterator.reads_readU8 _).bind ((Iterator.reads_readU8 _).bind
    ((Iterator.reads_readU8 _).bind (Iterator.reads_readU16_zero.bind ((Iterator.reads_readNtohU16 _).bind
      ((Iterator.reads_readNtohU16 _).bind ((Iterator.reads_readNtohU16 _).bind
        (hoptions.bind (.pure _)))))))))

/-- The decoded options are as long as the message says, and need no padding. -/
theorem getSerializedSize_decoded : h.decoded.getSerializedSize = h.getSerializedSize := by
  have hmod := h.getSerializedSize_mod
  have hlen : h.decoded.optionData.length = h.toMobilityOptionField.getSerializedSize :=
    h.toMobilityOptionField.length_serialize
  have hsize : h.getSerializedSize = 12 + h.toMobilityOptionField.getSerializedSize := rfl
  have hpad : h.decoded.calculatePad ⟨8, 0⟩ = 0 := by
    have h8 : (8 : UInt8).toNat = 8 := rfl
    have h0 : (0 : UInt8).toNat = 0 := rfl
    rw [MobilityOptionField.calculatePad, hlen, h8, h0]
    omega
  rw [getSerializedSize, MobilityOptionField.getSerializedSize, hlen, hpad, hsize, Nat.add_zero]

theorem testBit_reserved2Word (f : UpdateFlag) :
    h.reserved2Word.testBit f.bit = (h.reserved2.toNat.testBit f.bit || h.flags f) := by
  have hany : (UpdateFlag.all.any fun g => h.flags g && g.bit = f.bit) = h.flags f := by
    rw [Bool.eq_iff_iff, List.any_eq_true]
    constructor
    · rintro ⟨g, -, hg⟩
      rw [Bool.and_eq_true, decide_eq_true_eq] at hg
      rw [← UpdateFlag.bit_injective hg.2]
      exact hg.1
    · intro hf
      exact ⟨f, f.mem_all, by simp [hf]⟩
  rw [reserved2Word, testBit_flagWord, hany]

theorem testBit_reserved2 {h : Ipv6MobilityBindingUpdateHeader} (hr : h.reserved2.toNat < 2 ^ 9)
    (f : UpdateFlag) : h.reserved2.toNat.testBit f.bit = false := by
  refine Nat.testBit_lt_two_pow (Nat.lt_of_lt_of_le hr (Nat.pow_le_pow_right (by decide) ?_))
  cases f <;> decide

theorem toNat_ofNat_reserved2Word_testBit (f : UpdateFlag) :
    (UInt16.ofNat h.reserved2Word).toNat.testBit f.bit = (h.reserved2.toNat.testBit f.bit || h.flags f) := by
  have hlt : f.bit < 16 := by cases f <;> decide
  rw [UInt16.toNat_ofNat', Nat.testBit_mod_two_pow, testBit_reserved2Word]
  simp [hlt]

theorem reserved2Word_of_no_flag {h : Ipv6MobilityBindingUpdateHeader} (hf : ∀ f, h.flags f = false) :
    UInt16.ofNat h.reserved2Word = h.reserved2 := by
  have hword : h.reserved2Word = h.reserved2.toNat := by
    refine Nat.eq_of_testBit_eq fun i => ?_
    rw [reserved2Word, testBit_flagWord]
    simp [hf]
  rw [hword, UInt16.ofNat_toNat]

/-- The update comes out of a message with every field as it was, the length being that of the message
and the options those of the message, filled up; and a flag that is cleared in what came out is
cleared in the message made of that. -/
structure RoundTrips : Prop where
  /-- What is read of the message. -/
  read : ∀ c : Cursor, c.At h.serialize → deserialize c =
    ({ h with
      headerLen := UInt8.ofNat (h.getSerializedSize / 8 - 1)
      optionData := h.toMobilityOptionField.serialize }, c.advance h.serialize.length)
  /-- What is sent after clearing a flag. -/
  cleared : ∀ c : Cursor, c.At h.serialize → ∀ (f : UpdateFlag) (c' : Cursor),
    c'.At ((deserialize c).1.clear f).serialize → (deserialize c').1.flags f = false

/-- An update with no checksum, and no reserved bits among its flags, survives exactly if no flag is
set: `Deserialize` keeps the flags among the reserved bits. -/
theorem roundTrips_iff (options : List Ipv6MobilityOptionHeader) (hc : h.checksum = 0)
    (hr : h.reserved2.toNat < 2 ^ 9) (hs : (h.addOptions options).getSerializedSize ≤ 2048) :
    (h.addOptions options).RoundTrips ↔ ∀ f, h.flags f = false := by
  constructor
  · intro hrt f
    have hread := hrt.read _ (Cursor.at_ofList _)
    rw [(h.addOptions options).reads_deserialize hs _ (Cursor.at_ofList _)] at hread
    have hword : UInt16.ofNat (h.addOptions options).reserved2Word = h.reserved2 :=
      congrArg (fun x => x.1.reserved2) hread
    have hbit := (h.addOptions options).toNat_ofNat_reserved2Word_testBit f
    rw [hword, testBit_reserved2 hr] at hbit
    change false = (h.reserved2.toNat.testBit f.bit || h.flags f) at hbit
    rwa [testBit_reserved2 hr, Bool.false_or, eq_comm] at hbit
  · intro hf
    have hsent : ∀ f, (h.addOptions options).flags f = false := hf
    have hword : UInt16.ofNat (h.addOptions options).reserved2Word = h.reserved2 :=
      reserved2Word_of_no_flag hsent
    have hflags : (fun f => (UInt16.ofNat (h.addOptions options).reserved2Word).toNat.testBit
        (UpdateFlag.bit f)) = h.flags := by
      funext f
      rw [hword, testBit_reserved2 hr, hf]
    have hread := (h.addOptions options).reads_deserialize hs
    constructor
    · intro c hat
      rw [hread c hat, decoded, hflags, hword, ← hc]
      rfl
    · intro c hat f c' hat'
      rw [hread c hat] at hat'
      have hs' : ((h.addOptions options).decoded.clear f).getSerializedSize ≤ 2048 :=
        (h.addOptions options).getSerializedSize_decoded ▸ hs
      rw [reads_deserialize _ hs' c' hat']
      change (UInt16.ofNat ((h.addOptions options).decoded.clear f).reserved2Word).toNat.testBit f.bit = false
      rw [toNat_ofNat_reserved2Word_testBit]
      change ((UInt16.ofNat (h.addOptions options).reserved2Word).toNat.testBit f.bit ||
        Function.update (h.addOptions options).decoded.flags f false f) = false
      rw [hword, testBit_reserved2 hr, Function.update_self, Bool.or_self]

/-- An update without flags, with a prefix option. -/
theorem roundTrips_of_no_flag : (addOptions {} [.homeNetworkPrefix .zero 64]).RoundTrips :=
  (roundTrips_iff {} [.homeNetworkPrefix .zero 64] rfl (by decide) (by decide)).mpr fun _ => rfl

/-- An update whose flag `A` is set is read with a reserved bit more. -/
theorem flag_reserved : ¬ ∀ (h : Ipv6MobilityBindingUpdateHeader) (options : List Ipv6MobilityOptionHeader),
    h.checksum = 0 → h.reserved2.toNat < 2 ^ 9 → (h.addOptions options).getSerializedSize ≤ 2048 →
    (h.addOptions options).RoundTrips := by
  intro hall
  have h := hall { flags := fun f => f = .a } [] rfl (by decide) (by decide)
  have hread := congrArg (fun x => x.1.reserved2) (h.read _ (Cursor.at_ofList _))
  exact absurd hread (by decide +kernel)

end Ipv6MobilityBindingUpdateHeader

/-! ### Binding acknowledgements -/

/-- The flags of a binding acknowledgement. -/
inductive AckFlag where
  /-- `m_flagK`. -/
  | k
  /-- `m_flagR`. -/
  | r
  /-- `m_flagP`. -/
  | p

namespace AckFlag

/-- The bit of a flag. -/
def bit : AckFlag → ℕ
  | k => 7
  | r => 6
  | p => 5

/-- The flags in the order `Serialize` sets them. -/
def all : List AckFlag := [k, r, p]

end AckFlag

/-- A binding acknowledgement. -/
structure Ipv6MobilityBindingAckHeader extends Ipv6MobilityHeader, MobilityOptionField 12 where
  mhType := 6
  status : UInt8 := 0
  /-- `m_flagK`, `m_flagR` and `m_flagP`. -/
  flags : AckFlag → Bool := fun _ => false
  reserved2 : UInt8 := 0
  sequence : UInt16 := 0
  lifetime : UInt16 := 0

namespace Ipv6MobilityBindingAckHeader

variable (h : Ipv6MobilityBindingAckHeader)

/-- `AddOption` of several options. -/
def addOptions (options : List Ipv6MobilityOptionHeader) : Ipv6MobilityBindingAckHeader :=
  { h with toMobilityOptionField := options.foldl MobilityOptionField.addOption h.toMobilityOptionField }

/-- Twelve octets and the options. -/
def getSerializedSize : ℕ := 12 + h.toMobilityOptionField.getSerializedSize

/-- The octet of the flags and the reserved bits. -/
def reserved2Word : ℕ := flagWord AckFlag.bit h.flags h.reserved2.toNat AckFlag.all

/-- The fields in their order, then the options. -/
def serialize : List UInt8 :=
  [h.payloadProto, UInt8.ofNat (h.getSerializedSize / 8 - 1), h.mhType, h.reserved] ++
    Iterator.writeU16 0 ++ [h.status, UInt8.ofNat h.reserved2Word] ++
    Iterator.writeHtonU16 h.sequence ++ Iterator.writeHtonU16 h.lifetime ++
    h.toMobilityOptionField.serialize

/-- The length that `Deserialize` reads options of, in `uint32_t`: four octets are missing. -/
def optionsLength (headerLen : UInt8) : ℕ := ((headerLen.toNat + 1) <<< 3 + 2 ^ 32 - 16) % 2 ^ 32

/-- `Deserialize`. It returns the `GetSerializedSize` of what it read. -/
def deserialize : Reader Ipv6MobilityBindingAckHeader := do
  let payloadProto ← Iterator.readU8
  let headerLen ← Iterator.readU8
  let mhType ← Iterator.readU8
  let reserved ← Iterator.readU8
  let checksum ← Iterator.readU16
  let status ← Iterator.readU8
  let reserved2 ← Iterator.readU8
  let sequence ← Iterator.readNtohU16
  let lifetime ← Iterator.readNtohU16
  let options ← MobilityOptionField.deserialize (optionsLength headerLen)
  pure {
    payloadProto, headerLen, mhType, reserved, checksum, status, reserved2, sequence, lifetime
    flags := fun f => reserved2.toNat.testBit f.bit
    toMobilityOptionField := options }

/-! What an acknowledgement is read as -/

/-- The length of the options read is a multiple of eight, for any length octet. -/
theorem optionsLength_mod (headerLen : UInt8) : optionsLength headerLen % 8 = 0 := by
  rw [optionsLength, Nat.shiftLeft_eq]
  omega

theorem length_optionData_deserialize (c : Cursor) :
    (deserialize c).1.optionData.length = optionsLength (c.octet (c.pos + 1)) := by
  rw [deserialize]
  exact MobilityOptionField.length_deserialize (optionsLength (c.octet (c.pos + 1))) (c.advance 12)

/-- The options sent end at a multiple of eight octets, twelve octets behind the start. -/
theorem length_options_mod : h.toMobilityOptionField.serialize.length % 8 = 4 := by
  have hmod := h.toMobilityOptionField.getSerializedSize_mod
  rw [MobilityOptionField.length_serialize]
  omega

/-- What is read where an acknowledgement lies: the last four octets of its options are left out. -/
def decoded : Ipv6MobilityBindingAckHeader :=
  { h with
    headerLen := UInt8.ofNat (h.getSerializedSize / 8 - 1)
    checksum := 0
    reserved2 := UInt8.ofNat h.reserved2Word
    flags := fun f => (UInt8.ofNat h.reserved2Word).toNat.testBit f.bit
    optionData := h.toMobilityOptionField.serialize.take (h.toMobilityOptionField.getSerializedSize - 4) }

theorem optionsLength_serialize (hs : h.getSerializedSize ≤ 2048) :
    optionsLength (UInt8.ofNat (h.getSerializedSize / 8 - 1)) =
      h.toMobilityOptionField.getSerializedSize - 4 := by
  have hmod := h.length_options_mod
  rw [MobilityOptionField.length_serialize] at hmod
  have hsize : h.getSerializedSize = 12 + h.toMobilityOptionField.getSerializedSize := rfl
  have hlen : (UInt8.ofNat (h.getSerializedSize / 8 - 1)).toNat = h.getSerializedSize / 8 - 1 := by
    rw [UInt8.toNat_ofNat', Nat.mod_eq_of_lt (by omega)]
  rw [optionsLength, Nat.shiftLeft_eq, hlen]
  omega

theorem deserialize_serialize (hs : h.getSerializedSize ≤ 2048) {c : Cursor} (hc : c.At h.serialize) :
    deserialize c = (h.decoded, c.advance (h.getSerializedSize - 4)) := by
  have hlen : (h.toMobilityOptionField.serialize.take
      (h.toMobilityOptionField.getSerializedSize - 4)).length =
      h.toMobilityOptionField.getSerializedSize - 4 :=
    List.length_take_of_le (by rw [MobilityOptionField.length_serialize]; exact Nat.sub_le _ _)
  have hoptions := MobilityOptionField.reads_deserialize (o := 12)
    (hlen.trans (h.optionsLength_serialize hs).symm)
  have hread : deserialize.Reads ([h.payloadProto] ++ ([UInt8.ofNat (h.getSerializedSize / 8 - 1)] ++
      ([h.mhType] ++ ([h.reserved] ++ (Iterator.writeU16 0 ++ ([h.status] ++
        ([UInt8.ofNat h.reserved2Word] ++ (Iterator.writeHtonU16 h.sequence ++
          (Iterator.writeHtonU16 h.lifetime ++ (h.toMobilityOptionField.serialize.take
            (h.toMobilityOptionField.getSerializedSize - 4) ++ [])))))))))) h.decoded :=
    (Iterator.reads_readU8 _).bind ((Iterator.reads_readU8 _).bind ((Iterator.reads_readU8 _).bind
      ((Iterator.reads_readU8 _).bind (Iterator.reads_readU16_zero.bind ((Iterator.reads_readU8 _).bind
        ((Iterator.reads_readU8 _).bind ((Iterator.reads_readNtohU16 _).bind
          ((Iterator.reads_readNtohU16 _).bind (hoptions.bind (.pure _))))))))))
  have hbytes : h.serialize = [h.payloadProto] ++ ([UInt8.ofNat (h.getSerializedSize / 8 - 1)] ++
      ([h.mhType] ++ ([h.reserved] ++ (Iterator.writeU16 0 ++ ([h.status] ++
        ([UInt8.ofNat h.reserved2Word] ++ (Iterator.writeHtonU16 h.sequence ++
          (Iterator.writeHtonU16 h.lifetime ++ (h.toMobilityOptionField.serialize.take
            (h.toMobilityOptionField.getSerializedSize - 4) ++ []))))))))) ++
      h.toMobilityOptionField.serialize.drop (h.toMobilityOptionField.getSerializedSize - 4) := by
    simp [serialize]
  rw [hbytes] at hc
  rw [hread c (Cursor.at_append_iff.mp hc).1]
  have hmod := h.length_options_mod
  rw [MobilityOptionField.length_serialize] at hmod
  have hsize : h.getSerializedSize = 12 + h.toMobilityOptionField.getSerializedSize := rfl
  refine congrArg (fun n => (h.decoded, c.advance n)) ?_
  simp only [List.length_append, List.length_cons, List.length_nil, hlen, Iterator.length_writeU16,
    Iterator.length_writeHtonU16]
  omega

/-- The acknowledgement comes out of a message with the status, the flags, the sequence number and the
lifetime it had and the options of the message, the whole message being read, and is sent again as
the same message. -/
structure RoundTrips : Prop where
  /-- The number of octets read, as it is returned. -/
  size : ∀ c : Cursor, c.At h.serialize → (deserialize c).1.getSerializedSize = h.serialize.length
  read : ∀ c : Cursor, c.At h.serialize → (deserialize c).1.status = h.status ∧
    (deserialize c).1.flags = h.flags ∧ (deserialize c).1.sequence = h.sequence ∧
    (deserialize c).1.lifetime = h.lifetime ∧
    (deserialize c).1.optionData = h.toMobilityOptionField.serialize
  again : ∀ c : Cursor, c.At h.serialize → (deserialize c).1.serialize = h.serialize

/-- No acknowledgement survives: `Deserialize` takes 16 octets for the fixed part, which is of 12. -/
theorem not_roundTrips (options : List Ipv6MobilityOptionHeader) : ¬ (h.addOptions options).RoundTrips := by
  intro hrt
  obtain ⟨-, -, -, -, hoptions⟩ := hrt.read _ (Cursor.at_ofList _)
  have hlen := congrArg (fun data => data.length % 8) hoptions
  simp only [length_optionData_deserialize, optionsLength_mod, length_options_mod] at hlen
  exact absurd hlen (by decide)

/-- The padding of an acknowledgement without options is lost. -/
theorem padding_lost : ¬ ∀ (h : Ipv6MobilityBindingAckHeader) (options : List Ipv6MobilityOptionHeader),
    (h.addOptions options).getSerializedSize ≤ 2048 → (h.addOptions options).RoundTrips := by
  intro hall
  obtain ⟨-, -, -, -, hoptions⟩ := (hall {} [] (by decide)).read _ (Cursor.at_ofList _)
  exact absurd hoptions (by decide +kernel)

end Ipv6MobilityBindingAckHeader

end Ns3.Pmip6.Wire
