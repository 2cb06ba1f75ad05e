import Ns3.Internet.Ipv6Header
import Ns3.Network.Iterator

/-!
# IPv6 extension headers

The headers that IPv6 packets carry between the IP header and what they transport
(`internet/model/ipv6-extension-header.cc`): hop-by-hop and destination options, which have the same fields, routing
and fragment headers.

* `removeHeader` — takes a header off a packet; `removeHeader_append` when its octets are in front.
* `reads_…` — each kind of header is read from what it is written as.
-/

namespace Ns3

open Lib Buffer

/-- `Packet::RemoveHeader`: the header that `Deserialize` reads and the octets behind it; nothing where it reads past
the end. -/
def removeHeader {H : Type} (deserialize : Reader H) (serializedSize : H → ℕ) (p : List UInt8) :
    Option (H × List UInt8) :=
  let (header, stop) := deserialize (Cursor.ofList p)
  if stop.pos ≤ p.length then some (header, p.drop (serializedSize header)) else none

theorem removeHeader_append {H : Type} {deserialize : Reader H} {serializedSize : H → ℕ} {bytes : List UInt8} {h : H}
    (hr : deserialize.Reads bytes h) (hsize : serializedSize h = bytes.length) (rest : List UInt8) :
    removeHeader deserialize serializedSize (bytes ++ rest) = some (h, rest) := by
  have hat : (Cursor.ofList (bytes ++ rest)).At bytes :=
    (Cursor.at_append_iff.mp (Cursor.at_ofList (bytes ++ rest))).1
  have hpos : ((Cursor.ofList (bytes ++ rest)).advance bytes.length).pos = bytes.length := Nat.zero_add _
  rw [removeHeader, hr _ hat]
  dsimp only
  rw [hpos, hsize, if_pos (by simp), List.drop_left]

theorem removeHeader_map {H K : Type} {deserialize : Reader H} {serializedSize : H → ℕ} {p : List UInt8} {h : H}
    {stop : Cursor} (hrun : deserialize (Cursor.ofList p) = (h, stop)) (f : H → K) :
    (removeHeader deserialize serializedSize p).map (fun x => f x.1) =
      if stop.pos ≤ p.length then some (f h) else none := by
  rw [removeHeader, hrun]
  dsimp only
  split_ifs <;> rfl

namespace Ipv6ExtensionHeader

/-- `GetLength`, of `m_length`. -/
def getLength (length : UInt8) : ℕ := (length.toNat + 1) * 8

/-- What `SetLength` makes of a length: `(length >> 3) - 1`, a `uint8_t`. -/
def ofLength (length : ℕ) : UInt8 := UInt8.ofNat (length / 8 + 255)

theorem ofLength_getLength (length : UInt8) : ofLength (getLength length) = length := by
  refine UInt8.toNat_inj.mp ?_
  rw [ofLength, getLength, Nat.mul_div_cancel _ (by decide), UInt8.toNat_ofNat']
  have hlt := length.toNat_lt
  omega

end Ipv6ExtensionHeader

open Ipv6ExtensionHeader

/-- `Ipv6ExtensionHopByHopHeader` and `Ipv6ExtensionDestinationHeader`. -/
structure Ipv6OptionsHeader where
  nextHeader : UInt8
  length : UInt8
  optionData : List UInt8

namespace Ipv6OptionsHeader

/-- `GetOptionsOffset`. -/
def optionsOffset : ℕ := 2

/-- `CalculatePad` for an alignment of `8n`, in 32 bits. -/
def calculatePad (h : Ipv6OptionsHeader) : ℕ := (2 ^ 32 - (h.optionData.length + optionsOffset) % 2 ^ 32) % 8

/-- `GetSerializedSize`. -/
def serializedSize (h : Ipv6OptionsHeader) : ℕ := optionsOffset + (h.optionData.length + h.calculatePad)

/-- What `Pad1` and `PadN` write. -/
def padding : ℕ → List UInt8
  | 0 => []
  | 1 => [0]
  | fill + 2 => 1 :: UInt8.ofNat fill :: List.replicate (UInt8.ofNat fill).toNat 0

/-- The header and its options, padded to eight octets. -/
def serialize (h : Ipv6OptionsHeader) : List UInt8 :=
  h.nextHeader :: ofLength (getLength h.length) :: (h.optionData ++ padding h.calculatePad)

/-- The header, with as many options as its length says. -/
def deserialize : Reader Ipv6OptionsHeader := do
  let nextHeader ← Iterator.readU8
  let length := ofLength (getLength (← Iterator.readU8))
  let optionData ← Iterator.read (getLength length - optionsOffset)
  pure ⟨nextHeader, length, optionData⟩

/-- The options fill the header. -/
def Valid (h : Ipv6OptionsHeader) : Prop := optionsOffset + h.optionData.length = getLength h.length

variable {h : Ipv6OptionsHeader}

theorem Valid.calculatePad_eq (hh : h.Valid) : h.calculatePad = 0 := by
  rw [Valid, getLength] at hh
  rw [calculatePad]
  omega

theorem Valid.serialize_eq (hh : h.Valid) : h.serialize = h.nextHeader :: h.length :: h.optionData := by
  rw [serialize, hh.calculatePad_eq, ofLength_getLength, padding, List.append_nil]

theorem Valid.length_serialize (hh : h.Valid) : h.serialize.length = getLength h.length := by
  rw [hh.serialize_eq, ← hh, List.length_cons, List.length_cons, optionsOffset, Nat.add_assoc, Nat.add_comm]

theorem Valid.serializedSize_eq (hh : h.Valid) : h.serializedSize = h.serialize.length := by
  rw [hh.length_serialize, serializedSize, hh.calculatePad_eq, Nat.add_zero]
  exact hh

theorem reads_deserialize (hh : h.Valid) : deserialize.Reads h.serialize h := by
  have hlength : h.optionData.length = getLength (ofLength (getLength h.length)) - optionsOffset := by
    rw [ofLength_getLength, ← hh, Nat.add_sub_cancel_left]
  have hdata := (Iterator.reads_read hlength).bind
    (f := fun optionData => pure (⟨h.nextHeader, ofLength (getLength h.length), optionData⟩ : Ipv6OptionsHeader))
    (.pure _)
  rw [List.append_nil] at hdata
  have hread : deserialize.Reads ([h.nextHeader] ++ ([h.length] ++ h.optionData))
      ⟨h.nextHeader, ofLength (getLength h.length), h.optionData⟩ :=
    (Iterator.reads_readU8 h.nextHeader).bind ((Iterator.reads_readU8 h.length).bind hdata)
  rw [ofLength_getLength] at hread
  rw [hh.serialize_eq]
  exact hread

/-- A header with options can be read if its octets are there. -/
theorem removeHeader_eq (p : List UInt8) (nextHeader length : UInt8) :
    (removeHeader deserialize serializedSize p).map (fun x => (x.1.nextHeader, x.1.length)) =
      some (nextHeader, length) ↔ p[0]? = some nextHeader ∧ p[1]? = some length ∧ getLength length ≤ p.length := by
  have hrun : deserialize (Cursor.ofList p) =
      (⟨p[0]?.getD 0, p[1]?.getD 0, (Iterator.read (getLength (p[1]?.getD 0) - 2) ((Cursor.ofList p).advance 2)).1⟩,
        ((Cursor.ofList p).advance 2).advance (getLength (p[1]?.getD 0) - 2)) := by
    have hlength : ofLength (getLength (p[1]?.getD 0)) = p[1]?.getD 0 := ofLength_getLength _
    rw [← hlength]
    rfl
  rw [removeHeader_map hrun fun h => (h.nextHeader, h.length)]
  have hpos :
      (((Cursor.ofList p).advance 2).advance (getLength (p[1]?.getD 0) - 2)).pos = getLength (p[1]?.getD 0) := by
    have hle : 8 ≤ getLength (p[1]?.getD 0) := Nat.le_mul_of_pos_left 8 (Nat.succ_pos _)
    change 0 + 2 + (getLength (p[1]?.getD 0) - 2) = _
    omega
  rw [hpos]
  clear hpos hrun
  rcases p with _ | ⟨nextHeader', _ | ⟨length', rest⟩⟩
  · simp [getLength]
  · simp [getLength]
  · simp only [List.getElem?_cons_zero, List.getElem?_cons_succ, Option.getD_some, Option.some.injEq]
    rw [Option.ite_none_right_eq_some, Option.some.injEq, Prod.mk.injEq]
    constructor
    · rintro ⟨hle, rfl, rfl⟩
      exact ⟨rfl, rfl, hle⟩
    · rintro ⟨rfl, rfl, hle⟩
      exact ⟨hle, rfl, rfl⟩

end Ipv6OptionsHeader

/-- The header of a fragment. -/
structure Ipv6ExtensionFragmentHeader where
  nextHeader : UInt8
  length : UInt8
  /-- `m_offset`: the offset in octets, with the flag for more fragments in the lowest bit. -/
  offset : ℕ
  identification : ℕ

namespace Ipv6ExtensionFragmentHeader

/-- `Ipv6ExtensionFragmentHeader ()`. -/
def new : Ipv6ExtensionFragmentHeader := ⟨0, 0, 0, 0⟩

/-- `GetSerializedSize`. -/
def serializedSize : ℕ := 8

variable (h : Ipv6ExtensionFragmentHeader)

/-- `SetOffset`: `offset & (~7)` beside the flag. -/
def setOffset (offset : ℕ) : Ipv6ExtensionFragmentHeader :=
  { h with offset := h.offset % 2 + offset / 8 * 8 }

/-- The offset without its flag bit. -/
def getOffset : ℕ := h.offset / 2 * 2

/-- The flag for more fragments is set. -/
def setMoreFragment (moreFragment : Bool) : Ipv6ExtensionFragmentHeader :=
  { h with offset := h.offset / 2 * 2 + moreFragment.toNat }

/-- The flag for more fragments. -/
def getMoreFragment : Bool := h.offset % 2 = 1

/-- The eight octets of the header. -/
def serialize : List UInt8 :=
  h.nextHeader :: ofLength (getLength h.length) :: (bigEndian 2 h.offset ++ bigEndian 4 h.identification)

/-- A fragment header is read. -/
def deserialize : Reader Ipv6ExtensionFragmentHeader := do
  let nextHeader ← Iterator.readU8
  let length := ofLength (getLength (← Iterator.readU8))
  let offset ← Reader.number 2
  let identification ← Reader.number 4
  pure ⟨nextHeader, length, offset, identification⟩

/-- The fields fit into their octets. -/
def Valid : Prop := h.offset < 2 ^ 16 ∧ h.identification < 2 ^ 32

@[simp] theorem length_serialize : h.serialize.length = 8 := by
  simp [serialize]

theorem reads_deserialize {h : Ipv6ExtensionFragmentHeader} (hh : h.Valid) : deserialize.Reads h.serialize h := by
  have hoffset : h.offset % 256 ^ 2 = h.offset := Nat.mod_eq_of_lt hh.1
  have hidentification : h.identification % 256 ^ 4 = h.identification := Nat.mod_eq_of_lt hh.2
  have hlast := (Reader.reads_number 4 h.identification).bind
    (f := fun identification => pure (⟨h.nextHeader, ofLength (getLength h.length), h.offset % 256 ^ 2,
      identification⟩ : Ipv6ExtensionFragmentHeader)) (.pure _)
  rw [List.append_nil] at hlast
  have hread : deserialize.Reads ([h.nextHeader] ++ ([h.length] ++ (bigEndian 2 h.offset ++ bigEndian 4
      h.identification))) ⟨h.nextHeader, ofLength (getLength h.length), h.offset % 256 ^ 2,
        h.identification % 256 ^ 4⟩ :=
    (Iterator.reads_readU8 h.nextHeader).bind ((Iterator.reads_readU8 h.length).bind
      ((Reader.reads_number 2 h.offset).bind hlast))
  rw [hoffset, hidentification, ofLength_getLength] at hread
  rw [serialize, ofLength_getLength]
  exact hread

end Ipv6ExtensionFragmentHeader

/-- A routing header of type 0. -/
structure Ipv6ExtensionLooseRoutingHeader where
  nextHeader : UInt8
  length : UInt8
  typeRouting : UInt8
  segmentsLeft : UInt8
  routersAddress : List Ipv6Address

namespace Ipv6ExtensionLooseRoutingHeader

variable (h : Ipv6ExtensionLooseRoutingHeader)

/-- `GetSerializedSize`. -/
def serializedSize : ℕ := 8 + h.routersAddress.length * 16

/-- The header, four octets of zeros, and the addresses. -/
def serialize (h : Ipv6ExtensionLooseRoutingHeader) : List UInt8 :=
  h.nextHeader :: ofLength (getLength h.length) :: h.typeRouting :: h.segmentsLeft ::
    (List.replicate 4 0 ++ h.routersAddress.flatMap Ipv6Address.serialize)

/-- The loop of `Deserialize`. -/
def readAddresses : ℕ → Reader (List Ipv6Address)
  | 0 => pure []
  | n + 1 => do
    let address ← Ipv6Address.set <$> Iterator.read 16
    let rest ← readAddresses n
    pure (address :: rest)

/-- `Deserialize`, after `SetNumberAddress`. -/
def deserialize (n : ℕ) : Reader Ipv6ExtensionLooseRoutingHeader := do
  let nextHeader ← Iterator.readU8
  let length := ofLength (getLength (← Iterator.readU8))
  let typeRouting ← Iterator.readU8
  let segmentsLeft ← Iterator.readU8
  let _ ← Iterator.read 4
  let routersAddress ← readAddresses n
  pure ⟨nextHeader, length, typeRouting, segmentsLeft, routersAddress⟩

/-- The addresses fill the header. -/
def Valid : Prop := 2 * h.routersAddress.length = h.length.toNat

theorem length_flatMap_serialize (l : List Ipv6Address) : (l.flatMap Ipv6Address.serialize).length = l.length * 16 := by
  induction l with
  | nil => rfl
  | cons a l ih =>
    rw [List.flatMap_cons, List.length_append, Ipv6Address.length_serialize, ih, List.length_cons, Nat.succ_mul,
      Nat.add_comm]

theorem length_serialize : h.serialize.length = h.serializedSize := by
  rw [serialize, serializedSize]
  simp only [List.length_cons, List.length_append, List.length_replicate, length_flatMap_serialize]
  omega

theorem Valid.length_serialize {h : Ipv6ExtensionLooseRoutingHeader} (hh : h.Valid) :
    h.serialize.length = getLength h.length := by
  rw [Ipv6ExtensionLooseRoutingHeader.length_serialize, serializedSize, getLength, ← hh]
  omega

theorem reads_readAddresses (l : List Ipv6Address) :
    (readAddresses l.length).Reads (l.flatMap Ipv6Address.serialize) l := by
  induction l with
  | nil => exact .pure _
  | cons a l ih =>
    have hrest := ih.bind (f := fun rest => pure (a :: rest)) (.pure _)
    rw [List.append_nil] at hrest
    exact (Ipv6Address.reads_address a).bind hrest

theorem reads_deserialize : (deserialize h.routersAddress.length).Reads h.serialize h := by
  have hlast := (reads_readAddresses h.routersAddress).bind
    (f := fun routersAddress => pure (⟨h.nextHeader, ofLength (getLength h.length), h.typeRouting, h.segmentsLeft,
      routersAddress⟩ : Ipv6ExtensionLooseRoutingHeader)) (.pure _)
  rw [List.append_nil] at hlast
  have hreserved : (Iterator.read 4).Reads (List.replicate 4 0) (List.replicate 4 0) := Iterator.reads_read rfl
  have hread : (deserialize h.routersAddress.length).Reads ([h.nextHeader] ++ ([h.length] ++ ([h.typeRouting] ++
      ([h.segmentsLeft] ++ (List.replicate 4 0 ++ h.routersAddress.flatMap Ipv6Address.serialize)))))
      ⟨h.nextHeader, ofLength (getLength h.length), h.typeRouting, h.segmentsLeft, h.routersAddress⟩ :=
    (Iterator.reads_readU8 h.nextHeader).bind ((Iterator.reads_readU8 h.length).bind
      ((Iterator.reads_readU8 h.typeRouting).bind ((Iterator.reads_readU8 h.segmentsLeft).bind (hreserved.bind hlast))))
  rw [ofLength_getLength] at hread
  rw [serialize, ofLength_getLength]
  exact hread

theorem readAddresses_apply (n : ℕ) (c : Cursor) :
    (readAddresses n c).1.length = n ∧ (readAddresses n c).2.pos = c.pos + 16 * n := by
  induction n generalizing c with
  | zero => exact ⟨rfl, rfl⟩
  | succ n ih =>
    obtain ⟨hlength, hpos⟩ := ih (c.advance 16)
    refine ⟨congrArg Nat.succ hlength, hpos.trans ?_⟩
    rw [Cursor.pos_advance]
    omega

/-- A loose routing header can be read if its octets are there. -/
theorem removeHeader_eq (p : List UInt8) (n : ℕ) :
    ∃ h, h.routersAddress.length = n ∧ (8 + 16 * n ≤ p.length → p[0]? = some h.nextHeader ∧
      p[1]? = some h.length ∧ p[3]? = some h.segmentsLeft) ∧ removeHeader (deserialize n) serializedSize p =
        if 8 + 16 * n ≤ p.length then some (h, p.drop h.serializedSize) else none := by
  have hrun : deserialize n (Cursor.ofList p) =
      (⟨p[0]?.getD 0, p[1]?.getD 0, p[2]?.getD 0, p[3]?.getD 0, (readAddresses n ((Cursor.ofList p).advance 8)).1⟩,
        (readAddresses n ((Cursor.ofList p).advance 8)).2) := by
    have hlength : ofLength (getLength (p[1]?.getD 0)) = p[1]?.getD 0 := ofLength_getLength _
    rw [← hlength]
    rfl
  obtain ⟨hlength, hpos⟩ := readAddresses_apply n ((Cursor.ofList p).advance 8)
  have hget : ∀ i, i < p.length → p[i]? = some (p[i]?.getD 0) := by
    intro i hi
    rw [List.getElem?_eq_getElem hi, Option.getD_some]
  refine ⟨⟨p[0]?.getD 0, p[1]?.getD 0, p[2]?.getD 0, p[3]?.getD 0, _⟩, hlength,
    fun hle => ⟨hget 0 (by omega), hget 1 (by omega), hget 3 (by omega)⟩, ?_⟩
  rw [removeHeader, hrun]
  dsimp only
  rw [hpos, Cursor.pos_advance, show (Cursor.ofList p).pos = 0 from rfl, Nat.zero_add]

end Ipv6ExtensionLooseRoutingHeader

end Ns3
