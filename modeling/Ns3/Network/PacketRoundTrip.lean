import Ns3.Network.PacketParts

/-!
# Packets that are written and read again

`Packet::Serialize` writes the parts of a packet one behind the other, each padded to a multiple of four octets.
`Packet::Deserialize` moves its pointer over the padding but does not subtract it from the size that is left, and
reports success only if nothing is left.

* `serialization_iff` — a packet arrives as it was, and both sides report success, exactly if its metadata needs no
  padding, since the other two parts never do. Whatever is reported, the packet is read whole (`transfer`).
* `payload_reported_lost` — a packet with payload alone has metadata of 35 octets.
-/

namespace Ns3

open Lib

/-- An allocator with zeros in its blocks. -/
def PacketMetadata.Allocator.zeros : PacketMetadata.Allocator where
  create _ n := ⟨1, 0, List.replicate n 0⟩
  count_create _ _ := rfl
  le_create _ _ := Nat.le_of_eq List.length_replicate.symm
  create_lt _ _ h := Nat.lt_of_le_of_lt (Nat.le_of_eq List.length_replicate) h

/-! ### The packet -/

namespace Packet

open PacketMetadata

variable {types : IidManager} {enable : Bool} {p : Packet} {items : List (SmallItem × ExtraItem)}

/-- The bytes of a packet, as `CopyData` copies them. -/
def bytes (p : Packet) : List UInt8 := p.buffer.copyData p.data p.buffer.getSize

/-- The octets of the numbers in the nix vector. -/
def nixLength (p : Packet) : ℕ := (p.nixVector.map fun nix => 4 * nix.nixVector.length).getD 0

/-- The sizes are numbers of the types that the program counts in: the offsets of the items, which may all have to be
written with an `ExtraItem`, are numbers of `uint16_t`, and the size of the packet is one of `uint32_t`. -/
def Fits (types : IidManager) (p : Packet) : Prop :=
  ∀ items, p.metadata.items = some items →
    total items < 2 ^ 16 ∧ p.nixLength + rawTotal types items + p.buffer.getSize + 96 < 2 ^ 32

/-- A part that can be written is, behind its size. -/
theorem putPart_eq (order : ByteOrder) {maxSize size n : ℕ} {serialize : Pen → ℕ → Option (Bool × Pen)}
    {bytes : List UInt8} (hn : bytes.length = n) (hpad : n + 4 < 2 ^ 32) (hmax : size + n ≤ maxSize)
    (hlt : maxSize < 2 ^ 32) {pen : Pen} (hroom : 4 + pad4 n ≤ pen.after.length)
    (hserialize : serialize (pen.wrote (order.encode 4 (n + 4))) n =
      some (true, (pen.wrote (order.encode 4 (n + 4))).wrote bytes)) :
    ∃ pad, pad.length = pad4 n - n ∧ putPart order maxSize size n serialize pen =
      some (true, size + n, pen.wrote (order.encode 4 (n + 4) ++ (bytes ++ pad))) := by
  have hle := (pad4_spec (n := n) (by omega)).1
  have hword := order.length_encode 4 (n + 4)
  have hsum : bytes.length + (pad4 n - n) = pad4 n := by omega
  have hafter : (pen.wrote (order.encode 4 (n + 4))).after.length = pen.after.length - 4 := by
    rw [Pen.length_after_wrote, hword]
  obtain ⟨pad, hpadlen, hseek⟩ := (pen.wrote (order.encode 4 (n + 4))).seek_wrote bytes (n := pad4 n - n) (by omega)
  rw [hsum] at hseek
  have hmerge := Pen.wrote_wrote pen (order.encode 4 (n + 4)) (bytes ++ pad)
  have hadd₁ : add32 size n = size + n := add32_of_lt (by omega)
  have hadd₂ : add32 n 4 = n + 4 := add32_of_lt hpad
  refine ⟨pad, hpadlen, ?_⟩
  simp only [putPart, hadd₁, hadd₂, hmax, if_true, pen.put_eq (show (order.encode 4 (n + 4)).length ≤ _ by omega),
    hserialize, hseek, hmerge, Option.bind_eq_bind, Option.bind_some]

/-- The part for the nix vector. -/
def nixRaw (order : ByteOrder) (p : Packet) : List UInt8 :=
  match p.nixVector with
  | some nix => order.encode 4 (nix.getSerializedSize + 4) ++ NixVector.octets order nix.words
  | none => order.encode 4 4

/-- The part for a nix vector that is there. -/
theorem nixSize_of_some {nix : NixVector} (hnix : p.nixVector = some nix) (h : p.nixLength + 96 < 2 ^ 32) :
    12 + 4 * nix.nixVector.length < 2 ^ 32 - 80 ∧ nix.getSerializedSize = 12 + 4 * nix.nixVector.length ∧
      pad4 nix.getSerializedSize = nix.getSerializedSize ∧ p.nixSize = nix.getSerializedSize ∧
      p.nixSize = p.nixLength + 12 := by
  have hlen : p.nixLength = 4 * nix.nixVector.length := by
    rw [nixLength, hnix]
    rfl
  have hsize : nix.getSerializedSize = 12 + 4 * nix.nixVector.length := by
    rw [NixVector.getSerializedSize, add32_of_lt (by omega)]
  have hpad := (pad4_spec (n := nix.getSerializedSize) (by omega)).2.2.2 (by omega)
  have hnixSize : p.nixSize = nix.getSerializedSize := by
    rw [nixSize, hnix]
    exact hpad
  exact ⟨by omega, hsize, hpad, hnixSize, by omega⟩

theorem nixSize_of_none (hnix : p.nixVector = none) : p.nixSize = 0 := by
  rw [nixSize, hnix]
  rfl

section

variable (h : p.nixLength + 96 < 2 ^ 32)
include h

theorem nixSize_spec : 4 ∣ p.nixSize ∧ p.nixSize ≤ p.nixLength + 12 := by
  cases hnix : p.nixVector with
  | none =>
    rw [nixSize_of_none hnix]
    exact ⟨Nat.dvd_zero 4, Nat.zero_le _⟩
  | some nix =>
    obtain ⟨-, hsize, -, heq, hle⟩ := nixSize_of_some hnix h
    exact ⟨by omega, by omega⟩

/-- The part for the nix vector is written. -/
theorem putNixVector_eq (order : ByteOrder) {maxSize : ℕ}
    (hmax : p.nixSize + 4 ≤ maxSize) (hlt : maxSize < 2 ^ 32) {pen : Pen} (hroom : p.nixSize + 4 ≤ pen.after.length) :
    ∃ size, size ≤ p.nixSize + 4 ∧
      p.putNixVector order maxSize pen = some (true, size, pen.wrote (p.nixRaw order)) := by
  cases hnix : p.nixVector with
  | none =>
    have hword := order.length_encode 4 4
    have hzero := nixSize_of_none hnix
    refine ⟨4, by omega, ?_⟩
    simp only [putNixVector, nixRaw, hnix, show 4 ≤ maxSize by omega, if_true,
      pen.put_eq (show (order.encode 4 4).length ≤ _ by omega), Option.bind_eq_bind, Option.bind_some]
  | some nix =>
    obtain ⟨hnixlt, hsize, hpad, heq, -⟩ := nixSize_of_some hnix h
    have hword := order.length_encode 4 (nix.getSerializedSize + 4)
    have hlen : (NixVector.octets order nix.words).length = nix.getSerializedSize := by
      rw [NixVector.length_octets, NixVector.getSerializedSize_eq (by omega)]
    obtain ⟨pad, hpadlen, hput⟩ := putPart_eq order hlen (by omega) (show 0 + nix.getSerializedSize ≤ maxSize by omega)
      hlt (show 4 + pad4 nix.getSerializedSize ≤ pen.after.length by omega)
      (NixVector.serialize_eq order (by omega) (by rw [Pen.length_after_wrote]; omega))
    obtain rfl := List.length_eq_zero_iff.mp (by omega : pad.length = 0)
    rw [List.append_nil] at hput
    refine ⟨0 + nix.getSerializedSize, by omega, ?_⟩
    simp only [putNixVector, nixRaw, hnix, hput]

theorem length_nixRaw (order : ByteOrder) :
    (p.nixRaw order).length = p.nixSize + 4 := by
  cases hnix : p.nixVector with
  | none =>
    simp only [nixRaw, hnix]
    rw [order.length_encode, nixSize_of_none hnix]
  | some nix =>
    obtain ⟨hnixlt, hsize, -, heq, -⟩ := nixSize_of_some hnix h
    simp only [nixRaw, hnix]
    rw [List.length_append, order.length_encode, NixVector.length_octets, heq,
      NixVector.getSerializedSize_eq (by omega), Nat.add_comm]

/-- The part for the nix vector is read. -/
theorem readNixVector_append (order : ByteOrder) (rest : List UInt8) :
    ∃ l, order.read 4 (p.nixRaw order ++ rest) = some (p.nixSize + 4, l) ∧
      readNixVector order (p.nixSize + 4) l = some (p.nixVector, rest) := by
  cases hnix : p.nixVector with
  | none =>
    have hread := order.read_append (k := 4) (show 4 < 256 ^ 4 by omega) rest
    refine ⟨rest, ?_, ?_⟩
    · simp only [nixRaw, hnix, nixSize_of_none hnix]
      exact hread
    · rw [nixSize_of_none hnix]
      rfl
  | some nix =>
    obtain ⟨hnixlt, hsize, hpad, heq, -⟩ := nixSize_of_some hnix h
    have hlen : (NixVector.octets order nix.words).length = nix.getSerializedSize := by
      rw [NixVector.length_octets, NixVector.getSerializedSize_eq (by omega)]
    refine ⟨NixVector.octets order nix.words ++ rest, ?_, ?_⟩
    · simp only [nixRaw, hnix, List.append_assoc, heq]
      exact order.read_append (by omega) _
    · have hskip : (NixVector.octets order nix.words ++ rest).drop (pad4 (sub32 (nix.getSerializedSize + 4) 4)) =
          rest := by
        rw [sub32_of_le (Nat.le_add_left 4 _), Nat.add_sub_cancel, hpad, List.drop_left' hlen]
      rw [heq, readNixVector, if_pos (by omega), NixVector.deserialize_append order (by omega), Option.bind_eq_bind,
        Option.bind_some, hskip]

end

/-- What the sizes are. -/
theorem getSerializedSize_eq {x y z : ℕ} (hsized : p.buffer.Sized x y z) (hitems : p.metadata.items = some items)
    (hknown : ∀ item ∈ items, Known types item) (henable : enable = false → items = [])
    (hfits : p.nixLength + rawTotal types items + p.buffer.getSize + 96 < 2 ^ 32) :
    p.buffer.getSize = x + y + z ∧ p.buffer.getSerializedSize = 12 + pad4 x + pad4 z ∧
      p.metadata.getSerializedSize types enable = some (8 + rawTotal types items) ∧
      p.getSerializedSize types enable = some
        (p.nixSize + 4 + pad4 (8 + rawTotal types items) + 4 + (12 + pad4 x + pad4 z) + 4) := by
  have hstop := hsized.stop_eq
  have hgetSize : p.buffer.getSize = x + y + z := by
    rw [p.inBounds.getSize_eq]
    omega
  have hbuffer := Buffer.getSerializedSize_eq p.inBounds hsized (by omega)
  have hmeta := PacketMetadata.getSerializedSize_eq hitems hknown henable (by omega)
  have hx := pad4_spec (n := x) (by omega)
  have hz := pad4_spec (n := z) (by omega)
  have hm := pad4_spec (n := 8 + rawTotal types items) (by omega)
  have hb := (pad4_spec (n := 12 + pad4 x + pad4 z) (by omega)).2.2.2 (by omega)
  have hnix := (nixSize_spec (p := p) (by omega)).2
  refine ⟨hgetSize, hbuffer, hmeta, ?_⟩
  have e₁ : add32 p.nixSize 4 = p.nixSize + 4 := add32_of_lt (by omega)
  have e₂ : add32 (p.nixSize + 4) (pad4 (8 + rawTotal types items)) = _ := add32_of_lt (by omega)
  have e₃ : add32 (p.nixSize + 4 + pad4 (8 + rawTotal types items)) 4 = _ := add32_of_lt (by omega)
  have e₄ : add32 (p.nixSize + 4 + pad4 (8 + rawTotal types items) + 4) (12 + pad4 x + pad4 z) = _ :=
    add32_of_lt (by omega)
  have e₅ : add32 (p.nixSize + 4 + pad4 (8 + rawTotal types items) + 4 + (12 + pad4 x + pad4 z)) 4 = _ :=
    add32_of_lt (by omega)
  simp only [getSerializedSize, hmeta, hbuffer, hb, e₁, e₂, e₃, e₄, e₅, Option.bind_eq_bind, Option.bind_some]

/-- The part for the metadata, with its padding, and the part for the buffer. -/
def parts (types : IidManager) (order : ByteOrder) (p : Packet) (items : List (SmallItem × ExtraItem)) (y : ℕ)
    (pad start pad₁ stop pad₂ : List UInt8) : List UInt8 :=
  order.encode 4 (8 + rawTotal types items + 4) ++
      (order.encode 8 p.metadata.packetUid.toNat ++ raws types order items ++ pad) ++
    (order.encode 4 (12 + pad4 start.length + pad4 stop.length + 4) ++ Buffer.raw order y start pad₁ stop pad₂)

/-- A packet is written whole. -/
theorem serialize_eq (hitems : p.metadata.items = some items) (hknown : ∀ item ∈ items, Known types item)
    (henable : enable = false → items = [])
    (hfits : p.nixLength + rawTotal types items + p.buffer.getSize + 96 < 2 ^ 32) (order : ByteOrder) :
    ∃ size, p.getSerializedSize types enable = some size ∧ ∀ block, block.length = size →
      ∃ y pad start pad₁ stop pad₂, p.bytes = start ++ (List.replicate y 0 ++ stop) ∧
        pad.length = pad4 (8 + rawTotal types items) - (8 + rawTotal types items) ∧
        pad₁.length = pad4 start.length - start.length ∧ p.buffer.getSize = start.length + y + stop.length ∧
        size = p.nixSize + 4 + pad4 (8 + rawTotal types items) + 4 +
          (12 + pad4 start.length + pad4 stop.length) + 4 ∧
        p.serialize types enable order ⟨[], block⟩ size =
          some (true, (⟨[], block⟩ : Pen).wrote
            (p.nixRaw order ++ parts types order p items y pad start pad₁ stop pad₂)) := by
  obtain ⟨x, y, z, hsized⟩ := p.inBounds.exists_sized
  obtain ⟨hgetSize, hbuffer, hmeta, hsize⟩ := getSerializedSize_eq hsized hitems hknown henable hfits
  have hx := pad4_spec (n := x) (by omega)
  have hz := pad4_spec (n := z) (by omega)
  have hM := pad4_spec (n := 8 + rawTotal types items) (by omega)
  have hB := (pad4_spec (n := 12 + pad4 x + pad4 z) (by omega)).2.2.2 (by omega)
  have hnix := (nixSize_spec (p := p) (by omega)).2
  obtain ⟨total, htotal⟩ : ∃ total,
      total = p.nixSize + 4 + pad4 (8 + rawTotal types items) + 4 + (12 + pad4 x + pad4 z) + 4 := ⟨_, rfl⟩
  rw [← htotal] at hsize
  refine ⟨total, hsize, fun block hblock => ?_⟩
  have hnixRaw := length_nixRaw (p := p) (by omega) order
  have hword : (order.encode 4 (8 + rawTotal types items + 4)).length = 4 := order.length_encode 4 _
  have hword' : (order.encode 4 (12 + pad4 x + pad4 z + 4)).length = 4 := order.length_encode 4 _
  -- the nix vector
  obtain ⟨size, hle, hput₁⟩ := putNixVector_eq (by omega) order (show p.nixSize + 4 ≤ total by omega) (by omega)
    (show p.nixSize + 4 ≤ (⟨[], block⟩ : Pen).after.length by change _ ≤ block.length; omega)
  obtain ⟨pen₁, hpen₁⟩ : ∃ pen₁, (⟨[], block⟩ : Pen).wrote (p.nixRaw order) = pen₁ := ⟨_, rfl⟩
  have hafter₁ : pen₁.after.length = total - (p.nixSize + 4) := by
    rw [← hpen₁, Pen.length_after_wrote, hnixRaw, ← hblock]
  -- the metadata
  have hmetaRaw : (order.encode 8 p.metadata.packetUid.toNat ++ raws types order items).length =
      8 + rawTotal types items := by
    rw [List.length_append, order.length_encode, length_raws]
  obtain ⟨pad, hpad, hput₂⟩ := putPart_eq order hmetaRaw (by omega)
    (show size + (8 + rawTotal types items) ≤ total by omega) (by omega)
    (show 4 + pad4 (8 + rawTotal types items) ≤ pen₁.after.length by omega)
    (PacketMetadata.serialize_eq hitems hknown order (by omega) (by rw [Pen.length_after_wrote]; omega))
  obtain ⟨metaPart, hmetaPart⟩ : ∃ metaPart, order.encode 4 (8 + rawTotal types items + 4) ++
      (order.encode 8 p.metadata.packetUid.toNat ++ raws types order items ++ pad) = metaPart := ⟨_, rfl⟩
  have hmetaLen : metaPart.length = 4 + pad4 (8 + rawTotal types items) := by
    rw [← hmetaPart, List.length_append, @List.length_append _ _ pad, hmetaRaw, hpad, hword]
    omega
  rw [hmetaPart] at hput₂
  obtain ⟨pen₂, hpen₂⟩ : ∃ pen₂, pen₁.wrote metaPart = pen₂ := ⟨_, rfl⟩
  have hafter₂ : pen₂.after.length = 12 + pad4 x + pad4 z + 4 := by
    rw [← hpen₂, Pen.length_after_wrote, hmetaLen]
    omega
  -- the buffer
  have hroom : 12 + pad4 x + pad4 z ≤ (pen₂.wrote (order.encode 4 (12 + pad4 x + pad4 z + 4))).after.length := by
    rw [Pen.length_after_wrote, hafter₂, hword']
    omega
  obtain ⟨start, pad₁, stop, pad₂, rfl, hpad₁, rfl, hpad₂, hcontent, hserialize⟩ :=
    Buffer.serialize_eq order p.inBounds hsized (by omega) hroom
  have hbufRaw : (Buffer.raw order y start pad₁ stop pad₂).length =
      12 + pad4 start.length + pad4 stop.length := by
    simp only [Buffer.raw, List.length_append, order.length_encode, hpad₁, hpad₂]
    omega
  obtain ⟨pad', hpad', hput₃⟩ := putPart_eq order hbufRaw (by omega)
    (show size + (8 + rawTotal types items) + (12 + pad4 start.length + pad4 stop.length) ≤ total by omega) (by omega)
    (show _ ≤ pen₂.after.length by omega) hserialize
  obtain rfl := List.length_eq_zero_iff.mp (by omega : pad'.length = 0)
  rw [List.append_nil] at hput₃
  have hbytes : p.bytes = start ++ (List.replicate y 0 ++ stop) := (p.inBounds.copyData_eq p.data).trans hcontent
  refine ⟨y, pad, start, pad₁, stop, pad₂, hbytes, hpad, hpad₁, hgetSize, htotal, ?_⟩
  have hall : pen₂.wrote (order.encode 4 (12 + pad4 start.length + pad4 stop.length + 4) ++
      Buffer.raw order y start pad₁ stop pad₂) =
        (⟨[], block⟩ : Pen).wrote (p.nixRaw order ++ parts types order p items y pad start pad₁ stop pad₂) := by
    rw [← hpen₂, ← hpen₁, Pen.wrote_wrote, Pen.wrote_wrote, parts, hmetaPart]
  rw [hall] at hput₃
  simp only [serialize, hput₁, hpen₁, hmeta, hput₂, hpen₂, hbuffer, hput₃, Option.bind_eq_bind, Option.bind_some,
    if_true]

/-- What was written is read; what is reported is whether the metadata needed no padding. -/
theorem deserialize_append (hknown : ∀ item ∈ items, Known types item) (hbounded : ∀ item ∈ items, Bounded item)
    (hoffsets : PacketMetadata.total items < 2 ^ 16) (order : ByteOrder) (alloc : PacketMetadata.Allocator)
    (balloc : Buffer.Allocator) {m : Buffer.Memory} (hm : m.Sound) {this : ℕ}
    (hthis : m.buffers.lookup this = none) {pad start pad₁ : List UInt8} (y : ℕ) (stop pad₂ rest : List UInt8)
    (hpad : pad.length = pad4 (8 + rawTotal types items) - (8 + rawTotal types items))
    (hpad₁ : pad₁.length = pad4 start.length - start.length)
    (hlt : p.nixLength + rawTotal types items + (start.length + y + stop.length) + 96 < 2 ^ 32) :
    ∃ q, deserialize types order alloc balloc m this
        (p.nixRaw order ++ parts types order p items y pad start pad₁ stop pad₂ ++ rest)
        (p.nixSize + 4 + pad4 (8 + rawTotal types items) + 4 +
          (12 + pad4 start.length + pad4 stop.length) + 4) = some (decide (4 ∣ rawTotal types items), q) ∧
      q.memory.bytes this = some (start ++ (List.replicate y 0 ++ stop)) ∧
      q.metadata.packetUid = p.metadata.packetUid ∧ q.metadata.Holds (items.map (arrived types)) ∧
      q.nixVector = p.nixVector := by
  have hx := pad4_spec (n := start.length) (by omega)
  have hz := pad4_spec (n := stop.length) (by omega)
  have hM := pad4_spec (n := 8 + rawTotal types items) (by omega)
  have hnix := (nixSize_spec (p := p) (by omega)).2
  have hmetaRaw : (order.encode 8 p.metadata.packetUid.toNat ++ raws types order items).length =
      8 + rawTotal types items := by
    rw [List.length_append, order.length_encode, length_raws]
  obtain ⟨l₁, hread₁, hnixVector⟩ := readNixVector_append (p := p) (by omega) order
    (parts types order p items y pad start pad₁ stop pad₂ ++ rest)
  have hread₂ := order.read_append (k := 4) (show 8 + rawTotal types items + 4 < 256 ^ 4 by omega)
    (order.encode 8 p.metadata.packetUid.toNat ++ raws types order items ++
      (pad ++ (order.encode 4 (12 + pad4 start.length + pad4 stop.length + 4) ++
        (Buffer.raw order y start pad₁ stop pad₂ ++ rest))))
  obtain ⟨metadata, hmetadata, hholds, huid⟩ := PacketMetadata.deserialize_append order alloc p.metadata.packetUid
    hknown hbounded (by omega) hoffsets (pad ++ (order.encode 4 (12 + pad4 start.length + pad4 stop.length + 4) ++
        (Buffer.raw order y start pad₁ stop pad₂ ++ rest)))
  have hread₃ := order.read_append (k := 4) (show 12 + pad4 start.length + pad4 stop.length + 4 < 256 ^ 4 by omega)
    (Buffer.raw order y start pad₁ stop pad₂ ++ rest)
  obtain ⟨m', hm', hbytes⟩ : ∃ m', m.deserialize order balloc this (Buffer.raw order y start pad₁ stop pad₂ ++ rest)
      (12 + pad4 start.length + pad4 stop.length + 4) = some (true, m') ∧
        m'.bytes this = some (start ++ (List.replicate y 0 ++ stop)) :=
    hm.deserialize order balloc hthis hpad₁ (by omega) rest
  refine ⟨⟨m', metadata, p.nixVector⟩, ?_, hbytes, huid, hholds, rfl⟩
  have hparts : p.nixRaw order ++ parts types order p items y pad start pad₁ stop pad₂ ++ rest =
      p.nixRaw order ++ (parts types order p items y pad start pad₁ stop pad₂ ++ rest) := List.append_assoc ..
  have hparts' : parts types order p items y pad start pad₁ stop pad₂ ++ rest =
      order.encode 4 (8 + rawTotal types items + 4) ++
        (order.encode 8 p.metadata.packetUid.toNat ++ raws types order items ++
          (pad ++ (order.encode 4 (12 + pad4 start.length + pad4 stop.length + 4) ++
            (Buffer.raw order y start pad₁ stop pad₂ ++ rest)))) := by
    simp only [parts, List.append_assoc]
  have e₁ : sub32 (p.nixSize + 4 + pad4 (8 + rawTotal types items) + 4 +
      (12 + pad4 start.length + pad4 stop.length) + 4) (p.nixSize + 4) =
        pad4 (8 + rawTotal types items) + 4 + (12 + pad4 start.length + pad4 stop.length) + 4 := by
    rw [sub32_of_le (by omega)]
    omega
  have e₂ : sub32 (pad4 (8 + rawTotal types items) + 4 + (12 + pad4 start.length + pad4 stop.length) + 4)
      (8 + rawTotal types items + 4) =
        pad4 (8 + rawTotal types items) - (8 + rawTotal types items) +
          (12 + pad4 start.length + pad4 stop.length + 4) := by
    rw [sub32_of_le (by omega)]
    omega
  have e₃ : sub32 (pad4 (8 + rawTotal types items) - (8 + rawTotal types items) +
      (12 + pad4 start.length + pad4 stop.length + 4)) (12 + pad4 start.length + pad4 stop.length + 4) =
        pad4 (8 + rawTotal types items) - (8 + rawTotal types items) := by
    rw [sub32_of_le (Nat.le_add_left _ _), Nat.add_sub_cancel]
  have hskip : ((order.encode 8 p.metadata.packetUid.toNat ++ raws types order items) ++
      (pad ++ (order.encode 4 (12 + pad4 start.length + pad4 stop.length + 4) ++
        (Buffer.raw order y start pad₁ stop pad₂ ++ rest)))).drop
          (pad4 (sub32 (8 + rawTotal types items + 4) 4)) =
      order.encode 4 (12 + pad4 start.length + pad4 stop.length + 4) ++
        (Buffer.raw order y start pad₁ stop pad₂ ++ rest) := by
    rw [sub32_of_le (Nat.le_add_left 4 _), Nat.add_sub_cancel, ← List.append_assoc, List.drop_left']
    rw [List.length_append, hmetaRaw]
    omega
  have hreport : decide (pad4 (8 + rawTotal types items) - (8 + rawTotal types items) = 0) =
      decide (4 ∣ rawTotal types items) := by
    refine decide_eq_decide.mpr ⟨fun h => by omega, fun h => ?_⟩
    rw [hM.2.2.2 (by omega), Nat.sub_self]
  rw [hparts'] at hparts hread₁ hnixVector
  simp only [deserialize, hparts, hread₁, hnixVector, hread₂, hmetadata, hskip, hread₃, hm', e₁, e₂, e₃,
    show p.nixSize + 4 ≤ p.nixSize + 4 + pad4 (8 + rawTotal types items) + 4 +
      (12 + pad4 start.length + pad4 stop.length) + 4 by omega,
    show 8 + rawTotal types items + 4 ≤ pad4 (8 + rawTotal types items) + 4 +
      (12 + pad4 start.length + pad4 stop.length) + 4 by omega,
    show 12 + pad4 start.length + pad4 stop.length + 4 ≤
      pad4 (8 + rawTotal types items) - (8 + rawTotal types items) +
        (12 + pad4 start.length + pad4 stop.length + 4) by omega,
    hreport, Bool.true_and, if_true, Option.bind_eq_bind, Option.bind_some]

/-- A packet is written whole, and all of it is read. -/
theorem transfer (hitems : p.metadata.items = some items) (hknown : ∀ item ∈ items, Known types item)
    (henable : enable = false → items = []) (hfits : p.Fits types) (order : ByteOrder)
    (alloc : PacketMetadata.Allocator) (balloc : Buffer.Allocator) {m : Buffer.Memory} (hm : m.Sound) {this : ℕ}
    (hthis : m.buffers.lookup this = none) :
    ∃ size, p.getSerializedSize types enable = some size ∧ ∀ block, block.length = size →
      ∃ pen q read, p.serialize types enable order ⟨[], block⟩ size = some (true, pen) ∧
        deserialize types order alloc balloc m this pen.block size = some (decide (4 ∣ rawTotal types items), q) ∧
        q.memory.bytes this = some p.bytes ∧ q.metadata.packetUid = p.metadata.packetUid ∧
        q.metadata.items = some read ∧ read.map Item.of = items.map (fun item => Item.of (arrived types item)) ∧
        q.nixVector = p.nixVector := by
  obtain ⟨hoffsets, hsizes⟩ := hfits items hitems
  obtain ⟨size, hsize, hwrite⟩ := serialize_eq hitems hknown henable hsizes order
  refine ⟨size, hsize, fun block hblock => ?_⟩
  obtain ⟨y, pad, start, pad₁, stop, pad₂, hbytes, hpad, hpad₁, hgetSize, rfl, hserialize⟩ := hwrite block hblock
  rw [hgetSize] at hsizes
  obtain ⟨q, hq, hqbytes, huid, hholds, hnix⟩ := deserialize_append hknown (bounded_of_walk hitems) hoffsets order alloc
    balloc hm hthis y stop pad₂
    (block.drop (p.nixRaw order ++ parts types order p items y pad start pad₁ stop pad₂).length) hpad hpad₁ hsizes
  obtain ⟨read, hread, hof⟩ := items_of_holds hholds
  refine ⟨_, q, read, hserialize, hq, hqbytes.trans (congrArg some hbytes.symm), huid, hread, ?_, hnix⟩
  rw [hof, List.map_map]
  rfl

/-- What arrives is what was sent, and both sides report success. -/
def RoundTrips (types : IidManager) (enable : Bool) (p : Packet) : Prop :=
  ∀ (order : ByteOrder) (alloc : PacketMetadata.Allocator) (balloc : Buffer.Allocator) (m : Buffer.Memory) (this : ℕ),
    m.Sound → m.buffers.lookup this = none →
    ∃ size, p.getSerializedSize types enable = some size ∧ ∀ block, block.length = size →
      ∃ pen q, p.serialize types enable order ⟨[], block⟩ size = some (true, pen) ∧
        deserialize types order alloc balloc m this pen.block size = some (true, q) ∧
        q.memory.bytes this = some p.bytes ∧ q.metadata.packetUid = p.metadata.packetUid ∧
        (∃ items read, p.metadata.items = some items ∧ q.metadata.items = some read ∧
          read.map Item.of = items.map Item.of) ∧
        q.nixVector = p.nixVector

/-- The type of an item is payload, or it is registered under a name that is not empty. -/
def Named (types : IidManager) (item : SmallItem × ExtraItem) : Prop :=
  item.1.uid = 0 ∨ item.1.uid < 2 ^ 16 ∧ ∃ name, name ≠ [] ∧ TypeId.getName types item.1.uid = some name

/-- The loops over the items come to an end, the types of the items have names, there are no items unless they count
in the size, and what is written of the metadata needs no padding. -/
def NeedsNoPadding (types : IidManager) (enable : Bool) (p : Packet) : Prop :=
  ∃ items, p.metadata.items = some items ∧ (∀ item ∈ items, Named types item) ∧ (enable = false → items = []) ∧
    4 ∣ 8 + rawTotal types items

theorem named_iff {item : SmallItem × ExtraItem} :
    Named types item ↔ Known types item ∧ arrivedUid types item = item.1.uid := by
  by_cases huid : item.1.uid = 0
  · have hname : name types item = [] := by
      rw [name, nameOf, if_pos huid]
      rfl
    refine iff_of_true (.inl huid) ⟨?_, ?_⟩
    · rw [Known, nameOf, if_pos huid]
      exact Option.some_ne_none []
    · rw [arrivedUid, if_pos hname, huid]
  cases hget : TypeId.getName types item.1.uid with
  | none =>
    refine iff_of_false ?_ fun h => h.1 ?_
    · rintro (h | ⟨-, n, -, h⟩)
      · exact huid h
      · rw [hget] at h
        cases h
    · rw [nameOf, if_neg huid, hget]
  | some n =>
    have hname : name types item = n := by
      rw [name, nameOf, if_neg huid, hget]
      rfl
    have hknown : Known types item := by
      rw [Known, nameOf, if_neg huid, hget]
      exact Option.some_ne_none n
    rw [Named, arrivedUid, hname, hget]
    constructor
    · rintro (h | ⟨hlt, n', hn', h⟩)
      · exact absurd h huid
      · cases h
        rw [if_neg hn', Nat.mod_eq_of_lt hlt]
        exact ⟨hknown, rfl⟩
    · rintro ⟨-, h⟩
      split_ifs at h with hnil
      · exact absurd h.symm huid
      · exact .inr ⟨h ▸ Nat.mod_lt _ (by decide), n, hnil, rfl⟩

/-- Metadata that was written has items of known types, and there was exactly room for them. -/
theorem known_of_serialize {m : PacketMetadata} {order : ByteOrder} {pen pen' : Pen} {maxSize : ℕ}
    (h : m.serialize types order pen maxSize = some (true, pen')) :
    ∃ items, m.items = some items ∧ (∀ item ∈ items, Known types item) ∧ 8 + rawTotal types items = maxSize := by
  simp only [PacketMetadata.serialize, Option.bind_eq_bind, Option.bind_eq_some_iff, Prod.exists] at h
  obtain ⟨items, hitems, pieces, hpieces, ok, pen₁, hadd, h⟩ := h
  have hknown : ∀ item ∈ items, Known types item := by
    intro item hi hnone
    obtain ⟨piece, hpiece⟩ := exists_of_mapM_eq_some hpieces item hi
    rw [rawItem, hnone] at hpiece
    cases hpiece
  split_ifs at h with hok hsize
  · obtain ⟨pieces', hpieces', hflat⟩ := mapM_rawItem hknown order
    obtain rfl := Option.some.inj (hpieces.symm.trans hpieces')
    subst hok
    rw [wrote_of_addToRaw hadd, Pen.before_wrote, List.length_append, Nat.add_sub_cancel_left,
      List.flatten_cons, hflat, List.length_append, order.length_encode, length_raws] at hsize
    exact ⟨items, hitems, hknown, hsize⟩
  · obtain ⟨h, -⟩ := Prod.mk.inj (Option.some.inj h)
    cases h

/-- A packet that was written had its metadata written, in the size that the metadata gives. -/
theorem written_of_serialize {order : ByteOrder} {pen pen' : Pen} {maxSize : ℕ}
    (h : p.serialize types enable order pen maxSize = some (true, pen')) :
    ∃ metaSize pen₁ pen₂, p.metadata.getSerializedSize types enable = some metaSize ∧
      p.metadata.serialize types order pen₁ metaSize = some (true, pen₂) := by
  simp only [serialize, Option.bind_eq_bind, Option.bind_eq_some_iff, Prod.exists] at h
  obtain ⟨ok, size, pen₁, -, h⟩ := h
  split_ifs at h with hok
  · simp only [Option.bind_eq_some_iff, Prod.exists] at h
    obtain ⟨metaSize, hmeta, ok₂, size₂, pen₂, hput, h⟩ := h
    split_ifs at h with hok₂
    · simp only [putPart, Option.bind_eq_bind] at hput
      split_ifs at hput with hle
      · simp only [Option.bind_eq_some_iff, Prod.exists] at hput
        obtain ⟨pen₃, -, ok₃, pen₄, hserialize, hput⟩ := hput
        obtain ⟨rfl, -⟩ := Prod.mk.inj (Option.some.inj hput)
        exact ⟨metaSize, pen₃, pen₄, hmeta, hok₂ ▸ hserialize⟩
      · obtain ⟨rfl, -⟩ := Prod.mk.inj (Option.some.inj hput)
        cases hok₂
    · obtain ⟨h, -⟩ := Prod.mk.inj (Option.some.inj h)
      cases h
  · obtain ⟨h, -⟩ := Prod.mk.inj (Option.some.inj h)
    cases h

/-- A packet that makes the round trip needs no padding. -/
theorem needsNoPadding_of_roundTrips (hfits : p.Fits types) (h : p.RoundTrips types enable) :
    p.NeedsNoPadding types enable := by
  obtain ⟨size, hsize, hall⟩ := h .little PacketMetadata.Allocator.zeros Buffer.Allocator.ascending .empty 0
    Buffer.Memory.sound_empty rfl
  obtain ⟨pen, q, hserialize, hq, -, -, ⟨items, read, hitems, hread, hof⟩, -⟩ :=
    hall (List.replicate size 0) List.length_replicate
  obtain ⟨metaSize, pen₁, pen₂, hmeta, hwritten⟩ := written_of_serialize hserialize
  obtain ⟨items', hitems', hknown, hroom⟩ := known_of_serialize hwritten
  obtain rfl := Option.some.inj (hitems.symm.trans hitems')
  have hsizes := (hfits items hitems).2
  have henable : enable = false → items = [] := by
    rintro rfl
    cases hmeta
    have hlen := length_le_rawTotal types items
    exact List.length_eq_zero_iff.mp (by omega)
  obtain ⟨size', hsize', hall'⟩ := transfer hitems hknown henable hfits .little PacketMetadata.Allocator.zeros
    Buffer.Allocator.ascending Buffer.Memory.sound_empty (rfl : Buffer.Memory.empty.buffers.lookup 0 = none)
  obtain rfl := Option.some.inj (hsize.symm.trans hsize')
  obtain ⟨pen', q', read', hserialize', hq', -, -, hread', hof', -⟩ :=
    hall' (List.replicate size 0) List.length_replicate
  obtain ⟨-, rfl⟩ := Prod.mk.inj (Option.some.inj (hserialize.symm.trans hserialize'))
  obtain ⟨hreport, rfl⟩ := Prod.mk.inj (Option.some.inj (hq.symm.trans hq'))
  obtain rfl := Option.some.inj (hread.symm.trans hread')
  have hsame := List.map_inj_left.mp (hof'.symm.trans hof)
  refine ⟨items, hitems, fun item hi => named_iff.mpr ⟨hknown item hi, of_arrived_iff.mp (hsame item hi)⟩, henable, ?_⟩
  exact (Nat.dvd_add_right (by decide)).mpr (of_decide_eq_true hreport.symm)

theorem roundTrips_of_needsNoPadding (hfits : p.Fits types) (h : p.NeedsNoPadding types enable) :
    p.RoundTrips types enable := by
  obtain ⟨items, hitems, hnamed, henable, hdvd⟩ := h
  intro order alloc balloc m this hm hthis
  have hknown : ∀ item ∈ items, Known types item := fun item hi => (named_iff.mp (hnamed item hi)).1
  obtain ⟨size, hsize, hall⟩ := transfer hitems hknown henable hfits order alloc balloc hm hthis
  refine ⟨size, hsize, fun block hblock => ?_⟩
  obtain ⟨pen, q, read, hserialize, hq, hbytes, huid, hread, hof, hnix⟩ := hall block hblock
  rw [decide_eq_true ((Nat.dvd_add_right (by decide)).mp hdvd)] at hq
  refine ⟨pen, q, hserialize, hq, hbytes, huid, ⟨items, read, hitems, hread, ?_⟩, hnix⟩
  rw [hof]
  exact List.map_congr_left fun item hi => of_arrived_iff.mpr (named_iff.mp (hnamed item hi)).2

/-- A packet makes the round trip exactly if its metadata needs no padding. -/
theorem serialization_iff (types : IidManager) (enable : Bool) (p : Packet) (hfits : p.Fits types) :
    p.RoundTrips types enable ↔ p.NeedsNoPadding types enable :=
  ⟨needsNoPadding_of_roundTrips hfits, roundTrips_of_needsNoPadding hfits⟩

/-- The types that are registered: the name of the first is `ns3::UdpHeader`. -/
def udpHeader : IidManager where
  names := [[0x6e, 0x73, 0x33, 0x3a, 0x3a, 0x55, 0x64, 0x70, 0x48, 0x65, 0x61, 0x64, 0x65, 0x72]]
  nodup := List.nodup_singleton _
  length_le := by decide

/-- `Create<Packet> (10)`: ten zeros, which are payload. -/
def tenZeros : Packet where
  buffer := ⟨0, 0, 0, 10, 0, 10⟩
  data := ⟨1, 0, 10, [0]⟩
  inBounds := ⟨⟨by decide, by decide, by decide, by decide⟩, by decide⟩
  metadata := ⟨⟨1, 8, [0xff, 0xff, 0xff, 0xff, 0, 10, 0, 0, 0, 0]⟩, 0, 0, 8, 0⟩
  nixVector := none

theorem items_tenZeros : tenZeros.metadata.items = some [(⟨0xffff, 0xffff, 0, 10, 0⟩, ⟨0, 10, 0⟩)] := by
  decide +kernel

/-- A packet with payload alone is received whole, and that is reported as a failure. -/
theorem payload_reported_lost : ¬ tenZeros.RoundTrips udpHeader true := by
  intro h
  have hfits : tenZeros.Fits udpHeader := by
    intro items hitems
    obtain rfl := Option.some.inj (items_tenZeros.symm.trans hitems)
    decide +kernel
  obtain ⟨items, hitems, -, -, hdvd⟩ := needsNoPadding_of_roundTrips hfits h
  obtain rfl := Option.some.inj (items_tenZeros.symm.trans hitems)
  revert hdvd
  decide +kernel

/-- A UDP header of eight bytes in front of ten zeros. -/
def datagram : Packet where
  buffer := ⟨0, 8, 8, 18, 0, 18⟩
  data := ⟨1, 0, 18, [0, 9, 0, 10, 0, 18, 0, 0]⟩
  inBounds := ⟨⟨by decide, by decide, by decide, by decide⟩, by decide⟩
  metadata := ⟨⟨1, 16, [0xff, 0xff, 8, 0, 0, 10, 0, 0, 0, 0, 0xff, 0xff, 2, 8, 1, 0]⟩, 8, 0, 16, 0⟩
  nixVector := none

theorem items_datagram : datagram.metadata.items =
    some [(⟨0, 0xffff, 2, 8, 1⟩, ⟨0, 8, 0⟩), (⟨0xffff, 8, 0, 10, 0⟩, ⟨0, 10, 0⟩)] := by
  decide +kernel

/-- `serialization_iff` for a packet whose metadata takes 76 octets. -/
theorem datagram_roundTrips : datagram.RoundTrips udpHeader true := by
  have hfits : datagram.Fits udpHeader := by
    intro items hitems
    obtain rfl := Option.some.inj (items_datagram.symm.trans hitems)
    decide +kernel
  refine (serialization_iff udpHeader true datagram hfits).mpr ⟨_, items_datagram, fun item hi => ?_, by decide, ?_⟩
  · rcases List.mem_cons.mp hi with rfl | hi
    · exact .inr ⟨by decide, _, List.cons_ne_nil _ _, rfl⟩
    · rw [List.mem_singleton.mp hi]
      exact .inl rfl
  · decide +kernel

end Packet

end Ns3
