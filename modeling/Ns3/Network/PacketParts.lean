import Ns3.Network.BufferIsolation
import Ns3.Network.MetadataItems
import Ns3.Network.PacketSerialize

/-!
# The parts of a packet, written and read

Each of the three parts of `Ns3.Network.PacketSerialize` for itself. What is written is stated as octets that the
pointer passes (`Pen.wrote`), and it is read from a list that begins with the same octets, so the lemmas for the
two sides fit together whatever lies behind.

* `NixVector.serialize_eq`, `NixVector.deserialize_append`.
* `PacketMetadata.serialize_eq`, `PacketMetadata.deserialize_append` — an item arrives with the type that its name
  is looked up as (`arrived`); its links and the width of its numbers are lost.
* `Buffer.serialize_eq`, `Buffer.Memory.Sound.deserialize` — the zero area is not written, only its size.
-/

namespace Ns3

open Lib

/-! ### Numbers -/

theorem pad4_spec {n : ℕ} (h : n + 3 < 2 ^ 32) : n ≤ pad4 n ∧ pad4 n < n + 4 ∧ 4 ∣ pad4 n ∧ (4 ∣ n → pad4 n = n) := by
  rw [pad4, add32_of_lt h]
  refine ⟨by omega, by omega, Dvd.intro_left _ rfl, fun hdvd => by omega⟩

theorem readWord_append (order : ByteOrder) {sizeCheck : ℕ} (h : 4 ≤ sizeCheck) (word : UInt32) (rest : List UInt8) :
    NixVector.readWord order sizeCheck (order.encode 4 word.toNat ++ rest) = some (word, sizeCheck - 4, rest) := by
  have hword : word.toNat < 256 ^ 4 := word.toNat_lt
  rw [NixVector.readWord, if_pos h, order.read_append hword, sub32_of_le h]
  change some (UInt32.ofNat word.toNat, sizeCheck - 4, rest) = _
  rw [UInt32.ofNat_toNat]

/-! ### The nix vector -/

namespace NixVector

variable (order : ByteOrder)

/-- Numbers as octets. -/
def octets (words : List UInt32) : List UInt8 := words.flatMap fun word => order.encode 4 word.toNat

theorem length_octets (words : List UInt32) : (octets order words).length = 4 * words.length := by
  induction words with
  | nil => rfl
  | cons word words ih =>
    rw [octets, List.flatMap_cons, List.length_append, order.length_encode]
    change 4 + (octets order words).length = _
    rw [ih, List.length_cons]
    omega

/-- All numbers are written if there is room. -/
theorem putWords_eq {maxSize size : ℕ} {words : List UInt32} {pen : Pen} (hmax : size + 4 * words.length ≤ maxSize)
    (hlt : maxSize < 2 ^ 32) (hroom : 4 * words.length ≤ pen.after.length) :
    putWords order maxSize size words pen = some (true, pen.wrote (octets order words)) := by
  induction words generalizing size pen with
  | nil => rw [putWords, octets, List.flatMap_nil, Pen.wrote_nil]
  | cons word words ih =>
    rw [List.length_cons] at hmax hroom
    have hword := order.length_encode 4 word.toNat
    have hadd : add32 size 4 = size + 4 := add32_of_lt (by omega)
    have hrest := @ih (size + 4) (pen.wrote (order.encode 4 word.toNat)) (by omega)
      (by rw [Pen.length_after_wrote]; omega)
    rw [Pen.wrote_wrote] at hrest
    rw [putWords, hadd, if_pos (by omega), pen.put_eq (by omega)]
    exact hrest

/-- The numbers are read back. -/
theorem readWords_append {steps : ℕ} {words : List UInt32} (hsteps : words.length < steps) (rest : List UInt8) :
    readWords order steps (4 * words.length) (octets order words ++ rest) = some words := by
  induction words generalizing steps with
  | nil =>
    obtain ⟨steps, rfl⟩ := Nat.exists_eq_succ_of_ne_zero (Nat.ne_of_gt hsteps)
    rfl
  | cons word words ih =>
    rw [List.length_cons] at hsteps
    obtain ⟨steps, rfl⟩ := Nat.exists_eq_succ_of_ne_zero (by omega : steps ≠ 0)
    have hword := readWord_append order (show 4 ≤ 4 * (words.length + 1) by omega) word (octets order words ++ rest)
    have hrest := @ih steps (by omega)
    rw [octets, List.flatMap_cons, List.append_assoc, List.length_cons, readWords, if_neg (by omega)]
    change (readWord order _ (order.encode 4 word.toNat ++ (octets order words ++ rest)) >>= _) = _
    rw [hword, Option.bind_eq_bind, Option.bind_some]
    change (readWords order steps (4 * (words.length + 1) - 4) _ >>= _) = _
    rw [Nat.mul_succ, Nat.add_sub_cancel, hrest]
    rfl

variable {nix : NixVector}

theorem getSerializedSize_eq (h : 12 + 4 * nix.nixVector.length < 2 ^ 32) :
    nix.getSerializedSize = 4 * nix.words.length := by
  rw [getSerializedSize, add32_of_lt h, words]
  simp only [List.length_cons]
  omega

theorem serialize_eq (h : 12 + 4 * nix.nixVector.length < 2 ^ 32) {pen : Pen}
    (hroom : nix.getSerializedSize ≤ pen.after.length) :
    nix.serialize order pen nix.getSerializedSize = some (true, pen.wrote (octets order nix.words)) := by
  have hsize := getSerializedSize_eq h
  have hlen : 4 * nix.words.length = 12 + 4 * nix.nixVector.length := by
    simp only [words, List.length_cons]
    omega
  exact putWords_eq order (by omega) (by omega) (by omega)

/-- A nix vector is read back. -/
theorem deserialize_append (h : 16 + 4 * nix.nixVector.length < 2 ^ 32) (rest : List UInt8) :
    deserialize order (octets order nix.words ++ rest) (nix.getSerializedSize + 4) = some nix := by
  have hsize : nix.getSerializedSize = 12 + 4 * nix.nixVector.length := by
    rw [getSerializedSize, add32_of_lt (by omega)]
  have hsub : sub32 (nix.getSerializedSize + 4) 4 = 12 + 4 * nix.nixVector.length := by
    rw [sub32_of_le (by omega), hsize, Nat.add_sub_cancel]
  have hwords : octets order nix.words ++ rest = order.encode 4 nix.used.toNat ++
      (order.encode 4 nix.currentVectorBitSize.toNat ++ (order.encode 4 nix.totalBitSize.toNat ++
        (octets order nix.nixVector ++ rest))) := by
    simp only [octets, words, List.flatMap_cons, List.append_assoc]
  have hsteps : 12 + 4 * nix.nixVector.length - 4 - 4 - 4 = 4 * nix.nixVector.length := by omega
  have hread := readWords_append order (show nix.nixVector.length < 4 * nix.nixVector.length + 1 by omega) rest
  simp only [deserialize, hsub, hwords, readWord_append order (show 4 ≤ 12 + 4 * nix.nixVector.length by omega),
    readWord_append order (show 4 ≤ 12 + 4 * nix.nixVector.length - 4 by omega),
    readWord_append order (show 4 ≤ 12 + 4 * nix.nixVector.length - 4 - 4 by omega), hsteps, hread,
    Option.bind_eq_bind, Option.bind_some]

end NixVector

/-! ### The metadata -/

theorem mapM_eq_some_map {α β : Type} {f : α → Option β} {g : α → β} {l : List α} (h : ∀ a ∈ l, f a = some (g a)) :
    l.mapM f = some (l.map g) := by
  induction l with
  | nil => rfl
  | cons a l ih =>
    rw [List.mapM_cons, h a List.mem_cons_self, ih fun b hb => h b (List.mem_cons_of_mem a hb)]
    rfl

theorem exists_of_mapM_eq_some {α β : Type} {f : α → Option β} {l : List α} {out : List β} (h : l.mapM f = some out) :
    ∀ a ∈ l, ∃ b, f a = some b := by
  induction l generalizing out with
  | nil => exact fun a ha => absurd ha List.not_mem_nil
  | cons a l ih =>
    rw [List.mapM_cons, Option.bind_eq_bind, Option.bind_eq_some_iff] at h
    obtain ⟨b, hb, h⟩ := h
    rw [Option.bind_eq_bind, Option.bind_eq_some_iff] at h
    obtain ⟨out', hout', -⟩ := h
    intro a' ha'
    rcases List.mem_cons.mp ha' with rfl | ha'
    · exact ⟨b, hb⟩
    · exact ih hout' a' ha'

namespace PacketMetadata

/-- Octets that fit are written. -/
theorem addToRaw_eq {start maxSize : ℕ} {pieces : List (List UInt8)} {pen : Pen} (hstart : start ≤ pen.before.length)
    (hmax : pen.before.length - start + pieces.flatten.length ≤ maxSize) (hlt : maxSize < 2 ^ 32)
    (hroom : pieces.flatten.length ≤ pen.after.length) :
    addToRaw start maxSize pieces pen = some (true, pen.wrote pieces.flatten) := by
  induction pieces generalizing pen with
  | nil => rw [addToRaw, List.flatten_nil, Pen.wrote_nil]
  | cons data rest ih =>
    rw [List.flatten_cons, List.length_append] at hmax hroom
    have hsub : (pen.before.length + data.length - start) % 2 ^ 32 = pen.before.length - start + data.length := by
      rw [Nat.mod_eq_of_lt (by omega)]
      omega
    have hrest := @ih (pen.wrote data) (by rw [Pen.before_wrote, List.length_append]; omega)
      (by rw [Pen.before_wrote, List.length_append]; omega) (by rw [Pen.length_after_wrote]; omega)
    rw [Pen.wrote_wrote] at hrest
    rw [addToRaw, hsub, if_neg (by omega), pen.put_eq (by omega)]
    exact hrest

/-- What is reported as written was written. -/
theorem wrote_of_addToRaw {start maxSize : ℕ} {pieces : List (List UInt8)} {pen pen' : Pen}
    (h : addToRaw start maxSize pieces pen = some (true, pen')) : pen' = pen.wrote pieces.flatten := by
  induction pieces generalizing pen with
  | nil =>
    obtain ⟨-, rfl⟩ := Prod.mk.inj (Option.some.inj h)
    rw [List.flatten_nil, Pen.wrote_nil]
  | cons data rest ih =>
    rw [addToRaw] at h
    split_ifs at h with hle
    · exact absurd (congrArg Prod.fst (Option.some.inj h)) Bool.false_ne_true
    rw [Option.bind_eq_bind, Option.bind_eq_some_iff] at h
    obtain ⟨pen₁, hput, h⟩ := h
    rw [Pen.put] at hput
    split_ifs at hput with hroom
    cases hput
    rw [ih h, List.flatten_cons, ← Pen.wrote_wrote]
    rfl

variable {types : IidManager} {item : SmallItem × ExtraItem} {items : List (SmallItem × ExtraItem)}

/-- The octets that stand for the type of an item. -/
def name (types : IidManager) (item : SmallItem × ExtraItem) : List UInt8 := (nameOf types item.1.uid).getD []

/-- The octets that are written of an item. -/
def rawLength (types : IidManager) (item : SmallItem × ExtraItem) : ℕ := 27 + (name types item).length

/-- The type of the item is known. -/
def Known (types : IidManager) (item : SmallItem × ExtraItem) : Prop := nameOf types item.1.uid ≠ none

theorem Known.nameOf_eq (h : Known types item) : nameOf types item.1.uid = some (name types item) := by
  rw [name]
  exact (Option.some_get (Option.isSome_iff_ne_none.mpr h)).symm ▸ rfl

theorem Known.rawSize_eq (h : Known types item) : rawSize types item = some (rawLength types item) := by
  rw [rawSize, h.nameOf_eq, rawLength, Option.bind_eq_bind, Option.bind_some]
  congr 1
  omega

/-- What is written of an item. -/
def raw (types : IidManager) (order : ByteOrder) (item : SmallItem × ExtraItem) : List UInt8 :=
  order.encode 4 (name types item).length ++ (name types item ++ (order.encode 1 (item.1.typeUid % 2) ++
    (order.encode 4 item.1.size ++ (order.encode 2 item.1.chunkUid ++ (order.encode 4 item.2.fragmentStart ++
      (order.encode 4 item.2.fragmentEnd ++ order.encode 8 item.2.packetUid.toNat))))))

theorem length_raw (order : ByteOrder) : (raw types order item).length = rawLength types item := by
  simp only [raw, rawLength, List.length_append, order.length_encode]
  omega

theorem Known.rawItem_eq (h : Known types item) (order : ByteOrder) :
    ∃ pieces, rawItem types order item = some pieces ∧ pieces.flatten = raw types order item := by
  rw [rawItem, h.nameOf_eq]
  refine ⟨_, rfl, ?_⟩
  simp only [raw, List.flatten_cons, List.flatten_nil, List.append_nil]

/-- The type under which an item arrives. -/
def arrivedUid (types : IidManager) (item : SmallItem × ExtraItem) : ℕ :=
  if name types item = [] then 0 else item.1.uid % 2 ^ 16

/-- An item as it arrives. -/
def arrived (types : IidManager) (item : SmallItem × ExtraItem) : SmallItem × ExtraItem :=
  (⟨0, 0, arrivedUid types item * 2 ||| item.1.typeUid % 2, item.1.size, item.1.chunkUid⟩,
    ⟨item.2.fragmentStart, item.2.fragmentEnd, item.2.packetUid⟩)

/-- An item is read back. -/
theorem readRawItem_append (order : ByteOrder) (h : Known types item) (hitem : Bounded item)
    (hname : (name types item).length < 2 ^ 32) {desSize : ℕ} (hdes : rawLength types item ≤ desSize)
    (rest : List UInt8) :
    readRawItem types order desSize (raw types order item ++ rest) =
      some (arrived types item, desSize - rawLength types item, rest) := by
  have hlookup : uidOf types (name types item).length (name types item) = some (arrivedUid types item) := by
    rw [arrivedUid, uidOf]
    split_ifs with hlen hnil hnil
    · rfl
    · exact absurd (List.length_eq_zero_iff.mp hlen) hnil
    · exact absurd (List.length_eq_zero_iff.mpr hnil) hlen
    · have hof := h.nameOf_eq
      rw [nameOf] at hof
      split_ifs at hof with huid
      · exact absurd (Option.some.inj hof).symm hnil
      · exact TypeId.lookupByName_eq types hof
  have hbit : item.1.typeUid % 2 < 256 ^ 1 := by omega
  have hsub : sub32 desSize (4 + (name types item).length + (1 + 4 + 2 + 4 + 4 + 8)) =
      desSize - rawLength types item := by
    rw [rawLength] at hdes ⊢
    rw [sub32_of_le (by omega)]
    omega
  have huid : item.2.packetUid.toNat < 256 ^ 8 := item.2.packetUid.toNat_lt
  simp only [readRawItem, raw, List.append_assoc, order.read_append (k := 4) hname,
    readOctets_append (n := (name types item).length) rfl, hlookup, order.read_append (k := 1) hbit,
    order.read_append (k := 4) hitem.size_lt, order.read_append (k := 2) hitem.chunkUid_lt,
    order.read_append (k := 4) hitem.fragmentStart_lt, order.read_append (k := 4) hitem.fragmentEnd_lt,
    order.read_append (k := 8) huid, hsub, Option.bind_eq_bind, Option.bind_some, UInt64.ofNat_toNat]
  rfl

theorem arrivedUid_lt (types : IidManager) (item : SmallItem × ExtraItem) : arrivedUid types item < 2 ^ 16 := by
  rw [arrivedUid]
  split_ifs
  · decide
  · exact Nat.mod_lt _ (by decide)

theorem arrived_typeUid (types : IidManager) (item : SmallItem × ExtraItem) :
    (arrived types item).1.typeUid = 2 * arrivedUid types item + item.1.typeUid % 2 := by
  have hbit : item.1.typeUid % 2 < 2 ^ 1 := Nat.mod_lt _ (by decide)
  have hor := Nat.two_pow_add_eq_or_of_lt hbit (arrivedUid types item)
  change arrivedUid types item * 2 ||| item.1.typeUid % 2 = _
  rw [Nat.mul_comm]
  exact hor.symm

theorem Bounded.arrived (h : Bounded item) : Bounded (arrived types item) := by
  obtain ⟨-, hsize, hchunk, hstart, hend⟩ := h
  refine ⟨?_, hsize, hchunk, hstart, hend⟩
  have hlt := arrivedUid_lt types item
  rw [arrived_typeUid]
  omega

theorem of_arrived_iff : Item.of (arrived types item) = Item.of item ↔ arrivedUid types item = item.1.uid := by
  have htype := arrived_typeUid types item
  have hhalf : (arrived types item).1.typeUid / 2 = arrivedUid types item := by omega
  have hof : Item.of (arrived types item) = { Item.of item with uid := (arrived types item).1.typeUid / 2 } := rfl
  rw [hof, hhalf]
  constructor
  · exact fun h => congrArg Item.uid h
  · intro h
    rw [h]
    rfl

/-- Arriving items take no more octets than the items did. -/
theorem bigSize_arrived_le (types : IidManager) (item : SmallItem × ExtraItem) :
    bigSize (arrived types item) ≤ bigSize item := by
  have htype := arrived_typeUid types item
  have huid : arrivedUid types item ≤ item.1.typeUid / 2 := by
    rw [arrivedUid]
    split_ifs
    · exact Nat.zero_le _
    · exact Nat.mod_le _ _
  have hbig : bigUid (arrived types item).1 ≤ bigUid item.1 := by
    rw [bigUid, bigUid]
    split_ifs <;> omega
  have hmono := getUleb128Size_mono hbig
  rw [bigSize_eq, bigSize_eq]
  change _ + getUleb128Size item.1.size + getUleb128Size item.2.fragmentStart +
    getUleb128Size item.2.fragmentEnd ≤ _
  omega

/-- What is written of items. -/
def raws (types : IidManager) (order : ByteOrder) (items : List (SmallItem × ExtraItem)) : List UInt8 :=
  items.flatMap (raw types order)

/-- The octets that are written of items. -/
def rawTotal (types : IidManager) (items : List (SmallItem × ExtraItem)) : ℕ := (items.map (rawLength types)).sum

theorem rawTotal_cons : rawTotal types (item :: items) = rawLength types item + rawTotal types items := by
  simp [rawTotal]

theorem length_raws (order : ByteOrder) : (raws types order items).length = rawTotal types items := by
  induction items with
  | nil => rfl
  | cons item items ih =>
    rw [raws, List.flatMap_cons, List.length_append, length_raw, rawTotal_cons, ← ih]
    rfl

variable {m : PacketMetadata}

theorem mapM_rawItem (h : ∀ item ∈ items, Known types item) (order : ByteOrder) :
    ∃ pieces, items.mapM (rawItem types order) = some pieces ∧ pieces.flatten.flatten = raws types order items := by
  induction items with
  | nil => exact ⟨[], rfl, rfl⟩
  | cons item items ih =>
    obtain ⟨first, hfirst, hflat⟩ := (h item List.mem_cons_self).rawItem_eq order
    obtain ⟨rest, hrest, hflat'⟩ := ih fun i hi => h i (List.mem_cons_of_mem item hi)
    refine ⟨first :: rest, ?_, ?_⟩
    · rw [List.mapM_cons, hfirst, hrest]
      rfl
    · rw [List.flatten_cons, List.flatten_append, hflat, hflat']
      rfl

/-- The size is that of what is written. -/
theorem getSerializedSize_eq (hitems : m.items = some items) (hknown : ∀ item ∈ items, Known types item)
    {enable : Bool} (henable : enable = false → items = []) (hlt : 8 + rawTotal types items < 2 ^ 32) :
    m.getSerializedSize types enable = some (8 + rawTotal types items) := by
  cases enable with
  | false =>
    rw [henable rfl]
    rfl
  | true =>
    have hsizes := mapM_eq_some_map fun i hi => (hknown i hi).rawSize_eq
    rw [getSerializedSize, if_pos rfl, hitems, Option.bind_eq_bind, Option.bind_some, hsizes, Option.bind_eq_bind,
      Option.bind_some]
    exact congrArg some (add32_of_lt hlt)

/-- Metadata that fits is written. -/
theorem serialize_eq (hitems : m.items = some items) (hknown : ∀ item ∈ items, Known types item) (order : ByteOrder)
    (hlt : 8 + rawTotal types items < 2 ^ 32) {pen : Pen} (hroom : 8 + rawTotal types items ≤ pen.after.length) :
    m.serialize types order pen (8 + rawTotal types items) =
      some (true, pen.wrote (order.encode 8 m.packetUid.toNat ++ raws types order items)) := by
  obtain ⟨pieces, hpieces, hflat⟩ := mapM_rawItem hknown order
  have hall : (order.encode 8 m.packetUid.toNat :: pieces.flatten).flatten =
      order.encode 8 m.packetUid.toNat ++ raws types order items := by
    rw [List.flatten_cons, hflat]
  have hlen : (order.encode 8 m.packetUid.toNat ++ raws types order items).length = 8 + rawTotal types items := by
    rw [List.length_append, order.length_encode, length_raws]
  have hadd : addToRaw pen.before.length (8 + rawTotal types items)
      (order.encode 8 m.packetUid.toNat :: pieces.flatten) pen = some (true, pen.wrote _) :=
    addToRaw_eq (Nat.le_refl _) (by rw [hall, hlen]; omega) hlt (by rw [hall, hlen]; exact hroom)
  rw [hall] at hadd
  have hend : (pen.wrote (order.encode 8 m.packetUid.toNat ++ raws types order items)).before.length -
      pen.before.length = 8 + rawTotal types items := by
    rw [Pen.before_wrote, List.length_append, hlen, Nat.add_sub_cancel_left]
  simp only [serialize, hitems, hpieces, hadd, hend, if_true, Option.bind_eq_bind, Option.bind_some]

/-- Items that are written are added again. -/
theorem readRawItems_append (order : ByteOrder) (alloc : Allocator) {done : List (SmallItem × ExtraItem)}
    (hholds : m.Holds done) (hknown : ∀ item ∈ items, Known types item) (hbounded : ∀ item ∈ items, Bounded item)
    (hraw : rawTotal types items < 2 ^ 32) (hfits : total done + total items < 2 ^ 16) {steps : ℕ}
    (hsteps : items.length < steps) (rest : List UInt8) :
    ∃ m', readRawItems types order alloc steps (rawTotal types items) (raws types order items ++ rest) m = some m' ∧
      m'.Holds (done ++ items.map (arrived types)) ∧ m'.packetUid = m.packetUid := by
  induction items generalizing m done steps with
  | nil =>
    obtain ⟨steps, rfl⟩ := Nat.exists_eq_succ_of_ne_zero (Nat.ne_of_gt hsteps)
    exact ⟨m, rfl, by rwa [List.map_nil, List.append_nil], rfl⟩
  | cons item items ih =>
    rw [List.length_cons] at hsteps
    rw [rawTotal_cons] at hraw
    rw [total_cons] at hfits
    obtain ⟨steps, rfl⟩ := Nat.exists_eq_succ_of_ne_zero (by omega : steps ≠ 0)
    have hle := bigSize_arrived_le types item
    have hitem := hbounded item List.mem_cons_self
    have hlen : (name types item).length < 2 ^ 32 := by
      rw [rawLength] at hraw
      omega
    have hread := readRawItem_append order (hknown item List.mem_cons_self) hitem hlen
      (Nat.le_add_right (rawLength types item) (rawTotal types items)) (raws types order items ++ rest)
    rw [Nat.add_sub_cancel_left] at hread
    have hitem' : Bounded (arrived types item) := hitem.arrived
    obtain ⟨m₁, m₂, hm₁, hm₂, hholds₂, huid⟩ := hholds.add alloc hitem' (by omega)
    obtain ⟨m', hm', hholds', huid'⟩ := @ih m₂ (done ++ [arrived types item]) hholds₂
      (fun i hi => hknown i (List.mem_cons_of_mem item hi)) (fun i hi => hbounded i (List.mem_cons_of_mem item hi))
      (by omega) (by rw [total_append, total_cons, total_nil]; omega) steps (by omega)
    have hne : rawLength types item + rawTotal types items ≠ 0 := by
      rw [rawLength]
      omega
    refine ⟨m', ?_, ?_, huid'.trans huid⟩
    · rw [raws, List.flatMap_cons, List.append_assoc, rawTotal_cons, readRawItems, if_neg hne]
      change (readRawItem types order _ (raw types order item ++ (raws types order items ++ rest)) >>= _) = _
      rw [hread]
      simp only [Option.bind_eq_bind, Option.bind_some, hm₁, hm₂, hm']
    · rwa [List.append_assoc] at hholds'

theorem length_le_rawTotal (types : IidManager) (items : List (SmallItem × ExtraItem)) :
    items.length ≤ rawTotal types items := by
  induction items with
  | nil => exact Nat.zero_le _
  | cons item items ih =>
    rw [rawTotal_cons, List.length_cons, rawLength]
    omega

/-- Metadata that was written is read into a new one. -/
theorem deserialize_append (order : ByteOrder) (alloc : Allocator) (uid : UInt64)
    (hknown : ∀ item ∈ items, Known types item) (hbounded : ∀ item ∈ items, Bounded item)
    (hraw : 12 + rawTotal types items < 2 ^ 32) (hfits : total items < 2 ^ 16) (rest : List UInt8) :
    ∃ m', (new alloc 0).deserialize types order alloc
        (order.encode 8 uid.toNat ++ raws types order items ++ rest) (8 + rawTotal types items + 4) = some m' ∧
      m'.Holds (items.map (arrived types)) ∧ m'.packetUid = uid := by
  have hlen : (order.encode 8 uid.toNat ++ raws types order items).length = 8 + rawTotal types items := by
    rw [List.length_append, order.length_encode, length_raws]
  have htake : (order.encode 8 uid.toNat ++ raws types order items ++ rest).take (8 + rawTotal types items + 4) =
      order.encode 8 uid.toNat ++ (raws types order items ++ rest.take 4) := by
    rw [← hlen, List.take_length_add_append, List.append_assoc]
  have huid : uid.toNat < 256 ^ 8 := uid.toNat_lt
  have hread := order.read_append huid (raws types order items ++ rest.take 4)
  have hsub : sub32 (sub32 (8 + rawTotal types items + 4) 4) 8 = rawTotal types items := by
    rw [sub32_of_le (Nat.le_add_left 4 _), Nat.add_sub_cancel, sub32_of_le (Nat.le_add_right 8 _),
      Nat.add_sub_cancel_left]
  have hholds : ({ new alloc 0 with packetUid := uid } : PacketMetadata).Holds [] := { holds_new alloc 0 with }
  have hle := length_le_rawTotal types items
  obtain ⟨m', hm', hholds', huid'⟩ := readRawItems_append order alloc hholds hknown hbounded (by omega)
    (by rw [total_nil]; omega) (show items.length < 8 + rawTotal types items + 4 + 1 by omega) (rest.take 4)
  refine ⟨m', ?_, hholds', huid'⟩
  rw [deserialize, htake, hread]
  simp only [Option.bind_eq_bind, Option.bind_some, hsub, UInt64.ofNat_toNat]
  exact hm'

theorem lt_of_readUleb128 {l rest : List UInt8} {value : ℕ} (h : readUleb128 l = some (value, rest)) :
    value < 2 ^ 32 := by
  rw [readUleb128, Option.map_eq_some_iff] at h
  obtain ⟨⟨n, l'⟩, -, h⟩ := h
  obtain ⟨rfl, -⟩ := Prod.mk.inj h
  exact Nat.mod_lt _ (by decide)

/-- What is read from a block has the sizes of the types. -/
theorem bounded_of_readItems {current : ℕ} {read : SmallItem × ExtraItem} (h : m.readItems current = some read) :
    Bounded read := by
  rw [readItems] at h
  by_cases hcurrent : current ≤ m.data.size
  swap
  · rw [if_neg hcurrent] at h
    cases h
  rw [if_pos hcurrent] at h
  simp only [Option.bind_eq_bind, Option.bind_eq_some_iff, Prod.exists] at h
  obtain ⟨next, l₁, -, prev, l₂, -, typeUid, l₃, htype, size, l₄, hsize, chunkUid, l₅, hchunk, h⟩ := h
  have hchunk' : ofLittleEndian chunkUid < 2 ^ 16 := by
    have hlt := ofLittleEndian_lt chunkUid
    rwa [length_of_readOctets hchunk] at hlt
  split_ifs at h with hbit
  · simp only [Option.bind_eq_some_iff, Prod.exists] at h
    obtain ⟨fragmentStart, l₆, hstart, fragmentEnd, l₇, hend, packetUid, l₈, -, h⟩ := h
    split_ifs at h
    cases h
    exact ⟨lt_of_readUleb128 htype, lt_of_readUleb128 hsize, hchunk', lt_of_readUleb128 hstart,
      lt_of_readUleb128 hend⟩
  · cases h
    exact ⟨lt_of_readUleb128 htype, lt_of_readUleb128 hsize, hchunk', Nat.two_pow_pos 32, lt_of_readUleb128 hsize⟩

theorem bounded_of_walk {steps current : ℕ} (h : m.walk steps current = some items) : ∀ item ∈ items, Bounded item := by
  induction steps generalizing current items with
  | zero => cases h
  | succ steps ih =>
    rw [walk] at h
    by_cases hend : current = 0xffff
    · rw [if_pos hend] at h
      cases h
      exact fun item hi => absurd hi List.not_mem_nil
    rw [if_neg hend, Option.bind_eq_bind, Option.bind_eq_some_iff] at h
    obtain ⟨⟨item, extraItem⟩, hread, h⟩ := h
    have hbounded := bounded_of_readItems hread
    change (if current = m.tail then _ else if current ≠ item.next then _ else none) = _ at h
    split_ifs at h with htail hnext
    · cases h
      intro i hi
      rw [List.mem_singleton.mp hi]
      exact hbounded
    · rw [Option.bind_eq_bind, Option.bind_eq_some_iff] at h
      obtain ⟨rest, hrest, h⟩ := h
      cases h
      intro i hi
      rcases List.mem_cons.mp hi with rfl | hi
      · exact hbounded
      · exact ih hrest i hi

end PacketMetadata

/-! ### The buffer -/

namespace Buffer

variable {b : Buffer} {d : Data} {x y z : ℕ}

variable (order : ByteOrder)

/-- Data that fits is written, and then octets that were in the block before. -/
theorem putData_eq {maxSize size n : ℕ} {bytes : List UInt8} (hn : bytes.length = n)
    (hpad : n + 3 < 2 ^ 32) (hmax : size + 4 + pad4 n ≤ maxSize) (hlt : maxSize < 2 ^ 32) {pen : Pen}
    (hroom : 4 + pad4 n ≤ pen.after.length) :
    ∃ pad, pad.length = pad4 n - n ∧ putData order maxSize size (some bytes) n pen =
      some (true, size + 4 + pad4 n, pen.wrote (order.encode 4 n ++ (bytes ++ pad))) := by
  have hle := (pad4_spec hpad).1
  have hword := order.length_encode 4 n
  have hsum : bytes.length + (pad4 n - n) = pad4 n := by omega
  have hafter : (pen.wrote (order.encode 4 n)).after.length = pen.after.length - 4 := by
    rw [Pen.length_after_wrote, hword]
  obtain ⟨pad, hpadlen, hseek⟩ := (pen.wrote (order.encode 4 n)).seek_wrote bytes (n := pad4 n - n) (by omega)
  rw [hsum] at hseek
  have hmerge := Pen.wrote_wrote pen (order.encode 4 n) (bytes ++ pad)
  refine ⟨pad, hpadlen, ?_⟩
  have hput := (pen.wrote (order.encode 4 n)).put_eq (show bytes.length ≤ _ by omega)
  have hadd₁ : add32 size 4 = size + 4 := add32_of_lt (by omega)
  have hadd₂ : add32 (size + 4) (pad4 n) = size + 4 + pad4 n := add32_of_lt (by omega)
  rw [putData, hadd₁, if_pos (by omega), pen.put_eq (by omega), Option.bind_eq_bind, Option.bind_some]
  simp only [hadd₂, hmax, if_true, Option.bind_eq_bind, Option.bind_some, hput, hseek, hmerge]

theorem getSerializedSize_eq (h : b.InBounds d) (hsized : b.Sized x y z) (hlt : x + z + 18 < 2 ^ 32) :
    b.getSerializedSize = 12 + pad4 x + pad4 z := by
  have hx := pad4_spec (n := x) (by omega)
  have hz := pad4_spec (n := z) (by omega)
  obtain ⟨e₁, e₂, e₃⟩ := hsized
  have h₁ : sub32 b.zeroAreaStart b.start = x := by
    rw [sub32_of_le h.start_le]
    omega
  have h₂ : sub32 b.stop b.zeroAreaEnd = z := by
    rw [sub32_of_le h.zeroAreaEnd_le]
    omega
  simp only [getSerializedSize, h₁, h₂]
  rw [add32_of_lt (a := 8) (by omega), add32_of_lt (a := 8 + pad4 x) (by omega), add32_of_lt (by omega)]
  omega

/-- What is written of a buffer with these bytes before its zero area and behind it. -/
def raw (y : ℕ) (start pad₁ stop pad₂ : List UInt8) : List UInt8 :=
  order.encode 4 y ++ (order.encode 4 start.length ++ (start ++ pad₁)) ++
    (order.encode 4 stop.length ++ (stop ++ pad₂))

/-- A buffer is written. -/
theorem serialize_eq (h : b.InBounds d) (hsized : b.Sized x y z) (hlt : x + z + 18 < 2 ^ 32)
    {pen : Pen} (hroom : 12 + pad4 x + pad4 z ≤ pen.after.length) :
    ∃ start pad₁ stop pad₂, start.length = x ∧ pad₁.length = pad4 x - x ∧ stop.length = z ∧
      pad₂.length = pad4 z - z ∧ b.content d.data = start ++ (List.replicate y 0 ++ stop) ∧
      b.serialize order d pen (12 + pad4 x + pad4 z) = some (true, pen.wrote (raw order y start pad₁ stop pad₂)) := by
  have hx := pad4_spec (n := x) (by omega)
  have hz := pad4_spec (n := z) (by omega)
  have hle := h.le_length hsized
  have hcontent := hsized.content_eq d.data
  obtain ⟨e₁, e₂, e₃⟩ := hsized
  have h₁ : sub32 b.zeroAreaStart b.start = x := by
    rw [sub32_of_le h.start_le]
    omega
  have h₂ : sub32 b.stop b.zeroAreaEnd = z := by
    rw [sub32_of_le h.zeroAreaEnd_le]
    omega
  have h₃ : sub32 b.zeroAreaEnd b.zeroAreaStart = y := by
    rw [sub32_of_le h.zeroAreaStart_le]
    omega
  have hword := order.length_encode 4 y
  have hstart : (slice d.data b.start x).length = x := length_slice (by omega)
  have hstop : (slice d.data (b.start + x) z).length = z := length_slice hle
  have hread₁ : d.read b.start x = some (slice d.data b.start x) := if_pos (by rw [Data.size]; omega)
  have hread₂ : d.read b.zeroAreaStart z = some (slice d.data (b.start + x) z) := by
    rw [e₁]
    exact if_pos hle
  obtain ⟨pad₁, hpad₁, hput₁⟩ := putData_eq order hstart (by omega)
    (show 4 + 4 + pad4 x ≤ 12 + pad4 x + pad4 z by omega) (by omega)
    (show 4 + pad4 x ≤ (pen.wrote (order.encode 4 y)).after.length by rw [Pen.length_after_wrote]; omega)
  have hroom₂ : 4 + pad4 z ≤ (pen.wrote (order.encode 4 y ++
      (order.encode 4 x ++ (slice d.data b.start x ++ pad₁)))).after.length := by
    simp only [Pen.length_after_wrote, List.length_append, order.length_encode, hstart, hpad₁]
    omega
  obtain ⟨pad₂, hpad₂, hput₂⟩ := putData_eq order hstop (by omega)
    (show 4 + 4 + pad4 x + 4 + pad4 z ≤ 12 + pad4 x + pad4 z by omega) (by omega) hroom₂
  rw [Pen.wrote_wrote] at hput₁ hput₂
  refine ⟨_, pad₁, _, pad₂, hstart, hpad₁, hstop, hpad₂, hcontent, ?_⟩
  rw [serialize, if_pos (by omega), h₃, pen.put_eq (by omega), Option.bind_eq_bind, Option.bind_some]
  simp only [h₁, h₂, hread₁, hread₂, hput₁, hput₂, Option.bind_eq_bind, Option.bind_some, if_true, raw, hstart, hstop]

/-- What was written of a buffer is read into a new one. -/
theorem Memory.Sound.deserialize {m : Memory} (hm : m.Sound) (order : ByteOrder) (alloc : Allocator) {this : ℕ}
    (hthis : m.buffers.lookup this = none) {start pad₁ stop pad₂ : List UInt8}
    (hpad₁ : pad₁.length = pad4 start.length - start.length)
    (hlt : start.length + y + stop.length + 64 < 2 ^ 32) (rest : List UInt8) :
    ∃ m', m.deserialize order alloc this (raw order y start pad₁ stop pad₂ ++ rest)
        (12 + pad4 start.length + pad4 stop.length + 4) = some (true, m') ∧
      m'.bytes this = some (start ++ (List.replicate y 0 ++ stop)) := by
  have hx := pad4_spec (n := start.length) (by omega)
  have hz := pad4_spec (n := stop.length) (by omega)
  -- the zeros
  obtain ⟨m₁, b₁, hm₁, hb₁, hstart₁, hbec₁⟩ := hm.initializeBuffer alloc hthis y (by omega)
  -- what lies before them
  obtain ⟨dirty₂, m₂, m₂', b₂, hm₂, hm₂', hb₂, hstart₂, -, hbec₂⟩ := hbec₁.sound.prepend alloc hb₁ hbec₁.bytes_this
    start (by rw [List.length_replicate, sizeofData]; omega)
  -- what lies behind them
  obtain ⟨d₂, hd₂, -, -⟩ := hbec₂.sound.exists_block hb₂
  have hlen₂ := hbec₂.sound.length_bytes hb₂ hbec₂.bytes_this
  rw [List.length_append, List.length_replicate] at hlen₂
  have hfits : b₂.EndFits d₂ stop.length := by
    rw [EndFits, sizeofData]
    split_ifs <;> omega
  obtain ⟨dirty₃, m₃, g, hm₃, hg, hbec₃, howns⟩ := hbec₂.sound.addAtEnd alloc hb₂ hd₂ hbec₂.bytes_this hfits
  obtain ⟨m₄, hm₄, hbec₄, -⟩ := hbec₃.sound.writeAtEnd howns hbec₃.bytes_this
  refine ⟨m₄, ?_, ?_⟩
  swap
  · have hkeep : (start ++ List.replicate y 0 ++ g).length - stop.length = (start ++ List.replicate y 0).length := by
      rw [@List.length_append _ _ g, hg, Nat.add_sub_cancel]
    rw [hbec₄.bytes_this, hkeep, List.take_left', List.append_assoc]
    rfl
  have hy : y < 256 ^ 4 := by omega
  have hx' : start.length < 256 ^ 4 := by omega
  have hz' : stop.length < 256 ^ 4 := by omega
  have hskip₁ : (start ++ (pad₁ ++ (order.encode 4 stop.length ++ (stop ++ (pad₂ ++ rest))))).drop
      (pad4 start.length) = order.encode 4 stop.length ++ (stop ++ (pad₂ ++ rest)) := by
    rw [← List.append_assoc start pad₁, List.drop_left']
    rw [List.length_append]
    omega
  have e₁ : sub32 (12 + pad4 start.length + pad4 stop.length + 4) 4 = 12 + pad4 start.length + pad4 stop.length := by
    rw [sub32_of_le (by omega), Nat.add_sub_cancel]
  have e₂ : sub32 (12 + pad4 start.length + pad4 stop.length) 4 = 8 + pad4 start.length + pad4 stop.length := by
    rw [sub32_of_le (by omega)]
    omega
  have e₃ : sub32 (8 + pad4 start.length + pad4 stop.length) 4 = 4 + pad4 start.length + pad4 stop.length := by
    rw [sub32_of_le (by omega)]
    omega
  have e₄ : sub32 (4 + pad4 start.length + pad4 stop.length) (pad4 start.length) = 4 + pad4 stop.length := by
    rw [sub32_of_le (by omega)]
    omega
  have e₅ : sub32 (4 + pad4 stop.length) 4 = pad4 stop.length := by
    rw [sub32_of_le (by omega), Nat.add_sub_cancel_left]
  have e₆ : sub32 (pad4 stop.length) (pad4 stop.length) = 0 := by
    rw [sub32_of_le (by omega), Nat.sub_self]
  simp only [Memory.deserialize, raw, List.append_assoc, e₁, e₂, e₃, e₄, e₅, e₆, order.read_append (k := 4) hy,
    order.read_append (k := 4) hx', order.read_append (k := 4) hz', hm₁, hm₂, hm₂', hm₃, hm₄, hskip₁,
    readOctets_append (n := start.length) rfl, readOctets_append (n := stop.length) rfl,
    show 4 ≤ 12 + pad4 start.length + pad4 stop.length by omega,
    show 4 ≤ 8 + pad4 start.length + pad4 stop.length by omega,
    show start.length ≤ 4 + pad4 start.length + pad4 stop.length by omega, show 4 ≤ 4 + pad4 stop.length by omega,
    hz.1, if_true, Option.bind_eq_bind, Option.bind_some]

end Buffer

end Ns3
