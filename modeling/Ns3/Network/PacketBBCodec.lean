import Ns3.Network.AddressCompression

/-!
# The codec of PacketBB

What becomes of a packet that is written and read again. The reader does not look at the flag for several values, and
gets no index where a TLV has only the last; a size that does not fit into 16 bits hides what is written behind it; and
the addresses of a block must share the head and the tail that they are written without.

* `Tlv.Survives`, `TlvBlock.Survives`, `AddressBlock.Survives`, `Message.Survives`, `Packet.Survives` — what is read as
  it was, in terms of what is written.
* `Tlv.readsIff`, `TlvBlock.readsIff`, `AddressBlock.readsIff`, `Message.readsIff` — a part is read as it was exactly
  if it is of this kind; and then its size is right (`Tlv.size_eq` and so on).
* `Packet.comesBack_iff` — so for packets; `Packet.not_comesBack` is an address TLV with several values.
-/

namespace Ns3.PacketBB

open Lib Parser

/-! ### Sizes -/

/-- A size of 16 bits reaches the last of some parts behind `d` octets. -/
def Reaches (d : ℕ) (sizes : List ℕ) : Prop := sizes = [] ∨ d + sizes.dropLast.sum < (d + sizes.sum) % 65536
deriving Decidable

theorem tiles_mod_iff (d : ℕ) (sizes : List ℕ) : Tiles ((d + sizes.sum) % 65536) d sizes ↔ Reaches d sizes := by
  rw [tiles_iff, Reaches]
  exact and_iff_right (Nat.mod_le _ _)

theorem foldl_size {α : Type} {w : α → List UInt8} {size : α → UInt32} {as : List α}
    (h : ∀ a ∈ as, size a = UInt32.ofNat (w a).length) (n : ℕ) :
    as.foldl (fun total a => total + size a) (UInt32.ofNat n) = UInt32.ofNat (n + (as.flatMap w).length) := by
  induction as generalizing n with
  | nil => rfl
  | cons a as ih =>
    rw [List.foldl_cons, h a List.mem_cons_self, ← UInt32.ofNat_add, ih fun b hb => h b (List.mem_cons_of_mem _ hb),
      List.flatMap_cons, List.length_append, Nat.add_assoc]

theorem ofInt_natCast (n : ℕ) : UInt32.ofInt n = UInt32.ofNat n := by
  refine UInt32.toNat_inj.mp ?_
  rw [UInt32.ofInt, UInt32.toNat_ofNat', UInt32.toNat_ofNat']
  omega

/-! ### TLVs -/

namespace Tlv

variable (t : Tlv)

/-- A TLV has no flag for several values, and no last index without a first one. -/
def Survives : Prop := t.isMultivalue = false ∧ (t.indexStop.isSome → t.indexStart.isSome)
deriving Decidable

/-- The TLV that is read. -/
def readBack : Tlv :=
  { t with indexStop := if t.indexStart.isSome then t.indexStop else none, isMultivalue := false }

theorem readBack_eq_iff : t.readBack = t ↔ t.Survives := by
  obtain ⟨type, typeExt, indexStart, indexStop, isMultivalue, value⟩ := t
  cases indexStart <;> cases indexStop <;> cases isMultivalue <;> simp [readBack, Survives]

theorem has_flags : has t.flags 0x80 = t.typeExt.isSome ∧
    has t.flags 0x20 = (t.indexStart.isSome && t.indexStop.isSome) ∧
    has t.flags 0x40 = (t.indexStart.isSome && !t.indexStop.isSome) ∧ has t.flags 0x10 = t.value.isSome ∧
    has t.flags 0x08 = t.value.any fun value => 255 < value.length := by
  have hbits : ∀ ext start stop value long several : Bool,
      let flags := flag ext 0x80 ||| flag (start && stop) 0x20 ||| flag (start && !stop) 0x40 ||| flag value 0x10 |||
        flag long 0x08 ||| flag (value && several) 0x04
      has flags 0x80 = ext ∧ has flags 0x20 = (start && stop) ∧ has flags 0x40 = (start && !stop) ∧
        has flags 0x10 = value ∧ has flags 0x08 = long := by
    decide
  exact hbits _ _ _ _ _ _

theorem reads_readIndexes :
    (readIndexes t.flags).Reads t.writeIndexes (t.readBack.indexStart, t.readBack.indexStop) := by
  obtain ⟨-, hmulti, hsingle, -, -⟩ := t.has_flags
  rw [readIndexes, hmulti, hsingle, writeIndexes, readBack]
  cases t.indexStart with
  | none => exact .pure _
  | some start =>
    cases t.indexStop with
    | none => exact (reads_octet start).bind (.pure _)
    | some stop => exact (reads_octet start).bind ((reads_octet stop).bind (.pure _))

theorem reads_readValue {t : Tlv} (ht : t.Made) {value : List UInt8} (hvalue : t.value = some value) :
    (readValue t.flags).Reads (writeValue value) value := by
  obtain ⟨-, -, -, -, hlong⟩ := t.has_flags
  have hle := ht value hvalue
  rw [readValue, hlong, hvalue, writeValue]
  refine Reads.bind (a := value.length) ?_ (reads_octets rfl)
  simp only [Option.any_some, decide_eq_true_eq]
  have hread := reads_number (if 255 < value.length then 2 else 1) value.length
  rwa [Nat.mod_eq_of_lt (by split_ifs <;> omega)] at hread

/-- What is read of a TLV. -/
theorem reads_deserialize {t : Tlv} (ht : t.Made) : deserialize.Reads t.serialize t.readBack := by
  obtain ⟨hext, -, -, hvalue, -⟩ := t.has_flags
  have hread : deserialize.Reads ([t.type] ++ ([t.flags] ++ (t.typeExt.elim [] (fun typeExt => [typeExt]) ++
      (t.writeIndexes ++ (t.value.elim [] writeValue ++ []))))) t.readBack := by
    refine (reads_octet t.type).bind ((reads_octet t.flags).bind ?_)
    rw [hext, hvalue]
    refine (reads_optional fun typeExt _ => reads_octet typeExt).bind (t.reads_readIndexes.bind ?_)
    exact (reads_optional fun value hv => reads_readValue ht hv).bind (.pure _)
  rwa [List.append_nil] at hread

theorem readsIff {t : Tlv} (ht : t.Made) : ReadsIff id deserialize t.serialize t t.Survives :=
  ((reads_deserialize ht).readsIff id t).congr t.readBack_eq_iff

theorem size_eq {t : Tlv} (ht : t.Survives) : t.getSerializedSize = UInt32.ofNat t.serialize.length := by
  obtain ⟨type, typeExt, indexStart, indexStop, isMultivalue, value⟩ := t
  have hindex : indexStop.isSome → indexStart.isSome := ht.2
  have hsize : getSerializedSize ⟨type, typeExt, indexStart, indexStop, isMultivalue, value⟩ =
      UInt32.ofNat (2 + (if typeExt.isSome then 1 else 0) + (if indexStart.isSome then 1 else 0) +
        (if indexStop.isSome then 1 else 0) +
        value.elim 0 fun value => (if 255 < value.length then 2 else 1) + value.length) := by
    cases value <;> simp only [getSerializedSize, UInt32.ofNat_add, apply_ite UInt32.ofNat, Option.elim] <;> rfl
  rw [hsize]
  refine congrArg UInt32.ofNat ?_
  cases typeExt <;> cases indexStart <;> cases indexStop <;> cases value <;>
    simp [serialize, writeIndexes, writeValue] at hindex ⊢ <;> omega

theorem serialize_ne_nil : t.serialize ≠ [] := List.cons_ne_nil _ _

end Tlv

namespace TlvBlock

/-- The TLVs survive, and their size reaches the last of them. -/
def Survives (tlvs : List Tlv) : Prop :=
  (∀ t ∈ tlvs, t.Survives) ∧ Reaches 0 (tlvs.map fun t => t.serialize.length)
deriving Decidable

theorem serialize_eq (tlvs : List Tlv) :
    serialize tlvs = bigEndian 2 (tlvs.flatMap Tlv.serialize).length ++ tlvs.flatMap Tlv.serialize := by
  cases tlvs <;> rfl

theorem length_serialize (tlvs : List Tlv) : (serialize tlvs).length = 2 + (tlvs.flatMap Tlv.serialize).length := by
  rw [serialize_eq, List.length_append, length_bigEndian]

theorem readsIff {tlvs : List Tlv} (htlvs : ∀ t ∈ tlvs, t.Made) :
    ReadsIff id deserialize (serialize tlvs) tlvs (Survives tlvs) := by
  have hbelow := readsIff_below (m := (tlvs.flatMap Tlv.serialize).length % 65536) (d := 0)
    (fun t ht => Tlv.readsIff (htlvs t ht)) fun t _ => t.serialize_ne_nil
  rw [List.map_id_fun] at hbelow
  rw [serialize_eq]
  refine ((reads_number 2 _).bind_readsIff hbelow).congr (and_congr_right fun _ => ?_)
  have htiles := tiles_mod_iff 0 (tlvs.map fun t => t.serialize.length)
  rwa [Nat.zero_add, ← List.length_flatMap] at htiles

theorem size_eq {tlvs : List Tlv} (h : Survives tlvs) :
    getSerializedSize tlvs = UInt32.ofNat (serialize tlvs).length := by
  have hsize := foldl_size (fun t ht => Tlv.size_eq (h.1 t ht)) 2
  rw [length_serialize]
  exact hsize

end TlvBlock

/-! ### Address blocks -/

namespace AddressBlock

/-- The addresses are of the class, and keep their tail; and without addresses there is no prefix. -/
structure Survives (kind : AddressLength) (b : AddressBlock) : Prop where
  kind : b.addresses ≠ [] → b.kind = kind
  prefixes : b.addresses = [] → b.prefixes = []
  tailKept : 2 ≤ b.addresses.length → TailKept b.kind.octets b.addresses
  tlvs : TlvBlock.Survives b.tlvs

variable {b : AddressBlock}

theorem octets_pos (kind : AddressLength) : 0 < kind.octets := by
  cases kind <;> decide

theorem octets_le (kind : AddressLength) : kind.octets ≤ 16 := by
  cases kind <;> decide

/-! #### Several addresses -/

theorem getPrefixFlags_eq (b : AddressBlock) :
    b.getPrefixFlags = flag (b.prefixes.length = 1) 0x10 ||| flag (2 ≤ b.prefixes.length) 0x08 := by
  rw [getPrefixFlags]
  match b.prefixes.length with
  | 0 => rfl
  | 1 => rfl
  | n + 2 =>
    rw [decide_eq_false (by omega), decide_eq_true (by omega)]
    rfl

theorem has_compressedFlags (b : AddressBlock) :
    has b.compressedFlags 0x80 = decide (0 < b.getHeadTail.headlen) ∧
    has b.compressedFlags 0x40 =
      (decide (0 < b.getHeadTail.taillen) && !hasZeroTail (b.getHeadTail.tail b.kind.octets)) ∧
    ((b.compressedFlags &&& 0x40) ^^^ (b.compressedFlags &&& 0x20) != 0) = decide (0 < b.getHeadTail.taillen) ∧
    has b.compressedFlags 0x10 = decide (b.prefixes.length = 1) ∧
    has b.compressedFlags 0x08 = decide (2 ≤ b.prefixes.length) := by
  have hbits : ∀ head tail zero single multi : Bool,
      let flags := flag head 0x80 ||| flag (tail && zero) 0x20 ||| flag (tail && !zero) 0x40 |||
        (flag single 0x10 ||| flag multi 0x08)
      has flags 0x80 = head ∧ has flags 0x40 = (tail && !zero) ∧
        ((flags &&& 0x40) ^^^ (flags &&& 0x20) != 0) = tail ∧ has flags 0x10 = single ∧ has flags 0x08 = multi := by
    decide
  rw [compressedFlags, getPrefixFlags_eq]
  exact hbits _ _ _ _ _

theorem reads_readInto {len n : ℕ} {octets : List UInt8} (hlen : octets.length = n) (hle : n ≤ len) :
    (readInto len n).Reads octets octets := by
  rw [readInto, if_pos hle]
  exact reads_octets hlen

variable {kind : AddressLength}

theorem toNat_ofNat_le {n : ℕ} (h : n ≤ kind.octets) : (UInt8.ofNat n).toNat = n := by
  have hle := octets_le kind
  rw [UInt8.toNat_ofNat']
  omega

theorem eq_replicate_of_hasZeroTail {tail : List UInt8} (h : hasZeroTail tail = true) :
    tail = List.replicate tail.length 0 :=
  List.eq_replicate_iff.mpr ⟨rfl, fun x hx => eq_of_beq (List.all_eq_true.mp h x hx)⟩

theorem headlen_le (hcount : 2 ≤ b.addresses.length) : b.getHeadTail.headlen ≤ b.kind.octets :=
  HeadTail.headlen_le _ (List.ne_nil_of_length_pos (Nat.zero_lt_of_lt hcount))

theorem taillen_le (hcount : 2 ≤ b.addresses.length) : b.getHeadTail.taillen ≤ b.kind.octets :=
  HeadTail.taillen_le (octets_pos _) hcount

section Compressed

variable (hb : b.Made) (hcount : 2 ≤ b.addresses.length)
include hb hcount

theorem length_bufcur : b.getHeadTail.bufcur.length = b.kind.octets :=
  hb.octets _ (HeadTail.bufcur_mem hcount)

theorem length_head : b.getHeadTail.head.length = b.getHeadTail.headlen := by
  rw [HeadTail.head, List.length_take, length_bufcur hb hcount]
  exact min_eq_left (headlen_le hcount)

theorem length_tail : (b.getHeadTail.tail b.kind.octets).length = b.getHeadTail.taillen := by
  have hle := taillen_le hcount
  rw [HeadTail.tail, List.length_drop, length_bufcur hb hcount]
  omega

theorem reads_readHead : (readHead b.kind.octets b.compressedFlags).Reads
    (if 0 < b.getHeadTail.headlen then UInt8.ofNat b.getHeadTail.headlen :: b.getHeadTail.head else [])
    b.getHeadTail.head := by
  rw [readHead, (has_compressedFlags b).1]
  have hle := headlen_le hcount
  have hlength := length_head hb hcount
  by_cases hpos : 0 < b.getHeadTail.headlen
  · rw [decide_eq_true hpos, if_pos rfl, if_pos hpos]
    have hread : (octet >>= fun headlen => readInto b.kind.octets headlen.toNat).Reads
        ([UInt8.ofNat b.getHeadTail.headlen] ++ b.getHeadTail.head) b.getHeadTail.head := by
      refine (reads_octet _).bind ?_
      rw [toNat_ofNat_le hle]
      exact reads_readInto hlength hle
    exact hread
  · rw [decide_eq_false hpos, if_neg Bool.false_ne_true, if_neg hpos]
    have hnil : b.getHeadTail.head = [] := List.eq_nil_of_length_eq_zero (by omega)
    rw [hnil]
    exact .pure []

theorem reads_readTail : (readTail b.kind.octets b.compressedFlags).Reads
    (if 0 < b.getHeadTail.taillen then UInt8.ofNat b.getHeadTail.taillen ::
      if hasZeroTail (b.getHeadTail.tail b.kind.octets) then [] else b.getHeadTail.tail b.kind.octets else [])
    (b.getHeadTail.tail b.kind.octets) := by
  obtain ⟨-, hfull, htail, -, -⟩ := has_compressedFlags b
  have hle := taillen_le hcount
  have hlength := length_tail hb hcount
  rw [readTail, htail, hfull]
  by_cases hpos : 0 < b.getHeadTail.taillen
  · rw [decide_eq_true hpos, if_pos rfl, if_pos hpos, Bool.true_and]
    have hread : (octet >>= fun taillen => if (!hasZeroTail (b.getHeadTail.tail b.kind.octets)) = true
        then readInto b.kind.octets taillen.toNat else pure (List.replicate taillen.toNat 0)).Reads
        ([UInt8.ofNat b.getHeadTail.taillen] ++
          if hasZeroTail (b.getHeadTail.tail b.kind.octets) then [] else b.getHeadTail.tail b.kind.octets)
        (b.getHeadTail.tail b.kind.octets) := by
      refine (reads_octet _).bind ?_
      rw [toNat_ofNat_le hle]
      cases hzero : hasZeroTail (b.getHeadTail.tail b.kind.octets) with
      | true =>
        have htailEq := eq_replicate_of_hasZeroTail hzero
        rw [hlength] at htailEq
        rw [if_neg (by simp), if_pos rfl, ← htailEq]
        exact .pure _
      | false =>
        rw [if_pos (by simp), if_neg (by simp)]
        exact reads_readInto hlength hle
    exact hread
  · rw [decide_eq_false hpos, if_neg Bool.false_ne_true, if_neg hpos]
    have hnil : b.getHeadTail.tail b.kind.octets = [] := List.eq_nil_of_length_eq_zero (by omega)
    rw [hnil]
    exact .pure []

/-- An address with the head and the tail that are written. -/
def rebuilt (b : AddressBlock) (address : List UInt8) : List UInt8 :=
  b.getHeadTail.head ++ ((address.drop b.getHeadTail.headlen).take
    (b.kind.octets - b.getHeadTail.headlen - b.getHeadTail.taillen) ++ b.getHeadTail.tail b.kind.octets)

omit hb in
theorem rebuilt_eq_iff (hsum : b.getHeadTail.headlen + b.getHeadTail.taillen ≤ b.kind.octets) {address : List UInt8}
    (haddress : address ∈ b.addresses) : b.rebuilt address = address ↔
      b.getHeadTail.tail b.kind.octets = address.drop (b.kind.octets - b.getHeadTail.taillen) := by
  have hne : b.addresses ≠ [] := List.ne_nil_of_mem haddress
  have hhead : b.getHeadTail.head = address.take b.getHeadTail.headlen := by
    rw [HeadTail.head, getHeadTail, HeadTail.headlen_find hne]
    exact take_commonHead (HeadTail.bufcur_mem hcount) haddress
  have hsplit : address = address.take b.getHeadTail.headlen ++ ((address.drop b.getHeadTail.headlen).take
      (b.kind.octets - b.getHeadTail.headlen - b.getHeadTail.taillen) ++
        address.drop (b.kind.octets - b.getHeadTail.taillen)) := by
    have hdrop : address.drop (b.kind.octets - b.getHeadTail.taillen) = (address.drop b.getHeadTail.headlen).drop
        (b.kind.octets - b.getHeadTail.headlen - b.getHeadTail.taillen) := by
      rw [List.drop_drop]
      congr 1
      omega
    rw [hdrop, List.take_append_drop, List.take_append_drop]
  rw [rebuilt, hhead]
  constructor
  · intro heq
    exact List.append_cancel_left (List.append_cancel_left (heq.trans hsplit))
  · intro htail
    rw [htail]
    exact hsplit.symm

theorem reads_readMiddles (hsum : b.getHeadTail.headlen + b.getHeadTail.taillen ≤ b.kind.octets) :
    (readMiddles b.kind.octets b.addresses.length b.getHeadTail.head (b.getHeadTail.tail b.kind.octets)).Reads
      (if b.getHeadTail.headlen + b.getHeadTail.taillen < b.kind.octets then
        b.addresses.flatMap fun address => (address.drop b.getHeadTail.headlen).take
          (b.kind.octets - b.getHeadTail.headlen - b.getHeadTail.taillen)
      else [])
      (b.addresses.map b.rebuilt) := by
  have hwritten : (if b.getHeadTail.headlen + b.getHeadTail.taillen < b.kind.octets then
        b.addresses.flatMap fun address => (address.drop b.getHeadTail.headlen).take
          (b.kind.octets - b.getHeadTail.headlen - b.getHeadTail.taillen)
      else []) = b.addresses.flatMap fun address => (address.drop b.getHeadTail.headlen).take
          (b.kind.octets - b.getHeadTail.headlen - b.getHeadTail.taillen) := by
    split_ifs with hlt
    · rfl
    · have hzero : b.kind.octets - b.getHeadTail.headlen - b.getHeadTail.taillen = 0 := by omega
      exact (List.flatMap_eq_nil_iff.mpr fun _ _ => by rw [hzero, List.take_zero]).symm
  rw [readMiddles, length_head hb hcount, length_tail hb hcount, if_pos hsum, hwritten]
  refine reads_times b.addresses fun address haddress => ?_
  have hlength : ((address.drop b.getHeadTail.headlen).take
      (b.kind.octets - b.getHeadTail.headlen - b.getHeadTail.taillen)).length =
        b.kind.octets - b.getHeadTail.headlen - b.getHeadTail.taillen := by
    rw [List.length_take, List.length_drop, hb.octets address haddress]
    omega
  exact (reads_octets hlength).map fun middle =>
    b.getHeadTail.head ++ (middle ++ b.getHeadTail.tail b.kind.octets)

theorem reads_readPrefixes : (readPrefixes b.addresses.length b.compressedFlags).Reads b.prefixes b.prefixes := by
  obtain ⟨-, -, -, hsingle, hmulti⟩ := has_compressedFlags b
  rw [readPrefixes, hsingle, hmulti]
  rcases hb.prefixes with hnone | hone | hmany
  · rw [decide_eq_false (by omega), decide_eq_false (by omega), if_neg Bool.false_ne_true, if_neg Bool.false_ne_true,
      List.eq_nil_of_length_eq_zero hnone]
    exact .pure []
  · rw [decide_eq_true hone, if_pos rfl]
    obtain ⟨pfx, hpfx⟩ := List.length_eq_one_iff.mp hone
    rw [hpfx]
    exact (reads_octet pfx).bind (.pure [pfx])
  · rw [decide_eq_false (by omega), decide_eq_true (by omega), if_neg Bool.false_ne_true, if_pos rfl, ← hmany]
    have hread := reads_times (f := id) b.prefixes fun pfx _ => reads_octet pfx
    rwa [List.map_id, List.flatMap_singleton'] at hread

omit hb in
theorem map_rebuilt_iff (hsum : b.getHeadTail.headlen + b.getHeadTail.taillen ≤ b.kind.octets) :
    b.addresses.map b.rebuilt = b.addresses ↔ ShareTail b.kind.octets b.getHeadTail.taillen b.addresses := by
  have hmem : b.getHeadTail.bufcur ∈ b.addresses := HeadTail.bufcur_mem hcount
  constructor
  · intro hmap address haddress address' haddress'
    have hkeep := List.map_inj_left.mp (hmap.trans (List.map_id _).symm)
    exact ((rebuilt_eq_iff hcount hsum haddress).mp (hkeep address haddress)).symm.trans
      ((rebuilt_eq_iff hcount hsum haddress').mp (hkeep address' haddress'))
  · intro hshare
    have hkeep : ∀ address ∈ b.addresses, b.rebuilt address = id address := fun address haddress =>
      (rebuilt_eq_iff hcount hsum haddress).mpr (hshare _ hmem address haddress)
    rw [List.map_congr_left hkeep, List.map_id]

/-- The addresses and the prefixes are read as they were exactly if the addresses keep their tail. -/
theorem readsIff_compressed : ReadsIff id (readSome b.kind.octets b.addresses.length b.compressedFlags)
    b.writeCompressed (b.addresses, b.prefixes) (TailKept b.kind.octets b.addresses) := by
  have hkept := tailKept_iff (octets_pos b.kind) hcount
  refine (reads_readHead hb hcount).bind_readsIff ((reads_readTail hb hcount).bind_readsIff ?_)
  by_cases hsum : b.getHeadTail.headlen + b.getHeadTail.taillen ≤ b.kind.octets
  · have hread : (readMiddles b.kind.octets b.addresses.length b.getHeadTail.head
        (b.getHeadTail.tail b.kind.octets) >>= fun addresses =>
          readPrefixes b.addresses.length b.compressedFlags >>= fun prefixes => pure (addresses, prefixes)).Reads
        _ (b.addresses.map b.rebuilt, b.prefixes) :=
      (reads_readMiddles hb hcount hsum).bind ((reads_readPrefixes hb hcount).bind (.pure _))
    rw [List.append_nil] at hread
    refine (hread.readsIff id (b.addresses, b.prefixes)).congr ?_
    rw [id, id, Prod.mk.injEq, and_iff_left rfl, map_rebuilt_iff hcount hsum, hkept]
    exact (and_iff_right hsum).symm
  · have hfail : readMiddles b.kind.octets b.addresses.length b.getHeadTail.head
        (b.getHeadTail.tail b.kind.octets) = fail .outside := by
      rw [readMiddles, length_head hb hcount, length_tail hb hcount, if_neg hsum]
    rw [hfail]
    exact (readsIff_fail _ _ _ _ _).congr (iff_of_false not_false fun h => hsum (hkept.mp h).1)

end Compressed

/-! #### One address and none -/

theorem reads_single (hb : b.Made) {address : List UInt8} (haddress : b.addresses = [address]) :
    (readSome b.kind.octets 1 (flag (b.prefixes.length = 1) 0x10)).Reads
      (b.addresses.flatten ++ if b.prefixes.length = 1 then b.prefixes else []) (b.addresses, b.prefixes) := by
  have hlength : address.length = b.kind.octets := hb.octets address (haddress ▸ List.mem_singleton_self address)
  have hmiddles : (readMiddles b.kind.octets 1 [] []).Reads (address ++ []) [address] := by
    have hread : (times (octets b.kind.octets) 1).Reads (address ++ []) [address] :=
      reads_times (f := id) [address] fun middle hmiddle => by
        rw [List.mem_singleton.mp hmiddle]
        exact reads_octets hlength
    rw [readMiddles, if_pos (by simp)]
    simpa only [List.length_nil, Nat.sub_zero, List.nil_append, List.append_nil, bind_pure] using hread
  have hprefixes := hb.prefixes
  rw [haddress, List.length_singleton] at hprefixes
  by_cases hone : b.prefixes.length = 1
  · obtain ⟨pfx, hpfx⟩ := List.length_eq_one_iff.mp hone
    have hpfxs : (readPrefixes 1 (flag true 0x10)).Reads ([pfx] ++ []) [pfx] := (reads_octet pfx).bind (.pure [pfx])
    rw [if_pos hone, haddress, hpfx]
    have hread : (readSome b.kind.octets 1 (flag true 0x10)).Reads
        ([] ++ ([] ++ ((address ++ []) ++ (([pfx] ++ []) ++ [])))) ([address], [pfx]) :=
      (Reads.pure []).bind ((Reads.pure []).bind (hmiddles.bind (hpfxs.bind (.pure _))))
    simpa using hread
  · have hnil : b.prefixes = [] := List.eq_nil_of_length_eq_zero (by omega)
    rw [if_neg hone, haddress, hnil]
    have hread : (readSome b.kind.octets 1 (flag false 0x10)).Reads ([] ++ ([] ++ ((address ++ []) ++ ([] ++ []))))
        ([address], []) :=
      (Reads.pure []).bind ((Reads.pure []).bind (hmiddles.bind ((Reads.pure []).bind (.pure _))))
    simpa using hread

/-- All addresses that are read are of the class. -/
theorem length_of_readSome {len numaddr : ℕ} {flags : UInt8} {l l' : List UInt8}
    {x : List (List UInt8) × List UInt8} (h : readSome len numaddr flags l = .ok (x, l')) :
    ∀ address ∈ x.1, address.length = len := by
  obtain ⟨head, l₁, -, h⟩ := bind_eq_ok.mp h
  obtain ⟨tail, l₂, -, h⟩ := bind_eq_ok.mp h
  obtain ⟨addresses, l₃, hmiddles, h⟩ := bind_eq_ok.mp h
  obtain ⟨prefixes, l₄, -, h⟩ := bind_eq_ok.mp h
  cases h
  rw [readMiddles] at hmiddles
  split_ifs at hmiddles with hsum
  · refine mem_of_times (fun l address l' haddress => ?_) hmiddles
    obtain ⟨middle, l₅, hmiddle, haddress⟩ := bind_eq_ok.mp haddress
    cases haddress
    rw [List.length_append, List.length_append, length_of_octets hmiddle]
    omega
  · exact absurd hmiddles (fail_ne_ok _ _ _)

/-! #### Whole address blocks -/

/-- The addresses and the prefixes are read as they were exactly under the condition on them. -/
theorem readsIff_addresses (hb : b.Made) (kind : AddressLength) (blank : UInt8) :
    ReadsIff id (readAddresses kind.octets (UInt8.ofNat b.addresses.length).toNat (b.writeAddresses blank).1)
      (b.writeAddresses blank).2 (b.addresses, b.prefixes)
      ((b.addresses ≠ [] → b.kind = kind) ∧ (b.addresses = [] → b.prefixes = []) ∧
        (2 ≤ b.addresses.length → TailKept b.kind.octets b.addresses)) := by
  have hnat : (UInt8.ofNat b.addresses.length).toNat = b.addresses.length := by
    have hle := hb.count
    rw [UInt8.toNat_ofNat']
    omega
  rw [hnat, readAddresses]
  by_cases hnone : b.addresses = []
  · have hlen : b.addresses.length = 0 := congrArg List.length hnone
    have hread :
        (pure ([], []) : Parser (List (List UInt8) × List UInt8)).Reads (b.writeAddresses blank).2 ([], []) := by
      rw [writeAddresses, if_neg (by omega), if_neg (by omega)]
      exact .pure _
    rw [if_neg (by omega)]
    refine (hread.readsIff id _).congr ?_
    rw [hnone]
    simp [eq_comm]
  · have hlen := List.length_pos_iff.mpr hnone
    rw [if_pos hlen]
    by_cases hkind : b.kind = kind
    · subst hkind
      by_cases hone : b.addresses.length = 1
      · obtain ⟨address, haddress⟩ := List.length_eq_one_iff.mp hone
        have hread := reads_single hb haddress
        rw [writeAddresses, if_pos hone, hone]
        refine (hread.readsIff id _).congr (iff_of_true rfl ⟨fun _ => rfl, fun h => absurd h hnone, fun h => ?_⟩)
        omega
      · have hcount : 2 ≤ b.addresses.length := by omega
        rw [writeAddresses, if_neg hone, if_pos hlen]
        refine (readsIff_compressed hb hcount).congr ?_
        exact ⟨fun h => ⟨fun _ => rfl, fun h => absurd h hnone, fun _ => h⟩, fun h => h.2.2 hcount⟩
    · intro rest rest'
      refine iff_of_false ?_ fun h => hkind (h.1.1 hnone)
      rintro ⟨x, hx, heq⟩
      obtain rfl : x = (b.addresses, b.prefixes) := heq
      obtain ⟨address, haddress⟩ := List.exists_mem_of_ne_nil _ hnone
      have hlength := (hb.octets address haddress).symm.trans (length_of_readSome hx address haddress)
      revert hkind hlength
      cases b.kind <;> cases kind <;> simp [AddressLength.octets]

/-- An address block is read as it was exactly if it survives. -/
theorem readsIff (hb : b.Made) (kind : AddressLength) (blank : UInt8) :
    ReadsIff members (deserialize kind) (b.serialize blank) b (b.Survives kind) := by
  have htlvs : ∀ x : List (List UInt8) × List UInt8, x = (b.addresses, b.prefixes) →
      ReadsIff members (TlvBlock.deserialize >>= fun tlvs => pure ⟨kind, x.1, x.2, tlvs⟩)
        (TlvBlock.serialize b.tlvs) b (TlvBlock.Survives b.tlvs) := by
    rintro _ rfl
    refine (TlvBlock.readsIff hb.tlvs).map _ fun tlvs => ?_
    simp [members]
  have hbody := (readsIff_addresses hb kind blank).bind htlvs fun x l b' l' h hmembers => by
    obtain ⟨tlvs, l₁, -, h⟩ := bind_eq_ok.mp h
    cases h
    simp only [members, Prod.mk.injEq] at hmembers
    exact Prod.ext hmembers.1 hmembers.2.1
  refine ((reads_octet _).bind_readsIff ((reads_octet _).bind_readsIff hbody)).congr ?_
  exact ⟨fun ⟨⟨hkind, hprefixes, hkept⟩, htlvs⟩ => ⟨hkind, hprefixes, hkept, htlvs⟩,
    fun h => ⟨⟨h.kind, h.prefixes, h.tailKept⟩, h.tlvs⟩⟩

theorem serialize_ne_nil (blank : UInt8) (b : AddressBlock) : b.serialize blank ≠ [] := List.cons_ne_nil _ _

theorem length_flatMap_eq {α : Type} {w : α → List UInt8} {n : ℕ} {as : List α} (h : ∀ a ∈ as, (w a).length = n) :
    (as.flatMap w).length = n * as.length := by
  induction as with
  | nil => rfl
  | cons a as ih =>
    rw [List.flatMap_cons, List.length_append, h a List.mem_cons_self, ih fun b hb => h b (List.mem_cons_of_mem _ hb),
      List.length_cons, Nat.mul_succ, Nat.add_comm]

theorem compressedSize_eq (hb : b.Made) (hcount : 2 ≤ b.addresses.length)
    (hkept : TailKept b.kind.octets b.addresses) : b.compressedSize = UInt32.ofNat b.writeCompressed.length := by
  have hsum : b.getHeadTail.headlen + b.getHeadTail.taillen ≤ b.kind.octets :=
    ((tailKept_iff (octets_pos b.kind) hcount).mp hkept).1
  have hmiddles : (if b.getHeadTail.headlen + b.getHeadTail.taillen < b.kind.octets then
      b.addresses.flatMap fun address => (address.drop b.getHeadTail.headlen).take
        (b.kind.octets - b.getHeadTail.headlen - b.getHeadTail.taillen) else []).length =
      (b.kind.octets - b.getHeadTail.headlen - b.getHeadTail.taillen) * b.addresses.length := by
    split_ifs with hlt
    · refine length_flatMap_eq fun address haddress => ?_
      rw [List.length_take, List.length_drop, hb.octets address haddress]
      omega
    · have hzero : b.kind.octets - b.getHeadTail.headlen - b.getHeadTail.taillen = 0 := by omega
      rw [hzero, Nat.zero_mul, List.length_nil]
  have hcast : ((b.kind.octets : ℤ) - b.getHeadTail.headlen - b.getHeadTail.taillen) * b.addresses.length =
      ((b.kind.octets - b.getHeadTail.headlen - b.getHeadTail.taillen) * b.addresses.length : ℕ) := by
    rw [Int.natCast_mul]
    congr 1
    omega
  have hhead : (if 0 < b.getHeadTail.headlen then UInt32.ofNat (1 + b.getHeadTail.headlen) else 0) = UInt32.ofNat
      (if 0 < b.getHeadTail.headlen then UInt8.ofNat b.getHeadTail.headlen :: b.getHeadTail.head else []).length := by
    split_ifs
    · rw [List.length_cons, length_head hb hcount, Nat.add_comm]
    · rfl
  have htail : (if 0 < b.getHeadTail.taillen then
      1 + (if hasZeroTail (b.getHeadTail.tail b.kind.octets) then 0 else UInt32.ofNat b.getHeadTail.taillen) else 0) =
      UInt32.ofNat (if 0 < b.getHeadTail.taillen then UInt8.ofNat b.getHeadTail.taillen ::
        if hasZeroTail (b.getHeadTail.tail b.kind.octets) then [] else b.getHeadTail.tail b.kind.octets
        else []).length := by
    split_ifs
    · rfl
    · rw [List.length_cons, length_tail hb hcount, UInt32.ofNat_add, UInt32.add_comm]
      rfl
    · rfl
  rw [compressedSize, writeCompressed, hcast, ofInt_natCast, hhead, htail, List.length_append, List.length_append,
    List.length_append, hmiddles, UInt32.ofNat_add, UInt32.ofNat_add, UInt32.ofNat_add]
  simp only [UInt32.add_assoc]

theorem addressesSize_eq (hb : b.Made) (h : b.Survives kind) (blank : UInt8) :
    (if b.addresses.length = 1 then UInt32.ofNat (b.kind.octets + b.prefixes.length)
      else if 0 < b.addresses.length then b.compressedSize else 0) =
        UInt32.ofNat (b.writeAddresses blank).2.length := by
  rw [writeAddresses]
  by_cases hone : b.addresses.length = 1
  · obtain ⟨address, haddress⟩ := List.length_eq_one_iff.mp hone
    have hflatten : b.addresses.flatten.length = b.kind.octets := by
      have hoctets := hb.octets address (haddress ▸ List.mem_singleton_self address)
      simpa [haddress] using hoctets
    have hprefixes : (if b.prefixes.length = 1 then b.prefixes else []).length = b.prefixes.length := by
      have hcases := hb.prefixes
      split_ifs with hpfx
      · rfl
      · rw [List.length_nil]
        omega
    rw [if_pos hone, if_pos hone, List.length_append, hflatten, hprefixes]
  · by_cases hsome : 0 < b.addresses.length
    · have hcount : 2 ≤ b.addresses.length := by omega
      rw [if_neg hone, if_pos hsome, if_neg hone, if_pos hsome]
      exact compressedSize_eq hb hcount (h.tailKept hcount)
    · rw [if_neg hone, if_neg hsome, if_neg hone, if_neg hsome]
      rfl

theorem size_eq (hb : b.Made) (h : b.Survives kind) (blank : UInt8) :
    b.getSerializedSize = UInt32.ofNat (b.serialize blank).length := by
  have hlength : (b.serialize blank).length =
      2 + (b.writeAddresses blank).2.length + (TlvBlock.serialize b.tlvs).length := by
    rw [serialize, List.length_cons, List.length_cons, List.length_append]
    omega
  rw [hlength, getSerializedSize, addressesSize_eq hb h blank, TlvBlock.size_eq h.tlvs, UInt32.ofNat_add,
    UInt32.ofNat_add]
  rfl

theorem length_serialize (blank : UInt8) (b : AddressBlock) : (b.serialize blank).length = (b.serialize 0).length := by
  have hsnd : (b.writeAddresses blank).2 = (b.writeAddresses 0).2 := by
    rw [writeAddresses, writeAddresses]
    split_ifs <;> rfl
  rw [serialize, serialize, List.length_cons, List.length_cons, List.length_cons, List.length_cons, hsnd]

end AddressBlock

/-! ### Messages -/

theorem length_flatMap_blank {α : Type} {w : UInt8 → α → List UInt8}
    (h : ∀ blank a, (w blank a).length = (w 0 a).length) (blank : UInt8) (as : List α) :
    (as.flatMap (w blank)).length = (as.flatMap (w 0)).length := by
  rw [List.length_flatMap, List.length_flatMap]
  exact congrArg List.sum (List.map_congr_left fun a _ => h blank a)

theorem reads_number16 (n : UInt16) : (UInt16.ofNat <$> number 2).Reads (bigEndian 2 n.toNat) n := by
  have hlt : n.toNat < 256 ^ 2 := n.toNat_lt
  have hread := (reads_number 2 n.toNat).map UInt16.ofNat
  rwa [Nat.mod_eq_of_lt hlt, UInt16.ofNat_toNat] at hread

namespace Message

/-- The TLVs and the address blocks survive, and the size reaches the last of the address blocks. -/
structure Survives (m : Message) : Prop where
  tlvs : TlvBlock.Survives m.tlvs
  addressBlocks : ∀ b ∈ m.addressBlocks, b.Survives m.kind
  reaches : Reaches (4 + m.writeFields.length + (TlvBlock.serialize m.tlvs).length)
    (m.addressBlocks.map fun b => (b.serialize 0).length)

variable {m : Message}

theorem has_flags (m : Message) : has m.flags 0x80 = m.originatorAddress.isSome ∧
    has m.flags 0x40 = m.hopLimit.isSome ∧ has m.flags 0x20 = m.hopCount.isSome ∧
    has m.flags 0x10 = m.sequenceNumber.isSome ∧ kindOf m.flags = some m.kind := by
  have hbits : ∀ origin limit count seqno : Bool,
      let flags := m.kind.value ||| flag origin 0x80 ||| flag limit 0x40 ||| flag count 0x20 ||| flag seqno 0x10
      has flags 0x80 = origin ∧ has flags 0x40 = limit ∧ has flags 0x20 = count ∧ has flags 0x10 = seqno ∧
        kindOf flags = some m.kind := by
    cases m.kind <;> decide
  exact hbits _ _ _ _

variable (blank : UInt8)

theorem length_writeBody (m : Message) : 4 + (m.writeBody blank).length =
    4 + m.writeFields.length + (TlvBlock.serialize m.tlvs).length +
      (m.addressBlocks.map fun b => (b.serialize 0).length).sum := by
  rw [writeBody, List.length_append, List.length_append, length_flatMap_blank AddressBlock.length_serialize,
    List.length_flatMap]
  omega

/-- The octets before the TLVs. -/
def writeFront (m : Message) : List UInt8 :=
  [m.type] ++ ([m.flags] ++ (bigEndian 2 (4 + (m.writeBody blank).length) ++ m.writeFields))

theorem length_writeFront (m : Message) : (m.writeFront blank).length = 4 + m.writeFields.length := by
  simp only [writeFront, List.length_append, List.length_singleton, length_bigEndian]
  omega

theorem serialize_eq (m : Message) : m.serialize blank = m.writeFront blank ++
    (TlvBlock.serialize m.tlvs ++ m.addressBlocks.flatMap (AddressBlock.serialize blank)) := by
  rw [writeFront, List.append_assoc, List.append_assoc, List.append_assoc]
  rfl

theorem reads_readFields (hm : m.Made) (blank : UInt8) : (readFields m.kind).Reads (m.writeFront blank)
    ((4 + (m.writeBody blank).length) % 65536, { m with tlvs := [], addressBlocks := [] }) := by
  obtain ⟨horigin, hlimit, hcount, hseqno, -⟩ := m.has_flags
  have hread : (readFields m.kind).Reads ([m.type] ++ ([m.flags] ++ (bigEndian 2 (4 + (m.writeBody blank).length) ++
      (m.originatorAddress.elim [] id ++ (m.hopLimit.elim [] (fun hopLimit => [hopLimit]) ++
        (m.hopCount.elim [] (fun hopCount => [hopCount]) ++
          (m.sequenceNumber.elim [] (fun sequenceNumber => bigEndian 2 sequenceNumber.toNat) ++ [])))))))
      ((4 + (m.writeBody blank).length) % 65536, { m with tlvs := [], addressBlocks := [] }) := by
    refine (reads_octet _).bind ((reads_octet _).bind ((reads_number 2 _).bind ?_))
    rw [horigin, hlimit, hcount, hseqno]
    refine (reads_optional fun address haddress => reads_octets (hm.originatorAddress address haddress)).bind ?_
    refine (reads_optional fun hopLimit _ => reads_octet hopLimit).bind ?_
    refine (reads_optional fun hopCount _ => reads_octet hopCount).bind ?_
    exact (reads_optional fun sequenceNumber _ => reads_number16 sequenceNumber).bind (.pure _)
  rwa [List.append_nil] at hread

/-- A message is read as it was exactly if it survives. -/
theorem readsIff (hm : m.Made) (blank : UInt8) :
    ReadsIff members (deserialize m.kind) (m.serialize blank) m m.Survives := by
  have hblocks := readsIff_below (m := (4 + (m.writeBody blank).length) % 65536)
    (d := (m.writeFront blank).length + (TlvBlock.serialize m.tlvs).length)
    (fun b hb => AddressBlock.readsIff (hm.addressBlocks b hb) m.kind blank)
    fun b _ => AddressBlock.serialize_ne_nil blank b
  have htlvs := (TlvBlock.readsIff hm.tlvs).bind_counted (w := members) (b := m)
    (f := fun tlvs => below (AddressBlock.deserialize m.kind) ((4 + (m.writeBody blank).length) % 65536)
      ((m.writeFront blank).length + tlvs.2) >>= fun addressBlocks =>
        pure { m with tlvs := tlvs.1, addressBlocks := addressBlocks })
    (fun tlvs htlvs => hblocks.map _ fun addressBlocks => by
      obtain rfl : tlvs = m.tlvs := htlvs
      simp [members])
    fun x l m' l' h hmembers => by
      obtain ⟨addressBlocks, l₁, -, h⟩ := bind_eq_ok.mp h
      cases h
      simp only [members, Prod.mk.injEq, true_and] at hmembers
      exact hmembers.1
  rw [serialize_eq]
  refine ((reads_readFields hm blank).counted.bind_readsIff htlvs).congr ?_
  have htiles := tiles_mod_iff (4 + m.writeFields.length + (TlvBlock.serialize m.tlvs).length)
    (m.addressBlocks.map fun b => (b.serialize 0).length)
  simp only [AddressBlock.length_serialize blank]
  rw [length_writeBody, length_writeFront, htiles]
  exact ⟨fun ⟨htlvs, hblocks, hreaches⟩ => ⟨htlvs, hblocks, hreaches⟩,
    fun h => ⟨h.tlvs, h.addressBlocks, h.reaches⟩⟩

theorem readsIff_deserializeMessage (hm : m.Made) (blank : UInt8) :
    ReadsIff (Option.map members) deserializeMessage (m.serialize blank) (some m) m.Survives := by
  obtain ⟨-, -, -, -, hkind⟩ := m.has_flags
  have hread := (readsIff hm blank).map (w := Option.map members) (b := some m) some fun m' => by simp
  intro rest rest'
  have hclass : deserializeMessage (m.serialize blank ++ rest) =
      deserializeAs (kindOf m.flags) (m.serialize blank ++ rest) := rfl
  rw [hclass, hkind]
  exact hread rest rest'

theorem serialize_ne_nil (m : Message) : m.serialize blank ≠ [] := List.cons_ne_nil _ _

theorem length_serialize (m : Message) : (m.serialize blank).length = (m.serialize 0).length := by
  rw [serialize_eq, serialize_eq, List.length_append, List.length_append, List.length_append, List.length_append,
    length_writeFront, length_writeFront, length_flatMap_blank AddressBlock.length_serialize]

theorem fieldsSize_eq (hm : m.Made) : m.fieldsSize = UInt32.ofNat m.writeFields.length := by
  have horigin : (if m.originatorAddress.isSome then m.kind.value.toUInt32 + 1 else 0) =
      UInt32.ofNat (m.originatorAddress.elim [] id).length := by
    cases ho : m.originatorAddress with
    | none => rfl
    | some address =>
      have hlength : (Option.elim (some address) [] id).length = m.kind.octets := hm.originatorAddress address ho
      rw [hlength]
      cases m.kind <;> rfl
  rw [fieldsSize, writeFields, List.length_append, List.length_append, List.length_append, UInt32.ofNat_add,
    UInt32.ofNat_add, UInt32.ofNat_add, horigin, UInt32.add_assoc, UInt32.add_assoc]
  cases m.hopLimit <;> cases m.hopCount <;> cases m.sequenceNumber <;> simp

theorem size_eq (hm : m.Made) (h : m.Survives) (blank : UInt8) :
    m.getSerializedSize = UInt32.ofNat (m.serialize blank).length := by
  have hfront : 4 + m.fieldsSize + TlvBlock.getSerializedSize m.tlvs =
      UInt32.ofNat (4 + m.writeFields.length + (TlvBlock.serialize m.tlvs).length) := by
    rw [fieldsSize_eq hm, TlvBlock.size_eq h.tlvs, UInt32.ofNat_add, UInt32.ofNat_add]
    rfl
  rw [getSerializedSize, hfront, foldl_size fun b hb => AddressBlock.size_eq (hm.addressBlocks b hb)
    (h.addressBlocks b hb) blank, serialize_eq, List.length_append, List.length_append, length_writeFront,
    Nat.add_assoc (4 + m.writeFields.length)]

end Message

/-! ### Packets -/

namespace Packet

/-- The TLVs and the messages survive, and the size of the packet has 32 bits. -/
structure Survives (p : Packet) : Prop where
  tlvs : TlvBlock.Survives p.tlvs
  messages : ∀ m ∈ p.messages, m.Survives
  size : (p.serialize 0).length < 2 ^ 32

variable {p : Packet}

theorem has_flags (p : Packet) : has p.flags 0x8 = p.sequenceNumber.isSome ∧ has p.flags 0x4 = !p.tlvs.isEmpty ∧
    p.flags >>> 4 = PacketBB.version := by
  have hbits : ∀ seqno tlvs : Bool,
      let flags := PacketBB.version <<< 4 ||| flag seqno 0x8 ||| flag tlvs 0x4
      has flags 0x8 = seqno ∧ has flags 0x4 = tlvs ∧ flags >>> 4 = PacketBB.version := by
    decide
  exact hbits _ _

/-- The octets of the TLVs. -/
def writeTlvs (p : Packet) : List UInt8 := if p.tlvs.isEmpty then [] else TlvBlock.serialize p.tlvs

theorem readsIff_readTlvs (hp : p.Made) :
    ReadsIff id (readTlvs p.flags) p.writeTlvs p.tlvs (TlvBlock.Survives p.tlvs) := by
  rw [readTlvs, writeTlvs, (has_flags p).2.1]
  cases htlvs : p.tlvs with
  | nil =>
    have hsurvives : TlvBlock.Survives [] := by decide
    exact ((Reads.pure []).readsIff id []).congr (iff_of_true rfl hsurvives)
  | cons t tlvs =>
    have hread := TlvBlock.readsIff hp.tlvs
    rwa [htlvs] at hread

/-- What is read of a packet is equal to it exactly if its TLVs and its messages survive. -/
theorem deserialize_iff (hp : p.Made) (blank : UInt8) :
    (∃ q rest, deserialize (p.serialize blank) = .ok (q, rest) ∧ q.Equal p) ↔
      TlvBlock.Survives p.tlvs ∧ ∀ m ∈ p.messages, m.Survives := by
  obtain ⟨hseqno, -, hversion⟩ := has_flags p
  have hmessages := toEnd_iff (fun m hm => Message.readsIff_deserializeMessage (hp.messages m hm) blank)
    fun m _ => Message.serialize_ne_nil blank m
  have hfront : deserialize (p.serialize blank) = (readTlvs p.flags >>= fun tlvs =>
      toEnd Message.deserializeMessage >>= fun messages => pure ⟨if messages.2 then p.flags >>> 4 else PacketBB.version,
        p.sequenceNumber, tlvs, messages.1⟩) (p.writeTlvs ++ p.messages.flatMap (Message.serialize blank)) := by
    have hoptional : (optional (has p.flags 0x8) (UInt16.ofNat <$> number 2)).Reads
        (p.sequenceNumber.elim [] fun sequenceNumber => bigEndian 2 sequenceNumber.toNat) p.sequenceNumber := by
      rw [hseqno]
      exact reads_optional fun sequenceNumber _ => reads_number16 sequenceNumber
    exact (bind_of_ok (reads_octet p.flags _)).trans (bind_of_ok (hoptional _))
  have htlvs := readsIff_readTlvs hp
  rw [hfront, ← hmessages]
  constructor
  · rintro ⟨q, rest, h, hequal⟩
    obtain ⟨tlvs, l, hread, h⟩ := bind_eq_ok.mp h
    obtain ⟨messages, l', hread', h⟩ := bind_eq_ok.mp h
    cases h
    obtain ⟨hsurvives, rfl⟩ := (htlvs _ l).mp ⟨tlvs, hread, hequal.tlvs⟩
    exact ⟨hsurvives, messages.1, messages.2, _, hread', hequal.messages⟩
  · rintro ⟨hsurvives, messages, whole, rest, hread', hmembers⟩
    obtain ⟨tlvs, hread, rfl⟩ := (htlvs (p.messages.flatMap (Message.serialize blank)) _).mpr ⟨hsurvives, rfl⟩
    refine ⟨_, rest, bind_eq_ok.mpr ⟨_, _, hread, bind_eq_ok.mpr ⟨_, _, hread', rfl⟩⟩, ?_⟩
    refine ⟨?_, rfl, rfl, hmembers⟩
    rw [hversion, ite_self, hp.version]

theorem length_serialize (blank : UInt8) (p : Packet) : (p.serialize blank).length = (p.serialize 0).length := by
  simp only [serialize, List.length_cons, List.length_append, length_flatMap_blank Message.length_serialize blank]

theorem size_eq (hp : p.Made) (htlvs : TlvBlock.Survives p.tlvs) (hmessages : ∀ m ∈ p.messages, m.Survives)
    (blank : UInt8) : p.getSerializedSize = UInt32.ofNat (p.serialize blank).length := by
  have hfront : 1 + (if p.sequenceNumber.isSome then 2 else 0) +
      (if p.tlvs.isEmpty then 0 else TlvBlock.getSerializedSize p.tlvs) = UInt32.ofNat (1 + (p.sequenceNumber.elim []
        fun sequenceNumber => bigEndian 2 sequenceNumber.toNat).length + p.writeTlvs.length) := by
    rw [UInt32.ofNat_add, UInt32.ofNat_add, writeTlvs, TlvBlock.size_eq htlvs]
    cases p.sequenceNumber <;> cases p.tlvs.isEmpty <;> simp
  have hlength : (p.serialize blank).length = 1 + (p.sequenceNumber.elim []
      fun sequenceNumber => bigEndian 2 sequenceNumber.toNat).length + p.writeTlvs.length +
        (p.messages.flatMap (Message.serialize blank)).length := by
    rw [serialize, List.length_cons, List.length_append, List.length_append, writeTlvs]
    omega
  rw [getSerializedSize, hfront, hlength,
    foldl_size fun m hm => Message.size_eq (hp.messages m hm) (hmessages m hm) blank]

/-- A packet that was made through the setters writes as many octets as it says, and is read from them with every member
equal, exactly if it survives. -/
theorem comesBack_iff {p : Packet} (hp : p.Made) (blank : UInt8) :
    ((p.serialize blank).length = p.getSerializedSize.toNat ∧
      ∃ q rest, deserialize (p.serialize blank) = .ok (q, rest) ∧ q.Equal p) ↔ p.Survives := by
  rw [deserialize_iff hp blank]
  have hsize : ∀ (_ : TlvBlock.Survives p.tlvs) (_ : ∀ m ∈ p.messages, m.Survives),
      ((p.serialize blank).length = p.getSerializedSize.toNat ↔ (p.serialize 0).length < 2 ^ 32) := by
    intro htlvs hmessages
    rw [size_eq hp htlvs hmessages blank, UInt32.toNat_ofNat', length_serialize]
    omega
  exact ⟨fun ⟨hlength, htlvs, hmessages⟩ => ⟨htlvs, hmessages, (hsize htlvs hmessages).mp hlength⟩,
    fun h => ⟨(hsize h.tlvs h.messages).mpr h.size, h.tlvs, h.messages⟩⟩

variable (isMultivalue : Bool)

/-- A message with the addresses `10.0.0.1` and `10.0.0.2`, and an address TLV for both with two values. -/
def Small.message : Message :=
  ⟨.ipv4, 1, some [10, 0, 0, 3], some 7, none, some 9, [⟨2, some 1, none, none, false, none⟩],
    [⟨.ipv4, [[10, 0, 0, 1], [10, 0, 0, 2]], [32], [⟨3, none, some 0, some 1, isMultivalue, some [5, 6]⟩]⟩]⟩

/-- A packet with this message. -/
def Small.packet : Packet := ⟨0, some 1, [], [message isMultivalue]⟩

theorem Small.made : (packet isMultivalue).Made := by
  refine ⟨rfl, fun t ht => absurd ht List.not_mem_nil, fun m hm => ?_⟩
  obtain rfl := List.mem_singleton.mp hm
  refine ⟨fun address haddress => ?_, fun t ht => ?_, fun b hb => ?_⟩
  · cases haddress
    rfl
  · obtain rfl := List.mem_singleton.mp ht
    exact fun value hvalue => by cases hvalue
  · obtain rfl := List.mem_singleton.mp hb
    have haddresses : ∀ address ∈ [[(10 : UInt8), 0, 0, 1], [10, 0, 0, 2]], address.length = 4 := by decide
    refine ⟨Nat.le_of_ble_eq_true rfl, haddresses, .inr (.inl rfl), fun t ht => ?_⟩
    obtain rfl := List.mem_singleton.mp ht
    intro value hvalue
    cases hvalue
    decide

/-- With one value for both addresses it is read as it was. -/
theorem comesBack_message : ((Small.packet false).serialize 0).length = (Small.packet false).getSerializedSize.toNat ∧
    ∃ q rest, deserialize ((Small.packet false).serialize 0) = .ok (q, rest) ∧ q.Equal (Small.packet false) := by
  refine (comesBack_iff (Small.made false) 0).mpr ⟨by decide, fun m hm => ?_, by decide⟩
  obtain rfl := List.mem_singleton.mp hm
  refine ⟨by decide, fun b hb => ?_, by decide⟩
  obtain rfl := List.mem_singleton.mp hb
  exact ⟨fun _ => rfl, fun h => (by cases h), fun _ => ⟨0, by decide, by decide, by decide⟩, by decide⟩

/-- With two values it is not. -/
theorem not_comesBack : ¬ ∀ (p : Packet) (blank : UInt8), p.Made →
    (p.serialize blank).length = p.getSerializedSize.toNat ∧
      ∃ q rest, deserialize (p.serialize blank) = .ok (q, rest) ∧ q.Equal p := by
  intro h
  obtain ⟨-, hmessages⟩ := (deserialize_iff (Small.made true) 0).mp (h _ 0 (Small.made true)).2
  have hblock := (hmessages _ (List.mem_singleton_self _)).addressBlocks _ (List.mem_singleton_self _)
  have hnot : ¬ TlvBlock.Survives [⟨3, none, some 0, some 1, true, some [5, 6]⟩] := by decide
  exact hnot hblock.tlvs

end Packet

end Ns3.PacketBB
