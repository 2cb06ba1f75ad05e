import Ns3.Network.PacketBBCodec

/-!
# The codec of address blocks

When the compression of an address block loses nothing: `GetHeadTail` finds what all addresses share, the size is right,
and the addresses and the prefixes are read as they were. It depends on the tail: it may be longer than what all
addresses share, and overlaps with the head if all addresses are the same.

* `lossless_iff` — exactly if the addresses keep their tail.
-/

namespace Ns3.PacketBB

open Lib Parser

namespace AddressBlock

variable {b : AddressBlock}

/-- The head and the tail that are found do not overlap, and all addresses share both. -/
structure Shares (b : AddressBlock) : Prop where
  sum : b.getHeadTail.headlen + b.getHeadTail.taillen ≤ b.kind.octets
  head : ∀ a ∈ b.addresses, ∀ a' ∈ b.addresses, a.take b.getHeadTail.headlen = a'.take b.getHeadTail.headlen
  tail : ShareTail b.kind.octets b.getHeadTail.taillen b.addresses

/-- Some addresses, for which `GetHeadTail` is called, share what it finds; the size is that of the octets that are
written; and from these the same addresses and prefixes are read. -/
structure Lossless (blank : UInt8) (b : AddressBlock) : Prop where
  shares : 2 ≤ b.addresses.length → b.Shares
  size : b.getSerializedSize.toNat = (b.serialize blank).length
  back : ∃ b', deserialize b.kind (b.serialize blank) = .ok (b', []) ∧ b'.members = b.members

/-- The addresses share what is found exactly if they keep their tail; a single address, for which it is found twice,
does not. -/
theorem shares_iff (hsome : b.addresses ≠ []) : b.Shares ↔ TailKept b.kind.octets b.addresses := by
  have hpos := octets_pos b.kind
  by_cases hcount : 2 ≤ b.addresses.length
  · rw [tailKept_iff hpos hcount]
    refine ⟨fun h => ⟨h.sum, h.tail⟩, fun h => ⟨h.1, fun a ha a' ha' => ?_, h.2⟩⟩
    rw [getHeadTail, HeadTail.headlen_find hsome]
    exact take_commonHead ha ha'
  · have hone : b.addresses.length = 1 := by
      have hlen := List.length_pos_iff.mpr hsome
      omega
    obtain ⟨address, haddress⟩ := List.length_eq_one_iff.mp hone
    refine iff_of_false (fun h => ?_) ?_
    · have hsum := h.sum
      obtain ⟨hhead, htail⟩ := HeadTail.find_singleton b.kind.octets address
      rw [getHeadTail, haddress, hhead, htail hpos] at hsum
      omega
    · rintro ⟨i, hi, -, -⟩
      omega

theorem length_flatMap_le {α : Type} {w : α → List UInt8} {n : ℕ} {as : List α} (h : ∀ a ∈ as, (w a).length ≤ n) :
    (as.flatMap w).length ≤ n * as.length := by
  induction as with
  | nil => exact Nat.zero_le _
  | cons a as ih =>
    have ha := h a List.mem_cons_self
    have has := ih fun b hb => h b (List.mem_cons_of_mem _ hb)
    rw [List.flatMap_cons, List.length_append, List.length_cons, Nat.mul_succ]
    omega

/-- An address block without TLVs is short. -/
theorem length_serialize_le (hb : b.Made) (htlvs : b.tlvs = []) (blank : UInt8) :
    (b.serialize blank).length ≤ 8192 := by
  have hprefixes : b.prefixes.length ≤ 255 := by
    have hcount := hb.count
    have hcases := hb.prefixes
    omega
  have hparts : ∀ w : List UInt8 → List UInt8, (∀ a ∈ b.addresses, (w a).length ≤ a.length) →
      (b.addresses.flatMap w).length ≤ 16 * 255 := fun w hw => by
    refine Nat.le_trans (length_flatMap_le fun a ha => ?_) (Nat.mul_le_mul_left 16 hb.count)
    exact Nat.le_trans (hw a ha) (Nat.le_trans (hb.octets a ha).le (octets_le b.kind))
  have hwritten : (b.writeAddresses blank).2.length ≤ 8000 := by
    rw [writeAddresses]
    by_cases hone : b.addresses.length = 1
    · have hflatten := hparts id fun _ _ => le_rfl
      rw [List.flatMap_id] at hflatten
      rw [if_pos hone, List.length_append]
      split_ifs
      · omega
      · exact Nat.le_trans hflatten (by decide)
    · by_cases hsome : 0 < b.addresses.length
      · have hcount : 2 ≤ b.addresses.length := by omega
        have hhead := length_head hb hcount
        have htail := length_tail hb hcount
        have hheadlen := headlen_le hcount
        have htaillen := taillen_le hcount
        have hoctets := octets_le b.kind
        have hmiddles := hparts (fun a => (a.drop b.getHeadTail.headlen).take
          (b.kind.octets - b.getHeadTail.headlen - b.getHeadTail.taillen)) fun a _ => by
            rw [List.length_take, List.length_drop]
            omega
        rw [if_neg hone, if_pos hsome, writeCompressed, List.length_append, List.length_append, List.length_append]
        split_ifs <;> simp only [List.length_nil, List.length_cons] <;> omega
      · rw [if_neg hone, if_neg hsome]
        exact Nat.zero_le _
  have hempty : (TlvBlock.serialize []).length = 2 := rfl
  rw [serialize, List.length_cons, List.length_cons, List.length_append, htlvs]
  omega

/-- Addresses and prefixes are compressed without a loss exactly if some addresses keep their tail, and there is no
prefix without an address. -/
theorem lossless_iff (hb : b.Made) (htlvs : b.tlvs = []) (blank : UInt8) :
    (b.addresses ≠ [] → (b.Shares ↔ TailKept b.kind.octets b.addresses)) ∧
      (b.Lossless blank ↔ (2 ≤ b.addresses.length → TailKept b.kind.octets b.addresses) ∧
        (b.addresses = [] → b.prefixes = [])) := by
  have hread := readsIff hb b.kind blank [] []
  rw [List.append_nil] at hread
  refine ⟨shares_iff, fun h => ?_, fun ⟨hkept, hprefixes⟩ => ?_⟩
  · obtain ⟨hsurvives, -⟩ := hread.mp h.back
    exact ⟨hsurvives.tailKept, hsurvives.prefixes⟩
  · have hsurvives : b.Survives b.kind := ⟨fun _ => rfl, hprefixes, hkept, by rw [htlvs]; decide⟩
    have hlength := length_serialize_le hb htlvs blank
    refine ⟨fun hcount => ?_, ?_, hread.mpr ⟨hsurvives, rfl⟩⟩
    · exact (shares_iff (List.ne_nil_of_length_pos (Nat.zero_lt_of_lt hcount))).mpr (hkept hcount)
    · rw [size_eq hb hsurvives blank, UInt32.toNat_ofNat', Nat.mod_eq_of_lt (by omega)]

/-- Two addresses of a network, with its prefix. -/
theorem lossless_pair : (⟨.ipv4, [[10, 0, 0, 1], [10, 0, 0, 2]], [24], []⟩ : AddressBlock).Lossless 0 := by
  have haddresses : ∀ address ∈ [[(10 : UInt8), 0, 0, 1], [10, 0, 0, 2]], address.length = 4 := by decide
  have hnotlvs : ∀ t ∈ ([] : List Tlv), t.Made := fun t ht => absurd ht List.not_mem_nil
  refine ((lossless_iff ⟨by decide, haddresses, .inr (.inl rfl), hnotlvs⟩ rfl 0).2).mpr ?_
  exact ⟨fun _ => ⟨0, by decide, by decide, by decide⟩, fun h => absurd h (List.cons_ne_nil _ _)⟩

/-- The same address twice: the head and the tail are the whole address. -/
theorem not_lossless_twice :
    (⟨.ipv4, [[10, 0, 0, 1], [10, 0, 0, 1]], [], []⟩ : AddressBlock).Made ∧
      ¬ (⟨.ipv4, [[10, 0, 0, 1], [10, 0, 0, 1]], [], []⟩ : AddressBlock).Lossless 0 := by
  have haddresses : ∀ address ∈ [[(10 : UInt8), 0, 0, 1], [10, 0, 0, 1]], address.length = 4 := by decide
  refine ⟨⟨by decide, haddresses, .inl rfl, fun t ht => absurd ht List.not_mem_nil⟩, fun h => ?_⟩
  exact absurd (h.shares (by decide)).sum (by decide)

end AddressBlock

end Ns3.PacketBB
