import Ns3.Internet.Ipv6Fragments

/-!
# What IPv6 packets are taken apart into

* `Ipv6Message` — a packet with a chain of extension headers, and `unfragmentable`, the headers of the chain that
  `GetFragments` repeats before every fragment.
* `Chunks` — the parts of what it cuts up; `getFragments_eq` says that these are parts of the rest of the packet, cut
  down to a multiple of eight octets, and that the headers before them are in reverse order.
-/

namespace Ns3

open Lib

namespace ChainHeader

/-- The fields of the header fill it. -/
def Valid : ChainHeader → Prop
  | hopByHop h => h.Valid
  | routing h => h.Valid
  | destination h => h.Valid

theorem Valid.length_serialize {h : ChainHeader} (hh : h.Valid) : h.serialize.length = h.getLength := by
  cases h with
  | hopByHop h => exact Ipv6OptionsHeader.Valid.length_serialize hh
  | routing h => exact Ipv6ExtensionLooseRoutingHeader.Valid.length_serialize hh
  | destination h => exact Ipv6OptionsHeader.Valid.length_serialize hh

theorem Valid.setNextHeader {h : ChainHeader} (hh : h.Valid) (n : UInt8) : (h.setNextHeader n).Valid := by
  cases h <;> exact hh

theorem getLength_setNextHeader (h : ChainHeader) (n : UInt8) : (h.setNextHeader n).getLength = h.getLength := by
  cases h <;> rfl

theorem head?_serialize (h : ChainHeader) : h.serialize.head? = some h.nextHeader := by
  cases h <;> rfl

@[simp] theorem nextHeader_setNextHeader (h : ChainHeader) (n : UInt8) : (h.setNextHeader n).nextHeader = n := by
  cases h <;> rfl

theorem number_ne (h : ChainHeader) : h.number ≠ Ipv6Header.extFragmentation := by
  cases h with
  | hopByHop _ => exact (by decide : Ipv6Header.extHopByHop ≠ Ipv6Header.extFragmentation)
  | routing _ => exact (by decide : Ipv6Header.extRouting ≠ Ipv6Header.extFragmentation)
  | destination _ => exact (by decide : Ipv6Header.extDestination ≠ Ipv6Header.extFragmentation)

/-- The test of `GetFragments`: a destination header counts before a routing header. -/
def isUnfragmentable : ChainHeader → Bool
  | hopByHop _ => true
  | routing _ => true
  | destination h => h.nextHeader = Ipv6Header.extRouting

end ChainHeader

namespace Ipv6ExtensionFragment

/-- Every next-header field is right, from the first to that of the upper layer. -/
def Linked : UInt8 → List ChainHeader → UInt8 → Prop
  | nextHeader, [], upper => nextHeader = upper
  | nextHeader, h :: chain, upper => nextHeader = h.number ∧ Linked h.nextHeader chain upper

/-- The octets of a chain. -/
def octetsOf (chain : List ChainHeader) : List UInt8 := chain.flatMap ChainHeader.serialize

/-- A number that announces none of the headers of a chain. -/
def IsUpper (nextHeader : UInt8) : Prop :=
  nextHeader ≠ Ipv6Header.extHopByHop ∧ nextHeader ≠ Ipv6Header.extRouting ∧ nextHeader ≠ Ipv6Header.extDestination
deriving Decidable

theorem removeChainHeader_eq {h : ChainHeader} (hh : h.Valid) (rest : List UInt8) :
    removeChainHeader h.number (h.serialize ++ rest) = some (h, rest) := by
  cases h with
  | hopByHop h =>
    have hr := removeHeader_append (Ipv6OptionsHeader.reads_deserialize hh) hh.serializedSize_eq rest
    change removeChainHeader Ipv6Header.extHopByHop (h.serialize ++ rest) = _
    rw [removeChainHeader, if_pos rfl, hr]
    rfl
  | routing h =>
    have hr := removeHeader_append (Ipv6ExtensionLooseRoutingHeader.reads_deserialize h)
      (Ipv6ExtensionLooseRoutingHeader.length_serialize h).symm rest
    have hnumber : (h.length / 2).toNat = h.routersAddress.length := by
      have heven : 2 * h.routersAddress.length = h.length.toNat := hh
      rw [UInt8.toNat_div, ← heven]
      exact Nat.mul_div_cancel_left _ (by decide)
    have hoctet : (h.serialize ++ rest)[1]? = some h.length := by
      rw [Ipv6ExtensionLooseRoutingHeader.serialize, Ipv6ExtensionHeader.ofLength_getLength]
      rfl
    change removeChainHeader Ipv6Header.extRouting (h.serialize ++ rest) = _
    rw [removeChainHeader, if_neg (by decide), if_pos rfl, hoctet]
    dsimp only [Option.bind_eq_bind, Option.bind_some]
    rw [hnumber, hr]
    rfl
  | destination h =>
    have hr := removeHeader_append (Ipv6OptionsHeader.reads_deserialize hh) hh.serializedSize_eq rest
    change removeChainHeader Ipv6Header.extDestination (h.serialize ++ rest) = _
    rw [removeChainHeader, if_neg (by decide), if_neg (by decide), hr]
    rfl

variable {chain : List ChainHeader}

/-- The test sees whether the next header of the chain is of the unfragmentable part. -/
theorem moreHeader_eq {nextHeader upper : UInt8} {payload : List UInt8} (hlinked : Linked nextHeader chain upper)
    (hupper : IsUpper upper) :
    moreHeader nextHeader (octetsOf chain ++ payload).head? =
      (chain.head?.map ChainHeader.isUnfragmentable).getD false := by
  obtain ⟨hhop, hrouting, hdestination⟩ := hupper
  cases chain with
  | nil =>
    obtain rfl : nextHeader = upper := hlinked
    simp [moreHeader, hhop, hrouting, hdestination]
  | cons h chain =>
    obtain ⟨rfl, -⟩ := hlinked
    have hhead : (octetsOf (h :: chain) ++ payload).head? = some h.nextHeader := by
      rw [octetsOf, List.flatMap_cons, List.append_assoc, List.head?_append, h.head?_serialize]
      rfl
    rw [hhead]
    cases h with
    | hopByHop h => rfl
    | routing h => rfl
    | destination h =>
      have htype : moreHeader Ipv6Header.extDestination (some h.nextHeader) =
          decide (some h.nextHeader = some Ipv6Header.extRouting) := rfl
      refine htype.trans (Bool.eq_iff_iff.mpr ?_)
      rw [decide_eq_true_iff, Option.some.injEq]
      exact decide_eq_true_iff.symm

/-- The last header announces a fragment header. -/
def patchLast : List ChainHeader → List ChainHeader
  | [] => []
  | [h] => [h.setNextHeader Ipv6Header.extFragmentation]
  | h :: g :: chain => h :: patchLast (g :: chain)

/-- What the last header announces. -/
def lastNextHeader : UInt8 → List ChainHeader → UInt8
  | nextHeader, [] => nextHeader
  | _, h :: chain => lastNextHeader h.nextHeader chain

/-- The first loop of `GetFragments` finds the headers at the front of the chain that pass the test. -/
theorem unfragmentableLoop_eq {nextHeader upper : UInt8} {payload : List UInt8} {rounds : ℕ} {h : ChainHeader}
    (hvalid : ∀ g ∈ h :: chain, g.Valid) (hlinked : Linked nextHeader (h :: chain) upper) (hupper : IsUpper upper)
    (hh : h.isUnfragmentable = true) (hrounds : chain.length < rounds) :
    unfragmentableLoop rounds nextHeader (octetsOf (h :: chain) ++ payload) =
      some (patchLast ((h :: chain).takeWhile ChainHeader.isUnfragmentable),
        lastNextHeader nextHeader ((h :: chain).takeWhile ChainHeader.isUnfragmentable),
        octetsOf ((h :: chain).dropWhile ChainHeader.isUnfragmentable) ++ payload) := by
  induction rounds generalizing nextHeader h chain with
  | zero => exact absurd hrounds (Nat.not_lt_zero _)
  | succ rounds ih =>
    obtain ⟨hhvalid, hchain⟩ := List.forall_mem_cons.mp hvalid
    obtain ⟨rfl, hlinked⟩ := hlinked
    have hoctets : octetsOf (h :: chain) ++ payload = h.serialize ++ (octetsOf chain ++ payload) := by
      rw [octetsOf, List.flatMap_cons, List.append_assoc, octetsOf]
    rw [unfragmentableLoop, hoctets, removeChainHeader_eq hhvalid]
    change (if moreHeader h.nextHeader (octetsOf chain ++ payload).head? = true then _ else _) = _
    rw [moreHeader_eq hlinked hupper, List.takeWhile_cons_of_pos hh, List.dropWhile_cons_of_pos hh]
    cases chain with
    | nil => rfl
    | cons g chain =>
      cases hg : g.isUnfragmentable with
      | false =>
        rw [if_neg (by simp [hg]), List.takeWhile_cons_of_neg (by simp [hg]), List.dropWhile_cons_of_neg (by simp [hg])]
        rfl
      | true =>
        rw [if_pos (by simp [hg]), ih hchain hlinked hg (Nat.lt_of_succ_lt_succ hrounds),
          List.takeWhile_cons_of_pos hg]
        rfl

theorem length_octetsOf (hvalid : ∀ h ∈ chain, h.Valid) :
    (octetsOf chain).length = (chain.map ChainHeader.getLength).sum := by
  rw [octetsOf, List.length_flatMap]
  exact congrArg List.sum (List.map_congr_left fun h hh => (hvalid h hh).length_serialize)

theorem map_getLength_patchLast (chain : List ChainHeader) :
    (patchLast chain).map ChainHeader.getLength = chain.map ChainHeader.getLength := by
  induction chain with
  | nil => rfl
  | cons h chain ih =>
    cases chain with
    | nil => rw [patchLast, List.map_singleton, List.map_singleton, ChainHeader.getLength_setNextHeader]
    | cons g chain => rw [patchLast, List.map_cons, ih, ← List.map_cons]

theorem valid_patchLast (hvalid : ∀ h ∈ chain, h.Valid) : ∀ h ∈ patchLast chain, h.Valid := by
  induction chain with
  | nil => exact hvalid
  | cons h chain ih =>
    obtain ⟨hh, hchain⟩ := List.forall_mem_cons.mp hvalid
    cases chain with
    | nil => exact List.forall_mem_singleton.mpr (hh.setNextHeader _)
    | cons g chain => exact List.forall_mem_cons.mpr ⟨hh, ih hchain⟩

theorem length_le_length_octetsOf (chain : List ChainHeader) : chain.length ≤ (octetsOf chain).length := by
  induction chain with
  | nil => exact Nat.zero_le _
  | cons h chain ih =>
    have hpos : 0 < h.serialize.length := by
      refine List.length_pos_iff.mpr fun hnil => ?_
      have hhead := h.head?_serialize
      rw [hnil] at hhead
      exact absurd hhead (by simp)
    rw [octetsOf] at ih ⊢
    rw [List.flatMap_cons, List.length_append, List.length_cons]
    omega

/-! ### The parts -/

/-- A part of what is cut up. -/
structure Chunk where
  data : List UInt8
  offset : ℕ
  more : Bool
  deriving DecidableEq

/-- The parts of octets from an offset on. Only the last one may be empty. -/
inductive Chunks : List UInt8 → ℕ → List Chunk → Prop where
  | last (data : List UInt8) (offset : ℕ) : Chunks data offset [⟨data, offset, false⟩]
  /-- A part, and those behind it. -/
  | cons {data rest : List UInt8} {offset : ℕ} {cs : List Chunk} :
      data ≠ [] → Chunks rest (offset + data.length) cs → Chunks (data ++ rest) offset (⟨data, offset, true⟩ :: cs)

/-- The fragment with a part, behind the headers in reverse order. -/
def fragmentOf (ipv6Header : Ipv6Header) (unfragmentablePart : List ChainHeader) (nextHeader : UInt8)
    (identification : ℕ) (c : Chunk) : Ipv6Packet :=
  let fragmentHeader : Ipv6ExtensionFragmentHeader :=
    ⟨nextHeader, Ipv6ExtensionHeader.ofLength (c.data.length % 2 ^ 16), c.offset + c.more.toNat, identification⟩
  let octets := octetsOf unfragmentablePart.reverse ++ (fragmentHeader.serialize ++ c.data)
  ⟨ipv6Header.setPayloadLength octets.length, octets⟩

theorem foldl_serialize (unfragmentablePart : List ChainHeader) (fragment : List UInt8) :
    unfragmentablePart.foldl (fun fragment header => header.serialize ++ fragment) fragment =
      octetsOf unfragmentablePart.reverse ++ fragment := by
  induction unfragmentablePart generalizing fragment with
  | nil => rfl
  | cons h unfragmentablePart ih =>
    rw [List.foldl_cons, ih, List.reverse_cons, octetsOf, octetsOf, List.flatMap_append, List.append_assoc]
    simp

section Loop

variable {ipv6Header : Ipv6Header} {unfragmentablePart : List ChainHeader} {nextHeader : UInt8} {p : List UInt8}
  {max identification : ℕ}

theorem fragmentHeader_eq (h : Ipv6ExtensionFragmentHeader) (moreFragment : Bool) {offset : ℕ} (length : UInt8)
    (ho : offset % 8 = 0) :
    (({ h with nextHeader, length, identification } : Ipv6ExtensionFragmentHeader).setOffset offset).setMoreFragment
      moreFragment = ⟨nextHeader, length, offset + moreFragment.toNat, identification⟩ := by
  have hbits : (h.offset % 2 + offset / 8 * 8) / 2 * 2 = offset := by omega
  rw [Ipv6ExtensionFragmentHeader.setMoreFragment, Ipv6ExtensionFragmentHeader.setOffset]
  dsimp only
  rw [hbits]

theorem fragmentLoop_eq {rounds offset : ℕ} (fragmentHeader : Ipv6ExtensionFragmentHeader) (hmin : 8 ≤ max)
    (hmax : max < 2 ^ 32) (hsmall : offset = 0 ∨ max < 2 ^ 16) (hoffset : offset % 8 = 0) (hlength : p.length < 2 ^ 16)
    (hle : offset ≤ p.length) (hrounds : p.length < offset + rounds) :
    ∃ cs, fragmentLoop ipv6Header unfragmentablePart nextHeader p max identification rounds offset fragmentHeader =
        some (cs.map (fragmentOf ipv6Header unfragmentablePart nextHeader identification)) ∧
      Chunks ((p.take (p.length / 8 * 8)).drop offset) offset cs ∧
      (∀ c ∈ cs, c.offset % 8 = 0 ∧ c.offset < 2 ^ 16 ∧ c.data.length ≤ max) ∧
      (p.length % 8 = 0 → offset < p.length → ∀ c ∈ cs, c.data ≠ []) := by
  induction rounds generalizing offset fragmentHeader with
  | zero => omega
  | succ rounds ih =>
    have hsum : (offset + max) % 2 ^ 32 = offset + max := by
      refine Nat.mod_eq_of_lt ?_
      rcases hsmall with h | h <;> omega
    rw [fragmentLoop, hsum, fragmentHeader_eq _ _ _ hoffset, foldl_serialize]
    have hsmaller : offset < 2 ^ 16 := by omega
    by_cases hlong : p.length > offset + max
    · simp only [hlong, decide_true, if_true]
      have hlen : ((p.drop offset).take (max - max % 8)).length = max - max % 8 := by
        rw [List.length_take, List.length_drop]
        omega
      have hnext : (offset + (max - max % 8)) % 2 ^ 16 = offset + (max - max % 8) := Nat.mod_eq_of_lt (by omega)
      rw [hnext]
      obtain ⟨cs, hcs, hchunks, hall, hne⟩ := ih _ (.inr (by omega))
        (by omega : (offset + (max - max % 8)) % 8 = 0) (by omega) (by omega)
      rw [hcs]
      have hnonempty : (p.drop offset).take (max - max % 8) ≠ [] := List.length_pos_iff.mp (by omega)
      refine ⟨⟨(p.drop offset).take (max - max % 8), offset, true⟩ :: cs, ?_, ?_,
        List.forall_mem_cons.mpr ⟨⟨hoffset, hsmaller, hlen.trans_le (Nat.sub_le _ _)⟩, hall⟩,
        fun h8 _ => List.forall_mem_cons.mpr ⟨hnonempty, hne h8 (by omega)⟩⟩
      · rw [List.map_cons, fragmentOf]
        dsimp only
        rw [hlen]
        rfl
      · have hsplit : (p.take (p.length / 8 * 8)).drop offset =
            (p.drop offset).take (max - max % 8) ++ (p.take (p.length / 8 * 8)).drop (offset + (max - max % 8)) := by
          rw [List.drop_take, List.drop_take, ← List.drop_drop, ← List.take_add]
          congr 1
          omega
        rw [hsplit]
        refine .cons hnonempty ?_
        rw [hlen]
        exact hchunks
    · simp only [hlong, decide_false, Bool.false_eq_true, if_false]
      have hsize : p.length - offset - (p.length - offset) % 8 = p.length / 8 * 8 - offset := by omega
      rw [hsize]
      have hlast : (p.drop offset).take (p.length / 8 * 8 - offset) = (p.take (p.length / 8 * 8)).drop offset := by
        rw [List.drop_take]
      have hlen : ((p.take (p.length / 8 * 8)).drop offset).length = p.length / 8 * 8 - offset := by
        rw [List.length_drop, List.length_take]
        omega
      rw [hlast]
      refine ⟨[⟨(p.take (p.length / 8 * 8)).drop offset, offset, false⟩], ?_, .last _ _,
        List.forall_mem_singleton.mpr ⟨hoffset, hsmaller, by rw [hlen]; omega⟩,
        fun h8 hlt => List.forall_mem_singleton.mpr (List.length_pos_iff.mp (by rw [hlen]; omega))⟩
      rw [List.map_singleton, fragmentOf]
      dsimp only
      rw [hlen]

end Loop

end Ipv6ExtensionFragment

open Ipv6ExtensionFragment

/-- A packet with a chain of extension headers. -/
structure Ipv6Message where
  header : Ipv6Header
  chain : List ChainHeader
  upper : UInt8
  /-- The octets of that protocol. -/
  payload : List UInt8
  valid : ∀ h ∈ chain, h.Valid
  linked : Linked header.nextHeader chain upper
  isUpper : IsUpper upper
  /-- The payload length of the IP header can say it. -/
  length_lt : (octetsOf chain ++ payload).length < 2 ^ 16

namespace Ipv6Message

variable (m : Ipv6Message)

/-- The packet. -/
def packet : Ipv6Packet := ⟨m.header, octetsOf m.chain ++ m.payload⟩

/-- The headers that every fragment has. -/
def unfragmentable : List ChainHeader := m.chain.takeWhile ChainHeader.isUnfragmentable

/-- The octets of these headers. -/
def unfragmentableSize : ℕ := (octetsOf m.unfragmentable).length

/-- What is cut up. -/
def fragmentable : List UInt8 := octetsOf (m.chain.dropWhile ChainHeader.isUnfragmentable) ++ m.payload

/-- The header that `GetFragments` gives the fragments. -/
def fragmentIpHeader : Ipv6Header :=
  if m.unfragmentable = [] then m.header.setNextHeader Ipv6Header.extFragmentation else m.header

/-- What the fragment headers announce. -/
def fragmentNextHeader : UInt8 := lastNextHeader m.header.nextHeader m.unfragmentable

/-- The fragment with a part. -/
def fragment (identification : ℕ) (c : Chunk) : Ipv6Packet :=
  fragmentOf m.fragmentIpHeader (patchLast m.unfragmentable) m.fragmentNextHeader identification c

/-- The octets that the parts have. -/
def sent : List UInt8 := m.fragmentable.take (m.fragmentable.length / 8 * 8)

theorem octets_eq : m.packet.octets = octetsOf m.unfragmentable ++ m.fragmentable := by
  rw [packet, unfragmentable, fragmentable, ← List.append_assoc, octetsOf, octetsOf, octetsOf, ← List.flatMap_append,
    List.takeWhile_append_dropWhile]

theorem length_fragmentable_lt : m.fragmentable.length < 2 ^ 16 := by
  have h := m.length_lt
  have hoctets := congrArg List.length m.octets_eq
  rw [packet] at hoctets
  rw [hoctets, List.length_append] at h
  omega

theorem valid_unfragmentable : ∀ h ∈ m.unfragmentable, h.Valid :=
  fun h hh => m.valid h ((List.takeWhile_sublist _).subset hh)

theorem unfragmentablePart_eq : unfragmentablePart m.packet =
    some (m.fragmentIpHeader, patchLast m.unfragmentable, m.fragmentNextHeader, m.fragmentable) := by
  obtain ⟨header, chain, upper, payload, hvalid, hlinked, hupper, hlength⟩ := m
  have hmore : moreHeader header.nextHeader (octetsOf chain ++ payload).head? = _ := moreHeader_eq hlinked hupper
  dsimp only [unfragmentablePart, packet]
  rw [hmore, fragmentIpHeader, fragmentNextHeader, unfragmentable, fragmentable]
  dsimp only
  cases chain with
  | nil => rfl
  | cons h chain =>
    cases hh : h.isUnfragmentable with
    | false =>
      rw [if_neg (by simp [hh]), List.takeWhile_cons_of_neg (by simp [hh]), List.dropWhile_cons_of_neg (by simp [hh])]
      rfl
    | true =>
      have hrounds : chain.length < (octetsOf (h :: chain) ++ payload).length + 1 := by
        have hle := length_le_length_octetsOf (h :: chain)
        rw [List.length_cons] at hle
        rw [List.length_append]
        omega
      rw [if_pos (by simp [hh]), unfragmentableLoop_eq hvalid hlinked hupper hh hrounds,
        if_neg (by rw [List.takeWhile_cons_of_pos hh]; exact List.cons_ne_nil _ _)]
      rfl

theorem maxFragmentablePartSize_eq {maxFragmentSize : ℕ}
    (hmin : Ipv6Header.serializedSize + m.unfragmentableSize + Ipv6ExtensionFragmentHeader.serializedSize ≤
      maxFragmentSize) (hmax : maxFragmentSize < 2 ^ 32) :
    maxFragmentablePartSize maxFragmentSize (patchLast m.unfragmentable) = maxFragmentSize -
      (Ipv6Header.serializedSize + m.unfragmentableSize + Ipv6ExtensionFragmentHeader.serializedSize) := by
  have hsize : ((patchLast m.unfragmentable).map ChainHeader.getLength).sum = m.unfragmentableSize :=
    (congrArg List.sum (map_getLength_patchLast _)).trans (length_octetsOf m.valid_unfragmentable).symm
  rw [maxFragmentablePartSize, hsize]
  omega

/-- `GetFragments` ends, and makes fragments of parts. -/
theorem getFragments_eq {maxFragmentSize : ℕ} (identification : ℕ)
    (hmin : Ipv6Header.serializedSize + m.unfragmentableSize + Ipv6ExtensionFragmentHeader.serializedSize + 8 ≤
      maxFragmentSize) (hmax : maxFragmentSize < 2 ^ 32) :
    ∃ cs, getFragments m.packet maxFragmentSize identification = some (cs.map (m.fragment identification)) ∧
      Chunks m.sent 0 cs ∧ (∀ c ∈ cs, c.offset % 8 = 0 ∧ c.offset < 2 ^ 16 ∧
        Ipv6Header.serializedSize + m.unfragmentableSize + Ipv6ExtensionFragmentHeader.serializedSize + c.data.length ≤
          maxFragmentSize) ∧
      (m.fragmentable.length % 8 = 0 → m.fragmentable ≠ [] → ∀ c ∈ cs, c.data ≠ []) := by
  have hpart := m.maxFragmentablePartSize_eq (by omega) hmax
  obtain ⟨cs, hcs, hchunks, hall, hne⟩ : ∃ cs, fragmentLoop m.fragmentIpHeader (patchLast m.unfragmentable)
      m.fragmentNextHeader m.fragmentable (maxFragmentablePartSize maxFragmentSize (patchLast m.unfragmentable))
        identification (m.fragmentable.length + 1) 0 .new = some (cs.map (m.fragment identification)) ∧
      Chunks (m.sent.drop 0) 0 cs ∧ (∀ c ∈ cs, c.offset % 8 = 0 ∧ c.offset < 2 ^ 16 ∧
        c.data.length ≤ maxFragmentablePartSize maxFragmentSize (patchLast m.unfragmentable)) ∧
      (m.fragmentable.length % 8 = 0 → 0 < m.fragmentable.length → ∀ c ∈ cs, c.data ≠ []) :=
    fragmentLoop_eq _ (by omega) (by omega) (.inl rfl) rfl m.length_fragmentable_lt (Nat.zero_le _) (by omega)
  refine ⟨cs, ?_, hchunks, fun c hc => ?_, fun h8 hnil => hne h8 (List.length_pos_iff.mpr hnil)⟩
  · rw [getFragments, m.unfragmentablePart_eq, Option.bind_eq_bind, Option.bind_some]
    exact hcs
  · obtain ⟨haligned, hlt, hle⟩ := hall c hc
    exact ⟨haligned, hlt, by omega⟩

end Ipv6Message

end Ns3
