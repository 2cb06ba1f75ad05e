import Ns3.Internet.Ipv6Chunks
import Ns3.Lib.Machine

/-!
# Reassembly of IPv6 packets

The fragments of a packet come in any order and any number of times, and the timer may expire before all have come.

* `Exact` — the test of the receiver: every fragment begins where the one before it ends. `Exact.subset` says that
  all parts are there then, `exact_parts` that it holds when every part is there once.
* `Gathered` — what the receiver has; `of_isEntire` and `isEntire` say when it finds that this is the whole packet.
* `Ipv6Message.assembled_eq_iff` — when what it makes of this is the packet; `process_fragment` what `Process` does
  with a fragment.
-/

namespace Ns3

open Lib

namespace Ipv6ExtensionFragment

/-- A part with its offset. -/
def Chunk.piece (c : Chunk) : List UInt8 × ℕ := (c.data, c.offset)

/-- Every fragment begins where the one before it ends, the first one at `b`. -/
def Exact (b : ℕ) : List (List UInt8 × ℕ) → Prop
  | [] => True
  | p :: l => p.2 = b ∧ Exact (Pieces.stop p) l

variable {l : List (List UInt8 × ℕ)}

theorem contiguous_iff {b : ℕ} (h : ∀ p ∈ l, Pieces.stop p < 2 ^ 16) : Fragments.contiguous b l = true ↔ Exact b l := by
  induction l generalizing b with
  | nil => exact iff_of_true rfl trivial
  | cons p l ih =>
    obtain ⟨hp, hl⟩ := List.forall_mem_cons.mp h
    rw [Fragments.contiguous, Exact]
    split_ifs with hne
    · exact iff_of_false not_false fun h => hne h.1.symm
    · have hstop : (b + p.1.length) % 2 ^ 16 = Pieces.stop p := by
        rw [Decidable.not_not.mp hne]
        exact Nat.mod_eq_of_lt hp
      rw [hstop, ih hl, and_iff_right (Decidable.not_not.mp hne).symm]

theorem Exact.le_offset {b : ℕ} (h : Exact b l) : ∀ p ∈ l, b ≤ p.2 := by
  induction l generalizing b with
  | nil => exact fun p hp => absurd hp List.not_mem_nil
  | cons q l ih =>
    obtain ⟨hq, hl⟩ := h
    refine List.forall_mem_cons.mpr ⟨hq.ge, fun p hp => ?_⟩
    exact (hq.ge.trans (Nat.le_add_right _ _)).trans (ih hl p hp)

section Parts

variable {data : List UInt8} {offset : ℕ} {cs order : List Chunk}

section

variable (h : Chunks data offset cs)
include h

theorem Chunks.ne_nil : cs ≠ [] := by
  cases h <;> exact List.cons_ne_nil _ _

theorem Chunks.exact : Exact offset (cs.map Chunk.piece) := by
  induction h with
  | last => exact ⟨rfl, trivial⟩
  | cons _ _ ih => exact ⟨rfl, ih⟩

theorem Chunks.le_offset {c : Chunk} (hc : c ∈ cs) : offset ≤ c.offset :=
  h.exact.le_offset c.piece (List.mem_map_of_mem hc)

theorem Chunks.stop_le {c : Chunk} (hc : c ∈ cs) : Pieces.stop c.piece ≤ offset + data.length := by
  induction h with
  | last data => rw [List.mem_singleton.mp hc]; exact le_rfl
  | @cons data rest offset cs _ _ ih =>
    rw [List.length_append]
    rcases List.mem_cons.mp hc with rfl | hc
    · exact Nat.add_le_add_left (Nat.le_add_right _ _) _
    · exact (ih hc).trans_eq (Nat.add_assoc _ _ _)

theorem Chunks.pairwise : cs.Pairwise fun a b => a.offset < b.offset := by
  induction h with
  | last => exact List.pairwise_singleton _ _
  | cons hne hr ih =>
    refine List.pairwise_cons.mpr ⟨fun c hc => ?_, ih⟩
    exact (Nat.lt_add_of_pos_right (List.length_pos_iff.mpr hne)).trans_le (hr.le_offset hc)

theorem Chunks.eq_of_offset_eq {a b : Chunk} (ha : a ∈ cs) (hb : b ∈ cs) (heq : a.offset = b.offset) : a = b := by
  induction h with
  | last => rw [List.mem_singleton.mp ha, List.mem_singleton.mp hb]
  | cons hne hr ih =>
    have hpos := List.length_pos_iff.mpr hne
    rcases List.mem_cons.mp ha with rfl | ha
    · rcases List.mem_cons.mp hb with rfl | hb
      · rfl
      · have := hr.le_offset hb
        dsimp only at heq
        omega
    · rcases List.mem_cons.mp hb with rfl | hb
      · have := hr.le_offset ha
        dsimp only at heq
        omega
      · exact ih ha hb

theorem Chunks.nodup : cs.Nodup :=
  h.pairwise.imp fun hlt heq => absurd (congrArg Chunk.offset heq) hlt.ne

theorem Chunks.exists_getLast : ∃ z, cs.getLast? = some z ∧ z.more = false := by
  induction h with
  | last => exact ⟨_, rfl, rfl⟩
  | @cons data rest offset cs _ hr ih =>
    obtain ⟨c, t, rfl⟩ := List.exists_cons_of_ne_nil hr.ne_nil
    obtain ⟨z, hz, hmore⟩ := ih
    exact ⟨z, List.getLast?_cons_cons.trans hz, hmore⟩

/-- When parts begin where those before them end, up to the last one, all of them are there. -/
theorem Exact.subset (hexact : Exact offset (order.map Chunk.piece)) (hsub : ∀ c ∈ order, c ∈ cs) {z : Chunk}
    (hz : order.getLast? = some z) (hmore : z.more = false) :
    cs ⊆ order ∧ order.flatMap Chunk.data = data ∧ ((∀ c ∈ cs, c.data ≠ []) → order = cs) := by
  induction h generalizing order with
  | last data offset =>
    obtain ⟨x, t, rfl⟩ : ∃ x t, order = x :: t :=
      List.exists_cons_of_ne_nil fun hnil => absurd (hnil ▸ hz) (by simp)
    have hall : ∀ c ∈ x :: t, c = ⟨data, offset, false⟩ := fun c hc => List.mem_singleton.mp (hsub c hc)
    obtain ⟨rfl, ht⟩ := List.forall_mem_cons.mp hall
    refine ⟨fun c hc => List.mem_singleton.mp hc ▸ List.mem_cons_self, ?_⟩
    cases t with
    | nil => exact ⟨by simp, fun _ => rfl⟩
    | cons y t =>
      -- a second copy of the last part begins where the first one ends
      have hempty : data = [] := by
        have hoffset : y.offset = offset + data.length := hexact.2.1
        rw [ht y List.mem_cons_self] at hoffset
        exact List.length_eq_zero_iff.mp (Nat.left_eq_add.mp hoffset)
      refine ⟨?_, fun hne => absurd hempty (hne _ (List.mem_singleton_self _))⟩
      have hnil : ∀ c ∈ (⟨data, offset, false⟩ :: y :: t : List Chunk), c.data = [] :=
        fun c hc => (congrArg Chunk.data (hall c hc)).trans hempty
      rw [List.flatMap_eq_nil_iff.mpr hnil, hempty]
  | @cons data rest offset cs hne hr ih =>
    have hpos := List.length_pos_iff.mpr hne
    obtain ⟨p, t, rfl⟩ : ∃ p t, order = p :: t :=
      List.exists_cons_of_ne_nil fun hnil => absurd (hnil ▸ hz) (by simp)
    obtain ⟨hp, ht⟩ := List.forall_mem_cons.mp hsub
    obtain ⟨hoffset, hexact⟩ := hexact
    have hfirst : p = ⟨data, offset, true⟩ := by
      rcases List.mem_cons.mp hp with hp | hp
      · exact hp
      · have hle := hr.le_offset hp
        have hp' : p.offset = offset := hoffset
        omega
    subst hfirst
    cases t with
    | nil =>
      rw [List.getLast?_singleton] at hz
      exact absurd (Option.some.inj hz ▸ hmore) (by simp)
    | cons q t =>
      have hrest : ∀ c ∈ q :: t, c ∈ cs := by
        intro c hc
        have hle : offset + data.length ≤ c.offset := hexact.le_offset c.piece (List.mem_map_of_mem hc)
        rcases List.mem_cons.mp (ht c hc) with rfl | hc
        · dsimp only at hle
          omega
        · exact hc
      obtain ⟨hsubset, hdata, heq⟩ := ih hexact hrest (List.getLast?_cons_cons.symm.trans hz)
      refine ⟨List.cons_subset_cons _ hsubset, ?_, fun hall => ?_⟩
      · rw [List.flatMap_cons, hdata]
      · rw [heq (List.forall_mem_cons.mp hall).2]

end

end Parts

/-- Every part once, in order. -/
theorem exact_parts {data : List UInt8} {cs since : List Chunk} (h : Chunks data 0 cs) (hsorted : Pieces.Sorted l)
    (hperm : l.Perm (since.map Chunk.piece)) (hsub : ∀ c ∈ since, c ∈ cs) (hall : cs ⊆ since) (hnodup : since.Nodup) :
    l = cs.map Chunk.piece := by
  have hsame : since.Perm cs := (List.perm_ext_iff_of_nodup hnodup h.nodup).mpr fun c => ⟨hsub c, fun hc => hall hc⟩
  have hparts : l.Perm (cs.map Chunk.piece) := hperm.trans (hsame.map Chunk.piece)
  have hanti : ∀ p q, p ∈ l → q ∈ cs.map Chunk.piece → p.2 ≤ q.2 → q.2 ≤ p.2 → p = q := by
    intro p q hp hq hpq hqp
    obtain ⟨a, ha, rfl⟩ := List.mem_map.mp (hparts.mem_iff.mp hp)
    obtain ⟨b, hb, rfl⟩ := List.mem_map.mp hq
    rw [h.eq_of_offset_eq ha hb (le_antisymm hpq hqp)]
  exact List.Perm.eq_of_pairwise hanti hsorted (List.pairwise_map.mpr (h.pairwise.imp Nat.le_of_lt)) hparts

/-! ### What the receiver has -/

/-- What the receiver has of the parts that came, the last one first, with the octets before the first part. -/
structure Gathered (headers : List UInt8) (f : Fragments) (since : List Chunk) : Prop where
  sorted : Pieces.Sorted f.fragments
  perm : f.fragments.Perm (since.map Chunk.piece)
  /-- The flag is that of the last one in order. -/
  last : ∀ q, f.fragments.getLast? = some q → ∃ c ∈ since, q = c.piece ∧ f.moreFragment = c.more
  /-- The headers came with the first part. -/
  unfragmentable : f.unfragmentable = if ∃ c ∈ since, c.offset = 0 then some headers else none

theorem gathered_new (headers : List UInt8) : Gathered headers .new [] where
  sorted := List.Pairwise.nil
  perm := .refl _
  last q hq := by simp [Fragments.new] at hq
  unfragmentable := by simp [Fragments.new]

/-- What `Process` does with a part. -/
def receive (headers : List UInt8) (f : Fragments) (c : Chunk) : Fragments :=
  (if c.offset = 0 then f.setUnfragmentablePart headers else f).addFragment c.data c.offset c.more

theorem Gathered.receive {headers : List UInt8} {f : Fragments} {since : List Chunk} (h : Gathered headers f since)
    (c : Chunk) : Gathered headers (receive headers f c) (c :: since) := by
  have hfragments : (if c.offset = 0 then f.setUnfragmentablePart headers else f).fragments = f.fragments := by
    split_ifs <;> rfl
  have hmore : (if c.offset = 0 then f.setUnfragmentablePart headers else f).moreFragment = f.moreFragment := by
    split_ifs <;> rfl
  refine ⟨?_, ?_, fun q hq => ?_, ?_⟩
  · rw [Ipv6ExtensionFragment.receive, Fragments.addFragment, hfragments]
    exact Pieces.sorted_insert h.sorted
  · rw [Ipv6ExtensionFragment.receive, Fragments.addFragment, hfragments]
    exact (Pieces.perm_insert c.piece f.fragments).trans (h.perm.cons c.piece)
  · rw [Ipv6ExtensionFragment.receive, Fragments.addFragment, hfragments] at hq ⊢
    rw [hmore]
    by_cases hall : ∀ r ∈ f.fragments, r.2 ≤ c.offset
    · refine ⟨c, List.mem_cons_self, ?_, if_pos (by simpa using hall)⟩
      have hlast : Pieces.insert c.piece f.fragments = f.fragments ++ [c.piece] := Pieces.insert_of_forall_le hall
      change (Pieces.insert c.piece f.fragments).getLast? = some q at hq
      rw [hlast, List.getLast?_concat] at hq
      exact (Option.some.inj hq).symm
    · have hlast : (Pieces.insert c.piece f.fragments).getLast? = f.fragments.getLast? := Pieces.getLast?_insert hall
      obtain ⟨d, hd, hqd, hdmore⟩ := h.last q (hlast.symm.trans hq)
      refine ⟨d, List.mem_cons_of_mem c hd, hqd, ?_⟩
      rw [if_neg (by simpa using hall)]
      exact hdmore
  · rw [Ipv6ExtensionFragment.receive, Fragments.addFragment]
    dsimp only
    by_cases hc : c.offset = 0
    · rw [if_pos hc, if_pos ⟨c, List.mem_cons_self, hc⟩]
      rfl
    · rw [if_neg hc, h.unfragmentable]
      simp [hc]

section Receiver

variable {headers data : List UInt8} {f : Fragments} {cs since : List Chunk}

section

variable (h : Gathered headers f since)
include h

/-- The parts that the receiver has, in its order. -/
theorem Gathered.exists_order :
    ∃ order : List Chunk, f.fragments = order.map Chunk.piece ∧ ∀ c ∈ order, c ∈ since := by
  have hmem : ∀ q ∈ f.fragments, ∃ c ∈ since, q = c.piece := by
    intro q hq
    obtain ⟨c, hc, rfl⟩ := List.mem_map.mp (h.perm.mem_iff.mp hq)
    exact ⟨c, hc, rfl⟩
  generalize f.fragments = l at hmem
  induction l with
  | nil => exact ⟨[], rfl, fun c hc => absurd hc List.not_mem_nil⟩
  | cons q l ih =>
    obtain ⟨⟨c, hc, rfl⟩, hl⟩ := List.forall_mem_cons.mp hmem
    obtain ⟨order, rfl, hsub⟩ := ih hl
    exact ⟨c :: order, rfl, List.forall_mem_cons.mpr ⟨hc, hsub⟩⟩

/-- The test of the receiver says that every fragment begins where the one before it ends. -/
theorem Gathered.isEntire_iff (hcs : Chunks data 0 cs) (hlength : data.length < 2 ^ 16)
    (hsub : ∀ c ∈ since, c ∈ cs) (hne : since ≠ []) :
    f.isEntire = true ↔ f.moreFragment = false ∧ Exact 0 f.fragments := by
  have hstop : ∀ q ∈ f.fragments, Pieces.stop q < 2 ^ 16 := by
    intro q hq
    obtain ⟨c, hc, rfl⟩ := List.mem_map.mp (h.perm.mem_iff.mp hq)
    exact ((hcs.stop_le (hsub c hc)).trans_eq (Nat.zero_add _)).trans_lt hlength
  have hnonempty : f.fragments ≠ [] := by
    intro hnil
    have hperm := h.perm
    rw [hnil] at hperm
    exact hne (List.map_eq_nil_iff.mp hperm.nil_eq.symm)
  rw [Fragments.isEntire, Bool.and_eq_true, Bool.and_eq_true, Bool.not_eq_true', decide_eq_true_iff,
    and_iff_left hnonempty, contiguous_iff hstop]

/-- When the receiver finds that it has the whole packet, it has. -/
theorem Gathered.of_isEntire (hcs : Chunks data 0 cs) (hlength : data.length < 2 ^ 16)
    (hsub : ∀ c ∈ since, c ∈ cs) (hne : since ≠ []) (hentire : f.isEntire = true) :
    cs ⊆ since ∧ f.fragments.flatMap Prod.fst = data ∧ ((∀ c ∈ cs, c.data ≠ []) → since.Nodup) := by
  obtain ⟨hmore, hexact⟩ := (h.isEntire_iff hcs hlength hsub hne).mp hentire
  obtain ⟨order, horder, hmem⟩ := h.exists_order
  have hlen : f.fragments.length ≠ 0 := by
    rw [h.perm.length_eq, List.length_map]
    exact (List.length_pos_iff.mpr hne).ne'
  obtain ⟨z, hz⟩ : ∃ z, order.getLast? = some z := by
    refine ⟨_, List.getLast?_eq_some_getLast fun hnil => hlen ?_⟩
    rw [horder, hnil]
    rfl
  have hzmore : z.more = false := by
    obtain ⟨c, hc, hpiece, hcmore⟩ := h.last z.piece (by rw [horder, List.getLast?_map, hz]; rfl)
    have heq : z = c := hcs.eq_of_offset_eq (hsub z (hmem z (List.mem_of_getLast? hz))) (hsub c hc)
      (congrArg Prod.snd hpiece)
    rw [heq, ← hcmore, hmore]
  rw [horder] at hexact
  obtain ⟨hsubset, hdata, heq⟩ := hexact.subset hcs (fun c hc => hsub c (hmem c hc)) hz hzmore
  refine ⟨fun c hc => hmem c (hsubset hc), ?_, fun hall => ?_⟩
  · rw [horder, List.flatMap_map]
    exact hdata
  · have hperm := h.perm
    rw [horder, heq hall] at hperm
    exact List.Nodup.of_map Chunk.piece (hperm.nodup_iff.mp (hcs.nodup.map_on fun a ha b hb hab =>
      hcs.eq_of_offset_eq ha hb (congrArg Prod.snd hab)))

theorem Gathered.isEntire (hcs : Chunks data 0 cs) (hlength : data.length < 2 ^ 16)
    (hsub : ∀ c ∈ since, c ∈ cs) (hall : cs ⊆ since) (hnodup : since.Nodup) : f.isEntire = true := by
  have hne : since ≠ [] := fun hnil => hcs.ne_nil (List.subset_nil.mp (hnil ▸ hall))
  have hparts := exact_parts hcs h.sorted h.perm hsub hall hnodup
  refine (h.isEntire_iff hcs hlength hsub hne).mpr ⟨?_, hparts ▸ hcs.exact⟩
  obtain ⟨z, hz, hzmore⟩ := hcs.exists_getLast
  obtain ⟨c, hc, hpiece, hcmore⟩ := h.last z.piece (by rw [hparts, List.getLast?_map, hz]; rfl)
  have heq : z = c := hcs.eq_of_offset_eq (List.mem_of_getLast? hz) (hsub c hc) (congrArg Prod.snd hpiece)
  rw [hcmore, ← heq, hzmore]

end

end Receiver

end Ipv6ExtensionFragment

open Ipv6ExtensionFragment

namespace Ipv6Message

variable (m : Ipv6Message)

/-- The octets of the headers before a fragment header. -/
def fragmentHeaders : List UInt8 := octetsOf (patchLast m.unfragmentable).reverse

/-- The packet that is put together. Its last unfragmentable header announces a fragment header as in the fragments;
what it announced before goes to the caller. -/
def reassembled : List UInt8 := octetsOf (patchLast m.unfragmentable) ++ m.fragmentable

theorem length_fragmentHeaders : m.fragmentHeaders.length = m.unfragmentableSize := by
  have hvalid : ∀ h ∈ (patchLast m.unfragmentable).reverse, h.Valid :=
    fun h hh => valid_patchLast m.valid_unfragmentable h (List.mem_reverse.mp hh)
  rw [fragmentHeaders, length_octetsOf hvalid, List.map_reverse, List.sum_reverse, map_getLength_patchLast,
    unfragmentableSize, length_octetsOf m.valid_unfragmentable]

theorem getLast?_patchLast {chain : List ChainHeader} (hne : chain ≠ []) :
    ∃ h, (patchLast chain).getLast? = some h ∧ h.nextHeader = Ipv6Header.extFragmentation := by
  induction chain with
  | nil => exact absurd rfl hne
  | cons h chain ih =>
    cases chain with
    | nil => exact ⟨_, rfl, h.nextHeader_setNextHeader _⟩
    | cons g chain =>
      obtain ⟨z, hz, hnext⟩ := ih (List.cons_ne_nil g chain)
      refine ⟨z, ?_, hnext⟩
      rw [patchLast]
      cases hp : patchLast (g :: chain) with
      | nil => rw [hp] at hz; exact absurd hz (by simp)
      | cons x t => rw [List.getLast?_cons_cons, ← hp, hz]

theorem head?_octetsOf (chain : List ChainHeader) :
    (octetsOf chain).head? = chain.head?.map ChainHeader.nextHeader := by
  cases chain with
  | nil => rfl
  | cons h chain =>
    rw [octetsOf, List.flatMap_cons, List.head?_append, h.head?_serialize]
    rfl

/-- In reverse order, two or more headers are not what they were. -/
theorem fragmentHeaders_eq_iff :
    m.fragmentHeaders = octetsOf (patchLast m.unfragmentable) ↔ m.unfragmentable.length ≤ 1 := by
  rw [fragmentHeaders]
  have hprefix : m.unfragmentable <+: m.chain := List.takeWhile_prefix _
  have hlinked := m.linked
  rcases hu : m.unfragmentable with _ | ⟨a, _ | ⟨b, t⟩⟩
  · exact iff_of_true rfl (by simp)
  · exact iff_of_true rfl (by simp)
  · refine iff_of_false (fun heq => ?_) (by simp)
    obtain ⟨rest, hchain⟩ := hu ▸ hprefix
    rw [← hchain] at hlinked
    have hnext : a.nextHeader = b.number := hlinked.2.1
    obtain ⟨z, hz, hznext⟩ := getLast?_patchLast (List.cons_ne_nil a (b :: t))
    have hhead := congrArg List.head? heq
    rw [head?_octetsOf, head?_octetsOf, List.head?_reverse, hz, patchLast] at hhead
    have hoctet : z.nextHeader = a.nextHeader := Option.some.inj hhead
    exact b.number_ne (hnext.symm.trans (hoctet.symm.trans hznext))

/-- What the code puts together is the packet exactly when it has one header to repeat at most and a multiple of eight
octets to cut up. -/
theorem assembled_eq_iff :
    m.fragmentHeaders ++ m.sent = m.reassembled ↔ m.unfragmentable.length ≤ 1 ∧ m.fragmentable.length % 8 = 0 := by
  have hlen : m.fragmentHeaders.length = (octetsOf (patchLast m.unfragmentable)).length := by
    rw [m.length_fragmentHeaders, length_octetsOf (valid_patchLast m.valid_unfragmentable), map_getLength_patchLast,
      unfragmentableSize, length_octetsOf m.valid_unfragmentable]
  have hsent : m.sent = m.fragmentable ↔ m.fragmentable.length % 8 = 0 := by
    rw [sent, List.take_eq_self_iff]
    omega
  rw [reassembled, ← m.fragmentHeaders_eq_iff, ← hsent]
  exact ⟨fun h => List.append_inj h hlen, fun h => by rw [h.1, h.2]⟩

/-- The header of the fragment with a part. -/
def fragmentHeader (identification : ℕ) (c : Chunk) : Ipv6ExtensionFragmentHeader :=
  ⟨m.fragmentNextHeader, Ipv6ExtensionHeader.ofLength (c.data.length % 2 ^ 16), c.offset + c.more.toNat, identification⟩

variable {identification : ℕ} {c : Chunk}

/-- The header and the part are read from the fragment. -/
theorem removeHeader_fragment (hid : identification < 2 ^ 32) (haligned : c.offset % 8 = 0) (hlt : c.offset < 2 ^ 16) :
    removeHeader Ipv6ExtensionFragmentHeader.deserialize (fun _ => Ipv6ExtensionFragmentHeader.serializedSize)
        ((m.fragment identification c).octets.drop m.unfragmentableSize) =
      some (m.fragmentHeader identification c, c.data) := by
  have hoctets : (m.fragment identification c).octets =
      m.fragmentHeaders ++ ((m.fragmentHeader identification c).serialize ++ c.data) := rfl
  have hvalid : (m.fragmentHeader identification c).Valid := by
    have hbit := c.more.toNat_le
    refine ⟨?_, hid⟩
    rw [fragmentHeader]
    dsimp only
    omega
  rw [hoctets, ← m.length_fragmentHeaders, List.drop_left]
  exact removeHeader_append (Ipv6ExtensionFragmentHeader.reads_deserialize hvalid)
    (m.fragmentHeader identification c).length_serialize.symm c.data

theorem getOffset_fragmentHeader (identification : ℕ) (haligned : c.offset % 8 = 0) :
    (m.fragmentHeader identification c).getOffset = c.offset := by
  have hbit := c.more.toNat_le
  rw [fragmentHeader, Ipv6ExtensionFragmentHeader.getOffset]
  dsimp only
  omega

theorem getMoreFragment_fragmentHeader (identification : ℕ) (haligned : c.offset % 8 = 0) :
    (m.fragmentHeader identification c).getMoreFragment = c.more := by
  rw [fragmentHeader, Ipv6ExtensionFragmentHeader.getMoreFragment]
  dsimp only
  cases c.more
  · exact decide_eq_false (by rw [Bool.toNat_false]; omega)
  · exact decide_eq_true (by rw [Bool.toNat_true]; omega)

/-- `Process` takes the part out of a fragment. -/
theorem process_fragment (w : MapFragments) (hsize : m.unfragmentableSize < 2 ^ 8) (hid : identification < 2 ^ 32)
    (haligned : c.offset % 8 = 0) (hlt : c.offset < 2 ^ 16) :
    process w (m.fragment identification c).octets (UInt8.ofNat m.unfragmentableSize)
        (m.fragment identification c).header =
      let fragmentsId : FragmentsId := (m.header.source, identification)
      let f := receive m.fragmentHeaders ((w.lookup fragmentsId).getD .new) c
      if f.isEntire then
        f.getPacket.map fun packet => ⟨some packet, m.fragmentNextHeader, w.erase fragmentsId⟩
      else some ⟨none, m.fragmentNextHeader, w.insert fragmentsId f⟩ := by
  have hoffset : (UInt8.ofNat m.unfragmentableSize).toNat = m.unfragmentableSize := by
    rw [UInt8.toNat_ofNat', Nat.mod_eq_of_lt hsize]
  have htake : (m.fragment identification c).octets.take m.unfragmentableSize = m.fragmentHeaders := by
    rw [← m.length_fragmentHeaders]
    exact List.take_left
  have hsource : (m.fragment identification c).header.source = m.header.source := by
    rw [fragment, fragmentOf, fragmentIpHeader]
    split_ifs <;> rfl
  have hid' : (m.fragmentHeader identification c).identification = identification := rfl
  have hnext : (m.fragmentHeader identification c).nextHeader = m.fragmentNextHeader := rfl
  rw [process, hoffset, m.removeHeader_fragment hid haligned hlt, Option.bind_eq_bind, Option.bind_some]
  simp only [m.getOffset_fragmentHeader identification haligned,
    m.getMoreFragment_fragmentHeader identification haligned, hnext, htake, receive, Option.map_eq_bind]
  rw [hsource, hid']
  rfl

theorem fragment_inj {cs : List Chunk} {data : List UInt8} (hcs : Chunks data 0 cs)
    (hall : ∀ c ∈ cs, c.offset % 8 = 0 ∧ c.offset < 2 ^ 16) (hid : identification < 2 ^ 32) {a b : Chunk} (ha : a ∈ cs)
    (hb : b ∈ cs) (heq : m.fragment identification a = m.fragment identification b) : a = b := by
  have hreada := m.removeHeader_fragment hid (hall a ha).1 (hall a ha).2
  have hreadb := m.removeHeader_fragment hid (hall b hb).1 (hall b hb).2
  rw [heq, hreadb] at hreada
  have hheader := (Prod.mk.inj (Option.some.inj hreada)).1
  refine hcs.eq_of_offset_eq ha hb ?_
  rw [← m.getOffset_fragmentHeader identification (hall a ha).1, ← hheader,
    m.getOffset_fragmentHeader identification (hall b hb).1]

end Ipv6Message

end Ns3
