import Ns3.Internet.Ipv6Reassembly

/-!
# Runs of the receiver of IPv6 fragments

* `Receiver.machine` — the fragments of a packet come in any order and any number of times, and the timer expires.
* `reassembled_iff` — `GetFragments` ends and its fragments fit; in a run of the receiver the packet is put together
  whenever all its fragments have come, and the timer finds the first fragment, if and only if the packet and the
  fragments that came are of a kind for which the code works.
-/

namespace Ns3

open Lib Ipv6ExtensionFragment

namespace Ipv6ExtensionFragment

/-- A node that receives the fragments of a packet. -/
structure Receiver where
  fragments : MapFragments
  /-- The packets that were put together, with the next header. -/
  delivered : List (List UInt8 × UInt8)
  /-- The fragments that came since the last time all of them had come or the timer expired, the last one first. -/
  since : List Ipv6Packet
  /-- A null pointer was followed, or something behind the end of a packet was read. -/
  stopped : Bool

namespace Receiver

/-- What happens to it. -/
inductive Event where
  | fragment (g : Ipv6Packet)
  | timeout
  deriving DecidableEq

/-- Nothing came yet. -/
def new : Receiver := ⟨∅, [], [], false⟩

/-- One of the fragments `gs` comes, with its fragment header at an offset. -/
def receiveFragment (gs : List Ipv6Packet) (offset : UInt8) (s : Receiver) (g : Ipv6Packet) : Receiver :=
  match process s.fragments g.octets offset g.header with
  | none => { s with stopped := true }
  | some r =>
    { s with
      fragments := r.fragments
      delivered := s.delivered ++ (r.packet.map (·, r.nextHeader)).toList
      since := if gs ⊆ g :: s.since then [] else g :: s.since }

/-- The timer expires. -/
def expire (fragmentsId : FragmentsId) (s : Receiver) : Receiver :=
  match handleFragmentsTimeout s.fragments fragmentsId with
  | none => { s with stopped := true }
  | some (_, fragments) => { s with fragments, since := [] }

/-- The machine. -/
def machine (gs : List Ipv6Packet) (offset : UInt8) (fragmentsId : FragmentsId) : Machine Receiver Event where
  enabled s e := s.stopped = false ∧
    match e with
    | .fragment g => g ∈ gs
    | .timeout => fragmentsId ∈ s.fragments
  exec s e :=
    match e with
    | .fragment g => some (s.receiveFragment gs offset g)
    | .timeout => some (s.expire fragmentsId)

instance (gs : List Ipv6Packet) (offset : UInt8) (fragmentsId : FragmentsId) (s : Receiver) :
    (e : Event) → Decidable ((machine gs offset fragmentsId).enabled s e)
  | .fragment g => inferInstanceAs (Decidable (s.stopped = false ∧ g ∈ gs))
  | .timeout => inferInstanceAs (Decidable (s.stopped = false ∧ fragmentsId ∈ s.fragments))

/-- The packet is put together when all its fragments have come, and nothing stops. -/
def Right (m : Ipv6Message) (gs : List Ipv6Packet) (s : Receiver) (e : Event) (s' : Receiver) : Prop :=
  s'.stopped = false ∧
    match e with
    | .fragment g =>
      s'.delivered = s.delivered ++ if gs ⊆ g :: s.since then [(m.reassembled, m.fragmentNextHeader)] else []
    | .timeout => s'.delivered = s.delivered

instance (m : Ipv6Message) (gs : List Ipv6Packet) (s : Receiver) :
    (e : Event) → (s' : Receiver) → Decidable (Right m gs s e s')
  | .fragment _, s' => inferInstanceAs (Decidable (s'.stopped = false ∧ _ = _))
  | .timeout, s' => inferInstanceAs (Decidable (s'.stopped = false ∧ _ = _))

/-- When a fragment comes that completes the packet, there is one header to repeat at most, a multiple of eight octets
was cut up, and no fragment came twice. When the timer expires, the first fragment is there. -/
def Sound (m : Ipv6Message) (gs : List Ipv6Packet) (s : Receiver) : Event → Prop
  | .fragment g => gs ⊆ g :: s.since →
      m.unfragmentable.length ≤ 1 ∧ m.fragmentable.length % 8 = 0 ∧ (g :: s.since).Nodup
  | .timeout => ∃ g ∈ gs.head?, g ∈ s.since

instance (m : Ipv6Message) (gs : List Ipv6Packet) (s : Receiver) : (e : Event) → Decidable (Sound m gs s e)
  | .fragment g => inferInstanceAs (Decidable (gs ⊆ g :: s.since → _))
  | .timeout => inferInstanceAs (Decidable (∃ g ∈ gs.head?, g ∈ s.since))

/-! ### A step -/

section Step

variable {m : Ipv6Message} {cs : List Chunk} {identification : ℕ}

/-- What the state says, as long as everything was right. -/
structure Inv (m : Ipv6Message) (cs : List Chunk) (identification : ℕ) (s : Receiver) (came : List Chunk) : Prop where
  running : s.stopped = false
  since : s.since = came.map (m.fragment identification)
  /-- They are parts of the packet. -/
  subset : ∀ c ∈ came, c ∈ cs
  incomplete : ¬ cs ⊆ came
  gathered : Gathered m.fragmentHeaders ((s.fragments.lookup (m.header.source, identification)).getD .new) came

/-- What is true of the parts of a packet. -/
structure Parts (m : Ipv6Message) (cs : List Chunk) (identification : ℕ) : Prop where
  /-- They are parts of what is sent. -/
  chunks : Chunks m.sent 0 cs
  /-- Their offsets fit into a fragment header. -/
  fits : ∀ c ∈ cs, c.offset % 8 = 0 ∧ c.offset < 2 ^ 16
  /-- None is empty if all is sent, and it is not empty. -/
  ne_nil : m.fragmentable.length % 8 = 0 → m.fragmentable ≠ [] → ∀ c ∈ cs, c.data ≠ []
  /-- The identification fits into a fragment header. -/
  identification_lt : identification < 2 ^ 32
  /-- The position of the fragment header fits into an argument of `Process`. -/
  size_lt : m.unfragmentableSize < 2 ^ 8

theorem Parts.length_sent_lt (_ : Parts m cs identification) : m.sent.length < 2 ^ 16 :=
  ((List.length_take_le' _ _).trans_lt m.length_fragmentable_lt)

variable {came : List Chunk}

section

variable (h : Parts m cs identification)
include h

theorem Parts.subset_iff (hsub : ∀ c ∈ came, c ∈ cs) :
    cs.map (m.fragment identification) ⊆ came.map (m.fragment identification) ↔ cs ⊆ came := by
  refine ⟨fun hmap c hc => ?_, fun hcame => List.map_subset _ hcame⟩
  obtain ⟨d, hd, heq⟩ := List.mem_map.mp (hmap (List.mem_map_of_mem hc))
  rwa [← m.fragment_inj h.chunks h.fits h.identification_lt (hsub d hd) hc heq]

theorem Parts.nodup_iff (hsub : ∀ c ∈ came, c ∈ cs) : (came.map (m.fragment identification)).Nodup ↔ came.Nodup := by
  refine ⟨List.Nodup.of_map _, fun hcame => hcame.map_on fun a ha b hb heq => ?_⟩
  exact m.fragment_inj h.chunks h.fits h.identification_lt (hsub a ha) (hsub b hb) heq

/-- The first fragment came if and only if a part at offset zero did. -/
theorem Parts.head?_iff (hsub : ∀ c ∈ came, c ∈ cs) :
    (∃ g ∈ (cs.map (m.fragment identification)).head?, g ∈ came.map (m.fragment identification)) ↔
      ∃ c ∈ came, c.offset = 0 := by
  obtain ⟨z, hz, hoffset⟩ : ∃ z, cs.head? = some z ∧ z.offset = 0 := by
    have hexact := h.chunks.exact
    cases cs with
    | nil => exact absurd rfl h.chunks.ne_nil
    | cons z cs => exact ⟨z, rfl, hexact.1⟩
  have hzmem : z ∈ cs := List.mem_of_mem_head? hz
  have hhead : (cs.map (m.fragment identification)).head? = some (m.fragment identification z) := by
    rw [List.head?_map, hz]
    rfl
  constructor
  · rintro ⟨g, hg, hcame⟩
    obtain rfl := Option.some.inj (hhead.symm.trans hg)
    obtain ⟨c, hc, heq⟩ := List.mem_map.mp hcame
    refine ⟨c, hc, ?_⟩
    rw [m.fragment_inj h.chunks h.fits h.identification_lt (hsub c hc) hzmem heq, hoffset]
  · rintro ⟨c, hc, hc0⟩
    refine ⟨_, hhead, ?_⟩
    rw [← h.chunks.eq_of_offset_eq (hsub c hc) hzmem (hc0.trans hoffset.symm)]
    exact List.mem_map_of_mem hc

/-- When all parts came and nothing was cut off, no part came twice, or there is only one. -/
theorem Parts.nodup_came {s : Receiver} {c : Chunk} (hs : Inv m cs identification s came)
    (h8 : m.fragmentable.length % 8 = 0) (hnodup : (∀ d ∈ cs, d.data ≠ []) → (c :: came).Nodup) :
    (c :: came).Nodup := by
  by_cases hnil : m.fragmentable = []
  · -- a packet with nothing to cut up has one part, and it is complete when that comes
    have hcs := h.chunks
    rw [Ipv6Message.sent, hnil, List.take_nil] at hcs
    obtain ⟨z, rfl⟩ : ∃ z, cs = [z] := by
      generalize hdata : ([] : List UInt8) = data at hcs
      cases hcs with
      | last => exact ⟨_, rfl⟩
      | cons hne => exact absurd (List.append_eq_nil_iff.mp hdata.symm).1 hne
    cases came with
    | nil => exact List.nodup_singleton c
    | cons d came =>
      refine absurd (fun x hx => ?_) hs.incomplete
      rw [List.mem_singleton.mp hx, ← List.mem_singleton.mp (hs.subset d List.mem_cons_self)]
      exact List.mem_cons_self
  · exact hnodup (h.ne_nil h8 hnil)

theorem step_fragment {s : Receiver} (hs : Inv m cs identification s came) {c : Chunk} (hc : c ∈ cs) :
    (Right m (cs.map (m.fragment identification)) s (.fragment (m.fragment identification c))
        (s.receiveFragment (cs.map (m.fragment identification)) (UInt8.ofNat m.unfragmentableSize)
          (m.fragment identification c)) ↔
      Sound m (cs.map (m.fragment identification)) s (.fragment (m.fragment identification c))) ∧
    (Sound m (cs.map (m.fragment identification)) s (.fragment (m.fragment identification c)) →
      ∃ came', Inv m cs identification (s.receiveFragment (cs.map (m.fragment identification))
        (UInt8.ofNat m.unfragmentableSize) (m.fragment identification c)) came') := by
  obtain ⟨haligned, hlt⟩ := h.fits c hc
  have hsub : ∀ d ∈ c :: came, d ∈ cs := List.forall_mem_cons.mpr ⟨hc, hs.subset⟩
  have hne : c :: came ≠ [] := List.cons_ne_nil c came
  have hgathered := hs.gathered.receive c
  have hsince : m.fragment identification c :: s.since = (c :: came).map (m.fragment identification) := by
    rw [hs.since, List.map_cons]
  have hprocess := m.process_fragment s.fragments h.size_lt h.identification_lt haligned hlt
  dsimp only at hprocess
  generalize hf : receive m.fragmentHeaders
    ((s.fragments.lookup (m.header.source, identification)).getD .new) c = f at hprocess hgathered
  have hentire := fun hentire => hgathered.of_isEntire h.chunks h.length_sent_lt hsub hne hentire
  have hcomplete : cs.map (m.fragment identification) ⊆ m.fragment identification c :: s.since ↔ cs ⊆ c :: came := by
    rw [hsince, h.subset_iff hsub]
  have hnodup : (m.fragment identification c :: s.since).Nodup ↔ (c :: came).Nodup := by
    rw [hsince, h.nodup_iff hsub]
  rw [Sound, hcomplete, hnodup, Right, receiveFragment, hprocess]
  by_cases hall : cs ⊆ c :: came
  · rw [if_pos (hcomplete.mpr hall)]
    by_cases he : f.isEntire = true
    · obtain ⟨-, hdata, hsame⟩ := hentire he
      obtain ⟨z, hz, hz0⟩ : ∃ z ∈ c :: came, z.offset = 0 := by
        obtain ⟨z, t, hcs⟩ := List.exists_cons_of_ne_nil h.chunks.ne_nil
        have hexact := h.chunks.exact
        rw [hcs] at hexact
        exact ⟨z, hall (hcs ▸ List.mem_cons_self), hexact.1⟩
      have hpacket : f.getPacket = some (m.fragmentHeaders ++ m.sent) := by
        rw [Fragments.getPacket, hgathered.unfragmentable, if_pos ⟨z, hz, hz0⟩, hdata]
        rfl
      rw [if_pos he, hpacket]
      dsimp only [Option.map_some, Option.toList_some]
      have hright : s.delivered ++ [(m.fragmentHeaders ++ m.sent, m.fragmentNextHeader)] =
          s.delivered ++ [(m.reassembled, m.fragmentNextHeader)] ↔
          m.unfragmentable.length ≤ 1 ∧ m.fragmentable.length % 8 = 0 := by
        rw [List.append_cancel_left_eq, List.cons.injEq, Prod.mk.injEq, and_iff_left rfl, and_iff_left rfl,
          m.assembled_eq_iff]
      rw [if_pos (hcomplete.mpr hall), hright, and_iff_right hs.running]
      refine ⟨⟨fun hgood _ => ⟨hgood.1, hgood.2, h.nodup_came hs hgood.2 hsame⟩,
        fun hgood => ⟨(hgood hall).1, (hgood hall).2.1⟩⟩, fun _ => ⟨[], hs.running, rfl, ?_, ?_, ?_⟩⟩
      · exact fun d hd => absurd hd List.not_mem_nil
      · exact fun hnil => h.chunks.ne_nil (List.subset_nil.mp hnil)
      · rw [AList.lookup_erase]
        exact gathered_new _
    · have hnot : ¬ (cs ⊆ c :: came → m.unfragmentable.length ≤ 1 ∧ m.fragmentable.length % 8 = 0 ∧
          (c :: came).Nodup) :=
        fun hgood => he (hgathered.isEntire h.chunks h.length_sent_lt hsub hall (hgood hall).2.2)
      rw [if_neg he]
      refine ⟨iff_of_false (fun hgood => ?_) hnot, fun hgood => absurd hgood hnot⟩
      have hdelivered := hgood.2
      rw [if_pos (hcomplete.mpr hall)] at hdelivered
      simp at hdelivered
  · have he : ¬ f.isEntire = true := fun he => hall (hentire he).1
    rw [if_neg he, if_neg (mt hcomplete.mp hall)]
    refine ⟨iff_of_true ⟨hs.running, ?_⟩ fun hcs => absurd hcs hall,
      fun _ => ⟨c :: came, hs.running, hsince, hsub, hall, ?_⟩⟩
    · rw [if_neg (mt hcomplete.mp hall)]
      rfl
    · rw [AList.lookup_insert]
      exact hgathered

theorem step_timeout {s : Receiver} (hs : Inv m cs identification s came)
    (hpending : (m.header.source, identification) ∈ s.fragments) :
    (Right m (cs.map (m.fragment identification)) s .timeout (s.expire (m.header.source, identification)) ↔
      Sound m (cs.map (m.fragment identification)) s .timeout) ∧
    (Sound m (cs.map (m.fragment identification)) s .timeout →
      ∃ came', Inv m cs identification (s.expire (m.header.source, identification)) came') := by
  obtain ⟨f, hf⟩ := Option.isSome_iff_exists.mp (AList.lookup_isSome.mpr hpending)
  have hgathered := hs.gathered
  rw [hf, Option.getD_some] at hgathered
  rw [Sound, hs.since, h.head?_iff hs.subset, Right, expire, handleFragmentsTimeout, hf,
    Option.bind_eq_bind, Option.bind_some, Fragments.getPartialPacket, hgathered.unfragmentable]
  by_cases hfirst : ∃ c ∈ came, c.offset = 0
  · rw [if_pos hfirst]
    refine ⟨iff_of_true ⟨hs.running, rfl⟩ hfirst, fun _ => ⟨[], hs.running, rfl, ?_, ?_, ?_⟩⟩
    · exact fun d hd => absurd hd List.not_mem_nil
    · exact fun hnil => h.chunks.ne_nil (List.subset_nil.mp hnil)
    · have hlookup : (s.fragments.erase (m.header.source, identification)).lookup (m.header.source, identification) =
        none := AList.lookup_erase _ _
      exact hlookup ▸ gathered_new _
  · rw [if_neg hfirst]
    exact ⟨iff_of_false (fun hgood => absurd hgood.1 (by simp)) hfirst, fun hgood => absurd hgood hfirst⟩

end

end Step

end Receiver

/-- A message of `n` octets behind a hop-by-hop header, from `fe01::` to `fe02::`. -/
def optionsMessage (n : ℕ) (hn : n < 2 ^ 15) : Ipv6Message where
  header := ⟨.ofOctets 0xfe 1, .ofOctets 0xfe 2, Ipv6Header.extHopByHop, 64, 8 + n⟩
  chain := [.hopByHop ⟨17, 0, List.replicate 6 0⟩]
  upper := 17
  payload := (List.range n).map UInt8.ofNat
  valid := List.forall_mem_singleton.mpr rfl
  linked := ⟨rfl, rfl⟩
  isUpper := by decide
  length_lt := by
    rw [List.length_append, List.length_map, List.length_range]
    exact Nat.lt_of_lt_of_le (Nat.add_lt_add_left hn 8) (by decide)

/-- Its fragments on an MTU that leaves eight octets. -/
def optionsFragments (n : ℕ) (hn : n < 2 ^ 15) : List Ipv6Packet :=
  (getFragments (optionsMessage n hn).packet 64 7).getD []

/-- The machine of its receiver. -/
abbrev optionsMachine (n : ℕ) (hn : n < 2 ^ 15) : Machine Receiver Receiver.Event :=
  Receiver.machine (optionsFragments n hn) 8 (.ofOctets 0xfe 1, 7)

/-- The fragments come in reverse order. -/
def reverseEvents (n : ℕ) (hn : n < 2 ^ 15) : List Receiver.Event :=
  (optionsFragments n hn).reverse.map .fragment

end Ipv6ExtensionFragment

end Ns3
