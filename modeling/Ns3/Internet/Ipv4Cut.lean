import Ns3.Internet.Ipv4Fragments
import Ns3.Lib.Pieces

/-!
# What IPv4 packets are cut into

Fragments are fragmented again on their way.

* `Cut` — what a packet is cut into; `doFragmentation_cut` says that `DoFragmentation` makes this of a packet, less the
  offset of a last fragment, which it forgets; `Cut.splice` that what fragments are cut into is what the packet is.
* `Fragmentation.run_cases` — in a run the packet stays cut, until the last of several fragments is
  fragmented; from then on its end is missing.
-/

namespace Ns3

open Lib

namespace Ipv4Packet

/-- The fragment as a piece of its packet. -/
def piece (f : Ipv4Packet) : List UInt8 × ℕ := (f.payload, f.header.fragmentOffset)

/-- Where a fragment ends in its packet. -/
def stop (f : Ipv4Packet) : ℕ := f.header.fragmentOffset + f.payload.length

end Ipv4Packet

namespace Ipv4L3Protocol

/-! ### What packets are cut into -/

/-- What a payload is cut into that is at an offset of a packet, with more behind it or not. -/
inductive Cut : List UInt8 → ℕ → Bool → List Ipv4Packet → Prop where
  | whole (f : Ipv4Packet) : Cut f.payload f.header.fragmentOffset f.header.moreFragments [f]
  /-- Something is cut off at its front. -/
  | cons (f : Ipv4Packet) {rest : List UInt8} {more : Bool} {gs : List Ipv4Packet} :
      f.payload ≠ [] → rest ≠ [] → f.header.moreFragments = true → Cut rest f.stop more gs →
        Cut (f.payload ++ rest) f.header.fragmentOffset more (f :: gs)

namespace Cut

variable {payload rest : List UInt8} {offset : ℕ} {more : Bool} {f g : Ipv4Packet}
  {fs gs before after : List Ipv4Packet}

theorem single (hpayload : f.payload = payload) (hoffset : f.header.fragmentOffset = offset)
    (hmore : f.header.moreFragments = more) : Cut payload offset more [f] := by
  subst hpayload hoffset hmore
  exact .whole f

theorem front (hpayload : payload = f.payload ++ rest) (hoffset : f.header.fragmentOffset = offset)
    (hmore : f.header.moreFragments = true) (hf : f.payload ≠ []) (hrest : rest ≠ []) (h : Cut rest f.stop more gs) :
    Cut payload offset more (f :: gs) := by
  subst hpayload hoffset
  exact .cons f hf hrest hmore h

theorem append (h : Cut payload offset true gs) (hp : payload ≠ []) (hrest : rest ≠ [])
    (hr : Cut rest (offset + payload.length) more fs) : Cut (payload ++ rest) offset more (gs ++ fs) := by
  generalize hmore : true = m at h
  induction h with
  | whole g => exact .cons g hp hrest hmore.symm hr
  | @cons g rest' more' gs hg hrest' hgmore _ ih =>
    rw [List.append_assoc]
    refine .cons g hg (List.append_ne_nil_of_left_ne_nil hrest' _) hgmore (ih hrest' ?_ hmore)
    rwa [Ipv4Packet.stop, Nat.add_assoc, ← List.length_append]

/-- When a fragment is cut, the packet is cut into what this makes and the other fragments. -/
theorem splice (h : Cut payload offset more fs) (hfs : fs = before ++ f :: after)
    (hf : Cut f.payload f.header.fragmentOffset f.header.moreFragments gs) :
    Cut payload offset more (before ++ (gs ++ after)) := by
  induction h generalizing before with
  | whole g =>
    cases before with
    | nil =>
      obtain ⟨rfl, rfl⟩ := List.cons.inj hfs
      rwa [List.append_nil]
    | cons => exact absurd (List.cons.inj hfs).2 (by simp)
  | cons g hg hrest hmore hr ih =>
    cases before with
    | nil =>
      obtain ⟨rfl, rfl⟩ := List.cons.inj hfs
      rw [hmore] at hf
      exact hf.append hg hrest hr
    | cons b before =>
      obtain ⟨rfl, htail⟩ := List.cons.inj hfs
      exact .cons g hg hrest hmore (ih htail)

theorem ne_nil (h : Cut payload offset more gs) : gs ≠ [] := by
  cases h <;> exact List.cons_ne_nil _ _

theorem eq_singleton (h : Cut [] offset more gs) : ∃ g, gs = [g] := by
  generalize hp : [] = payload at h
  cases h with
  | whole g => exact ⟨g, rfl⟩
  | cons g hg => exact absurd (List.append_eq_nil_iff.mp hp.symm).1 hg

section

variable (h : Cut payload offset more gs)
include h

theorem forall_ne_nil (hp : payload ≠ []) (hg : g ∈ gs) : g.payload ≠ [] := by
  induction h with
  | whole f => exact List.mem_singleton.mp hg ▸ hp
  | cons f hf hrest _ _ ih =>
    rcases List.mem_cons.mp hg with rfl | hg
    · exact hf
    · exact ih hrest hg

/-- A fragment has a part of the payload, and more behind it if it is not the last. -/
theorem exists_append (hg : g ∈ gs) :
    ∃ pre post, payload = pre ++ (g.payload ++ post) ∧ g.header.fragmentOffset = offset + pre.length ∧
      g.header.moreFragments = (more || !post.isEmpty) := by
  induction h with
  | whole f =>
    obtain rfl := List.mem_singleton.mp hg
    exact ⟨[], [], by simp, rfl, by simp⟩
  | @cons f rest more gs hf hrest hmore _ ih =>
    rcases List.mem_cons.mp hg with rfl | hg
    · refine ⟨[], rest, rfl, rfl, ?_⟩
      rw [hmore, List.isEmpty_eq_false_iff.mpr hrest, Bool.not_false, Bool.or_true]
    · obtain ⟨pre, post, hpayload, hoffset, hgmore⟩ := ih hg
      refine ⟨f.payload ++ pre, post, ?_, ?_, hgmore⟩
      · rw [hpayload, List.append_assoc]
      · rw [hoffset, Ipv4Packet.stop, List.length_append, Nat.add_assoc]

theorem le_offset (hg : g ∈ gs) : offset ≤ g.header.fragmentOffset := by
  obtain ⟨pre, post, -, hoffset, -⟩ := h.exists_append hg
  exact hoffset ▸ Nat.le_add_right _ _

theorem stop_le (hg : g ∈ gs) : g.stop ≤ offset + payload.length := by
  obtain ⟨pre, post, hpayload, hoffset, -⟩ := h.exists_append hg
  rw [Ipv4Packet.stop, hoffset, hpayload, List.length_append, List.length_append]
  omega

end

theorem of (h : Cut payload 0 more gs) (hg : g ∈ gs) : Pieces.Of payload g.piece := by
  refine ⟨(h.stop_le hg).trans (Nat.zero_add _).le, ?_⟩
  obtain ⟨pre, post, hpayload, hoffset, -⟩ := h.exists_append hg
  rw [Ipv4Packet.piece]
  dsimp only
  rw [hoffset, Nat.zero_add, hpayload, List.drop_left, List.take_left]

/-- Of two fragments, one is the other or lies behind it. -/
theorem eq_or_stop_le (h : Cut payload offset more gs) (hf : f ∈ gs) (hg : g ∈ gs)
    (hle : f.header.fragmentOffset ≤ g.header.fragmentOffset) : f = g ∨ f.stop ≤ g.header.fragmentOffset := by
  induction h with
  | whole b => exact .inl ((List.mem_singleton.mp hf).trans (List.mem_singleton.mp hg).symm)
  | cons b hb _ _ hr ih =>
    rcases List.mem_cons.mp hf with rfl | hf
    · rcases List.mem_cons.mp hg with rfl | hg
      · exact .inl rfl
      · exact .inr (hr.le_offset hg)
    · rcases List.mem_cons.mp hg with heq | hg
      · have hpos := List.length_pos_iff.mpr hb
        have hbehind := hr.le_offset hf
        rw [Ipv4Packet.stop, ← heq] at hbehind
        rw [← heq] at hpos
        omega
      · exact ih hf hg

/-- There is a last fragment. -/
theorem exists_last (h : Cut payload offset more gs) :
    ∃ g ∈ gs, g.header.moreFragments = more ∧ g.stop = offset + payload.length := by
  induction h with
  | whole f => exact ⟨f, List.mem_singleton_self f, rfl, rfl⟩
  | cons f _ _ _ _ ih =>
    obtain ⟨g, hg, hmore, hstop⟩ := ih
    refine ⟨g, List.mem_cons_of_mem f hg, hmore, ?_⟩
    rw [hstop, Ipv4Packet.stop, List.length_append, Nat.add_assoc]

theorem exists_covering {i : ℕ} (h : Cut payload offset more gs) (hi : offset ≤ i) (hlt : i < offset + payload.length) :
    ∃ g ∈ gs, g.header.fragmentOffset ≤ i ∧ i < g.stop := by
  induction h with
  | whole f => exact ⟨f, List.mem_singleton_self f, hi, hlt⟩
  | cons f _ _ _ _ ih =>
    rcases Nat.lt_or_ge i f.stop with hf | hf
    · exact ⟨f, List.mem_cons_self, hi, hf⟩
    · rw [List.length_append, ← Nat.add_assoc] at hlt
      obtain ⟨g, hg, hcov⟩ := ih hf hlt
      exact ⟨g, List.mem_cons_of_mem f hg, hcov⟩

/-- Only the last fragment ends where the payload ends. -/
theorem stop_lt_of_last (h : Cut payload offset more fs) (hfs : fs = before ++ f :: after)
    (hf : f.stop = offset + payload.length) : ∀ g ∈ before ++ after, g.stop < offset + payload.length := by
  induction h generalizing before with
  | whole b =>
    have hnil : before ++ after = [] := by
      refine List.length_eq_zero_iff.mp ?_
      have hlen := congrArg List.length hfs
      rw [List.length_append, List.length_cons, List.length_cons, List.length_nil] at hlen
      rw [List.length_append]
      omega
    simp [hnil]
  | @cons b rest more gs hb hrest _ hr ih =>
    have hpos := List.length_pos_iff.mpr hrest
    cases before with
    | nil =>
      obtain ⟨rfl, -⟩ := List.cons.inj hfs
      rw [Ipv4Packet.stop, List.length_append] at hf
      omega
    | cons c before =>
      obtain ⟨rfl, htail⟩ := List.cons.inj hfs
      rw [List.length_append, ← Nat.add_assoc] at hf ⊢
      rw [List.cons_append]
      refine List.forall_mem_cons.mpr ⟨?_, ih htail hf⟩
      rw [Ipv4Packet.stop]
      omega

/-- The last fragment of a packet is the one that ends where the packet ends. -/
theorem moreFragments_eq_false_iff (h : Cut payload offset false gs) (hg : g ∈ gs) :
    g.header.moreFragments = false ↔ g.stop = offset + payload.length := by
  obtain ⟨pre, post, hpayload, hoffset, hmore⟩ := h.exists_append hg
  rw [hmore, Bool.false_or, Bool.not_eq_false', List.isEmpty_iff, Ipv4Packet.stop, hoffset, hpayload,
    List.length_append, List.length_append, ← List.length_eq_zero_iff]
  omega

end Cut

/-! ### What `DoFragmentation` makes of a packet -/

/-- The offset `DoFragmentation` goes on from: that of a last fragment is forgotten. -/
def originalOffset (f : Ipv4Packet) : ℕ := if f.header.moreFragments then f.header.fragmentOffset else 0

theorem originalOffset_le (f : Ipv4Packet) : originalOffset f ≤ f.header.fragmentOffset := by
  rw [originalOffset]
  split_ifs
  · exact le_rfl
  · exact Nat.zero_le _

theorem fragmentLoop_cut {packet : Ipv4Packet} {size original rounds offset : ℕ} {more : Bool} (hpos : 8 ≤ size)
    (hsize : size % 8 = 0) (hbig : size < 2 ^ 32) (hsmall : offset = 0 ∨ size < 2 ^ 16) (hoffset : offset % 8 = 0)
    (horiginal : original % 8 = 0) (hlength : original + packet.payload.length < 2 ^ 16)
    (hle : offset ≤ packet.payload.length) (hrest : offset = 0 ∨ packet.payload.drop offset ≠ [])
    (hrounds : packet.payload.length < offset + rounds) :
    ∃ gs, fragmentLoop packet size more original rounds offset = some gs ∧
      Cut (packet.payload.drop offset) (offset + original) more gs ∧ ∀ g ∈ gs, g.header.fragmentOffset % 8 = 0 := by
  induction rounds generalizing offset with
  | zero => omega
  | succ rounds ih =>
    rw [fragmentLoop]
    have hsum : (offset + size) % 2 ^ 32 = offset + size := by
      refine Nat.mod_eq_of_lt ?_
      rcases hsmall with h | h <;> omega
    have hmod : (offset + original) % 2 ^ 16 = offset + original := Nat.mod_eq_of_lt (by omega)
    have haligned : (offset + original) % 8 = 0 := by omega
    rw [hsum, hmod]
    by_cases hlong : packet.payload.length > offset + size
    · simp only [hlong, decide_true, Bool.true_or, if_true, Ipv4Header.setFragmentOffset, haligned]
      have hnext : (offset + size) % 2 ^ 16 = offset + size := Nat.mod_eq_of_lt (by omega)
      rw [hnext]
      have hne : packet.payload.drop (offset + size) ≠ [] := by
        intro hnil
        exact absurd (List.drop_eq_nil_iff.mp hnil) (by omega)
      obtain ⟨gs, hgs, hcut, hall⟩ := ih (.inr (by omega)) (by omega) (by omega) (.inr hne) (by omega)
      rw [hgs]
      refine ⟨_, rfl, ?_, List.forall_mem_cons.mpr ⟨haligned, hall⟩⟩
      have hlen : ((packet.payload.drop offset).take size).length = size := by
        rw [List.length_take, List.length_drop]
        omega
      have hsplit : packet.payload.drop offset =
          (packet.payload.drop offset).take size ++ packet.payload.drop (offset + size) := by
        rw [← List.drop_drop, List.take_append_drop]
      refine .front hsplit rfl rfl ?_ hne ?_
      · exact List.length_pos_iff.mp (Nat.lt_of_lt_of_eq (by omega : 0 < size) hlen.symm)
      · rw [Ipv4Packet.stop]
        dsimp only [Ipv4Header.setPayloadSize, Ipv4Header.setMoreFragments]
        rw [hlen, Nat.add_right_comm]
        exact hcut
    · simp only [hlong, decide_false, Bool.false_or, Bool.false_eq_true, if_false, Ipv4Header.setFragmentOffset,
        haligned, if_true]
      refine ⟨_, rfl, ?_, List.forall_mem_cons.mpr ⟨haligned, by simp⟩⟩
      have htake : (packet.payload.drop offset).take (packet.payload.length - offset) = packet.payload.drop offset := by
        rw [← List.length_drop, List.take_length]
      refine .single htake rfl ?_
      cases more <;> rfl

/-- `DoFragmentation` ends for every packet, and cuts it. -/
theorem doFragmentation_cut {packet : Ipv4Packet} {outIfaceMtu : ℕ} (hmtu : 28 ≤ outIfaceMtu)
    (hmax : outIfaceMtu < 2 ^ 32) (haligned : packet.header.fragmentOffset % 8 = 0) (hstop : packet.stop < 2 ^ 16) :
    ∃ gs, doFragmentation packet outIfaceMtu = some gs ∧
      Cut packet.payload (originalOffset packet) packet.header.moreFragments gs ∧
      ∀ g ∈ gs, g.header.fragmentOffset % 8 = 0 := by
  have hsize : fragmentSize outIfaceMtu = (outIfaceMtu - 20) - (outIfaceMtu - 20) % 8 := by
    have hmod : (outIfaceMtu + 2 ^ 32 - Ipv4Header.serializedSize) % 2 ^ 32 = outIfaceMtu - 20 := by
      rw [Ipv4Header.serializedSize]
      omega
    rw [fragmentSize, hmod]
  have hback : (!packet.header.isLastFragment) = packet.header.moreFragments := Bool.not_not _
  rw [Ipv4Packet.stop] at hstop
  have horiginal := originalOffset_le packet
  have horiginal8 : originalOffset packet % 8 = 0 := by
    rw [originalOffset]
    split_ifs
    · exact haligned
    · rfl
  rw [doFragmentation, hback]
  obtain ⟨gs, hgs, hcut, hall⟩ : ∃ gs, fragmentLoop packet (fragmentSize outIfaceMtu) packet.header.moreFragments
      (originalOffset packet) (packet.payload.length + 1) 0 = some gs ∧
      Cut (packet.payload.drop 0) (0 + originalOffset packet) packet.header.moreFragments gs ∧
      ∀ g ∈ gs, g.header.fragmentOffset % 8 = 0 :=
    fragmentLoop_cut (by omega) (by omega) (by omega) (.inl rfl) rfl horiginal8 (by omega) (Nat.zero_le _) (.inl rfl)
      (by omega)
  rw [Nat.zero_add] at hcut
  exact ⟨gs, hgs, hcut, hall⟩

/-! ### Fragments on their way -/

namespace Fragmentation

/-- A fragment comes to a link with an MTU. -/
structure Event where
  /-- The place of the fragment among those that are on their way. -/
  index : ℕ
  outIfaceMtu : ℕ
  deriving DecidableEq

/-- The fragments of a packet that are on their way, in the order of their offsets. -/
def machine : Machine (List Ipv4Packet) Event where
  enabled fs e := e.index < fs.length ∧ 28 ≤ e.outIfaceMtu ∧ e.outIfaceMtu < 2 ^ 32
  exec fs e := do
    let gs ← doFragmentation (← fs[e.index]?) e.outIfaceMtu
    some (fs.take e.index ++ (gs ++ fs.drop (e.index + 1)))

instance (fs : List Ipv4Packet) (e : Event) : Decidable (machine.enabled fs e) :=
  inferInstanceAs (Decidable (e.index < fs.length ∧ 28 ≤ e.outIfaceMtu ∧ e.outIfaceMtu < 2 ^ 32))

/-- It is not the last fragment of several. -/
def Keeps (fs : List Ipv4Packet) (e : Event) : Prop :=
  ∀ f ∈ fs[e.index]?, f.header.moreFragments = true ∨ f.header.fragmentOffset = 0
deriving Decidable

/-- The offsets of the fragments can be written to a header. -/
def Fits (fs : List Ipv4Packet) : Prop := ∀ f ∈ fs, f.header.fragmentOffset % 8 = 0 ∧ f.stop < 2 ^ 16

variable {e : Event}

theorem split_at {fs : List Ipv4Packet} {f : Ipv4Packet} (hf : fs[e.index]? = some f) :
    fs = fs.take e.index ++ f :: fs.drop (e.index + 1) := by
  obtain ⟨hlt, rfl⟩ := List.getElem?_eq_some_iff.mp hf
  rw [List.getElem_cons_drop, List.take_append_drop]

theorem step_cases {fs fs' : List Ipv4Packet} (h : machine.Step fs e fs') (hfits : Fits fs) :
    ∃ f gs, fs[e.index]? = some f ∧ fs' = fs.take e.index ++ (gs ++ fs.drop (e.index + 1)) ∧
      Cut f.payload (originalOffset f) f.header.moreFragments gs ∧ ∀ g ∈ gs, g.header.fragmentOffset % 8 = 0 := by
  obtain ⟨⟨-, hmtu, hmax⟩, hexec⟩ := h
  obtain ⟨f, hf, hexec⟩ := Option.bind_eq_some_iff.mp hexec
  obtain ⟨haligned, hstop⟩ := hfits f (List.mem_of_getElem? hf)
  obtain ⟨gs, hgs, hcut, hall⟩ := doFragmentation_cut hmtu hmax haligned hstop
  rw [hgs] at hexec
  exact ⟨f, gs, hf, (Option.some.inj hexec).symm, hcut, hall⟩

theorem exists_step {fs : List Ipv4Packet} (he : machine.enabled fs e) (hfits : Fits fs) :
    ∃ fs', machine.Step fs e fs' := by
  obtain ⟨hlt, hmtu, hmax⟩ := he
  obtain ⟨haligned, hstop⟩ := hfits _ (List.getElem_mem hlt)
  obtain ⟨gs, hgs, -, -⟩ := doFragmentation_cut hmtu hmax haligned hstop
  refine ⟨fs.take e.index ++ (gs ++ fs.drop (e.index + 1)), ⟨hlt, hmtu, hmax⟩, ?_⟩
  refine Option.bind_eq_some_iff.mpr ⟨fs[e.index], List.getElem?_eq_getElem hlt, ?_⟩
  rw [hgs]
  rfl

variable {payload : List UInt8}

/-- What the fragments of a payload are after a step that keeps the offset. -/
theorem cut_step {fs fs' : List Ipv4Packet} (hcut : Cut payload 0 false fs) (hkeeps : Keeps fs e) (hfits : Fits fs)
    (h : machine.Step fs e fs') : Cut payload 0 false fs' := by
  obtain ⟨f, gs, hf, rfl, hgs, -⟩ := step_cases h hfits
  have horiginal : originalOffset f = f.header.fragmentOffset := by
    rw [originalOffset]
    split_ifs with hmore
    · rfl
    · exact ((hkeeps f hf).resolve_left hmore).symm
  exact hcut.splice (split_at hf) (horiginal ▸ hgs)

/-- Every fragment ends before the payload does. -/
def Short (payload : List UInt8) (fs : List Ipv4Packet) : Prop := ∀ f ∈ fs, f.stop < payload.length

/-- A step that does not keep the offset loses the end of the payload. -/
theorem short_step_of_not_keeps {fs fs' : List Ipv4Packet} (hcut : Cut payload 0 false fs) (hkeeps : ¬ Keeps fs e)
    (hfits : Fits fs) (h : machine.Step fs e fs') : Short payload fs' := by
  obtain ⟨f, gs, hf, rfl, hgs, -⟩ := step_cases h hfits
  obtain ⟨hmore, hoffset⟩ : f.header.moreFragments = false ∧ f.header.fragmentOffset ≠ 0 := by
    simpa [Keeps, hf] using hkeeps
  have hstop : f.stop = 0 + payload.length := (hcut.moreFragments_eq_false_iff (List.mem_of_getElem? hf)).mp hmore
  have hothers := hcut.stop_lt_of_last (split_at hf) hstop
  rw [Nat.zero_add] at hstop hothers
  intro g hg
  rw [← List.append_assoc, List.mem_append, List.mem_append] at hg
  rcases hg with (hg | hg) | hg
  · exact hothers g (List.mem_append_left _ hg)
  · have hle := hgs.stop_le hg
    rw [originalOffset, hmore, if_neg Bool.false_ne_true] at hle
    rw [Ipv4Packet.stop] at hstop
    omega
  · exact hothers g (List.mem_append_right _ hg)

/-- What was lost does not come back. -/
theorem short_step {fs fs' : List Ipv4Packet} (hshort : Short payload fs) (hfits : Fits fs)
    (h : machine.Step fs e fs') : Short payload fs' := by
  obtain ⟨f, gs, hf, rfl, hgs, -⟩ := step_cases h hfits
  intro g hg
  rw [← List.append_assoc, List.mem_append, List.mem_append] at hg
  rcases hg with (hg | hg) | hg
  · exact hshort g (List.mem_of_mem_take hg)
  · refine lt_of_le_of_lt ((hgs.stop_le hg).trans ?_) (hshort f (List.mem_of_getElem? hf))
    exact Nat.add_le_add_right (originalOffset_le f) _
  · exact hshort g (List.mem_of_mem_drop hg)

theorem aligned_step {fs fs' : List Ipv4Packet} (hfits : Fits fs) (h : machine.Step fs e fs') :
    ∀ f ∈ fs', f.header.fragmentOffset % 8 = 0 := by
  obtain ⟨f, gs, hf, rfl, -, hall⟩ := step_cases h hfits
  intro g hg
  rw [← List.append_assoc, List.mem_append, List.mem_append] at hg
  rcases hg with (hg | hg) | hg
  · exact (hfits g (List.mem_of_mem_take hg)).1
  · exact hall g hg
  · exact (hfits g (List.mem_of_mem_drop hg)).1

theorem ne_nil_step {fs fs' : List Ipv4Packet} (hfits : Fits fs) (h : machine.Step fs e fs') : fs' ≠ [] := by
  obtain ⟨f, gs, -, rfl, hgs, -⟩ := step_cases h hfits
  exact List.append_ne_nil_of_right_ne_nil _ (List.append_ne_nil_of_left_ne_nil hgs.ne_nil _)

/-- On their way, the fragments are what the packet is cut into, until a last fragment with an offset is fragmented. -/
theorem run_cases {packet : Ipv4Packet} {tr : List (List Ipv4Packet × Event)} {fs : List Ipv4Packet}
    (hoffset : packet.header.fragmentOffset = 0) (hmore : packet.header.moreFragments = false)
    (hlength : packet.payload.length < 2 ^ 16) (hrun : machine.Run [packet] tr fs) :
    Fits fs ∧ (Machine.Meets Keeps tr ∧ Cut packet.payload 0 false fs ∨
      ¬ Machine.Meets Keeps tr ∧ fs ≠ [] ∧ Short packet.payload fs) := by
  induction hrun with
  | nil =>
    refine ⟨List.forall_mem_singleton.mpr ⟨by rw [hoffset], ?_⟩, .inl ⟨fun x hx => absurd hx List.not_mem_nil, ?_⟩⟩
    · rwa [Ipv4Packet.stop, hoffset, Nat.zero_add]
    · exact .single rfl hoffset hmore
  | @snoc tr fs fs' e _ hstep ih =>
    obtain ⟨hfits, hcases⟩ := ih
    have haligned := aligned_step hfits hstep
    have hshort : Short packet.payload fs' → Fits fs' :=
      fun hshort f hf => ⟨haligned f hf, (hshort f hf).trans hlength⟩
    rw [Machine.meets_snoc]
    rcases hcases with ⟨hmeets, hcut⟩ | ⟨hmeets, -, hs⟩
    · by_cases hkeeps : Keeps fs e
      · have hcut' := cut_step hcut hkeeps hfits hstep
        refine ⟨fun f hf => ⟨haligned f hf, lt_of_le_of_lt (hcut'.stop_le hf) ?_⟩, .inl ⟨⟨hmeets, hkeeps⟩, hcut'⟩⟩
        rwa [Nat.zero_add]
      · have hs := short_step_of_not_keeps hcut hkeeps hfits hstep
        exact ⟨hshort hs, .inr ⟨fun h => hkeeps h.2, ne_nil_step hfits hstep, hs⟩⟩
    · have hs' := short_step hs hfits hstep
      exact ⟨hshort hs', .inr ⟨fun h => hmeets h.1, ne_nil_step hfits hstep, hs'⟩⟩

end Fragmentation

end Ipv4L3Protocol

end Ns3
