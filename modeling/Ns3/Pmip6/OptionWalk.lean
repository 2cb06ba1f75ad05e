import Ns3.Pmip6.MobilityMessage
import Ns3.Pmip6.OptionHeaders
import Mathlib.Logic.Function.Iterate

/-!
# Walking through the options

`Ipv6Mobility::ProcessOptions` (`pmip6/model/ipv6-mobility.cc`) goes through the options of a
received message with an 8-bit counter, and calls the `Process` of each option it knows
(`ipv6-mobility-option.cc`), which returns the size of the option in 8 bits. Neither looks where the
packet ends: a `Memory` is the packet and what lies behind it.

* `Chain` — the octets are options one after the other, as far as the given length.
* `safe_iff` — the walk ends, goes forward and stays in the packet exactly if they are.
-/

namespace Ns3.Pmip6.Wire

open Lib Buffer

/-! ### The handlers -/

/-- `Process` of an option, with a copy of the packet from the option on: it returns a `uint8_t`. -/
abbrev Process := Cursor → Ipv6MobilityOptionBundle → UInt8 × Ipv6MobilityOptionBundle

/-- The `Process` that reads a header with `RemoveHeader`, and returns its `GetSerializedSize ()`. -/
def OptionClass.process {β : Type} (K : OptionClass β)
    (set : β → Ipv6MobilityOptionBundle → Ipv6MobilityOptionBundle) : Process := fun c bundle =>
  let header := (K.deserialize c).1
  (UInt8.ofNat header.getSerializedSize, set header.fields bundle)

/-- The options of `RegisterMobilityOptions`, with their numbers. -/
def registered : List (UInt8 × Process) := [
  (0, fun _ bundle => (1, bundle)),
  (1, padn.process fun _ bundle => bundle),
  (8, mobileNodeIdentifier.process fun nai bundle =>
    if nai.subtype = 1 then { bundle with mnIdentifier := nai.nodeIdentifier } else bundle),
  (22, homeNetworkPrefix.process fun hnp bundle =>
    { bundle with homeNetworkPrefixes := bundle.homeNetworkPrefixes ++ [hnp.pfx] }),
  (23, handoffIndicator.process fun hi bundle => { bundle with handoffIndicator := hi.value }),
  (24, accessTechnologyType.process fun att bundle => { bundle with accessTechnologyType := att.value }),
  (25, mobileNodeLinkLayerIdentifier.process fun mnllid bundle =>
    { bundle with mnLinkIdentifier := mnllid.linkLayerIdentifier }),
  (26, linkLocalAddress.process fun lla bundle => { bundle with magLinkAddress := lla }),
  (27, timestamp.process fun t bundle => { bundle with timestamp := t })]

/-- How options of the type are processed, if at all. -/
def getOption (optType : UInt8) : Option Process :=
  (registered.find? fun option => option.1 = optType).map Prod.snd

/-! ### The walk -/

/-- A packet in memory. -/
structure Memory where
  packet : List UInt8
  behindPacket : ℕ → UInt8
  /-- What lies behind the octets copied to `data`. -/
  behindData : ℕ → UInt8

namespace Memory

/-- `Copy ()` and `RemoveAtStart (offset)`: where a header is read then. -/
def removeAtStart (m : Memory) (offset : UInt8) : Cursor :=
  ⟨fun i => m.packet[i]?.getD (m.behindPacket i), min offset.toNat m.packet.length⟩

/-- `*(data + i)`, where `data` was copied from the packet from `offset` on. -/
def data (m : Memory) (offset : UInt8) (i : ℕ) : UInt8 :=
  (m.packet.drop offset.toNat)[i]?.getD (m.behindData i)

end Memory

/-- The state of the loop. -/
structure Walk where
  processedSize : UInt8 := 0
  bundle : Ipv6MobilityOptionBundle := {}

section ProcessOptions

variable (m : Memory) (offset length : UInt8)

/-- The body of the loop. -/
def iterate (w : Walk) : Walk :=
  let optType := m.data offset w.processedSize.toNat
  match getOption optType with
  | none =>
    let optLen := if optType = 0 then 1 else m.data offset (w.processedSize.toNat + 1) + 2
    { w with processedSize := w.processedSize + optLen }
  | some process =>
    let (optLen, bundle) := process (m.removeAtStart (offset + w.processedSize)) w.bundle
    { processedSize := w.processedSize + optLen, bundle }

/-- The loop of `ProcessOptions`; `none` while it has not ended after the given number of iterations. -/
def processOptions : ℕ → Walk → Option Walk
  | 0, _ => none
  | fuel + 1, w => if w.processedSize < length then processOptions fuel (iterate m offset w) else some w

/-- The places of the packet where an iteration reads an option type or length. The `Process` of an
option reads its header again; `Pad1` has no length. -/
def headerOctets (w : Walk) : List ℕ :=
  let optType := m.data offset w.processedSize.toNat
  let place := (m.removeAtStart (offset + w.processedSize)).pos
  (offset.toNat + w.processedSize.toNat) ::
    match getOption optType with
    | none => if optType = 0 then [] else [offset.toNat + w.processedSize.toNat + 1]
    | some _ => if optType = 0 then [place] else [place, place + 1]

/-- What an iteration has to keep to: it goes forward, and reads types and lengths in the packet. -/
structure Advances (w : Walk) : Prop where
  lt : w.processedSize < (iterate m offset w).processedSize
  /-- What is read lies in the packet. -/
  inBounds : ∀ i ∈ headerOctets m offset w, i < m.packet.length

/-- The loop ends, and every iteration keeps to that. -/
structure Safe (w : Walk) : Prop where
  terminates : ∃ fuel, (processOptions m offset length fuel w).isSome
  /-- The iteration after the first `n` ones. -/
  advances : ∀ n, (∀ k ≤ n, ((iterate m offset)^[k] w).processedSize < length) →
    Advances m offset ((iterate m offset)^[n] w)

end ProcessOptions

/-! ### Chains of options -/

/-- Where the length of an option at `p` is read: a handler is given the place in 8 bits. -/
def lengthPlace (offset : UInt8) (p : ℕ) (type : UInt8) : ℕ :=
  if (getOption type).isSome then (offset.toNat + p) % 256 + 1 else offset.toNat + p + 1

/-- In the packet an option of `n` octets begins at `p`: `Pad1`, or an option with a length octet, to
which the two octets before it are added in 8 bits. -/
inductive OptionAt (packet : List UInt8) (offset : UInt8) (p : ℕ) : ℕ → Prop where
  | pad1 : packet[offset.toNat + p]? = some 0 → OptionAt packet offset p 1
  | option {type len : UInt8} : packet[offset.toNat + p]? = some type → type ≠ 0 →
      packet[lengthPlace offset p type]? = some len → len ≠ 254 →
      OptionAt packet offset p (len + 2).toNat

/-- From `p` on, the packet holds options one after the other, until one reaches the length; the last
one ends within 255 octets. -/
inductive Chain (packet : List UInt8) (offset length : UInt8) : ℕ → Prop where
  | stop {p : ℕ} : length.toNat ≤ p → Chain packet offset length p
  /-- An option and what follows it. -/
  | next {p n : ℕ} : p < length.toNat → OptionAt packet offset p n → p + n < 256 →
      Chain packet offset length (p + n) → Chain packet offset length p

/-! ### One iteration -/

theorem OptionClass.process_fst {β : Type} (K : OptionClass β)
    (set : β → Ipv6MobilityOptionBundle → Ipv6MobilityOptionBundle) (c : Cursor)
    (bundle : Ipv6MobilityOptionBundle) : (K.process set c bundle).1 = c.octet (c.pos + 1) + 2 := by
  have hlen : (K.deserialize c).1.len = c.octet (c.pos + 1) := by rw [K.deserialize_apply]
  change UInt8.ofNat ((K.deserialize c).1.len.toNat + 2) = _
  rw [hlen, UInt8.ofNat_add, UInt8.ofNat_toNat]
  rfl

/-- A handler returns the length it reads and two, and that of `Pad1` one. -/
theorem size_of_getOption {optType : UInt8} {process : Process} (h : getOption optType = some process)
    (c : Cursor) (bundle : Ipv6MobilityOptionBundle) :
    (process c bundle).1 = if optType = 0 then 1 else c.octet (c.pos + 1) + 2 := by
  obtain ⟨option, hfind, rfl⟩ := Option.map_eq_some_iff.mp h
  have hmem := List.mem_of_find?_eq_some hfind
  have hkey := List.find?_some hfind
  simp only [decide_eq_true_eq] at hkey
  subst hkey
  simp only [registered, List.mem_cons, List.not_mem_nil, or_false] at hmem
  rcases hmem with rfl | rfl | rfl | rfl | rfl | rfl | rfl | rfl | rfl
  · rfl
  all_goals simp [OptionClass.process_fst]

namespace Memory

variable {m : Memory} {offset : UInt8}

theorem data_eq_of_getElem? {i : ℕ} {b : UInt8} (h : m.packet[offset.toNat + i]? = some b) :
    m.data offset i = b := by
  rw [data, List.getElem?_drop, h, Option.getD_some]

end Memory

variable {m : Memory} {offset length : UInt8} {w : Walk}

/-- In the packet, the handler's place is that of the option, in 8 bits. -/
theorem pos_removeAtStart {p : UInt8} (h : offset.toNat + p.toNat < m.packet.length) :
    (m.removeAtStart (offset + p)).pos = (offset.toNat + p.toNat) % 256 := by
  rw [Memory.removeAtStart, UInt8.toNat_add]
  have hle := Nat.mod_le (offset.toNat + p.toNat) (2 ^ 8)
  exact Nat.min_eq_left (by omega)

/-- The octets of the type and the length, and the size, of the option an iteration meets. -/
theorem iterate_eq_of_type {type : UInt8}
    (ht : m.packet[offset.toNat + w.processedSize.toNat]? = some type) :
    (iterate m offset w).processedSize = w.processedSize + (if type = 0 then 1 else
      if (getOption type).isSome then
        (m.removeAtStart (offset + w.processedSize)).octet
          (lengthPlace offset w.processedSize.toNat type) + 2
      else m.data offset (w.processedSize.toNat + 1) + 2) ∧
    ∀ i, i ∈ headerOctets m offset w ↔ i = offset.toNat + w.processedSize.toNat ∨
      ((getOption type).isSome ∧ i = (offset.toNat + w.processedSize.toNat) % 256) ∨
      type ≠ 0 ∧ i = lengthPlace offset w.processedSize.toNat type := by
  have hdata := Memory.data_eq_of_getElem? ht
  have hpos := pos_removeAtStart (List.getElem?_eq_some_iff.mp ht).1
  rw [iterate, headerOctets, hdata]
  cases hget : getOption type with
  | none =>
    have hne : type ≠ 0 := by
      rintro rfl
      exact absurd hget (by decide)
    simp [hne, lengthPlace, hget]
  | some process =>
    have hsize := size_of_getOption hget (m.removeAtStart (offset + w.processedSize)) w.bundle
    by_cases hzero : type = 0
    · simp [hsize, hzero, hpos, or_comm]
    · simp [hsize, hzero, hpos, lengthPlace, hget]

theorem iterate_eq_of_length {type len : UInt8}
    (ht : m.packet[offset.toNat + w.processedSize.toNat]? = some type) (hne : type ≠ 0)
    (hl : m.packet[lengthPlace offset w.processedSize.toNat type]? = some len) :
    (iterate m offset w).processedSize = w.processedSize + (len + 2) := by
  rw [(iterate_eq_of_type ht).1, if_neg hne]
  split
  · simp [Memory.removeAtStart, hl]
  · rename_i hget
    rw [lengthPlace, if_neg hget, Nat.add_assoc] at hl
    rw [Memory.data_eq_of_getElem? hl]

/-- When an iteration meets an option in the packet, the processed size grows by the size of it. -/
theorem iterate_eq_of_optionAt {n : ℕ} (h : OptionAt m.packet offset w.processedSize.toNat n) :
    (iterate m offset w).processedSize = w.processedSize + UInt8.ofNat n := by
  cases h with
  | pad1 ht => exact (iterate_eq_of_type ht).1
  | option ht hne hl _ => rw [iterate_eq_of_length ht hne hl, UInt8.ofNat_toNat]

theorem inBounds_of_optionAt {n : ℕ} (h : OptionAt m.packet offset w.processedSize.toNat n) :
    ∀ i ∈ headerOctets m offset w, i < m.packet.length := by
  intro i hi
  cases h with
  | pad1 ht =>
    have hlt := (List.getElem?_eq_some_iff.mp ht).1
    rcases ((iterate_eq_of_type ht).2 i).mp hi with rfl | ⟨-, rfl⟩ | ⟨hne, -⟩
    · exact hlt
    · exact Nat.lt_of_le_of_lt (Nat.mod_le _ _) hlt
    · exact absurd rfl hne
  | option ht hne hl _ =>
    have hlt := (List.getElem?_eq_some_iff.mp ht).1
    rcases ((iterate_eq_of_type ht).2 i).mp hi with rfl | ⟨-, rfl⟩ | ⟨-, rfl⟩
    · exact hlt
    · exact Nat.lt_of_le_of_lt (Nat.mod_le _ _) hlt
    · exact (List.getElem?_eq_some_iff.mp hl).1

theorem lt_add_iff (p d : UInt8) : p < p + d ↔ 0 < d.toNat ∧ p.toNat + d.toNat < 256 := by
  have hp := p.toNat_lt
  have hd := d.toNat_lt
  rw [UInt8.lt_iff_toNat_lt, UInt8.toNat_add]
  omega

theorem OptionAt.pos {packet : List UInt8} {p n : ℕ} (h : OptionAt packet offset p n) : 0 < n ∧ n < 256 := by
  cases h with
  | pad1 _ => exact ⟨Nat.one_pos, by decide⟩
  | @option _ len _ _ _ hlen =>
    refine ⟨Nat.pos_of_ne_zero fun h0 => hlen ?_, (len + 2).toNat_lt⟩
    have hz : len + 2 = 0 := UInt8.toNat_inj.mp h0
    exact (UInt8.sub_eq_iff_eq_add.mpr hz.symm).symm

/-- An iteration goes forward and stays in the packet exactly if it meets an option there, and the
counter does not wrap around. -/
theorem advances_iff : Advances m offset w ↔
    ∃ n, OptionAt m.packet offset w.processedSize.toNat n ∧ w.processedSize.toNat + n < 256 := by
  constructor
  · rintro ⟨hlt, hin⟩
    obtain ⟨type, ht⟩ : ∃ type, m.packet[offset.toNat + w.processedSize.toNat]? = some type :=
      ⟨_, List.getElem?_eq_getElem (hin _ List.mem_cons_self)⟩
    obtain ⟨hsize, hmem⟩ := iterate_eq_of_type ht
    by_cases hne : type = 0
    · rw [hsize, if_pos hne, lt_add_iff] at hlt
      exact ⟨1, .pad1 (hne ▸ ht), hlt.2⟩
    · have hl := List.getElem?_eq_getElem (hin _ ((hmem _).mpr (.inr (.inr ⟨hne, rfl⟩))))
      rw [iterate_eq_of_length ht hne hl, lt_add_iff] at hlt
      refine ⟨_, .option ht hne hl fun h254 => ?_, hlt.2⟩
      rw [h254] at hlt
      exact absurd hlt.1 (by decide)
  · rintro ⟨n, hn, hlt⟩
    obtain ⟨hpos, hn256⟩ := hn.pos
    refine ⟨?_, inBounds_of_optionAt hn⟩
    rw [iterate_eq_of_optionAt hn, lt_add_iff, UInt8.toNat_ofNat', Nat.mod_eq_of_lt hn256]
    exact ⟨hpos, hlt⟩

/-! ### The whole walk -/

theorem safe_of_le (h : length ≤ w.processedSize) : Safe m offset length w := by
  have hstop : ¬ w.processedSize < length := fun hlt => absurd (UInt8.lt_of_lt_of_le hlt h) (UInt8.lt_irrefl _)
  refine ⟨⟨1, ?_⟩, fun n hn => absurd (hn 0 (Nat.zero_le n)) hstop⟩
  rw [processOptions, if_neg hstop]
  rfl

theorem safe_iff_of_lt (h : w.processedSize < length) :
    Safe m offset length w ↔ Advances m offset w ∧ Safe m offset length (iterate m offset w) := by
  constructor
  · rintro ⟨⟨fuel, hfuel⟩, hadv⟩
    refine ⟨hadv 0 fun k hk => ?_, ⟨?_, fun n hn => ?_⟩⟩
    · obtain rfl := Nat.le_zero.mp hk
      exact h
    · cases fuel with
      | zero => exact absurd hfuel (by simp [processOptions])
      | succ fuel =>
        rw [processOptions, if_pos h] at hfuel
        exact ⟨fuel, hfuel⟩
    · refine hadv (n + 1) fun k hk => ?_
      cases k with
      | zero => exact h
      | succ k => exact hn k (Nat.le_of_succ_le_succ hk)
  · rintro ⟨hfirst, ⟨fuel, hfuel⟩, hadv⟩
    refine ⟨⟨fuel + 1, ?_⟩, fun n hn => ?_⟩
    · rw [processOptions, if_pos h]
      exact hfuel
    · cases n with
      | zero => exact hfirst
      | succ n => exact hadv n fun k hk => hn (k + 1) (Nat.succ_le_succ hk)

/-- From any place, the walk ends, goes forward and stays in the packet exactly if the octets from
there on are a chain of options. -/
theorem safe_iff_chain : Safe m offset length w ↔ Chain m.packet offset length w.processedSize.toNat := by
  constructor
  · intro hsafe
    induction hk : 256 - w.processedSize.toNat using Nat.strong_induction_on generalizing w with
    | _ k ih =>
      by_cases hlt : w.processedSize < length
      · obtain ⟨hadv, hrest⟩ := (safe_iff_of_lt hlt).mp hsafe
        obtain ⟨n, hn, h256⟩ := advances_iff.mp hadv
        have hnext : (iterate m offset w).processedSize.toNat = w.processedSize.toNat + n := by
          rw [iterate_eq_of_optionAt hn, UInt8.toNat_add, UInt8.toNat_ofNat']
          omega
        refine .next (UInt8.lt_iff_toNat_lt.mp hlt) hn h256 ?_
        rw [← hnext]
        have hpos := hn.pos.1
        exact ih _ (by omega) hrest rfl
      · exact .stop (UInt8.le_iff_toNat_le.mp (UInt8.not_lt.mp hlt))
  · intro hchain
    generalize hp : w.processedSize.toNat = p at hchain
    induction hchain generalizing w with
    | stop hle => exact safe_of_le (UInt8.le_iff_toNat_le.mpr (hp ▸ hle))
    | @next p n hlt hn h256 _ ih =>
      subst hp
      have hnext : (iterate m offset w).processedSize.toNat = w.processedSize.toNat + n := by
        rw [iterate_eq_of_optionAt hn, UInt8.toNat_add, UInt8.toNat_ofNat']
        omega
      exact (safe_iff_of_lt (UInt8.lt_iff_toNat_lt.mpr hlt)).mpr
        ⟨advances_iff.mpr ⟨n, hn, h256⟩, ih hnext⟩

/-- `ProcessOptions` ends, goes forward in every iteration and reads no type and no length behind the
packet exactly if the packet holds a chain of options at the offset. -/
theorem safe_iff (m : Memory) (offset length : UInt8) :
    Safe m offset length {} ↔ Chain m.packet offset length 0 :=
  safe_iff_chain

/-- A binding update whose one option has the length octet 254: the walk stays where it is. -/
theorem walk_stays : ¬ ∀ (m : Memory) (offset length : UInt8), Safe m offset length {} := by
  intro hall
  have h := hall ⟨[59, 1, 5, 0, 0, 0, 0, 0, 0, 0, 0, 0, 1, 254, 0, 0], fun _ => 0, fun _ => 0⟩ 12 4
  have hadv := (h.advances 0 fun k hk => by
    obtain rfl := Nat.le_zero.mp hk
    decide).lt
  exact absurd hadv (by decide +kernel)

end Ns3.Pmip6.Wire
