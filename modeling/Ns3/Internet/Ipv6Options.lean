import Ns3.Internet.Ipv6HeaderWalk

/-!
# The options of an extension header

`Ipv6Extension::ProcessOptions` for the options that a hop-by-hop or destination header announces, as the rounds of
`Ipv6LocalDeliver`. Positions, lengths and the length of the area are octets, and may wrap round.

* `OptionStarts` — where the options of the header begin, up to the first one that must be discarded.
* `roundRight_iff` — a round goes over one option if and only if `OptionFit` holds of it.
* `optionsRight_iff` — the loop goes over the options of the announced area, without reading past the end of the packet,
  stops at the first one that must be discarded, and comes to an end, if and only if this holds of each option that it
  should come to, and the area is inside the packet and behind a position below 254.
-/

namespace Ns3.Ipv6L3Protocol

open Lib Ipv6ExtensionHeader DeliverState

namespace Walk

/-- The full length of the option at a place: one octet for `Pad1`, two more than the length octet for the others. -/
def optionSize (w : Walk) (i : ℕ) : Option ℕ :=
  match w.data[i]? with
  | none => none
  | some optionType =>
    if optionType = Ipv6Option.pad1.optionNumber then some 1 else w.data[i + 1]?.map fun length => length.toNat + 2

/-- An option begins at the place, and none before it must be discarded. -/
inductive OptionStarts (w : Walk) : ℕ → Prop where
  | first : OptionStarts w 0
  /-- The option behind another one. -/
  | next {i n : ℕ} {optionType : UInt8} : OptionStarts w i → w.data[i]? = some optionType →
      ¬ MustBeDiscarded optionType → w.optionSize i = some n → OptionStarts w (i + n)

/-- What a round should make of the option at a place: it stops if the option must be discarded, and goes to the next
one otherwise, until the announced area ends. -/
def RoundRight (w : Walk) (area : ℕ) (length processedSize : UInt8) (s : DeliverState) : Prop :=
  if processedSize.toNat < area then
    ∃ optionType, w.data[processedSize.toNat]? = some optionType ∧ (MustBeDiscarded optionType → s = dropped) ∧
      (¬ MustBeDiscarded optionType → ∃ n next, w.optionSize processedSize.toNat = some n ∧
        next.toNat = processedSize.toNat + n ∧ s = options w length next)
  else ∃ w', s = walk w'

/-- The type of the option at a place is in the packet, and what is read of the option; its length octet is where it is
read, and the option ends before place 256. -/
def OptionFit (w : Walk) (processedSize : UInt8) : Prop :=
  match w.data[processedSize.toNat]? with
  | none => False
  | some optionType =>
    match Ipv6Option.getOption optionType with
    | none => optionType >>> 6 = 0 →
      ∃ length ∈ w.data[processedSize.toNat + 1]?, processedSize.toNat + length.toNat + 2 < 256
    | some ipv6Option => ipv6Option.octetsRead ≤ (w.optionData processedSize).length ∧ (ipv6Option ≠ .pad1 →
      ∃ length ∈ w.data[processedSize.toNat + 1]?, (w.optionData processedSize)[1]? = some length ∧
        processedSize.toNat + length.toNat + 2 < 256)

/-- The loop comes to the option at a place. -/
inductive Comes (protocols : UInt8 → Bool) (ip : Ipv6Header) (w : Walk) (length : UInt8) : UInt8 → Prop where
  | first : Comes protocols ip w length 0
  /-- It goes from option to option. -/
  | round {processedSize next : UInt8} : Comes protocols ip w length processedSize →
      deliverStep protocols ip (options w length processedSize) = options w length next →
      Comes protocols ip w length next

/-- What `Process` of the header at the position should do with its options. -/
structure OptionsRight (protocols : UInt8 → Bool) (ip : Ipv6Header) (w : Walk) (size : ℕ) (nextHeader length : UInt8) :
    Prop where
  area : w.headerSize = some size
  offset : w.position.toNat + Ipv6OptionsHeader.optionsOffset < 256
  begins : processOptionsHeader w = options { w with nextHeader } length 0
  rounds : ∀ i, Comes protocols ip { w with nextHeader } length i →
    RoundRight { w with nextHeader } (size - Ipv6OptionsHeader.optionsOffset) length i
      (deliverStep protocols ip (options { w with nextHeader } length i))
  ends : ∃ i, Comes protocols ip { w with nextHeader } length i ∧
    ((∃ w', deliverStep protocols ip (options { w with nextHeader } length i) = walk w') ∨
      deliverStep protocols ip (options { w with nextHeader } length i) = dropped)

/-- The condition under which it does. -/
def OptionsFit (w : Walk) : Prop :=
  w.position.toNat + Ipv6OptionsHeader.optionsOffset < 256 ∧
    ∃ size ∈ w.headerSize, w.position.toNat + size ≤ w.packet.length ∧
      ∀ i, w.OptionStarts i → i < size - Ipv6OptionsHeader.optionsOffset →
        i < (size - Ipv6OptionsHeader.optionsOffset) % 256 ∧ w.OptionFit (UInt8.ofNat i)

/-! ### One round -/

variable {protocols : UInt8 → Bool} {ip : Ipv6Header} {w : Walk} {area : ℕ} {length processedSize : UInt8}

theorem toNat_add_eq_iff {i a b : UInt8} :
    (i + (a + 2)).toNat = i.toNat + (b.toNat + 2) ↔ a = b ∧ i.toNat + b.toNat + 2 < 256 := by
  have hi := i.toNat_lt
  have ha := a.toNat_lt
  have hb := b.toNat_lt
  rw [UInt8.toNat_add, UInt8.toNat_add, ← UInt8.toNat_inj]
  change (i.toNat + (a.toNat + 2) % 256) % 256 = _ ↔ _
  omega

theorem getOption_number {optionType : UInt8} {o : Ipv6Option} (h : Ipv6Option.getOption optionType = some o) :
    o.optionNumber = optionType := by
  have hfound := List.find?_some h
  exact of_decide_eq_true hfound

/-- For an option that is neither known as `Pad1` nor to be discarded, the round should go two octets and its length
further. -/
theorem roundRight_length_iff {optionType : UInt8} {next : Option UInt8} (hlt : processedSize.toNat < area)
    (htype : w.data[processedSize.toNat]? = some optionType) (hdiscard : ¬ MustBeDiscarded optionType)
    (hpad : optionType ≠ Ipv6Option.pad1.optionNumber) :
    RoundRight w area length processedSize
      (next.elim failed fun octet => options w length (processedSize + (octet + 2))) ↔
        ∃ octet ∈ w.data[processedSize.toNat + 1]?, next = some octet ∧
          processedSize.toNat + octet.toNat + 2 < 256 := by
  have hsize : w.optionSize processedSize.toNat = w.data[processedSize.toNat + 1]?.map fun l => l.toNat + 2 := by
    rw [optionSize, htype]
    exact if_neg hpad
  rw [RoundRight, if_pos hlt]
  constructor
  · rintro ⟨optionType', htype', -, hnext⟩
    obtain rfl := Option.some.inj (htype.symm.trans htype')
    obtain ⟨n, i, hn, hi, heq⟩ := hnext hdiscard
    rw [hsize] at hn
    obtain ⟨octet, hoctet, rfl⟩ := Option.map_eq_some_iff.mp hn
    cases next with
    | none => exact absurd heq (by simp)
    | some octet' =>
      obtain ⟨-, -, rfl⟩ := options.inj heq
      obtain ⟨rfl, hend⟩ := toNat_add_eq_iff.mp hi
      exact ⟨octet', hoctet, rfl, hend⟩
  · rintro ⟨octet, hoctet, rfl, hend⟩
    refine ⟨optionType, htype, fun h => absurd h hdiscard, fun _ => ⟨octet.toNat + 2, _, ?_, ?_, rfl⟩⟩
    · rw [hsize, Option.mem_def.mp hoctet, Option.map_some]
    · exact toNat_add_eq_iff.mpr ⟨rfl, hend⟩

theorem match_advance (octet : Option UInt8) :
    (match octet.map fun length => OptionRound.advance (length + 2) with
      | none => failed
      | some .dropped => dropped
      | some (.advance optionLength) => options w length (processedSize + optionLength)) =
        octet.elim failed fun octet => options w length (processedSize + (octet + 2)) := by
  cases octet <;> rfl

theorem process_optionData (o : Ipv6Option) :
    o.process w.packet (w.position + UInt8.ofNat Ipv6OptionsHeader.optionsOffset + processedSize) =
      if o.octetsRead ≤ (w.optionData processedSize).length then
        if o = .pad1 then some 1 else (w.optionData processedSize)[1]?.map (· + 2)
      else none := by
  rw [Ipv6Option.process.eq_def]
  change (if (w.optionData processedSize).length < o.octetsRead then none else _) = _
  by_cases hread : o.octetsRead ≤ (w.optionData processedSize).length
  · rw [if_neg (Nat.not_lt.mpr hread), if_pos hread]
    cases o <;> rfl
  · rw [if_pos (Nat.lt_of_not_le hread), if_neg hread]

theorem not_roundRight_failed (hlt : processedSize.toNat < area) : ¬ RoundRight w area length processedSize failed := by
  rw [RoundRight, if_pos hlt]
  rintro ⟨optionType, -, hdropped, hnext⟩
  by_cases hdiscard : MustBeDiscarded optionType
  · exact absurd (hdropped hdiscard) (by simp)
  · obtain ⟨_, _, -, -, heq⟩ := hnext hdiscard
    exact absurd heq (by simp)

/-- `Pad1` is one octet long. -/
theorem roundRight_pad1 (hlt : processedSize.toNat < area) (hlength : length > processedSize)
    (htype : w.data[processedSize.toNat]? = some Ipv6Option.pad1.optionNumber) :
    RoundRight w area length processedSize (options w length (processedSize + 1)) := by
  have hdiscard : ¬ MustBeDiscarded Ipv6Option.pad1.optionNumber := by decide
  have hnext : (processedSize + 1).toNat = processedSize.toNat + 1 := by
    have hle := length.toNat_lt
    have hgreater := UInt8.lt_iff_toNat_lt.mp hlength
    rw [UInt8.toNat_add]
    change (processedSize.toNat + 1) % 256 = _
    omega
  rw [RoundRight, if_pos hlt]
  refine ⟨_, htype, fun h => absurd h hdiscard, fun _ => ⟨1, _, ?_, hnext, rfl⟩⟩
  rw [optionSize, htype]
  rfl

theorem roundRight_iff (hlt : processedSize.toNat < area) :
    RoundRight w area length processedSize (deliverStep protocols ip (options w length processedSize)) ↔
      length > processedSize ∧ w.OptionFit processedSize := by
  have hround := deliverStep.eq_def protocols ip (options w length processedSize)
  dsimp only at hround
  by_cases hlength : length > processedSize
  swap
  · rw [if_neg hlength] at hround
    refine iff_of_false ?_ fun h => hlength h.1
    rw [RoundRight, if_pos hlt, hround]
    rintro ⟨optionType, -, hdropped, hnext⟩
    by_cases hdiscard : MustBeDiscarded optionType
    · exact absurd (hdropped hdiscard) (by simp)
    · obtain ⟨_, _, -, -, heq⟩ := hnext hdiscard
      exact absurd heq (by simp)
  rw [if_pos hlength, Ipv6Extension.processOption] at hround
  rw [and_iff_right hlength, OptionFit]
  cases htype : w.data[processedSize.toNat]? with
  | none =>
    rw [RoundRight, if_pos hlt, htype]
    refine iff_of_false ?_ id
    rintro ⟨_, h, -⟩
    exact absurd h (by simp)
  | some optionType =>
    rw [show (w.packet.drop (w.position + UInt8.ofNat Ipv6OptionsHeader.optionsOffset).toNat)[processedSize.toNat]? =
      some optionType from htype, Option.bind_eq_bind, Option.bind_some] at hround
    dsimp only
    cases hoption : Ipv6Option.getOption optionType with
    | none =>
      rw [hoption] at hround
      dsimp only at hround ⊢
      by_cases hclass : optionType >>> 6 = 0
      · have hpad : optionType ≠ Ipv6Option.pad1.optionNumber := by
          rintro rfl
          exact absurd hoption (by decide)
        rw [if_pos hclass] at hround
        have hnext := hround.trans (match_advance (w.data[processedSize.toNat + 1]?))
        rw [forall_prop_of_true hclass, hnext, roundRight_length_iff hlt htype (fun h => h.2 hclass) hpad]
        refine exists_congr fun octet => and_congr_right fun hoctet => ?_
        exact and_iff_right hoctet
      · have hdiscard : MustBeDiscarded optionType := ⟨hoption, hclass⟩
        rw [if_neg hclass] at hround
        rw [RoundRight, if_pos hlt, hround]
        exact iff_of_true ⟨optionType, htype, fun _ => rfl, fun h => absurd hdiscard h⟩ fun h => absurd h hclass
    | some ipv6Option =>
      have hdiscard : ¬ MustBeDiscarded optionType := fun h => absurd (hoption.symm.trans h.1) (by simp)
      have hnumber := getOption_number hoption
      rw [hoption] at hround
      dsimp only at hround ⊢
      rw [process_optionData] at hround
      by_cases hread : ipv6Option.octetsRead ≤ (w.optionData processedSize).length
      swap
      · rw [if_neg hread] at hround
        rw [hround]
        exact iff_of_false (not_roundRight_failed hlt) fun h => hread h.1
      rw [if_pos hread] at hround
      rw [and_iff_right hread]
      by_cases hpad : ipv6Option = .pad1
      · subst hpad
        subst hnumber
        rw [if_pos rfl] at hround
        rw [hround]
        exact iff_of_true (roundRight_pad1 hlt hlength htype) fun h => absurd rfl h
      · have hne : optionType ≠ Ipv6Option.pad1.optionNumber := by
          rintro rfl
          exact hpad (Option.some.inj (hoption.symm.trans (by decide)))
        rw [if_neg hpad, Option.map_map] at hround
        have hnext := hround.trans (match_advance _)
        rw [hnext, forall_prop_of_true hpad]
        exact roundRight_length_iff hlt htype hdiscard hne

/-! ### All rounds -/

theorem optionSize_pos {i n : ℕ} (h : w.optionSize i = some n) : 0 < n := by
  rw [optionSize] at h
  split at h
  · exact absurd h (by simp)
  · split_ifs at h
    · cases h
      exact Nat.one_pos
    · obtain ⟨length, -, rfl⟩ := Option.map_eq_some_iff.mp h
      exact Nat.succ_pos _

theorem roundRight_of_fit
    (hfit : ∀ i, w.OptionStarts i → i < area → i < length.toNat ∧ w.OptionFit (UInt8.ofNat i))
    (hlength : length.toNat ≤ area) {i : UInt8} (hstarts : w.OptionStarts i.toNat) :
    RoundRight w area length i (deliverStep protocols ip (options w length i)) := by
  by_cases hlt : i.toNat < area
  · obtain ⟨hless, hfits⟩ := hfit _ hstarts hlt
    rw [UInt8.ofNat_toNat] at hfits
    exact (roundRight_iff hlt).mpr ⟨UInt8.lt_iff_toNat_lt.mpr hless, hfits⟩
  · have hnot : ¬ length > i := by
      intro hgreater
      have hless := UInt8.lt_iff_toNat_lt.mp hgreater
      omega
    rw [RoundRight, if_neg hlt, deliverStep.eq_def]
    dsimp only
    rw [if_neg hnot]
    exact ⟨_, rfl⟩

theorem starts_of_comes
    (hfit : ∀ i, w.OptionStarts i → i < area → i < length.toNat ∧ w.OptionFit (UInt8.ofNat i))
    (hlength : length.toNat ≤ area) {i : UInt8} (hcomes : Comes protocols ip w length i) :
    w.OptionStarts i.toNat := by
  induction hcomes with
  | first => exact .first
  | @round i next _ heq ih =>
    have hright := @roundRight_of_fit protocols ip w area length hfit hlength i ih
    rw [heq, RoundRight] at hright
    split_ifs at hright
    · obtain ⟨optionType, htype, hdropped, hnext⟩ := hright
      by_cases hdiscard : MustBeDiscarded optionType
      · exact absurd (hdropped hdiscard) (by simp)
      · obtain ⟨n, next', hn, htoNat, hoptions⟩ := hnext hdiscard
        obtain ⟨-, -, rfl⟩ := options.inj hoptions
        rw [htoNat]
        exact .next ih htype hdiscard hn
    · obtain ⟨w', hw'⟩ := hright
      exact absurd hw' (by simp)

theorem comes_of_starts
    (hrounds : ∀ i, Comes protocols ip w length i →
      RoundRight w area length i (deliverStep protocols ip (options w length i)))
    {i : ℕ} (hstarts : w.OptionStarts i) (hlt : i < area) :
    i < 256 ∧ Comes protocols ip w length (UInt8.ofNat i) := by
  induction hstarts with
  | first => exact ⟨by decide, .first⟩
  | @next i n optionType _ htype hdiscard hn ih =>
    obtain ⟨hless, hcomes⟩ := ih (by omega)
    have htoNat : (UInt8.ofNat i).toNat = i := by
      rw [UInt8.toNat_ofNat']
      exact Nat.mod_eq_of_lt hless
    have hright := hrounds _ hcomes
    rw [RoundRight, htoNat, if_pos (by omega)] at hright
    obtain ⟨optionType', htype', -, hnext⟩ := hright
    obtain rfl := Option.some.inj (htype.symm.trans htype')
    obtain ⟨n', next, hn', hnext, heq⟩ := hnext hdiscard
    obtain rfl := Option.some.inj (hn.symm.trans hn')
    have hnat : UInt8.ofNat (i + n) = next := by rw [← hnext, UInt8.ofNat_toNat]
    rw [hnat]
    exact ⟨hnext ▸ next.toNat_lt, hcomes.round heq⟩

theorem exists_end
    (hrounds : ∀ i, Comes protocols ip w length i →
      RoundRight w area length i (deliverStep protocols ip (options w length i)))
    {i : UInt8} (hcomes : Comes protocols ip w length i) :
    ∃ j, Comes protocols ip w length j ∧ ((∃ w', deliverStep protocols ip (options w length j) = walk w') ∨
      deliverStep protocols ip (options w length j) = dropped) := by
  induction hleft : 256 - i.toNat using Nat.strongRecOn generalizing i with
  | ind left ih =>
    have hright := hrounds i hcomes
    rw [RoundRight] at hright
    split_ifs at hright
    · obtain ⟨optionType, -, hdropped, hnext⟩ := hright
      by_cases hdiscard : MustBeDiscarded optionType
      · exact ⟨i, hcomes, .inr (hdropped hdiscard)⟩
      · obtain ⟨n, next, hn, htoNat, heq⟩ := hnext hdiscard
        have hpos := optionSize_pos hn
        have hless := next.toNat_lt
        exact ih (256 - next.toNat) (by omega) (hcomes.round heq) rfl
    · exact ⟨i, hcomes, .inl hright⟩

variable {nextHeader : UInt8}

theorem starts_nextHeader {i : ℕ} : ({ w with nextHeader } : Walk).OptionStarts i ↔ w.OptionStarts i := by
  constructor
  · intro h
    induction h with
    | first => exact .first
    | next _ htype hdiscard hn ih => exact .next ih htype hdiscard hn
  · intro h
    induction h with
    | first => exact .first
    | next _ htype hdiscard hn ih => exact .next ih htype hdiscard hn

/-- `ProcessOptions` is reached if the announced area is inside the packet; it gets its length as an octet. -/
theorem processOptionsHeader_iff :
    processOptionsHeader w = options { w with nextHeader } length 0 ↔
      w.packet[w.position.toNat]? = some nextHeader ∧ ∃ size ∈ w.headerSize,
        w.position.toNat + size ≤ w.packet.length ∧
          length = UInt8.ofNat (size - Ipv6OptionsHeader.optionsOffset) := by
  rw [processOptionsHeader]
  cases hremove : removeHeader Ipv6OptionsHeader.deserialize Ipv6OptionsHeader.serializedSize
      (w.packet.drop w.position.toNat) with
  | none =>
    refine iff_of_false (by simp) ?_
    rintro ⟨hnext, size, hsize, hle, -⟩
    obtain ⟨octet, hoctet, rfl⟩ := Option.map_eq_some_iff.mp hsize
    have hsome := removeHeader_iff.mpr ⟨hnext, hoctet, hle⟩
    rw [hremove] at hsome
    exact absurd hsome (by simp)
  | some x =>
    obtain ⟨header, rest⟩ := x
    obtain ⟨hnext, hoctet, hle⟩ := removeHeader_iff.mp (congrArg _ hremove)
    have hsize : w.headerSize = some (getLength header.length) := by
      rw [headerSize, hoctet]
      rfl
    constructor
    · intro heq
      obtain ⟨hw, rfl, -⟩ := options.inj heq
      obtain ⟨-, rfl, -, -⟩ := Walk.mk.inj hw
      exact ⟨hnext, _, hsize, hle, rfl⟩
    · rintro ⟨hnext', size, hsize', -, rfl⟩
      obtain rfl := Option.some.inj (hnext.symm.trans hnext')
      obtain rfl := Option.some.inj (hsize.symm.trans hsize')
      rfl

theorem fit_of_right {size : ℕ} (h : w.OptionsRight protocols ip size nextHeader length) : w.OptionsFit := by
  obtain ⟨hsize, hoffset, hbegins, hrounds, -⟩ := h
  obtain ⟨-, size', hsize', hinside, rfl⟩ := processOptionsHeader_iff.mp hbegins
  obtain rfl := Option.some.inj (hsize.symm.trans hsize')
  refine ⟨hoffset, size, hsize, hinside, fun i hstarts hlt => ?_⟩
  obtain ⟨hless, hcomes⟩ := comes_of_starts hrounds (starts_nextHeader.mpr hstarts) hlt
  have htoNat : (UInt8.ofNat i).toNat = i := by
    rw [UInt8.toNat_ofNat']
    exact Nat.mod_eq_of_lt hless
  obtain ⟨hgreater, hfit⟩ := (roundRight_iff (htoNat.symm ▸ hlt)).mp (hrounds _ hcomes)
  have hend := UInt8.lt_iff_toNat_lt.mp hgreater
  rw [htoNat, UInt8.toNat_ofNat'] at hend
  exact ⟨hend, hfit⟩

theorem right_of_fit (h : w.OptionsFit) :
    ∃ size nextHeader length, w.OptionsRight protocols ip size nextHeader length := by
  obtain ⟨hoffset, size, hsize, hinside, hfit⟩ := h
  have hnext : w.position.toNat < w.packet.length := by
    obtain ⟨octet, hoctet, -⟩ := Option.map_eq_some_iff.mp hsize
    exact Nat.lt_of_succ_lt (List.getElem?_eq_some_iff.mp hoctet).1
  have hlength : (UInt8.ofNat (size - Ipv6OptionsHeader.optionsOffset)).toNat =
      (size - Ipv6OptionsHeader.optionsOffset) % 256 := UInt8.toNat_ofNat'
  have hle : (UInt8.ofNat (size - Ipv6OptionsHeader.optionsOffset)).toNat ≤ size - Ipv6OptionsHeader.optionsOffset := by
    rw [hlength]
    exact Nat.mod_le _ _
  have hfits : ∀ i, OptionStarts { w with nextHeader := w.packet[w.position.toNat] } i →
      i < size - Ipv6OptionsHeader.optionsOffset →
      i < (UInt8.ofNat (size - Ipv6OptionsHeader.optionsOffset)).toNat ∧ w.OptionFit (UInt8.ofNat i) := by
    intro i hstarts hlt
    rw [hlength]
    exact hfit i (starts_nextHeader.mp hstarts) hlt
  have hrounds := fun i hcomes => @roundRight_of_fit protocols ip
    { w with nextHeader := w.packet[w.position.toNat] } _ _ hfits hle i
    (@starts_of_comes protocols ip _ _ _ hfits hle i hcomes)
  exact ⟨size, _, _, hsize, hoffset,
    processOptionsHeader_iff.mpr ⟨List.getElem?_eq_getElem hnext, size, hsize, hinside, rfl⟩, hrounds,
    exists_end hrounds .first⟩

/-- The options of a header are gone over as they should be if and only if they meet the condition. -/
theorem optionsRight_iff (protocols : UInt8 → Bool) (ip : Ipv6Header) (w : Walk) :
    (∃ size nextHeader length, w.OptionsRight protocols ip size nextHeader length) ↔ w.OptionsFit :=
  ⟨fun ⟨_, _, _, h⟩ => fit_of_right h, right_of_fit⟩

/-- A destination header with an option that is not known, whose length is 254. -/
def wrapping : Walk := ⟨[17, 0, 1, 254, 0, 0, 0, 0], Ipv6Header.extDestination, 0, ∅⟩

/-- The loop stays at this option. -/
example (protocols : UInt8 → Bool) (ip : Ipv6Header) :
    deliverStep protocols ip (options wrapping 6 0) = options wrapping 6 0 := rfl

theorem not_optionsRight_wrapping : ¬ ∀ (protocols : UInt8 → Bool) (ip : Ipv6Header) (w : Walk) (size : ℕ),
    w.headerSize = some size → ∃ nextHeader length, w.OptionsRight protocols ip size nextHeader length := by
  intro h
  obtain ⟨nextHeader, length, hright⟩ := h udpOnly (ipHeader Ipv6Header.extDestination) wrapping 8 rfl
  obtain ⟨-, size, hsize, -, hfit⟩ := fit_of_right hright
  obtain rfl : 8 = size := Option.some.inj hsize
  obtain ⟨-, hoption⟩ := hfit 0 .first (by decide)
  obtain ⟨octet, hoctet, hlt⟩ := hoption rfl
  obtain rfl : 254 = octet := Option.some.inj hoctet
  exact absurd hlt (by decide)

end Walk

end Ns3.Ipv6L3Protocol
