import Ns3.Pmip6.MobilityHeaders
import Ns3.Pmip6.OptionCodecs

/-!
# The layout of an option field

`MobilityOptionField::AddOption` (`pmip6/model/ipv6-mobility-header.cc`) pads the field so that an option
begins where its alignment says, and `Serialize` fills the last eight octets up. Whoever reads the
field walks through it from one type to the next by the length octets.

`Items` is that walk, with the octets of each item. `Visits` says what it should meet: the options in their
order, each where its alignment says, and between them padding only.

* `calculatePad_align` — the padding moves the end of the field to a place an alignment allows, for the
  factors that divide the modulus of `uint32_t`.
* `items_addOptions` — the walk through what options leave whose length octets are right.
* `layout_iff` — the layout is right, whatever the offset and the options, exactly if every identifier among them
  leaves room in its length octet; `layout_fails` is one that does not.
-/

namespace Ns3.Pmip6.Wire

open Lib Buffer

/-- What is handed to `AddOption`. -/
inductive AddedOption where
  /-- `Ipv6MobilityOptionPad1Header`. -/
  | pad1
  /-- `Ipv6MobilityOptionPadnHeader (length)`. -/
  | padn (length : UInt8)
  | made (option : MadeOption)

namespace AddedOption

/-- The option as `AddOption` sees it. -/
def header : AddedOption → Ipv6MobilityOptionHeader
  | pad1 => .pad1
  | padn length => .padn length
  | made option => option.header.K.header option.header.header option.header.len_le

/-- Its identifier, if it has one, leaves room in the length octet. -/
def Fits : AddedOption → Prop
  | made option => option.Fits
  | _ => True

theorem factor_dvd (option : AddedOption) :
    0 < option.header.alignment.factor.toNat ∧ option.header.alignment.factor.toNat ∣ 2 ^ 32 := by
  have hfactor : option.header.alignment.factor = 1 ∨ option.header.alignment.factor = 2 ∨
      option.header.alignment.factor = 8 := by
    cases option with
    | made option => cases option <;> first | exact .inl rfl | exact .inr (.inl rfl) | exact .inr (.inr rfl)
    | _ => exact .inl rfl
  rcases hfactor with h | h | h <;> rw [h] <;> decide

end AddedOption

/-! ### Walking from type to type -/

/-- The octets are items one after the other: a zero, or a type, a length and as many octets. -/
inductive Items : List UInt8 → List (List UInt8) → Prop where
  | done : Items [] []
  | pad1 {rest : List UInt8} {items : List (List UInt8)} : Items rest items → Items (0 :: rest) ([0] :: items)
  | item {type len : UInt8} {body rest : List UInt8} {items : List (List UInt8)} :
      type ≠ 0 → body.length = len.toNat → Items rest items →
      Items (type :: len :: body ++ rest) ((type :: len :: body) :: items)

variable {items : List (List UInt8)} {body : List UInt8} {type len : UInt8}

/-- The item that begins with a type. -/
theorem Items.of_cons (h : Items (type :: len :: body) items) (hne : type ≠ 0) :
    ∃ body' rest items', body = body' ++ rest ∧ body'.length = len.toNat ∧
      items = (type :: len :: body') :: items' ∧ Items rest items' := by
  generalize hbytes : type :: len :: body = bytes at h
  cases h with
  | done => cases hbytes
  | pad1 _ => exact absurd (List.cons.inj hbytes).1 hne
  | item _ hlen hrest =>
    obtain ⟨htype, htail⟩ := List.cons.inj hbytes
    obtain ⟨hlength, hbody⟩ := List.cons.inj htail
    rw [htype, hlength]
    exact ⟨_, _, _, hbody, hlen, rfl, hrest⟩

theorem Items.append {bytes bytes' : List UInt8} {items items' : List (List UInt8)} (h : Items bytes items)
    (h' : Items bytes' items') : Items (bytes ++ bytes') (items ++ items') := by
  induction h with
  | done => exact h'
  | pad1 _ ih => exact .pad1 ih
  | item hne hlen _ ih =>
    rw [List.append_assoc]
    exact .item hne hlen ih

/-- An item whose length octet is right. -/
def Framed (item : List UInt8) : Prop := Items item [item]

theorem framed_cons (hne : type ≠ 0) (hlen : body.length = len.toNat) : Framed (type :: len :: body) := by
  have h := Items.item hne hlen .done
  rwa [List.append_nil] at h

theorem Items.framed {bytes item : List UInt8} (h : Items bytes items) (hmem : item ∈ items) : Framed item := by
  induction h with
  | done => exact absurd hmem List.not_mem_nil
  | pad1 _ ih =>
    rcases List.mem_cons.mp hmem with rfl | hmem
    · exact .pad1 .done
    · exact ih hmem
  | item hne hlen _ ih =>
    rcases List.mem_cons.mp hmem with rfl | hmem
    · exact framed_cons hne hlen
    · exact ih hmem

theorem Framed.length (h : Framed (type :: len :: body)) (hne : type ≠ 0) : body.length = len.toNat := by
  obtain ⟨body', rest, items, -, hlen, hitems, -⟩ := Items.of_cons h hne
  obtain ⟨hitem, -⟩ := List.cons.inj hitems
  obtain ⟨-, hbody⟩ := List.cons.inj (List.cons.inj hitem).2
  rw [hbody]
  exact hlen

/-- A zero, or an item of type 1. -/
def IsPad (item : List UInt8) : Prop := item = [0] ∨ item.head? = some 1

/-- From the offset `p` of the message on, the walk visits the options in their order, each where its alignment
says, and nothing else but padding. -/
inductive Visits : ℕ → List (List UInt8) → List AddedOption → Prop where
  | done {p : ℕ} : Visits p [] []
  | pad {p : ℕ} {item : List UInt8} {items : List (List UInt8)} {options : List AddedOption} :
      IsPad item → Visits (p + item.length) items options → Visits p (item :: items) options
  | option {p : ℕ} {option : AddedOption} {items : List (List UInt8)} {options : List AddedOption} :
      p % option.header.alignment.factor.toNat =
        option.header.alignment.offset.toNat % option.header.alignment.factor.toNat →
      Visits (p + option.header.serialize.length) items options →
      Visits p (option.header.serialize :: items) (option :: options)

variable {options : List AddedOption} {option : AddedOption}

theorem Visits.mem {p : ℕ} (h : Visits p items options) (hmem : option ∈ options) :
    option.header.serialize ∈ items := by
  induction h with
  | done => exact absurd hmem List.not_mem_nil
  | pad _ _ ih => exact List.mem_cons_of_mem _ (ih hmem)
  | option _ _ ih =>
    rcases List.mem_cons.mp hmem with rfl | hmem
    · exact List.mem_cons_self
    · exact List.mem_cons_of_mem _ (ih hmem)

theorem visits_pads {p : ℕ} {pads items : List (List UInt8)} (hpads : ∀ pad ∈ pads, IsPad pad)
    (h : Visits (p + pads.flatten.length) items options) : Visits p (pads ++ items) options := by
  induction pads generalizing p with
  | nil => exact h
  | cons pad pads ih =>
    refine .pad (hpads pad List.mem_cons_self) (ih (fun x hx => hpads x (List.mem_cons_of_mem _ hx)) ?_)
    rw [List.flatten_cons, List.length_append, ← Nat.add_assoc] at h
    exact h

theorem Visits.append_pads {p : ℕ} {pads items : List (List UInt8)} (h : Visits p items options)
    (hpads : ∀ pad ∈ pads, IsPad pad) : Visits p (items ++ pads) options := by
  induction h with
  | @done p =>
    have hnil := visits_pads (p := p) hpads .done
    rwa [List.append_nil] at hnil
  | pad hpad _ ih => exact .pad hpad ih
  | option halign _ ih => exact .option halign ih

/-! ### Adding options -/

namespace MobilityOptionField

variable {o : ℕ}

/-- The padding puts the end of the field where the alignment says: the differences wrap around at a multiple of
the factor. -/
theorem calculatePad_aligns (f : MobilityOptionField o) {alignment : Alignment}
    (hdvd : alignment.factor.toNat ∣ 2 ^ 32) :
    (o + f.optionData.length + f.calculatePad alignment) % alignment.factor.toNat =
      alignment.offset.toNat % alignment.factor.toNat := by
  have hpad : (f.calculatePad alignment) % alignment.factor.toNat =
      (alignment.offset.toNat + 2 ^ 32 - (f.optionData.length + o) % 2 ^ 32) % alignment.factor.toNat := by
    rw [calculatePad, Nat.mod_mod, Nat.mod_mod_of_dvd _ hdvd]
  obtain ⟨k, hk⟩ := hdvd
  have hdiv := Nat.div_add_mod (f.optionData.length + o) (2 ^ 32)
  have hlt := Nat.mod_lt (f.optionData.length + o) (show 0 < 2 ^ 32 by decide)
  -- the sum is the offset and a multiple of the modulus
  have hsum : o + f.optionData.length +
      (alignment.offset.toNat + 2 ^ 32 - (f.optionData.length + o) % 2 ^ 32) =
        alignment.offset.toNat + 2 ^ 32 * ((f.optionData.length + o) / 2 ^ 32 + 1) := by
    rw [Nat.mul_add]
    omega
  rw [Nat.add_mod, hpad, ← Nat.add_mod, hsum, hk, Nat.mul_assoc, Nat.add_mul_mod_self_left]

/-- The octets of the padding are items. -/
theorem items_padding {pad : ℕ} (h : pad < 256) :
    ∃ pads, Items ((padding pad).flatMap Ipv6MobilityOptionHeader.serialize) pads ∧
      (∀ x ∈ pads, IsPad x) ∧ pads.flatten.length = pad := by
  match pad with
  | 0 => exact ⟨[], .done, fun x hx => absurd hx List.not_mem_nil, rfl⟩
  | 1 =>
    refine ⟨[[0]], .pad1 .done, fun x hx => ?_, rfl⟩
    rw [List.mem_singleton.mp hx]
    exact .inl rfl
  | pad + 2 =>
    have hlen : (List.replicate (UInt8.ofNat (pad + 2) - 2).toNat (0 : UInt8)).length =
        (UInt8.ofNat (pad + 2) - 2).toNat := List.length_replicate
    have hoctets : (padding (pad + 2)).flatMap Ipv6MobilityOptionHeader.serialize =
        1 :: (UInt8.ofNat (pad + 2) - 2) :: List.replicate (UInt8.ofNat (pad + 2) - 2).toNat 0 :=
      List.append_nil _
    refine ⟨[(padding (pad + 2)).flatMap Ipv6MobilityOptionHeader.serialize], ?_, fun x hx => ?_, ?_⟩
    · rw [hoctets]
      exact framed_cons (show (1 : UInt8) ≠ 0 by decide) hlen
    · rw [List.mem_singleton.mp hx, hoctets]
      exact .inr rfl
    · rw [List.flatten_cons, List.flatten_nil, List.append_nil]
      exact length_padding h

/-- The padding writes as many octets as it reserves. -/
theorem optionData_foldl_padding (f : MobilityOptionField o) (pad : ℕ) :
    ((padding pad).foldl append f).optionData =
      f.optionData ++ (padding pad).flatMap Ipv6MobilityOptionHeader.serialize := by
  have happend : ∀ option : Ipv6MobilityOptionHeader, option.serializedSize = option.serialize.length →
      (f.append option).optionData = f.optionData ++ option.serialize := by
    intro option hsize
    rw [append, hsize, List.take_length]
  match pad with
  | 0 => exact (List.append_nil _).symm
  | 1 => exact happend .pad1 rfl
  | pad + 2 =>
    refine (happend (.padn _) ?_).trans (congrArg _ (List.append_nil _).symm)
    simp [Ipv6MobilityOptionHeader.padn, OptionClass.header, OptionClass.serialize, Wire.padn,
      OptionHeader.getSerializedSize]

end MobilityOptionField

/-- The octets of an option that fits are one item, and are all reserved. -/
theorem AddedOption.framed_of_fits (h : option.Fits) :
    Framed option.header.serialize ∧ option.header.serializedSize = option.header.serialize.length := by
  cases option with
  | pad1 => exact ⟨.pad1 .done, rfl⟩
  | padn length =>
    refine ⟨framed_cons (show (1 : UInt8) ≠ 0 by decide) List.length_replicate, ?_⟩
    simp [header, Ipv6MobilityOptionHeader.padn, OptionClass.header, OptionClass.serialize, Wire.padn,
      OptionHeader.getSerializedSize]
  | made option =>
    have hsize : (option.header.K.serialize option.header.header).length =
        option.header.header.getSerializedSize := MadeOption.size_of_fits h
    refine ⟨framed_cons ?_ ?_, hsize.symm⟩
    · cases option <;> exact of_decide_eq_true rfl
    · rw [OptionClass.serialize, List.length_cons, List.length_cons, OptionHeader.getSerializedSize] at hsize
      exact Nat.succ.inj (Nat.succ.inj hsize)

theorem AddedOption.fits_of_framed (h : Framed option.header.serialize) : option.Fits := by
  cases option with
  | made option =>
    show option.Fits
    by_contra hno
    have hsize := MadeOption.size_ne_of_not_fits hno
    have hne : option.header.header.type ≠ 0 := by
      cases option <;> exact of_decide_eq_true rfl
    have hlen := h.length hne
    rw [OptionClass.serialize, List.length_cons, List.length_cons, hlen, OptionHeader.getSerializedSize] at hsize
    omega
  | _ => trivial

/-- The walk through what options that fit leave behind the octets that were there before. -/
theorem items_addOptions {o : ℕ} (f : MobilityOptionField o) (h : ∀ option ∈ options, option.Fits) :
    ∃ octets items, ((options.map AddedOption.header).foldl MobilityOptionField.addOption f).optionData =
        f.optionData ++ octets ∧
      Items octets items ∧ Visits (o + f.optionData.length) items options := by
  induction options generalizing f with
  | nil => exact ⟨[], [], (List.append_nil _).symm, .done, .done⟩
  | cons option options ih =>
    obtain ⟨hframed, hsize⟩ := AddedOption.framed_of_fits (h option List.mem_cons_self)
    obtain ⟨hpos, hdvd⟩ := option.factor_dvd
    have hpad : f.calculatePad option.header.alignment < 256 :=
      Nat.lt_trans (Nat.mod_lt _ hpos) option.header.alignment.factor.toNat_lt
    obtain ⟨pads, hpads, hispad, hlen⟩ := MobilityOptionField.items_padding hpad
    obtain ⟨octets, items, hdata, hitems, hvisits⟩ :=
      ih (f.addOption option.header) fun x hx => h x (List.mem_cons_of_mem _ hx)
    have hadd : (f.addOption option.header).optionData = f.optionData ++
        ((MobilityOptionField.padding (f.calculatePad option.header.alignment)).flatMap
          Ipv6MobilityOptionHeader.serialize ++ option.header.serialize) := by
      rw [MobilityOptionField.addOption, MobilityOptionField.append, hsize, List.take_length,
        MobilityOptionField.optionData_foldl_padding, List.append_assoc]
    have hwidth := MobilityOptionField.length_padding hpad
    refine ⟨(MobilityOptionField.padding (f.calculatePad option.header.alignment)).flatMap
      Ipv6MobilityOptionHeader.serialize ++ (option.header.serialize ++ octets),
      pads ++ option.header.serialize :: items, ?_, ?_, ?_⟩
    · rw [List.map_cons, List.foldl_cons, hdata, hadd, List.append_assoc, List.append_assoc]
    · exact hpads.append (hframed.append hitems)
    · refine visits_pads hispad (.option ?_ ?_)
      · rw [hlen]
        exact f.calculatePad_aligns hdvd
      · rw [hadd, List.length_append, List.length_append, hwidth] at hvisits
        rw [hlen, Nat.add_assoc, Nat.add_assoc]
        exact hvisits

/-! ### The layout -/

/-- The field with an offset to which options were added. -/
def fieldOf (o : ℕ) (options : List AddedOption) : MobilityOptionField o :=
  (options.map AddedOption.header).foldl MobilityOptionField.addOption {}

/-- The layout of a field: it fills its last eight octets, and the walk through its octets visits the options that
were added, in their order and where they should be, and padding. -/
structure Layout (o : ℕ) (options : List AddedOption) : Prop where
  /-- The field ends at a multiple of eight octets. -/
  multiple : (o + (fieldOf o options).serialize.length) % 8 = 0
  visited : ∃ items, Items (fieldOf o options).serialize items ∧ Visits o items options

theorem multiple_serialize (o : ℕ) (options : List AddedOption) :
    (o + (fieldOf o options).serialize.length) % 8 = 0 := by
  rw [MobilityOptionField.length_serialize]
  exact (fieldOf o options).getSerializedSize_mod

theorem Layout.fits {o : ℕ} (h : Layout o options) : ∀ option ∈ options, option.Fits := by
  obtain ⟨items, hitems, hvisits⟩ := h.visited
  exact fun option hmem => AddedOption.fits_of_framed (hitems.framed (hvisits.mem hmem))

/-- For every offset and every sequence of options, the layout is right if and only if every identifier of a mobile
node or of its link leaves room in its length octet. -/
theorem layout_iff (o : ℕ) (options : List AddedOption) :
    Layout o options ↔ ∀ option ∈ options, option.Fits := by
  constructor
  · exact Layout.fits
  · intro h
    obtain ⟨octets, items, hdata, hitems, hvisits⟩ := items_addOptions ({} : MobilityOptionField o) h
    have hfill : (fieldOf o options).calculatePad ⟨8, 0⟩ < 256 :=
      Nat.lt_trans ((fieldOf o options).calculatePad_eight_lt 0) (by decide)
    obtain ⟨pads, hpads, hispad, -⟩ := MobilityOptionField.items_padding hfill
    refine ⟨multiple_serialize o options, items ++ pads, ?_, hvisits.append_pads hispad⟩
    rw [MobilityOptionField.serialize]
    refine Items.append ?_ hpads
    rw [fieldOf, hdata]
    exact hitems

/-- The length octet of the longest identifier of a mobile node is zero. -/
theorem layout_fails : ¬ ∀ (o : ℕ) (options : List AddedOption), Layout o options := by
  intro h
  have hfits : MadeOption.longest.octets.length ≤ 254 :=
    (h 12 [.made (.mobileNodeIdentifier 1 MadeOption.longest)]).fits _ List.mem_cons_self
  have hlen : MadeOption.longest.octets.length = 255 := List.length_replicate
  omega

end Ns3.Pmip6.Wire
