import Ns3.Lib.Store
import Ns3.Network.Address
import Mathlib.Data.List.Chain
import Mathlib.Data.Finset.Card

/-!
# Path errors of HWMP

When destinations cannot be reached any more, their paths are deleted and those who sent along them are told, in
elements that list the destinations. The precursors of the paths are collected in a vector, which is searched for
duplicates while they are erased from it, and one element object is filled again when it is full.

* `removeDuplicates_iff` — which vectors the search leaves with each precursor once.
* `forwardPerr_iff` — which lists of destinations the elements contain.
* `losesNothing_iff` — both.
-/

namespace Ns3.Dot11s

open Lib

/-! ### The routing table -/

/-- A destination that cannot be reached. -/
structure FailedDestination where
  destination : Mac48Address
  seqnum : UInt32
  deriving DecidableEq

/-- A station that sends through this one to the destination. -/
structure Precursor where
  address : Mac48Address
  interface : UInt32
  whenExpire : ℤ

/-- A path that was asked for. -/
structure ReactiveRoute where
  retransmitter : Mac48Address
  interface : UInt32
  metric : UInt32
  whenExpire : ℤ
  seqnum : UInt32
  precursors : List Precursor

/-- The path to the root. -/
structure ProactiveRoute extends ReactiveRoute where
  root : Mac48Address

/-- The paths of a station. -/
structure HwmpRtable where
  routes : Store Mac48Address ReactiveRoute
  root : ProactiveRoute

/-- The receivers of path errors, with their interfaces. -/
abbrev PrecursorList := List (UInt32 × Mac48Address)

namespace HwmpRtable

variable (now : ℤ) (t : HwmpRtable)

/-- The precursors whose time is not over. -/
def getPrecursors (destination : Mac48Address) : PrecursorList :=
  match t.routes.lookup destination with
  | none => []
  | some route => (route.precursors.filter fun p => p.whenExpire > now).map fun p => (p.interface, p.address)

/-- The path is removed. -/
def deleteReactivePath (destination : Mac48Address) : HwmpRtable :=
  { t with routes := t.routes.erase destination }

/-- `DeleteProactivePath ()`, what it leaves of `m_root`. -/
def noRoot : ProactiveRoute where
  root := t.root.root
  retransmitter := ⟨Vector.replicate 6 255⟩
  interface := 0xffffffff
  metric := 0xffffffff
  whenExpire := now
  seqnum := 0
  precursors := []

/-- The path to the root is removed, if it is this one. -/
def deleteProactivePath (root : Mac48Address) : HwmpRtable :=
  if t.root.root = root then { t with root := t.noRoot now } else t

end HwmpRtable

/-- Which destinations failed, and who is told. -/
structure PathError where
  destinations : List FailedDestination
  receivers : PrecursorList

/-- `DeleteReactivePath` and `DeleteProactivePath`. -/
def HwmpRtable.deletePaths (now : ℤ) (t : HwmpRtable) (destination : Mac48Address) : HwmpRtable :=
  (t.deleteReactivePath destination).deleteProactivePath now destination

/-- The first loop of `GetPerrReceivers`: the precursors of all the paths, which are deleted. -/
def collectPrecursors (now : ℤ) : List FailedDestination → HwmpRtable → PrecursorList × HwmpRtable
  | [], t => ([], t)
  | d :: failedDest, t =>
    let precursors := t.getPrecursors now d.destination
    let (retval, t) := collectPrecursors now failedDest (t.deletePaths now d.destination)
    (precursors ++ retval, t)

/-- The inner loop of the search for duplicates. The index goes on after an element was erased, past the one that has
taken its place. -/
def eraseAddress (address : Mac48Address) : PrecursorList → PrecursorList
  | [] => []
  | [r] => if address = r.2 then [] else [r]
  | r :: next :: retval =>
    if address = r.2 then next :: eraseAddress address retval else r :: eraseAddress address (next :: retval)

theorem length_eraseAddress_le (address : Mac48Address) (l : PrecursorList) :
    (eraseAddress address l).length ≤ l.length := by
  fun_induction eraseAddress address l with
  | case1 => exact Nat.le_refl _
  | case2 => exact Nat.zero_le _
  | case3 => exact Nat.le_refl _
  | case4 _ _ _ _ ih => exact Nat.succ_le_succ (Nat.le_succ_of_le ih)
  | case5 _ _ _ _ ih => exact Nat.succ_le_succ ih

/-- The search for duplicates of `GetPerrReceivers`. -/
def removeDuplicates : PrecursorList → PrecursorList
  | [] => []
  | r :: retval => r :: removeDuplicates (eraseAddress r.2 retval)
  termination_by l => l.length
  decreasing_by exact Nat.lt_succ_of_le (length_eraseAddress_le _ _)

/-- The precursors of the failed destinations, without duplicates. -/
def getPerrReceivers (now : ℤ) (failedDest : List FailedDestination) (t : HwmpRtable) : PrecursorList × HwmpRtable :=
  let (retval, t) := collectPrecursors now failedDest t
  (removeDuplicates retval, t)

/-- The path error; the paths are removed if somebody is told. -/
def makePathError (now : ℤ) (destinations : List FailedDestination) (t : HwmpRtable) : PathError × HwmpRtable :=
  let (receivers, t) := getPerrReceivers now destinations t
  if receivers.length = 0 then (⟨[], receivers⟩, t)
  else (⟨destinations, receivers⟩, destinations.foldl (fun t d => t.deleteReactivePath d.destination) t)

/-! ### Elements -/

/-- An element with failed destinations. -/
structure IePerr where
  addressUnits : List FailedDestination
  deriving DecidableEq

namespace IePerr

variable (perr : IePerr)

/-- `GetInformationFieldSize`, in a `uint8_t`. -/
def getInformationFieldSize : UInt8 := UInt8.ofNat (1 + 1 + (6 + 4) * perr.addressUnits.length)

/-- A destination is added, unless it is there or there is no room. -/
def addAddressUnit (unit : FailedDestination) : IePerr :=
  if ∃ u ∈ perr.addressUnits, u.destination = unit.destination then perr
  else if (perr.addressUnits.length + 1) * 10 + 2 > 255 then perr
  else ⟨perr.addressUnits ++ [unit]⟩

/-- There is no room for a destination. -/
def IsFull : Prop := perr.getInformationFieldSize.toNat + 2 + 10 > 255
deriving Decidable

end IePerr

/-- What `ForwardPerr` fills. -/
structure PerrElements where
  /-- `perr`, the one element that there is. -/
  perr : IePerr
  /-- How often `elements` points to it. -/
  elements : ℕ

namespace PerrElements

variable (s : PerrElements)

/-- `AddInformationElement`. At most 1500 octets go into a frame. -/
def addInformationElement : PerrElements :=
  let size := s.perr.getInformationFieldSize.toNat + 2
  if size + s.elements * size > 1500 then s else { s with elements := s.elements + 1 }

/-- The body of the loop of `ForwardPerr`. -/
def forward (d : FailedDestination) : PerrElements :=
  if ¬ s.perr.IsFull then { s with perr := s.perr.addAddressUnit d }
  else { s.addInformationElement with perr := ⟨[]⟩ }

end PerrElements

/-- `ForwardPerr`: the elements of the packet. -/
def forwardPerr (failedDestinations : List FailedDestination) : List IePerr :=
  let s := failedDestinations.foldl PerrElements.forward ⟨⟨[]⟩, 0⟩
  let s := if s.perr.addressUnits.length > 0 then s.addInformationElement else s
  List.replicate s.elements s.perr

/-! ### Duplicates -/

/-- An interface is known by its address. -/
def OneInterface (l : PrecursorList) : Prop := ∀ p ∈ l, ∀ q ∈ l, p.2 = q.2 → p = q

/-- No two elements that follow each other have the address. -/
def Apart (address : Mac48Address) (l : PrecursorList) : Prop :=
  l.IsChain fun p q => ¬ (p.2 = address ∧ q.2 = address)

/-- The precursors with another address. -/
def others (address : Mac48Address) (l : PrecursorList) : PrecursorList := l.filter fun p => p.2 ≠ address

theorem others_cons (r : UInt32 × Mac48Address) (address : Mac48Address) (l : PrecursorList) :
    others address (r :: l) = if r.2 = address then others address l else r :: others address l := by
  by_cases hr : r.2 = address <;> simp [others, hr]

/-- Behind the first element with an address, no two that follow each other have it again, those left out whose address
came before. -/
def Sparse : PrecursorList → Prop
  | [] => True
  | r :: l => Apart r.2 l ∧ Sparse (others r.2 l)
  termination_by l => l.length
  decreasing_by exact Nat.lt_succ_of_le (List.length_filter_le _ _)

variable {address : Mac48Address} {l : PrecursorList} {r : UInt32 × Mac48Address}

theorem forall_eraseAddress_iff (address : Mac48Address) (l : PrecursorList) :
    (∀ r ∈ eraseAddress address l, r.2 ≠ address) ↔ Apart address l := by
  fun_induction eraseAddress address l with
  | case1 => simp [Apart]
  | case2 => simp [Apart]
  | case3 r hr => simpa [Apart] using Ne.symm hr
  | case4 r next l hr ih =>
    -- `next` is not compared, so it must not have the address
    rw [List.forall_mem_cons, ih, Apart, Apart, List.isChain_cons_cons, List.isChain_cons]
    constructor
    · rintro ⟨hnext, hl⟩
      exact ⟨fun h => hnext h.2, fun _ _ h => hnext h.1, hl⟩
    · rintro ⟨hnext, -, hl⟩
      exact ⟨fun h => hnext ⟨hr.symm, h⟩, hl⟩
  | case5 r next l hr ih =>
    rw [List.forall_mem_cons, ih, Apart, Apart, List.isChain_cons_cons]
    exact and_congr_left' (iff_of_true (fun h => hr h.symm) fun h => hr h.1.symm)

theorem others_eraseAddress (address : Mac48Address) (l : PrecursorList) :
    others address (eraseAddress address l) = others address l := by
  fun_induction eraseAddress address l with
  | case1 => rfl
  | case2 r hr => rw [others_cons, if_pos hr.symm]
  | case3 => rfl
  | case4 r next l hr ih => rw [others_cons, others_cons r, if_pos hr.symm, others_cons, ih]
  | case5 r next l hr ih => rw [others_cons, others_cons r, ih]

theorem eraseAddress_of_apart (h : Apart address l) : eraseAddress address l = others address l := by
  rw [← others_eraseAddress, others, List.filter_eq_self.mpr]
  exact fun r hr => decide_eq_true ((forall_eraseAddress_iff address l).mpr h r hr)

theorem eraseAddress_subset (address : Mac48Address) (l : PrecursorList) : eraseAddress address l ⊆ l := by
  fun_induction eraseAddress address l with
  | case1 => exact List.Subset.refl _
  | case2 => exact List.nil_subset _
  | case3 => exact List.Subset.refl _
  | case4 r next l hr ih => exact List.subset_cons_of_subset r (List.cons_subset_cons next ih)
  | case5 r next l hr ih => exact List.cons_subset_cons r ih

theorem mem_removeDuplicates_iff (h : OneInterface l) : r ∈ removeDuplicates l ↔ r ∈ l := by
  fun_induction removeDuplicates l with
  | case1 => rfl
  | case2 p l ih =>
    have hsub := eraseAddress_subset p.2 l
    have hl := ih fun a ha b hb => h a (.tail _ (hsub ha)) b (.tail _ (hsub hb))
    rw [List.mem_cons, List.mem_cons, hl]
    refine or_congr_right' fun hne => ⟨fun hr => hsub hr, fun hr => ?_⟩
    have haddress : r.2 ≠ p.2 := fun heq => hne (h r (.tail _ hr) p (.head _) heq)
    have hothers : r ∈ others p.2 l := List.mem_filter.mpr ⟨hr, decide_eq_true haddress⟩
    rw [← others_eraseAddress] at hothers
    exact (List.mem_filter.mp hothers).1

theorem nodup_removeDuplicates_iff (h : OneInterface l) : (removeDuplicates l).Nodup ↔ Sparse l := by
  fun_induction removeDuplicates l with
  | case1 => simp [Sparse]
  | case2 p l ih =>
    have hsub := eraseAddress_subset p.2 l
    have hone : OneInterface (eraseAddress p.2 l) := fun a ha b hb => h a (.tail _ (hsub ha)) b (.tail _ (hsub hb))
    have hapart : p ∉ removeDuplicates (eraseAddress p.2 l) ↔ Apart p.2 l := by
      rw [mem_removeDuplicates_iff hone, ← forall_eraseAddress_iff]
      refine ⟨fun hp r hr heq => hp ?_, fun hall hp => hall p hp rfl⟩
      exact h r (.tail _ (hsub hr)) p (.head _) heq ▸ hr
    rw [List.nodup_cons, hapart, ih hone, Sparse]
    exact and_congr_right fun hp => by rw [eraseAddress_of_apart hp]

/-! ### Paths -/

namespace HwmpRtable

variable {now : ℤ} {t : HwmpRtable} {a b : Mac48Address} {failedDest : List FailedDestination}

/-- There is no path to the destination. -/
def NoPath (now : ℤ) (t : HwmpRtable) (a : Mac48Address) : Prop :=
  t.routes.lookup a = none ∧ (t.root.root = a → t.root = t.noRoot now)

theorem noPath_deletePaths (t : HwmpRtable) (a : Mac48Address) : NoPath now (t.deletePaths now a) a := by
  unfold deletePaths deleteProactivePath deleteReactivePath
  split_ifs with hroot
  · exact ⟨AList.lookup_erase a t.routes, fun _ => rfl⟩
  · exact ⟨AList.lookup_erase a t.routes, fun h => absurd h hroot⟩

theorem NoPath.erase (h : NoPath now t a) : NoPath now (t.deleteReactivePath b) a := by
  refine ⟨?_, h.2⟩
  by_cases hab : a = b
  · subst hab
    exact AList.lookup_erase a t.routes
  · exact (AList.lookup_erase_ne hab).trans h.1

theorem NoPath.deletePaths (h : NoPath now t a) : NoPath now (t.deletePaths now b) a := by
  have herase : NoPath now (t.deleteReactivePath b) a := h.erase
  unfold HwmpRtable.deletePaths deleteProactivePath
  split_ifs
  · exact ⟨herase.1, fun _ => rfl⟩
  · exact herase

theorem NoPath.collect (h : NoPath now t a) : NoPath now (collectPrecursors now failedDest t).2 a := by
  induction failedDest generalizing t with
  | nil => exact h
  | cons d failedDest ih => exact ih h.deletePaths

theorem noPath_collect {d : FailedDestination} (hd : d ∈ failedDest) :
    NoPath now (collectPrecursors now failedDest t).2 d.destination := by
  induction failedDest generalizing t with
  | nil => cases hd
  | cons e failedDest ih =>
    rcases List.mem_cons.mp hd with rfl | hd
    · exact (noPath_deletePaths t d.destination).collect
    · exact ih hd

theorem getPrecursors_deletePaths (t : HwmpRtable) (a b : Mac48Address) :
    (t.deletePaths now b).getPrecursors now a = if a = b then [] else t.getPrecursors now a := by
  have hroutes : (t.deletePaths now b).routes = t.routes.erase b := by
    unfold deletePaths deleteProactivePath
    split_ifs <;> rfl
  unfold getPrecursors
  rw [hroutes]
  split_ifs with hab
  · rw [hab, AList.lookup_erase]
  · rw [AList.lookup_erase_ne hab]

theorem mem_collect {r : UInt32 × Mac48Address} :
    r ∈ (collectPrecursors now failedDest t).1 ↔ ∃ d ∈ failedDest, r ∈ t.getPrecursors now d.destination := by
  induction failedDest generalizing t with
  | nil => simp [collectPrecursors]
  | cons e failedDest ih =>
    change r ∈ _ ++ (collectPrecursors now failedDest (t.deletePaths now e.destination)).1 ↔ _
    rw [List.mem_append, ih, List.exists_mem_cons_iff]
    refine or_congr_right' fun hne => exists_congr fun d => and_congr_right fun _ => ?_
    rw [getPrecursors_deletePaths]
    split_ifs with hd
    · rw [hd]
      exact iff_of_false List.not_mem_nil hne
    · rfl

end HwmpRtable

/-! ### Filling the element -/

namespace PerrElements

variable {s : PerrElements} {d : FailedDestination} {l : List FailedDestination}

/-- The destinations of a list. -/
def addresses (l : List FailedDestination) : Finset Mac48Address := (l.map (·.destination)).toFinset

/-- No more than 25 destinations, and the last one of them at the end. -/
def Fits (l : List FailedDestination) : Prop := (addresses l.dropLast).card < 25
deriving Decidable

/-- The element lists the destinations so far, each once. -/
structure Lists (l : List FailedDestination) (s : PerrElements) : Prop where
  elements : s.elements = 0
  nodup : (s.perr.addressUnits.map (·.destination)).Nodup
  addresses : addresses s.perr.addressUnits = addresses l

theorem isFull_iff (h : s.perr.addressUnits.length ≤ 25) : s.perr.IsFull ↔ s.perr.addressUnits.length = 25 := by
  have hlt : 1 + 1 + (6 + 4) * s.perr.addressUnits.length < 2 ^ 8 := by omega
  rw [IePerr.IsFull, IePerr.getInformationFieldSize, UInt8.toNat_ofNat', Nat.mod_eq_of_lt hlt]
  omega

theorem length_addAddressUnit_le {perr : IePerr} (h : perr.addressUnits.length ≤ 25) :
    (perr.addAddressUnit d).addressUnits.length ≤ 25 := by
  unfold IePerr.addAddressUnit
  split_ifs with hmem hlen
  · exact h
  · exact h
  · rw [List.length_append, List.length_singleton]
    omega

/-- What the loop of `ForwardPerr` leaves. -/
def filled (l : List FailedDestination) : PerrElements := l.foldl forward ⟨⟨[]⟩, 0⟩

theorem filled_snoc (l : List FailedDestination) (d : FailedDestination) :
    filled (l ++ [d]) = (filled l).forward d := by
  rw [filled, List.foldl_append]
  rfl

theorem length_filled_le (l : List FailedDestination) : (filled l).perr.addressUnits.length ≤ 25 := by
  induction l using List.reverseRecOn with
  | nil => exact Nat.zero_le _
  | append_singleton l d ih =>
    rw [filled_snoc, forward]
    split_ifs
    · exact Nat.zero_le _
    · exact length_addAddressUnit_le ih

theorem Lists.length (h : Lists l s) : s.perr.addressUnits.length = (PerrElements.addresses l).card := by
  rw [← h.addresses, PerrElements.addresses, List.toFinset_card_of_nodup h.nodup, List.length_map]

theorem addresses_snoc (l : List FailedDestination) (d : FailedDestination) :
    addresses (l ++ [d]) = insert d.destination (addresses l) := by
  ext a
  simp [addresses]

theorem Lists.forward (h : Lists l s) (hlt : (PerrElements.addresses l).card < 25) :
    Lists (l ++ [d]) (s.forward d) := by
  have hlength := h.length
  have hfull : ¬ s.perr.IsFull := by
    rw [isFull_iff (by omega)]
    omega
  rw [PerrElements.forward, if_pos hfull, IePerr.addAddressUnit]
  have hmem :
      (∃ u ∈ s.perr.addressUnits, u.destination = d.destination) ↔ d.destination ∈ PerrElements.addresses l := by
    rw [← h.addresses]
    simp [PerrElements.addresses]
  split_ifs with hin hlen
  · exact ⟨h.elements, h.nodup, by rw [addresses_snoc, Finset.insert_eq_of_mem (hmem.mp hin)]; exact h.addresses⟩
  · omega
  · refine ⟨h.elements, ?_, by rw [addresses_snoc, addresses_snoc, h.addresses]⟩
    rw [List.map_append, List.map_singleton, List.nodup_append]
    refine ⟨h.nodup, List.nodup_singleton _, fun a ha b hb hab => hin ?_⟩
    obtain ⟨u, hu, rfl⟩ := List.mem_map.mp ha
    exact ⟨u, hu, hab.trans (List.mem_singleton.mp hb)⟩

theorem le_addInformationElement (s : PerrElements) : s.elements ≤ s.addInformationElement.elements := by
  simp only [addInformationElement]
  split_ifs
  · exact Nat.le_refl _
  · exact Nat.le_succ _

theorem perr_addInformationElement (s : PerrElements) : s.addInformationElement.perr = s.perr := by
  simp only [addInformationElement]
  split_ifs <;> rfl

theorem elements_addInformationElement (h : s.elements ≤ 1) : s.addInformationElement.elements = s.elements + 1 := by
  have hsize := s.perr.getInformationFieldSize.toNat_lt
  have hmul := Nat.mul_le_mul_right (s.perr.getInformationFieldSize.toNat + 2) h
  simp only [addInformationElement]
  rw [if_neg (by omega)]

theorem lists_filled (h : Fits l) : Lists l (filled l) := by
  induction l using List.reverseRecOn with
  | nil => exact ⟨rfl, List.nodup_nil, rfl⟩
  | append_singleton l d ih =>
    rw [Fits, List.dropLast_concat] at h
    have hle : (addresses l.dropLast).card ≤ (addresses l).card :=
      Finset.card_le_card fun a ha => List.mem_toFinset.mpr
        (List.map_subset _ (List.dropLast_subset l) (List.mem_toFinset.mp ha))
    rw [filled_snoc]
    exact (ih (Nat.lt_of_le_of_lt hle h)).forward h

/-- When the element was full it is pointed to. -/
theorem elements_filled_pos (h : ¬ Fits l) : 1 ≤ (filled l).elements := by
  induction l using List.reverseRecOn with
  | nil => exact absurd (by decide : (addresses []).card < 25) h
  | append_singleton l d ih =>
    rw [Fits, List.dropLast_concat] at h
    have hle := length_filled_le l
    rw [filled_snoc, forward]
    by_cases hfits : Fits l
    · have hlists := lists_filled hfits
      have hlength := hlists.length
      have hzero := hlists.elements
      rw [if_neg (not_not_intro ((isFull_iff hle).mpr (by omega)))]
      change 1 ≤ (filled l).addInformationElement.elements
      rw [elements_addInformationElement (by omega), hzero]
    · by_cases hfull : (filled l).perr.IsFull
      · rw [if_neg (not_not_intro hfull)]
        exact (ih hfits).trans (le_addInformationElement (filled l))
      · rw [if_pos hfull]
        exact ih hfits

theorem addresses_filled_subset (l : List FailedDestination) :
    addresses (filled l).perr.addressUnits ⊆ addresses l := by
  induction l using List.reverseRecOn with
  | nil => exact Finset.Subset.refl _
  | append_singleton l d ih =>
    have hle : addresses l ⊆ addresses (l ++ [d]) := addresses_snoc l d ▸ Finset.subset_insert _ _
    rw [filled_snoc, forward]
    by_cases hfull : (filled l).perr.IsFull
    · rw [if_neg (not_not_intro hfull)]
      exact Finset.empty_subset _
    · rw [if_pos hfull, IePerr.addAddressUnit]
      split_ifs
      · exact ih.trans hle
      · exact ih.trans hle
      · rw [addresses_snoc, addresses_snoc]
        exact Finset.insert_subset_insert _ ih

end PerrElements

open PerrElements

/-- How often a destination is in the elements. -/
def listed (a : Mac48Address) (elements : List IePerr) : ℕ :=
  (elements.flatMap (·.addressUnits)).countP fun u => u.destination = a

theorem listed_replicate (a : Mac48Address) (n : ℕ) (perr : IePerr) :
    listed a (List.replicate n perr) = n * (perr.addressUnits.map (·.destination)).count a := by
  rw [listed, List.countP_flatMap, List.map_replicate, List.sum_replicate_nat, List.count, List.countP_map]
  rfl

/-- The elements contain each destination once just when all fit into the first. -/
theorem forwardPerr_iff (l : List FailedDestination) :
    (∀ d ∈ l, listed d.destination (forwardPerr l) = 1) ↔ Fits l := by
  have hmem : ∀ {d : FailedDestination}, d ∈ l → d.destination ∈ addresses l := fun hd =>
    List.mem_toFinset.mpr (List.mem_map_of_mem hd)
  change (∀ d ∈ l, listed d.destination (List.replicate (if (filled l).perr.addressUnits.length > 0 then
    (filled l).addInformationElement else filled l).elements (if (filled l).perr.addressUnits.length > 0 then
    (filled l).addInformationElement else filled l).perr) = 1) ↔ _
  simp only [listed_replicate]
  by_cases hunits : (filled l).perr.addressUnits.length > 0
  · rw [if_pos hunits, perr_addInformationElement]
    constructor
    · intro hall
      by_contra hfits
      have hpos := elements_filled_pos hfits
      obtain ⟨u, hu⟩ := List.exists_mem_of_length_pos hunits
      have hu := List.mem_map_of_mem (f := (·.destination)) hu
      obtain ⟨d, hd, heq⟩ := List.mem_map.mp (List.mem_toFinset.mp
        (addresses_filled_subset l (List.mem_toFinset.mpr hu)))
      have hcount : 0 < ((filled l).perr.addressUnits.map (·.destination)).count d.destination :=
        List.count_pos_iff.mpr (heq ▸ hu)
      have htwice : 2 ≤ (filled l).addInformationElement.elements := by
        by_cases hone : (filled l).elements ≤ 1
        · rw [elements_addInformationElement hone]
          omega
        · exact (by omega : 2 ≤ (filled l).elements).trans (le_addInformationElement _)
      have hmul := Nat.mul_le_mul htwice hcount
      rw [hall d hd] at hmul
      exact absurd hmul (by decide)
    · intro hfits d hd
      have hlists := lists_filled hfits
      rw [elements_addInformationElement (by rw [hlists.elements]; decide), hlists.elements, Nat.one_mul]
      have hin : d.destination ∈ addresses (filled l).perr.addressUnits := hlists.addresses ▸ hmem hd
      exact List.count_eq_one_of_mem hlists.nodup (List.mem_toFinset.mp hin)
  · have hnil : (filled l).perr.addressUnits = [] := List.length_eq_zero_iff.mp (by omega)
    rw [if_neg hunits, hnil]
    constructor
    · intro hall
      cases l with
      | nil => exact (by decide : (addresses []).card < 25)
      | cons d l => exact absurd (hall d (.head _)) (by simp)
    · intro hfits d hd
      have hin := hmem hd
      rw [← (lists_filled hfits).addresses, hnil] at hin
      exact absurd hin (Finset.notMem_empty _)

/-! ### Path errors -/

open HwmpRtable

variable {now : ℤ} {t : HwmpRtable} {failed : List FailedDestination}

/-- Nothing is lost: the paths are deleted, each precursor is a receiver once, and the elements contain each destination
once. -/
structure LosesNothing (now : ℤ) (t : HwmpRtable) (failed : List FailedDestination) : Prop where
  deleted : ∀ d ∈ failed, NoPath now (makePathError now failed t).2 d.destination
  once : (makePathError now failed t).1.receivers.Nodup
  receivers : ∀ r, r ∈ (makePathError now failed t).1.receivers ↔ ∃ d ∈ failed, r ∈ t.getPrecursors now d.destination
  elements : ∀ d ∈ failed, listed d.destination (forwardPerr (makePathError now failed t).1.destinations) = 1

theorem makePathError_eq (now : ℤ) (failed : List FailedDestination) (t : HwmpRtable) :
    makePathError now failed t =
      if removeDuplicates (collectPrecursors now failed t).1 = [] then (⟨[], []⟩, (collectPrecursors now failed t).2)
      else (⟨failed, removeDuplicates (collectPrecursors now failed t).1⟩,
        failed.foldl (fun t d => t.deleteReactivePath d.destination) (collectPrecursors now failed t).2) := by
  simp only [makePathError, getPerrReceivers, List.length_eq_zero_iff]
  split_ifs with hnil
  · rw [hnil]
  · rfl

theorem receivers_makePathError (now : ℤ) (failed : List FailedDestination) (t : HwmpRtable) :
    (makePathError now failed t).1.receivers = removeDuplicates (collectPrecursors now failed t).1 := by
  rw [makePathError_eq]
  split_ifs with hnil
  · exact hnil.symm
  · rfl

theorem noPath_makePathError {d : FailedDestination} (hd : d ∈ failed) :
    NoPath now (makePathError now failed t).2 d.destination := by
  have hfold : ∀ (l : List FailedDestination) (t : HwmpRtable), NoPath now t d.destination →
      NoPath now (l.foldl (fun t d => t.deleteReactivePath d.destination) t) d.destination := by
    intro l
    induction l with
    | nil => exact fun _ h => h
    | cons e l ih => exact fun t h => ih _ h.erase
  rw [makePathError_eq]
  split_ifs
  · exact noPath_collect hd
  · exact hfold _ _ (noPath_collect hd)

/-- Where there is nobody to be told, no destination is left to be listed. -/
theorem destinations_makePathError (hone : OneInterface (collectPrecursors now failed t).1) :
    (makePathError now failed t).1.destinations = if (collectPrecursors now failed t).1 = [] then [] else failed := by
  have hnil : removeDuplicates (collectPrecursors now failed t).1 = [] ↔ (collectPrecursors now failed t).1 = [] := by
    rw [List.eq_nil_iff_forall_not_mem, List.eq_nil_iff_forall_not_mem]
    exact forall_congr' fun r => not_congr (mem_removeDuplicates_iff hone)
  simp only [makePathError_eq, hnil]
  split_ifs <;> rfl

/-- Where interfaces are known by their addresses, nothing is lost just when repeats are apart and, if any destination
failed, there is somebody to be told and all destinations fit. -/
theorem losesNothing_iff (hone : OneInterface (collectPrecursors now failed t).1) :
    LosesNothing now t failed ↔ Sparse (collectPrecursors now failed t).1 ∧
      (failed = [] ∨ (collectPrecursors now failed t).1 ≠ [] ∧ Fits failed) := by
  have hmem : ∀ r, r ∈ (makePathError now failed t).1.receivers ↔
      ∃ d ∈ failed, r ∈ t.getPrecursors now d.destination := fun r => by
    rw [receivers_makePathError, mem_removeDuplicates_iff hone, mem_collect]
  have honce : (makePathError now failed t).1.receivers.Nodup ↔ Sparse (collectPrecursors now failed t).1 := by
    rw [receivers_makePathError]
    exact nodup_removeDuplicates_iff hone
  have hlisted : (∀ d ∈ failed, listed d.destination (forwardPerr (makePathError now failed t).1.destinations) = 1) ↔
      failed = [] ∨ (collectPrecursors now failed t).1 ≠ [] ∧ Fits failed := by
    rw [destinations_makePathError hone]
    by_cases hnobody : (collectPrecursors now failed t).1 = []
    · rw [if_pos hnobody, or_iff_left fun h => h.1 hnobody]
      refine ⟨fun hall => List.eq_nil_iff_forall_not_mem.mpr fun d hd => ?_, fun hnil d hd => ?_⟩
      · exact absurd (hall d hd) Nat.zero_ne_one
      · rw [hnil] at hd
        exact absurd hd List.not_mem_nil
    · rw [if_neg hnobody, forwardPerr_iff, and_iff_right hnobody]
      refine ⟨.inr, fun h => h.elim (fun hnil => ?_) id⟩
      rw [hnil]
      exact (by decide : (addresses []).card < 25)
  rw [← honce, ← hlisted]
  exact ⟨fun h => ⟨h.once, h.elements⟩, fun h => ⟨fun d hd => noPath_makePathError hd, h.1, hmem, h.2⟩⟩

namespace Small

/-- A path that the node with address 9 on interface 1 uses. -/
def route : ReactiveRoute := ⟨.ofOctet 2, 1, 10, 100, 5, [⟨.ofOctet 9, 1, 100⟩]⟩

/-- Paths to three nodes, and none to a root. -/
def table : HwmpRtable where
  routes := (((∅ : Store Mac48Address ReactiveRoute).insert (.ofOctet 3) route).insert (.ofOctet 4) route).insert
    (.ofOctet 5) route
  root := ⟨⟨.ofOctet 0, 0, 0, 0, 0, []⟩, .ofOctet 0⟩

/-- The nodes that cannot be reached any more. -/
def lost : List FailedDestination := [⟨.ofOctet 3, 101⟩, ⟨.ofOctet 4, 101⟩, ⟨.ofOctet 5, 101⟩]

theorem collect_lost :
    (collectPrecursors 0 lost table).1 = [(1, .ofOctet 9), (1, .ofOctet 9), (1, .ofOctet 9)] := by decide +kernel

theorem collect_two :
    (collectPrecursors 0 (lost.take 2) table).1 = [(1, .ofOctet 9), (1, .ofOctet 9)] := by decide +kernel

end Small

/-- A precursor of two paths is told once. -/
theorem losesNothing_two : LosesNothing 0 Small.table (Small.lost.take 2) := by
  have hone : OneInterface (collectPrecursors 0 (Small.lost.take 2) Small.table).1 := by
    rw [Small.collect_two]
    simp [OneInterface]
  refine (losesNothing_iff hone).mpr ⟨?_, .inr (by decide +kernel)⟩
  rw [Small.collect_two]
  simp [Sparse, Apart, others]

/-- A precursor of three paths is told twice. -/
theorem not_losesNothing_three : ¬ LosesNothing 0 Small.table Small.lost := by
  intro h
  have honce := h.once
  rw [receivers_makePathError, Small.collect_lost] at honce
  simp [removeDuplicates, eraseAddress] at honce

end Ns3.Dot11s
