import Ns3.Network.Address
import Mathlib.Data.List.Perm.Subperm
import Mathlib.Data.List.Sigma

/-!
# Parallel links in global routing

`SPFGetNextLink` and the loop of `SPFNexthopCalculation` over it (`internet/model/global-route-manager-impl.cc`): the
link records of a router that point to another vertex, one call after the other. A pointer to a link record is the
record with its place in the LSA.

The previous link is only a flag: with one, the call passes over the first two records that match, and returns the
third (`spfGetNextLink_eq`). So it enumerates one link, and no more (`enumerates_iff`).
-/

namespace Ns3

/-- `GlobalRoutingLinkRecord`, what is used of it. -/
structure GlobalRoutingLinkRecord where
  linkId : Ipv4Address
  linkData : Ipv4Address

/-- A `GlobalRoutingLinkRecord *`. -/
abbrev LinkPointer := GlobalRoutingLinkRecord × ℕ

/-- `SPFVertex`, what is used of it. -/
structure SPFVertex where
  vertexId : Ipv4Address
  /-- `m_linkRecords` of `m_lsa`. -/
  linkRecords : List GlobalRoutingLinkRecord
  ecmpRootExits : List (Ipv4Address × UInt32)

namespace SPFVertex

/-- `GetNLinkRecords`, in 32 bits. -/
def getNLinkRecords (v : SPFVertex) : ℕ := v.linkRecords.length % 2 ^ 32

/-- The link records that a loop up to `GetNLinkRecords` comes to. -/
def links (v : SPFVertex) : List LinkPointer := (v.linkRecords.take v.getNLinkRecords).zipIdx

/-- The vertex has this one way out of the root. -/
def setRootExitDirection (v : SPFVertex) (nextHop : Ipv4Address) (id : UInt32) : SPFVertex :=
  { v with ecmpRootExits := [(nextHop, id)] }

end SPFVertex

namespace GlobalRouteManagerImpl

/-- The loop of `SPFGetNextLink`, with `skip` and `found_prev_link`. -/
def nextLinkLoop (vertexId : Ipv4Address) : Bool → Bool → List LinkPointer → Option LinkPointer
  | _, _, [] => none
  | skip, found, l :: rest =>
    if l.1.linkId = vertexId then
      if found = false then nextLinkLoop vertexId skip true rest
      else if skip = false then some l
      else nextLinkLoop vertexId false found rest
    else nextLinkLoop vertexId skip found rest

/-- The link from `v` to `w` behind `prevLink`. -/
def spfGetNextLink (v w : SPFVertex) (prevLink : Option LinkPointer) : Option LinkPointer :=
  nextLinkLoop w.vertexId prevLink.isSome prevLink.isNone v.links

/-- The loop of `SPFNexthopCalculation` over the links of `w` to its parent network `v`, for a number of rounds: nothing
where it has not ended. `outIf` is that of the exit direction of `v`. -/
def nexthopLoop (v : SPFVertex) (outIf : UInt32) : ℕ → Option LinkPointer → SPFVertex → Option SPFVertex
  | 0, _, _ => none
  | rounds + 1, linkRemote, w =>
    match spfGetNextLink w v linkRemote with
    | none => some w
    | some linkRemote =>
      nexthopLoop v outIf rounds (some linkRemote) (w.setRootExitDirection linkRemote.1.linkData outIf)

/-- A link record of `w` points to `v`. -/
def PointsTo (w v : SPFVertex) (l : LinkPointer) : Prop := w.linkRecords[l.2]? = some l.1 ∧ l.1.linkId = v.vertexId

/-- What the calls return one after the other, each with the link that the one before returned. -/
def calls (w v : SPFVertex) : ℕ → Option LinkPointer
  | 0 => spfGetNextLink w v none
  | k + 1 => spfGetNextLink w v (calls w v k)

/-- The calls return each link that points to `v` once, and then null. -/
def Enumerates (w v : SPFVertex) : Prop :=
  ∃ l : List LinkPointer, l.Nodup ∧ (∀ x, x ∈ l ↔ PointsTo w v x) ∧ ∀ k ≤ l.length, calls w v k = l[k]?

/-- The loop of `SPFNexthopCalculation` ends. -/
def Ends (w v : SPFVertex) : Prop := ∀ outIf, ∃ rounds, (nexthopLoop v outIf rounds none w).isSome

/-! ### What a call returns -/

theorem length_le_one_iff {α : Type} {l : List α} (hl : l.Nodup) : l.length ≤ 1 ↔ ∀ a ∈ l, ∀ b ∈ l, a = b := by
  rcases l with _ | ⟨a, _ | ⟨b, l⟩⟩
  · simp
  · simp
  · refine iff_of_false (by simp) fun h => ?_
    have hab := h a List.mem_cons_self b (List.mem_cons_of_mem _ List.mem_cons_self)
    exact (List.nodup_cons.mp hl).1 (hab ▸ List.mem_cons_self)

/-- The links of `w` to `v` that the loop comes to. -/
def pointing (w v : SPFVertex) : List LinkPointer := w.links.filter fun l => l.1.linkId = v.vertexId

theorem nextLinkLoop_eq (vertexId : Ipv4Address) (skip found : Bool) (l : List LinkPointer) :
    nextLinkLoop vertexId skip found l = (l.filter fun x => x.1.linkId = vertexId)[(!found).toNat + skip.toNat]? := by
  induction l generalizing skip found with
  | nil => rfl
  | cons x l ih =>
    rw [nextLinkLoop]
    by_cases hx : x.1.linkId = vertexId
    · rw [if_pos hx, ih, ih]
      cases found <;> cases skip <;> simp [hx]
    · rw [if_neg hx, List.filter_cons_of_neg (by simpa using hx), ih]

theorem spfGetNextLink_eq (w v : SPFVertex) (prevLink : Option LinkPointer) :
    spfGetNextLink w v prevLink = (pointing w v)[if prevLink.isSome then 2 else 0]? := by
  rw [spfGetNextLink, nextLinkLoop_eq, pointing]
  cases prevLink <;> rfl

theorem pointing_setRootExitDirection (w v : SPFVertex) (nextHop : Ipv4Address) (id : UInt32) :
    pointing (w.setRootExitDirection nextHop id) v = pointing w v := rfl

variable {w v : SPFVertex}

theorem mem_pointing_iff {x : LinkPointer} : x ∈ pointing w v ↔ PointsTo w v x ∧ x.2 < w.getNLinkRecords := by
  rw [pointing, List.mem_filter, SPFVertex.links, List.mem_zipIdx_iff_getElem?, List.getElem?_take, decide_eq_true_eq,
    PointsTo]
  split_ifs with hlt
  · simp [hlt]
  · simp [hlt]

theorem nodup_pointing (w v : SPFVertex) : (pointing w v).Nodup :=
  (List.Nodup.of_map Prod.snd (List.nodup_zipIdx_map_snd _)).filter _

theorem calls_zero (w v : SPFVertex) : calls w v 0 = (pointing w v)[0]? := spfGetNextLink_eq w v none

theorem calls_succ {k : ℕ} (h : (calls w v k).isSome) : calls w v (k + 1) = (pointing w v)[2]? := by
  rw [calls, spfGetNextLink_eq, if_pos h]

/-! ### The enumeration -/

/-- The enumeration is of one link at most. -/
theorem length_le_one {l : List LinkPointer} (hl : l.Nodup) (hcalls : ∀ k ≤ l.length, calls w v k = l[k]?) :
    l.length ≤ 1 := by
  by_contra hlen
  have hone : calls w v 1 = (pointing w v)[2]? := by
    apply calls_succ
    rw [hcalls 0 (by omega), List.getElem?_eq_getElem (by omega)]
    rfl
  have htwo : calls w v 2 = (pointing w v)[2]? := by
    apply calls_succ
    rw [hcalls 1 (by omega), List.getElem?_eq_getElem (by omega)]
    rfl
  -- the second link comes again
  have hagain : l[1]? = l[2]? := by
    rw [← hcalls 1 (by omega), ← hcalls 2 (by omega), hone, htwo]
  have heq : 1 = 2 := (List.getElem?_inj (by omega) hl).mp hagain
  omega

theorem enumerates_iff_length (w v : SPFVertex) :
    Enumerates w v ↔ (pointing w v).length ≤ 1 ∧ ∀ x, PointsTo w v x → x ∈ pointing w v := by
  constructor
  · rintro ⟨l, hl, hmem, hcalls⟩
    have hlen := length_le_one hl hcalls
    have hzero := hcalls 0 (Nat.zero_le _)
    rw [calls_zero] at hzero
    have hall : ∀ x, PointsTo w v x → x ∈ pointing w v := by
      intro x hx
      obtain ⟨k, hk, rfl⟩ := List.mem_iff_getElem.mp ((hmem x).mpr hx)
      obtain rfl : k = 0 := by omega
      exact List.mem_of_getElem? (hzero.trans (List.getElem?_eq_getElem hk))
    refine ⟨?_, hall⟩
    have hsub : pointing w v ⊆ l := fun x hx => (hmem x).mpr (mem_pointing_iff.mp hx).1
    exact Nat.le_trans (List.subperm_of_subset (nodup_pointing w v) hsub).length_le hlen
  · rintro ⟨hlen, hall⟩
    refine ⟨pointing w v, nodup_pointing w v, fun x => ⟨fun hx => (mem_pointing_iff.mp hx).1, hall x⟩, ?_⟩
    intro k hk
    cases k with
    | zero => exact calls_zero w v
    | succ k =>
      obtain rfl : k = 0 := by omega
      rw [calls_succ (k := 0), List.getElem?_eq_none (by omega), List.getElem?_eq_none (by omega)]
      rw [calls_zero, List.getElem?_eq_getElem (by omega)]
      rfl

/-! ### The loop -/

theorem nexthopLoop_eq_none {v w : SPFVertex} {outIf : UInt32} {l : LinkPointer} (h : (pointing w v)[2]? = some l)
    (linkRemote : LinkPointer) (rounds : ℕ) : nexthopLoop v outIf rounds (some linkRemote) w = none := by
  induction rounds generalizing linkRemote w with
  | zero => rfl
  | succ rounds ih =>
    rw [nexthopLoop, spfGetNextLink_eq, Option.isSome_some, if_pos rfl, h]
    exact ih (w := w.setRootExitDirection l.1.linkData outIf) h l

theorem ends_iff (w v : SPFVertex) : Ends w v ↔ (pointing w v).length ≤ 2 := by
  constructor
  · intro hends
    obtain ⟨rounds, hsome⟩ := hends 0
    by_contra hlen
    have hfirst := List.getElem?_eq_getElem (l := pointing w v) (i := 0) (by omega)
    have hthird := List.getElem?_eq_getElem (l := pointing w v) (i := 2) (by omega)
    cases rounds with
    | zero => exact Bool.noConfusion hsome
    | succ rounds =>
      rw [nexthopLoop, spfGetNextLink_eq, Option.isSome_none, if_neg Bool.false_ne_true, hfirst] at hsome
      dsimp only at hsome
      rw [nexthopLoop_eq_none (by rw [pointing_setRootExitDirection]; exact hthird)] at hsome
      exact Bool.noConfusion hsome
  · intro hlen outIf
    refine ⟨2, ?_⟩
    rw [nexthopLoop, spfGetNextLink_eq, Option.isSome_none, if_neg Bool.false_ne_true]
    cases (pointing w v)[0]? with
    | none => rfl
    | some l =>
      dsimp only
      rw [nexthopLoop, spfGetNextLink_eq, Option.isSome_some, if_pos rfl, pointing_setRootExitDirection,
        List.getElem?_eq_none hlen]
      rfl

/-- The calls enumerate the links from `w` to `v`, and the loop ends, exactly if there is one link at most. -/
theorem enumerates_iff (w v : SPFVertex) :
    Enumerates w v ∧ Ends w v ↔ (∀ l l', PointsTo w v l → PointsTo w v l' → l = l') ∧
      ∀ l, PointsTo w v l → l.2 < w.getNLinkRecords := by
  rw [enumerates_iff_length, ends_iff]
  constructor
  · rintro ⟨⟨hlen, hall⟩, -⟩
    refine ⟨fun l l' hl hl' => ?_, fun l hl => (mem_pointing_iff.mp (hall l hl)).2⟩
    exact (length_le_one_iff (nodup_pointing w v)).mp hlen l (hall l hl) l' (hall l' hl')
  · rintro ⟨hunique, hrange⟩
    have hlen : (pointing w v).length ≤ 1 := by
      apply (length_le_one_iff (nodup_pointing w v)).mpr
      intro l hl l' hl'
      exact hunique l l' (mem_pointing_iff.mp hl).1 (mem_pointing_iff.mp hl').1
    exact ⟨⟨hlen, fun x hx => mem_pointing_iff.mpr ⟨hx, hrange x hx⟩⟩, Nat.le_succ_of_le hlen⟩

/-- A network. -/
def network : SPFVertex := ⟨⟨0x0a010101⟩, [], [(⟨0⟩, 1)]⟩

/-- A router with three interfaces on the network. -/
def threeInterfaces : SPFVertex where
  vertexId := ⟨2⟩
  linkRecords := [⟨⟨0x0a010101⟩, ⟨0x0a010102⟩⟩, ⟨⟨0x0a010101⟩, ⟨0x0a010103⟩⟩, ⟨⟨0x0a010101⟩, ⟨0x0a010104⟩⟩]
  ecmpRootExits := []

/-- The second link is left out, and the third comes again and again. -/
theorem not_enumerates_threeInterfaces :
    ¬ Enumerates threeInterfaces network ∧ ¬ Ends threeInterfaces network := by
  rw [enumerates_iff_length, ends_iff]
  have hlen : (pointing threeInterfaces network).length = 3 := by decide
  rw [hlen]
  exact ⟨fun h => absurd h.1 (by decide), by decide⟩

end GlobalRouteManagerImpl

end Ns3
