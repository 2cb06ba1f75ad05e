import Mathlib.Data.List.Perm.Subperm
import Ns3.Aodv.Routes
import Ns3.Lib.SortedMap
import Ns3.Network.Iterator

/-!
# The route errors of AODV

`RerrHeader` (`aodv/model/aodv-packet.cc`), `RecvError` and `SendRerrWhenBreaksLinkToNextHop`: the RERRs that a node
builds, each with the precursors that it is meant for. What these do with the table is in `RoutingProtocol`. `none` is
a failed assertion, or a loop that has not ended within the given rounds.

* `RerrHeader` — a header never has more than 255 destinations: `AddUnDestination` fails instead of returning false.
* `build_cases` — so there is one RERR for all destinations, or the assertion fails.
* `lists_iff` — the RERRs list what is lost exactly if it is not too much.
-/

namespace Ns3

open Lib

/-- `operator <`. -/
instance : LinearOrder Ipv4Address :=
  LinearOrder.lift' (fun a => a.address.toNat) fun a b h => by
    cases a
    cases b
    exact congrArg Ipv4Address.mk (BitVec.eq_of_toNat_eq h)

namespace Aodv

/-- The destinations that cannot be reached, with their numbers. -/
structure RerrHeader where
  flag : UInt8
  reserved : UInt8
  unreachableDstSeqNo : List (Ipv4Address × UInt32)
  ordered : Ordered unreachableDstSeqNo
  /-- The number of destinations is one octet, without a carry. -/
  length_le : unreachableDstSeqNo.length ≤ 255

namespace RerrHeader

/-- `Clear`, and the header as it is constructed. -/
def clear : RerrHeader := ⟨0, 0, [], ordered_nil, by decide⟩

variable (h : RerrHeader)

/-- Their number, as an octet. -/
def getDestCount : UInt8 := UInt8.ofNat h.unreachableDstSeqNo.length

theorem toNat_getDestCount : h.getDestCount.toNat = h.unreachableDstSeqNo.length := by
  have hle := h.length_le
  rw [getDestCount, UInt8.toNat_ofNat', Nat.mod_eq_of_lt (by omega)]

/-- The pair is put into the map. -/
def insert (dst : Ipv4Address) (seqNo : UInt32) (hnew : ¬HasKey dst h.unreachableDstSeqNo)
    (hlt : h.unreachableDstSeqNo.length < 255) : RerrHeader where
  flag := h.flag
  reserved := h.reserved
  unreachableDstSeqNo := mapInsert dst seqNo h.unreachableDstSeqNo
  ordered := h.ordered.mapInsert
  length_le := by
    rw [length_mapInsert hnew]
    exact hlt

/-- `AddUnDestination`: what it returns, and the header. -/
def addUnDestination (dst : Ipv4Address) (seqNo : UInt32) : Option (Bool × RerrHeader) :=
  if hnew : HasKey dst h.unreachableDstSeqNo then some (true, h)
  else if hlt : h.getDestCount < 255 then
    some (true, h.insert dst seqNo hnew (h.toNat_getDestCount ▸ UInt8.lt_iff_toNat_lt.mp hlt))
  else none

/-- Three octets, and eight for each destination. -/
def serialize : List UInt8 :=
  h.flag :: h.reserved :: h.getDestCount ::
    h.unreachableDstSeqNo.flatMap fun x => x.1.writeTo ++ Buffer.Iterator.writeHtonU32 x.2

/-- The loop of `Deserialize`: the pairs that it reads. -/
def readDestinations : ℕ → Reader (List (Ipv4Address × UInt32))
  | 0 => pure []
  | k + 1 => do
    let address ← Ipv4Address.readFrom
    let seqNo ← Buffer.Iterator.readNtohU32
    let rest ← readDestinations k
    pure ((address, seqNo) :: rest)

variable (pairs : List (Ipv4Address × UInt32))

/-- The map that `Deserialize` makes of the pairs. -/
def destinations : List (Ipv4Address × UInt32) :=
  pairs.foldl (fun m x => mapInsert x.1 x.2 m) []

theorem ordered_destinations : Ordered (destinations pairs) := by
  induction pairs using List.reverseRecOn with
  | nil => exact ordered_nil
  | append_singleton pairs x ih =>
    rw [destinations, List.foldl_concat]
    exact Ordered.mapInsert ih

/-- `Deserialize`: its assertion fails if a destination is listed twice. -/
def deserialize : Reader (Option RerrHeader) := do
  let flag ← Buffer.Iterator.readU8
  let reserved ← Buffer.Iterator.readU8
  let dest ← Buffer.Iterator.readU8
  let pairs ← readDestinations dest.toNat
  pure (if h : pairs.length = (destinations pairs).length ∧ pairs.length ≤ 255 then
    some ⟨flag, reserved, destinations pairs, ordered_destinations pairs, h.1 ▸ h.2⟩ else none)

theorem reads_readDestinations :
    (readDestinations pairs.length).Reads
      (pairs.flatMap fun x => x.1.writeTo ++ Buffer.Iterator.writeHtonU32 x.2) pairs := by
  induction pairs with
  | nil => exact .pure []
  | cons x pairs ih =>
    have hrest := ih.bind (f := fun rest => (pure ((x.1, x.2) :: rest) : Reader _)) (.pure _)
    rw [List.append_nil] at hrest
    rw [List.flatMap_cons, List.append_assoc]
    exact (Ipv4Address.reads_readFrom x.1).bind ((Buffer.Iterator.reads_readNtohU32 x.2).bind hrest)

/-- What is written is read again. -/
theorem reads_deserialize : deserialize.Reads h.serialize (some h) := by
  have hmap : destinations h.unreachableDstSeqNo = h.unreachableDstSeqNo := foldl_mapInsert h.ordered
  have hpairs := reads_readDestinations h.unreachableDstSeqNo
  rw [← toNat_getDestCount] at hpairs
  have hread := hpairs.bind (f := fun pairs =>
    (pure (if hd : pairs.length = (destinations pairs).length ∧ pairs.length ≤ 255 then
      some ⟨h.flag, h.reserved, destinations pairs, ordered_destinations pairs, hd.1 ▸ hd.2⟩ else none) :
        Reader (Option RerrHeader))) (.pure _)
  rw [dif_pos ⟨by rw [hmap], h.length_le⟩, List.append_nil] at hread
  simp only [hmap] at hread
  exact (Buffer.Iterator.reads_readU8 h.flag).bind ((Buffer.Iterator.reads_readU8 h.reserved).bind
    ((Buffer.Iterator.reads_readU8 h.getDestCount).bind hread))

end RerrHeader

/-! ### The routing table -/

/-- `m_ipv4AddressEntry`, which is iterated in the order of the destinations, with the precursors of the entries. -/
structure ListedTable where
  table : RoutingTable
  /-- The destinations that have one. -/
  listed : List Ipv4Address
  sorted : listed.Pairwise (· < ·)
  mem_listed : ∀ dst, (table dst).isSome = true → dst ∈ listed
  precursorList : Ipv4Address → List Ipv4Address

namespace ListedTable

variable (t : ListedTable) (now : ℤ) (badLinkLifetime : ℕ)

/-- The destinations whose entries have a property, with their sequence numbers. -/
def destinationsWith (p : Ipv4Address → RoutingTableEntry → Bool) : List (Ipv4Address × UInt32) :=
  t.listed.filterMap fun dst =>
    ((t.table.purge now badLinkLifetime dst).filter (p dst)).map fun rt => (dst, rt.seqNo)

/-- The destinations whose routes go by the next hop. -/
def getListOfDestinationWithNextHop (nextHop : Ipv4Address) : List (Ipv4Address × UInt32) :=
  t.destinationsWith now badLinkLifetime fun _ rt => rt.nextHop = nextHop

/-- `GetPrecursors`: those that are not there yet are appended. -/
def getPrecursors (dst : Ipv4Address) (prec : List Ipv4Address) : List Ipv4Address :=
  (t.precursorList dst).foldl (fun prec id => if id ∈ prec then prec else prec ++ [id]) prec

/-- A RERR that is passed to `SendRerrMessage`, with the precursors. -/
abbrev Built := RerrHeader × List Ipv4Address

/-- The loop that builds the RERRs for the destinations from here on, within the given rounds: the header and the
precursors at its end, and what was sent. When the header is full it is sent, and the destination is tried again. -/
def build : ℕ → List (Ipv4Address × UInt32) → RerrHeader → List Ipv4Address → List Built →
    Option (RerrHeader × List Ipv4Address × List Built)
  | _, [], rerrHeader, precursors, sent => some (rerrHeader, precursors, sent)
  | 0, _ :: _, _, _, _ => none
  | rounds + 1, (dst, seqNo) :: unreachable, rerrHeader, precursors, sent =>
    match rerrHeader.addUnDestination dst seqNo with
    | none => none
    | some (false, rerrHeader) =>
      build rounds ((dst, seqNo) :: unreachable) .clear precursors (sent ++ [(rerrHeader, precursors)])
    | some (true, rerrHeader) => build rounds unreachable rerrHeader (t.getPrecursors dst precursors) sent

/-- The last RERR is sent if there is something in it. -/
def finish (x : RerrHeader × List Ipv4Address × List Built) : List Built :=
  if x.1.getDestCount = 0 then x.2.2 else x.2.2 ++ [(x.1, x.2.1)]

/-- The loops in `RecvError` that take the destinations out of the header, in its order: those that are reached by the
sender. -/
def unreachableOf (dstWithNextHopSrc : List (Ipv4Address × UInt32)) :
    List (Ipv4Address × UInt32) → List (Ipv4Address × UInt32) → List (Ipv4Address × UInt32)
  | [], unreachable => unreachable
  | un :: rest, unreachable =>
    unreachableOf dstWithNextHopSrc rest
      (dstWithNextHopSrc.foldl (fun m x => if x.1 = un.1 then mapInsert un.1 un.2 m else m) unreachable)

/-- `RecvError`, of the header of the RERR that was received. -/
def recvError (rounds : ℕ) (rerrHeader : RerrHeader) (src : Ipv4Address) : Option (List Built) := do
  let dstWithNextHopSrc := t.getListOfDestinationWithNextHop now badLinkLifetime src
  let unreachable := unreachableOf dstWithNextHopSrc rerrHeader.unreachableDstSeqNo []
  let emptied : RerrHeader := ⟨rerrHeader.flag, rerrHeader.reserved, [], ordered_nil, by decide⟩
  let x ← t.build rounds unreachable emptied [] []
  some (finish x)

/-- The error messages when the link to the next hop breaks. -/
def sendRerrWhenBreaksLinkToNextHop (rounds : ℕ) (nextHop : Ipv4Address) : Option (List Built) :=
  match t.table.purge now badLinkLifetime nextHop with
  | none => some []
  | some toNextHop => do
    let precursors := t.getPrecursors nextHop []
    let (_, rerrHeader) ← RerrHeader.clear.addUnDestination nextHop toNextHop.seqNo
    let unreachable := t.getListOfDestinationWithNextHop now badLinkLifetime nextHop
    let x ← t.build rounds unreachable rerrHeader precursors []
    some (finish x)

/-! ### What is built -/

variable {t now badLinkLifetime} {lost unreachable : List (Ipv4Address × UInt32)} {header header' : RerrHeader}
  {precursors precursors' : List Ipv4Address} {sent sent' : List Built} {rounds : ℕ}

/-- What is lost is put into the header, if it was not in it. -/
theorem addUnDestination_cases (hlost : Ordered lost) (hheader : ∀ x ∈ header.unreachableDstSeqNo, x ∈ lost)
    {dst : Ipv4Address} {seqNo : UInt32} (hmem : (dst, seqNo) ∈ lost) :
    (∃ header', header.addUnDestination dst seqNo = some (true, header') ∧
        ∀ x, x ∈ header'.unreachableDstSeqNo ↔ x ∈ header.unreachableDstSeqNo ∨ x = (dst, seqNo)) ∨
      header.addUnDestination dst seqNo = none ∧ 255 < lost.length := by
  rw [RerrHeader.addUnDestination]
  split_ifs with hkey hlt
  · refine .inl ⟨header, rfl, fun x => ⟨.inl, ?_⟩⟩
    rintro (hx | rfl)
    · exact hx
    · obtain ⟨y, hy, hdst⟩ := hkey
      rwa [hlost.eq_of_key hmem (hheader y hy) hdst.symm]
  · refine .inl ⟨_, rfl, fun x => ⟨mem_of_mem_mapInsert, ?_⟩⟩
    rintro (hx | rfl)
    · exact mem_mapInsert_of_mem hx
    · exact mem_mapInsert_self hkey
  · refine .inr ⟨rfl, ?_⟩
    have hnodup : ((dst, seqNo) :: header.unreachableDstSeqNo).Nodup :=
      List.nodup_cons.mpr ⟨fun hx => hkey ⟨_, hx, rfl⟩, header.ordered.nodup⟩
    have hle := (List.subperm_of_subset hnodup (List.cons_subset.mpr ⟨hmem, hheader⟩)).length_le
    rw [UInt8.lt_iff_toNat_lt, header.toNat_getDestCount] at hlt
    rw [List.length_cons] at hle
    exact Nat.lt_of_lt_of_le (Nat.succ_le_succ (Nat.le_of_not_lt hlt)) hle

/-- The loop never sends: all destinations come into the header, or there are too many. -/
theorem build_cases (hlost : Ordered lost) (hheader : ∀ x ∈ header.unreachableDstSeqNo, x ∈ lost)
    (hmem : ∀ x ∈ unreachable, x ∈ lost) (rounds : ℕ) :
    (∃ header' precursors', t.build rounds unreachable header precursors sent = some (header', precursors', sent) ∧
        ∀ x, x ∈ header'.unreachableDstSeqNo ↔ x ∈ header.unreachableDstSeqNo ∨ x ∈ unreachable) ∨
      t.build rounds unreachable header precursors sent = none ∧ (rounds < unreachable.length ∨ 255 < lost.length) := by
  induction rounds generalizing unreachable header precursors with
  | zero =>
    cases unreachable with
    | nil => exact .inl ⟨header, precursors, rfl, fun x => by simp⟩
    | cons x unreachable => exact .inr ⟨rfl, .inl (Nat.succ_pos _)⟩
  | succ rounds ih =>
    cases unreachable with
    | nil => exact .inl ⟨header, precursors, rfl, fun x => by simp⟩
    | cons y unreachable =>
      obtain ⟨dst, seqNo⟩ := y
      have hy : (dst, seqNo) ∈ lost := hmem _ List.mem_cons_self
      rw [build]
      rcases addUnDestination_cases hlost hheader hy with ⟨header₁, hadd, hmem₁⟩ | ⟨hadd, hlength⟩
      · rw [hadd]
        have hheader₁ : ∀ x ∈ header₁.unreachableDstSeqNo, x ∈ lost := by
          intro x hx
          rcases (hmem₁ x).mp hx with hx | rfl
          · exact hheader x hx
          · exact hy
        rcases ih hheader₁ fun x hx => hmem x (List.mem_cons_of_mem _ hx) with
          ⟨header', precursors', hbuild, hall⟩ | ⟨hbuild, hor⟩
        · refine .inl ⟨header', precursors', hbuild, fun x => ?_⟩
          rw [hall, hmem₁, List.mem_cons, or_assoc]
        · refine .inr ⟨hbuild, hor.imp_left fun hlt => ?_⟩
          rw [List.length_cons]
          omega
      · rw [hadd]
        exact .inr ⟨rfl, .inr hlength⟩

/-! ### What is lost -/

variable (t now badLinkLifetime)

/-- The destinations of a RERR that are reached by its sender. -/
def lostBy (rerrHeader : RerrHeader) (src : Ipv4Address) : List (Ipv4Address × UInt32) :=
  rerrHeader.unreachableDstSeqNo.filter fun un =>
    (t.table.purge now badLinkLifetime un.1).any fun rt => rt.nextHop = src

/-- A neighbour, and the destinations that are reached by it. -/
def lostThrough (nextHop : Ipv4Address) : List (Ipv4Address × UInt32) :=
  t.destinationsWith now badLinkLifetime fun dst rt => dst = nextHop ∨ rt.nextHop = nextHop

/-- The RERRs that are built list what is lost and nothing else, none has more than 255 destinations, and each is read
as it was written. -/
def Lists (lost : List (Ipv4Address × UInt32)) (run : ℕ → Option (List Built)) : Prop :=
  ∃ rounds messages, run rounds = some messages ∧
    (∀ x, x ∈ lost ↔ ∃ m ∈ messages, x ∈ m.1.unreachableDstSeqNo) ∧
    ∀ m ∈ messages, m.1.unreachableDstSeqNo.length ≤ 255 ∧ RerrHeader.deserialize.Reads m.1.serialize (some m.1)

variable {t now badLinkLifetime}

theorem mem_destinationsWith {p : Ipv4Address → RoutingTableEntry → Bool} {x : Ipv4Address × UInt32} :
    x ∈ t.destinationsWith now badLinkLifetime p ↔
      ∃ rt, t.table.purge now badLinkLifetime x.1 = some rt ∧ p x.1 rt = true ∧ rt.seqNo = x.2 := by
  rw [destinationsWith, List.mem_filterMap]
  constructor
  · rintro ⟨dst, -, h⟩
    obtain ⟨rt, hrt, rfl⟩ := Option.map_eq_some_iff.mp h
    obtain ⟨hrt, hp⟩ := Option.filter_eq_some_iff.mp hrt
    exact ⟨rt, hrt, hp, rfl⟩
  · rintro ⟨rt, hrt, hp, hseqNo⟩
    obtain ⟨old, hold, -⟩ := Option.bind_eq_some_iff.mp hrt
    refine ⟨x.1, t.mem_listed x.1 (hold ▸ rfl), ?_⟩
    rw [Option.filter_eq_some_iff.mpr ⟨hrt, hp⟩, Option.map_some, hseqNo]

theorem ordered_destinationsWith (p : Ipv4Address → RoutingTableEntry → Bool) :
    Ordered (t.destinationsWith now badLinkLifetime p) := by
  refine List.pairwise_filterMap.mpr (List.Pairwise.imp ?_ t.sorted)
  intro a b hlt x hx y hy
  obtain ⟨rt, -, rfl⟩ := Option.map_eq_some_iff.mp hx
  obtain ⟨rt', -, rfl⟩ := Option.map_eq_some_iff.mp hy
  exact hlt

/-- A destination that comes after the others is put at the end, if the sender reaches it. -/
theorem foldl_unreachable {dsts acc : List (Ipv4Address × UInt32)} {un : Ipv4Address × UInt32}
    (h : Ordered (acc ++ [un])) :
    dsts.foldl (fun m x => if x.1 = un.1 then mapInsert un.1 un.2 m else m) acc =
      if HasKey un.1 dsts then acc ++ [un] else acc := by
  have hlt : ∀ x ∈ acc, x.1 < un.1 := fun x hx => (List.pairwise_append.mp h).2.2 x hx un (List.mem_singleton_self un)
  induction dsts using List.reverseRecOn with
  | nil =>
    have hnone : ¬HasKey un.1 ([] : List (Ipv4Address × UInt32)) := by simp [HasKey]
    rw [List.foldl_nil, if_neg hnone]
  | append_singleton dsts x ih =>
    rw [List.foldl_concat, ih]
    by_cases hx : x.1 = un.1
    · rw [if_pos hx, if_pos (hasKey_append.mpr (.inr (hasKey_singleton.mpr hx)))]
      split_ifs with hkey
      · exact mapInsert_of_hasKey h ⟨un, List.mem_append_right _ (List.mem_singleton_self un), rfl⟩
      · exact mapInsert_of_lt hlt
    · rw [if_neg hx]
      simp only [hasKey_append, hasKey_singleton, hx, or_false]

theorem unreachableOf_eq {dsts rest acc : List (Ipv4Address × UInt32)} (h : Ordered (acc ++ rest)) :
    unreachableOf dsts rest acc = acc ++ rest.filter fun un => HasKey un.1 dsts := by
  induction rest generalizing acc with
  | nil => rw [unreachableOf, List.filter_nil, List.append_nil]
  | cons un rest ih =>
    have hassoc : acc ++ un :: rest = (acc ++ [un]) ++ rest := by simp
    rw [hassoc] at h
    have hun : Ordered (acc ++ [un]) := (List.pairwise_append.mp h).1
    rw [unreachableOf, foldl_unreachable hun]
    split_ifs with hkey
    · rw [ih h, List.filter_cons_of_pos (by rwa [decide_eq_true_eq])]
      simp
    · rw [ih (h.sublist (by simp)), List.filter_cons_of_neg (by rwa [decide_eq_true_eq])]

theorem unreachableOf_eq_lostBy (rerrHeader : RerrHeader) (src : Ipv4Address) :
    unreachableOf (t.getListOfDestinationWithNextHop now badLinkLifetime src) rerrHeader.unreachableDstSeqNo [] =
      t.lostBy now badLinkLifetime rerrHeader src := by
  have hordered : Ordered ([] ++ rerrHeader.unreachableDstSeqNo) := rerrHeader.ordered
  rw [unreachableOf_eq hordered, List.nil_append, lostBy]
  refine List.filter_congr fun un _ => ?_
  rw [Bool.eq_iff_iff, decide_eq_true_eq, Option.any_eq_true]
  constructor
  · rintro ⟨x, hx, hkey⟩
    obtain ⟨rt, hrt, hnext, -⟩ := mem_destinationsWith.mp hx
    exact ⟨rt, hkey ▸ hrt, hnext⟩
  · rintro ⟨rt, hrt, hnext⟩
    exact ⟨(un.1, rt.seqNo), mem_destinationsWith.mpr ⟨rt, hrt, hnext, rfl⟩, rfl⟩

/-- What is built from one header. -/
theorem mem_finish {x : Ipv4Address × UInt32} :
    (∃ m ∈ finish (header, precursors, []), x ∈ m.1.unreachableDstSeqNo) ↔ x ∈ header.unreachableDstSeqNo := by
  rw [finish]
  split_ifs with hzero
  · have hlength := header.toNat_getDestCount
    rw [hzero] at hlength
    have hnil : header.unreachableDstSeqNo = [] := List.eq_nil_of_length_eq_zero hlength.symm
    rw [hnil]
    simp
  · simp

theorem lists_finish (hall : ∀ x, x ∈ header.unreachableDstSeqNo ↔ x ∈ lost) :
    (∀ x, x ∈ lost ↔ ∃ m ∈ finish (header, precursors, []), x ∈ m.1.unreachableDstSeqNo) ∧
      ∀ m ∈ finish (header, precursors, []),
        m.1.unreachableDstSeqNo.length ≤ 255 ∧ RerrHeader.deserialize.Reads m.1.serialize (some m.1) :=
  ⟨fun x => by rw [mem_finish, hall], fun m _ => ⟨m.1.length_le, m.1.reads_deserialize⟩⟩

/-- `RecvError` builds the RERRs for what is lost by the RERR. -/
theorem recvError_lists (rerrHeader : RerrHeader) (src : Ipv4Address) :
    Lists (t.lostBy now badLinkLifetime rerrHeader src)
      fun rounds => t.recvError now badLinkLifetime rounds rerrHeader src := by
  have hlost : Ordered (t.lostBy now badLinkLifetime rerrHeader src) := List.Pairwise.filter _ rerrHeader.ordered
  have hlength : (t.lostBy now badLinkLifetime rerrHeader src).length ≤ 255 :=
    Nat.le_trans (List.length_filter_le _ _) rerrHeader.length_le
  obtain ⟨header', precursors', hbuild, hall⟩ | ⟨-, hor⟩ :=
    @build_cases t _ (t.lostBy now badLinkLifetime rerrHeader src)
      ⟨rerrHeader.flag, rerrHeader.reserved, [], ordered_nil, by decide⟩ [] [] hlost
      (fun x hx => absurd hx List.not_mem_nil) (fun _ hx => hx) (t.lostBy now badLinkLifetime rerrHeader src).length
  · have hrun : t.recvError now badLinkLifetime (t.lostBy now badLinkLifetime rerrHeader src).length rerrHeader src =
        some (finish (header', precursors', [])) := by
      rw [recvError, unreachableOf_eq_lostBy, hbuild]
      rfl
    exact ⟨_, _, hrun, lists_finish fun x => (hall x).trans (or_iff_right List.not_mem_nil)⟩
  · omega

/-- `SendRerrWhenBreaksLinkToNextHop` builds them exactly if the neighbour has an entry and not too much is lost. -/
theorem sendRerr_lists_iff (nextHop : Ipv4Address) :
    Lists (t.lostThrough now badLinkLifetime nextHop)
        (fun rounds => t.sendRerrWhenBreaksLinkToNextHop now badLinkLifetime rounds nextHop) ↔
      (t.table.purge now badLinkLifetime nextHop).isSome = true ∧
          (t.lostThrough now badLinkLifetime nextHop).length ≤ 255 ∨
        t.lostThrough now badLinkLifetime nextHop = [] := by
  cases hentry : t.table.purge now badLinkLifetime nextHop with
  | none =>
    have hrun (rounds : ℕ) : t.sendRerrWhenBreaksLinkToNextHop now badLinkLifetime rounds nextHop = some [] := by
      rw [sendRerrWhenBreaksLinkToNextHop, hentry]
    constructor
    · rintro ⟨rounds, messages, hmessages, hall, -⟩
      obtain rfl := Option.some.inj ((hrun rounds).symm.trans hmessages)
      refine .inr (List.eq_nil_iff_forall_not_mem.mpr fun x hx => ?_)
      obtain ⟨m, hm, -⟩ := (hall x).mp hx
      exact absurd hm List.not_mem_nil
    · rintro (⟨hsome, -⟩ | hnil)
      · cases hsome
      · rw [hnil]
        exact ⟨0, [], hrun 0, fun x => by simp, fun m hm => absurd hm List.not_mem_nil⟩
  | some toNextHop =>
    have hlost : Ordered (t.lostThrough now badLinkLifetime nextHop) := ordered_destinationsWith _
    have hself : (nextHop, toNextHop.seqNo) ∈ t.lostThrough now badLinkLifetime nextHop :=
      mem_destinationsWith.mpr ⟨toNextHop, hentry, by simp, rfl⟩
    have hmem (x : Ipv4Address × UInt32) : x ∈ t.lostThrough now badLinkLifetime nextHop ↔
        x = (nextHop, toNextHop.seqNo) ∨ x ∈ t.getListOfDestinationWithNextHop now badLinkLifetime nextHop := by
      constructor
      · intro hx
        obtain ⟨rt, hrt, hor, hseqNo⟩ := mem_destinationsWith.mp hx
        rcases of_decide_eq_true hor with hdst | hnext
        · rw [hdst, hentry] at hrt
          cases hrt
          exact .inl (Prod.ext hdst hseqNo.symm)
        · exact .inr (mem_destinationsWith.mpr ⟨rt, hrt, decide_eq_true hnext, hseqNo⟩)
      · rintro (rfl | hx)
        · exact hself
        · obtain ⟨rt, hrt, hnext, hseqNo⟩ := mem_destinationsWith.mp hx
          exact mem_destinationsWith.mpr ⟨rt, hrt, decide_eq_true (.inr (of_decide_eq_true hnext)), hseqNo⟩
    have hcond : (some toNextHop).isSome = true ∧ (t.lostThrough now badLinkLifetime nextHop).length ≤ 255 ∨
        t.lostThrough now badLinkLifetime nextHop = [] ↔ (t.lostThrough now badLinkLifetime nextHop).length ≤ 255 := by
      rw [or_iff_left (List.ne_nil_of_mem hself), Option.isSome_some, and_iff_right rfl]
    rw [hcond]
    have hclear : ∀ x ∈ RerrHeader.clear.unreachableDstSeqNo, x ∈ t.lostThrough now badLinkLifetime nextHop :=
      fun x hx => absurd hx List.not_mem_nil
    rcases addUnDestination_cases hlost hclear hself with ⟨header, hadd, hheader⟩ | ⟨hadd, hlength⟩
    · have hrun (rounds : ℕ) : t.sendRerrWhenBreaksLinkToNextHop now badLinkLifetime rounds nextHop =
          (t.build rounds (t.getListOfDestinationWithNextHop now badLinkLifetime nextHop) header
            (t.getPrecursors nextHop []) []).map finish := by
        rw [sendRerrWhenBreaksLinkToNextHop, hentry]
        dsimp only
        rw [hadd]
        exact (Option.map_eq_bind ..).symm
      have hunion (x : Ipv4Address × UInt32) : x ∈ t.lostThrough now badLinkLifetime nextHop ↔
          x ∈ header.unreachableDstSeqNo ∨ x ∈ t.getListOfDestinationWithNextHop now badLinkLifetime nextHop := by
        rw [hmem, hheader]
        exact or_congr_left (or_iff_right List.not_mem_nil).symm
      have hbuild := @build_cases t (t.lostThrough now badLinkLifetime nextHop)
        (t.getListOfDestinationWithNextHop now badLinkLifetime nextHop) header (t.getPrecursors nextHop []) [] hlost
        (fun x hx => (hunion x).mpr (.inl hx)) fun x hx => (hunion x).mpr (.inr hx)
      constructor
      · rintro ⟨rounds, messages, hmessages, -⟩
        rcases hbuild rounds with ⟨header', precursors', -, hall⟩ | ⟨hnone, -⟩
        · have hperm : header'.unreachableDstSeqNo.Perm (t.lostThrough now badLinkLifetime nextHop) :=
            (List.perm_ext_iff_of_nodup header'.ordered.nodup hlost.nodup).mpr fun x => (hall x).trans (hunion x).symm
          rw [← hperm.length_eq]
          exact header'.length_le
        · have h := (hrun rounds).symm.trans hmessages
          rw [hnone] at h
          cases h
      · intro hlength
        rcases hbuild (t.getListOfDestinationWithNextHop now badLinkLifetime nextHop).length with
          ⟨header', precursors', hsome, hall⟩ | ⟨-, hor⟩
        · have hrounds := hrun (t.getListOfDestinationWithNextHop now badLinkLifetime nextHop).length
          rw [hsome] at hrounds
          exact ⟨_, _, hrounds, lists_finish fun x => (hall x).trans (hunion x).symm⟩
        · omega
    · refine iff_of_false ?_ (Nat.not_le_of_lt hlength)
      rintro ⟨rounds, messages, hmessages, -⟩
      dsimp only at hmessages
      rw [sendRerrWhenBreaksLinkToNextHop, hentry] at hmessages
      dsimp only at hmessages
      rw [hadd] at hmessages
      cases hmessages

/-- The RERRs that `RecvError` builds list what is lost; those of `SendRerrWhenBreaksLinkToNextHop` do exactly if the
neighbour has an entry and there are at most 255 destinations with it, or there are none. -/
theorem lists_iff (t : ListedTable) (now : ℤ) (badLinkLifetime : ℕ) (rerrHeader : RerrHeader)
    (src nextHop : Ipv4Address) :
    Lists (t.lostBy now badLinkLifetime rerrHeader src)
        (fun rounds => t.recvError now badLinkLifetime rounds rerrHeader src) ∧
      (Lists (t.lostThrough now badLinkLifetime nextHop)
          (fun rounds => t.sendRerrWhenBreaksLinkToNextHop now badLinkLifetime rounds nextHop) ↔
        (t.table.purge now badLinkLifetime nextHop).isSome = true ∧
            (t.lostThrough now badLinkLifetime nextHop).length ≤ 255 ∨
          t.lostThrough now badLinkLifetime nextHop = []) :=
  ⟨recvError_lists rerrHeader src, sendRerr_lists_iff nextHop⟩

/-- The destinations `0.0.0.0` to `0.0.0.255`, all through `0.0.0.1`. -/
def crowded : ListedTable where
  table dst := if dst.address.toNat < 256 then some (.new 0 true 1 none 2 ⟨1⟩ 10) else none
  listed := (List.range 256).map fun i => ⟨BitVec.ofNat 32 i⟩
  sorted := by
    refine List.pairwise_map.mpr (List.Pairwise.imp_of_mem ?_ List.pairwise_lt_range)
    intro a b ha hb hlt
    change (BitVec.ofNat 32 a).toNat < (BitVec.ofNat 32 b).toNat
    rw [List.mem_range] at ha hb
    rw [BitVec.toNat_ofNat, BitVec.toNat_ofNat, Nat.mod_eq_of_lt (by omega), Nat.mod_eq_of_lt (by omega)]
    exact hlt
  mem_listed dst h := by
    refine List.mem_map.mpr ⟨dst.address.toNat, List.mem_range.mpr ?_, ?_⟩
    · by_contra hnot
      simp [hnot] at h
    · rw [BitVec.ofNat_toNat, BitVec.setWidth_eq]
  precursorList _ := [⟨1000⟩]

/-- With 256 destinations behind a neighbour the assertion fails. -/
theorem not_lists_crowded :
    ¬∀ (t : ListedTable) (now : ℤ) (badLinkLifetime : ℕ) (nextHop : Ipv4Address),
      Lists (t.lostThrough now badLinkLifetime nextHop)
        (fun rounds => t.sendRerrWhenBreaksLinkToNextHop now badLinkLifetime rounds nextHop) := by
  intro h
  have hlength : (crowded.lostThrough 5 1 ⟨1⟩).length = 256 := by decide +kernel
  rcases (sendRerr_lists_iff _).mp (h crowded 5 1 ⟨1⟩) with ⟨-, hle⟩ | hnil
  · omega
  · rw [hnil] at hlength
    cases hlength

end ListedTable

end Aodv

end Ns3
