import Ns3.Lib.Keyed
import Ns3.Olsr.State
import Mathlib.Data.List.Induction

/-!
# The topology set of OLSR

`ProcessTc` and `TopologyTupleTimerExpire` (`olsr/model/olsr-routing-protocol.cc`) with the operations of `OlsrState`
on the topology set (`olsr/model/olsr-state.cc`), and what they leave in it.

* `Advertised` — the set after some of the addresses of a message; `foldl_advertise`.
* `processTc_cases` — a message is discarded, is older, or is taken.
-/

namespace Ns3.Olsr

open Lib

/-- What of a `TC_MESSAGE` is used here. -/
structure TcMessage where
  /-- `GetOriginatorAddress ()`. -/
  originatorAddress : Ipv4Address
  /-- `GetVTime ()`, which is not negative. -/
  vTime : ℕ
  ansn : UInt16
  neighborAddresses : List Ipv4Address

/-- What identifies a tuple. -/
def TopologyTuple.key (tuple : TopologyTuple) : Ipv4Address × Ipv4Address := (tuple.destAddr, tuple.lastAddr)

namespace OlsrState

variable (s : OlsrState)

/-- The first link to the interface, if it is symmetric. -/
def findSymLinkTuple (ifaceAddr : Ipv4Address) (now : ℤ) : Option LinkTuple :=
  match s.linkSet.find? fun tuple => tuple.neighborIfaceAddr = ifaceAddr with
  | some tuple => if now < tuple.symTime then some tuple else none
  | none => none

/-- The first tuple of the two addresses. -/
def findTopologyTuple (destAddr lastAddr : Ipv4Address) : Option TopologyTuple :=
  s.topologySet.find? fun tuple => tuple.key = (destAddr, lastAddr)

/-- A tuple of the originator with a greater number. -/
def findNewerTopologyTuple (lastAddr : Ipv4Address) (ansn : UInt16) : Option TopologyTuple :=
  s.topologySet.find? fun tuple => tuple.lastAddr = lastAddr ∧ ansn < tuple.sequenceNumber

/-- `EraseTopologyTuple`: the first one with the same addresses and the same number. -/
def eraseTopologyTuple (tuple : TopologyTuple) : OlsrState :=
  { s with topologySet := s.topologySet.eraseP fun other =>
      other.key = tuple.key ∧ other.sequenceNumber = tuple.sequenceNumber }

/-- The tuples of the originator with smaller numbers are removed. -/
def eraseOlderTopologyTuples (lastAddr : Ipv4Address) (ansn : UInt16) : OlsrState :=
  { s with
    topologySet := s.topologySet.filter fun tuple => ¬ (tuple.lastAddr = lastAddr ∧ tuple.sequenceNumber < ansn) }

/-- A tuple more. -/
def insertTopologyTuple (tuple : TopologyTuple) : OlsrState :=
  { s with topologySet := s.topologySet ++ [tuple] }

/-- An advertised neighbour of `ProcessTc`. -/
def advertise (msg : TcMessage) (now : ℤ) (s : OlsrState) (addr : Ipv4Address) : OlsrState :=
  match s.findTopologyTuple addr msg.originatorAddress with
  | some _ =>
    { s with
      topologySet := updateFirst (fun tuple => tuple.key = (addr, msg.originatorAddress))
        (fun tuple => { tuple with expirationTime := now + msg.vTime }) s.topologySet }
  | none => s.insertTopologyTuple ⟨addr, msg.originatorAddress, msg.ansn, now + msg.vTime⟩

/-- A TC message that is not older replaces what its originator said. -/
def processTc (now : ℤ) (msg : TcMessage) (senderIface : Ipv4Address) : OlsrState :=
  match s.findSymLinkTuple senderIface now with
  | none => s
  | some _ =>
    match s.findNewerTopologyTuple msg.originatorAddress msg.ansn with
    | some _ => s
    | none =>
      msg.neighborAddresses.foldl (advertise msg now) (s.eraseOlderTopologyTuples msg.originatorAddress msg.ansn)

/-- The tuple is removed if its time is over. -/
def topologyTupleTimerExpire (now : ℤ) (destAddr lastAddr : Ipv4Address) : OlsrState :=
  match s.findTopologyTuple destAddr lastAddr with
  | none => s
  | some tuple => if tuple.expirationTime < now then s.eraseTopologyTuple tuple else s

end OlsrState

namespace OlsrState

variable {s s' : OlsrState} {now : ℤ} {msg : TcMessage}

/-- There is one tuple for a key. -/
def Unique (s : OlsrState) : Prop := (s.topologySet.map TopologyTuple.key).Nodup

/-- A tuple of an originator for a destination is in the set. -/
def Holds (s : OlsrState) (lastAddr destAddr : Ipv4Address) : Prop :=
  ∃ tuple ∈ s.topologySet, tuple.key = (destAddr, lastAddr)
deriving Decidable

/-! ### A message -/

/-- The set after some of the addresses of a message. -/
structure Advertised (msg : TcMessage) (now : ℤ) (s : OlsrState) (addresses : List Ipv4Address) (s' : OlsrState) :
    Prop where
  /-- There is one tuple for a key. -/
  unique : s'.Unique
  /-- The tuples of the others stay. -/
  others : ∀ tuple, tuple.lastAddr ≠ msg.originatorAddress → (tuple ∈ s'.topologySet ↔ tuple ∈ s.topologySet)
  /-- The tuples of the originator. -/
  own : ∀ tuple ∈ s'.topologySet, tuple.lastAddr = msg.originatorAddress → tuple.sequenceNumber = msg.ansn ∧
    (tuple.destAddr ∉ addresses ∧ tuple ∈ s.topologySet ∨
      tuple.destAddr ∈ addresses ∧ tuple.expirationTime = now + msg.vTime)
  /-- What is advertised is there, and what was there. -/
  found : ∀ a, a ∈ addresses ∨ s.Holds msg.originatorAddress a → s'.Holds msg.originatorAddress a

theorem findTopologyTuple_eq_none {destAddr lastAddr : Ipv4Address} :
    s.findTopologyTuple destAddr lastAddr = none ↔ ¬ s.Holds lastAddr destAddr := by
  simp [findTopologyTuple, Holds]

theorem Advertised.advertise {addresses : List Ipv4Address} (h : Advertised msg now s addresses s')
    (addr : Ipv4Address) : Advertised msg now s (addresses ++ [addr]) (s'.advertise msg now addr) := by
  obtain ⟨hunique, hothers, hown, hfound⟩ := h
  rw [OlsrState.advertise]
  cases hfind : s'.findTopologyTuple addr msg.originatorAddress with
  | some found =>
    have hmem : ∀ tuple, tuple ∈ updateFirst (fun tuple => tuple.key = (addr, msg.originatorAddress))
        (fun tuple => { tuple with expirationTime := now + msg.vTime }) s'.topologySet ↔ _ :=
      fun tuple => mem_updateFirst hunique fun a b ha hb => ha.trans hb.symm
    have hholds : s'.Holds msg.originatorAddress addr := by
      by_contra hnot
      exact absurd (hfind.symm.trans (findTopologyTuple_eq_none.mpr hnot)) nofun
    refine ⟨?_, fun tuple hne => ?_, fun tuple htuple heq => ?_, fun a ha => ?_⟩
    · have hkeys : (updateFirst (fun tuple => tuple.key = (addr, msg.originatorAddress))
          (fun tuple => { tuple with expirationTime := now + msg.vTime }) s'.topologySet).map TopologyTuple.key =
          s'.topologySet.map TopologyTuple.key := map_updateFirst fun _ _ => rfl
      exact (congrArg List.Nodup hkeys).mpr hunique
    · rw [← hothers tuple hne]
      refine (hmem tuple).trans ⟨?_, fun htuple => .inl ⟨htuple, fun hkey => hne (congrArg Prod.snd hkey)⟩⟩
      rintro (⟨htuple, -⟩ | ⟨old, hold, hkey, rfl⟩)
      · exact htuple
      · exact absurd (congrArg Prod.snd hkey) hne
    · rcases (hmem tuple).mp htuple with ⟨htuple', hkey⟩ | ⟨old, hold, hkey, rfl⟩
      · obtain ⟨hseq, hcases⟩ := hown tuple htuple' heq
        have hne : tuple.destAddr ≠ addr := fun haddr => hkey (Prod.ext haddr heq)
        refine ⟨hseq, ?_⟩
        simpa [hne] using hcases
      · obtain ⟨hseq, -⟩ := hown old hold heq
        refine ⟨hseq, .inr ⟨?_, rfl⟩⟩
        have haddr : old.destAddr = addr := congrArg Prod.fst hkey
        simp [haddr]
    · have hholds' : s'.Holds msg.originatorAddress a := by
        rcases ha with ha | ha
        · rcases List.mem_append.mp ha with ha | ha
          · exact hfound a (.inl ha)
          · rw [List.mem_singleton.mp ha]
            exact hholds
        · exact hfound a (.inr ha)
      obtain ⟨old, hold, hkey⟩ := hholds'
      by_cases hsame : old.key = (addr, msg.originatorAddress)
      · exact ⟨_, (hmem _).mpr (.inr ⟨old, hold, hsame, rfl⟩), hkey⟩
      · exact ⟨old, (hmem _).mpr (.inl ⟨hold, hsame⟩), hkey⟩
  | none =>
    have hnot := findTopologyTuple_eq_none.mp hfind
    refine ⟨?_, fun tuple hne => ?_, fun tuple htuple heq => ?_, fun a ha => ?_⟩
    · rw [Unique, insertTopologyTuple, List.map_append, List.nodup_append]
      refine ⟨hunique, List.nodup_singleton _, ?_⟩
      rintro key hkey key' hkey' rfl
      obtain ⟨tuple, htuple, rfl⟩ := List.mem_map.mp hkey
      exact hnot ⟨tuple, htuple, List.mem_singleton.mp hkey'⟩
    · rw [← hothers tuple hne, insertTopologyTuple, List.mem_append, List.mem_singleton]
      refine ⟨?_, .inl⟩
      rintro (htuple | rfl)
      · exact htuple
      · exact absurd rfl hne
    · rcases List.mem_append.mp htuple with htuple | hnew
      · obtain ⟨hseq, hcases⟩ := hown tuple htuple heq
        have hne : tuple.destAddr ≠ addr := fun haddr => hnot ⟨tuple, htuple, Prod.ext haddr heq⟩
        refine ⟨hseq, ?_⟩
        simpa [hne] using hcases
      · obtain rfl := List.mem_singleton.mp hnew
        exact ⟨rfl, .inr ⟨by simp, rfl⟩⟩
    · have hadded : ∀ b, s'.Holds msg.originatorAddress b →
          (s'.insertTopologyTuple ⟨addr, msg.originatorAddress, msg.ansn, now + msg.vTime⟩).Holds
            msg.originatorAddress b := by
        rintro b ⟨tuple, htuple, hkey⟩
        exact ⟨tuple, List.mem_append_left _ htuple, hkey⟩
      rcases ha with ha | ha
      · rcases List.mem_append.mp ha with ha | ha
        · exact hadded a (hfound a (.inl ha))
        · rw [List.mem_singleton.mp ha]
          exact ⟨_, List.mem_append_right _ (List.mem_singleton_self _), rfl⟩
      · exact hadded a (hfound a (.inr ha))

/-- The set after the addresses of a message, when the tuples of the originator have its number. -/
theorem foldl_advertise (hunique : s.Unique)
    (hsame : ∀ tuple ∈ s.topologySet, tuple.lastAddr = msg.originatorAddress → tuple.sequenceNumber = msg.ansn)
    (addresses : List Ipv4Address) : Advertised msg now s addresses (addresses.foldl (advertise msg now) s) := by
  induction addresses using List.reverseRecOn with
  | nil =>
    refine ⟨hunique, fun tuple _ => .rfl, fun tuple htuple heq => ⟨hsame tuple htuple heq, .inl ⟨by simp, htuple⟩⟩,
      fun a ha => ?_⟩
    simpa using ha
  | append_singleton addresses addr ih =>
    rw [List.foldl_append, List.foldl_cons, List.foldl_nil]
    exact ih.advertise addr

/-- A message is taken: the set has what it advertises, until its time is over. -/
structure Taken (msg : TcMessage) (now : ℤ) (s s' : OlsrState) : Prop where
  /-- There is one tuple for a key. -/
  unique : s'.Unique
  /-- The tuples of the others stay. -/
  others : ∀ tuple, tuple.lastAddr ≠ msg.originatorAddress → (tuple ∈ s'.topologySet ↔ tuple ∈ s.topologySet)
  /-- The tuples of the originator that are not advertised had the number of the message before. -/
  own : ∀ tuple ∈ s'.topologySet, tuple.lastAddr = msg.originatorAddress → tuple.sequenceNumber = msg.ansn ∧
    (tuple.destAddr ∉ msg.neighborAddresses ∧ tuple ∈ s.topologySet ∨
      tuple.destAddr ∈ msg.neighborAddresses ∧ tuple.expirationTime = now + msg.vTime)
  /-- What is advertised is there. -/
  found : ∀ a ∈ msg.neighborAddresses, s'.Holds msg.originatorAddress a

/-- What becomes of a message: it comes over a link that is not symmetric, it is older than a tuple, or it is taken. -/
theorem processTc_cases (hunique : s.Unique) (now : ℤ) (msg : TcMessage) (senderIface : Ipv4Address) :
    (s.findSymLinkTuple senderIface now = none ∧ s.processTc now msg senderIface = s) ∨
    ((s.findSymLinkTuple senderIface now).isSome ∧ s.processTc now msg senderIface = s ∧
      ∃ tuple ∈ s.topologySet, tuple.lastAddr = msg.originatorAddress ∧ msg.ansn < tuple.sequenceNumber) ∨
    ((s.findSymLinkTuple senderIface now).isSome ∧ Taken msg now s (s.processTc now msg senderIface) ∧
      ∀ tuple ∈ s.topologySet, tuple.lastAddr = msg.originatorAddress → ¬ msg.ansn < tuple.sequenceNumber) := by
  rw [processTc]
  cases hlink : s.findSymLinkTuple senderIface now with
  | none => exact .inl ⟨rfl, rfl⟩
  | some link =>
    cases hnewer : s.findNewerTopologyTuple msg.originatorAddress msg.ansn with
    | some tuple =>
      have hfound := List.find?_some hnewer
      obtain ⟨haddr, hlt⟩ := of_decide_eq_true hfound
      exact .inr (.inl ⟨rfl, rfl, tuple, List.mem_of_find?_eq_some hnewer, haddr, hlt⟩)
    | none =>
      have hnot : ∀ tuple ∈ s.topologySet, tuple.lastAddr = msg.originatorAddress →
          ¬ msg.ansn < tuple.sequenceNumber := by
        intro tuple htuple heq hlt
        exact List.find?_eq_none.mp hnewer tuple htuple (decide_eq_true ⟨heq, hlt⟩)
      have hmem : ∀ tuple, tuple ∈ (s.eraseOlderTopologyTuples msg.originatorAddress msg.ansn).topologySet ↔
          tuple ∈ s.topologySet ∧ ¬ (tuple.lastAddr = msg.originatorAddress ∧ tuple.sequenceNumber < msg.ansn) := by
        intro tuple
        rw [eraseOlderTopologyTuples, List.mem_filter, decide_eq_true_iff]
      have hunique' : (s.eraseOlderTopologyTuples msg.originatorAddress msg.ansn).Unique :=
        (List.filter_sublist.map TopologyTuple.key).nodup hunique
      have hsame : ∀ tuple ∈ (s.eraseOlderTopologyTuples msg.originatorAddress msg.ansn).topologySet,
          tuple.lastAddr = msg.originatorAddress → tuple.sequenceNumber = msg.ansn := by
        intro tuple htuple heq
        obtain ⟨hold, hnotOlder⟩ := (hmem tuple).mp htuple
        have hge := hnot tuple hold heq
        have hle : ¬ tuple.sequenceNumber < msg.ansn := fun hlt => hnotOlder ⟨heq, hlt⟩
        exact UInt16.le_antisymm (UInt16.not_lt.mp hge) (UInt16.not_lt.mp hle)
      have hadvertised : Advertised msg now (s.eraseOlderTopologyTuples msg.originatorAddress msg.ansn)
          msg.neighborAddresses _ := foldl_advertise hunique' hsame msg.neighborAddresses
      refine .inr (.inr ⟨rfl, ⟨hadvertised.unique, fun tuple hne => ?_, fun tuple htuple heq => ?_,
        fun a ha => hadvertised.found a (.inl ha)⟩, hnot⟩)
      · rw [hadvertised.others tuple hne, hmem]
        simp [hne]
      · obtain ⟨hseq, hcases⟩ := hadvertised.own tuple htuple heq
        refine ⟨hseq, hcases.imp_left fun ⟨hnotMem, hold⟩ => ?_⟩
        exact ⟨hnotMem, ((hmem tuple).mp hold).1⟩

/-! ### The timer -/

/-- What becomes of the set when a timer fires: only a tuple whose time is over is removed. -/
theorem topologyTupleTimerExpire_spec (hunique : s.Unique) (now : ℤ) (destAddr lastAddr : Ipv4Address) :
    let s' := s.topologyTupleTimerExpire now destAddr lastAddr
    s'.Unique ∧ (∀ tuple ∈ s'.topologySet, tuple ∈ s.topologySet) ∧
      ∀ tuple ∈ s.topologySet, tuple ∈ s'.topologySet ∨ tuple.expirationTime < now := by
  rw [topologyTupleTimerExpire]
  cases hfind : s.findTopologyTuple destAddr lastAddr with
  | none => exact ⟨hunique, fun tuple htuple => htuple, fun tuple htuple => .inl htuple⟩
  | some found =>
    dsimp only
    split_ifs with hover
    · have hmem : found ∈ s.topologySet := List.mem_of_find?_eq_some hfind
      refine ⟨(List.eraseP_sublist.map TopologyTuple.key).nodup hunique, fun tuple htuple =>
        List.mem_of_mem_eraseP htuple, fun tuple htuple => ?_⟩
      by_cases hkey : tuple.key = found.key
      · obtain rfl : tuple = found := List.inj_on_of_nodup_map hunique htuple hmem hkey
        exact .inr hover
      · refine .inl ((List.mem_eraseP_of_neg ?_).mpr htuple)
        simp [hkey]
    · exact ⟨hunique, fun tuple htuple => htuple, fun tuple htuple => .inl htuple⟩

end OlsrState

end Ns3.Olsr
