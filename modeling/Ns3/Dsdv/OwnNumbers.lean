import Ns3.Dsdv.LoopFreedom

/-!
# The sequence number that a DSDV node owns

A node numbers its periodic updates, and what others have of it comes from these numbers. The number is kept in the
entry for the broadcast address of the main interface.

* `RoutingProtocol.Keeps` — the invariant of a node, with a condition on numbers that covers what it receives;
  `Keeps.recvHeader`, `Keeps.sendTriggeredUpdate`, `Keeps.sendPeriodicUpdate`, `Keeps.routeOutput` — it is kept.
* `Numbered`, `Rises` — what is promised about the numbers in a network.
* `numbered_of_accepts` — that holds as long as only the main interface has an entry of no hops.
-/

namespace Ns3.Dsdv

open Lib

universe u

namespace RoutingProtocol

/-- A condition on the numbers of destinations that those of routes which break then keep. -/
def ClosedUnderBreak (ok : Ipv4Address → UInt32 → Prop) : Prop :=
  ∀ dst seqNo, ¬ Broken seqNo → ok dst seqNo → ok dst (seqNo + 1)

/-- The invariant of a node: its own entry is there, and all numbers of others meet the condition. -/
structure Keeps (n : RoutingProtocol) (own : RoutingTableEntry) (ok : Ipv4Address → UInt32 → Prop) : Prop where
  /-- The entry of the node itself. -/
  there : n.routingTable.lookup n.main.broadcast = some own
  entry : own.hops = 0 ∧ ¬ Broken own.seqNo ∧ own.flag = .valid ∧ n.nextHop n.main.broadcast own = n.main.broadcast
  main : n.main ∈ n.interfaces ∧ n.main.broadcast ≠ loopback
  waits : n.advRoutingTable.lookup n.main.broadcast = none
  /-- The node has no route to itself. -/
  mine : n.routingTable.lookup n.main.localAddress = none ∧ n.advRoutingTable.lookup n.main.localAddress = none
  fwd : ∀ d rt, n.routingTable.lookup d = some rt → ¬ Broken rt.seqNo ∧ (d ≠ n.main.broadcast → ok d rt.seqNo)
  adv : ∀ d rt, n.advRoutingTable.lookup d = some rt → ok d rt.seqNo

variable {n n' : RoutingProtocol} {own : RoutingTableEntry} {ok ok' : Ipv4Address → UInt32 → Prop} {now : ℤ}
  {sender : Ipv4Address} {h : DsdvHeader}

section

variable (hn : n.Keeps own ok)
include hn

theorem Keeps.mono (hok : ∀ d x, ok d x → ok' d x) : n.Keeps own ok' :=
  { hn with
    fwd := fun d rt hrt => ⟨(hn.fwd d rt hrt).1, fun hd => hok _ _ ((hn.fwd d rt hrt).2 hd)⟩
    adv := fun d rt hrt => hok _ _ (hn.adv d rt hrt) }

/-! ### Received updates -/

theorem Keeps.changes {fwd : RoutingTableEntry} {adv : Option RoutingTableEntry}
    (hchanges : Changes n n' h.dst (some fwd) adv) (hother : ¬ n.IsOwn h.dst) (hne : h.dst ≠ n.main.broadcast)
    (hfwd : ¬ Broken fwd.seqNo ∧ ok h.dst fwd.seqNo) (hadv : ∀ rt ∈ adv, ok h.dst rt.seqNo) : n'.Keeps own ok := by
  have hmine : n.main.localAddress ≠ h.dst := fun heq => hother ⟨n.main, hn.main.1, heq.symm⟩
  obtain ⟨hhops, heven, hvalid, hself⟩ := hn.entry
  refine ⟨?_, ⟨hhops, heven, hvalid, ?_⟩, ?_, ?_, ?_, fun d rt hrt => ?_, fun d rt hrt => ?_⟩
  · rw [hchanges.main, hchanges.fwd, if_neg hne.symm]
    exact hn.there
  · rw [hchanges.main, nextHop, hchanges.gateways _ hne.symm]
    exact hself
  · rw [hchanges.main, hchanges.interfaces]
    exact hn.main
  · rw [hchanges.main, hchanges.adv, if_neg hne.symm]
    exact hn.waits
  · rw [hchanges.main, hchanges.fwd, hchanges.adv, if_neg hmine, if_neg hmine]
    exact hn.mine
  · rw [hchanges.fwd] at hrt
    rw [hchanges.main]
    split_ifs at hrt with hd
    · cases hrt
      exact ⟨hfwd.1, fun _ => hd ▸ hfwd.2⟩
    · exact hn.fwd d rt hrt
  · rw [hchanges.adv] at hrt
    split_ifs at hrt with hd
    · exact hd ▸ hadv rt hrt
    · exact hn.adv d rt hrt

theorem Keeps.breaks {adv : RoutingTableEntry} (hok : ClosedUnderBreak ok)
    (hbreaks : Breaks n n' h adv) (hother : ¬ n.IsOwn h.dst) (hne : h.dst ≠ n.main.broadcast)
    (hh : ok h.dst h.dstSeqno) : n'.Keeps own ok := by
  have hmine : n.main.localAddress ≠ h.dst := fun heq => hother ⟨n.main, hn.main.1, heq.symm⟩
  obtain ⟨hhops, heven, hvalid, hself⟩ := hn.entry
  have hstays : ¬ n.GoesBy h.dst n.main.broadcast := by
    rintro ⟨rt, hrt, hnext⟩
    obtain rfl := Option.some.inj (hn.there.symm.trans hrt)
    exact hne (hnext.symm.trans hself)
  have hmineStays : ¬ n.GoesBy h.dst n.main.localAddress := by
    rintro ⟨rt, hrt, -⟩
    cases hn.mine.1.symm.trans hrt
  refine ⟨?_, ⟨hhops, heven, hvalid, ?_⟩, ?_, ?_, ?_, fun d rt hrt => ?_, fun d rt hrt => ?_⟩
  · rw [hbreaks.main, hbreaks.fwd, if_neg (not_or.mpr ⟨hne.symm, hstays⟩)]
    exact hn.there
  · rw [hbreaks.main, nextHop, hbreaks.gateways]
    exact hself
  · rw [hbreaks.main, hbreaks.interfaces]
    exact hn.main
  · rw [hbreaks.main, hbreaks.advStays _ hne.symm hstays]
    exact hn.waits
  · rw [hbreaks.main, hbreaks.fwd, if_neg (not_or.mpr ⟨hmine, hmineStays⟩), hbreaks.advStays _ hmine hmineStays]
    exact hn.mine
  · rw [hbreaks.fwd] at hrt
    rw [hbreaks.main]
    split_ifs at hrt
    exact hn.fwd d rt hrt
  · rcases hbreaks.adv_cases hrt with ⟨rfl, rfl⟩ | ⟨old, hold, hnext, rfl⟩ | hrt
    · exact hh
    · obtain ⟨hlive, hok'⟩ := hn.fwd d old hold
      exact hok d old.seqNo hlive (hok' fun heq => hstays ⟨old, heq ▸ hold, heq ▸ hnext⟩)
    · exact hn.adv d rt hrt

/-- An update that is not for the broadcast address, and whose number meets the condition. -/
theorem Keeps.recvHeader (hok : ClosedUnderBreak ok) (hne : h.dst ≠ n.main.broadcast)
    (hh : ok h.dst h.dstSeqno) (now : ℤ) (sender : Ipv4Address) : (recvHeader now sender n h).Keeps own ok := by
  have houtcome := recvHeader_outcome n now sender h
  generalize RoutingProtocol.recvHeader now sender n h = n' at houtcome ⊢
  have hcompare : ∀ {fwd adv : RoutingTableEntry}, n.Compared h.dst fwd adv →
      (¬ Broken fwd.seqNo ∧ ok h.dst fwd.seqNo) ∧ ok h.dst adv.seqNo := by
    intro fwd adv hcompared
    obtain ⟨hlive, hfwd⟩ := hn.fwd h.dst fwd hcompared.1
    refine ⟨⟨hlive, hfwd hne⟩, ?_⟩
    rcases hcompared.2 with hadv | ⟨-, rfl⟩
    · exact hn.adv h.dst adv hadv
    · exact hfwd hne
  cases houtcome with
  | ignored hwhy heq => exact heq ▸ hn
  | new hother hnone hseq hchanges hgateway hevents =>
    refine hn.changes hchanges hother hne ⟨hseq, hh⟩ fun rt hrt => ?_
    cases hrt
    cases hadv : n.advRoutingTable.lookup h.dst with
    | some a => exact hn.adv h.dst a hadv
    | none => exact hh
  | settles hother fwd adv hcompared hseq htakes hchanges hgateway =>
    refine hn.changes hchanges hother hne ⟨hseq, hh⟩ fun rt hrt => ?_
    cases hrt
    exact hh
  | advertises hother fwd adv hcompared hseq htakes hchanges hgateway hevents =>
    refine hn.changes hchanges hother hne (hcompare hcompared).1 fun rt hrt => ?_
    cases hrt
    exact hh
  | renews hother fwd adv hcompared hseq hsame hchanges hgateways hevents hrunning =>
    exact hn.changes hchanges hother hne ⟨hsame ▸ hseq, hsame ▸ hh⟩ fun rt hrt => (by cases hrt)
  | discards hother fwd adv hcompared hchanges hgateways hevents =>
    refine hn.changes hchanges hother hne (hcompare hcompared).1 fun rt hrt => ?_
    split_ifs at hrt
    · cases hrt
      exact (hcompare hcompared).2
    · cases hrt
  | breaks hother fwd adv hcompared hseq hsender hbreaks => exact hn.breaks hok hbreaks hother hne hh

theorem Keeps.recvDsdv (hok : ClosedUnderBreak ok) {packet : Packet}
    (hpacket : ∀ h ∈ packet.headers, h.dst ≠ n.main.broadcast ∧ ok h.dst h.dstSeqno) (now : ℤ) :
    (n.recvDsdv now packet).Keeps own ok ∧ (n.recvDsdv now packet).main = n.main := by
  have hheaders : ∀ (hs : List DsdvHeader) (n : RoutingProtocol), n.Keeps own ok →
      (∀ h ∈ hs, h.dst ≠ n.main.broadcast ∧ ok h.dst h.dstSeqno) →
      (hs.foldl (RoutingProtocol.recvHeader now packet.sender) n).Keeps own ok ∧
        (hs.foldl (RoutingProtocol.recvHeader now packet.sender) n).main = n.main := by
    intro hs
    induction hs with
    | nil => exact fun n hn _ => ⟨hn, rfl⟩
    | cons h hs ih =>
      intro n hn hall
      obtain ⟨hne, hh⟩ := hall h List.mem_cons_self
      have hmain := recvHeader_main n now packet.sender h
      obtain ⟨hkeeps, hsame⟩ := ih _ (hn.recvHeader hok hne hh now packet.sender) fun g hg => by
        rw [hmain]
        exact hall g (List.mem_cons_of_mem h hg)
      exact ⟨hkeeps, hsame.trans hmain⟩
  obtain ⟨hkeeps, hmain⟩ := hheaders packet.headers n hn hpacket
  exact ⟨{ hkeeps with }, hmain⟩

end

/-! ### Sent updates -/

/-- What a node sends: the number of its own address, and numbers of others that meet the condition. -/
def Fit (mine : Ipv4Address) (seqNo : UInt32) (ok : Ipv4Address → UInt32 → Prop) (h : DsdvHeader) : Prop :=
  h.dst = mine ∧ h.dstSeqno = seqNo ∨ h.dst ≠ mine ∧ ok h.dst h.dstSeqno

theorem Keeps.ne_of_adv (hn : n.Keeps own ok) {d : Ipv4Address} {rt : RoutingTableEntry}
    (hrt : n.advRoutingTable.lookup d = some rt) : d ≠ n.main.broadcast ∧ d ≠ n.main.localAddress := by
  constructor
  · rintro rfl
    cases hn.waits.symm.trans hrt
  · rintro rfl
    cases hn.mine.2.symm.trans hrt

variable {x : Ipv4Address × RoutingTableEntry}

/-- An entry that waited is merged. -/
theorem Keeps.merged (hn : n.Keeps own ok) (hmerged : Merged n n' x)
    (hne : x.1 ≠ n.main.broadcast ∧ x.1 ≠ n.main.localAddress) (hx : ok x.1 x.2.seqNo) : n'.Keeps own ok := by
  obtain ⟨hhops, heven, hvalid, hself⟩ := hn.entry
  have hadv : ∀ {d : Ipv4Address}, n.advRoutingTable.lookup d = none → n'.advRoutingTable.lookup d = none := by
    intro d hnone
    rw [hmerged.adv, hnone, ite_self]
  refine ⟨?_, ⟨hhops, heven, hvalid, ?_⟩, ?_, ?_, ⟨?_, ?_⟩, fun d rt hrt => ?_, fun d rt hrt => ?_⟩
  · rw [hmerged.main, hmerged.fwd, if_neg fun h => hne.1 h.1.symm]
    exact hn.there
  · rw [hmerged.main, nextHop, hmerged.gateways]
    exact hself
  · rw [hmerged.main, hmerged.interfaces]
    exact hn.main
  · rw [hmerged.main]
    exact hadv hn.waits
  · rw [hmerged.main, hmerged.fwd, if_neg fun h => hne.2 h.1.symm]
    exact hn.mine.1
  · rw [hmerged.main]
    exact hadv hn.mine.2
  · rw [hmerged.fwd] at hrt
    rw [hmerged.main]
    split_ifs at hrt with hd
    · obtain ⟨old, -, rfl⟩ := Option.map_eq_some_iff.mp hrt
      exact ⟨hd.2.2, fun _ => hd.1 ▸ hx⟩
    · exact hn.fwd d rt hrt
  · rw [hmerged.adv] at hrt
    split_ifs at hrt
    exact hn.adv d rt hrt

theorem Keeps.foldl_merged {f : RoutingProtocol → Ipv4Address × RoutingTableEntry → RoutingProtocol}
    (hf : ∀ n x, Merged n (f n x) x) (l : List (Ipv4Address × RoutingTableEntry)) (hn : n.Keeps own ok)
    (hl : ∀ x ∈ l, (x.1 ≠ n.main.broadcast ∧ x.1 ≠ n.main.localAddress) ∧ ok x.1 x.2.seqNo) :
    (l.foldl f n).Keeps own ok ∧ (l.foldl f n).main = n.main := by
  induction l generalizing n with
  | nil => exact ⟨hn, rfl⟩
  | cons x l ih =>
    obtain ⟨hne, hx⟩ := hl x List.mem_cons_self
    have hmain := (hf n x).main
    obtain ⟨hkeeps, hsame⟩ := ih (hn.merged (hf n x) hne hx) fun y hy => by
      rw [hmain]
      exact hl y (List.mem_cons_of_mem x hy)
    exact ⟨hkeeps, hsame.trans hmain⟩

theorem Keeps.of_listed (hn : n.Keeps own ok) (hx : x ∈ n.advRoutingTable.getListOfAllRoutes) :
    (x.1 ≠ n.main.broadcast ∧ x.1 ≠ n.main.localAddress) ∧ ok x.1 x.2.seqNo := by
  have hadv := RoutingTable.mem_getListOfAllRoutes hx
  exact ⟨hn.ne_of_adv hadv, hn.adv x.1 x.2 hadv⟩

theorem Keeps.sendTriggeredUpdate {packets : List Packet} (hn : n.Keeps own ok)
    (hsend : n.sendTriggeredUpdate = some (n', packets)) :
    n'.Keeps own ok ∧ n'.main = n.main ∧
      ∀ packet ∈ packets, ∀ h ∈ packet.headers, Fit n.main.localAddress own.seqNo ok h := by
  have hon : ∀ (allRoutes : List (Ipv4Address × RoutingTableEntry)) (ifaces : List Interface) (n : RoutingProtocol)
      (packets : List Packet), n.Keeps own ok →
      (∀ x ∈ allRoutes, (x.1 ≠ n.main.broadcast ∧ x.1 ≠ n.main.localAddress) ∧ ok x.1 x.2.seqNo) →
      sendTriggeredUpdateOn allRoutes ifaces n = some (n', packets) →
      n'.Keeps own ok ∧ n'.main = n.main ∧
        ∀ packet ∈ packets, ∀ h ∈ packet.headers, Fit n.main.localAddress own.seqNo ok h := by
    intro allRoutes ifaces
    induction ifaces with
    | nil =>
      intro n packets hn _ hsend
      cases hsend
      exact ⟨hn, rfl, fun packet hpacket => absurd hpacket List.not_mem_nil⟩
    | cons iface ifaces ih =>
      intro n packets hn hall hsend
      rw [sendTriggeredUpdateOn] at hsend
      split_ifs at hsend
      obtain ⟨⟨n₁, rest⟩, hrest, heq⟩ := Option.map_eq_some_iff.mp hsend
      obtain ⟨rfl, rfl⟩ := Prod.mk.inj heq
      obtain ⟨hkeeps, hmain⟩ := hn.foldl_merged advertise_merged allRoutes hall
      obtain ⟨hkeeps', hmain', hfit⟩ := ih _ _ hkeeps (by rw [hmain]; exact hall) hrest
      have hfit' : ∀ packet ∈ rest, ∀ h ∈ packet.headers, Fit n.main.localAddress own.seqNo ok h := by
        intro packet hpacket h hh
        rw [← hmain]
        exact hfit packet hpacket h hh
      refine ⟨hkeeps', hmain'.trans hmain, fun packet hpacket => ?_⟩
      split_ifs at hpacket with hempty
      · exact hfit' packet hpacket
      · rcases List.mem_cons.mp hpacket with rfl | hpacket
        · intro h hh
          rcases List.mem_cons.mp hh with rfl | hh
          · rw [ownHeader, hkeeps.there, hmain]
            exact .inl ⟨rfl, rfl⟩
          · obtain ⟨x, hx, rfl⟩ := List.mem_map.mp (List.mem_reverse.mp hh)
            obtain ⟨⟨-, hne⟩, hx⟩ := hall x (List.mem_of_mem_filter hx)
            exact .inr ⟨hne, hx⟩
        · exact hfit' packet hpacket
  exact hon _ _ _ _ hn (fun x hx => hn.of_listed hx) hsend

theorem Keeps.purge (hn : n.Keeps own ok) (now : ℤ) (holddownTime : ℕ) :
    Keeps { n with routingTable := (n.routingTable.purge n.gateways now holddownTime).1 } own ok := by
  obtain ⟨hhops, -, -, hself⟩ := hn.entry
  refine { hn with there := ?_, mine := ⟨?_, hn.mine.2⟩, fwd := fun d rt hrt => ?_ }
  · exact lookup_purge_own hn.there hhops hself
  · refine Option.eq_none_iff_forall_not_mem.mpr fun rt hrt => ?_
    cases hn.mine.1.symm.trans (RoutingTable.lookup_purge hrt)
  · exact hn.fwd d rt (RoutingTable.lookup_purge hrt)

variable {holddownTime : ℕ}

theorem Keeps.of_mem_purge (hn : n.Keeps own ok) (hok : ClosedUnderBreak ok)
    (hx : x ∈ (n.routingTable.purge n.gateways now holddownTime).2) :
    (x.1 ≠ n.main.broadcast ∧ x.1 ≠ n.main.localAddress) ∧ ok x.1 (x.2.seqNo + 1) := by
  obtain ⟨hwas, hgone⟩ := RoutingTable.mem_purge hx
  obtain ⟨hlive, hnumber⟩ := hn.fwd x.1 x.2 hwas
  have hne : x.1 ≠ n.main.broadcast := by
    intro heq
    rw [heq] at hgone
    cases hgone.symm.trans (hn.purge now holddownTime).there
  refine ⟨⟨hne, fun heq => ?_⟩, hok _ _ hlive (hnumber hne)⟩
  rw [heq] at hwas
  cases hn.mine.1.symm.trans hwas

theorem Keeps.routeOutput (hn : n.Keeps own ok) (hok : ClosedUnderBreak ok) :
    (n.routeOutput now holddownTime).Keeps own ok := by
  have hadd := lookup_foldl_addRoute broken (n.routingTable.purge n.gateways now holddownTime).2 n.advRoutingTable
  have hnone : ∀ {d : Ipv4Address}, n.advRoutingTable.lookup d = none →
      (∀ x ∈ (n.routingTable.purge n.gateways now holddownTime).2, x.1 ≠ d) →
      (n.routeOutput now holddownTime).advRoutingTable.lookup d = none := by
    intro d hd hgone
    refine Option.eq_none_iff_forall_not_mem.mpr fun rt hrt => ?_
    rcases (hadd d).1 rt hrt with hold | ⟨x, hx, heq, -⟩
    · cases hd.symm.trans hold
    · exact hgone x hx heq
  refine { hn.purge now holddownTime with waits := ?_, mine := ⟨?_, ?_⟩, adv := fun d rt hrt => ?_ }
  · exact hnone hn.waits fun x hx => (hn.of_mem_purge hok hx).1.1
  · exact (hn.purge now holddownTime).mine.1
  · exact hnone hn.mine.2 fun x hx => (hn.of_mem_purge hok hx).1.2
  · rcases (hadd d).1 rt hrt with hold | ⟨x, hx, rfl, rfl⟩
    · exact hn.adv d rt hold
    · exact (hn.of_mem_purge hok hx).2

/-! ### Periodic updates -/

/-- The routes that a periodic update is about. -/
def periodicRoutes (n : RoutingProtocol) (now : ℤ) (holddownTime : ℕ) : List (Ipv4Address × RoutingTableEntry) :=
  RoutingTable.getListOfAllRoutes (mergeTriggerPeriodicUpdates
    { n with routingTable := (n.routingTable.purge n.gateways now holddownTime).1 }).routingTable

/-- The condition on a periodic update: of the routes that it is about only the node's own has no hops, and the number
can be increased. -/
def NumbersOnce (n : RoutingProtocol) (now : ℤ) (holddownTime : ℕ) : Prop :=
  (∀ x ∈ n.periodicRoutes now holddownTime, x.2.hops = 0 → x.1 = n.main.broadcast) ∧
    ∀ own ∈ n.routingTable.lookup n.main.broadcast, own.seqNo.toNat + 2 < 2 ^ 32
deriving Decidable

/-- The entry of the node with its next number. -/
def nextNumber (own : RoutingTableEntry) : RoutingTableEntry := { own with seqNo := own.seqNo + 2 }

/-- The number is set where the entry has no hops. -/
theorem Keeps.setOwnSeqNo (hn : n.Keeps own ok) (now : ℤ) (hx : ¬ Broken x.2.seqNo) :
    (setOwnSeqNo now n x).Keeps (if x.2.hops = 0 then { own with seqNo := x.2.seqNo + 2 } else own) ok ∧
      (setOwnSeqNo now n x).main = n.main := by
  rw [RoutingProtocol.setOwnSeqNo]
  split_ifs with hhops
  · rw [hn.there]
    obtain ⟨hzero, -, hvalid, hself⟩ := hn.entry
    have hlookup (d : Ipv4Address) : (n.routingTable.update n.main.broadcast
        { own with seqNo := x.2.seqNo + 2 }).lookup d =
          if d = n.main.broadcast then some { own with seqNo := x.2.seqNo + 2 } else n.routingTable.lookup d := by
      rw [RoutingTable.lookup_update, hn.there, Option.map_some]
    have hne : n.main.localAddress ≠ n.main.broadcast := by
      intro heq
      cases (heq ▸ hn.mine.1).symm.trans hn.there
    refine ⟨{ hn with there := ?_, entry := ?_, mine := ⟨?_, hn.mine.2⟩, fwd := fun d rt hrt => ?_ }, rfl⟩
    · exact (hlookup _).trans (if_pos rfl)
    · exact ⟨hzero, not_broken_add_two hx, hvalid, hself⟩
    · exact ((hlookup _).trans (if_neg hne)).trans hn.mine.1
    · have hrt := (hlookup d).symm.trans hrt
      split_ifs at hrt with hd
      · cases hrt
        exact ⟨not_broken_add_two hx, fun hd' => absurd hd hd'⟩
      · exact hn.fwd d rt hrt
  · exact ⟨hn, rfl⟩

/-- The number is set for a list of entries, where one that has no hops is the node's own. -/
theorem Keeps.foldl_setOwnSeqNo {l : List (Ipv4Address × RoutingTableEntry)} {set : Bool}
    (hl : ∀ x ∈ l, ¬ Broken x.2.seqNo ∧ (x.2.hops = 0 → x.2 = own))
    (hn : n.Keeps (if set then nextNumber own else own) ok) (now : ℤ) :
    (l.foldl (RoutingProtocol.setOwnSeqNo now) n).Keeps
        (if set || l.any fun x => x.2.hops = 0 then nextNumber own else own) ok ∧
      (l.foldl (RoutingProtocol.setOwnSeqNo now) n).main = n.main := by
  induction l generalizing n set with
  | nil =>
    rw [List.any_nil, Bool.or_false]
    exact ⟨hn, rfl⟩
  | cons x l ih =>
    obtain ⟨hlive, hown⟩ := hl x List.mem_cons_self
    obtain ⟨hkeeps, hmain⟩ := hn.setOwnSeqNo now hlive
    have hset : (if x.2.hops = 0 then
          { (if set = true then nextNumber own else own : RoutingTableEntry) with seqNo := x.2.seqNo + 2 }
        else (if set = true then nextNumber own else own)) =
        if (set || decide (x.2.hops = 0)) = true then nextNumber own else own := by
      by_cases hhops : x.2.hops = 0
      · rw [if_pos hhops, decide_eq_true hhops, Bool.or_true, if_pos rfl, hown hhops]
        cases set <;> rfl
      · rw [if_neg hhops, decide_eq_false hhops, Bool.or_false]
    rw [hset] at hkeeps
    obtain ⟨hkeeps', hmain'⟩ := ih (fun y hy => hl y (List.mem_cons_of_mem x hy)) hkeeps
    rw [List.any_cons, ← Bool.or_assoc]
    exact ⟨hkeeps', hmain'.trans hmain⟩

/-- The number is set on all interfaces: it is the next one. -/
theorem Keeps.setOwnSeqNos {l : List (Ipv4Address × RoutingTableEntry)} {ifaces : List Interface}
    (hl : ∀ x ∈ l, ¬ Broken x.2.seqNo ∧ (x.2.hops = 0 → x.2 = own)) (hmem : ∃ x ∈ l, x.2.hops = 0)
    (hifaces : ifaces ≠ []) (hn : n.Keeps own ok) (now : ℤ) :
    (ifaces.foldl (fun n _ => l.foldl (RoutingProtocol.setOwnSeqNo now) n) n).Keeps (nextNumber own) ok ∧
      (ifaces.foldl (fun n _ => l.foldl (RoutingProtocol.setOwnSeqNo now) n) n).main = n.main := by
  have hany : (l.any fun x => x.2.hops = 0) = true := by
    rw [List.any_eq_true]
    obtain ⟨x, hx, hhops⟩ := hmem
    exact ⟨x, hx, decide_eq_true hhops⟩
  have honce : ∀ {n : RoutingProtocol} {set : Bool}, n.Keeps (if set then nextNumber own else own) ok →
      (l.foldl (RoutingProtocol.setOwnSeqNo now) n).Keeps (nextNumber own) ok ∧
        (l.foldl (RoutingProtocol.setOwnSeqNo now) n).main = n.main := by
    intro n set hn
    have hfold := Keeps.foldl_setOwnSeqNo hl hn now
    rwa [hany, Bool.or_true, if_pos rfl] at hfold
  have hrest : ∀ (ifaces : List Interface) (n : RoutingProtocol), n.Keeps (nextNumber own) ok →
      (ifaces.foldl (fun n _ => l.foldl (RoutingProtocol.setOwnSeqNo now) n) n).Keeps (nextNumber own) ok ∧
        (ifaces.foldl (fun n _ => l.foldl (RoutingProtocol.setOwnSeqNo now) n) n).main = n.main := by
    intro ifaces
    induction ifaces with
    | nil => exact fun n hn => ⟨hn, rfl⟩
    | cons iface ifaces ih =>
      intro n hn
      obtain ⟨hkeeps, hmain⟩ := @honce n true hn
      obtain ⟨hkeeps', hmain'⟩ := ih _ hkeeps
      exact ⟨hkeeps', hmain'.trans hmain⟩
  cases ifaces with
  | nil => exact absurd rfl hifaces
  | cons iface ifaces =>
    obtain ⟨hkeeps, hmain⟩ := @honce n false hn
    obtain ⟨hkeeps', hmain'⟩ := hrest ifaces _ hkeeps
    exact ⟨hkeeps', hmain'.trans hmain⟩

/-- A periodic update that meets the condition: the number is the next one, and all interfaces send it. -/
theorem Keeps.sendPeriodicUpdate (hn : n.Keeps own ok) (hok : ClosedUnderBreak ok)
    (honce : n.NumbersOnce now holddownTime) :
    (n.sendPeriodicUpdate now holddownTime).1.Keeps (nextNumber own) ok ∧
      (n.sendPeriodicUpdate now holddownTime).1.main = n.main ∧
      (∀ packet ∈ (n.sendPeriodicUpdate now holddownTime).2, ∀ h ∈ packet.headers,
        Fit n.main.localAddress (own.seqNo + 2) ok h) ∧
      ∃ packet ∈ (n.sendPeriodicUpdate now holddownTime).2, ∃ h ∈ packet.headers, h.dst = n.main.localAddress := by
  have hpurge := hn.purge now holddownTime
  obtain ⟨hkeeps, hmain⟩ := hpurge.foldl_merged mergeEntry_merged _ fun x hx => hpurge.of_listed hx
  obtain ⟨hroutes, -⟩ := honce
  rw [periodicRoutes, mergeTriggerPeriodicUpdates] at hroutes
  rw [RoutingProtocol.sendPeriodicUpdate]
  dsimp only [mergeTriggerPeriodicUpdates]
  generalize hmerged : List.foldl RoutingProtocol.mergeEntry _ _ = n₁ at hkeeps hmain hroutes ⊢
  have hmain : n₁.main = n.main := hmain
  obtain ⟨hzero, -, hvalid, -⟩ := hkeeps.entry
  have hown : (n₁.main.broadcast, own) ∈ n₁.routingTable.getListOfAllRoutes := by
    refine List.mem_filter.mpr ⟨RoutingTable.mem_list.mpr hkeeps.there, decide_eq_true ⟨?_, hvalid⟩⟩
    exact hkeeps.main.2
  have hlisted : ∀ x ∈ n₁.routingTable.getListOfAllRoutes, ¬ Broken x.2.seqNo ∧ (x.2.hops = 0 → x.2 = own) := by
    intro x hx
    have hlookup := RoutingTable.mem_getListOfAllRoutes hx
    refine ⟨(hkeeps.fwd x.1 x.2 hlookup).1, fun hhops => ?_⟩
    have hdst : x.1 = n₁.main.broadcast := (hroutes x hx hhops).trans (by rw [hmain])
    rw [hdst] at hlookup
    exact Option.some.inj (hlookup.symm.trans hkeeps.there)
  have hifaces : n₁.interfaces ≠ [] := List.ne_nil_of_mem hkeeps.main.1
  obtain ⟨hkeeps', hmain'⟩ := Keeps.setOwnSeqNos hlisted ⟨_, hown, hzero⟩ hifaces hkeeps now
  refine ⟨hkeeps', hmain'.trans hmain, fun packet hpacket h hh => ?_, ?_⟩
  · obtain ⟨iface, -, rfl⟩ := List.mem_map.mp hpacket
    rcases List.mem_append.mp (List.mem_reverse.mp hh) with hh | hh
    · obtain ⟨x, hx, rfl⟩ := List.mem_map.mp hh
      have hlookup := RoutingTable.mem_getListOfAllRoutes hx
      rw [periodicHeader, hmain]
      split_ifs with hhops
      · rw [(hlisted x hx).2 hhops]
        exact .inl ⟨rfl, rfl⟩
      · refine .inr ⟨?_, ?_⟩
        · intro heq
          change x.1 = n.main.localAddress at heq
          rw [heq, ← hmain] at hlookup
          cases hkeeps.mine.1.symm.trans hlookup
        · refine (hkeeps.fwd x.1 x.2 hlookup).2 fun heq => hhops ?_
          rw [heq] at hlookup
          obtain rfl := Option.some.inj (hkeeps.there.symm.trans hlookup)
          exact hzero
    · obtain ⟨x, hx, rfl⟩ := List.mem_map.mp hh
      obtain ⟨⟨-, hne⟩, hnumber⟩ := hn.of_mem_purge hok hx
      exact .inr ⟨hne, hnumber⟩
  · obtain ⟨iface, hiface⟩ := List.exists_mem_of_ne_nil _ hifaces
    refine ⟨_, List.mem_map_of_mem hiface, n₁.periodicHeader (n₁.main.broadcast, own), ?_, ?_⟩
    · exact List.mem_reverse.mpr (List.mem_append_left _ (List.mem_map_of_mem hown))
    · rw [periodicHeader, if_pos hzero, hmain]

/-- A node when it is set up. -/
theorem keeps_new {main : Interface} {others : List Interface} {maximumSimulationTime : ℤ}
    (hlocal : ∀ iface ∈ main :: others, main.localAddress ≠ iface.broadcast)
    (hloopback : main.localAddress ≠ loopback ∧ main.broadcast ≠ loopback) (hok : ∀ d, ok d 0) :
    (RoutingProtocol.new main others maximumSimulationTime).Keeps ⟨0, 0, maximumSimulationTime, 0, .valid, false⟩
      ok := by
  have heven : ¬ Broken 0 := by decide
  have hlookup := fun d => lookup_foldl_addRoute id
    (others.map fun iface => (iface.broadcast, ⟨0, 0, maximumSimulationTime, 0, .valid, false⟩))
    ((RoutingTable.addRoute ∅ loopback ⟨0, 0, maximumSimulationTime, 0, .invalid, false⟩).addRoute main.broadcast
      ⟨0, 0, maximumSimulationTime, 0, .valid, false⟩) d
  simp only [List.foldl_map, id_eq] at hlookup
  have hfirst (d : Ipv4Address) :
      ((RoutingTable.addRoute ∅ loopback ⟨0, 0, maximumSimulationTime, 0, .invalid, false⟩).addRoute main.broadcast
        ⟨0, 0, maximumSimulationTime, 0, .valid, false⟩).lookup d =
          if d = main.broadcast then some ⟨0, 0, maximumSimulationTime, 0, .valid, false⟩
          else if d = loopback then some ⟨0, 0, maximumSimulationTime, 0, .invalid, false⟩ else none := by
    rw [RoutingTable.lookup_addRoute, RoutingTable.lookup_addRoute, RoutingTable.lookup_addRoute, if_neg hloopback.2,
      AList.lookup_empty, AList.lookup_empty, AList.lookup_empty]
    rfl
  have hzero : ∀ d rt, (RoutingProtocol.new main others maximumSimulationTime).routingTable.lookup d = some rt →
      rt.seqNo = 0 ∧ (d = loopback ∨ ∃ iface ∈ main :: others, d = iface.broadcast) := by
    intro d rt hrt
    rcases (hlookup d).1 rt hrt with hrt | ⟨x, hx, hd, rfl⟩
    · rw [hfirst] at hrt
      split_ifs at hrt with hd hd'
      · cases hrt
        exact ⟨rfl, .inr ⟨main, List.mem_cons_self, hd⟩⟩
      · cases hrt
        exact ⟨rfl, .inl hd'⟩
    · obtain ⟨iface, hiface, rfl⟩ := List.mem_map.mp hx
      exact ⟨rfl, .inr ⟨iface, List.mem_cons_of_mem main hiface, hd.symm⟩⟩
  refine ⟨?_, ⟨rfl, heven, rfl, rfl⟩, ⟨List.mem_cons_self, hloopback.2⟩, rfl, ⟨?_, rfl⟩, fun d rt hrt => ?_,
    fun d rt hrt => (by cases hrt)⟩
  · have hown := (hfirst main.broadcast).trans (if_pos rfl)
    exact ((hlookup main.broadcast).2 (Option.isSome_iff_exists.mpr ⟨_, hown⟩)).trans hown
  · refine Option.eq_none_iff_forall_not_mem.mpr fun rt hrt => ?_
    rcases (hzero _ rt hrt).2 with heq | ⟨iface, hiface, heq⟩
    · exact hloopback.1 heq
    · exact hlocal iface hiface heq
  · rw [(hzero d rt hrt).1]
    exact ⟨heven, fun _ => hok d⟩

end RoutingProtocol

/-! ### A network -/

/-- The addresses of nodes with any number of interfaces. -/
structure Addresses (ι : Type u) where
  /-- The main interface of a node. -/
  main : ι → Interface
  others : ι → List Interface
  injective : Function.Injective fun i => (main i).localAddress
  /-- A main address is not that of a broadcast. -/
  localAddress_ne : ∀ i j, ∀ iface ∈ main j :: others j, (main i).localAddress ≠ iface.broadcast
  /-- It is not `127.0.0.1`. -/
  loopback_ne : ∀ i, (main i).localAddress ≠ RoutingProtocol.loopback ∧ (main i).broadcast ≠ RoutingProtocol.loopback

/-- A network, with the numbers that its nodes have advertised for their main addresses. -/
structure Numbering (ι : Type u) where
  network : Network ι
  /-- What a node has advertised, in order. -/
  advertised : ι → List UInt32

/-- The numbers for a destination in some packets. -/
def numbersOf (dst : Ipv4Address) (packets : List Packet) : List UInt32 :=
  packets.flatMap fun packet => (packet.headers.filter fun h => h.dst = dst).map DsdvHeader.dstSeqno

/-- The last number, if there is one. -/
def lastNumber (numbers : List UInt32) : ℕ := (numbers.getLast?.map UInt32.toNat).getD 0

namespace Numbering

variable {ι : Type u}

/-- The nodes when they are set up. -/
def init (a : Addresses ι) (maximumSimulationTime : ℤ) : Numbering ι where
  network := ⟨fun i => .new (a.main i) (a.others i) maximumSimulationTime, 0, []⟩
  advertised _ := []

/-- An event can happen: a packet was sent. -/
def Enabled (s : Numbering ι) (e : NetworkEvent ι) : Prop :=
  s.network.now ≤ e.now ∧
    match e.event with
    | .inl packet => packet ∈ s.network.packets
    | .inr event => (s.network.node e.node).Enabled event

/-- The network after an event at a node, with what the node has advertised in it. -/
def after [DecidableEq ι] (a : Addresses ι) (s : Numbering ι) (e : NetworkEvent ι) (network : Network ι) :
    Numbering ι where
  network
  advertised := Function.update s.advertised e.node (s.advertised e.node ++
    numbersOf (a.main e.node).localAddress (network.packets.drop s.network.packets.length))

/-- A network whose nodes run DSDV. -/
def machine [DecidableEq ι] (a : Addresses ι) (holddownTime : ℕ) : Machine (Numbering ι) (NetworkEvent ι) where
  enabled := Enabled
  exec s e := (Network.exec holddownTime s.network e).map (s.after a e)

/-- What is promised about the numbers: those that a node advertises for its main address are even, and what others
have of it is at most the last one, or by one greater. -/
structure Numbered (a : Addresses ι) (s : Numbering ι) : Prop where
  even : ∀ i, ∀ x ∈ s.advertised i, x.toNat % 2 = 0
  /-- What is in the tables of another node. -/
  stored : ∀ i j, j ≠ i → ∀ rt, (s.network.node j).routingTable.lookup (a.main i).localAddress = some rt ∨
    (s.network.node j).advRoutingTable.lookup (a.main i).localAddress = some rt →
      rt.seqNo.toNat ≤ lastNumber (s.advertised i) + 1

/-- What a node advertises in an event. -/
def newNumbers (s : Numbering ι) (e : NetworkEvent ι) (s' : Numbering ι) : List UInt32 :=
  (s'.advertised e.node).drop (s.advertised e.node).length

/-- What is promised about a periodic update: it advertises the main address, and with a greater number than before. -/
def Rises (s : Numbering ι) (e : NetworkEvent ι) (s' : Numbering ι) : Prop :=
  e.event = .inr .sendPeriodicUpdate →
    newNumbers s e s' ≠ [] ∧ ∀ x ∈ newNumbers s e s', ∀ y ∈ s.advertised e.node, y < x

/-- The condition: no update is for the broadcast address of its receiver, and only the own entry of a node has no hops
when it sends a periodic update. -/
def Accepts (holddownTime : ℕ) (s : Numbering ι) (e : NetworkEvent ι) : Prop :=
  match e.event with
  | .inl packet => ∀ h ∈ packet.headers, h.dst ≠ (s.network.node e.node).main.broadcast
  | .inr .sendPeriodicUpdate => (s.network.node e.node).NumbersOnce e.now holddownTime
  | .inr _ => True

/-- A number for a main address is at most by one greater than the last one that was advertised. -/
def Ok (a : Addresses ι) (s : Numbering ι) (dst : Ipv4Address) (seqNo : UInt32) : Prop :=
  ∀ i, dst = (a.main i).localAddress → seqNo.toNat ≤ lastNumber (s.advertised i) + 1

/-- The invariant. -/
structure Sound (a : Addresses ι) (s : Numbering ι) : Prop where
  /-- The nodes: the number of the own entry is the last one that was advertised. -/
  keeps : ∀ i, ∃ own, (s.network.node i).Keeps own (s.Ok a) ∧ own.seqNo.toNat = lastNumber (s.advertised i)
  main : ∀ i, (s.network.node i).main = a.main i
  packets : ∀ packet ∈ s.network.packets, ∀ h ∈ packet.headers, s.Ok a h.dst h.dstSeqno
  /-- The numbers that were advertised. -/
  advertised : ∀ i, ∀ x ∈ s.advertised i, x.toNat % 2 = 0 ∧ x.toNat ≤ lastNumber (s.advertised i)

variable {a : Addresses ι} {s : Numbering ι}

theorem Sound.numbered (h : s.Sound a) : s.Numbered a := by
  refine ⟨fun i x hx => (h.advertised i x hx).1, fun i j hj rt hrt => ?_⟩
  obtain ⟨own, hkeeps, -⟩ := h.keeps j
  rcases hrt with hfwd | hadv
  · refine (hkeeps.fwd _ rt hfwd).2 (fun heq => ?_) i rfl
    rw [h.main] at heq
    exact a.localAddress_ne i j (a.main j) List.mem_cons_self heq
  · exact hkeeps.adv _ rt hadv i rfl

/-- The last number is even: a route that breaks then has one that is at most by one greater. -/
theorem Sound.closed (h : s.Sound a) : RoutingProtocol.ClosedUnderBreak (s.Ok a) := by
  intro dst seqNo hlive hnumber i hdst
  have hle := hnumber i hdst
  obtain ⟨own, hkeeps, hown⟩ := h.keeps i
  have heven := hkeeps.entry.2.1
  rw [RoutingProtocol.broken_iff] at hlive heven
  rw [UInt32.toNat_add, UInt32.toNat_one]
  omega

theorem mem_numbersOf {dst : Ipv4Address} {packets : List Packet} {x : UInt32} :
    x ∈ numbersOf dst packets ↔ ∃ packet ∈ packets, ∃ h ∈ packet.headers, h.dst = dst ∧ h.dstSeqno = x := by
  simp only [numbersOf, List.mem_flatMap, List.mem_map, List.mem_filter, decide_eq_true_eq, and_assoc]

theorem lastNumber_append {numbers more : List UInt32} {x : UInt32} (hmore : ∀ y ∈ more, y = x)
    (hlast : more = [] → x.toNat = lastNumber numbers) : lastNumber (numbers ++ more) = x.toNat := by
  rcases List.eq_nil_or_concat more with rfl | ⟨before, y, rfl⟩
  · rw [List.append_nil, hlast rfl]
  · rw [List.concat_eq_append] at hmore ⊢
    rw [← List.append_assoc, lastNumber, List.getLast?_concat, Option.map_some, Option.getD_some,
      hmore y (List.mem_append_right _ (List.mem_singleton_self y))]

variable {e : NetworkEvent ι} {s' : Numbering ι} {n : RoutingProtocol} {packets : List Packet}
  {own own' : RoutingTableEntry}

/-- What an event at a node leaves: its number is not smaller, and is the one that it advertises. -/
structure Leaves (a : Addresses ι) (s : Numbering ι) (e : NetworkEvent ι) (own' : RoutingTableEntry)
    (n : RoutingProtocol) (packets : List Packet) : Prop where
  keeps : n.Keeps own' (s.Ok a)
  main : n.main = a.main e.node
  le : lastNumber (s.advertised e.node) ≤ own'.seqNo.toNat
  fit : ∀ packet ∈ packets, ∀ h ∈ packet.headers,
    RoutingProtocol.Fit (a.main e.node).localAddress own'.seqNo (s.Ok a) h
  /-- Where nothing is advertised, the number is as before. -/
  silent : numbersOf (a.main e.node).localAddress packets = [] →
    own'.seqNo.toNat = lastNumber (s.advertised e.node)

theorem Leaves.eq_of_mem (h : Leaves a s e own' n packets) {x : UInt32}
    (hx : x ∈ numbersOf (a.main e.node).localAddress packets) : x = own'.seqNo := by
  obtain ⟨packet, hpacket, header, hheader, hdst, rfl⟩ := mem_numbersOf.mp hx
  rcases h.fit packet hpacket header hheader with ⟨-, hnumber⟩ | ⟨hne, -⟩
  · exact hnumber
  · exact absurd hdst hne

variable [DecidableEq ι]

theorem Leaves.sound (h : Leaves a s e own' n packets) (hs : s.Sound a) :
    (s.after a e (s.network.after e.node e.now n packets)).Sound a := by
  have hnew : (s.network.after e.node e.now n packets).packets.drop s.network.packets.length = packets :=
    List.drop_left
  have hlast : lastNumber (s.advertised e.node ++ numbersOf (a.main e.node).localAddress packets) =
      own'.seqNo.toNat := lastNumber_append (fun y hy => h.eq_of_mem hy) h.silent
  have hadvertised (i : ι) : lastNumber ((s.after a e (s.network.after e.node e.now n packets)).advertised i) =
      if i = e.node then own'.seqNo.toNat else lastNumber (s.advertised i) := by
    rw [after, hnew]
    dsimp only
    split_ifs with hi
    · rw [hi, Function.update_self, hlast]
    · rw [Function.update_of_ne hi]
  have hok : ∀ d x, s.Ok a d x → (s.after a e (s.network.after e.node e.now n packets)).Ok a d x := by
    intro d x hx i hd
    have hle := hx i hd
    rw [hadvertised]
    split_ifs with hi
    · have hless := h.le
      rw [hi] at hle
      omega
    · exact hle
  refine ⟨fun i => ?_, fun i => ?_, fun packet hpacket header hheader => ?_, fun i x hx => ?_⟩
  · by_cases hi : i = e.node
    · subst hi
      refine ⟨own', ?_, ?_⟩
      · change RoutingProtocol.Keeps ((s.network.after e.node e.now n packets).node e.node) _ _
        rw [Network.node_after]
        exact h.keeps.mono hok
      · rw [hadvertised, if_pos rfl]
    · obtain ⟨own, hkeeps, hown⟩ := hs.keeps i
      refine ⟨own, ?_, ?_⟩
      · change RoutingProtocol.Keeps ((s.network.after e.node e.now n packets).node i) _ _
        rw [Network.node_after_of_ne hi]
        exact hkeeps.mono hok
      · rw [hadvertised, if_neg hi, hown]
  · change ((s.network.after e.node e.now n packets).node i).main = a.main i
    by_cases hi : i = e.node
    · subst hi
      rw [Network.node_after, h.main]
    · rw [Network.node_after_of_ne hi, hs.main]
  · rcases List.mem_append.mp hpacket with hold | hsent
    · exact hok _ _ (hs.packets packet hold header hheader)
    · rcases h.fit packet hsent header hheader with ⟨hdst, hnumber⟩ | ⟨-, hnumber⟩
      · intro i hi
        rw [hdst] at hi
        obtain rfl := a.injective hi
        rw [hadvertised, if_pos rfl, hnumber]
        exact Nat.le_succ _
      · exact hok _ _ hnumber
  · rw [hadvertised]
    rw [after, hnew] at hx
    dsimp only at hx
    split_ifs with hi
    · subst hi
      rw [Function.update_self] at hx
      rcases List.mem_append.mp hx with hx | hx
      · obtain ⟨heven, hle⟩ := hs.advertised e.node x hx
        exact ⟨heven, Nat.le_trans hle h.le⟩
      · have heven := h.keeps.entry.2.1
        rw [RoutingProtocol.broken_iff] at heven
        rw [h.eq_of_mem hx]
        omega
    · rw [Function.update_of_ne hi] at hx
      exact hs.advertised i x hx

/-- The events at a node: what it leaves, and a periodic update advertises a greater number. -/
theorem Sound.leaves {holddownTime : ℕ} (hs : s.Sound a) (haccepts : s.Accepts holddownTime e)
    (hstep : (machine a holddownTime).Step s e s') :
    ∃ own' n packets, Leaves a s e own' n packets ∧ s' = s.after a e (s.network.after e.node e.now n packets) ∧
      (e.event = .inr .sendPeriodicUpdate → numbersOf (a.main e.node).localAddress packets ≠ [] ∧
        lastNumber (s.advertised e.node) < own'.seqNo.toNat) := by
  obtain ⟨i, now, event⟩ := e
  obtain ⟨⟨-, henabled⟩, hexec⟩ := hstep
  obtain ⟨network, hnetwork, rfl⟩ := Option.map_eq_some_iff.mp hexec
  obtain ⟨own, hkeeps, hown⟩ := hs.keeps i
  have hmain := hs.main i
  cases event with
  | inl packet =>
    cases hnetwork
    obtain ⟨hkeeps', hmain'⟩ := hkeeps.recvDsdv hs.closed
      (fun h hh => ⟨haccepts h hh, hs.packets packet henabled h hh⟩) now
    refine ⟨own, _, [], ⟨hkeeps', hmain'.trans hmain, hown.ge, fun p hp => absurd hp List.not_mem_nil, fun _ => hown⟩,
      rfl, fun hperiodic => (by cases hperiodic)⟩
  | inr event =>
    obtain ⟨⟨n, packets⟩, hhandle, rfl⟩ := Option.map_eq_some_iff.mp hnetwork
    have htriggered : ∀ {events : Ipv4Address → Option Bool} {scheduled : ℕ},
        RoutingProtocol.sendTriggeredUpdate { s.network.node i with events, scheduled } = some (n, packets) →
          Leaves a s ⟨i, now, .inr event⟩ own n packets := by
      intro events scheduled hsend
      have hsame : RoutingProtocol.Keeps { s.network.node i with events, scheduled } own (s.Ok a) := { hkeeps with }
      obtain ⟨hkeeps', hmain', hfit⟩ := hsame.sendTriggeredUpdate hsend
      refine ⟨hkeeps', hmain'.trans hmain, hown.ge, fun p hp h hh => ?_, fun _ => hown⟩
      rw [← hmain]
      exact hfit p hp h hh
    cases event with
    | settle dst => exact ⟨own, n, packets, htriggered hhandle, rfl, fun hperiodic => (by cases hperiodic)⟩
    | sendTriggeredUpdate => exact ⟨own, n, packets, htriggered hhandle, rfl, fun hperiodic => (by cases hperiodic)⟩
    | routeOutput =>
      obtain ⟨rfl, rfl⟩ := Prod.mk.inj (Option.some.inj hhandle)
      refine ⟨own, _, [], ⟨hkeeps.routeOutput hs.closed, hmain, hown.ge, fun p hp => absurd hp List.not_mem_nil,
        fun _ => hown⟩, rfl, fun hperiodic => (by cases hperiodic)⟩
    | sendPeriodicUpdate =>
      obtain ⟨rfl, rfl⟩ := Prod.mk.inj (Option.some.inj hhandle)
      obtain ⟨hkeeps', hmain', hfit, packet, hpacket, header, hheader, hdst⟩ :=
        hkeeps.sendPeriodicUpdate hs.closed haccepts
      have hnext : (RoutingProtocol.nextNumber own).seqNo.toNat = own.seqNo.toNat + 2 := by
        rw [RoutingProtocol.nextNumber, UInt32.toNat_add, show (2 : UInt32).toNat = 2 from rfl]
        exact Nat.mod_eq_of_lt (haccepts.2 own hkeeps.there)
      have hnonempty : numbersOf (a.main i).localAddress
          ((s.network.node i).sendPeriodicUpdate now holddownTime).2 ≠ [] :=
        List.ne_nil_of_mem (mem_numbersOf.mpr ⟨packet, hpacket, header, hheader, hmain ▸ hdst, rfl⟩)
      refine ⟨_, _, _, ⟨hkeeps', hmain'.trans hmain, ?_, fun p hp h hh => ?_, fun hnone => absurd hnone hnonempty⟩, rfl,
        fun _ => ⟨hnonempty, ?_⟩⟩
      · rw [hnext, hown]
        exact Nat.le_add_right _ _
      · rw [← hmain]
        exact hfit p hp h hh
      · rw [hnext, hown]
        exact Nat.lt_add_of_pos_right Nat.zero_lt_two

theorem Sound.rises {holddownTime : ℕ} (hs : s.Sound a) (haccepts : s.Accepts holddownTime e)
    (hstep : (machine a holddownTime).Step s e s') : Rises s e s' := by
  intro hperiodic
  obtain ⟨own', n, packets, hleaves, rfl, hgreater⟩ := hs.leaves haccepts hstep
  obtain ⟨hnonempty, hlt⟩ := hgreater hperiodic
  have hnew : newNumbers s e (s.after a e (s.network.after e.node e.now n packets)) =
      numbersOf (a.main e.node).localAddress packets := by
    rw [newNumbers, after]
    dsimp only
    rw [Function.update_self, List.drop_left]
    exact congrArg _ List.drop_left
  rw [hnew]
  refine ⟨hnonempty, fun x hx y hy => ?_⟩
  rw [hleaves.eq_of_mem hx, UInt32.lt_iff_toNat_lt]
  exact Nat.lt_of_le_of_lt (hs.advertised e.node y hy).2 hlt

omit [DecidableEq ι] in
theorem sound_init (a : Addresses ι) (maximumSimulationTime : ℤ) : (init a maximumSimulationTime).Sound a := by
  refine ⟨fun i => ⟨⟨0, 0, maximumSimulationTime, 0, .valid, false⟩, ?_, rfl⟩, fun i => rfl,
    fun p hp => absurd hp List.not_mem_nil, fun i x hx => absurd hx List.not_mem_nil⟩
  exact RoutingProtocol.keeps_new (a.localAddress_ne i i) (a.loopback_ne i) fun d j _ => Nat.zero_le _

/-- Where only the main interface of a node has an entry of no hops when it sends a periodic update, and its number can
be increased, and no update is for a broadcast address, the numbers are as promised. -/
theorem numbered_of_accepts (a : Addresses ι) (holddownTime : ℕ) (maximumSimulationTime : ℤ)
    (tr : List (Numbering ι × NetworkEvent ι)) (s : Numbering ι)
    (h : (machine a holddownTime).Run (init a maximumSimulationTime) tr s)
    (haccepts : Machine.Meets (Accepts holddownTime) tr) :
    Machine.EveryState (Numbered a) tr s ∧ Machine.EveryStep Rises tr s := by
  have hstep : ∀ s e s', Sound a s → Accepts holddownTime s e → (machine a holddownTime).Step s e s' →
      Sound a s' ∧ Rises s e s' := by
    intro s e s' hs hacc hstep
    refine ⟨?_, hs.rises hacc hstep⟩
    obtain ⟨own', n, packets, hleaves, rfl, -⟩ := hs.leaves hacc hstep
    exact hleaves.sound hs
  have hsound : Machine.EveryState (Sound a) tr s :=
    h.everyState_of_meets haccepts (sound_init a maximumSimulationTime) fun s e s' hs hacc hs' =>
      (hstep s e s' hs hacc hs').1
  exact ⟨⟨fun x hx => (hsound.1 x hx).numbered, hsound.2.numbered⟩,
    h.everyStep_of_meets haccepts (sound_init a maximumSimulationTime) hstep⟩

omit [DecidableEq ι] in
instance (s : Numbering ι) (e : NetworkEvent ι) : Decidable (Enabled s e) :=
  match h : e.event with
  | .inl packet => decidable_of_iff (s.network.now ≤ e.now ∧ packet ∈ s.network.packets) (by rw [Enabled, h])
  | .inr event => decidable_of_iff (s.network.now ≤ e.now ∧ (s.network.node e.node).Enabled event)
      (by rw [Enabled, h])

instance (a : Addresses ι) (holddownTime : ℕ) (s : Numbering ι) (e : NetworkEvent ι) :
    Decidable ((machine a holddownTime).enabled s e) :=
  inferInstanceAs (Decidable (Enabled s e))

instance (holddownTime : ℕ) (s : Numbering ι) (e : NetworkEvent ι) : Decidable (Accepts holddownTime s e) :=
  match h : e.event with
  | .inl packet => decidable_of_iff (∀ h ∈ packet.headers, h.dst ≠ (s.network.node e.node).main.broadcast)
      (by rw [Accepts, h])
  | .inr .sendPeriodicUpdate => decidable_of_iff ((s.network.node e.node).NumbersOnce e.now holddownTime)
      (by rw [Accepts, h])
  | .inr (.settle _) => .isTrue (by rw [Accepts, h]; trivial)
  | .inr .sendTriggeredUpdate => .isTrue (by rw [Accepts, h]; trivial)
  | .inr .routeOutput => .isTrue (by rw [Accepts, h]; trivial)

instance (s : Numbering ι) (e : NetworkEvent ι) (s' : Numbering ι) : Decidable (Rises s e s') :=
  have : Decidable (∀ x ∈ newNumbers s e s', ∀ y ∈ s.advertised e.node, y < x) :=
    @List.decidableBAll _ _ (fun _ => List.decidableBAll _ _) _
  inferInstanceAs (Decidable (_ → _ ∧ _))

/-- The nodes `10.1.1.1` and `10.1.1.2`. -/
def twoNodes : Addresses (Fin 2) where
  main i := ⟨⟨0x0a010101 + BitVec.ofNat 32 i⟩, ⟨0x0a0101ff⟩⟩
  others _ := []
  injective := by
    unfold Function.Injective
    decide
  localAddress_ne := by decide
  loopback_ne := by decide

/-- `10.1.1.2` gets an update of `10.1.1.1`, and both send updates. -/
def rounds : List (NetworkEvent (Fin 2)) :=
  [⟨0, 0, .inr .sendPeriodicUpdate⟩, ⟨1, 0, .inl ⟨⟨0x0a010101⟩, [⟨⟨0x0a010101⟩, 1, 2⟩]⟩⟩,
    ⟨1, 0, .inr .sendTriggeredUpdate⟩, ⟨1, 15000000000, .inr .sendPeriodicUpdate⟩,
    ⟨0, 15000000000, .inr .sendPeriodicUpdate⟩]

theorem numbered_of_accepts_rounds : ∃ out,
    (machine twoNodes 45000000000).replay (init twoNodes 0) rounds = some out ∧ out.2.advertised 0 = [2, 4] ∧
      Machine.EveryState (Numbered twoNodes) out.1 out.2 ∧ Machine.EveryStep Rises out.1 out.2 := by
  obtain ⟨out, hout, hrun, hmeets, hlast⟩ := Machine.exists_replay (M := machine twoNodes 45000000000)
    (init twoNodes 0) rounds
    (P := fun out => Machine.Meets (Accepts 45000000000) out.1 ∧ out.2.advertised 0 = [2, 4]) (by decide +kernel)
  exact ⟨out, hout, hlast, numbered_of_accepts twoNodes 45000000000 0 out.1 out.2 hrun hmeets⟩

/-- The node `10.1.1.1`, which is `10.1.2.1` in another network. -/
def twoInterfaces : Addresses (Fin 1) where
  main _ := ⟨⟨0x0a010101⟩, ⟨0x0a0101ff⟩⟩
  others _ := [⟨⟨0x0a010201⟩, ⟨0x0a0102ff⟩⟩]
  injective := by
    unfold Function.Injective
    decide
  localAddress_ne := by decide
  loopback_ne := by decide

/-- The second update of the node has a number that the first had too. -/
theorem not_rises_twoInterfaces : ¬ ∀ (a : Addresses (Fin 1)) (holddownTime : ℕ) (maximumSimulationTime : ℤ)
    (tr : List (Numbering (Fin 1) × NetworkEvent (Fin 1))) (s : Numbering (Fin 1)),
    (machine a holddownTime).Run (init a maximumSimulationTime) tr s →
      Machine.EveryState (Numbered a) tr s ∧ Machine.EveryStep Rises tr s := by
  intro h
  obtain ⟨out, -, hrun, hnumbers⟩ := Machine.exists_replay (M := machine twoInterfaces 45000000000)
    (init twoInterfaces 0) [⟨0, 0, .inr .sendPeriodicUpdate⟩, ⟨0, 15000000000, .inr .sendPeriodicUpdate⟩]
    (P := fun out => ¬ Machine.EveryStep Rises out.1 out.2) (by decide +kernel)
  exact hnumbers (h _ _ _ _ _ hrun).2

end Numbering

end Ns3.Dsdv
