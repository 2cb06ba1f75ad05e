import Ns3.Dsdv.Labels
import Mathlib.Algebra.GroupWithZero.Nat

/-!
# Routing loops in a network of DSDV nodes

Nodes with one interface each, and whatever packets they have sent: each may be received by any other node, at any time,
any number of times or never.

* `loopFree_of_admits` — where the packets of a run meet the condition, there is never a routing loop: what nodes have
  said and their routes are a sound `Lib.View`.
* `not_loopFree_updateBack` — a node whose route was removed takes a route from a neighbour that goes by the node
  itself.
-/

namespace Ns3.Dsdv

open Lib

universe u

/-- Nodes with one interface each, no two with the same address. -/
structure Topology (ι : Type u) where
  interface : ι → Interface
  injective : Function.Injective fun i => (interface i).localAddress
  /-- An address is not that of a broadcast. -/
  localAddress_ne : ∀ i j, (interface i).localAddress ≠ (interface j).broadcast
  /-- It is not `127.0.0.1`. -/
  loopback_ne : ∀ i, (interface i).localAddress ≠ RoutingProtocol.loopback ∧
    (interface i).broadcast ≠ RoutingProtocol.loopback

/-- Nodes, and the packets sent. -/
structure Network (ι : Type u) where
  node : ι → RoutingProtocol
  now : ℤ
  /-- The packets that were sent. -/
  packets : List Packet

/-- What happens at a node. -/
structure NetworkEvent (ι : Type u) where
  node : ι
  now : ℤ
  /-- A packet is received, or something else happens. -/
  event : Packet ⊕ RoutingProtocol.Event

namespace Network

variable {ι : Type u}

/-- The nodes when they are set up. -/
def init (t : Topology ι) (maximumSimulationTime : ℤ) : Network ι where
  node i := .new (t.interface i) [] maximumSimulationTime
  now := 0
  packets := []

/-- An event can happen: a packet was sent, and by another node. -/
def Enabled (t : Topology ι) (s : Network ι) (e : NetworkEvent ι) : Prop :=
  s.now ≤ e.now ∧
    match e.event with
    | .inl packet => packet ∈ s.packets ∧ packet.sender ≠ (t.interface e.node).localAddress
    | .inr event => (s.node e.node).Enabled event

/-- The network after an event at a node. -/
def after [DecidableEq ι] (s : Network ι) (i : ι) (now : ℤ) (n : RoutingProtocol) (packets : List Packet) :
    Network ι where
  node := Function.update s.node i n
  now
  packets := s.packets ++ packets

/-- What an event leaves; `none` where an assertion fails. -/
def exec [DecidableEq ι] (holddownTime : ℕ) (s : Network ι) (e : NetworkEvent ι) : Option (Network ι) :=
  match e.event with
  | .inl packet => some (after s e.node e.now ((s.node e.node).recvDsdv e.now packet) [])
  | .inr event => ((s.node e.node).handle e.now holddownTime event).map fun (n, packets) =>
      after s e.node e.now n packets

/-- A network whose nodes run DSDV. -/
def machine [DecidableEq ι] (t : Topology ι) (holddownTime : ℕ) : Machine (Network ι) (NetworkEvent ι) where
  enabled := Enabled t
  exec := exec holddownTime

/-- A node has an entry by another one. -/
def Next (t : Topology ι) (s : Network ι) (dst : Ipv4Address) (i j : ι) : Prop :=
  ∃ rt, (s.node i).routingTable.lookup dst = some rt ∧ (s.node i).nextHop dst rt = (t.interface j).localAddress

/-- There is no routing loop. -/
def LoopFree (t : Topology ι) (s : Network ι) : Prop := ∀ dst i, ¬ Relation.TransGen (s.Next t dst) i i

/-- Each update of a packet meets the condition in the tables as they are when it is read. -/
def AdmitsHeaders (packets : List Packet) (now : ℤ) (sender : Ipv4Address) :
    List DsdvHeader → RoutingProtocol → Prop
  | [], _ => True
  | h :: hs, n => n.Admits packets h ∧ AdmitsHeaders packets now sender hs (n.recvHeader now sender h)

/-- The condition on the packets that are received. -/
def Accepts (s : Network ι) (e : NetworkEvent ι) : Prop :=
  match e.event with
  | .inl packet => AdmitsHeaders s.packets e.now packet.sender packet.headers (s.node e.node)
  | .inr _ => True

/-- A destination is no broadcast address. -/
def Known (t : Topology ι) (dst : Ipv4Address) : Prop := ∀ i, dst ≠ (t.interface i).broadcast

/-- What nodes have said, and their routes. -/
def view (t : Topology ι) (s : Network ι) : View ι Ipv4Address where
  claims j := RoutingProtocol.Said s.packets (t.interface j).localAddress
  route i dst j := (s.node i).HasRoute dst (t.interface j).localAddress

/-- The invariant. -/
structure Sound (t : Topology ι) (s : Network ι) : Prop where
  /-- The nodes, with what they have said. -/
  tidy : ∀ i, (s.node i).Tidy (Known t) (RoutingProtocol.Said s.packets (t.interface i).localAddress)
  main : ∀ i, (s.node i).main = t.interface i
  /-- The packets are from nodes, and the hop count of an update is not zero. -/
  packets : ∀ packet ∈ s.packets, (∃ j, packet.sender = (t.interface j).localAddress) ∧
    ∀ h ∈ packet.headers, Known t h.dst ∧ (¬ RoutingProtocol.Broken h.dstSeqno → 0 < h.hopCount.toNat)
  view : (view t s).Sound

variable {t : Topology ι} {s : Network ι}

theorem Sound.loopFree (h : Sound t s) : LoopFree t s := by
  intro dst i hcycle
  refine h.view.acyclic dst i (Relation.TransGen.mono (fun j k hn => ?_) i i hcycle)
  obtain ⟨rt, hrt, hnext⟩ := hn
  refine ⟨rt.label, fun heq => ?_, rt, hrt, hnext, .inl rfl⟩
  -- the node's own entry goes by its broadcast address, which is no node's
  obtain ⟨own, hown, -, hself⟩ := (h.tidy j).own
  subst heq
  obtain rfl := Option.some.inj (hown.symm.trans hrt)
  rw [hself, h.main] at hnext
  exact t.localAddress_ne k j hnext.symm

section Step

variable {i : ι} {now : ℤ} {n : RoutingProtocol} {packets : List Packet}

section After

variable [DecidableEq ι]

theorem node_after : (after s i now n packets).node i = n := Function.update_self _ _ _

theorem node_after_of_ne {j : ι} (h : j ≠ i) : (after s i now n packets).node j = s.node j :=
  Function.update_of_ne h _ _

end After

/-- What an event at a node leaves: its routes are as before or from a packet, and what it sends is fair. -/
structure Leaves (t : Topology ι) (s : Network ι) (i : ι) (n : RoutingProtocol) (packets : List Packet) : Prop where
  tidy : n.Tidy (Known t) (RoutingProtocol.Said s.packets (t.interface i).localAddress)
  main : n.main = (s.node i).main
  routes : ∀ d nextHop l, n.HasRoute d nextHop l → (s.node i).HasRoute d nextHop l ∨
    ∃ c, RoutingProtocol.Said s.packets nextHop d c ∧ l < c ∧
      ∀ c', RoutingProtocol.Said s.packets (t.interface i).localAddress d c' → c' < c
  packets : ∀ packet ∈ packets, packet.sender = (t.interface i).localAddress ∧ ∀ h ∈ packet.headers, n.Fair (Known t) h

theorem said_append {sender d : Ipv4Address} {c : Label} {packets' : List Packet} :
    RoutingProtocol.Said (packets ++ packets') sender d c ↔
      RoutingProtocol.Said packets sender d c ∨ RoutingProtocol.Said packets' sender d c := by
  simp only [RoutingProtocol.Said, List.mem_append, or_and_right, exists_or]

theorem Leaves.said (hleaves : Leaves t s i n packets) {sender d : Ipv4Address} {c : Label}
    (hc : RoutingProtocol.Said packets sender d c) :
    sender = (t.interface i).localAddress ∧ Known t d ∧ ∀ nextHop l, n.HasRoute d nextHop l → c ≤ l := by
  obtain ⟨packet, hpacket, rfl, h, hh, hlive, rfl, rfl⟩ := hc
  obtain ⟨hsender, hfair⟩ := hleaves.packets packet hpacket
  exact ⟨hsender, (hfair h hh).1, ((hfair h hh).2 hlive).2⟩

theorem Leaves.view_step [DecidableEq ι] (hleaves : Leaves t s i n packets) :
    View.Step i (view t s) (view t (after s i now n packets)) where
  claims j d c hc := said_append.mpr (.inl hc)
  claims_other j d c hj hc := by
    rcases said_append.mp hc with hold | hnew
    · exact hold
    · exact absurd (t.injective (hleaves.said hnew).1) hj
  route_other j hj := by
    funext d k l
    simp only [view, node_after_of_ne hj]
  route d j l hroute := by
    rw [view] at hroute
    simp only [node_after] at hroute
    rcases hleaves.routes d _ l hroute with hold | ⟨c, hc, hlt, hfeasible⟩
    · exact .inl hold
    · exact .inr ⟨c, hc, hlt, hfeasible⟩
  said d c hc := by
    refine (said_append.mp hc).imp_right fun hnew j l hroute => ?_
    rw [view] at hroute
    simp only [node_after] at hroute
    exact (hleaves.said hnew).2.2 _ l hroute

/-- The network after an event keeps the invariant. -/
theorem Leaves.sound [DecidableEq ι] (hleaves : Leaves t s i n packets) (hs : Sound t s) :
    Sound t (after s i now n packets) where
  tidy j := by
    by_cases hj : j = i
    · subst hj
      rw [node_after]
      refine hleaves.tidy.saying fun d c hc => (said_append.mp hc).imp_right fun hnew => ?_
      exact (hleaves.said hnew).2
    · rw [node_after_of_ne hj]
      refine (hs.tidy j).saying fun d c hc => .inl ((said_append.mp hc).resolve_right fun hnew => hj ?_)
      exact t.injective (hleaves.said hnew).1
  main j := by
    by_cases hj : j = i
    · subst hj
      rw [node_after, hleaves.main, hs.main]
    · rw [node_after_of_ne hj, hs.main]
  packets packet hpacket := by
    rcases List.mem_append.mp hpacket with hold | hnew
    · exact hs.packets packet hold
    · obtain ⟨hsender, hfair⟩ := hleaves.packets packet hnew
      exact ⟨⟨i, hsender⟩, fun h hh => ⟨(hfair h hh).1, fun hlive => ((hfair h hh).2 hlive).1⟩⟩
  view := hs.view.step hleaves.view_step

variable {packet : Packet}

/-- One update of a packet. -/
theorem Sound.leaves_recvHeader (hs : Sound t s) (hpacket : packet ∈ s.packets) {h : DsdvHeader}
    (hh : h ∈ packet.headers) (hadmits : (s.node i).Admits s.packets h) (now : ℤ) :
    Leaves t s i ((s.node i).recvHeader now packet.sender h) [] := by
  obtain ⟨hknown, hpos⟩ := (hs.packets packet hpacket).2 h hh
  have htidy := hs.tidy i
  rw [← hs.main i] at htidy
  obtain ⟨htidy', hlearns⟩ := htidy.recvHeader hknown hpos hadmits now packet.sender
  rw [hs.main i] at htidy' hlearns
  refine ⟨htidy', RoutingProtocol.recvHeader_main _ _ _ _, fun d nh l hroute => ?_,
    fun p hp => absurd hp List.not_mem_nil⟩
  refine (hlearns d nh l hroute).imp_right ?_
  rintro ⟨rfl, rfl, hlive, hlt, hfeasible⟩
  exact ⟨h.claim, ⟨packet, hpacket, rfl, h, hh, hlive, rfl, rfl⟩, hlt, hfeasible⟩

variable [DecidableEq ι]

/-- The updates of a packet one after the other. -/
theorem Sound.recvHeaders (hs : Sound t s) (hpacket : packet ∈ s.packets) {headers : List DsdvHeader}
    (hsub : ∀ h ∈ headers, h ∈ packet.headers)
    (hadmits : AdmitsHeaders s.packets now packet.sender headers (s.node i)) :
    Sound t (after s i now (headers.foldl (RoutingProtocol.recvHeader now packet.sender) (s.node i)) []) := by
  induction headers generalizing s with
  | nil =>
    have hleaves : Leaves t s i (s.node i) [] := ⟨hs.tidy i, rfl, fun _ _ _ hroute => .inl hroute,
      fun p hp => absurd hp List.not_mem_nil⟩
    exact hleaves.sound hs
  | cons h headers ih =>
    obtain ⟨hfirst, hrest⟩ := hadmits
    have hleaves := hs.leaves_recvHeader hpacket (hsub h List.mem_cons_self) hfirst now
    have hs' : Sound t (after s i now _ []) := hleaves.sound hs
    have hsame : ∀ n, after (after s i now ((s.node i).recvHeader now packet.sender h) []) i now n [] =
        after s i now n [] := by
      intro n
      simp only [after, Function.update_idem, List.append_nil]
    rw [List.foldl_cons, ← hsame]
    have hend := ih hs' (List.mem_append_left _ hpacket) (fun g hg => hsub g (List.mem_cons_of_mem h hg)) ?_
    · rwa [node_after] at hend
    · rw [node_after]
      simpa only [after, List.append_nil] using hrest

theorem Sound.recvDsdv (hs : Sound t s) (hpacket : packet ∈ s.packets)
    (hadmits : AdmitsHeaders s.packets now packet.sender packet.headers (s.node i)) :
    Sound t (after s i now ((s.node i).recvDsdv now packet) []) := by
  have hread := hs.recvHeaders hpacket (fun h hh => hh) hadmits
  have hleaves : Leaves t (after s i now (packet.headers.foldl (RoutingProtocol.recvHeader now packet.sender)
      (s.node i)) []) i ((s.node i).recvDsdv now packet) [] := by
    have htidy := hread.tidy i
    rw [node_after] at htidy
    refine ⟨{ htidy with }, by rw [node_after]; rfl, fun d nh l hroute => .inl ?_,
      fun p hp => absurd hp List.not_mem_nil⟩
    rw [node_after]
    exact hroute
  have hend : Sound t (after _ i now _ []) := hleaves.sound hread
  simpa only [after, Function.update_idem, List.append_nil] using hend

theorem Sound.handle (hs : Sound t s) {holddownTime : ℕ} {event : RoutingProtocol.Event}
    (hhandle : (s.node i).handle now holddownTime event = some (n, packets)) : Sound t (after s i now n packets) := by
  have hsends := (hs.tidy i).handle hhandle
  have hleaves : Leaves t s i n packets := ⟨hsends.tidy, hsends.main, fun d nh l hroute =>
    .inl (hsends.routes d nh l hroute), fun p hp => by rw [← hs.main i]; exact hsends.packets p hp⟩
  exact hleaves.sound hs

end Step

theorem sound_init (t : Topology ι) (maximumSimulationTime : ℤ) : Sound t (init t maximumSimulationTime) := by
  have htidy : ∀ i, ((init t maximumSimulationTime).node i).Tidy (Known t)
      (RoutingProtocol.Said [] (t.interface i).localAddress) := by
    intro i
    refine RoutingProtocol.tidy_new (fun j => t.localAddress_ne i j) (fun hknown => hknown i rfl)
      (fun j => Ne.symm (t.loopback_ne j).2) (t.loopback_ne i).1 ?_
    rintro d c ⟨packet, hpacket, -⟩
    exact absurd hpacket List.not_mem_nil
  refine ⟨htidy, fun i => rfl, fun packet hpacket => absurd hpacket List.not_mem_nil, ?_⟩
  rintro i d j l ⟨hne, rt, hrt, hnext, -⟩
  -- an entry goes by its destination, which is no node's address
  have hd : d = (t.interface j).localAddress := hnext
  have hne' : d ≠ (t.interface i).broadcast := hne
  have hnone := (RoutingProtocol.lookup_new_single (t.loopback_ne i).2 maximumSimulationTime d).symm.trans hrt
  rw [if_neg hne', if_neg (hd ▸ (t.loopback_ne j).1)] at hnone
  cases hnone

variable [DecidableEq ι]

/-- Where each update that makes a new route says better of the destination than all that the node has said itself, and
nothing waits for the destination, and hop counts can be increased, there is no routing loop. -/
theorem loopFree_of_admits (t : Topology ι) (holddownTime : ℕ) (maximumSimulationTime : ℤ)
    (tr : List (Network ι × NetworkEvent ι)) (s : Network ι)
    (h : (machine t holddownTime).Run (init t maximumSimulationTime) tr s) (haccepts : Machine.Meets Accepts tr) :
    Machine.EveryState (LoopFree t) tr s := by
  have hsound : Machine.EveryState (Sound t) tr s := by
    refine h.everyState_of_meets haccepts (sound_init t maximumSimulationTime) ?_
    rintro s ⟨i, now, event⟩ s' hs hacc ⟨henabled, hexec⟩
    cases event with
    | inl packet =>
      cases hexec
      exact hs.recvDsdv henabled.2.1 hacc
    | inr event =>
      obtain ⟨⟨n, packets⟩, hhandle, rfl⟩ := Option.map_eq_some_iff.mp hexec
      exact hs.handle hhandle
  exact ⟨fun x hx => (hsound.1 x hx).loopFree, hsound.2.loopFree⟩

instance (n : RoutingProtocol) (packets : List Packet) (h : DsdvHeader) : Decidable (n.Admits packets h) :=
  inferInstanceAs (Decidable (_ ∧ (_ ∨ _ ∨ _ ∨ _ ∧ ∀ _ ∈ _, _ → ∀ _ ∈ _, _ → _ → _)))

instance decidableAdmitsHeaders (packets : List Packet) (now : ℤ) (sender : Ipv4Address) :
    ∀ (hs : List DsdvHeader) (n : RoutingProtocol), Decidable (AdmitsHeaders packets now sender hs n)
  | [], _ => .isTrue trivial
  | h :: hs, n =>
    have := decidableAdmitsHeaders packets now sender hs (n.recvHeader now sender h)
    inferInstanceAs (Decidable (_ ∧ _))

instance (t : Topology ι) (s : Network ι) (e : NetworkEvent ι) : Decidable (Enabled t s e) :=
  match h : e.event with
  | .inl packet => decidable_of_iff
      (s.now ≤ e.now ∧ packet ∈ s.packets ∧ packet.sender ≠ (t.interface e.node).localAddress) (by rw [Enabled, h])
  | .inr event => decidable_of_iff (s.now ≤ e.now ∧ (s.node e.node).Enabled event) (by rw [Enabled, h])

instance (t : Topology ι) (holddownTime : ℕ) (s : Network ι) (e : NetworkEvent ι) :
    Decidable ((machine t holddownTime).enabled s e) :=
  inferInstanceAs (Decidable (Enabled t s e))

instance (s : Network ι) (e : NetworkEvent ι) : Decidable (Accepts s e) :=
  match h : e.event with
  | .inl packet => decidable_of_iff
      (AdmitsHeaders s.packets e.now packet.sender packet.headers (s.node e.node)) (by rw [Accepts, h])
  | .inr _ => .isTrue (by rw [Accepts, h]; trivial)

/-- The nodes `10.1.1.1`, `10.1.1.2` and `10.1.1.3`. -/
def threeNodes : Topology (Fin 3) where
  interface i := ⟨⟨0x0a010101 + BitVec.ofNat 32 i⟩, ⟨0x0a0101ff⟩⟩
  injective := by
    unfold Function.Injective
    decide
  localAddress_ne := by decide
  loopback_ne := by decide

instance : NeZero 3 := ⟨Nat.succ_ne_zero 2⟩

/-- `10.1.1.2` gets the update of `10.1.1.3`, and `10.1.1.1` that of `10.1.1.2`. -/
def updates : List (NetworkEvent (Fin 3)) :=
  [⟨2, 0, .inr .sendPeriodicUpdate⟩, ⟨1, 0, .inl ⟨⟨0x0a010103⟩, [⟨⟨0x0a010103⟩, 1, 2⟩]⟩⟩,
    ⟨1, 15000000000, .inr .sendPeriodicUpdate⟩,
    ⟨0, 15000000000, .inl ⟨⟨0x0a010102⟩, [⟨⟨0x0a010102⟩, 1, 2⟩, ⟨⟨0x0a010103⟩, 2, 2⟩]⟩⟩]

/-- `10.1.1.2` gets the update of `10.1.1.1`. -/
def updateBack : List (NetworkEvent (Fin 3)) :=
  [⟨0, 47000000000, .inr .sendPeriodicUpdate⟩, ⟨1, 47000000000,
    .inl ⟨⟨0x0a010101⟩, [⟨⟨0x0a010101⟩, 1, 2⟩, ⟨⟨0x0a010103⟩, 3, 2⟩, ⟨⟨0x0a010102⟩, 2, 2⟩]⟩⟩]

theorem loopFree_of_admits_updates : ∃ out,
    (machine threeNodes 45000000000).replay (init threeNodes 0) (updates ++ updateBack) = some out ∧
      Machine.EveryState (LoopFree threeNodes) out.1 out.2 := by
  obtain ⟨out, hout, hrun, hmeets⟩ := Machine.exists_replay (M := machine threeNodes 45000000000) (init threeNodes 0)
    (updates ++ updateBack) (P := fun out => Machine.Meets Accepts out.1) (by decide +kernel)
  exact ⟨out, hout, loopFree_of_admits threeNodes 45000000000 0 out.1 out.2 hrun hmeets⟩

/-- `10.1.1.2` has removed its route to `10.1.1.3` before it gets the update of `10.1.1.1`, which goes by it. -/
theorem not_loopFree_updateBack : ¬ ∀ (tr : List (Network (Fin 3) × NetworkEvent (Fin 3))) (s : Network (Fin 3)),
    (machine threeNodes 45000000000).Run (init threeNodes 0) tr s →
      Machine.EveryState (LoopFree threeNodes) tr s := by
  intro h
  obtain ⟨out, -, hrun, ⟨rt, hrt, hnext⟩, rt', hrt', hnext'⟩ :=
    Machine.exists_replay (M := machine threeNodes 45000000000) (init threeNodes 0)
      (updates ++ ⟨1, 46000000000, .inr .sendPeriodicUpdate⟩ :: updateBack)
      (P := fun out => (out.2.node 0).GoesBy (threeNodes.interface 1).localAddress ⟨0x0a010103⟩ ∧
        (out.2.node 1).GoesBy (threeNodes.interface 0).localAddress ⟨0x0a010103⟩) (by decide +kernel)
  exact (h out.1 out.2 hrun).2 ⟨0x0a010103⟩ 0
    (.tail (.single (b := 1) ⟨rt, hrt, hnext⟩) ⟨rt', hrt', hnext'⟩)

end Network

end Ns3.Dsdv
