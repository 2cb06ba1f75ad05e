import Mathlib.Order.Lattice.Nat
import Ns3.Internet.Ipv4EndPointDemux
import Ns3.Lib.Machine

/-!
# The end points of TCP sockets

What the TCP sockets of a node do with the demux (`internet/model/tcp-socket-base.cc`): `Bind` allocates an end
point, `Connect` gives it a peer and the local address of the route, a fork allocates one for its peer, and closing
gives it back.

## What is proved

* `Sound.unambiguous` — where no two end points have the same addresses and ports, a segment to one host is for one
  end point at most, the one that matches it best.
* `receive_unambiguous` — that is so in every run in which an end point is given a whole peer, and not the
  addresses and ports of another one.
-/

namespace Ns3

open Lib Ipv4EndPointDemux

/-- The demux of a node, and its TCP sockets. -/
structure TcpNode where
  /-- `m_endPoints`. -/
  demux : Ipv4EndPointDemux
  /-- The `m_endPoint` of each socket, in the order they were made. -/
  sockets : List (Option ℕ)

namespace TcpNode

/-- A node without sockets. -/
def new : TcpNode := ⟨.new, []⟩

/-- The `m_endPoint` of a socket. -/
def endPoint (n : TcpNode) (k : ℕ) : Option ℕ := (n.sockets[k]?).join

/-- An assignment of `m_endPoint`. -/
def assign (n : TcpNode) (k : ℕ) (allocated : Option ℕ × Ipv4EndPointDemux) : TcpNode :=
  ⟨allocated.2, n.sockets.set k allocated.1⟩

/-- `Bind ()`. -/
def bindAny (n : TcpNode) (k : ℕ) : TcpNode := n.assign k n.demux.allocateAny

/-- `Bind (address)`. -/
def bind (n : TcpNode) (k : ℕ) (ipv4 : Ipv4Address) (port : ℕ) : TcpNode :=
  n.assign k <|
    if ipv4 = .any ∧ port = 0 then n.demux.allocateAny
    else if ipv4 = .any ∧ port ≠ 0 then n.demux.allocatePort port
    else if ipv4 ≠ .any ∧ port = 0 then n.demux.allocateAddress ipv4
    else n.demux.allocateLocal ipv4 port

/-- `Bind ()`, where there is no end point yet. -/
def ensureBound (n : TcpNode) (k : ℕ) : TcpNode := if n.endPoint k = none then n.bindAny k else n

/-- A change of the end point of a socket. -/
def modifyEndPoint (n : TcpNode) (k : ℕ) (f : Ipv4EndPoint → Ipv4EndPoint) : TcpNode :=
  match n.endPoint k with
  | none => n
  | some id => { n with demux := n.demux.modify id f }

/-- What `Connect` and `SetupEndpoint` make of an end point: `route` is the source address of the route, if there is
one. -/
def connected (address : Ipv4Address) (port : ℕ) (route : Option Ipv4Address) (e : Ipv4EndPoint) : Ipv4EndPoint :=
  match route with
  | none => e.setPeer address port
  | some source => (e.setPeer address port).setLocalAddress source

/-- `Connect`, as far as end points go. -/
def connect (n : TcpNode) (k : ℕ) (address : Ipv4Address) (port : ℕ) (route : Option Ipv4Address) : TcpNode :=
  (n.ensureBound k).modifyEndPoint k (connected address port route)

/-- The socket takes packets of the device only. -/
def bindToNetDevice (n : TcpNode) (k : ℕ) (netdevice : Option ℕ) : TcpNode :=
  (n.ensureBound k).modifyEndPoint k (Ipv4EndPoint.bindToNetDevice netdevice)

/-- `Fork` and `CompleteFork`. -/
def fork (n : TcpNode) (toAddr : Ipv4Address) (toPort : ℕ) (fromAddr : Ipv4Address) (fromPort : ℕ) : TcpNode :=
  let (id, demux) := n.demux.allocatePeer toAddr toPort fromAddr fromPort
  ⟨demux, n.sockets ++ [id]⟩

/-- The socket gives up its end point. -/
def deallocateEndPoint (n : TcpNode) (k : ℕ) : TcpNode :=
  match n.endPoint k with
  | none => n
  | some id => ⟨n.demux.deAllocate id, n.sockets.set k none⟩

/-- What sockets do with end points. -/
inductive Event where
  | create
  /-- `Bind ()`. -/
  | bindAny (k : ℕ)
  /-- `Bind (address)`. -/
  | bind (k : ℕ) (ipv4 : Ipv4Address) (port : ℕ)
  | bindToNetDevice (k : ℕ) (netdevice : Option ℕ)
  | connect (k : ℕ) (address : Ipv4Address) (port : ℕ) (route : Option Ipv4Address)
  /-- `Listen`, which changes the state only. -/
  | listen (k : ℕ)
  /-- `Fork` and `CompleteFork`. -/
  | fork (toAddr : Ipv4Address) (toPort : ℕ) (fromAddr : Ipv4Address) (fromPort : ℕ)
  /-- `SetPeer`, in `ProcessSynRcvd`. -/
  | setPeer (k : ℕ) (address : Ipv4Address) (port : ℕ)
  /-- `DeallocateEndPoint`, when the socket closes or is deleted. -/
  | close (k : ℕ)

/-- What an event does. -/
def exec (n : TcpNode) : Event → TcpNode
  | .create => { n with sockets := n.sockets ++ [none] }
  | .bindAny k => n.bindAny k
  | .bind k ipv4 port => n.bind k ipv4 port
  | .bindToNetDevice k netdevice => n.bindToNetDevice k netdevice
  | .connect k address port route => n.connect k address port route
  | .listen _ => n
  | .fork toAddr toPort fromAddr fromPort => n.fork toAddr toPort fromAddr fromPort
  | .setPeer k address port => n.modifyEndPoint k (Ipv4EndPoint.setPeer address port)
  | .close k => n.deallocateEndPoint k

/-- Events are those of sockets that there are. -/
def Enabled (n : TcpNode) : Event → Prop
  | .create | .fork _ _ _ _ => True
  | .bindAny k | .bind k _ _ | .bindToNetDevice k _ | .connect k _ _ _ | .listen k | .setPeer k _ _ | .close k =>
    k < n.sockets.length

instance (n : TcpNode) : ∀ e, Decidable (n.Enabled e)
  | .create | .fork _ _ _ _ => .isTrue trivial
  | .bindAny _ | .bind _ _ _ | .bindToNetDevice _ _ | .connect _ _ _ _ | .listen _ | .setPeer _ _ _ | .close _ =>
    inferInstanceAs (Decidable (_ < _))

/-- The sockets of a node. -/
def machine : Machine TcpNode Event where
  enabled := Enabled
  exec n e := some (n.exec e)

instance (n : TcpNode) (e : Event) : Decidable (machine.enabled n e) := inferInstanceAs (Decidable (n.Enabled e))

/-! ### What a segment is for -/

/-- How well an end point matches a segment: the best of the lists of `Lookup` that it belongs to. -/
def specificity (e : Ipv4EndPoint) (daddr saddr : Ipv4Address) (sport : ℕ) (incomingInterface : Ipv4Interface) : ℕ :=
  if retval4 e daddr saddr sport incomingInterface then 4
  else if retval3 e saddr sport then 3
  else if retval2 e daddr incomingInterface then 2
  else 1

/-- A segment to one host is for one end point at most, and for one if there is any that matches: one that matches
as well as any other. -/
structure Unambiguous (d : Ipv4EndPointDemux) (daddr : Ipv4Address) (dport : ℕ) (saddr : Ipv4Address) (sport : ℕ)
    (incomingInterface : Ipv4Interface) : Prop where
  /-- There is one end point at most. -/
  length_le : (d.lookup daddr dport saddr sport incomingInterface).length ≤ 1
  /-- It matches, and as well as any. -/
  best : ∀ e ∈ d.lookup daddr dport saddr sport incomingInterface,
    (e ∈ d.endPoints ∧ Matches e daddr dport saddr sport incomingInterface) ∧
    ∀ e' ∈ d.endPoints, Matches e' daddr dport saddr sport incomingInterface →
      specificity e' daddr saddr sport incomingInterface ≤ specificity e daddr saddr sport incomingInterface
  /-- An end point that matches is not passed over for none. -/
  found : (∃ e ∈ d.endPoints, Matches e daddr dport saddr sport incomingInterface) →
    d.lookup daddr dport saddr sport incomingInterface ≠ []

/-- What tells end points apart. -/
def tuple (e : Ipv4EndPoint) : Ipv4Address × ℕ × Ipv4Address × ℕ := (e.localAddr, e.localPort, e.peerAddr, e.peerPort)

/-- A peer is left open altogether, or not at all. -/
def Whole (address : Ipv4Address) (port : ℕ) : Prop := address = .any ↔ port = 0
deriving Decidable

/-- What holds of the end points. -/
structure Sound (d : Ipv4EndPointDemux) : Prop where
  /-- No two end points have the same addresses and ports. -/
  tuples : (d.endPoints.map tuple).Nodup
  /-- They are different objects. -/
  ids : (d.endPoints.map Ipv4EndPoint.id).Nodup
  /-- They are numbered as they are made. -/
  id_lt : ∀ e ∈ d.endPoints, e.id < d.made
  whole : ∀ e ∈ d.endPoints, Whole e.peerAddr e.peerPort

variable {d : Ipv4EndPointDemux} {daddr saddr : Ipv4Address} {dport sport : ℕ} {incomingInterface : Ipv4Interface}

theorem length_le_one_of_tuple {l : List Ipv4EndPoint} (hl : (l.map tuple).Nodup)
    {t : Ipv4Address × ℕ × Ipv4Address × ℕ} (ht : ∀ e ∈ l, tuple e = t) : l.length ≤ 1 := by
  match l, hl, ht with
  | [], _, _ => exact Nat.zero_le 1
  | [_], _, _ => exact Nat.le_refl 1
  | a :: b :: l, hl, ht =>
    refine absurd ?_ (List.nodup_cons.mp hl).1
    rw [ht a List.mem_cons_self, ← ht b (List.mem_cons_of_mem _ List.mem_cons_self)]
    exact List.mem_cons_self

theorem localAddressMatchesExact_iff (h : isBroadcast daddr incomingInterface = false) {e : Ipv4EndPoint} :
    LocalAddressMatchesExact e daddr incomingInterface ↔ e.localAddr = daddr := by
  rw [LocalAddressMatchesExact, h, if_neg (fun hboth => Bool.noConfusion hboth.1)]

/-- The end points that match a segment. -/
def matching (d : Ipv4EndPointDemux) (daddr : Ipv4Address) (dport : ℕ) (saddr : Ipv4Address) (sport : ℕ)
    (incomingInterface : Ipv4Interface) : List Ipv4EndPoint :=
  d.endPoints.filter fun e => Matches e daddr dport saddr sport incomingInterface

variable {e : Ipv4EndPoint} {q : Ipv4EndPoint → Bool}

theorem mem_filter_matching : e ∈ (matching d daddr dport saddr sport incomingInterface).filter q ↔
    (e ∈ d.endPoints ∧ Matches e daddr dport saddr sport incomingInterface) ∧ q e = true := by
  rw [List.mem_filter, matching, List.mem_filter, decide_eq_true_iff]

theorem eq_false_of_filter_matching (hempty : (matching d daddr dport saddr sport incomingInterface).filter q = [])
    (he : e ∈ d.endPoints) (hmatch : Matches e daddr dport saddr sport incomingInterface) : q e = false := by
  rw [← Bool.not_eq_true]
  exact List.filter_eq_nil_iff.mp hempty e (List.mem_filter.mpr ⟨he, decide_eq_true hmatch⟩)

/-- Where end points differ, a list of `Lookup` has one of them at most. -/
theorem Sound.length_filter_matching_le (h : Sound d) {t : Ipv4Address × ℕ × Ipv4Address × ℕ}
    (ht : ∀ e, Matches e daddr dport saddr sport incomingInterface → q e = true → tuple e = t) :
    ((matching d daddr dport saddr sport incomingInterface).filter q).length ≤ 1 := by
  refine length_le_one_of_tuple (t := t) ?_ fun e he => ?_
  · exact h.tuples.sublist ((List.filter_sublist.trans List.filter_sublist).map tuple)
  · obtain ⟨⟨-, hmatch⟩, hq⟩ := mem_filter_matching.mp he
    exact ht e hmatch hq

/-! ### The lists of the loop -/

theorem tuple_of_retval4 (hcast : isBroadcast daddr incomingInterface = false)
    (hmatch : Matches e daddr dport saddr sport incomingInterface)
    (hq : retval4 e daddr saddr sport incomingInterface = true) : tuple e = (daddr, dport, saddr, sport) := by
  obtain ⟨hlocal, hpeer, haddr⟩ := of_decide_eq_true hq
  rw [tuple, (localAddressMatchesExact_iff hcast).mp hlocal, hmatch.1, haddr, hpeer]

theorem tuple_of_retval3 (hmatch : Matches e daddr dport saddr sport incomingInterface)
    (hq : retval3 e saddr sport = true) : tuple e = (.any, dport, saddr, sport) := by
  obtain ⟨hlocal, hpeer, haddr⟩ := of_decide_eq_true hq
  rw [tuple, hlocal, hmatch.1, haddr, hpeer]

theorem tuple_of_retval2 (hcast : isBroadcast daddr incomingInterface = false)
    (hmatch : Matches e daddr dport saddr sport incomingInterface) (hq : retval2 e daddr incomingInterface = true) :
    tuple e = (daddr, dport, .any, 0) := by
  obtain ⟨hlocal, hpeer, haddr⟩ := of_decide_eq_true hq
  have hexact := hlocal.resolve_right fun hboth => by
    rw [hcast] at hboth
    exact Bool.noConfusion hboth.1
  rw [tuple, (localAddressMatchesExact_iff hcast).mp hexact, hmatch.1, haddr, hpeer]

theorem tuple_of_retval1 (hmatch : Matches e daddr dport saddr sport incomingInterface) (hq : retval1 e = true) :
    tuple e = (.any, dport, .any, 0) := by
  obtain ⟨hlocal, hpeer, haddr⟩ := of_decide_eq_true hq
  rw [tuple, hlocal, hmatch.1, haddr, hpeer]

/-- An end point that matches belongs to one of the lists, as its peer is whole. -/
theorem retval1_of_matches (hwhole : Whole e.peerAddr e.peerPort)
    (hmatch : Matches e daddr dport saddr sport incomingInterface)
    (h₄ : retval4 e daddr saddr sport incomingInterface = false) (h₃ : retval3 e saddr sport = false)
    (h₂ : retval2 e daddr incomingInterface = false) : retval1 e = true := by
  have hno₄ := of_decide_eq_false h₄
  have hno₃ := of_decide_eq_false h₃
  have hno₂ := of_decide_eq_false h₂
  obtain ⟨-, -, hlocal, hpeer, haddr⟩ := hmatch
  rw [retval1, decide_eq_true_iff]
  by_cases hzero : e.peerPort = 0
  · have hany := hwhole.mpr hzero
    exact ⟨hlocal.resolve_left fun hexact => hno₂ ⟨Or.inl hexact, hzero, hany⟩, hzero, hany⟩
  · have hsport := hpeer.resolve_right hzero
    have hsaddr := haddr.resolve_right fun hany => hzero (hwhole.mp hany)
    rcases hlocal with hexact | hany
    · exact absurd ⟨hexact, hsport, hsaddr⟩ hno₄
    · exact absurd ⟨hany, hsport, hsaddr⟩ hno₃

theorem specificity_le_four (e : Ipv4EndPoint) : specificity e daddr saddr sport incomingInterface ≤ 4 := by
  rw [specificity]
  split_ifs <;> omega

section

variable (h₄ : retval4 e daddr saddr sport incomingInterface = false)
include h₄

theorem specificity_le_three : specificity e daddr saddr sport incomingInterface ≤ 3 := by
  rw [specificity, h₄, if_neg Bool.false_ne_true]
  split_ifs <;> omega

theorem specificity_le_two (h₃ : retval3 e saddr sport = false) :
    specificity e daddr saddr sport incomingInterface ≤ 2 := by
  rw [specificity, h₄, h₃, if_neg Bool.false_ne_true, if_neg Bool.false_ne_true]
  split_ifs <;> omega

theorem specificity_le_one (h₃ : retval3 e saddr sport = false) (h₂ : retval2 e daddr incomingInterface = false) :
    specificity e daddr saddr sport incomingInterface ≤ 1 := by
  rw [specificity, h₄, h₃, h₂]
  rfl

end

/-- A list of `Lookup` that is of the end points which match best. -/
theorem unambiguous_of_eq {n : ℕ} (hlookup : d.lookup daddr dport saddr sport incomingInterface =
      (matching d daddr dport saddr sport incomingInterface).filter q)
    (hlength : ((matching d daddr dport saddr sport incomingInterface).filter q).length ≤ 1)
    (hle : ∀ e ∈ d.endPoints, Matches e daddr dport saddr sport incomingInterface →
      specificity e daddr saddr sport incomingInterface ≤ n)
    (hge : ∀ e, q e = true → n ≤ specificity e daddr saddr sport incomingInterface)
    (hfound : (∃ e ∈ d.endPoints, Matches e daddr dport saddr sport incomingInterface) →
      (matching d daddr dport saddr sport incomingInterface).filter q ≠ []) :
    Unambiguous d daddr dport saddr sport incomingInterface := by
  refine ⟨hlookup ▸ hlength, fun e he => ?_, hlookup ▸ hfound⟩
  rw [hlookup] at he
  obtain ⟨hboth, hq⟩ := mem_filter_matching.mp he
  exact ⟨hboth, fun e' he' hmatch' => (hle e' he' hmatch').trans (hge e hq)⟩

/-- A segment to one host finds the end point that matches it best. -/
theorem Sound.unambiguous (h : Sound d) (hcast : isBroadcast daddr incomingInterface = false) :
    Unambiguous d daddr dport saddr sport incomingInterface := by
  by_cases h4 : (matching d daddr dport saddr sport incomingInterface).filter
      (fun e => retval4 e daddr saddr sport incomingInterface) = []
  · have hno4 {e} := @eq_false_of_filter_matching _ _ _ _ _ _ e _ h4
    by_cases h3 : (matching d daddr dport saddr sport incomingInterface).filter (fun e => retval3 e saddr sport) = []
    · have hno3 {e} := @eq_false_of_filter_matching _ _ _ _ _ _ e _ h3
      by_cases h2 : (matching d daddr dport saddr sport incomingInterface).filter
          (fun e => retval2 e daddr incomingInterface) = []
      · have hno2 {e} := @eq_false_of_filter_matching _ _ _ _ _ _ e _ h2
        have hlookup : d.lookup daddr dport saddr sport incomingInterface =
            (matching d daddr dport saddr sport incomingInterface).filter retval1 :=
          (if_neg (not_not.mpr h4)).trans ((if_neg (not_not.mpr h3)).trans (if_neg (not_not.mpr h2)))
        refine unambiguous_of_eq (n := 1) hlookup
          (h.length_filter_matching_le fun _ hmatch hq => tuple_of_retval1 hmatch hq)
          (fun e he hmatch => specificity_le_one (hno4 he hmatch) (hno3 he hmatch) (hno2 he hmatch)) (fun e _ => ?_) ?_
        · rw [specificity]
          split_ifs <;> omega
        · rintro ⟨e, he, hmatch⟩
          exact List.ne_nil_of_mem (mem_filter_matching.mpr ⟨⟨he, hmatch⟩,
            retval1_of_matches (h.whole e he) hmatch (hno4 he hmatch) (hno3 he hmatch) (hno2 he hmatch)⟩)
      · have hlookup : d.lookup daddr dport saddr sport incomingInterface =
            (matching d daddr dport saddr sport incomingInterface).filter fun e => retval2 e daddr incomingInterface :=
          (if_neg (not_not.mpr h4)).trans ((if_neg (not_not.mpr h3)).trans (if_pos h2))
        refine unambiguous_of_eq (n := 2) hlookup
          (h.length_filter_matching_le fun _ hmatch hq => tuple_of_retval2 hcast hmatch hq)
          (fun e he hmatch => specificity_le_two (hno4 he hmatch) (hno3 he hmatch)) (fun e hq => ?_) fun _ => h2
        rw [specificity, if_pos hq]
        split_ifs <;> omega
    · have hlookup : d.lookup daddr dport saddr sport incomingInterface =
          (matching d daddr dport saddr sport incomingInterface).filter fun e => retval3 e saddr sport :=
        (if_neg (not_not.mpr h4)).trans (if_pos h3)
      refine unambiguous_of_eq (n := 3) hlookup
        (h.length_filter_matching_le fun _ hmatch hq => tuple_of_retval3 hmatch hq)
        (fun e he hmatch => specificity_le_three (hno4 he hmatch)) (fun e hq => ?_) fun _ => h3
      rw [specificity, if_pos hq]
      split_ifs <;> omega
  · exact unambiguous_of_eq (n := 4) (if_pos h4)
      (h.length_filter_matching_le fun _ hmatch hq => tuple_of_retval4 hcast hmatch hq)
      (fun e _ _ => specificity_le_four e) (fun e hq => (if_pos hq).ge) fun _ => h4

/-! ### Allocation -/

variable {n n' : TcpNode}

theorem sound_new : Sound Ipv4EndPointDemux.new where
  tuples := List.nodup_nil
  ids := List.nodup_nil
  id_lt _ he := absurd he List.not_mem_nil
  whole _ he := absurd he List.not_mem_nil

/-- A new end point with a whole peer and addresses and ports of its own. -/
theorem Sound.push (h : Sound d) {e : Ipv4EndPoint} (hid : e.id = d.made) (hwhole : Whole e.peerAddr e.peerPort)
    (hnew : ∀ x ∈ d.endPoints, tuple x ≠ tuple e) : Sound (d.push e) where
  tuples := by
    rw [Ipv4EndPointDemux.push, List.map_append]
    refine List.nodup_append.mpr ⟨h.tuples, List.nodup_singleton _, fun a ha b hb => ?_⟩
    obtain ⟨x, hx, rfl⟩ := List.mem_map.mp ha
    rw [List.mem_singleton.mp hb]
    exact hnew x hx
  ids := by
    rw [Ipv4EndPointDemux.push, List.map_append]
    refine List.nodup_append.mpr ⟨h.ids, List.nodup_singleton _, fun a ha b hb => ?_⟩
    obtain ⟨x, hx, rfl⟩ := List.mem_map.mp ha
    rw [List.mem_singleton.mp hb, hid]
    exact (h.id_lt x hx).ne
  id_lt x hx := by
    change x.id < d.made + 1
    rcases List.mem_append.mp hx with hx | hx
    · exact Nat.lt_succ_of_lt (h.id_lt x hx)
    · rw [List.mem_singleton.mp hx, hid]
      exact Nat.lt_succ_self _
  whole x hx := by
    rcases List.mem_append.mp hx with hx | hx
    · exact h.whole x hx
    · rw [List.mem_singleton.mp hx]
      exact hwhole

theorem nextPort_spec {count port : ℕ} (hport : d.nextPort count port ≠ 0) :
    ∀ x ∈ d.endPoints, x.localPort ≠ d.nextPort count port := by
  induction count generalizing port with
  | zero => exact absurd rfl hport
  | succ count ih =>
    rw [nextPort] at hport ⊢
    generalize (if (port + 1) % 2 ^ 16 < d.portFirst ∨ d.portLast < (port + 1) % 2 ^ 16 then d.portFirst
      else (port + 1) % 2 ^ 16) = candidate at hport ⊢
    split_ifs at hport ⊢ with hused
    · exact ih hport
    · intro x hx heq
      exact hused (List.any_eq_true.mpr ⟨x, hx, decide_eq_true heq⟩)

theorem whole_new (id : ℕ) (address : Ipv4Address) (port : ℕ) :
    Whole (Ipv4EndPoint.new id address port).peerAddr (Ipv4EndPoint.new id address port).peerPort := iff_of_true rfl rfl

/-- `Allocate (address)` fails, or makes an end point whose local port no other end point has. -/
theorem allocateAddress_cases (d : Ipv4EndPointDemux) (address : Ipv4Address) :
    d.allocateAddress address = (none, d) ∨
      ∃ port, (∀ x ∈ d.endPoints, x.localPort ≠ port) ∧
        d.allocateAddress address = (some d.made, { d with ephemeral := port }.push (.new d.made address port)) := by
  rw [Ipv4EndPointDemux.allocateAddress, allocateEphemeralPort]
  by_cases hzero : d.nextPort (d.portLast - d.portFirst + 1) d.ephemeral = 0
  · rw [if_pos hzero]
    exact Or.inl rfl
  · rw [if_neg hzero]
    exact Or.inr ⟨_, nextPort_spec hzero, if_neg hzero⟩

theorem Sound.allocateAddress (h : Sound d) (address : Ipv4Address) : Sound (d.allocateAddress address).2 := by
  rcases allocateAddress_cases d address with hnone | ⟨port, hport, hsome⟩
  · rw [hnone]
    exact h
  · rw [hsome]
    have hd : Sound { d with ephemeral := port } := { h with }
    exact hd.push rfl (whole_new ..) fun x hx heq => hport x hx (congrArg (fun t => t.2.1) heq)

theorem Sound.allocateLocal (h : Sound d) (address : Ipv4Address) (port : ℕ) :
    Sound (d.allocateLocal address port).2 := by
  rw [Ipv4EndPointDemux.allocateLocal]
  split_ifs with hused
  · exact h
  · refine h.push rfl (whole_new ..) fun x hx heq => hused (List.any_eq_true.mpr ⟨x, hx, decide_eq_true ?_⟩)
    exact ⟨congrArg (fun t => t.2.1) heq, congrArg Prod.fst heq⟩

theorem Sound.allocatePeer (h : Sound d) {toAddr fromAddr : Ipv4Address} {toPort fromPort : ℕ}
    (hwhole : Whole fromAddr fromPort) : Sound (d.allocatePeer toAddr toPort fromAddr fromPort).2 := by
  rw [Ipv4EndPointDemux.allocatePeer]
  split_ifs with hused
  · exact h
  · refine h.push rfl hwhole fun x hx heq => hused (List.any_eq_true.mpr ⟨x, hx, decide_eq_true ?_⟩)
    have heq : (x.localAddr, x.localPort, x.peerAddr, x.peerPort) = (toAddr, toPort, fromAddr, fromPort) := heq
    simp only [Prod.mk.injEq] at heq
    exact ⟨heq.2.1, heq.1, heq.2.2.2, heq.2.2.1⟩

theorem Sound.deAllocate (h : Sound d) (id : ℕ) : Sound (d.deAllocate id) where
  tuples := h.tuples.sublist (List.eraseP_sublist.map _)
  ids := h.ids.sublist (List.eraseP_sublist.map _)
  id_lt e he := h.id_lt e (List.eraseP_sublist.subset he)
  whole e he := h.whole e (List.eraseP_sublist.subset he)

variable {f : Ipv4EndPoint → Ipv4EndPoint}

/-- A change of an end point that leaves its peer whole and does not make it the same as another one. -/
theorem Sound.modify (h : Sound d) {id : ℕ} (hid : ∀ e, (f e).id = e.id)
    (hwhole : ∀ e ∈ d.endPoints, e.id = id → Whole (f e).peerAddr (f e).peerPort)
    (hother : ∀ e ∈ d.endPoints, e.id = id → ∀ x ∈ d.endPoints, x.id ≠ id → tuple x ≠ tuple (f e)) :
    Sound (d.modify id f) := by
  have hids : ∀ e : Ipv4EndPoint, (if e.id = id then f e else e).id = e.id := by
    intro e
    split_ifs
    · exact hid e
    · rfl
  have hall : ∀ P : Ipv4EndPoint → Prop, (∀ e ∈ d.endPoints, P (if e.id = id then f e else e)) →
      ∀ e ∈ (d.modify id f).endPoints, P e := by
    intro P hP e he
    obtain ⟨x, hx, rfl⟩ := List.mem_map.mp he
    exact hP x hx
  refine ⟨?_, ?_, hall _ fun e he => ?_, hall _ fun e he => ?_⟩
  · rw [Ipv4EndPointDemux.modify, List.map_map]
    have hdiffer := (List.pairwise_map.mp h.tuples).and (List.pairwise_map.mp h.ids)
    refine List.pairwise_map.mpr (hdiffer.imp_of_mem fun {a b} ha hb hab => ?_)
    change tuple (if a.id = id then f a else a) ≠ tuple (if b.id = id then f b else b)
    by_cases haid : a.id = id
    · rw [if_pos haid, if_neg fun hbid => hab.2 (haid.trans hbid.symm)]
      exact (hother a ha haid b hb fun hbid => hab.2 (haid.trans hbid.symm)).symm
    · rw [if_neg haid]
      by_cases hbid : b.id = id
      · rw [if_pos hbid]
        exact hother b hb hbid a ha haid
      · rw [if_neg hbid]
        exact hab.1
  · rw [Ipv4EndPointDemux.modify, List.map_map, show Ipv4EndPoint.id ∘ _ = Ipv4EndPoint.id from funext hids]
    exact h.ids
  · rw [hids]
    exact h.id_lt e he
  · split_ifs with heq
    · exact hwhole e he heq
    · exact h.whole e he

/-! ### Runs -/

/-- An end point is given a whole peer, and not the addresses and ports of another one. -/
def Apart (n : TcpNode) (k : ℕ) (f : Ipv4EndPoint → Ipv4EndPoint) : Prop :=
  ∀ id ∈ n.endPoint k, ∀ e ∈ n.demux.endPoints, e.id = id → ∀ x ∈ n.demux.endPoints, x.id ≠ id → tuple x ≠ tuple (f e)
deriving Decidable

/-- The peers that end points are given are whole, and no end point becomes the same as another one by it. -/
def Fits (n : TcpNode) : Event → Prop
  | .connect k address port route => Whole address port ∧ n.Apart k (connected address port route)
  | .setPeer k address port => Whole address port ∧ n.Apart k (Ipv4EndPoint.setPeer address port)
  | .fork _ _ fromAddr fromPort => Whole fromAddr fromPort
  | .create | .bindAny _ | .bind _ _ _ | .bindToNetDevice _ _ | .listen _ | .close _ => True

instance (n : TcpNode) : ∀ e, Decidable (n.Fits e)
  | .connect _ _ _ _ | .setPeer _ _ _ => inferInstanceAs (Decidable (_ ∧ _))
  | .fork _ _ fromAddr fromPort => inferInstanceAs (Decidable (Whole fromAddr fromPort))
  | .create | .bindAny _ | .bind _ _ _ | .bindToNetDevice _ _ | .listen _ | .close _ => .isTrue trivial

theorem connected_peer (address : Ipv4Address) (port : ℕ) (route : Option Ipv4Address) (e : Ipv4EndPoint) :
    (connected address port route e).id = e.id ∧ (connected address port route e).localPort = e.localPort ∧
      (connected address port route e).peerAddr = address ∧ (connected address port route e).peerPort = port := by
  cases route <;> exact ⟨rfl, rfl, rfl, rfl⟩

theorem Sound.modifyEndPoint (h : Sound n.demux) {k : ℕ} (hid : ∀ e, (f e).id = e.id)
    (hwhole : ∀ e ∈ n.demux.endPoints, Whole (f e).peerAddr (f e).peerPort) (hapart : n.Apart k f) :
    Sound (n.modifyEndPoint k f).demux := by
  rw [TcpNode.modifyEndPoint]
  cases hk : n.endPoint k with
  | none => exact h
  | some id => exact h.modify hid (fun e he _ => hwhole e he) (hapart id hk)

theorem endPoint_assign {k : ℕ} {allocated : Option ℕ × Ipv4EndPointDemux} {id : ℕ}
    (hid : id ∈ (n.assign k allocated).endPoint k) : id ∈ allocated.1 := by
  have hset : (n.assign k allocated).endPoint k = ((n.sockets.set k allocated.1)[k]?).join := rfl
  rw [hset, List.getElem?_set_self'] at hid
  cases hk : n.sockets[k]? with
  | none =>
    rw [hk] at hid
    cases hid
  | some old =>
    rw [hk] at hid
    exact hid

/-- A socket that is bound first gets an end point whose local port is its own, so it stays apart. -/
theorem Sound.ensureBound (h : Sound n.demux) {k : ℕ} (hport : ∀ e, (f e).localPort = e.localPort)
    (hapart : n.Apart k f) : Sound (n.ensureBound k).demux ∧ (n.ensureBound k).Apart k f := by
  rw [TcpNode.ensureBound]
  split_ifs with hnone
  · refine ⟨h.allocateAddress .any, fun id hid e he heid x hx hxid heq => ?_⟩
    have hid := endPoint_assign hid
    have hpushed : (n.bindAny k).demux = (n.demux.allocateAddress .any).2 := rfl
    rw [hpushed] at he hx
    rw [allocateAny] at hid
    rcases allocateAddress_cases n.demux .any with hcase | ⟨port, hfree, hcase⟩
    · rw [hcase] at hid
      cases hid
    · rw [hcase] at hid he hx
      cases hid
      -- the end point is the new one, and the others were there before
      have hnew : e.localPort = port := by
        rcases List.mem_append.mp he with he | he
        · exact absurd heid (h.id_lt e he).ne
        · rw [List.mem_singleton.mp he]
          rfl
      have hold : x ∈ n.demux.endPoints := by
        rcases List.mem_append.mp hx with hx | hx
        · exact hx
        · exact absurd (congrArg Ipv4EndPoint.id (List.mem_singleton.mp hx)) hxid
      refine hfree x hold ?_
      rw [← hnew, ← hport e]
      exact congrArg (fun t => t.2.1) heq
  · exact ⟨h, hapart⟩

theorem Sound.exec (h : Sound n.demux) {e : Event} (hfits : n.Fits e) : Sound (n.exec e).demux := by
  cases e with
  | create | listen k => exact h
  | bindAny k => exact h.allocateAddress .any
  | bind k ipv4 port =>
    change Sound (n.bind k ipv4 port).demux
    rw [TcpNode.bind]
    change Sound (if _ then _ else _ : Option ℕ × Ipv4EndPointDemux).2
    split_ifs
    · exact h.allocateAddress .any
    · exact h.allocateLocal .any port
    · exact h.allocateAddress ipv4
    · exact h.allocateLocal ipv4 port
  | bindToNetDevice k netdevice =>
    change Sound ((n.ensureBound k).modifyEndPoint k (Ipv4EndPoint.bindToNetDevice netdevice)).demux
    have hbound : Sound (n.ensureBound k).demux := by
      rw [TcpNode.ensureBound]
      split_ifs
      · exact h.allocateAddress .any
      · exact h
    refine hbound.modifyEndPoint (fun _ => rfl) (fun e he => hbound.whole e he) fun id _ e he heid x hx hxid heq => ?_
    have hxe : x = e := List.inj_on_of_nodup_map hbound.tuples hx he heq
    exact hxid (hxe ▸ heid)
  | connect k address port route =>
    obtain ⟨hwhole, hapart⟩ := hfits
    obtain ⟨hbound, hapart⟩ := h.ensureBound (fun e => (connected_peer address port route e).2.1) hapart
    refine hbound.modifyEndPoint (fun e => (connected_peer address port route e).1) (fun e _ => ?_) hapart
    obtain ⟨-, -, haddr, hport⟩ := connected_peer address port route e
    rw [haddr, hport]
    exact hwhole
  | fork toAddr toPort fromAddr fromPort => exact h.allocatePeer hfits
  | setPeer k address port => exact h.modifyEndPoint (fun _ => rfl) (fun _ _ => hfits.1) hfits.2
  | close k =>
    change Sound (n.deallocateEndPoint k).demux
    rw [deallocateEndPoint]
    cases n.endPoint k with
    | none => exact h
    | some id => exact h.deAllocate id

/-- In a run in which end points are given whole peers, and not the addresses and ports of another one, a segment to
one host is for one end point at most, the one that matches it best. -/
theorem receive_unambiguous {tr : List (TcpNode × Event)} (h : machine.Run new tr n) (hfits : Machine.Meets Fits tr)
    (hcast : isBroadcast daddr incomingInterface = false) :
    Unambiguous n.demux daddr dport saddr sport incomingInterface := by
  have hsound : Sound n.demux := by
    refine h.invariant (I := fun n => Sound n.demux) hfits sound_new fun n e n' hn he hstep => ?_
    obtain rfl := Option.some.inj hstep.2
    exact hn.exec he
  exact hsound.unambiguous hcast

/-- The hosts `10.0.0.1` and `10.0.0.2`, and the interface of the first. -/
def host (k : BitVec 32) : Ipv4Address := ⟨0x0a000000 + k⟩

/-- The interface of `10.0.0.1`. -/
def interface : Ipv4Interface := ⟨0, [(host 1, 0xffffff00)]⟩

/-- Two sockets that are bound to the port 1000, one to any address and the other to `10.0.0.1`, connect to the same
peer: its segments are for both. -/
theorem two_end_points : ∃ tr n, machine.Run new tr n ∧ isBroadcast (host 1) interface = false ∧
    ¬ Unambiguous n.demux (host 1) 1000 (host 2) 80 interface := by
  obtain ⟨out, -, hrun, hcast, htwo⟩ := Machine.exists_replay (M := machine) new
    [.create, .create, .bind 0 .any 1000, .bind 1 (host 1) 1000, .connect 0 (host 2) 80 (some (host 1)),
      .connect 1 (host 2) 80 (some (host 1))]
    (P := fun out => isBroadcast (host 1) interface = false ∧
      (out.2.demux.lookup (host 1) 1000 (host 2) 80 interface).length = 2) (by decide +kernel)
  refine ⟨out.1, out.2, hrun, hcast, fun hone => ?_⟩
  have hle := hone.length_le
  omega

/-- `receive_unambiguous` for a run with a listening socket, its fork, and one that connects and is closed. -/
theorem receive_unambiguous_fork : ∃ tr n, machine.Run new tr n ∧
    Unambiguous n.demux (host 1) 80 (host 2) 49153 interface ∧ n.demux.endPoints.length = 2 := by
  obtain ⟨out, -, hrun, hfits, hcast, hlength⟩ := Machine.exists_replay (M := machine) new
    [.create, .bind 0 .any 80, .listen 0, .fork (host 1) 80 (host 2) 49153, .create,
      .connect 2 (host 2) 80 (some (host 1)), .close 2]
    (P := fun out => Machine.Meets Fits out.1 ∧ isBroadcast (host 1) interface = false ∧
      out.2.demux.endPoints.length = 2) (by decide +kernel)
  exact ⟨out.1, out.2, hrun, receive_unambiguous hrun hfits hcast, hlength⟩

end TcpNode

end Ns3
