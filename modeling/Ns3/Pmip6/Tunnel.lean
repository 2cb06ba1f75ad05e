import Ns3.Internet.Ipv6StaticRouting
import Mathlib.Algebra.Order.Ring.Nat
import Mathlib.Data.List.Nodup

/-!
# Tunnel devices

`Ipv6TunnelL4Protocol` (`pmip6/model/ipv6-tunnel-l4-protocol.cc`) keeps the list of a node's
tunnel devices, one for each remote address, with a count of the references to it, and gives
each an IPv6 interface. A `Node` is what the PMIPv6 agents use of a node: its tunnel devices,
its interfaces and its static routing table.

## What is proved

The references that callers hold are a function `refs` from remote addresses to numbers.
`TunnelsFor n refs` says that the devices of `n` are right for it: one device for each remote in
use, none without a remote, and on each a count of one more than its references, the one more
being the count a device is made with. `TunnelsFor.addTunnel`, `TunnelsFor.removeTunnel` and
`TunnelsFor.modifyTunnel_eq` say what the three operations do to such a node, and `Grows` what
they leave of it: the interfaces of the tunnels it had, and its routes up to those of the
interfaces it gained. A freed device is one whose remote is `::`; under `TunnelsFor` there is none.
-/

namespace Ns3.Pmip6

/-- `TunnelNetDevice`: its addresses and `m_refCount`. -/
structure TunnelNetDevice where
  localAddress : Ipv6Address
  remoteAddress : Ipv6Address
  refCount : UInt32

namespace TunnelNetDevice

/-- `TunnelNetDevice ()`: the count starts at one. -/
def create : TunnelNetDevice := ⟨.zero, .zero, 1⟩

variable (d : TunnelNetDevice)

/-- One user more. -/
def increaseRefCount : TunnelNetDevice := { d with refCount := d.refCount + 1 }

/-- One user less. -/
def decreaseRefCount : TunnelNetDevice := { d with refCount := d.refCount - 1 }

/-- The other end of the tunnel. -/
def setRemoteAddress (raddr : Ipv6Address) (d : TunnelNetDevice) : TunnelNetDevice :=
  { d with remoteAddress := raddr }

/-- This end of the tunnel. -/
def setLocalAddress (laddr : Ipv6Address) (d : TunnelNetDevice) : TunnelNetDevice :=
  { d with localAddress := laddr }

/-- The body of `RemoveTunnel`: one reference less, and the device freed at zero. -/
def release : TunnelNetDevice :=
  let d := d.decreaseRefCount
  if d.refCount = 0 then d.setRemoteAddress .zero else d

end TunnelNetDevice

/-- A net device: one the node was built with, or the tunnel device at a place of `m_tunnelList`. -/
inductive NetDevice where
  /-- A device the node was built with. -/
  | host (i : ℕ)
  | tunnel (i : ℕ)
  deriving DecidableEq

/-- The device is a tunnel device. -/
def NetDevice.isTunnel : NetDevice → Bool
  | host _ => false
  | tunnel _ => true

/-- What the agents use of a node. -/
structure Node where
  /-- `Ipv6TunnelL4Protocol::m_tunnelList`. -/
  tunnelList : List TunnelNetDevice
  /-- `Ipv6L3Protocol::m_interfaces`, each by its device. -/
  interfaces : List NetDevice
  /-- `Ipv6StaticRouting::m_networkRoutes`. -/
  staticRouting : NetworkRoutes

namespace Node

/-- `GetTunnelDevice`: the first device with the remote address. -/
def getTunnelDevice (n : Node) (remote : Ipv6Address) : Option ℕ :=
  n.tunnelList.findIdx? fun dev => remote = dev.remoteAddress

/-- `Ipv6L3Protocol::GetInterfaceForDevice`, with `none` for `-1`. -/
def getInterfaceForDevice (n : Node) (device : NetDevice) : Option ℕ :=
  n.interfaces.findIdx? fun i => i = device

/-- Changes a device in place. -/
def modifyDevice (n : Node) (dev : ℕ) (f : TunnelNetDevice → TunnelNetDevice) : Node :=
  { n with tunnelList := n.tunnelList.modify dev f }

/-- `CreateObject<TunnelNetDevice> ()`, `AddDevice` and `push_back`: the node and the new
device's place. -/
def createTunnelDevice (n : Node) : Node × ℕ :=
  ({ n with tunnelList := n.tunnelList ++ [.create] }, n.tunnelList.length)

/-- A new interface, with its index. -/
def addInterface (n : Node) (device : NetDevice) : Node × ℕ :=
  ({ n with interfaces := n.interfaces ++ [device] }, n.interfaces.length)

/-- `Ipv6L3Protocol::SetUp` of a tunnel interface: `NotifyInterfaceUp` adds the route to the
network of the interface's only address, which is link-local. -/
def setUp (n : Node) (ifIndex : ℕ) : Node :=
  { n with staticRouting := n.staticRouting.addNetworkRouteTo .linkLocal 64 (BitVec.ofNat 32 ifIndex) }

/-- The device `AddTunnel` takes: that of the remote, or a freed or new one set to it. -/
def openTunnelDevice (n : Node) (remote localAddr : Ipv6Address) : Node × ℕ :=
  match n.getTunnelDevice remote with
  | some dev => (n, dev)
  | none =>
    let (n, dev) :=
      match n.getTunnelDevice .zero with
      | some dev => (n, dev)
      | none => n.createTunnelDevice
    ((n.modifyDevice dev (.setRemoteAddress remote)).modifyDevice dev (.setLocalAddress localAddr), dev)

/-- The interface of a device, added and set up when it has none. -/
def interfaceForDevice (n : Node) (device : NetDevice) : Node × ℕ :=
  match n.getInterfaceForDevice device with
  | some ifIndex => (n, ifIndex)
  | none =>
    let (n, ifIndex) := n.addInterface device
    (n.setUp ifIndex, ifIndex)

/-- `AddTunnel`. The interface index is returned as a `uint16_t`. -/
def addTunnel (n : Node) (remote localAddr : Ipv6Address) : Node × BitVec 16 :=
  let (n, dev) := n.openTunnelDevice remote localAddr
  let n := n.modifyDevice dev .increaseRefCount
  let (n, ifIndex) := n.interfaceForDevice (.tunnel dev)
  (n, BitVec.ofNat 16 ifIndex)

/-- The tunnel to the anchor has one user less, or is released. -/
def removeTunnel (n : Node) (remote : Ipv6Address) : Node :=
  match n.getTunnelDevice remote with
  | some dev => n.modifyDevice dev .release
  | none => n

/-- `ModifyTunnel`; `none` where one of its assertions fails. -/
def modifyTunnel (n : Node) (remote newRemote localAddr : Ipv6Address) :
    Option (Node × BitVec 16) :=
  match n.getTunnelDevice remote with
  | none => none
  | some dev =>
    match n.tunnelList[dev]? with
    | none => none
    | some d =>
      if d.refCount = 0 then none
      else if 1 < d.refCount then some ((n.removeTunnel remote).addTunnel newRemote localAddr)
      else
        match n.getInterfaceForDevice (.tunnel dev) with
        | none => none
        | some ifIndex =>
          some (n.modifyDevice dev (.setRemoteAddress newRemote), BitVec.ofNat 16 ifIndex)

/-- The place of the device `AddTunnel` takes for a remote. -/
def deviceFor (n : Node) (remote : Ipv6Address) : ℕ :=
  match n.getTunnelDevice remote with
  | some dev => dev
  | none => (n.getTunnelDevice .zero).getD n.tunnelList.length

/-- The index of the interface `AddTunnel` takes for a remote: that of its device, or the next one. -/
def interfaceFor (n : Node) (remote : Ipv6Address) : ℕ :=
  (n.getInterfaceForDevice (.tunnel (n.deviceFor remote))).getD n.interfaces.length

/-- The remote addresses of the tunnel devices. -/
def remotes (n : Node) : List Ipv6Address := n.tunnelList.map (·.remoteAddress)

/-- The interface of the tunnel device of a remote. -/
def tunnelInterface (n : Node) (remote : Ipv6Address) : Option ℕ :=
  (n.getTunnelDevice remote).bind fun dev => n.getInterfaceForDevice (.tunnel dev)

/-! ### Devices and interfaces by place -/

theorem getTunnelDevice_eq (n : Node) (r : Ipv6Address) :
    n.getTunnelDevice r = n.remotes.findIdx? fun a => r = a := by
  rw [getTunnelDevice, remotes, List.findIdx?_map]
  rfl

variable {n : Node} {r : Ipv6Address} {dev : ℕ}

theorem getTunnelDevice_eq_some_iff (hn : n.remotes.Nodup) :
    n.getTunnelDevice r = some dev ↔ ∃ d, n.tunnelList[dev]? = some d ∧ d.remoteAddress = r := by
  rw [getTunnelDevice, List.findIdx?_eq_some_iff_getElem]
  constructor
  · rintro ⟨hlt, hd, -⟩
    exact ⟨_, List.getElem?_eq_getElem hlt, by simpa [eq_comm] using hd⟩
  · rintro ⟨d, hd, rfl⟩
    obtain ⟨hlt, rfl⟩ := List.getElem?_eq_some_iff.mp hd
    refine ⟨hlt, by simp, fun j hj heq => ?_⟩
    have hjlt : j < n.tunnelList.length := Nat.lt_trans hj hlt
    have hrem : n.remotes[j]? = n.remotes[dev]? := by
      rw [remotes, List.getElem?_map, List.getElem?_map, List.getElem?_eq_getElem hjlt,
        List.getElem?_eq_getElem hlt, Option.map_some, Option.map_some, ← of_decide_eq_true heq]
    exact Nat.ne_of_lt hj ((List.getElem?_inj (by simpa [remotes] using hjlt) hn).mp hrem)

theorem getTunnelDevice_eq_none_iff : n.getTunnelDevice r = none ↔ r ∉ n.remotes := by
  rw [getTunnelDevice_eq, List.findIdx?_eq_none_iff]
  simp only [decide_eq_false_iff_not]
  exact ⟨fun h hm => h r hm rfl, fun h x hx hr => h (hr ▸ hx)⟩

theorem getInterfaceForDevice_isSome_iff {d : NetDevice} : (n.getInterfaceForDevice d).isSome ↔ d ∈ n.interfaces := by
  rw [getInterfaceForDevice, List.findIdx?_isSome]
  simp

theorem lt_length_of_getInterfaceForDevice {d : NetDevice} {i : ℕ} (h : n.getInterfaceForDevice d = some i) :
    i < n.interfaces.length := by
  rw [getInterfaceForDevice, List.findIdx?_eq_some_iff_getElem] at h
  exact h.1

theorem lt_length_of_tunnelInterface {i : ℕ} (h : n.tunnelInterface r = some i) : i < n.interfaces.length := by
  rw [tunnelInterface, Option.bind_eq_some_iff] at h
  obtain ⟨dev, -, hi⟩ := h
  exact lt_length_of_getInterfaceForDevice hi

/-! ### Nodes that only grow -/

/-- The route `SetUp` gives the tunnel interface with index `i`. -/
def tunnelRoute (i : ℕ) : NetworkRoute := networkRoute .linkLocal (BitVec.ofNat 32 i)

/-- The routes of the tunnel interfaces. -/
def tunnelRoutes (n : Node) : NetworkRoutes :=
  n.interfaces.zipIdx.filterMap fun x =>
    match x.1 with
    | .host _ => none
    | .tunnel _ => some (tunnelRoute x.2)

/-- `n'` is `n` with remotes and interfaces added, and the routes of the added interfaces. -/
structure Grows (n n' : Node) : Prop where
  /-- The remotes were only added to. -/
  remotes : n.remotes <+: n'.remotes
  /-- The interfaces were only added to. -/
  interfaces : n.interfaces <+: n'.interfaces
  /-- The table was added the routes of the new tunnel interfaces. -/
  routes : ∃ new : List ℕ, n'.staticRouting = n.staticRouting ++ new.map tunnelRoute ∧
    n'.tunnelRoutes = n.tunnelRoutes ++ new.map tunnelRoute

theorem Grows.refl (n : Node) : Grows n n := ⟨List.prefix_rfl, List.prefix_rfl, [], by simp, by simp⟩

theorem Grows.trans {n₁ n₂ n₃ : Node} (h : Grows n₁ n₂) (h' : Grows n₂ n₃) : Grows n₁ n₃ := by
  obtain ⟨new, hs, ht⟩ := h.routes
  obtain ⟨new', hs', ht'⟩ := h'.routes
  refine ⟨h.remotes.trans h'.remotes, h.interfaces.trans h'.interfaces, new ++ new', ?_, ?_⟩
  · rw [hs', hs, List.map_append, List.append_assoc]
  · rw [ht', ht, List.map_append, List.append_assoc]

theorem tunnelRoutes_eq_nil (h : ∀ i, .tunnel i ∉ n.interfaces) : n.tunnelRoutes = [] := by
  rw [tunnelRoutes, List.filterMap_eq_nil_iff]
  intro x hx
  cases hd : x.1 with
  | host i => rfl
  | tunnel i => exact absurd (hd ▸ List.fst_mem_of_mem_zipIdx hx) (h i)

theorem findIdx?_of_prefix {α : Type*} {l l' : List α} (h : l <+: l') {p : α → Bool} {i : ℕ}
    (hi : l.findIdx? p = some i) : l'.findIdx? p = some i := by
  obtain ⟨u, rfl⟩ := h
  rw [List.findIdx?_append, hi]
  rfl

theorem Grows.tunnelInterface {n n' : Node} (h : Grows n n') {i : ℕ} (hi : n.tunnelInterface r = some i) :
    n'.tunnelInterface r = some i := by
  rw [Node.tunnelInterface, Option.bind_eq_some_iff] at hi ⊢
  obtain ⟨dev, hdev, hi⟩ := hi
  rw [getTunnelDevice_eq] at hdev
  refine ⟨dev, ?_, findIdx?_of_prefix h.interfaces hi⟩
  rw [getTunnelDevice_eq]
  exact findIdx?_of_prefix h.remotes hdev

/-! ### Changing a device in place -/

/-- The device at a place, after the device at a place was changed. -/
theorem getElem?_modifyDevice (n : Node) (dev i : ℕ) (f : TunnelNetDevice → TunnelNetDevice) :
    (n.modifyDevice dev f).tunnelList[i]? =
      if dev = i then n.tunnelList[i]?.map f else n.tunnelList[i]? := by
  rw [modifyDevice, List.getElem?_modify]
  split <;> simp

variable {f : TunnelNetDevice → TunnelNetDevice}

theorem remotes_modifyDevice (hf : ∀ d, n.tunnelList[dev]? = some d → (f d).remoteAddress = d.remoteAddress) :
    (n.modifyDevice dev f).remotes = n.remotes := by
  refine List.ext_getElem? fun i => ?_
  simp only [remotes, List.getElem?_map, getElem?_modifyDevice]
  by_cases hi : dev = i
  · subst hi
    cases hd : n.tunnelList[dev]? with
    | none => simp
    | some d => simp [hf d hd]
  · simp [hi]

@[simp] theorem interfaces_modifyDevice (n : Node) (dev : ℕ) (f : TunnelNetDevice → TunnelNetDevice) :
    (n.modifyDevice dev f).interfaces = n.interfaces := rfl

theorem staticRouting_modifyDevice (n : Node) (dev : ℕ) (f : TunnelNetDevice → TunnelNetDevice) :
    (n.modifyDevice dev f).staticRouting = n.staticRouting := rfl

@[simp] theorem length_tunnelList_modifyDevice (n : Node) (dev : ℕ)
    (f : TunnelNetDevice → TunnelNetDevice) :
    (n.modifyDevice dev f).tunnelList.length = n.tunnelList.length := by
  simp [modifyDevice]

theorem grows_modifyDevice (hf : ∀ d, n.tunnelList[dev]? = some d → (f d).remoteAddress = d.remoteAddress) :
    Grows n (n.modifyDevice dev f) :=
  ⟨(remotes_modifyDevice hf).symm ▸ List.prefix_rfl, List.prefix_rfl, [],
    by rw [staticRouting_modifyDevice, List.map_nil, List.append_nil], by simp [tunnelRoutes]⟩

/-! ### Adding an interface -/

theorem grows_interfaceForDevice (n : Node) (dev : ℕ) :
    Grows n (n.interfaceForDevice (.tunnel dev)).1 := by
  unfold interfaceForDevice
  split
  · exact .refl n
  · refine ⟨List.prefix_rfl, List.prefix_append _ _, [n.interfaces.length], rfl, ?_⟩
    simp [tunnelRoutes, setUp, addInterface, List.zipIdx_append]

theorem getInterfaceForDevice_interfaceForDevice (n : Node) (d : NetDevice) :
    (n.interfaceForDevice d).1.getInterfaceForDevice d = some (n.interfaceForDevice d).2 := by
  unfold interfaceForDevice
  split
  · assumption
  · rename_i h
    rw [getInterfaceForDevice] at h
    simp [getInterfaceForDevice, setUp, addInterface, List.findIdx?_append, h]

theorem tunnelList_interfaceForDevice (n : Node) (d : NetDevice) :
    (n.interfaceForDevice d).1.tunnelList = n.tunnelList := by
  unfold interfaceForDevice
  split <;> rfl

theorem mem_interfaces_interfaceForDevice {d d' : NetDevice} :
    d' ∈ (n.interfaceForDevice d).1.interfaces ↔ d' = d ∨ d' ∈ n.interfaces := by
  unfold interfaceForDevice
  split
  · rename_i i h
    have hd : d ∈ n.interfaces := getInterfaceForDevice_isSome_iff.mp (by rw [h]; rfl)
    constructor
    · exact .inr
    · rintro (rfl | h)
      · exact hd
      · exact h
  · simp [setUp, addInterface, or_comm]

theorem interfaces_removeTunnel (n : Node) (r : Ipv6Address) :
    (n.removeTunnel r).interfaces = n.interfaces := by
  unfold removeTunnel
  split <;> rfl

theorem openTunnelDevice_spec (n : Node) (r l : Ipv6Address) :
    (n.openTunnelDevice r l).1.interfaces = n.interfaces ∧
      (n.openTunnelDevice r l).1.staticRouting = n.staticRouting ∧
      (n.openTunnelDevice r l).2 = n.deviceFor r := by
  cases hr : n.getTunnelDevice r with
  | some dev => simp [openTunnelDevice, deviceFor, hr]
  | none =>
    cases hz : n.getTunnelDevice .zero with
    | some dev => simp [openTunnelDevice, deviceFor, hr, hz, staticRouting_modifyDevice]
    | none => simp [openTunnelDevice, deviceFor, hr, hz, createTunnelDevice, staticRouting_modifyDevice]

/-- The index of the interface of the device that `AddTunnel` takes. -/
theorem interfaceFor_eq (n : Node) (r l : Ipv6Address) :
    (((n.openTunnelDevice r l).1.modifyDevice (n.openTunnelDevice r l).2 .increaseRefCount).interfaceForDevice
      (.tunnel (n.openTunnelDevice r l).2)).2 = n.interfaceFor r := by
  obtain ⟨hif, -, hdev⟩ := n.openTunnelDevice_spec r l
  have hget : ((n.openTunnelDevice r l).1.modifyDevice (n.openTunnelDevice r l).2
        .increaseRefCount).getInterfaceForDevice (.tunnel (n.openTunnelDevice r l).2) =
      n.getInterfaceForDevice (.tunnel (n.deviceFor r)) := by
    rw [getInterfaceForDevice, interfaces_modifyDevice, hif, hdev]
    rfl
  unfold interfaceFor interfaceForDevice
  rw [hget]
  cases n.getInterfaceForDevice (.tunnel (n.deviceFor r)) with
  | some ifIndex => rfl
  | none => exact congrArg List.length hif

theorem addTunnel_snd (n : Node) (r l : Ipv6Address) :
    (n.addTunnel r l).2 = BitVec.ofNat 16 (n.interfaceFor r) :=
  congrArg (BitVec.ofNat 16) (n.interfaceFor_eq r l)

theorem routes_addTunnel (n : Node) (r l : Ipv6Address) :
    ∃ new : List ℕ, (n.addTunnel r l).1.staticRouting = n.staticRouting ++ new.map tunnelRoute ∧
      (n.addTunnel r l).1.tunnelRoutes = n.tunnelRoutes ++ new.map tunnelRoute := by
  obtain ⟨hif, hroutes, -⟩ := n.openTunnelDevice_spec r l
  obtain ⟨new, hs, ht⟩ := (grows_interfaceForDevice ((n.openTunnelDevice r l).1.modifyDevice
    (n.openTunnelDevice r l).2 .increaseRefCount) (n.openTunnelDevice r l).2).routes
  refine ⟨new, ?_, ?_⟩
  · rw [← hroutes]
    exact hs
  · rw [tunnelRoutes, tunnelRoutes, ← hif]
    exact ht

theorem routes_removeTunnel (n : Node) (r : Ipv6Address) :
    (n.removeTunnel r).staticRouting = n.staticRouting ∧
      (n.removeTunnel r).tunnelRoutes = n.tunnelRoutes := by
  unfold removeTunnel
  split <;> exact ⟨rfl, rfl⟩

/-- `AddTunnel` adds at most one interface. -/
theorem length_interfaces_addTunnel_le (n : Node) (r l : Ipv6Address) :
    (n.addTunnel r l).1.interfaces.length ≤ n.interfaces.length + 1 := by
  have hopen : (n.openTunnelDevice r l).1.interfaces = n.interfaces := (n.openTunnelDevice_spec r l).1
  have hif : ∀ (m : Node) (d : NetDevice),
      (m.interfaceForDevice d).1.interfaces.length ≤ m.interfaces.length + 1 := by
    intro m d
    unfold interfaceForDevice
    split
    · exact Nat.le_succ _
    · simp [setUp, addInterface]
  rw [← hopen]
  exact hif _ _

/-! ### The devices that serve a set of references -/

/-- The tunnel devices are those of the references `refs`. -/
structure DevicesFor (n : Node) (refs : Ipv6Address → ℕ) : Prop where
  remote_ne_zero : .zero ∉ n.remotes
  /-- No two devices have the same remote. -/
  nodup : n.remotes.Nodup
  /-- A device counts the references to it, and the one it was made with. -/
  refCount : ∀ (i : ℕ) (d : TunnelNetDevice), n.tunnelList[i]? = some d → d.refCount.toNat = 1 + refs d.remoteAddress
  /-- Every reference is to a device. -/
  device : ∀ r, 0 < refs r → r ∈ n.remotes

/-- The tunnel devices are those of the references `refs`, and each has an interface. -/
structure TunnelsFor (n : Node) (refs : Ipv6Address → ℕ) : Prop extends DevicesFor n refs where
  /-- Every tunnel device has an interface. -/
  interface : ∀ i < n.tunnelList.length, .tunnel i ∈ n.interfaces
  /-- Every tunnel interface is one of a device. -/
  interface_lt : ∀ i, .tunnel i ∈ n.interfaces → i < n.tunnelList.length

theorem TunnelsFor.withRoutes {refs : Ipv6Address → ℕ} (h : TunnelsFor n refs) (t : NetworkRoutes) :
    TunnelsFor { n with staticRouting := t } refs :=
  ⟨⟨h.remote_ne_zero, h.nodup, h.refCount, h.device⟩, h.interface, h.interface_lt⟩

theorem tunnelsFor_nil (hl : n.tunnelList = []) (hi : ∀ i, .tunnel i ∉ n.interfaces) : TunnelsFor n fun _ => 0 :=
  { remote_ne_zero := by simp [remotes, hl]
    nodup := by simp [remotes, hl]
    refCount := by simp [hl]
    device := fun r hr => absurd hr (Nat.lt_irrefl 0)
    interface := by simp [hl]
    interface_lt := fun i h => absurd h (hi i) }

variable {refs refs' : Ipv6Address → ℕ}

theorem TunnelsFor.congr (h : TunnelsFor n refs) (hrefs : ∀ a, refs' a = refs a) : TunnelsFor n refs' :=
  funext hrefs ▸ h

/-- Changing the count of one device follows a change of the references to its remote. -/
theorem DevicesFor.modifyDevice (h : DevicesFor n refs) {d : TunnelNetDevice} (hd : n.tunnelList[dev]? = some d)
    (hf : (f d).remoteAddress = d.remoteAddress) (hc : (f d).refCount.toNat = 1 + refs' d.remoteAddress)
    (hrefs : ∀ a, a ≠ d.remoteAddress → refs' a = refs a) : DevicesFor (n.modifyDevice dev f) refs' := by
  have hrem : (n.modifyDevice dev f).remotes = n.remotes := remotes_modifyDevice fun d' hd' => by
    rw [hd, Option.some.injEq] at hd'
    rw [← hd', hf]
  refine ⟨hrem ▸ h.remote_ne_zero, hrem ▸ h.nodup, fun i e he => ?_, fun r hr => ?_⟩
  · rw [getElem?_modifyDevice] at he
    by_cases hi : dev = i
    · subst hi
      simp only [if_true, hd, Option.map_some, Option.some.injEq] at he
      rw [← he, hc, hf]
    · simp only [hi, if_false] at he
      rw [h.refCount i e he, hrefs]
      intro heq
      -- another device with the same remote would be the same device
      have hdev := (getTunnelDevice_eq_some_iff h.nodup).mpr ⟨d, hd, rfl⟩
      have hidev := (getTunnelDevice_eq_some_iff h.nodup).mpr ⟨e, he, heq⟩
      rw [hdev, Option.some.injEq] at hidev
      exact hi hidev
  · rw [hrem]
    by_cases hrd : r = d.remoteAddress
    · rw [hrd]
      exact List.mem_map.mpr ⟨d, List.mem_of_getElem? hd, rfl⟩
    · rw [hrefs r hrd] at hr
      exact h.device r hr

/-- A new device for a remote without one serves the same references. -/
theorem DevicesFor.push {refs : Ipv6Address → ℕ} (h : DevicesFor n refs) (hr : r ≠ .zero) (hmem : r ∉ n.remotes)
    (l : Ipv6Address) : DevicesFor { n with tunnelList := n.tunnelList ++ [⟨l, r, 1⟩] } refs := by
  have hzero : refs r = 0 := Nat.eq_zero_of_not_pos fun hp => hmem (h.device r hp)
  have hrem : remotes { n with tunnelList := n.tunnelList ++ [⟨l, r, 1⟩] } = n.remotes ++ [r] := by
    simp [remotes]
  refine ⟨?_, ?_, fun i d hd => ?_, fun a ha => ?_⟩
  · rw [hrem, List.mem_append, List.mem_singleton, not_or]
    exact ⟨h.remote_ne_zero, fun heq => hr heq.symm⟩
  · rw [hrem, List.nodup_append]
    refine ⟨h.nodup, by simp, fun a ha b hb hab => ?_⟩
    rw [List.mem_singleton] at hb
    exact hmem (hb ▸ hab ▸ ha)
  · rcases List.mem_append.mp (List.mem_of_getElem? hd) with hm | hm
    · obtain ⟨j, hj⟩ := List.mem_iff_getElem?.mp hm
      exact h.refCount j d hj
    · rw [List.mem_singleton] at hm
      subst hm
      simp [hzero]
  · rw [hrem]
    exact List.mem_append_left _ (h.device a ha)

theorem grows_push (d : TunnelNetDevice) : Grows n { n with tunnelList := n.tunnelList ++ [d] } :=
  ⟨by simp [remotes], List.prefix_rfl, [], by simp, by simp [tunnelRoutes]⟩

/-! ### What the three operations do -/

theorem openTunnelDevice_of_some (h : n.getTunnelDevice r = some dev) (l : Ipv6Address) :
    n.openTunnelDevice r l = (n, dev) := by
  simp [openTunnelDevice, h]

theorem openTunnelDevice_of_none (h : n.getTunnelDevice r = none) (hz : n.getTunnelDevice .zero = none)
    (l : Ipv6Address) :
    n.openTunnelDevice r l =
      ({ n with tunnelList := n.tunnelList ++ [⟨l, r, 1⟩] }, n.tunnelList.length) := by
  simp [openTunnelDevice, h, hz, createTunnelDevice, modifyDevice, TunnelNetDevice.create,
    List.modify_eq_take_drop, TunnelNetDevice.setRemoteAddress, TunnelNetDevice.setLocalAddress]

/-- Taking one more reference to the device of a remote, and an interface for it. -/
theorem DevicesFor.takeReference (h : DevicesFor n refs) {d : TunnelNetDevice} (hd : n.tunnelList[dev]? = some d)
    (hdr : d.remoteAddress = r) (hlt : refs r + 2 < 2 ^ 32) (hrefs : ∀ a, refs' a = refs a + if a = r then 1 else 0)
    (hi : ∀ i < n.tunnelList.length, i ≠ dev → .tunnel i ∈ n.interfaces)
    (hi' : ∀ i, .tunnel i ∈ n.interfaces → i < n.tunnelList.length) :
    let m := (n.modifyDevice dev .increaseRefCount).interfaceForDevice (.tunnel dev)
    TunnelsFor m.1 refs' ∧ Grows n m.1 ∧ m.1.tunnelInterface r = some m.2 := by
  intro m
  have hcount : d.increaseRefCount.refCount.toNat = 1 + refs' d.remoteAddress := by
    have hold := h.refCount dev d hd
    rw [hrefs, hdr, if_pos rfl]
    rw [hdr] at hold
    rw [TunnelNetDevice.increaseRefCount, UInt32.toNat_add, hold]
    simp only [UInt32.reduceToNat]
    omega
  have hmod : DevicesFor (n.modifyDevice dev .increaseRefCount) refs' :=
    h.modifyDevice hd rfl hcount fun a ha => by rw [hrefs, if_neg fun he => ha (he.trans hdr.symm), Nat.add_zero]
  have hgrow : Grows n m.1 :=
    (grows_modifyDevice (f := .increaseRefCount) fun _ _ => rfl).trans (grows_interfaceForDevice _ dev)
  have hlist : m.1.tunnelList = (n.modifyDevice dev .increaseRefCount).tunnelList :=
    tunnelList_interfaceForDevice _ _
  have hdevlt : dev < n.tunnelList.length := (List.getElem?_eq_some_iff.mp hd).1
  have hdev : DevicesFor m.1 refs' := by
    have hrem : m.1.remotes = (n.modifyDevice dev .increaseRefCount).remotes := by
      rw [remotes, hlist, remotes]
    exact ⟨hrem ▸ hmod.remote_ne_zero, hrem ▸ hmod.nodup, hlist ▸ hmod.refCount, hrem ▸ hmod.device⟩
  refine ⟨{ hdev with interface := fun i hlt => ?_, interface_lt := fun i hm => ?_ }, hgrow, ?_⟩
  · rw [hlist, length_tunnelList_modifyDevice] at hlt
    rw [mem_interfaces_interfaceForDevice]
    by_cases hid : i = dev
    · exact .inl (hid ▸ rfl)
    · exact .inr (hi i hlt hid)
  · rw [hlist, length_tunnelList_modifyDevice]
    rcases mem_interfaces_interfaceForDevice.mp hm with heq | hm
    · rw [NetDevice.tunnel.injEq] at heq
      exact heq ▸ hdevlt
    · exact hi' i hm
  · rw [Node.tunnelInterface, Option.bind_eq_some_iff]
    refine ⟨dev, (getTunnelDevice_eq_some_iff hdev.nodup).mpr ⟨d.increaseRefCount, ?_, hdr⟩,
      getInterfaceForDevice_interfaceForDevice _ _⟩
    rw [hlist, getElem?_modifyDevice, if_pos rfl, hd]
    rfl

/-- `AddTunnel` takes one reference to the tunnel of the remote, grows the node and returns the
tunnel's interface. -/
theorem TunnelsFor.addTunnel (h : TunnelsFor n refs) (hr : r ≠ .zero) (hlt : refs r + 2 < 2 ^ 32)
    (hrefs : ∀ a, refs' a = refs a + if a = r then 1 else 0) (l : Ipv6Address) :
    TunnelsFor (n.addTunnel r l).1 refs' ∧ Grows n (n.addTunnel r l).1 ∧
      ∃ i, (n.addTunnel r l).1.tunnelInterface r = some i ∧
        (n.addTunnel r l).2 = BitVec.ofNat 16 i := by
  cases hdev : n.getTunnelDevice r with
  | some dev =>
    obtain ⟨d, hd, hdr⟩ := (getTunnelDevice_eq_some_iff h.nodup).mp hdev
    obtain ⟨ht, hg, hi⟩ := h.toDevicesFor.takeReference hd hdr hlt hrefs
      (fun i hi _ => h.interface i hi) h.interface_lt
    rw [Node.addTunnel, openTunnelDevice_of_some hdev]
    exact ⟨ht, hg, _, hi, rfl⟩
  | none =>
    have hz : n.getTunnelDevice .zero = none := getTunnelDevice_eq_none_iff.mpr h.remote_ne_zero
    have hpush := h.toDevicesFor.push hr (getTunnelDevice_eq_none_iff.mp hdev) l
    obtain ⟨ht, hg, hi⟩ := hpush.takeReference (d := ⟨l, r, 1⟩) List.getElem?_concat_length rfl hlt hrefs
      (fun i hi hne => h.interface i (by rw [List.length_append, List.length_singleton] at hi; omega))
      (fun i hi => by
        have := h.interface_lt i hi
        rw [List.length_append]
        omega)
    rw [Node.addTunnel, openTunnelDevice_of_none hdev hz]
    exact ⟨ht, (grows_push _).trans hg, _, hi, rfl⟩

/-- `RemoveTunnel` of a remote someone refers to takes one reference and leaves the rest. -/
theorem TunnelsFor.removeTunnel (h : TunnelsFor n refs) (hrefs : ∀ a, refs a = refs' a + if a = r then 1 else 0) :
    TunnelsFor (n.removeTunnel r) refs' ∧ Grows n (n.removeTunnel r) := by
  have hpos : refs r = refs' r + 1 := by rw [hrefs, if_pos rfl]
  have hmem : r ∈ n.remotes := h.device r (by omega)
  cases hdev : n.getTunnelDevice r with
  | none => exact absurd hmem (getTunnelDevice_eq_none_iff.mp hdev)
  | some dev =>
    obtain ⟨d, hd, rfl⟩ := (getTunnelDevice_eq_some_iff h.nodup).mp hdev
    have hold := h.refCount dev d hd
    have hcount : (d.refCount - 1).toNat = 1 + refs' d.remoteAddress := by
      have hbound := d.refCount.toNat_lt
      rw [UInt32.toNat_sub, hold]
      simp only [UInt32.reduceToNat]
      omega
    have hrel : d.release = d.decreaseRefCount := by
      have hne : d.refCount - 1 ≠ 0 := fun he => by
        rw [he] at hcount
        simp at hcount
        omega
      simp [TunnelNetDevice.release, TunnelNetDevice.decreaseRefCount, hne]
    have hkeep : ∀ d', n.tunnelList[dev]? = some d' → d'.release.remoteAddress = d'.remoteAddress := by
      intro d' hd'
      rw [hd, Option.some.injEq] at hd'
      rw [← hd', hrel]
      rfl
    have hmod := h.toDevicesFor.modifyDevice (f := .release) hd (hkeep d hd)
      (by rw [hrel]; exact hcount) fun a ha => by rw [hrefs a, if_neg ha, Nat.add_zero]
    simp only [Node.removeTunnel, hdev]
    exact ⟨{ hmod with
      interface := fun i hi => h.interface i (by simpa using hi)
      interface_lt := fun i hi => by simpa using h.interface_lt i hi }, grows_modifyDevice hkeep⟩

/-- `ModifyTunnel` of a remote someone refers to passes its assertions, and is `RemoveTunnel` of the
old remote and `AddTunnel` of the new: the count is at least two, so the device is never taken
over. -/
theorem TunnelsFor.modifyTunnel_eq {refs : Ipv6Address → ℕ} (h : TunnelsFor n refs) (hr : 0 < refs r)
    (r' l : Ipv6Address) : n.modifyTunnel r r' l = some ((n.removeTunnel r).addTunnel r' l) := by
  cases hdev : n.getTunnelDevice r with
  | none => exact absurd (h.device r hr) (getTunnelDevice_eq_none_iff.mp hdev)
  | some dev =>
    obtain ⟨d, hd, rfl⟩ := (getTunnelDevice_eq_some_iff h.nodup).mp hdev
    have hcount := h.refCount dev d hd
    have hone : 1 < d.refCount := by
      rw [UInt32.lt_iff_toNat_lt, hcount]
      simp only [UInt32.reduceToNat]
      omega
    have hne : d.refCount ≠ 0 := fun he => by
      rw [he] at hcount
      simp at hcount
      omega
    simp [Node.modifyTunnel, hdev, hd, hne, hone]

end Node

end Ns3.Pmip6
