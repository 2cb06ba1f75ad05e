import Ns3.Network.Address
import Mathlib.Data.List.Basic

/-!
# The end points of IPv4

`Ipv4EndPoint` and `Ipv4EndPointDemux` (`internet/model/ipv4-end-point-demux.cc`): the list of end points, the
allocation of new ones, and the look-up of those that a segment is for.
-/

namespace Ns3

/-- The addresses and ports that a socket is known by. -/
structure Ipv4EndPoint where
  /-- The address of the object: end points are numbered as they are made. -/
  id : ℕ
  localAddr : Ipv4Address
  localPort : ℕ
  peerAddr : Ipv4Address
  peerPort : ℕ
  boundnetdevice : Option ℕ

namespace Ipv4EndPoint

/-- `Ipv4EndPoint (address, port)`. -/
def new (id : ℕ) (address : Ipv4Address) (port : ℕ) : Ipv4EndPoint := ⟨id, address, port, .any, 0, none⟩

/-- The peer is known. -/
def setPeer (address : Ipv4Address) (port : ℕ) (e : Ipv4EndPoint) : Ipv4EndPoint :=
  { e with peerAddr := address, peerPort := port }

/-- The local address is known. -/
def setLocalAddress (address : Ipv4Address) (e : Ipv4EndPoint) : Ipv4EndPoint := { e with localAddr := address }

/-- Only packets of the device are taken. -/
def bindToNetDevice (netdevice : Option ℕ) (e : Ipv4EndPoint) : Ipv4EndPoint := { e with boundnetdevice := netdevice }

end Ipv4EndPoint

/-- What the look-up asks an `Ipv4Interface` for. -/
structure Ipv4Interface where
  device : ℕ
  /-- The addresses, each with `GetLocal` and `GetMask`. -/
  addresses : List (Ipv4Address × BitVec 32)

/-- The end points of a protocol. -/
structure Ipv4EndPointDemux where
  ephemeral : ℕ
  portLast : ℕ
  portFirst : ℕ
  endPoints : List Ipv4EndPoint
  /-- The number of end points made. -/
  made : ℕ

namespace Ipv4EndPointDemux

/-- `Ipv4EndPointDemux ()`. -/
def new : Ipv4EndPointDemux := ⟨49152, 65535, 49152, [], 0⟩

variable (d : Ipv4EndPointDemux)

/-- An end point has the port. -/
def lookupPortLocal (port : ℕ) : Bool := d.endPoints.any fun e => e.localPort = port

/-- An end point has the address and port. -/
def lookupLocal (addr : Ipv4Address) (port : ℕ) : Bool :=
  d.endPoints.any fun e => e.localPort = port ∧ e.localAddr = addr

/-- The loop of `AllocateEphemeralPort`: the next port that is not in use, in the given number of rounds, or zero. -/
def nextPort (d : Ipv4EndPointDemux) : ℕ → ℕ → ℕ
  | 0, _ => 0
  | count + 1, port =>
    let port := (port + 1) % 2 ^ 16
    let port := if port < d.portFirst ∨ d.portLast < port then d.portFirst else port
    if d.lookupPortLocal port then d.nextPort count port else port

/-- A port of the range that is not in use, or zero. -/
def allocateEphemeralPort : ℕ × Ipv4EndPointDemux :=
  let port := d.nextPort (d.portLast - d.portFirst + 1) d.ephemeral
  if port = 0 then (0, d) else (port, { d with ephemeral := port })

/-- A new end point at the end of the list. -/
def push (e : Ipv4EndPoint) : Ipv4EndPointDemux :=
  { d with endPoints := d.endPoints ++ [e], made := d.made + 1 }

/-- `Allocate (address)`, and `Allocate ()` for any address: the end point, and the demux with it. -/
def allocateAddress (address : Ipv4Address) : Option ℕ × Ipv4EndPointDemux :=
  let (port, d) := d.allocateEphemeralPort
  if port = 0 then (none, d) else (some d.made, d.push (.new d.made address port))

/-- `Allocate ()`. -/
def allocateAny : Option ℕ × Ipv4EndPointDemux := d.allocateAddress .any

/-- `Allocate (address, port)`. -/
def allocateLocal (address : Ipv4Address) (port : ℕ) : Option ℕ × Ipv4EndPointDemux :=
  if d.lookupLocal address port then (none, d) else (some d.made, d.push (.new d.made address port))

/-- `Allocate (port)`. -/
def allocatePort (port : ℕ) : Option ℕ × Ipv4EndPointDemux := d.allocateLocal .any port

/-- `Allocate (localAddress, localPort, peerAddress, peerPort)`. -/
def allocatePeer (localAddress : Ipv4Address) (localPort : ℕ) (peerAddress : Ipv4Address)
    (peerPort : ℕ) : Option ℕ × Ipv4EndPointDemux :=
  if d.endPoints.any (fun e =>
      e.localPort = localPort ∧ e.localAddr = localAddress ∧ e.peerPort = peerPort ∧ e.peerAddr = peerAddress) then
    (none, d)
  else (some d.made, d.push ((Ipv4EndPoint.new d.made localAddress localPort).setPeer peerAddress peerPort))

/-- The end point is removed. -/
def deAllocate (id : ℕ) : Ipv4EndPointDemux :=
  { d with endPoints := d.endPoints.eraseP fun e => e.id = id }

/-- An end point is changed through its address. -/
def modify (id : ℕ) (f : Ipv4EndPoint → Ipv4EndPoint) : Ipv4EndPointDemux :=
  { d with endPoints := d.endPoints.map fun e => if e.id = id then f e else e }

/-! ### The look-up -/

/-- The addresses of the interface whose subnet the destination is the broadcast address of. -/
def directed (daddr : Ipv4Address) (incomingInterface : Ipv4Interface) : List Ipv4Address :=
  (incomingInterface.addresses.filter fun addr =>
    addr.1.combineMask addr.2 = daddr.combineMask addr.2 ∧ daddr.isSubnetDirectedBroadcast addr.2).map Prod.fst

/-- `isBroadcast`, of the look-up. -/
def isBroadcast (daddr : Ipv4Address) (incomingInterface : Ipv4Interface) : Bool :=
  daddr.isBroadcast || !(directed daddr incomingInterface).isEmpty

/-- `incomingInterfaceAddr`, of the look-up: the last address whose subnet the destination is broadcast to. -/
def incomingInterfaceAddr (daddr : Ipv4Address) (incomingInterface : Ipv4Interface) : Ipv4Address :=
  (directed daddr incomingInterface).getLastD daddr

variable (e : Ipv4EndPoint)

/-- The address is that of the segment, or of the interface it was broadcast to. -/
def LocalAddressMatchesExact (daddr : Ipv4Address) (incomingInterface : Ipv4Interface) : Prop :=
  if isBroadcast daddr incomingInterface ∧ e.localAddr ≠ .any then
    e.localAddr = incomingInterfaceAddr daddr incomingInterface
  else e.localAddr = daddr
deriving Decidable

/-- The end point is not skipped by the loop of `Lookup`: what it has of the four is that of the segment, or left
open. -/
def Matches (daddr : Ipv4Address) (dport : ℕ) (saddr : Ipv4Address) (sport : ℕ)
    (incomingInterface : Ipv4Interface) : Prop :=
  e.localPort = dport ∧ (∀ dev ∈ e.boundnetdevice, dev = incomingInterface.device) ∧
    (LocalAddressMatchesExact e daddr incomingInterface ∨ e.localAddr = .any) ∧
    (e.peerPort = sport ∨ e.peerPort = 0) ∧ (e.peerAddr = saddr ∨ e.peerAddr = .any)
deriving Decidable

/-- `retval1`: only the local port matches exactly. -/
def retval1 : Bool := e.localAddr = .any ∧ e.peerPort = 0 ∧ e.peerAddr = .any

/-- `retval2`: only the local port and the local address match exactly. -/
def retval2 (daddr : Ipv4Address) (incomingInterface : Ipv4Interface) : Bool :=
  (LocalAddressMatchesExact e daddr incomingInterface ∨ isBroadcast daddr incomingInterface ∧ e.localAddr = .any) ∧
    e.peerPort = 0 ∧ e.peerAddr = .any

/-- `retval3`: all but the local address. -/
def retval3 (saddr : Ipv4Address) (sport : ℕ) : Bool :=
  e.localAddr = .any ∧ e.peerPort = sport ∧ e.peerAddr = saddr

/-- `retval4`: all four match. -/
def retval4 (daddr saddr : Ipv4Address) (sport : ℕ) (incomingInterface : Ipv4Interface) : Bool :=
  LocalAddressMatchesExact e daddr incomingInterface ∧ e.peerPort = sport ∧ e.peerAddr = saddr

/-- The end points that a segment is for: the list of those that match best. -/
def lookup (daddr : Ipv4Address) (dport : ℕ) (saddr : Ipv4Address) (sport : ℕ)
    (incomingInterface : Ipv4Interface) : List Ipv4EndPoint :=
  let found := d.endPoints.filter fun e => Matches e daddr dport saddr sport incomingInterface
  let all := found.filter fun e => retval4 e daddr saddr sport incomingInterface
  let butLocal := found.filter fun e => retval3 e saddr sport
  let localOnly := found.filter fun e => retval2 e daddr incomingInterface
  if all ≠ [] then all
  else if butLocal ≠ [] then butLocal
  else if localOnly ≠ [] then localOnly
  else found.filter retval1

end Ipv4EndPointDemux

end Ns3
