import Ns3.Internet.Ipv4Header
import Ns3.Lib.Machine
import Mathlib.Data.List.AList

/-!
# IPv4 fragmentation

What `Ipv4L3Protocol` (`internet/model/ipv4-l3-protocol.cc`) does to take packets apart, `DoFragmentation`, and to put
them together, `ProcessFragment`, `HandleFragmentsTimeout` and the class `Fragments`. A packet is its IP header
with its payload.
-/

namespace Ns3

open Lib

/-- A packet with its IP header. -/
structure Ipv4Packet where
  header : Ipv4Header
  payload : List UInt8
  deriving DecidableEq

namespace Ipv4L3Protocol

/-- `fragmentSize` in `DoFragmentation`: the lowest three bits are cleared. -/
def fragmentSize (outIfaceMtu : ℕ) : ℕ :=
  let size := (outIfaceMtu + 2 ^ 32 - Ipv4Header.serializedSize) % 2 ^ 32
  size - size % 8

/-- The loop of `DoFragmentation`, for a number of rounds: nothing where it does not end, or aborts. -/
def fragmentLoop (packet : Ipv4Packet) (fragmentSize : ℕ) (alreadyFragmented : Bool) (originalOffset : ℕ) :
    ℕ → ℕ → Option (List Ipv4Packet)
  | 0, _ => none
  | rounds + 1, offset =>
    let moreFragment : Bool := packet.payload.length > (offset + fragmentSize) % 2 ^ 32
    let currentFragmentablePartSize := if moreFragment then fragmentSize else packet.payload.length - offset
    let fragmentHeader :=
      if moreFragment || alreadyFragmented then packet.header.setMoreFragments else packet.header.setLastFragment
    let fragment := (packet.payload.drop offset).take currentFragmentablePartSize
    match fragmentHeader.setFragmentOffset ((offset + originalOffset) % 2 ^ 16) with
    | none => none
    | some fragmentHeader =>
      let fragment : Ipv4Packet := ⟨fragmentHeader.setPayloadSize currentFragmentablePartSize, fragment⟩
      if moreFragment then
        (fragmentLoop packet fragmentSize alreadyFragmented originalOffset rounds
          ((offset + currentFragmentablePartSize) % 2 ^ 16)).map (fragment :: ·)
      else some [fragment]

/-- `DoFragmentation`. Every round but the last takes something off the payload. -/
def doFragmentation (packet : Ipv4Packet) (outIfaceMtu : ℕ) : Option (List Ipv4Packet) :=
  let alreadyFragmented := !packet.header.isLastFragment
  let originalOffset := if alreadyFragmented then packet.header.fragmentOffset else 0
  fragmentLoop packet (fragmentSize outIfaceMtu) alreadyFragmented originalOffset (packet.payload.length + 1) 0

/-- The fragments of a packet that came. -/
structure Fragments where
  moreFragment : Bool
  /-- `m_fragments`: the fragments with their offsets. -/
  fragments : List (List UInt8 × ℕ)

namespace Fragments

/-- `Fragments ()`. -/
def new : Fragments := ⟨false, []⟩

/-- The list with a fragment before the first one with a greater offset. -/
def insert (fragment : List UInt8) (fragmentOffset : ℕ) : List (List UInt8 × ℕ) → List (List UInt8 × ℕ)
  | [] => [(fragment, fragmentOffset)]
  | it :: rest =>
    if it.2 > fragmentOffset then (fragment, fragmentOffset) :: it :: rest
    else it :: insert fragment fragmentOffset rest

variable (f : Fragments)

/-- A fragment is put in its place; the last one says whether more follow. -/
def addFragment (fragment : List UInt8) (fragmentOffset : ℕ) (moreFragment : Bool) : Fragments where
  moreFragment := if f.fragments.all (·.2 ≤ fragmentOffset) then moreFragment else f.moreFragment
  fragments := insert fragment fragmentOffset f.fragments

/-- The loop of `IsEntire`. -/
def contiguous (lastEndOffset : ℕ) : List (List UInt8 × ℕ) → Bool
  | [] => true
  | it :: rest =>
    if lastEndOffset < it.2 then false
    else contiguous (max lastEndOffset ((it.1.length + it.2) % 2 ^ 16)) rest

/-- The fragments are all there, without gaps. -/
def isEntire : Bool := !f.moreFragment && f.fragments ≠ [] && contiguous 0 f.fragments

/-- The loop of `GetPacket`. -/
def assemble (p : List UInt8) (lastEndOffset : ℕ) : List (List UInt8 × ℕ) → List UInt8
  | [] => p
  | it :: rest =>
    let p :=
      if lastEndOffset > it.2 then
        if it.1.length > lastEndOffset - it.2 then p ++ it.1.drop (lastEndOffset - it.2) else p
      else p ++ it.1
    assemble p (p.length % 2 ^ 16) rest

/-- The octets of the fragments, put together. -/
def getPacket : List UInt8 := assemble [] 0 f.fragments

/-- The loop of `GetPartialPacket`. -/
def assemblePartial (p : List UInt8) (lastEndOffset : ℕ) : List (List UInt8 × ℕ) → List UInt8
  | [] => p
  | it :: rest =>
    let p :=
      if lastEndOffset > it.2 then p ++ it.1.drop (lastEndOffset - it.2)
      else if lastEndOffset = it.2 then p ++ it.1
      else p
    assemblePartial p (p.length % 2 ^ 16) rest

/-- `GetPartialPacket`, of at least one fragment. -/
def getPartialPacket : List UInt8 :=
  match f.fragments with
  | [] => []
  | first :: _ => if first.2 > 0 then [] else assemblePartial [] 0 f.fragments

end Fragments

/-- The key of `m_fragments`. -/
abbrev FragmentKey := BitVec 64 × BitVec 32

/-- The key that `ProcessFragment` makes of a header. The shift binds tighter than `&`. -/
def fragmentKey (ipHeader : Ipv4Header) : FragmentKey :=
  ((ipHeader.source.address.setWidth 64 <<< 32) &&& ipHeader.destination.address.setWidth 64,
    (ipHeader.identification.toBitVec.setWidth 32 <<< 16) &&& ipHeader.protocol.toBitVec.setWidth 32)

/-- The state of reassembly. -/
structure Reassembly where
  fragments : AList fun _ : FragmentKey => Fragments
  /-- `m_fragmentsTimers`, with the arguments of the event. -/
  fragmentsTimers : AList fun _ : FragmentKey => Ipv4Header

namespace Reassembly

/-- Nothing was received. -/
def new : Reassembly := ⟨∅, ∅⟩

/-- `ProcessFragment`: the complete packet, if there is one. -/
def processFragment (w : Reassembly) (packet : List UInt8) (ipHeader : Ipv4Header) : Option (List UInt8) × Reassembly :=
  let key := fragmentKey ipHeader
  let (fragments, timers) :=
    match w.fragments.lookup key with
    | none => (Fragments.new, w.fragmentsTimers.insert key ipHeader)
    | some fragments => (fragments, w.fragmentsTimers)
  let fragments := fragments.addFragment packet ipHeader.fragmentOffset (!ipHeader.isLastFragment)
  if fragments.isEntire then (some fragments.getPacket, ⟨w.fragments.erase key, timers.erase key⟩)
  else (none, ⟨w.fragments.insert key fragments, timers⟩)

/-- `HandleFragmentsTimeout`: the part of the packet that it drops, if it finds one. -/
def handleFragmentsTimeout (w : Reassembly) (key : FragmentKey) : Option (List UInt8) × Reassembly :=
  ((w.fragments.lookup key).map Fragments.getPartialPacket, ⟨w.fragments.erase key, w.fragmentsTimers.erase key⟩)

end Reassembly

end Ipv4L3Protocol

end Ns3
