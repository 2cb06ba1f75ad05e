import Ns3.Network.Address

/-!
# IPv4 headers

`Ipv4Header` (`internet/model/ipv4-header.cc`), without options, the type of service and the checksum.
-/

namespace Ns3

/-- The fields of the header, fragment offset and flags apart. -/
structure Ipv4Header where
  source : Ipv4Address
  destination : Ipv4Address
  protocol : UInt8
  identification : UInt16
  ttl : UInt8
  /-- `DONT_FRAGMENT` is set in `m_flags`. -/
  dontFragment : Bool
  /-- `MORE_FRAGMENTS` is set in `m_flags`. -/
  moreFragments : Bool
  /-- `m_fragmentOffset`, in bytes. -/
  fragmentOffset : ℕ
  payloadSize : ℕ
  deriving DecidableEq

namespace Ipv4Header

/-- `GetSerializedSize`. -/
def serializedSize : ℕ := 5 * 4

variable (h : Ipv4Header)

/-- No fragment follows. -/
def isLastFragment : Bool := !h.moreFragments

/-- More fragments follow. -/
def setMoreFragments : Ipv4Header := { h with moreFragments := true }

/-- No fragment follows. -/
def setLastFragment : Ipv4Header := { h with moreFragments := false }

/-- `SetFragmentOffset`: nothing where it aborts. -/
def setFragmentOffset (offsetBytes : ℕ) : Option Ipv4Header :=
  if offsetBytes % 8 = 0 then some { h with fragmentOffset := offsetBytes } else none

/-- A size of 16 bits. -/
def setPayloadSize (size : ℕ) : Ipv4Header := { h with payloadSize := size % 2 ^ 16 }

end Ipv4Header

end Ns3
