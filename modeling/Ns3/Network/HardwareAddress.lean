/-!
# Hardware addresses

`Address` is what the address of a device looks like to the protocols above it.
-/

namespace Ns3

/-- `Address`: its octets, and a type that is zero where it is not known. -/
structure Address where
  type : UInt8
  /-- The first `m_len` octets of `m_data`. -/
  data : List UInt8
  deriving DecidableEq

/-- `operator ==`: a type that is not known is equal to any. -/
def Address.equal (a b : Address) : Bool :=
  (a.type = b.type || a.type = 0 || b.type = 0) && a.data = b.data

theorem Address.equal_self (a : Address) : a.equal a = true := by simp [equal]

end Ns3
