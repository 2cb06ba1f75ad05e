import Ns3.Network.Address
import Mathlib.Data.List.Count

/-!
# Router advertisements

`UnicastRadvd` (`pmip6/model/unicast-radvd.cc`) keeps the configurations of the advertisements a
gateway sends. A configuration gets its identifier from one counter for all nodes, and
`RemoveConfiguration` takes out the configuration with a given identifier: its callers pass the
index of an interface.

`count_advertised_removeConfiguration` is what removing does to the advertisements that are
configured.
-/

namespace Ns3.Pmip6

/-- A prefix that is advertised. -/
structure RadvdPrefix where
  network : Ipv6Address
  prefixLength : UInt8
  preferredLifeTime : ℕ
  validLifeTime : ℕ
  deriving DecidableEq

/-- What a `UnicastRadvdInterface` configures. -/
structure Advertisement where
  interface : BitVec 32
  maxRtrAdvInterval : ℕ
  minRtrAdvInterval : ℕ
  /-- `m_physicalAddress`: the octets of it that were set. -/
  physicalAddress : List UInt8
  prefixes : List RadvdPrefix
  deriving DecidableEq

/-- A configuration. -/
structure UnicastRadvdInterface where
  id : BitVec 32
  advertisement : Advertisement
  deriving DecidableEq

/-- `UnicastRadvd::m_configurations`. -/
abbrev UnicastRadvd := List UnicastRadvdInterface

namespace UnicastRadvd

variable (configurations : UnicastRadvd)

/-- A configuration more. -/
def addConfiguration (uri : UnicastRadvdInterface) : UnicastRadvd :=
  configurations ++ [uri]

/-- `RemoveConfiguration (ifIndex)`: the argument is compared with the identifiers. -/
def removeConfiguration (ifIndex : BitVec 32) : UnicastRadvd :=
  configurations.eraseP fun uri => uri.id = ifIndex

/-- The configuration `RemoveConfiguration` takes. -/
def getConfiguration (ifIndex : BitVec 32) :
    Option UnicastRadvdInterface :=
  configurations.find? fun uri => uri.id = ifIndex

/-- The advertisements that are configured. -/
def advertised : List Advertisement :=
  configurations.map (·.advertisement)

theorem count_advertised_addConfiguration (uri : UnicastRadvdInterface) (a : Advertisement) :
    (configurations.addConfiguration uri).advertised.count a =
      configurations.advertised.count a + if uri.advertisement = a then 1 else 0 := by
  simp [addConfiguration, advertised, List.count_singleton]

/-- Removing a configuration takes out one copy of what it advertises. -/
theorem count_advertised_removeConfiguration {configurations : UnicastRadvd} {ifIndex : BitVec 32}
    {uri : UnicastRadvdInterface} (h : configurations.getConfiguration ifIndex = some uri)
    (a : Advertisement) :
    (configurations.removeConfiguration ifIndex).advertised.count a +
        (if uri.advertisement = a then 1 else 0) = configurations.advertised.count a := by
  unfold getConfiguration at h
  unfold removeConfiguration advertised
  induction configurations with
  | nil => cases h
  | cons x l ih =>
    by_cases hx : x.id = ifIndex
    · rw [List.find?_cons_of_pos (by simpa using hx)] at h
      cases h
      rw [List.eraseP_cons_of_pos (by simpa using hx), List.map_cons, List.count_cons]
      simp only [beq_iff_eq]
    · rw [List.find?_cons_of_neg (by simpa using hx)] at h
      have hl := ih h
      rw [List.eraseP_cons_of_neg (by simpa using hx), List.map_cons, List.map_cons, List.count_cons,
        List.count_cons]
      omega

end UnicastRadvd

end Ns3.Pmip6
