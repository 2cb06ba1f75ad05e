import Ns3.Network.Address
import Mathlib.Tactic.Ring

/-!
# Where home network prefixes come from

`Pmipv6Profile` (`pmip6/model/pmipv6-profile.cc`) keeps what is configured of each mobile node,
its prefixes among it, and `Pmipv6PrefixPool` (`pmipv6-prefix-pool.cc`) makes prefixes for the
mobile nodes that have none.

`mod_eq_of_address_eq` is what a pool is for: an address tells its index, up to the octets the
index is written to.
-/

namespace Ns3.Pmip6

/-! ### Profiles -/

/-- A mobile node: its identifiers, anchor and prefixes. -/
structure Pmipv6Profile.Entry where
  mnIdentifier : Identifier
  mnLinkIdentifier : Identifier
  lmaAddress : Ipv6Address
  homeNetworkPrefixes : List Ipv6Address

/-- The mobile nodes. -/
structure Pmipv6Profile where
  /-- `m_profileList`, the map from identifiers to entries. -/
  profileList : Identifier → Option Pmipv6Profile.Entry

namespace Pmipv6Profile

variable (pf : Pmipv6Profile)

/-- The mobile node with the identifier. -/
def lookup (id : Identifier) : Option Entry := pf.profileList id

/-- `SetHomeNetworkPrefixes` of the entry of `id`. -/
def setHomeNetworkPrefixes (id : Identifier) (hnps : List Ipv6Address) :
    Pmipv6Profile :=
  { profileList := fun id' =>
      if id' = id then (pf.profileList id').map fun e => { e with homeNetworkPrefixes := hnps }
      else pf.profileList id' }

/-- The prefixes of an identifier: none when it has no entry. -/
def homeNetworkPrefixes (pf : Pmipv6Profile) (id : Identifier) : List Ipv6Address :=
  ((pf.lookup id).map (·.homeNetworkPrefixes)).getD []

/-- The mobile node an identifier stands for: a profile has an entry for the identifier of a mobile
node and one for that of its link. -/
def mobileNode (id : Identifier) : Identifier :=
  ((pf.lookup id).map (·.mnIdentifier)).getD id

theorem homeNetworkPrefixes_setHomeNetworkPrefixes {pf : Pmipv6Profile} {id : Identifier} {e : Entry}
    (h : pf.lookup id = some e) (hnps : List Ipv6Address) (id' : Identifier) :
    (pf.setHomeNetworkPrefixes id hnps).homeNetworkPrefixes id' =
      if id' = id then hnps else pf.homeNetworkPrefixes id' := by
  by_cases hid : id' = id
  · subst hid
    rw [lookup] at h
    simp [homeNetworkPrefixes, lookup, setHomeNetworkPrefixes, h]
  · simp [homeNetworkPrefixes, lookup, setHomeNetworkPrefixes, hid]

@[simp] theorem mobileNode_setHomeNetworkPrefixes (id id' : Identifier)
    (hnps : List Ipv6Address) :
    (pf.setHomeNetworkPrefixes id hnps).mobileNode id' = pf.mobileNode id' := by
  unfold mobileNode lookup setHomeNetworkPrefixes
  dsimp only
  split
  · rw [Option.map_map]
    rfl
  · rfl

end Pmipv6Profile

/-! ### The prefix pool -/

/-- The prefixes that are handed out one after the other. -/
structure Pmipv6PrefixPool where
  prefixBegin : Ipv6Address
  prefixBeginLen : UInt8
  /-- The assertion of the constructor. -/
  prefixBeginLen_lt : prefixBeginLen < 64
  lastPrefixIndex : UInt64

namespace Pmipv6PrefixPool

variable (pool : Pmipv6PrefixPool)

/-- The number of octets `Assign` writes the index to. -/
def len : ℕ := 8 - pool.prefixBeginLen.toNat / 8

/-- The loop of `Assign`: the low octets of the index, from octet 7 of the address downwards. -/
def writeIndex (buf : Vector UInt8 16) (index : UInt64) (len : ℕ) : Vector UInt8 16 :=
  (List.range len).foldl (fun buf i => buf.set (7 - i) (UInt8.ofNat (index.toNat >>> (i * 8)))) buf

/-- The prefix `Assign` makes of an index. -/
def address (pool : Pmipv6PrefixPool) (index : UInt64) : Ipv6Address :=
  ⟨writeIndex pool.prefixBegin.address index pool.len⟩

/-- The next prefix. -/
def assign : Pmipv6PrefixPool × Ipv6Address :=
  let pool := { pool with lastPrefixIndex := pool.lastPrefixIndex + 1 }
  (pool, pool.address pool.lastPrefixIndex)

/-- The pool has a prefix it has not assigned yet, and the counter does not wrap around. -/
def HasNext : Prop :=
  pool.lastPrefixIndex.toNat + 1 ≤ 256 ^ pool.len ∧ pool.lastPrefixIndex.toNat + 1 < 2 ^ 64
deriving Decidable

theorem len_le : pool.len ≤ 8 := Nat.sub_le _ _

/-- The octets `writeIndex` has written. -/
theorem getElem_writeIndex (buf : Vector UInt8 16) (index : UInt64) {len i : ℕ} (hlen : len ≤ 8)
    (hi : i < len) : (writeIndex buf index len)[7 - i] = UInt8.ofNat (index.toNat >>> (i * 8)) := by
  induction len with
  | zero => exact absurd hi (Nat.not_lt_zero i)
  | succ len ih =>
    have hstep : writeIndex buf index (len + 1) =
        (writeIndex buf index len).set (7 - len) (UInt8.ofNat (index.toNat >>> (len * 8))) := by
      rw [writeIndex, List.range_succ, List.foldl_append]
      rfl
    by_cases hlast : 7 - len = 7 - i
    · simp only [hstep, Vector.getElem_set, hlast, if_true]
      rw [show i = len by omega]
    · simp only [hstep, Vector.getElem_set, hlast, if_false]
      exact ih (by omega) (by omega)

/-- The low `n` octets of a number are its remainder by `256 ^ n`. -/
theorem mod_eq_of_octets {n : ℕ} : ∀ {x y : ℕ},
    (∀ i < n, UInt8.ofNat (x >>> (i * 8)) = UInt8.ofNat (y >>> (i * 8))) →
      x % 256 ^ n = y % 256 ^ n := by
  induction n with
  | zero =>
    intro x y _
    rw [Nat.pow_zero, Nat.mod_one, Nat.mod_one]
  | succ n ih =>
    intro x y h
    have hlow : x % 256 = y % 256 := by
      have h0 := congrArg UInt8.toNat (h 0 (Nat.succ_pos n))
      simpa using h0
    have hshift : ∀ i z : ℕ, z >>> ((i + 1) * 8) = (z / 256) >>> (i * 8) := by
      intro i z
      rw [show (i + 1) * 8 = 8 + i * 8 by ring, Nat.shiftRight_add, Nat.shiftRight_eq_div_pow z]
    have hhigh : x / 256 % 256 ^ n = y / 256 % 256 ^ n := by
      refine ih fun i hi => ?_
      rw [← hshift, ← hshift]
      exact h (i + 1) (Nat.succ_lt_succ hi)
    rw [Nat.pow_succ', Nat.mod_mul, Nat.mod_mul, hlow, hhigh]

/-- An address tells its index, up to the octets the index is written to. -/
theorem mod_eq_of_address_eq {i j : UInt64} (h : pool.address i = pool.address j) :
    i.toNat % 256 ^ pool.len = j.toNat % 256 ^ pool.len := by
  refine mod_eq_of_octets fun k hk => ?_
  rw [address, address, Ipv6Address.mk.injEq] at h
  rw [← getElem_writeIndex pool.prefixBegin.address i pool.len_le hk,
    ← getElem_writeIndex pool.prefixBegin.address j pool.len_le hk]
  simp only [h]

theorem toNat_lastPrefixIndex_assign {pool : Pmipv6PrefixPool} (h : pool.HasNext) :
    pool.assign.1.lastPrefixIndex.toNat = pool.lastPrefixIndex.toNat + 1 := by
  rw [assign, UInt64.toNat_add]
  exact Nat.mod_eq_of_lt h.2

end Pmipv6PrefixPool

end Ns3.Pmip6
