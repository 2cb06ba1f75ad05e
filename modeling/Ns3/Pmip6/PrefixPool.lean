import Ns3.Pmip6.Prefixes
import Mathlib.Data.List.Nodup
import Mathlib.Data.Nat.ModEq

/-!
# Prefixes out of a pool

What `Pmipv6PrefixPool::Assign` promises for the prefix of the pool: the addresses it returns are
different from each other, and each is the base of the pool but for the bits between the length
of its prefix and bit 64. `Assign` writes whole octets, so where the prefix ends inside an octet
the bits of that octet that belong to the prefix come from the index as well.

## What is proved

`assignMany_nodup`: the addresses are different, whatever the counter. `agrees_address_iff`: an
address agrees with the base exactly if the index brings the bits the base has in the octet the
prefix ends in. `assigns_apart_and_inside_iff` puts the two together for any number of calls up
to the size of the pool.
-/

namespace Ns3.Pmip6

namespace Pmipv6PrefixPool

/-- The addresses `n` successive calls of `Assign` return. -/
def assignMany (pool : Pmipv6PrefixPool) : ℕ → List Ipv6Address
  | 0 => []
  | n + 1 => pool.assign.2 :: pool.assign.1.assignMany n

/-- The address agrees with the base of the pool on its first `prefixLen` and on its last 64 bits. -/
structure Agrees (pool : Pmipv6PrefixPool) (a : Ipv6Address) : Prop where
  network : ∀ i < pool.prefixBeginLen.toNat, a.bit i = pool.prefixBegin.bit i
  host : ∀ i, 64 ≤ i → i < 128 → a.bit i = pool.prefixBegin.bit i

variable (pool : Pmipv6PrefixPool)

/-- How many bits the prefix has in the octet it ends in. -/
def partialBits : ℕ := pool.prefixBeginLen.toNat % 8

/-- The bits of the prefix in the octet it ends in, as the base of the pool has them. -/
def baseBits : ℕ :=
  (pool.prefixBegin.address[pool.prefixBeginLen.toNat / 8]?.getD 0).toNat >>> (8 - pool.partialBits)

variable (index : UInt64)

/-- The bits of the index that `Assign` writes in their place. -/
def indexBits : ℕ :=
  index.toNat / 2 ^ (64 - pool.prefixBeginLen.toNat) % 2 ^ pool.partialBits

/-- The index of the `i`-th call from now. -/
def indexAt (i : ℕ) : UInt64 := pool.lastPrefixIndex + UInt64.ofNat i

/-- The first and the last of the next `n` indices bring the bits the base has in the octet the
prefix ends in. There is nothing to ask when the prefix ends between two octets. -/
def BringsBase (n : ℕ) : Prop :=
  n = 0 ∨ pool.indexBits (pool.indexAt 1) = pool.baseBits ∧
    pool.indexBits (pool.indexAt n) = pool.baseBits
deriving Decidable

theorem prefixBeginLen_toNat_lt : pool.prefixBeginLen.toNat < 64 :=
  UInt8.lt_iff_toNat_lt.mp pool.prefixBeginLen_lt

theorem assignMany_eq (n : ℕ) :
    pool.assignMany n = (List.range n).map fun i => pool.address (pool.indexAt (i + 1)) := by
  induction n generalizing pool with
  | zero => rfl
  | succ n ih =>
    rw [assignMany, ih, List.range_succ_eq_map, List.map_cons, List.map_map]
    refine congrArg₂ List.cons rfl (List.map_congr_left fun i _ => congrArg pool.address ?_)
    rw [indexAt, indexAt, assign, UInt64.add_assoc]
    refine congrArg (pool.lastPrefixIndex + ·) ?_
    rw [Nat.succ_eq_add_one, Nat.add_comm (i + 1) 1, UInt64.ofNat_add 1]
    rfl

/-! ### The addresses are different -/

/-- The octets of the index hold at least as many addresses as the pool has. -/
theorem two_pow_le_pow_len : 2 ^ (64 - pool.prefixBeginLen.toNat) ≤ 256 ^ pool.len := by
  have hlt := pool.prefixBeginLen_toNat_lt
  rw [show 256 = 2 ^ 8 from rfl, ← Nat.pow_mul]
  refine Nat.pow_le_pow_right (by decide) ?_
  rw [len]
  omega

theorem pow_len_dvd : 256 ^ pool.len ∣ 2 ^ 64 := by
  rw [show 256 = 2 ^ 8 from rfl, ← Nat.pow_mul]
  exact Nat.pow_dvd_pow 2 (Nat.mul_le_mul_left 8 pool.len_le)

theorem toNat_indexAt (i : ℕ) : (pool.indexAt i).toNat = (pool.lastPrefixIndex.toNat + i) % 2 ^ 64 := by
  rw [indexAt, UInt64.toNat_add, UInt64.toNat_ofNat', Nat.add_mod_mod]

/-- As many addresses as the pool has are different from each other, whatever the counter. -/
theorem assignMany_nodup {n : ℕ} (hn : n ≤ 2 ^ (64 - pool.prefixBeginLen.toNat)) : (pool.assignMany n).Nodup := by
  rw [assignMany_eq]
  refine List.Nodup.map_on (fun i hi j hj h => ?_) List.nodup_range
  have hle := pool.two_pow_le_pow_len
  have hmod := pool.mod_eq_of_address_eq h
  rw [toNat_indexAt, toNat_indexAt, Nat.mod_mod_of_dvd _ pool.pow_len_dvd,
    Nat.mod_mod_of_dvd _ pool.pow_len_dvd] at hmod
  have hsucc : (i + 1) ≡ (j + 1) [MOD 256 ^ pool.len] := Nat.ModEq.add_left_cancel' _ hmod
  have hij : i ≡ j [MOD 256 ^ pool.len] := Nat.ModEq.add_right_cancel' 1 hsucc
  rw [List.mem_range] at hi hj
  exact Nat.ModEq.eq_of_lt_of_lt hij (by omega) (by omega)

/-! ### The addresses are inside the prefix -/

theorem getElem?_writeIndex_of_lt (buf : Vector UInt8 16) (index : UInt64) {len p : ℕ}
    (hlen : len ≤ 8) (hp : p < 8 - len ∨ 8 ≤ p) : (writeIndex buf index len)[p]? = buf[p]? := by
  induction len with
  | zero => rfl
  | succ len ih =>
    have hstep : writeIndex buf index (len + 1) =
        (writeIndex buf index len).set (7 - len) (UInt8.ofNat (index.toNat >>> (len * 8))) := by
      rw [writeIndex, List.range_succ, List.foldl_append]
      rfl
    rw [hstep, Vector.getElem?_set, if_neg (by omega)]
    exact ih (by omega) (by omega)

/-- Two octets have the same first `r` bits. -/
theorem firstBits_iff {x y : UInt8} {r : ℕ} (hr : r ≤ 8) :
    (∀ j < r, x.toNat.testBit (7 - j) = y.toNat.testBit (7 - j)) ↔
      x.toNat >>> (8 - r) = y.toNat >>> (8 - r) := by
  constructor
  · intro h
    refine Nat.eq_of_testBit_eq fun k => ?_
    rw [Nat.testBit_shiftRight, Nat.testBit_shiftRight]
    by_cases hk : k < r
    · rw [show 8 - r + k = 7 - (r - 1 - k) by omega]
      exact h _ (by omega)
    · have hz : ∀ z : UInt8, z.toNat.testBit (8 - r + k) = false := fun z =>
        Nat.testBit_lt_two_pow (Nat.lt_of_lt_of_le z.toNat_lt (Nat.pow_le_pow_right (by decide) (by omega)))
      rw [hz, hz]
  · intro h j hj
    have hbit := congrArg (Nat.testBit · (r - 1 - j)) h
    simp only [Nat.testBit_shiftRight] at hbit
    rwa [show 8 - r + (r - 1 - j) = 7 - j by omega] at hbit

/-- The octet the prefix ends in, when the prefix does not end before it. -/
theorem getElem?_address :
    (pool.address index).address[pool.prefixBeginLen.toNat / 8]? =
      some (UInt8.ofNat (index.toNat >>> ((pool.len - 1) * 8))) := by
  have hlt := pool.prefixBeginLen_toNat_lt
  have hlen : pool.len = 8 - pool.prefixBeginLen.toNat / 8 := rfl
  have hq : pool.prefixBeginLen.toNat / 8 = 7 - (pool.len - 1) := by omega
  have hget := getElem_writeIndex pool.prefixBegin.address index pool.len_le
    (show pool.len - 1 < pool.len by omega)
  rw [← hget, address, hq, Vector.getElem?_eq_getElem (by omega)]

theorem indexBits_eq :
    (UInt8.ofNat (index.toNat >>> ((pool.len - 1) * 8))).toNat >>> (8 - pool.partialBits) =
      pool.indexBits index := by
  have hlt := pool.prefixBeginLen_toNat_lt
  have hr : pool.partialBits < 8 := Nat.mod_lt _ (by decide)
  have hsplit : (pool.len - 1) * 8 + (8 - pool.partialBits) = 64 - pool.prefixBeginLen.toNat := by
    unfold len partialBits at *
    omega
  have hmod : ∀ x : ℕ, x % 256 / 2 ^ (8 - pool.partialBits) =
      x / 2 ^ (8 - pool.partialBits) % 2 ^ pool.partialBits := by
    intro x
    rw [← Nat.mod_mul_right_div_self, ← Nat.pow_add, Nat.sub_add_cancel (Nat.le_of_lt hr)]
  rw [UInt8.toNat_ofNat', Nat.shiftRight_eq_div_pow, hmod, Nat.shiftRight_eq_div_pow, Nat.div_div_eq_div_mul,
    ← Nat.pow_add, hsplit, indexBits]

/-- The address of an index agrees with the base exactly if the index brings the bits the base has
in the octet the prefix ends in. -/
theorem agrees_address_iff :
    pool.Agrees (pool.address index) ↔ pool.indexBits index = pool.baseBits := by
  have hlt := pool.prefixBeginLen_toNat_lt
  have hr : pool.partialBits < 8 := Nat.mod_lt _ (by decide)
  have hout : ∀ p, (p < pool.prefixBeginLen.toNat / 8 ∨ 8 ≤ p) →
      (pool.address index).address[p]? = pool.prefixBegin.address[p]? := fun p hp =>
    getElem?_writeIndex_of_lt _ _ pool.len_le (hp.imp_left fun h => by unfold len; omega)
  have hbits := firstBits_iff (x := UInt8.ofNat (index.toNat >>> ((pool.len - 1) * 8)))
    (y := pool.prefixBegin.address[pool.prefixBeginLen.toNat / 8]?.getD 0) (Nat.le_of_lt hr)
  rw [indexBits_eq] at hbits
  rw [baseBits, ← hbits]
  have hoctet : ∀ j < pool.partialBits,
      (8 * (pool.prefixBeginLen.toNat / 8) + j) / 8 = pool.prefixBeginLen.toNat / 8 ∧
        (8 * (pool.prefixBeginLen.toNat / 8) + j) % 8 = j := fun j hj => by omega
  constructor
  · intro h j hj
    have hbit := h.network (8 * (pool.prefixBeginLen.toNat / 8) + j) (by unfold partialBits at hj; omega)
    rwa [Ipv6Address.bit, Ipv6Address.bit, (hoctet j hj).1, (hoctet j hj).2, getElem?_address,
      Option.getD_some] at hbit
  · intro h
    refine ⟨fun i hi => ?_, fun i h64 _ => ?_⟩
    · by_cases hlast : i / 8 = pool.prefixBeginLen.toNat / 8
      · have hj := h (i % 8) (by unfold partialBits; omega)
        rwa [Ipv6Address.bit, Ipv6Address.bit, hlast, getElem?_address, Option.getD_some]
      · rw [Ipv6Address.bit, hout (i / 8) (.inl (by omega)), Ipv6Address.bit]
    · rw [Ipv6Address.bit, hout (i / 8) (.inr (by omega)), Ipv6Address.bit]

theorem indexBits_indexAt (i : ℕ) :
    pool.indexBits (pool.indexAt i) =
      (pool.lastPrefixIndex.toNat + i) / 2 ^ (64 - pool.prefixBeginLen.toNat) % 2 ^ pool.partialBits := by
  have hlt := pool.prefixBeginLen_toNat_lt
  have hdvd : 2 ^ (64 - pool.prefixBeginLen.toNat) * 2 ^ pool.partialBits ∣ 2 ^ 64 := by
    rw [← Nat.pow_add]
    exact Nat.pow_dvd_pow 2 (by unfold partialBits; omega)
  rw [indexBits, toNat_indexAt, ← Nat.mod_mul_right_div_self, ← Nat.mod_mul_right_div_self,
    Nat.mod_mod_of_dvd _ hdvd]

/-- Of as many indices as the pool has addresses, all bring the bits of the base if the first and
the last do: the bits change at most once on the way. -/
theorem bringsBase_iff {n : ℕ} (hn : n ≤ 2 ^ (64 - pool.prefixBeginLen.toNat)) :
    (∀ i < n, pool.indexBits (pool.indexAt (i + 1)) = pool.baseBits) ↔ pool.BringsBase n := by
  have hMpos : 0 < 2 ^ (64 - pool.prefixBeginLen.toNat) := Nat.pow_pos (by decide)
  have hbits := pool.indexBits_indexAt
  generalize 2 ^ (64 - pool.prefixBeginLen.toNat) = M at hn hbits hMpos
  constructor
  · intro h
    rcases Nat.eq_zero_or_pos n with h0 | hpos
    · exact .inl h0
    · have hlast := h (n - 1) (by omega)
      rw [Nat.sub_add_cancel hpos] at hlast
      exact .inr ⟨h 0 hpos, hlast⟩
  · rintro (rfl | ⟨hfirst, hlast⟩) i hi
    · exact absurd hi (Nat.not_lt_zero i)
    · rw [hbits] at hfirst hlast ⊢
      have hup : (pool.lastPrefixIndex.toNat + n) / M ≤ (pool.lastPrefixIndex.toNat + 1) / M + 1 := by
        rw [← Nat.add_div_right _ hMpos]
        exact Nat.div_le_div_right (by omega)
      have hlo : (pool.lastPrefixIndex.toNat + 1) / M ≤ (pool.lastPrefixIndex.toNat + (i + 1)) / M :=
        Nat.div_le_div_right (by omega)
      have hhi : (pool.lastPrefixIndex.toNat + (i + 1)) / M ≤ (pool.lastPrefixIndex.toNat + n) / M :=
        Nat.div_le_div_right (by omega)
      rcases Nat.lt_or_ge ((pool.lastPrefixIndex.toNat + 1) / M) ((pool.lastPrefixIndex.toNat + n) / M)
        with hstep | hsame
      · -- two successive numbers agree modulo `2 ^ r` only for `r = 0`
        have hsucc : (pool.lastPrefixIndex.toNat + n) / M = (pool.lastPrefixIndex.toNat + 1) / M + 1 := by
          omega
        have hone : 2 ^ pool.partialBits = 1 := by
          have hmod : (pool.lastPrefixIndex.toNat + 1) / M + 0 ≡ (pool.lastPrefixIndex.toNat + 1) / M + 1
              [MOD 2 ^ pool.partialBits] := by
            rw [Nat.ModEq, Nat.add_zero, hfirst, ← hsucc, hlast]
          exact Nat.dvd_one.mp ((Nat.modEq_zero_iff_dvd).mp (Nat.ModEq.add_left_cancel' _ hmod).symm)
        rw [hone, Nat.mod_one] at hfirst ⊢
        exact hfirst
      · rw [Nat.le_antisymm (hhi.trans hsame) hlo]
        exact hfirst

/-- A new pool. -/
def create (prefixBegin : Ipv6Address) (prefixLen : UInt8) (h : prefixLen < 64) : Pmipv6PrefixPool :=
  ⟨prefixBegin, prefixLen, h, 0⟩

/-- The prefixes that as many calls as the pool has addresses return are different from each other
and inside the pool exactly if the first and the last index bring the bits of the base. -/
theorem assigns_apart_and_inside_iff (n : ℕ) (hn : n ≤ 2 ^ (64 - pool.prefixBeginLen.toNat)) :
    ((pool.assignMany n).Nodup ∧ ∀ a ∈ pool.assignMany n, pool.Agrees a) ↔ pool.BringsBase n := by
  rw [← pool.bringsBase_iff hn, and_iff_right (pool.assignMany_nodup hn), assignMany_eq]
  simp only [List.forall_mem_map, List.mem_range, agrees_address_iff]

/-- A pool with a prefix of whole octets, as the helper sets up. -/
theorem assigns_apart_and_inside_whole_octets :
    ((create (.ofOctets 0x3f 0xfe) 48 (by decide)).assignMany 1000).Nodup ∧
      ∀ a ∈ (create (.ofOctets 0x3f 0xfe) 48 (by decide)).assignMany 1000,
        (create (.ofOctets 0x3f 0xfe) 48 (by decide)).Agrees a :=
  (assigns_apart_and_inside_iff (create (.ofOctets 0x3f 0xfe) 48 (by decide)) 1000 (by decide)).mpr
    (by decide)

/-- The first prefix out of `2010::/12` is `2000:0:0:1::`, which is not inside it. -/
theorem assign_outside :
    ¬ ∀ (pool : Pmipv6PrefixPool) (n : ℕ), n ≤ 2 ^ (64 - pool.prefixBeginLen.toNat) →
      (pool.assignMany n).Nodup ∧ ∀ a ∈ pool.assignMany n, pool.Agrees a := by
  intro h
  have hpool := h (create (.ofOctets 0x20 0x10) 12 (by decide)) 1 (by decide)
  have hagrees := hpool.2 _ List.mem_cons_self
  exact absurd (hagrees.network 11 (by decide)) (by decide)

end Pmipv6PrefixPool

end Ns3.Pmip6
