import Ns3.Lib.Tally
import Ns3.Pmip6.LmaSteps

/-!
# The home network prefixes of the anchor

A new binding cache entry takes the prefixes of the profile of its mobile node. Where the profile
has none it takes one from the pool, and the profile keeps it.

## What is proved

`prefixes_unshared` — when the profiles are apart from each other and from the pool, no two
entries of the cache share a prefix, as long as no step opens a second session of a mobile node
that has one, nor asks an exhausted pool (`OpensOneSession`). The invariant is `PrefixesApart`: an
entry has the prefixes of its profile, and what the pool gave out is behind its index.
`shared_of_second_session` says that a second session under the identifier of the first has the
prefixes of the first, and `prefixes_shared` is a run that opens one.
-/

namespace Ns3.Pmip6

open BindingCache Lib

namespace Lma

/-- No home network prefix belongs to two entries. -/
def PrefixesUnshared (lma : Lma) : Prop :=
  ∀ (p q : ℕ) (e e' : Entry), lma.bCache[p]? = some e → lma.bCache[q]? = some e' → p ≠ q →
    ∀ a ∈ e.homeNetworkPrefixes, a ∉ e'.homeNetworkPrefixes

/-- An anchor before its first update. The prefixes of the profiles are pairwise disjoint, and
disjoint from the pool. -/
structure Configured (lma : Lma) : Prop where
  empty : lma.bCache = []
  /-- The prefixes of two mobile nodes are disjoint. -/
  disjoint : ∀ k k', lma.profile.mobileNode k ≠ lma.profile.mobileNode k' →
    ∀ a ∈ lma.profile.homeNetworkPrefixes k, a ∉ lma.profile.homeNetworkPrefixes k'
  /-- No prefix of a profile is one of the pool. -/
  pool : ∀ k, ∀ a ∈ lma.profile.homeNetworkPrefixes k, ∀ i, a ≠ lma.prefixPool.address i
  new : lma.prefixPool.lastPrefixIndex = 0

/-- No step opens a second session of a mobile node, under one of its identifiers, and the pool has a
prefix for the mobile nodes that need one. -/
def OpensOneSession (s : Timed) : Event → Prop
  | .pbu src message =>
    path s.now src message s.lma = .create →
      (∀ x ∈ s.lma.bCache,
          s.lma.profile.mobileNode x.mnIdentifier ≠ s.lma.profile.mobileNode message.bundle.mnIdentifier) ∧
        (s.lma.profile.homeNetworkPrefixes message.bundle.mnIdentifier = [] → s.lma.prefixPool.HasNext)
  | .advance _ | .registerTimeout _ | .reachableTimeout _ | .deregisterTimeout _ => True

instance (s : Timed) (e : Event) : Decidable (OpensOneSession s e) :=
  match e with
  | .pbu _ _ => inferInstanceAs (Decidable (_ = _ → _ ∧ (_ → _)))
  | .advance _ | .registerTimeout _ | .reachableTimeout _ | .deregisterTimeout _ => isTrue trivial

/-! ### What belongs to whom -/

/-- The mobile node of an entry, and the prefixes the entry has. -/
def owner (e : Entry) : Identifier × List Ipv6Address := (e.mnIdentifier, e.homeNetworkPrefixes)

variable {now : ℤ}

/-- A step leaves the owners, the profiles and the pool as they are, unless it creates an entry. -/
theorem owners_of_change {lma lma' : Lma} {e : Event} (h : Change now lma e lma') :
    (lma'.bCache.map owner = lma.bCache.map owner ∧ lma'.profile = lma.profile ∧
        lma'.prefixPool = lma.prefixPool) ∨
      ∃ src pbu, e = .pbu src pbu ∧ path now src pbu lma = .create ∧ lma' = afterCreate now src pbu lma := by
  cases h with
  | advance | idle _ => exact .inl ⟨rfl, rfl, rfl⟩
  | update hpath | delay hpath | handOff hpath _ | deregister hpath =>
    obtain ⟨hget, -⟩ := getElem?_of_path (by rw [hpath]; rfl)
    exact .inl ⟨map_set_of_eq hget rfl, rfl, rfl⟩
  | create hpath => exact .inr ⟨_, _, rfl, hpath, rfl⟩
  | registerTimeout hget _ _ _ _ | reachableTimeout hget _ | deregisterTimeout hget _ =>
    exact .inl ⟨map_set_of_eq hget rfl, rfl, rfl⟩

theorem owner_created (now : ℤ) (src : Ipv6Address) (pbu : Ipv6MobilityBindingUpdateHeader) (lma : Lma) :
    owner (created now src pbu lma) = (pbu.bundle.mnIdentifier, createdPrefixes pbu lma) := rfl

variable {lma : Lma}

theorem exists_lookup_of_create {src : Ipv6Address} {pbu : Ipv6MobilityBindingUpdateHeader}
    (h : path now src pbu lma = .create) : ∃ pf, lma.profile.lookup pbu.bundle.mnIdentifier = some pf := by
  refine Option.ne_none_iff_exists'.mp fun hnone => ?_
  unfold path at h
  split at h
  · cases h
  · rename_i hcheck
    unfold checkOptions at hcheck
    split at hcheck
    · cases hcheck
    · simp at hcheck

/-! ### Profiles and pool -/

/-- The prefixes of the profiles are apart from each other, and those that are of the pool were
assigned by it. -/
structure Apart (pf : Pmipv6Profile) (pool : Pmipv6PrefixPool) : Prop where
  /-- The prefixes of two identifiers are disjoint. -/
  disjoint : ∀ k k', pf.mobileNode k ≠ pf.mobileNode k' →
    ∀ a ∈ pf.homeNetworkPrefixes k, a ∉ pf.homeNetworkPrefixes k'
  /-- A prefix of the pool that is in a profile has an index the pool has passed. -/
  assigned : ∀ k, ∀ a ∈ pf.homeNetworkPrefixes k, ∀ i, a = pool.address i →
    ∃ n, 0 < n ∧ n ≤ pool.lastPrefixIndex.toNat ∧ n % 256 ^ pool.len = i.toNat % 256 ^ pool.len
  /-- The pool has not begun again. -/
  le : pool.lastPrefixIndex.toNat ≤ 256 ^ pool.len

theorem Apart.not_mem {pf : Pmipv6Profile} {pool : Pmipv6PrefixPool} (h : Apart pf pool)
    (hnext : pool.HasNext) (k : Identifier) : pool.assign.2 ∉ pf.homeNetworkPrefixes k := by
  intro hmem
  obtain ⟨n, hpos, hle, hmod⟩ := h.assigned k _ hmem (pool.lastPrefixIndex + 1) rfl
  have hsucc : (pool.lastPrefixIndex + 1).toNat = pool.lastPrefixIndex.toNat + 1 :=
    Pmipv6PrefixPool.toNat_lastPrefixIndex_assign hnext
  rw [hsucc] at hmod
  have hdvd := Nat.dvd_of_mod_eq_zero (Nat.sub_mod_eq_zero_of_mod_eq hmod.symm)
  have := Nat.le_of_dvd (by omega) hdvd
  have := hnext.1
  omega

/-- Allocating prefixes keeps the profiles apart, and gives the mobile node those of its profile. -/
theorem Apart.allocatePrefixes {pf : Pmipv6Profile} {pool : Pmipv6PrefixPool} (h : Apart pf pool)
    {k : Identifier} {e : Pmipv6Profile.Entry} (hk : pf.lookup k = some e)
    (hnext : pf.homeNetworkPrefixes k = [] → pool.HasNext) :
    Apart (allocatePrefixes pf pool k).1 (allocatePrefixes pf pool k).2.1 ∧
      (allocatePrefixes pf pool k).2.2 = (allocatePrefixes pf pool k).1.homeNetworkPrefixes k ∧
      (∀ k', k' ≠ k →
        (allocatePrefixes pf pool k).1.homeNetworkPrefixes k' = pf.homeNetworkPrefixes k') ∧
      ∀ k', (allocatePrefixes pf pool k).1.mobileNode k' = pf.mobileNode k' := by
  unfold Lma.allocatePrefixes
  split
  · exact ⟨h, rfl, fun _ _ => rfl, fun _ => rfl⟩
  · rename_i hlen
    have hnil : pf.homeNetworkPrefixes k = [] := List.eq_nil_of_length_eq_zero (by omega)
    have hnext := hnext hnil
    have hset : ∀ k', (pf.setHomeNetworkPrefixes k [pool.assign.2]).homeNetworkPrefixes k' =
        if k' = k then [pool.assign.2] else pf.homeNetworkPrefixes k' :=
      Pmipv6Profile.homeNetworkPrefixes_setHomeNetworkPrefixes hk _
    have hlast := Pmipv6PrefixPool.toNat_lastPrefixIndex_assign hnext
    refine ⟨⟨fun k₁ k₂ hne a ha ha' => ?_, fun k' a ha i hi => ?_, ?_⟩, ?_, fun k' hk' => ?_, fun k' => ?_⟩
    · rw [Pmipv6Profile.mobileNode_setHomeNetworkPrefixes,
        Pmipv6Profile.mobileNode_setHomeNetworkPrefixes] at hne
      rw [hset] at ha ha'
      split at ha
      · rename_i h₁
        rw [if_neg fun h₂ => hne (by rw [h₁, h₂])] at ha'
        rw [List.mem_singleton.mp ha] at ha'
        exact h.not_mem hnext k₂ ha'
      · split at ha'
        · rw [List.mem_singleton.mp ha'] at ha
          exact h.not_mem hnext k₁ ha
        · exact h.disjoint k₁ k₂ hne a ha ha'
    · rw [hset] at ha
      split at ha
      · rw [List.mem_singleton.mp ha] at hi
        exact ⟨pool.assign.1.lastPrefixIndex.toNat, by omega, Nat.le_refl _,
          pool.mod_eq_of_address_eq hi⟩
      · obtain ⟨n, hpos, hle, hmod⟩ := h.assigned k' a ha i hi
        exact ⟨n, hpos, Nat.le_trans hle (by rw [hlast]; exact Nat.le_succ _), hmod⟩
    · rw [hlast]
      exact hnext.1
    · rw [hset, if_pos rfl]
    · rw [hset, if_neg hk']
    · exact Pmipv6Profile.mobileNode_setHomeNetworkPrefixes _ _ _ _

/-! ### The entries -/

/-- Every entry has the prefixes of its profile, and no mobile node has two. -/
structure PrefixesApart (lma : Lma) : Prop where
  apart : Apart lma.profile lma.prefixPool
  /-- An entry has the prefixes of its profile. -/
  own : ∀ o ∈ lma.bCache.map owner, o.2 = lma.profile.homeNetworkPrefixes o.1
  /-- A mobile node has one entry. -/
  nodup : ((lma.bCache.map owner).map fun o => lma.profile.mobileNode o.1).Nodup

theorem Configured.prefixesApart (h : lma.Configured) : lma.PrefixesApart := by
  refine ⟨⟨h.disjoint, fun k a ha i hi => absurd hi (h.pool k a ha i), ?_⟩, ?_, ?_⟩
  · rw [h.new]
    exact Nat.zero_le _
  · rw [h.empty]
    exact fun _ ho => absurd ho List.not_mem_nil
  · rw [h.empty]
    exact List.nodup_nil

theorem PrefixesApart.change {lma lma' : Lma} {e : Event} (h : lma.PrefixesApart) (hone : OpensOneSession ⟨now, lma⟩ e)
    (hc : Change now lma e lma') : lma'.PrefixesApart := by
  rcases owners_of_change hc with ⟨hcache, hpf, hpool⟩ | ⟨src, pbu, rfl, hpath, rfl⟩
  · refine ⟨?_, ?_, ?_⟩
    · rw [hpf, hpool]
      exact h.apart
    · rw [hcache, hpf]
      exact h.own
    · rw [hcache, hpf]
      exact h.nodup
  · obtain ⟨hfresh, hnext⟩ := hone hpath
    obtain ⟨pf, hk⟩ := exists_lookup_of_create hpath
    obtain ⟨hapart, hnew, hrest, hnode⟩ := h.apart.allocatePrefixes hk hnext
    have howners : (afterCreate now src pbu lma).bCache.map owner =
        lma.bCache.map owner ++ [(pbu.bundle.mnIdentifier, createdPrefixes pbu lma)] := by
      show (lma.bCache ++ [created now src pbu lma]).map owner = _
      rw [List.map_append, List.map_singleton, owner_created]
    have hother : ∀ o ∈ lma.bCache.map owner,
        lma.profile.mobileNode o.1 ≠ lma.profile.mobileNode pbu.bundle.mnIdentifier := by
      intro o ho
      obtain ⟨x, hx, rfl⟩ := List.mem_map.mp ho
      exact hfresh x hx
    have hnodes : ((afterCreate now src pbu lma).bCache.map owner).map
          (fun o => (afterCreate now src pbu lma).profile.mobileNode o.1) =
        (lma.bCache.map owner).map (fun o => lma.profile.mobileNode o.1) ++
          [lma.profile.mobileNode pbu.bundle.mnIdentifier] := by
      rw [howners, List.map_append, List.map_singleton]
      exact congrArg₂ (· ++ ·) (List.map_congr_left fun o _ => hnode o.1) (congrArg (fun k => [k]) (hnode _))
    refine ⟨hapart, fun o ho => ?_, ?_⟩
    · rw [howners, List.mem_append, List.mem_singleton] at ho
      rcases ho with ho | rfl
      · rw [h.own o ho]
        exact (hrest o.1 fun heq => hother o ho (by rw [heq])).symm
      · exact hnew
    · rw [hnodes, List.nodup_append]
      refine ⟨h.nodup, List.nodup_singleton _, fun k hk k' hk' heq => ?_⟩
      obtain ⟨o, ho, rfl⟩ := List.mem_map.mp hk
      exact hother o ho (heq.trans (List.mem_singleton.mp hk'))

theorem PrefixesApart.unshared (h : lma.PrefixesApart) : lma.PrefixesUnshared := by
  intro p q e e' hp hq hne a ha
  have he := h.own (owner e) (List.mem_map_of_mem (List.mem_of_getElem? hp))
  have he' := h.own (owner e') (List.mem_map_of_mem (List.mem_of_getElem? hq))
  have hid : lma.profile.mobileNode e.mnIdentifier ≠ lma.profile.mobileNode e'.mnIdentifier := by
    intro heq
    have hget : ((lma.bCache.map owner).map fun o => lma.profile.mobileNode o.1)[p]? =
        ((lma.bCache.map owner).map fun o => lma.profile.mobileNode o.1)[q]? := by
      simp only [List.getElem?_map, hp, hq, Option.map_some]
      exact congrArg some heq
    have hlt : p < ((lma.bCache.map owner).map fun o => lma.profile.mobileNode o.1).length := by
      simpa using (List.getElem?_eq_some_iff.mp hp).1
    exact hne ((List.getElem?_inj hlt h.nodup).mp hget)
  have ha' : a ∈ lma.profile.homeNetworkPrefixes e.mnIdentifier := he ▸ ha
  intro hmem
  exact h.apart.disjoint _ _ hid a ha' (he' ▸ hmem)

/-- No two entries share a prefix, in a run that opens one session for each mobile node. -/
theorem prefixes_unshared {s₀ s : Timed} {tr : List (Timed × Event)} (h₀ : s₀.lma.Configured)
    (hrun : machine.Run s₀ tr s) (hone : Machine.Meets OpensOneSession tr) : s.lma.PrefixesUnshared :=
  (hrun.invariant (I := fun s : Timed => s.lma.PrefixesApart) hone h₀.prefixesApart
    fun _ _ _ hI hG hs => hI.change hG (change_of_step hs)).unshared

theorem Small.configured : Small.anchor.lma.Configured := by
  have hown : ∀ (k : Identifier) (a : Ipv6Address),
      a ∈ Small.anchor.lma.profile.homeNetworkPrefixes k → k = Small.mn ∧ a = Small.hnp := by
    intro k a ha
    by_cases hk : k = Small.mn
    · subst hk
      exact ⟨rfl, List.mem_singleton.mp ha⟩
    · have hnil : Small.anchor.lma.profile.homeNetworkPrefixes k = [] := by
        simp [Small.anchor, Small.profile, Pmipv6Profile.homeNetworkPrefixes, Pmipv6Profile.lookup, hk]
      rw [hnil] at ha
      exact absurd ha List.not_mem_nil
  refine ⟨rfl, fun k k' hne a ha ha' => ?_, fun k a ha i hi => ?_, rfl⟩
  · exact hne (by rw [(hown k a ha).1, (hown k' a ha').1])
  · obtain ⟨-, rfl⟩ := hown k a ha
    -- the pool writes the octets 6 and 7 only
    have hoctet : ∀ i, (Small.anchor.lma.prefixPool.address i).address[1] = 0xfe := fun i => rfl
    have h := hoctet i
    rw [← hi] at h
    exact absurd h (by decide)

/-- A mobile node registers at A and is handed off to B. -/
def oneSessionEvents : List Event :=
  [.pbu Small.magA (Small.update 1 60 Small.hnp 2 (Time.seconds 10)),
    .advance (Time.seconds 12),
    .pbu Small.magB (Small.update 1 60 Small.hnp 3 (Time.seconds 12))]

theorem prefixes_unshared_after_handOff :
    ∃ out, machine.replay Small.anchor oneSessionEvents = some out ∧ out.2.lma.PrefixesUnshared := by
  obtain ⟨out, hout, hrun, hone⟩ := Machine.exists_replay Small.anchor oneSessionEvents
    (M := machine) (P := fun out => Machine.Meets OpensOneSession out.1) (by decide +kernel)
  exact ⟨out, hout, prefixes_unshared Small.configured hrun hone⟩

/-- A second session of a mobile node, under the identifier of the first, has the prefixes of the first. -/
theorem shared_of_second_session {src : Ipv6Address} {pbu : Ipv6MobilityBindingUpdateHeader}
    (hown : ∀ o ∈ lma.bCache.map owner, o.2 = lma.profile.homeNetworkPrefixes o.1) {x : Entry} (hx : x ∈ lma.bCache)
    (hmn : x.mnIdentifier = pbu.bundle.mnIdentifier) (hne : x.homeNetworkPrefixes ≠ []) :
    ¬ (afterCreate now src pbu lma).PrefixesUnshared := by
  intro hun
  have hprofile : x.homeNetworkPrefixes = lma.profile.homeNetworkPrefixes pbu.bundle.mnIdentifier := by
    rw [← hmn]
    exact hown (owner x) (List.mem_map_of_mem hx)
  have hsame : createdPrefixes pbu lma = x.homeNetworkPrefixes := by
    rw [hprofile] at hne
    rw [createdPrefixes, allocatePrefixes, if_pos (List.length_pos_iff.mpr hne), hprofile]
  obtain ⟨p, hp⟩ := List.mem_iff_getElem?.mp hx
  obtain ⟨hlt, -⟩ := List.getElem?_eq_some_iff.mp hp
  obtain ⟨a, ha⟩ := List.exists_mem_of_ne_nil _ hne
  refine hun p lma.bCache.length x (created now src pbu lma) ?_ ?_ (Nat.ne_of_lt hlt) a ha ?_
  · exact (List.getElem?_append_left hlt).trans hp
  · exact List.getElem?_concat_length
  · show a ∈ createdPrefixes pbu lma
    rw [hsame]
    exact ha

/-- The mobile node asks for a prefix that is not one of its own. -/
def secondSessionEvents : List Event :=
  [.pbu Small.magA (Small.update 1 60 Small.hnp 2 (Time.seconds 10)),
    .pbu Small.magB (Small.update 1 60 (.ofOctets 0x3f 2) 3 (Time.seconds 10))]

/-- Then it has two entries with one prefix. -/
theorem prefixes_shared :
    ∃ out, machine.replay Small.anchor secondSessionEvents = some out ∧
      machine.Run Small.anchor out.1 out.2 ∧ Small.anchor.lma.Configured ∧
      out.2.lma.bCache.map (fun e => (e.proxyCoa, e.homeNetworkPrefixes)) =
        [(Small.magA, [Small.hnp]), (Small.magB, [Small.hnp])] ∧
      ¬ out.2.lma.PrefixesUnshared := by
  obtain ⟨out, hout, hrun, hcache⟩ := Machine.exists_replay Small.anchor secondSessionEvents
    (M := machine) (P := fun out => out.2.lma.bCache.map (fun e => (e.proxyCoa, e.homeNetworkPrefixes)) =
      [(Small.magA, [Small.hnp]), (Small.magB, [Small.hnp])]) (by decide +kernel)
  refine ⟨out, hout, hrun, Small.configured, hcache, fun hun => ?_⟩
  have hget : ∀ q : ℕ, (out.2.lma.bCache[q]?).map (fun e => (e.proxyCoa, e.homeNetworkPrefixes)) =
      [(Small.magA, [Small.hnp]), (Small.magB, [Small.hnp])][q]? := fun q => by
    rw [← List.getElem?_map, hcache]
  obtain ⟨e, he, hown⟩ := Option.map_eq_some_iff.mp (hget 0)
  obtain ⟨e', he', hown'⟩ := Option.map_eq_some_iff.mp (hget 1)
  refine hun 0 1 e e' he he' (by decide) Small.hnp ?_ ?_
  · rw [(Prod.mk.inj hown).2]
    exact List.mem_singleton_self _
  · rw [(Prod.mk.inj hown').2]
    exact List.mem_singleton_self _

end Lma

end Ns3.Pmip6
