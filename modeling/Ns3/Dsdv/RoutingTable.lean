import Ns3.Network.Address
import Mathlib.Data.List.AList
import Mathlib.Data.List.Sort

/-!
# The routing table of DSDV

`RoutingTable` (`dsdv/model/dsdv-rtable.cc`): for each destination at most one entry. An entry holds a reference to an
`Ipv4Route`, which copies of the entry share: when the next hop of one is set, it is that of all. Times are in
nanoseconds.

* `lookup_addRoute`, `lookup_update`, `lookup_deleteRoute` — what is found after an operation.
* `lookup_purge` — what `Purge` leaves is what was there; `mayGo_of_purge`, `purge_of_surelyGoes` — what it may remove,
  and what it does.
-/

namespace Ns3.Dsdv

/-- What a route is. -/
inductive RouteFlags where
  | valid | invalid
  deriving DecidableEq

/-- `RoutingTableEntry`, for a destination. -/
structure RoutingTableEntry where
  seqNo : UInt32
  hops : UInt32
  lifeTime : ℤ
  /-- `m_ipv4Route`: which of the routes to the destination. -/
  ipv4Route : ℕ
  flag : RouteFlags
  entriesChanged : Bool

/-- The time since the route was heard of. -/
def RoutingTableEntry.getLifeTime (rt : RoutingTableEntry) (now : ℤ) : ℤ := now - rt.lifeTime

/-- The gateways of all `Ipv4Route`s: by the destination, which is never set again, and which of them it is. -/
abbrev Gateways := Ipv4Address → ℕ → Ipv4Address

/-- `m_ipv4AddressEntry`. -/
abbrev RoutingTable := AList fun _ : Ipv4Address => RoutingTableEntry

namespace RoutingTable

/-- A new entry; one that is there stays. -/
def addRoute (t : RoutingTable) (dst : Ipv4Address) (rt : RoutingTableEntry) : RoutingTable :=
  if (t.lookup dst).isSome then t else t.insert dst rt

/-- An entry that is there is replaced. -/
def update (t : RoutingTable) (dst : Ipv4Address) (rt : RoutingTableEntry) : RoutingTable :=
  if (t.lookup dst).isSome then t.insert dst rt else t

/-- The entry is removed. -/
def deleteRoute (t : RoutingTable) (dst : Ipv4Address) : RoutingTable := t.erase dst

/-- What a `std::map` holds of entries, by their destinations. -/
def byDestination (l : List (Ipv4Address × RoutingTableEntry)) : List (Ipv4Address × RoutingTableEntry) :=
  l.insertionSort fun x y => x.1.address.toNat ≤ y.1.address.toNat

/-- The entries, by their destinations. -/
def list (t : RoutingTable) : List (Ipv4Address × RoutingTableEntry) :=
  byDestination (t.entries.map fun x => (x.1, x.2))

/-- The valid routes, but that to the loopback address. -/
def getListOfAllRoutes (t : RoutingTable) : List (Ipv4Address × RoutingTableEntry) :=
  t.list.filter fun x => x.1 ≠ ⟨0x7f000001⟩ ∧ x.2.flag = .valid

/-- The entries that go by the next hop. -/
def getListOfDestinationWithNextHop (t : RoutingTable) (gateways : Gateways) (nextHop : Ipv4Address) :
    List (Ipv4Address × RoutingTableEntry) :=
  t.list.filter fun x => gateways x.1 x.2.ipv4Route = nextHop

/-- The entries that meet a condition. -/
def filter (t : RoutingTable) (p : Ipv4Address × RoutingTableEntry → Prop) [DecidablePred p] : RoutingTable :=
  ⟨t.entries.filter fun x => p (x.1, x.2), t.nodupKeys.sublist List.filter_sublist⟩

/-- An entry is removed by `Purge` with that of `dst`. -/
def Goes (gateways : Gateways) (dst : Ipv4Address) (rt : RoutingTableEntry) (x : Ipv4Address × RoutingTableEntry) :
    Prop :=
  x.1 = dst ∨ gateways x.1 x.2.ipv4Route = dst ∧ rt.hops ≠ x.2.hops

instance (gateways : Gateways) (dst : Ipv4Address) (rt : RoutingTableEntry) :
    DecidablePred (Goes gateways dst rt) := fun _ => inferInstanceAs (Decidable (_ ∨ _))

/-- An entry is outdated. -/
def Outdated (now : ℤ) (holddownTime : ℕ) (rt : RoutingTableEntry) : Prop :=
  (holddownTime : ℤ) < rt.getLifeTime now ∧ 0 < rt.hops

instance (now : ℤ) (holddownTime : ℕ) : DecidablePred (Outdated now holddownTime) :=
  fun _ => inferInstanceAs (Decidable (_ ∧ _))

/-- The outer loop of `Purge`, over the destinations that there were; with the map of the entries removed. -/
def purgeFrom (gateways : Gateways) (now : ℤ) (holddownTime : ℕ) : List Ipv4Address →
    RoutingTable × List (Ipv4Address × RoutingTableEntry) → RoutingTable × List (Ipv4Address × RoutingTableEntry)
  | [], x => x
  | dst :: dsts, (t, removed) =>
    match t.lookup dst with
    | none => purgeFrom gateways now holddownTime dsts (t, removed)
    | some rt =>
      if Outdated now holddownTime rt then
        purgeFrom gateways now holddownTime dsts
          (t.filter fun x => ¬ Goes gateways dst rt x,
            byDestination (removed ++ t.list.filter fun x => Goes gateways dst rt x))
      else purgeFrom gateways now holddownTime dsts (t, removed)

/-- `Purge`, with `removedAddresses`. -/
def purge (t : RoutingTable) (gateways : Gateways) (now : ℤ) (holddownTime : ℕ) :
    RoutingTable × List (Ipv4Address × RoutingTableEntry) :=
  purgeFrom gateways now holddownTime (t.list.map Prod.fst) (t, [])

variable {t : RoutingTable} {dst dst' : Ipv4Address} {rt : RoutingTableEntry} {x : Ipv4Address × RoutingTableEntry}

theorem mem_list : x ∈ t.list ↔ t.lookup x.1 = some x.2 := by
  obtain ⟨dst, rt⟩ := x
  rw [list, byDestination, List.mem_insertionSort, List.mem_map, ← Option.mem_def, AList.mem_lookup_iff]
  constructor
  · rintro ⟨y, hy, hxy⟩
    obtain ⟨rfl, rfl⟩ := Prod.mk.inj hxy
    exact hy
  · exact fun h => ⟨⟨dst, rt⟩, h, rfl⟩

theorem nodup_list (t : RoutingTable) : (t.list.map Prod.fst).Nodup := by
  have hkeys : ((t.entries.map fun x => (x.1, x.2)).map Prod.fst).Nodup := by
    rw [List.map_map]
    exact t.keys_nodup
  exact ((List.perm_insertionSort _ _).map Prod.fst).nodup_iff.mpr hkeys

theorem mem_getListOfAllRoutes (h : x ∈ t.getListOfAllRoutes) : t.lookup x.1 = some x.2 :=
  mem_list.mp (List.mem_of_mem_filter h)

theorem lookup_addRoute :
    (t.addRoute dst rt).lookup dst' = if dst' = dst then some ((t.lookup dst).getD rt) else t.lookup dst' := by
  rw [addRoute]
  split_ifs with hsome heq heq
  · obtain ⟨rt', hrt'⟩ := Option.isSome_iff_exists.mp hsome
    rw [heq, hrt', Option.getD_some]
  · rfl
  · rw [Option.not_isSome_iff_eq_none] at hsome
    rw [heq, AList.lookup_insert, hsome, Option.getD_none]
  · exact AList.lookup_insert_ne heq

theorem lookup_update :
    (t.update dst rt).lookup dst' = if dst' = dst then (t.lookup dst).map fun _ => rt else t.lookup dst' := by
  rw [update]
  split_ifs with hsome heq heq
  · obtain ⟨rt', hrt'⟩ := Option.isSome_iff_exists.mp hsome
    rw [heq, AList.lookup_insert, hrt', Option.map_some]
  · exact AList.lookup_insert_ne heq
  · rw [Option.not_isSome_iff_eq_none] at hsome
    rw [heq, hsome, Option.map_none]
  · rfl

theorem lookup_deleteRoute : (t.deleteRoute dst).lookup dst' = if dst' = dst then none else t.lookup dst' := by
  rw [deleteRoute]
  split_ifs with heq
  · rw [heq, AList.lookup_erase]
  · exact AList.lookup_erase_ne heq

theorem lookup_filter_eq_some {p : Ipv4Address × RoutingTableEntry → Prop} [DecidablePred p] :
    (t.filter p).lookup dst = some rt ↔ t.lookup dst = some rt ∧ p (dst, rt) := by
  rw [← Option.mem_def, ← Option.mem_def, AList.mem_lookup_iff, AList.mem_lookup_iff, filter, List.mem_filter,
    decide_eq_true_iff]

/-- What is left after the loop was there before, and what was removed too. -/
theorem lookup_purgeFrom {gateways : Gateways} {now : ℤ} {holddownTime : ℕ} (dsts : List Ipv4Address)
    (removed : List (Ipv4Address × RoutingTableEntry)) :
    (∀ dst rt, (purgeFrom gateways now holddownTime dsts (t, removed)).1.lookup dst = some rt →
      t.lookup dst = some rt) ∧
    (∀ x ∈ (purgeFrom gateways now holddownTime dsts (t, removed)).2, x ∈ removed ∨ t.lookup x.1 = some x.2 ∧
      (purgeFrom gateways now holddownTime dsts (t, removed)).1.lookup x.1 = none) := by
  induction dsts generalizing t removed with
  | nil => exact ⟨fun dst rt h => h, fun x hx => .inl hx⟩
  | cons dst dsts ih =>
    rw [purgeFrom]
    cases hrt : t.lookup dst with
    | none => exact ih removed
    | some rt =>
      dsimp only
      split_ifs with hold
      · obtain ⟨hleft, hgone⟩ := ih (t := t.filter fun x => ¬ Goes gateways dst rt x)
          (byDestination (removed ++ t.list.filter fun x => Goes gateways dst rt x))
        refine ⟨fun dst' rt' h => (lookup_filter_eq_some.mp (hleft dst' rt' h)).1, fun x hx => ?_⟩
        rcases hgone x hx with hx | ⟨hx, hnone⟩
        · rcases List.mem_append.mp ((List.mem_insertionSort _).mp hx) with hx | hx
          · exact .inl hx
          · obtain ⟨hmem, hgoes⟩ := List.mem_filter.mp hx
            refine .inr ⟨mem_list.mp hmem, Option.eq_none_iff_forall_not_mem.mpr fun rt' hrt' => ?_⟩
            obtain ⟨hlookup, hstays⟩ := lookup_filter_eq_some.mp (hleft x.1 rt' hrt')
            obtain rfl := Option.some.inj ((mem_list.mp hmem).symm.trans hlookup)
            exact hstays (of_decide_eq_true hgoes)
        · exact .inr ⟨(lookup_filter_eq_some.mp hx).1, hnone⟩
      · exact ih removed

theorem lookup_purge {gateways : Gateways} {now : ℤ} {holddownTime : ℕ}
    (h : (t.purge gateways now holddownTime).1.lookup dst = some rt) : t.lookup dst = some rt :=
  (lookup_purgeFrom _ []).1 dst rt h

theorem mem_purge {gateways : Gateways} {now : ℤ} {holddownTime : ℕ} (h : x ∈ (t.purge gateways now holddownTime).2) :
    t.lookup x.1 = some x.2 ∧ (t.purge gateways now holddownTime).1.lookup x.1 = none :=
  ((lookup_purgeFrom _ []).2 x h).resolve_left List.not_mem_nil

/-- The entry of the next hop is outdated, and has another hop count. -/
def GoesWith (t : RoutingTable) (gateways : Gateways) (now : ℤ) (holddownTime : ℕ) (dst : Ipv4Address)
    (rt : RoutingTableEntry) : Prop :=
  ∃ next ∈ t.lookup (gateways dst rt.ipv4Route), Outdated now holddownTime next ∧ next.hops ≠ rt.hops
deriving Decidable

/-- `Purge` may remove an entry. -/
def MayGo (t : RoutingTable) (gateways : Gateways) (now : ℤ) (holddownTime : ℕ) (dst : Ipv4Address)
    (rt : RoutingTableEntry) : Prop :=
  Outdated now holddownTime rt ∨ t.GoesWith gateways now holddownTime dst rt
deriving Decidable

/-- `Purge` removes an entry in any case: it is outdated, or that of its next hop is, and is not removed with
another. -/
def SurelyGoes (t : RoutingTable) (gateways : Gateways) (now : ℤ) (holddownTime : ℕ) (dst : Ipv4Address)
    (rt : RoutingTableEntry) : Prop :=
  Outdated now holddownTime rt ∨ ∃ next ∈ t.lookup (gateways dst rt.ipv4Route), Outdated now holddownTime next ∧
    next.hops ≠ rt.hops ∧ ¬ t.GoesWith gateways now holddownTime (gateways dst rt.ipv4Route) next
deriving Decidable

section Purge

variable {gateways : Gateways} {now : ℤ} {holddownTime : ℕ}

variable {removed : List (Ipv4Address × RoutingTableEntry)} {dsts : List Ipv4Address}

theorem mayGo_of_purgeFrom (h : t.lookup dst = some rt)
    (hgone : (purgeFrom gateways now holddownTime dsts (t, removed)).1.lookup dst = none) :
    t.MayGo gateways now holddownTime dst rt := by
  induction dsts generalizing t removed with
  | nil => exact absurd (h.symm.trans hgone) nofun
  | cons d dsts ih =>
    rw [purgeFrom] at hgone
    cases hd : t.lookup d with
    | none =>
      rw [hd] at hgone
      exact ih h hgone
    | some e =>
      simp only [hd] at hgone
      split_ifs at hgone with hold
      · by_cases hgoes : Goes gateways d e (dst, rt)
        · rcases hgoes with rfl | ⟨hnext, hhops⟩
          · obtain rfl := Option.some.inj (h.symm.trans hd)
            exact .inl hold
          · refine .inr ⟨e, ?_, hold, hhops⟩
            rw [hnext]
            exact hd
        · -- what holds of the entries that are left held before
          refine (ih (lookup_filter_eq_some.mpr ⟨h, hgoes⟩) hgone).imp_right ?_
          rintro ⟨next, hnext, hrest⟩
          exact ⟨next, (lookup_filter_eq_some.mp hnext).1, hrest⟩
      · exact ih h hgone

theorem purgeFrom_of_none (h : t.lookup dst = none) :
    (purgeFrom gateways now holddownTime dsts (t, removed)).1.lookup dst = none := by
  refine Option.eq_none_iff_forall_not_mem.mpr fun rt hrt => ?_
  cases h.symm.trans ((lookup_purgeFrom dsts removed).1 dst rt hrt)

theorem purgeFrom_of_outdated (hmem : dst ∈ dsts) (h : t.lookup dst = some rt) (hold : Outdated now holddownTime rt) :
    (purgeFrom gateways now holddownTime dsts (t, removed)).1.lookup dst = none := by
  induction dsts generalizing t removed with
  | nil => exact absurd hmem List.not_mem_nil
  | cons d dsts ih =>
    rw [purgeFrom]
    by_cases hd : d = dst
    · subst hd
      rw [h]
      dsimp only
      rw [if_pos hold]
      refine purgeFrom_of_none (Option.eq_none_iff_forall_not_mem.mpr fun rt' hrt' => ?_)
      exact (lookup_filter_eq_some.mp hrt').2 (.inl rfl)
    · have hmem' : dst ∈ dsts := (List.mem_cons.mp hmem).resolve_left fun heq => hd heq.symm
      cases hlookup : t.lookup d with
      | none => exact ih hmem' h
      | some e =>
        dsimp only
        split_ifs with hold'
        · cases hstays : (t.filter fun x => ¬ Goes gateways d e x).lookup dst with
          | none => exact purgeFrom_of_none hstays
          | some rt' =>
            obtain rfl := Option.some.inj (h.symm.trans (lookup_filter_eq_some.mp hstays).1)
            exact ih hmem' hstays
        · exact ih hmem' h

/-- An outdated entry that is not removed with another takes those with it that go by it. -/
theorem purgeFrom_of_next {next : RoutingTableEntry} (hmem : gateways dst rt.ipv4Route ∈ dsts)
    (h : t.lookup dst = some rt) (hnext : t.lookup (gateways dst rt.ipv4Route) = some next)
    (hold : Outdated now holddownTime next) (hhops : next.hops ≠ rt.hops)
    (hstays : ¬ t.GoesWith gateways now holddownTime (gateways dst rt.ipv4Route) next) :
    (purgeFrom gateways now holddownTime dsts (t, removed)).1.lookup dst = none := by
  induction dsts generalizing t removed with
  | nil => exact absurd hmem List.not_mem_nil
  | cons d dsts ih =>
    rw [purgeFrom]
    by_cases hd : d = gateways dst rt.ipv4Route
    · rw [hd, hnext]
      dsimp only
      rw [if_pos hold]
      refine purgeFrom_of_none (Option.eq_none_iff_forall_not_mem.mpr fun rt' hrt' => ?_)
      obtain ⟨hlookup, hgoes⟩ := lookup_filter_eq_some.mp hrt'
      obtain rfl := Option.some.inj (h.symm.trans hlookup)
      exact hgoes (.inr ⟨rfl, hhops⟩)
    · have hmem' := (List.mem_cons.mp hmem).resolve_left fun heq => hd heq.symm
      cases hlookup : t.lookup d with
      | none => exact ih hmem' h hnext hstays
      | some e =>
        dsimp only
        split_ifs with hold'
        · have hkept : ¬ Goes gateways d e (gateways dst rt.ipv4Route, next) := by
            rintro (heq | ⟨heq, hhops'⟩)
            · exact hd heq.symm
            · exact hstays ⟨e, by rw [heq]; exact hlookup, hold', hhops'⟩
          cases hdst : (t.filter fun x => ¬ Goes gateways d e x).lookup dst with
          | none => exact purgeFrom_of_none hdst
          | some rt' =>
            obtain rfl := Option.some.inj (h.symm.trans (lookup_filter_eq_some.mp hdst).1)
            refine ih hmem' hdst (lookup_filter_eq_some.mpr ⟨hnext, hkept⟩) ?_
            rintro ⟨next', hnext', hrest⟩
            exact hstays ⟨next', (lookup_filter_eq_some.mp hnext').1, hrest⟩
        · exact ih hmem' h hnext hstays

theorem mem_list_fst (h : t.lookup dst = some rt) : dst ∈ t.list.map Prod.fst :=
  List.mem_map.mpr ⟨(dst, rt), mem_list.mpr h, rfl⟩

/-- What `Purge` removes is outdated, or goes by an outdated entry. -/
theorem mayGo_of_purge (h : t.lookup dst = some rt)
    (hgone : (t.purge gateways now holddownTime).1.lookup dst = none) : t.MayGo gateways now holddownTime dst rt :=
  mayGo_of_purgeFrom h hgone

theorem purge_of_surelyGoes (h : t.lookup dst = some rt) (hgoes : t.SurelyGoes gateways now holddownTime dst rt) :
    (t.purge gateways now holddownTime).1.lookup dst = none := by
  rcases hgoes with hold | ⟨next, hnext, hold, hhops, hstays⟩
  · exact purgeFrom_of_outdated (mem_list_fst h) h hold
  · exact purgeFrom_of_next (mem_list_fst hnext) h hnext hold hhops hstays

end Purge

end RoutingTable

end Ns3.Dsdv
