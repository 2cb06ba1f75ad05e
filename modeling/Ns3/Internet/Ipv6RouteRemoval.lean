import Ns3.Internet.Ipv6RouteLookup
import Mathlib.Data.List.InsertIdx
import Mathlib.Data.List.Chain

/-!
# Removing static routes

How `Ipv6StaticRouting` (`internet/model/ipv6-static-routing.cc`) and `Ipv6StaticSourceRouting`
(`pmip6/model/ipv6-static-source-routing.cc`) take routes out of their tables: when an interface goes down, when the
agents remove what they added, when an address or a route is gone. All but `RemoveRoute` change the table while they
go through it.

## What is proved

* `notifyInterfaceDown_iff` — the loop runs against the number of routes that there were, and asks for a route that is
  not there as soon as one was removed.
* `removeRoute_addNetworkRouteTo_iff` — `RemoveRoute` does not look at the prefix, and takes the first route.
* `removal_iff` — `NotifyRemoveAddress` passes over the route behind one that it removes, and `NotifyRemoveRoute`
  steps from one that it has erased.
-/

namespace Ns3

open Lib

/-- The route is to one address. -/
def Ipv6RoutingTableEntry.isHost (route : Ipv6RoutingTableEntry) : Bool := route.destNetworkPrefix = .ones

/-- The route is to a network. -/
def Ipv6RoutingTableEntry.isNetwork (route : Ipv6RoutingTableEntry) : Bool := !route.isHost

namespace NetworkRoutes

/-- `GetNRoutes`: a number of `uint32_t`. -/
def getNRoutes (t : NetworkRoutes) : ℕ := t.length % 2 ^ 32

/-- `GetRoute (index)`; `none` where it asserts. -/
def getRoute (t : NetworkRoutes) (index : ℕ) : Option Ipv6RoutingTableEntry := t[index]?.map Prod.fst

/-- `RemoveRoute (index)`; `none` where it asserts. -/
def removeRouteAt (t : NetworkRoutes) (index : ℕ) : Option NetworkRoutes :=
  if index < t.length then some (t.eraseIdx index) else none

theorem length_of_removeRouteAt {t t' : NetworkRoutes} {index : ℕ} (h : t.removeRouteAt index = some t') :
    t'.length + 1 = t.length := by
  rw [removeRouteAt] at h
  split_ifs at h with hindex
  cases h
  rw [List.length_eraseIdx_of_lt hindex]
  omega

/-- The route goes through the interface. -/
def Through (i : BitVec 32) (route : Ipv6RoutingTableEntry) : Prop := route.interface = i

instance (i : BitVec 32) : DecidablePred (Through i) := fun _ => inferInstanceAs (Decidable (_ = _))

/-- The loop of `NotifyInterfaceDown (i)`. -/
def interfaceDownLoop (i : BitVec 32) (max j : ℕ) (t : NetworkRoutes) : Option NetworkRoutes :=
  if j < max then
    match t.getRoute j with
    | none => none
    | some route =>
      if Through i route then
        match _h : t.removeRouteAt j with
        | none => none
        | some t' => interfaceDownLoop i max j t'
      else interfaceDownLoop i max (j + 1) t
  else some t
termination_by t.length + (max - j)
decreasing_by
  · have := length_of_removeRouteAt _h
    omega
  · omega

/-- `NotifyInterfaceDown (i)` of both classes. -/
def notifyInterfaceDown (t : NetworkRoutes) (i : BitVec 32) : Option NetworkRoutes :=
  t.interfaceDownLoop i t.getNRoutes 0

/-- The loop of `NotifyRemoveAddress`, from the index `j` on. -/
def removeAddressLoop (P : Ipv6RoutingTableEntry → Prop) [DecidablePred P] (j : ℕ) (t : NetworkRoutes) :
    Option NetworkRoutes :=
  if _hj : j < t.getNRoutes then
    match t.getRoute j with
    | none => none
    | some route =>
      if P route then
        match _h : t.removeRouteAt j with
        | none => none
        | some t' => removeAddressLoop P (j + 1) t'
      else removeAddressLoop P (j + 1) t
  else some t
termination_by t.length - j
decreasing_by
  · have := length_of_removeRouteAt _h
    have : t.getNRoutes ≤ t.length := Nat.mod_le _ _
    omega
  · have : t.getNRoutes ≤ t.length := Nat.mod_le _ _
    omega

/-- The test of `NotifyRemoveAddress (interface, address)` on a route. -/
def IsNetworkOf (interface : BitVec 32) (address : Ipv6InterfaceAddress) (route : Ipv6RoutingTableEntry) : Prop :=
  route.interface = interface ∧ route.isNetwork = true ∧
    route.dest = address.address.combinePrefix address.mask ∧ route.destNetworkPrefix = address.mask

instance (interface : BitVec 32) (address : Ipv6InterfaceAddress) : DecidablePred (IsNetworkOf interface address) :=
  fun _ => inferInstanceAs (Decidable (_ ∧ _ ∧ _ ∧ _))

/-- `NotifyRemoveAddress (interface, address)`. -/
def notifyRemoveAddress {Device : Type} (ipv6 : Ipv6 Device) (t : NetworkRoutes) (interface : BitVec 32)
    (address : Ipv6InterfaceAddress) : Option NetworkRoutes :=
  if ipv6.isUp interface then t.removeAddressLoop (IsNetworkOf interface address) 0 else some t

/-- The loop of `NotifyRemoveRoute`; `none` where it goes on from a route that it has erased. -/
def eraseLoop (P : Ipv6RoutingTableEntry → Prop) [DecidablePred P] : NetworkRoutes → Option NetworkRoutes
  | [] => some []
  | r :: rest =>
    if P r.1 then none
    else do
      let rest ← eraseLoop P rest
      some (r :: rest)

/-- The test of `NotifyRemoveRoute (dst, mask, nextHop, interface, prefixToUse)` on a route. -/
def IsRouteTo (dst : Ipv6Address) (mask : Ipv6Prefix) (interface : BitVec 32) (route : Ipv6RoutingTableEntry) : Prop :=
  dst = route.dest ∧ route.destNetworkPrefix = mask ∧ route.interface = interface

instance (dst : Ipv6Address) (mask : Ipv6Prefix) (interface : BitVec 32) :
    DecidablePred (IsRouteTo dst mask interface) :=
  fun _ => inferInstanceAs (Decidable (_ ∧ _ ∧ _))

/-- `NotifyRemoveRoute (dst, mask, nextHop, interface, prefixToUse)`. -/
def notifyRemoveRoute (t : NetworkRoutes) (dst : Ipv6Address) (mask : Ipv6Prefix) (_nextHop : Ipv6Address)
    (interface : BitVec 32) (prefixToUse : Ipv6Address) : Option NetworkRoutes :=
  if dst ≠ .zero then t.eraseLoop (IsRouteTo dst mask interface)
  else some (t.removeRoute dst mask interface prefixToUse)

/-! ### The route at the place of a loop -/

variable {kept rest t : NetworkRoutes} {r : NetworkRoute}

theorem getRoute_append (kept rest : NetworkRoutes) (r : NetworkRoute) :
    getRoute (kept ++ r :: rest) kept.length = some r.1 := by
  rw [getRoute, List.getElem?_append_right le_rfl, Nat.sub_self]
  rfl

theorem getRoute_length (t : NetworkRoutes) : t.getRoute t.length = none := by
  rw [getRoute, List.getElem?_eq_none le_rfl]
  rfl

theorem removeRouteAt_append (kept rest : NetworkRoutes) (r : NetworkRoute) :
    removeRouteAt (kept ++ r :: rest) kept.length = some (kept ++ rest) := by
  have hlt : kept.length < (kept ++ r :: rest).length := by
    rw [List.length_append, List.length_cons]
    omega
  rw [removeRouteAt, if_pos hlt, List.eraseIdx_append_of_length_le le_rfl, Nat.sub_self, List.eraseIdx_cons_zero]

/-! ### What a loop should leave -/

section

variable {P : Ipv6RoutingTableEntry → Prop} [DecidablePred P]

/-- The routes that do not pass the test. -/
def butFor (t : NetworkRoutes) (P : Ipv6RoutingTableEntry → Prop) [DecidablePred P] : NetworkRoutes :=
  t.filter fun r => ¬ P r.1

theorem butFor_cons_of_pos (h : P r.1) : butFor (r :: rest) P = butFor rest P := by
  rw [butFor, List.filter_cons_of_neg (by simp [h])]
  rfl

theorem butFor_cons_of_neg (h : ¬ P r.1) : butFor (r :: rest) P = r :: butFor rest P := by
  rw [butFor, List.filter_cons_of_pos (by simp [h])]
  rfl

theorem butFor_eq_self_iff : t.butFor P = t ↔ ∀ r ∈ t, ¬ P r.1 := by
  rw [butFor, List.filter_eq_self]
  simp only [decide_eq_true_eq]

end

/-! ### An interface goes down -/

/-- The table has `n` routes that do not go through the interface, and each that does has fewer than `n` of them in
front of it. -/
def ReachesAll (t : NetworkRoutes) (i : BitVec 32) (n : ℕ) : Prop :=
  n ≤ (t.butFor (Through i)).length ∧
    ∀ u r v, t = u ++ r :: v → Through i r.1 → (butFor u (Through i)).length < n

variable {i : BitVec 32} {n max : ℕ}

theorem reachesAll_cons_of_pos (h : Through i r.1) (hn : 0 < n) :
    ReachesAll (r :: rest) i n ↔ ReachesAll rest i n := by
  rw [ReachesAll, ReachesAll, butFor_cons_of_pos h]
  refine and_congr_right fun _ => ⟨fun hall u r' v hrest hr' => ?_, fun hall u r' v hrest hr' => ?_⟩
  · have hlt := hall (r :: u) r' v (by rw [hrest, List.cons_append]) hr'
    rwa [butFor_cons_of_pos h] at hlt
  · cases u with
    | nil => exact hn
    | cons x u =>
      obtain ⟨rfl, hrest'⟩ := List.cons.inj hrest
      rw [butFor_cons_of_pos h]
      exact hall u r' v hrest' hr'

theorem reachesAll_cons_of_neg (h : ¬ Through i r.1) :
    ReachesAll (r :: rest) i (n + 1) ↔ ReachesAll rest i n := by
  rw [ReachesAll, ReachesAll, butFor_cons_of_neg h, List.length_cons, Nat.add_le_add_iff_right]
  refine and_congr_right fun _ => ⟨fun hall u r' v hrest hr' => ?_, fun hall u r' v hrest hr' => ?_⟩
  · have hlt := hall (r :: u) r' v (by rw [hrest, List.cons_append]) hr'
    rw [butFor_cons_of_neg h, List.length_cons] at hlt
    omega
  · cases u with
    | nil =>
      obtain ⟨rfl, -⟩ := List.cons.inj hrest
      exact absurd hr' h
    | cons x u =>
      obtain ⟨rfl, hrest'⟩ := List.cons.inj hrest
      rw [butFor_cons_of_neg h, List.length_cons]
      have hlt := hall u r' v hrest' hr'
      omega

theorem reachesAll_zero_iff : ReachesAll t i 0 ↔ ∀ r ∈ t, ¬ Through i r.1 := by
  constructor
  · rintro ⟨-, hall⟩ r hr hi
    obtain ⟨u, v, rfl⟩ := List.append_of_mem hr
    exact absurd (hall u r v rfl hi) (Nat.not_lt_zero _)
  · intro h
    refine ⟨Nat.zero_le _, fun u r v ht hr => ?_⟩
    apply absurd hr (h r _)
    rw [ht]
    exact List.mem_append_right _ List.mem_cons_self

/-- The loop from the place behind `kept` on does what it should if it comes to all of the rest. -/
theorem interfaceDownLoop_eq_iff (h : kept.length ≤ max) :
    interfaceDownLoop i max kept.length (kept ++ rest) = some (kept ++ rest.butFor (Through i)) ↔
      ReachesAll rest i (max - kept.length) := by
  induction rest generalizing kept with
  | nil =>
    rw [List.append_nil, interfaceDownLoop]
    split_ifs with hlt
    · rw [getRoute_length]
      refine iff_of_false (Option.some_ne_none _).symm fun hall => ?_
      have hle : max - kept.length ≤ 0 := hall.1
      omega
    · have hzero : max - kept.length = 0 := by omega
      rw [hzero]
      exact iff_of_true (congrArg some (List.append_nil kept).symm)
        (reachesAll_zero_iff.mpr fun r hr => absurd hr List.not_mem_nil)
  | cons r rest ih =>
    rw [interfaceDownLoop]
    split_ifs with hlt
    · rw [getRoute_append]
      by_cases hr : Through i r.1
      · rw [reachesAll_cons_of_pos hr (by omega), butFor_cons_of_pos hr, ← ih h]
        simp only [hr, if_true]
        split
        · rename_i hnone
          rw [removeRouteAt_append] at hnone
          cases hnone
        · rename_i t' hsome
          rw [removeRouteAt_append] at hsome
          rw [Option.some.inj hsome]
      · have hsucc : max - kept.length = (max - (kept ++ [r]).length) + 1 := by
          rw [List.length_append, List.length_singleton]
          omega
        have hle : (kept ++ [r]).length ≤ max := by
          rw [List.length_append, List.length_singleton]
          omega
        have hnext := ih hle
        rw [List.length_append, List.length_singleton, List.append_assoc, List.append_assoc] at hnext
        rw [hsucc, reachesAll_cons_of_neg hr, butFor_cons_of_neg hr, List.length_append, List.length_singleton]
        simp only [hr, if_false]
        exact hnext
    · have hzero : max - kept.length = 0 := by omega
      rw [hzero, reachesAll_zero_iff, ← butFor_eq_self_iff, Option.some.injEq, List.append_cancel_left_eq]
      exact eq_comm

theorem notifyInterfaceDown_eq_iff :
    t.notifyInterfaceDown i = some (t.butFor (Through i)) ↔ ReachesAll t i t.getNRoutes :=
  @interfaceDownLoop_eq_iff [] t i t.getNRoutes (Nat.zero_le _)

/-- **Interface down**: the loop ends, with the routes that do not go through the interface, exactly if there is none
that does. The bound is a number of `uint32_t`: in a table of more routes the loop can end before it runs out. -/
theorem notifyInterfaceDown_iff (t : NetworkRoutes) (i : BitVec 32) :
    t.notifyInterfaceDown i = some (t.butFor (Through i)) ↔
      (∀ r ∈ t, ¬ Through i r.1) ∨ 2 ^ 32 ≤ t.length ∧ ReachesAll t i t.getNRoutes := by
  rw [notifyInterfaceDown_eq_iff]
  constructor
  · intro hall
    by_cases hlen : 2 ^ 32 ≤ t.length
    · exact .inr ⟨hlen, hall⟩
    · have hmax : t.getNRoutes = t.length := Nat.mod_eq_of_lt (Nat.not_le.mp hlen)
      refine .inl (butFor_eq_self_iff.mp (List.Sublist.eq_of_length_le List.filter_sublist ?_))
      rw [← hmax]
      exact hall.1
  · rintro (hnone | ⟨-, hall⟩)
    · refine ⟨?_, fun u r v ht hr => ?_⟩
      · rw [butFor_eq_self_iff.mpr hnone]
        exact Nat.mod_le _ _
      · apply absurd hr (hnone r _)
        rw [ht]
        exact List.mem_append_right _ List.mem_cons_self
    · exact hall

/-- A table of one route, and its interface goes down: the loop asks for a route at the place 0 of the empty table. -/
theorem notifyInterfaceDown_singleton :
    notifyInterfaceDown [networkRoute .zero 1] 1 = none ∧
      ¬ notifyInterfaceDown [networkRoute .zero 1] 1 = some (butFor [networkRoute .zero 1] (Through 1)) := by
  constructor <;> decide +kernel

/-! ### Adding a route and removing it -/

/-- **Adding and removing**: `RemoveRoute` undoes `AddNetworkRouteTo` for a route that is not there yet exactly if the
table has no route to the network of another prefix on the interface that it would take for it. -/
theorem removeRoute_addNetworkRouteTo_iff (t : NetworkRoutes) (n : Ipv6Address) (p : Ipv6Prefix) (i : BitVec 32)
    (h : ∀ r ∈ t, ¬ (r.1.dest = n ∧ r.1.destNetworkPrefix = p ∧ r.1.interface = i)) :
    (t.addNetworkRouteTo n p i).removeRoute n p i n = t ↔ ∀ r ∈ t, ¬ Removes n i n r := by
  have hnew : Removes n i n (.createNetworkRouteTo n p i, 0) := ⟨rfl, rfl, rfl⟩
  rw [addNetworkRouteTo]
  constructor
  · -- what is taken out of the table is put back only by the new route, which the table does not have
    intro heq r hr hrem
    rw [removeRoute, List.eraseP_append_left (by simpa using hrem) _ hr] at heq
    have hmem : (Ipv6RoutingTableEntry.createNetworkRouteTo n p i, (0 : BitVec 32)) ∈ t := by
      rw [← heq]
      exact List.mem_append_right _ (List.mem_singleton_self _)
    exact h _ hmem ⟨rfl, rfl, rfl⟩
  · intro hnone
    rw [removeRoute, List.eraseP_append_right _ fun r hr hrem => hnone r hr (of_decide_eq_true hrem),
      List.eraseP_cons_of_pos (by simpa using hnew), List.append_nil]

/-- `removeRoute_addNetworkRouteTo_iff` for a table with a default route and a route on another interface. -/
theorem removeRoute_addNetworkRouteTo_iff_elsewhere :
    (addNetworkRouteTo [(.createNetworkRouteTo .zero 0 1, 0), networkRoute (.ofOctets 0x20 1) 2] (.ofOctets 0x20 1) 64
        1).removeRoute (.ofOctets 0x20 1) 64 1 (.ofOctets 0x20 1) =
      [(.createNetworkRouteTo .zero 0 1, 0), networkRoute (.ofOctets 0x20 1) 2] :=
  (removeRoute_addNetworkRouteTo_iff _ (.ofOctets 0x20 1) 64 1 (by decide)).mpr (by decide)

/-- The route to the same network with another prefix is removed instead. -/
theorem removeRoute_addNetworkRouteTo_shorter :
    (∀ r ∈ [((.createNetworkRouteTo (.ofOctets 0x20 1) 48 1, 0) : NetworkRoute)],
      ¬ (r.1.dest = .ofOctets 0x20 1 ∧ r.1.destNetworkPrefix = 64 ∧ r.1.interface = 1)) ∧
    (addNetworkRouteTo [(.createNetworkRouteTo (.ofOctets 0x20 1) 48 1, 0)] (.ofOctets 0x20 1) 64 1).removeRoute
        (.ofOctets 0x20 1) 64 1 (.ofOctets 0x20 1) = [networkRoute (.ofOctets 0x20 1) 1] := by
  constructor <;> decide +kernel

/-! ### An address or a route is gone -/

variable {P : Ipv6RoutingTableEntry → Prop}

/-- No two neighbours pass the test. -/
def Apart (P : Ipv6RoutingTableEntry → Prop) (t : NetworkRoutes) : Prop := t.IsChain fun r r' => ¬ (P r.1 ∧ P r'.1)

/-- All routes behind `kept` that pass the test come up before the loop ends. -/
def ComesToAll (P : Ipv6RoutingTableEntry → Prop) (j : ℕ) (rest : NetworkRoutes) : Prop :=
  ∀ k r, rest[k]? = some r → P r.1 → j + k < (j + rest.length) % 2 ^ 32

variable {j : ℕ}

theorem comesToAll_of_forall_not (h : ∀ r ∈ rest, ¬ P r.1) : ComesToAll P j rest :=
  fun _ r hr hP => absurd hP (h r (List.mem_of_getElem? hr))

theorem comesToAll_cons_of_neg (h : ¬ P r.1) : ComesToAll P j (r :: rest) ↔ ComesToAll P (j + 1) rest := by
  have hlen : j + (r :: rest).length = j + 1 + rest.length := by
    rw [List.length_cons]
    omega
  rw [ComesToAll, ComesToAll, hlen]
  constructor
  · intro hall k r' hr' hP
    have hlt := hall (k + 1) r' (by rwa [List.getElem?_cons_succ]) hP
    omega
  · intro hall k r' hr' hP
    cases k with
    | zero =>
      rw [List.getElem?_cons_zero, Option.some.injEq] at hr'
      rw [← hr'] at hP
      exact absurd hP h
    | succ k =>
      rw [List.getElem?_cons_succ] at hr'
      have hlt := hall k r' hr' hP
      omega

/-- The route behind one that is removed is passed over. -/
theorem comesToAll_cons_cons {r' : NetworkRoute} (hj : j < (j + (r :: r' :: rest).length) % 2 ^ 32) (h : ¬ P r'.1) :
    ComesToAll P j (r :: r' :: rest) ↔ ComesToAll P (j + 1) rest := by
  simp only [List.length_cons] at hj
  constructor
  · intro hall k r'' hr'' hP
    have hlt := hall (k + 2) r'' (by rwa [List.getElem?_cons_succ, List.getElem?_cons_succ]) hP
    simp only [List.length_cons] at hlt
    omega
  · intro hall k r'' hr'' hP
    simp only [List.length_cons]
    match k with
    | 0 => exact hj
    | 1 =>
      rw [List.getElem?_cons_succ, List.getElem?_cons_zero, Option.some.injEq] at hr''
      rw [← hr''] at hP
      exact absurd hP h
    | k + 2 =>
      rw [List.getElem?_cons_succ, List.getElem?_cons_succ] at hr''
      have hlt := hall k r'' hr'' hP
      omega

theorem apart_cons_of_neg (h : ¬ P r.1) : Apart P (r :: rest) ↔ Apart P rest := by
  cases rest with
  | nil => exact iff_of_true (.singleton r) .nil
  | cons r' rest =>
    rw [Apart, List.isChain_cons_cons]
    exact and_iff_right fun hboth => h hboth.1

theorem apart_of_forall_not (h : ∀ r ∈ t, ¬ P r.1) : Apart P t := by
  induction t with
  | nil => exact .nil
  | cons r t ih =>
    rw [apart_cons_of_neg (h r List.mem_cons_self)]
    exact ih fun r' hr' => h r' (List.mem_cons_of_mem _ hr')

variable [DecidablePred P]

/-- What lies before the place of the loop stays. -/
theorem take_removeAddressLoop {t' : NetworkRoutes} (h : t.removeAddressLoop P j = some t') : t'.take j = t.take j := by
  fun_induction removeAddressLoop P j t with
  | case1 => cases h
  | case2 => cases h
  | case3 j t hj route hroute hP t₁ hremove ih =>
    have htake := congrArg (List.take j) (ih h)
    rw [List.take_take, List.take_take, Nat.min_eq_left (Nat.le_succ j)] at htake
    rw [removeRouteAt] at hremove
    split_ifs at hremove with hlt
    rw [htake, ← Option.some.inj hremove, List.take_eraseIdx_eq_take_of_le _ _ _ le_rfl]
  | case4 j t hj route hroute hP ih =>
    have htake := congrArg (List.take j) (ih h)
    rwa [List.take_take, List.take_take, Nat.min_eq_left (Nat.le_succ j)] at htake
  | case5 => rw [Option.some.inj h]

theorem removeAddressLoop_of_le (h : t.getNRoutes ≤ j) : removeAddressLoop P j t = some t := by
  rw [removeAddressLoop, dif_neg (Nat.not_lt.mpr h)]

theorem removeAddressLoop_of_neg (hj : kept.length < getNRoutes (kept ++ r :: rest)) (h : ¬ P r.1) :
    removeAddressLoop P kept.length (kept ++ r :: rest) =
      removeAddressLoop P (kept ++ [r]).length ((kept ++ [r]) ++ rest) := by
  rw [removeAddressLoop, dif_pos hj, getRoute_append, List.append_assoc, List.length_append, List.length_singleton]
  exact if_neg h

/-- A round that removes the route. -/
theorem removeAddressLoop_of_pos (hj : kept.length < getNRoutes (kept ++ r :: rest)) (h : P r.1) :
    removeAddressLoop P kept.length (kept ++ r :: rest) = removeAddressLoop P (kept.length + 1) (kept ++ rest) := by
  rw [removeAddressLoop, dif_pos hj, getRoute_append]
  simp only [h, if_true]
  split
  · rename_i hnone
    rw [removeRouteAt_append] at hnone
    cases hnone
  · rename_i t' hsome
    rw [removeRouteAt_append] at hsome
    rw [Option.some.inj hsome]

/-- The loop from the place behind `kept` on removes what it should if it comes to all of it, and none of it lies
behind another. -/
theorem removeAddressLoop_eq_iff : ∀ (rest kept : NetworkRoutes),
    removeAddressLoop P kept.length (kept ++ rest) = some (kept ++ rest.butFor P) ↔
      Apart P rest ∧ ComesToAll P kept.length rest
  | [], kept => by
    have hend : getNRoutes (kept ++ []) ≤ kept.length := by
      rw [List.append_nil]
      exact Nat.mod_le _ _
    rw [removeAddressLoop_of_le hend]
    exact iff_of_true rfl ⟨.nil, comesToAll_of_forall_not fun r hr => absurd hr List.not_mem_nil⟩
  | r :: rest, kept => by
    have hlen : getNRoutes (kept ++ r :: rest) = (kept.length + (r :: rest).length) % 2 ^ 32 := by
      rw [getNRoutes, List.length_append]
    by_cases hj : kept.length < getNRoutes (kept ++ r :: rest)
    · by_cases hr : P r.1
      · rw [removeAddressLoop_of_pos hj hr, butFor_cons_of_pos hr]
        cases rest with
        | nil =>
          have hend : getNRoutes (kept ++ []) ≤ kept.length + 1 := by
            rw [List.append_nil]
            exact Nat.le_trans (Nat.mod_le _ _) (Nat.le_succ _)
          rw [removeAddressLoop_of_le hend]
          refine iff_of_true rfl ⟨.singleton r, fun k r' hr' _ => ?_⟩
          obtain rfl : k = 0 := by
            obtain ⟨hk, -⟩ := List.getElem?_eq_some_iff.mp hr'
            exact Nat.lt_one_iff.mp hk
          omega
        | cons r' rest =>
          by_cases hr' : P r'.1
          · -- the loop passes over `r'`, which stays
            refine iff_of_false (fun heq => ?_) fun hall => ?_
            · have htake := take_removeAddressLoop heq
              have hget := congrArg (fun l : NetworkRoutes => l[kept.length]?) htake
              rw [List.getElem?_take_of_lt (Nat.lt_succ_self _), List.getElem?_take_of_lt (Nat.lt_succ_self _),
                List.getElem?_append_right le_rfl, List.getElem?_append_right le_rfl, Nat.sub_self,
                List.getElem?_cons_zero] at hget
              have hmem := List.mem_of_getElem? hget
              rw [butFor, List.mem_filter, decide_eq_true_eq] at hmem
              exact hmem.2 hr'
            · exact (List.isChain_cons_cons.mp hall.1).1 ⟨hr, hr'⟩
          · have hnext := removeAddressLoop_eq_iff rest (kept ++ [r'])
            have hapart : Apart P (r :: r' :: rest) ↔ Apart P rest := by
              rw [Apart, List.isChain_cons_cons, ← apart_cons_of_neg hr']
              exact and_iff_right fun hboth : P r.1 ∧ P r'.1 => hr' hboth.2
            rw [hapart, comesToAll_cons_cons (hlen ▸ hj) hr', butFor_cons_of_neg hr']
            rw [List.append_assoc, List.append_assoc, List.length_append, List.length_singleton] at hnext
            exact hnext
      · have hnext := removeAddressLoop_eq_iff rest (kept ++ [r])
        rw [removeAddressLoop_of_neg hj hr, butFor_cons_of_neg hr, apart_cons_of_neg hr, comesToAll_cons_of_neg hr]
        rw [List.append_assoc, List.append_assoc, List.length_append, List.length_singleton] at hnext
        rw [List.append_assoc, List.length_append, List.length_singleton]
        exact hnext
    · rw [removeAddressLoop_of_le (Nat.not_lt.mp hj), Option.some.injEq, List.append_cancel_left_eq]
      constructor
      · intro heq
        have hnone := butFor_eq_self_iff.mp heq.symm
        exact ⟨apart_of_forall_not hnone, comesToAll_of_forall_not hnone⟩
      · rintro ⟨-, hall⟩
        refine (butFor_eq_self_iff.mpr fun r' hr' hP => ?_).symm
        obtain ⟨k, hk⟩ := List.getElem?_of_mem hr'
        have hlt := hall k r' hk hP
        omega

/-- Nothing that the loop of `NotifyRemoveRoute` goes over may pass the test. -/
theorem eraseLoop_eq_iff (t : NetworkRoutes) : t.eraseLoop P = some (t.butFor P) ↔ ∀ r ∈ t, ¬ P r.1 := by
  induction t with
  | nil => exact iff_of_true rfl fun r hr => absurd hr List.not_mem_nil
  | cons r t ih =>
    by_cases hr : P r.1
    · refine iff_of_false ?_ fun h => h r List.mem_cons_self hr
      rw [eraseLoop, if_pos hr]
      exact (Option.some_ne_none _).symm
    · have hcons : eraseLoop P (r :: t) = (eraseLoop P t).map (r :: ·) := by
        rw [eraseLoop, if_neg hr]
        cases eraseLoop P t <;> rfl
      rw [hcons, butFor_cons_of_neg hr, List.forall_mem_cons, ← ih]
      constructor
      · intro heq
        obtain ⟨t', ht', hcons'⟩ := Option.map_eq_some_iff.mp heq
        rw [ht', (List.cons.inj hcons').2]
        exact ⟨hr, rfl⟩
      · rintro ⟨-, ht⟩
        rw [ht, Option.map_some]

/-- **An address or a route is gone**: what the two notifications remove. `NotifyRemoveAddress` does what it should on
an interface that is up exactly if none of the routes that it is to remove lies behind another (and, in a table of
more routes than a `uint32_t` counts, all lie before the size it sees); and on one that is down if there are none.
`NotifyRemoveRoute` does if there are none. -/
theorem removal_iff {Device : Type} (ipv6 : Ipv6 Device) (t : NetworkRoutes) :
    (∀ interface address,
      t.notifyRemoveAddress ipv6 interface address = some (t.butFor (IsNetworkOf interface address)) ↔
        if ipv6.isUp interface then
          Apart (IsNetworkOf interface address) t ∧
            ∀ k r, t[k]? = some r → IsNetworkOf interface address r.1 → k < t.getNRoutes
        else ∀ r ∈ t, ¬ IsNetworkOf interface address r.1) ∧
    ∀ dst mask nextHop interface prefixToUse, dst ≠ .zero →
      (t.notifyRemoveRoute dst mask nextHop interface prefixToUse = some (t.butFor (IsRouteTo dst mask interface)) ↔
        ∀ r ∈ t, ¬ IsRouteTo dst mask interface r.1) := by
  constructor
  · intro interface address
    rw [notifyRemoveAddress]
    split_ifs with hup
    · have hloop := removeAddressLoop_eq_iff (P := IsNetworkOf interface address) t []
      have hall : ComesToAll (IsNetworkOf interface address) 0 t ↔
          ∀ k r, t[k]? = some r → IsNetworkOf interface address r.1 → k < t.getNRoutes := by
        simp only [ComesToAll, Nat.zero_add, getNRoutes]
      rw [← hall]
      exact hloop
    · rw [Option.some.injEq, eq_comm]
      exact butFor_eq_self_iff
  · intro dst mask nextHop interface prefixToUse hdst
    rw [notifyRemoveRoute, if_pos hdst]
    exact eraseLoop_eq_iff t

/-- A table in which the network of an address is stored twice, with another route between. -/
def storedTwice : NetworkRoutes :=
  [networkRoute (.ofOctets 0x20 1) 1, networkRoute (.ofOctets 0x20 2) 1, networkRoute (.ofOctets 0x20 1) 1]

/-- `removal_iff` for this table, and for a route that it does not have. -/
theorem removal_iff_storedTwice :
    storedTwice.notifyRemoveAddress Ipv6.bareNode 1 ⟨.ofOctets 0x20 1, 64⟩ =
        some (storedTwice.butFor (IsNetworkOf 1 ⟨.ofOctets 0x20 1, 64⟩)) ∧
      storedTwice.notifyRemoveRoute (.ofOctets 0x20 3) 64 .zero 1 .zero =
        some (storedTwice.butFor (IsRouteTo (.ofOctets 0x20 3) 64 1)) := by
  constructor
  · refine ((removal_iff Ipv6.bareNode storedTwice).1 1 ⟨.ofOctets 0x20 1, 64⟩).mpr ⟨?_, fun k r hr _ => ?_⟩
    · exact .cons_cons (by decide) (.cons_cons (by decide) (.singleton _))
    · exact (List.getElem?_eq_some_iff.mp hr).1
  · exact ((removal_iff Ipv6.bareNode storedTwice).2 (.ofOctets 0x20 3) 64 .zero 1 .zero (by decide)).mpr (by decide)

/-- The network of an address is stored twice in a row: one of the two routes stays. And a route that is gone was
stored: the loop goes on from the route that it erased. -/
theorem removal_of_neighbours :
    notifyRemoveAddress Ipv6.bareNode [networkRoute (.ofOctets 0x20 1) 1, networkRoute (.ofOctets 0x20 1) 1] 1
        ⟨.ofOctets 0x20 1, 64⟩ = some [networkRoute (.ofOctets 0x20 1) 1] ∧
      notifyRemoveRoute [networkRoute (.ofOctets 0x20 1) 1] (.ofOctets 0x20 1) 64 .zero 1 .zero = none := by
  constructor <;> decide +kernel

end NetworkRoutes

end Ns3
