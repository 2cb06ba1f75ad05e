import Mathlib.Data.Finset.Basic
import Mathlib.Data.List.Sort
import Ns3.Lib.Cover
import Ns3.Olsr.Links

/-!
# The computation of the MPR set of OLSR

`MprComputation` (`olsr/model/olsr-routing-protocol.cc`). A `std::set` of addresses is a `Finset`. What the MPRs reach
is in `Ns3.Olsr.MprCoverage`.

* `UniqueNeighbors` — there is one neighbour tuple for each main address, which `InsertNeighborTuple` keeps and
  `ProcessMid` may break (`Ns3.Olsr.LinkSet`).
* `Progress` — the 2-hop tuples in `N2` cover what is not reached through an MPR yet, and the MPRs are willing.
* `selectMax_some`, `Progress.selectRest` — while there are any, the fourth step finds a neighbour with one of them, and
  so it ends.
-/

namespace Ns3.Olsr

open Lib

/-- `OLSR_WILL_ALWAYS`. -/
def willAlways : UInt8 := 7

/-- What the neighbour reaches needs no other. -/
def coverTwoHopNeighbors (neighborMainAddr : Ipv4Address) (N2 : List TwoHopNeighborTuple) : List TwoHopNeighborTuple :=
  let toRemove := (N2.filter fun tuple => tuple.neighborMainAddr = neighborMainAddr).map
    TwoHopNeighborTuple.twoHopNeighborAddr
  N2.filter fun tuple => tuple.twoHopNeighborAddr ∉ toRemove

namespace OlsrState

variable (mainAddress : Ipv4Address) (s : OlsrState)

/-- The 2-hop tuples of the neighbour that the program counts. -/
def degree (tuple : NeighborTuple) : ℕ :=
  (s.twoHopNeighborSet.filter fun nb2hop =>
    nb2hop.neighborMainAddr = tuple.neighborMainAddr ∧ s.findNeighborTuple nb2hop.neighborMainAddr = none).length

/-- `N`: the symmetric neighbours. -/
def symNeighbors : List NeighborTuple := s.neighborSet.filter fun neighbor => neighbor.status = .sym

/-- The tuple is put in `N2`. -/
def InN2 (twoHopNeigh : TwoHopNeighborTuple) : Prop :=
  twoHopNeigh.twoHopNeighborAddr ≠ mainAddress ∧
    (∃ neigh ∈ s.symNeighbors.find? fun neigh => neigh.neighborMainAddr = twoHopNeigh.neighborMainAddr,
      neigh.willingness ≠ willNever) ∧
    ¬∃ neigh ∈ s.symNeighbors, neigh.neighborMainAddr = twoHopNeigh.twoHopNeighborAddr

instance : DecidablePred (s.InN2 mainAddress) :=
  fun _ => inferInstanceAs (Decidable (_ ∧ (∃ _ ∈ _, _) ∧ ¬∃ _ ∈ _, _))

/-- `N2`, as it is at first. -/
def twoHopNeighbors : List TwoHopNeighborTuple := s.twoHopNeighborSet.filter fun tuple => s.InN2 mainAddress tuple

/-- The first step: the neighbours that are always willing. -/
def selectAlways (x : Finset Ipv4Address × List TwoHopNeighborTuple) (neighbor : NeighborTuple) :
    Finset Ipv4Address × List TwoHopNeighborTuple :=
  if neighbor.willingness = willAlways then
    (insert neighbor.neighborMainAddr x.1, coverTwoHopNeighbors neighbor.neighborMainAddr x.2)
  else x

variable (N2 : List TwoHopNeighborTuple)

/-- No other neighbour reaches the address. -/
def OnlyOne (tuple : TwoHopNeighborTuple) : Prop :=
  ∀ other ∈ N2, other.twoHopNeighborAddr = tuple.twoHopNeighborAddr → other.neighborMainAddr = tuple.neighborMainAddr

instance (N2 : List TwoHopNeighborTuple) : DecidablePred (OnlyOne N2) :=
  fun _ => inferInstanceAs (Decidable (∀ other ∈ N2, _))

/-- The third step: the neighbours that are the only ones to reach something, with `coveredTwoHopNeighbors`. -/
def selectOnly (x : Finset Ipv4Address × Finset Ipv4Address)
    (tuple : TwoHopNeighborTuple) : Finset Ipv4Address × Finset Ipv4Address :=
  if OnlyOne N2 tuple then
    (insert tuple.neighborMainAddr x.1,
      x.2 ∪ ((N2.filter fun other => other.neighborMainAddr = tuple.neighborMainAddr).map
        TwoHopNeighborTuple.twoHopNeighborAddr).toFinset)
  else x

/-- How many tuples of `N2` the neighbour has. -/
def reachability (neighbor : NeighborTuple) : ℕ :=
  (N2.filter fun tuple => neighbor.neighborMainAddr = tuple.neighborMainAddr).length

/-- One neighbour in the selection of `max`, with `max_r`. -/
def better (max : Option (NeighborTuple × ℕ)) (x : NeighborTuple × ℕ) : Option (NeighborTuple × ℕ) :=
  match max with
  | none => some x
  | some (best, maxR) =>
    if best.willingness < x.1.willingness then some x
    else if x.1.willingness = best.willingness then
      if maxR < x.2 then some x
      else if x.2 = maxR then
        if s.degree best < s.degree x.1 then some x else max
      else max
    else max

/-- The neighbours with some reachability, in the order of `rs` and then of `reachability[r]`. -/
def candidates : List (NeighborTuple × ℕ) :=
  let rs := (s.symNeighbors.map (reachability N2)).dedup.insertionSort (· ≤ ·)
  (rs.filter (· ≠ 0)).flatMap fun r =>
    (s.symNeighbors.filter fun neighbor => reachability N2 neighbor = r).map (·, r)

/-- `max`, with `max_r`. -/
def selectMax : Option (NeighborTuple × ℕ) :=
  (s.candidates N2).foldl s.better none

/-- The fourth step, within the given rounds. -/
def selectRest : ℕ → Finset Ipv4Address → List TwoHopNeighborTuple → Option (Finset Ipv4Address)
  | _, mprSet, [] => some mprSet
  | 0, _, _ :: _ => none
  | rounds + 1, mprSet, first :: rest =>
    match s.selectMax (first :: rest) with
    | some (max, _) =>
      selectRest rounds (insert max.neighborMainAddr mprSet) (coverTwoHopNeighbors max.neighborMainAddr (first :: rest))
    | none => selectRest rounds mprSet (first :: rest)

/-- `MprComputation`: the MPR set, if the fourth step ends within the given rounds. -/
def mprComputation (rounds : ℕ) : Option (Finset Ipv4Address) :=
  let (mprSet, N2) := s.symNeighbors.foldl selectAlways (∅, s.twoHopNeighbors mainAddress)
  let (mprSet, covered) := N2.foldl (selectOnly N2) (mprSet, ∅)
  s.selectRest rounds mprSet (N2.filter fun tuple => tuple.twoHopNeighborAddr ∉ covered)

/-! ### The neighbour set -/

/-- There is one tuple for each main address. -/
def UniqueNeighbors (s : OlsrState) : Prop := (s.neighborSet.map NeighborTuple.neighborMainAddr).Nodup

variable {s : OlsrState} {mainAddress : Ipv4Address} {tuple : TwoHopNeighborTuple} {neighbor : NeighborTuple}
  {N2 : List TwoHopNeighborTuple} {mprSet : Finset Ipv4Address}

theorem uniqueNeighbors_updateFirst (h : s.UniqueNeighbors) {p : NeighborTuple → Prop} [DecidablePred p]
    {f : NeighborTuple → NeighborTuple} (hf : ∀ old, p old → (f old).neighborMainAddr = old.neighborMainAddr) :
    { s with neighborSet := updateFirst p f s.neighborSet }.UniqueNeighbors := by
  rw [UniqueNeighbors, map_updateFirst hf]
  exact h

theorem uniqueNeighbors_insertNeighborTuple (h : s.UniqueNeighbors) (tuple : NeighborTuple) :
    (s.insertNeighborTuple tuple).UniqueNeighbors := by
  rw [insertNeighborTuple]
  split
  case h_1 => exact uniqueNeighbors_updateFirst h fun _ h => h.symm
  case h_2 hfind =>
    rw [UniqueNeighbors, List.map_append, List.map_singleton]
    refine List.nodup_append.mpr ⟨h, List.nodup_singleton _, fun a ha b hb => ?_⟩
    obtain ⟨old, hold, rfl⟩ := List.mem_map.mp ha
    rw [List.mem_singleton.mp hb]
    simpa using List.find?_eq_none.mp hfind old hold

theorem uniqueNeighbors_eraseNeighborTuple (h : s.UniqueNeighbors) (mainAddr : Ipv4Address) :
    (s.eraseNeighborTuple mainAddr).UniqueNeighbors :=
  List.Nodup.sublist (List.eraseP_sublist.map _) h

/-- The address is that of a symmetric neighbour who is willing. -/
def Willing (s : OlsrState) (a : Ipv4Address) : Prop :=
  ∃ neighbor ∈ s.neighborSet, neighbor.neighborMainAddr = a ∧ neighbor.status = .sym ∧ neighbor.willingness ≠ willNever

theorem mem_symNeighbors : neighbor ∈ s.symNeighbors ↔ neighbor ∈ s.neighborSet ∧ neighbor.status = .sym := by
  rw [symNeighbors, List.mem_filter, decide_eq_true_eq]

variable {a : Ipv4Address}

theorem willing_iff :
    s.Willing a ↔ ∃ neighbor ∈ s.symNeighbors, neighbor.neighborMainAddr = a ∧ neighbor.willingness ≠ willNever := by
  constructor
  · rintro ⟨neighbor, hmem, haddr, hsym, hwilling⟩
    exact ⟨neighbor, mem_symNeighbors.mpr ⟨hmem, hsym⟩, haddr, hwilling⟩
  · rintro ⟨neighbor, hmem, haddr, hwilling⟩
    obtain ⟨hmem, hsym⟩ := mem_symNeighbors.mp hmem
    exact ⟨neighbor, hmem, haddr, hsym, hwilling⟩

/-! ### The steps -/

/-- What is reached through an MPR has been taken out of `N2`, and nothing else; and the MPRs are willing. -/
structure Progress (s : OlsrState) (records : List TwoHopNeighborTuple) (mprSet : Finset Ipv4Address)
    (N2 : List TwoHopNeighborTuple) : Prop where
  covers : Covers TwoHopNeighborTuple.neighborMainAddr TwoHopNeighborTuple.twoHopNeighborAddr records (· ∈ mprSet) N2
  willing : ∀ a ∈ mprSet, s.Willing a

variable {records : List TwoHopNeighborTuple}

theorem mem_coverTwoHopNeighbors :
    tuple ∈ coverTwoHopNeighbors a N2 ↔
      tuple ∈ N2 ∧ ¬∃ other ∈ N2, other.neighborMainAddr = a ∧ other.twoHopNeighborAddr = tuple.twoHopNeighborAddr := by
  simp only [coverTwoHopNeighbors, List.mem_filter, List.mem_map, decide_eq_true_eq, and_assoc]

theorem Progress.cover (h : s.Progress records mprSet N2) (ha : s.Willing a) :
    s.Progress records (insert a mprSet) (coverTwoHopNeighbors a N2) := by
  refine ⟨h.covers.remove (fun _ => Finset.mem_insert_of_mem) (fun tuple ht => (mem_coverTwoHopNeighbors.mp ht).1)
    fun tuple ht hremoved => ?_, fun b hb => ?_⟩
  · rw [mem_coverTwoHopNeighbors, not_and, not_not] at hremoved
    obtain ⟨other, hother, rfl, hwhat⟩ := hremoved ht
    exact ⟨other, hother, Finset.mem_insert_self _ _, hwhat⟩
  · rcases Finset.mem_insert.mp hb with rfl | hb
    · exact ha
    · exact h.willing b hb

/-- The first step. -/
theorem Progress.selectAlways {neighbors : List NeighborTuple} (hneighbors : ∀ n ∈ neighbors, n ∈ s.symNeighbors)
    {x : Finset Ipv4Address × List TwoHopNeighborTuple} (h : s.Progress records x.1 x.2) :
    s.Progress records (neighbors.foldl OlsrState.selectAlways x).1 (neighbors.foldl OlsrState.selectAlways x).2 := by
  induction neighbors generalizing x with
  | nil => exact h
  | cons n neighbors ih =>
    rw [List.foldl_cons]
    refine ih (fun m hm => hneighbors m (List.mem_cons_of_mem _ hm)) ?_
    rw [OlsrState.selectAlways]
    split
    case isTrue halways =>
      refine h.cover (willing_iff.mpr ⟨n, hneighbors n List.mem_cons_self, rfl, ?_⟩)
      rw [halways]
      decide
    case isFalse => exact h

/-- The third step, so far: what is in `coveredTwoHopNeighbors` is reached through an MPR. -/
structure Only (s : OlsrState) (N2 : List TwoHopNeighborTuple) (mprSet : Finset Ipv4Address)
    (x : Finset Ipv4Address × Finset Ipv4Address) : Prop where
  subset : ∀ a ∈ mprSet, a ∈ x.1
  willing : ∀ a ∈ x.1, s.Willing a
  covered : ∀ a ∈ x.2, ∃ tuple ∈ N2, tuple.neighborMainAddr ∈ x.1 ∧ tuple.twoHopNeighborAddr = a

theorem Only.selectOnly (hN2 : ∀ tuple ∈ N2, s.Willing tuple.neighborMainAddr) {tuples : List TwoHopNeighborTuple}
    (htuples : ∀ tuple ∈ tuples, tuple ∈ N2) {x : Finset Ipv4Address × Finset Ipv4Address} (h : s.Only N2 mprSet x) :
    s.Only N2 mprSet (tuples.foldl (OlsrState.selectOnly N2) x) := by
  induction tuples generalizing x with
  | nil => exact h
  | cons tuple tuples ih =>
    rw [List.foldl_cons]
    refine ih (fun other hother => htuples other (List.mem_cons_of_mem _ hother)) ?_
    rw [OlsrState.selectOnly]
    split
    case isTrue =>
      refine ⟨fun a ha => Finset.mem_insert_of_mem (h.subset a ha), fun a ha => ?_, fun a ha => ?_⟩
      · rcases Finset.mem_insert.mp ha with rfl | ha
        · exact hN2 tuple (htuples tuple List.mem_cons_self)
        · exact h.willing a ha
      · rcases Finset.mem_union.mp ha with ha | ha
        · obtain ⟨other, hother, hmpr, rfl⟩ := h.covered a ha
          exact ⟨other, hother, Finset.mem_insert_of_mem hmpr, rfl⟩
        · obtain ⟨other, hother, rfl⟩ := List.mem_map.mp (List.mem_toFinset.mp ha)
          obtain ⟨hother, hmain⟩ := List.mem_filter.mp hother
          rw [decide_eq_true_eq] at hmain
          exact ⟨other, hother, hmain ▸ Finset.mem_insert_self _ _, rfl⟩
    case isFalse => exact h

/-- The third step. -/
theorem Progress.selectOnly (h : s.Progress records mprSet N2)
    {x : Finset Ipv4Address × Finset Ipv4Address} (hx : s.Only N2 mprSet x) :
    s.Progress records x.1 (N2.filter fun tuple => tuple.twoHopNeighborAddr ∉ x.2) := by
  refine ⟨h.covers.remove hx.subset (fun tuple ht => (List.mem_filter.mp ht).1) fun tuple ht hremoved => ?_, hx.willing⟩
  have hcovered : tuple.twoHopNeighborAddr ∈ x.2 := by
    by_contra hnot
    exact hremoved (List.mem_filter.mpr ⟨ht, decide_eq_true hnot⟩)
  exact hx.covered _ hcovered

/-! ### The fourth step -/

theorem better_isSome (max : Option (NeighborTuple × ℕ)) (x : NeighborTuple × ℕ) : (s.better max x).isSome = true := by
  cases max with
  | none => rfl
  | some best =>
    rw [better]
    split_ifs <;> rfl

theorem eq_or_eq_of_better {max : Option (NeighborTuple × ℕ)} {x y : NeighborTuple × ℕ} (h : s.better max x = some y) :
    max = some y ∨ x = y := by
  cases max with
  | none => exact .inr (Option.some.inj h)
  | some best =>
    rw [better] at h
    split_ifs at h
    all_goals first | exact .inl h | exact .inr (Option.some.inj h)

theorem foldl_better {candidates : List (NeighborTuple × ℕ)} {max : Option (NeighborTuple × ℕ)} :
    (candidates ≠ [] → (candidates.foldl s.better max).isSome = true) ∧
      ∀ y, candidates.foldl s.better max = some y → max = some y ∨ y ∈ candidates := by
  induction candidates using List.reverseRecOn with
  | nil => exact ⟨fun h => absurd rfl h, fun y h => .inl h⟩
  | append_singleton candidates x ih =>
    rw [List.foldl_concat]
    refine ⟨fun _ => better_isSome _ x, fun y hy => ?_⟩
    rcases eq_or_eq_of_better hy with hmax | rfl
    · exact (ih.2 y hmax).imp_right fun hmem => List.mem_append_left _ hmem
    · exact .inr (List.mem_append_right _ (List.mem_singleton_self _))

theorem reachability_ne_zero :
    reachability N2 neighbor ≠ 0 ↔ ∃ tuple ∈ N2, tuple.neighborMainAddr = neighbor.neighborMainAddr := by
  rw [reachability, ← Nat.pos_iff_ne_zero, List.length_pos_iff_exists_mem]
  simp only [List.mem_filter, decide_eq_true_eq]
  exact exists_congr fun tuple => and_congr_right fun _ => eq_comm

theorem mem_candidates {x : NeighborTuple × ℕ} :
    x ∈ s.candidates N2 ↔ x.1 ∈ s.symNeighbors ∧ reachability N2 x.1 = x.2 ∧ x.2 ≠ 0 := by
  obtain ⟨n, r⟩ := x
  simp only [candidates, List.mem_flatMap, List.mem_filter, List.mem_insertionSort, List.mem_dedup, List.mem_map,
    decide_eq_true_eq, Prod.mk.injEq]
  constructor
  · rintro ⟨r', ⟨-, hne⟩, n', ⟨hn, hr⟩, rfl, rfl⟩
    exact ⟨hn, hr, hne⟩
  · rintro ⟨hn, hr, hne⟩
    exact ⟨r, ⟨⟨n, hn, hr⟩, hne⟩, n, ⟨hn, hr⟩, rfl, rfl⟩

/-- While there are tuples in `N2`, a neighbour with one of them is selected. -/
theorem selectMax_some (hN2 : ∀ tuple ∈ N2, s.Willing tuple.neighborMainAddr) (hne : N2 ≠ []) :
    ∃ max r, s.selectMax N2 = some (max, r) ∧ ∃ tuple ∈ N2, tuple.neighborMainAddr = max.neighborMainAddr := by
  obtain ⟨tuple, htuple⟩ := List.exists_mem_of_ne_nil N2 hne
  obtain ⟨n, hn, haddr, -⟩ := willing_iff.mp (hN2 tuple htuple)
  have hcandidate : (n, reachability N2 n) ∈ s.candidates N2 :=
    mem_candidates.mpr ⟨hn, rfl, reachability_ne_zero.mpr ⟨tuple, htuple, haddr.symm⟩⟩
  obtain ⟨hsome, hselected⟩ := @foldl_better s (s.candidates N2) none
  obtain ⟨⟨max, r⟩, hmax⟩ := Option.isSome_iff_exists.mp (hsome (List.ne_nil_of_mem hcandidate))
  rcases hselected _ hmax with hnone | hmax'
  · cases hnone
  · obtain ⟨-, hr, hpos⟩ := mem_candidates.mp hmax'
    exact ⟨max, r, hmax, reachability_ne_zero.mp (hr ▸ hpos)⟩

theorem length_coverTwoHopNeighbors_lt (h : ∃ tuple ∈ N2, tuple.neighborMainAddr = a) :
    (coverTwoHopNeighbors a N2).length < N2.length := by
  obtain ⟨tuple, htuple, ha⟩ := h
  have hsub : (coverTwoHopNeighbors a N2).Sublist N2 := List.filter_sublist
  refine Nat.lt_of_le_of_ne hsub.length_le fun hlength => ?_
  rw [← hsub.eq_of_length hlength] at htuple
  obtain ⟨hmem, hnone⟩ := mem_coverTwoHopNeighbors.mp htuple
  exact hnone ⟨tuple, hmem, ha, rfl⟩

/-- The fourth step. -/
theorem Progress.selectRest (h : s.Progress records mprSet N2)
    (hrecords : ∀ tuple ∈ records, s.Willing tuple.neighborMainAddr) {rounds : ℕ} (hrounds : N2.length ≤ rounds) :
    ∃ mprSet', s.selectRest rounds mprSet N2 = some mprSet' ∧ s.Progress records mprSet' [] := by
  induction rounds generalizing mprSet N2 with
  | zero =>
    obtain rfl := List.eq_nil_of_length_eq_zero (Nat.le_zero.mp hrounds)
    exact ⟨mprSet, rfl, h⟩
  | succ rounds ih =>
    cases hN2 : N2 with
    | nil => exact ⟨mprSet, by rw [OlsrState.selectRest], hN2 ▸ h⟩
    | cons first rest =>
      obtain ⟨max, r, hmax, htuple⟩ :=
        selectMax_some (s := s) (fun tuple ht => hrecords tuple (h.covers.subset tuple ht)) (hN2 ▸ List.cons_ne_nil _ _)
      have hwilling : s.Willing max.neighborMainAddr := by
        obtain ⟨tuple, ht, hmain⟩ := htuple
        exact hmain ▸ hrecords tuple (h.covers.subset tuple ht)
      have hlt := length_coverTwoHopNeighbors_lt htuple
      rw [OlsrState.selectRest, ← hN2, hmax]
      exact ih (h.cover hwilling) (by omega)

end OlsrState

end Ns3.Olsr
