import Ns3.Olsr.MprChoice

/-!
# What the MPRs reach

A MID message can give two neighbour tuples one main address. Then the first of them decides what `MprComputation` puts
in `N2`, and any of them is selected in the first step.

* `considered_of_mem` — every MPR has a willing first tuple, or one that is always willing.
* `reaches_of_considered` — whatever the neighbour set, the computation ends, and what is reached through such an
  address is reached through an MPR.
* `reaches_iff`, `coversTwoHops_iff` — so everything that has to be reached is, if and only if it is reached through
  such an address; `coversTwoHops_of_unique` — with one tuple for each main address it is.
-/

namespace Ns3.Olsr.OlsrState

open Lib

variable {s : OlsrState} {mainAddress a : Ipv4Address} {tuple : TwoHopNeighborTuple} {N2 : List TwoHopNeighborTuple}
  {mprSet mprSet' : Finset Ipv4Address} {rounds : ℕ}

/-- The first symmetric neighbour with the address is willing. -/
def FirstWilling (s : OlsrState) (a : Ipv4Address) : Prop :=
  ∃ neigh ∈ s.symNeighbors.find? fun neigh => neigh.neighborMainAddr = a, neigh.willingness ≠ willNever

/-- Some symmetric neighbour with the address is always willing. -/
def AlwaysWilling (s : OlsrState) (a : Ipv4Address) : Prop :=
  ∃ neigh ∈ s.symNeighbors, neigh.neighborMainAddr = a ∧ neigh.willingness = willAlways

/-- What has to be reached: it is neither the node nor a neighbour, and a willing neighbour reaches it. -/
def ToReach (s : OlsrState) (mainAddress a : Ipv4Address) : Prop :=
  a ≠ mainAddress ∧ (¬∃ neigh ∈ s.symNeighbors, neigh.neighborMainAddr = a) ∧
    ∃ tuple ∈ s.twoHopNeighborSet, tuple.twoHopNeighborAddr = a ∧ s.Willing tuple.neighborMainAddr

/-- The computation ends, every MPR is a willing symmetric neighbour, and what has to be reached is reached through an
MPR. -/
def CoversTwoHops (s : OlsrState) (mainAddress : Ipv4Address) : Prop :=
  ∃ rounds mprSet, s.mprComputation mainAddress rounds = some mprSet ∧ (∀ a ∈ mprSet, s.Willing a) ∧
    ∀ a, s.ToReach mainAddress a →
      ∃ tuple ∈ s.twoHopNeighborSet, tuple.twoHopNeighborAddr = a ∧ tuple.neighborMainAddr ∈ mprSet

theorem FirstWilling.willing (h : s.FirstWilling a) : s.Willing a := by
  obtain ⟨neigh, hfind, hwilling⟩ := h
  exact willing_iff.mpr ⟨neigh, List.mem_of_find?_eq_some hfind, by simpa using List.find?_some hfind, hwilling⟩

/-- `N2` has the tuples whose first neighbour is willing, to others than the node and its neighbours. -/
theorem mem_twoHopNeighbors_iff :
    tuple ∈ s.twoHopNeighbors mainAddress ↔
      tuple ∈ s.twoHopNeighborSet ∧ tuple.twoHopNeighborAddr ≠ mainAddress ∧ s.FirstWilling tuple.neighborMainAddr ∧
        ¬∃ neigh ∈ s.symNeighbors, neigh.neighborMainAddr = tuple.twoHopNeighborAddr := by
  rw [twoHopNeighbors, List.mem_filter, decide_eq_true_eq]
  rfl

theorem willing_of_mem (h : tuple ∈ s.twoHopNeighbors mainAddress) : s.Willing tuple.neighborMainAddr :=
  (mem_twoHopNeighbors_iff.mp h).2.2.1.willing

/-! ### The steps -/

theorem mem_selectAlways {neighbors : List NeighborTuple} {x : Finset Ipv4Address × List TwoHopNeighborTuple} :
    a ∈ (neighbors.foldl selectAlways x).1 ↔
      a ∈ x.1 ∨ ∃ n ∈ neighbors, n.neighborMainAddr = a ∧ n.willingness = willAlways := by
  induction neighbors generalizing x with
  | nil => simp
  | cons n neighbors ih =>
    rw [List.foldl_cons, ih, selectAlways, List.exists_mem_cons_iff]
    split_ifs with halways
    · rw [Finset.mem_insert, and_iff_left halways, eq_comm (a := a), or_comm (a := n.neighborMainAddr = a), or_assoc]
    · simp only [halways, and_false, false_or]

theorem mem_selectOnly {tuples : List TwoHopNeighborTuple} {x : Finset Ipv4Address × Finset Ipv4Address}
    (h : a ∈ (tuples.foldl (selectOnly N2) x).1) : a ∈ x.1 ∨ ∃ tuple ∈ tuples, tuple.neighborMainAddr = a := by
  induction tuples generalizing x with
  | nil => exact .inl h
  | cons tuple tuples ih =>
    rcases ih h with h | ⟨other, hother, haddr⟩
    · rw [selectOnly] at h
      split_ifs at h
      · rcases Finset.mem_insert.mp h with rfl | h
        · exact .inr ⟨tuple, List.mem_cons_self, rfl⟩
        · exact .inl h
      · exact .inl h
    · exact .inr ⟨other, List.mem_cons_of_mem _ hother, haddr⟩

theorem subset_selectRest (h : s.selectRest rounds mprSet N2 = some mprSet') : mprSet ⊆ mprSet' := by
  induction rounds generalizing mprSet N2 with
  | zero =>
    cases N2 with
    | nil => exact (Option.some.inj h).subset
    | cons => cases h
  | succ rounds ih =>
    cases N2 with
    | nil =>
      rw [selectRest] at h
      exact (Option.some.inj h).subset
    | cons =>
      rw [selectRest] at h
      split at h
      · exact (Finset.subset_insert _ _).trans (ih h)
      · exact ih h

/-- What is left after the first step, with the neighbours selected in it. -/
theorem progress_selectAlways (s : OlsrState) (mainAddress : Ipv4Address) :
    let x := s.symNeighbors.foldl selectAlways (∅, s.twoHopNeighbors mainAddress)
    s.Progress (s.twoHopNeighbors mainAddress) x.1 x.2 :=
  Progress.selectAlways (x := (∅, s.twoHopNeighbors mainAddress)) (fun _ h => h)
    ⟨.start _ _, fun a ha => absurd ha (Finset.notMem_empty a)⟩

theorem progress_beforeRest (s : OlsrState) (mainAddress : Ipv4Address) :
    s.Progress (s.twoHopNeighbors mainAddress) (s.beforeRest mainAddress).1 (s.beforeRest mainAddress).2 ∧
      ∀ a, s.AlwaysWilling a → a ∈ (s.beforeRest mainAddress).1 := by
  have hfirst := progress_selectAlways s mainAddress
  have hnone : s.Only (s.symNeighbors.foldl OlsrState.selectAlways (∅, s.twoHopNeighbors mainAddress)).2
      (s.symNeighbors.foldl OlsrState.selectAlways (∅, s.twoHopNeighbors mainAddress)).1 (_, ∅) :=
    ⟨fun _ h => h, hfirst.willing, fun a ha => absurd ha (Finset.notMem_empty a)⟩
  have honly := hnone.selectOnly (fun tuple ht => willing_of_mem (hfirst.covers.subset tuple ht)) fun _ h => h
  exact ⟨hfirst.selectOnly honly, fun a ha => honly.subset a (mem_selectAlways.mpr (.inr ha))⟩

theorem Round.subset (h : s.Round mainAddress N2) : ∀ tuple ∈ N2, tuple ∈ s.twoHopNeighbors mainAddress := by
  induction h with
  | start => exact (progress_beforeRest s mainAddress).1.covers.subset
  | next _ _ ih => exact fun tuple ht => ih tuple (mem_coverTwoHopNeighbors.mp ht).1

/-! ### The computation -/

theorem considered_of_mem (h : s.mprComputation mainAddress rounds = some mprSet) (ha : a ∈ mprSet) :
    s.FirstWilling a ∨ s.AlwaysWilling a := by
  have hfirst : ∀ tuple ∈ s.twoHopNeighbors mainAddress, s.FirstWilling tuple.neighborMainAddr :=
    fun tuple ht => (mem_twoHopNeighbors_iff.mp ht).2.2.1
  rcases mem_selectRest .start h ha with hbefore | ⟨N2, max, r, hround, hmax, rfl⟩
  · rcases mem_selectOnly hbefore with halways | ⟨tuple, ht, rfl⟩
    · exact .inr ((mem_selectAlways.mp halways).resolve_left (Finset.notMem_empty a))
    · exact .inl (hfirst tuple ((progress_selectAlways s mainAddress).covers.subset tuple ht))
  · rcases foldl_better.2 _ hmax with hnone | hmem
    · cases hnone
    · obtain ⟨-, hr, hpos⟩ := mem_candidates.mp hmem
      obtain ⟨tuple, ht, hmain⟩ := reachability_ne_zero.mp (hr ▸ hpos)
      exact .inl (hmain ▸ hfirst tuple (hround.subset tuple ht))

/-- Whatever the neighbour set is, the computation ends, its MPRs are willing, and what is reached through an address
whose first tuple is willing, or one of whose tuples is always willing, is reached through an MPR. -/
theorem reaches_of_considered (s : OlsrState) (mainAddress : Ipv4Address) :
    ∃ rounds mprSet, s.mprComputation mainAddress rounds = some mprSet ∧ (∀ a ∈ mprSet, s.Willing a) ∧
      ∀ tuple ∈ s.twoHopNeighborSet, s.ToReach mainAddress tuple.twoHopNeighborAddr →
        s.FirstWilling tuple.neighborMainAddr ∨ s.AlwaysWilling tuple.neighborMainAddr →
          ∃ other ∈ s.twoHopNeighborSet, other.twoHopNeighborAddr = tuple.twoHopNeighborAddr ∧
            other.neighborMainAddr ∈ mprSet := by
  obtain ⟨hbefore, halways⟩ := progress_beforeRest s mainAddress
  obtain ⟨mprSet, hend, hprogress⟩ := hbefore.selectRest (fun _ => willing_of_mem) (Nat.le_refl _)
  refine ⟨_, mprSet, hend, hprogress.willing, ?_⟩
  rintro tuple htuple ha (hfirst | hwilling)
  · have hrecord := mem_twoHopNeighbors_iff.mpr ⟨htuple, ha.1, hfirst, ha.2.1⟩
    obtain ⟨other, hother, hmpr, hwhat⟩ := hprogress.covers.complete hrecord
    exact ⟨other, (mem_twoHopNeighbors_iff.mp hother).1, hwhat, hmpr⟩
  · exact ⟨tuple, htuple, rfl, subset_selectRest hend (halways _ hwilling)⟩

/-- What has to be reached is reached through an MPR if and only if it is reached through an address whose first tuple
is willing, or one of whose tuples is always willing. -/
theorem reaches_iff (s : OlsrState) (mainAddress : Ipv4Address) :
    ∃ rounds mprSet, s.mprComputation mainAddress rounds = some mprSet ∧ (∀ a ∈ mprSet, s.Willing a) ∧
      ∀ a, s.ToReach mainAddress a →
        ((∃ tuple ∈ s.twoHopNeighborSet, tuple.twoHopNeighborAddr = a ∧ tuple.neighborMainAddr ∈ mprSet) ↔
          ∃ tuple ∈ s.twoHopNeighborSet, tuple.twoHopNeighborAddr = a ∧
            (s.FirstWilling tuple.neighborMainAddr ∨ s.AlwaysWilling tuple.neighborMainAddr)) := by
  obtain ⟨rounds, mprSet, hend, hwilling, hreaches⟩ := reaches_of_considered s mainAddress
  refine ⟨rounds, mprSet, hend, hwilling, fun a ha => ⟨?_, ?_⟩⟩
  · rintro ⟨tuple, htuple, haddr, hmpr⟩
    exact ⟨tuple, htuple, haddr, considered_of_mem hend hmpr⟩
  · rintro ⟨tuple, htuple, rfl, hconsidered⟩
    exact hreaches tuple htuple ha hconsidered

/-- Everything that has to be reached is reached through an MPR if and only if it is reached through an address whose
first tuple is willing, or one of whose tuples is always willing. -/
theorem coversTwoHops_iff (s : OlsrState) (mainAddress : Ipv4Address) :
    s.CoversTwoHops mainAddress ↔ ∀ a, s.ToReach mainAddress a →
      ∃ tuple ∈ s.twoHopNeighborSet, tuple.twoHopNeighborAddr = a ∧
        (s.FirstWilling tuple.neighborMainAddr ∨ s.AlwaysWilling tuple.neighborMainAddr) := by
  constructor
  · rintro ⟨rounds, mprSet, hend, -, hreaches⟩ a ha
    obtain ⟨tuple, htuple, haddr, hmpr⟩ := hreaches a ha
    exact ⟨tuple, htuple, haddr, considered_of_mem hend hmpr⟩
  · intro hconsidered
    obtain ⟨rounds, mprSet, hend, hwilling, hreaches⟩ := reaches_of_considered s mainAddress
    refine ⟨rounds, mprSet, hend, hwilling, fun a ha => ?_⟩
    obtain ⟨tuple, htuple, rfl, haddr⟩ := hconsidered a ha
    exact hreaches tuple htuple ha haddr

/-- Two tuples with the main address 2, of which the second is willing, and a neighbour of it. -/
def twoTuples : OlsrState where
  linkSet := []
  neighborSet := [⟨⟨2⟩, .sym, willNever⟩, ⟨⟨2⟩, .sym, 3⟩]
  twoHopNeighborSet := [⟨⟨2⟩, ⟨10⟩⟩]
  topologySet := []
  ifaceAssocSet := []

/-- No MPR reaches node 10. -/
theorem not_coversTwoHops_twoTuples : ¬ ∀ s mainAddress, CoversTwoHops s mainAddress := by
  intro h
  obtain ⟨rounds, mprSet, hend, -, hreaches⟩ := h twoTuples ⟨1⟩
  have hreach : twoTuples.ToReach ⟨1⟩ ⟨10⟩ :=
    ⟨by decide, by decide, ⟨⟨2⟩, ⟨10⟩⟩, .head _, rfl, ⟨⟨2⟩, .sym, 3⟩, .tail _ (.head _), rfl, rfl, by decide⟩
  obtain ⟨tuple, htuple, -, hmpr⟩ := hreaches _ hreach
  obtain rfl := List.mem_singleton.mp htuple
  rcases considered_of_mem hend hmpr with ⟨neigh, hfirst, hwilling⟩ | ⟨neigh, hmem, -, halways⟩
  · exact hwilling (Option.some.inj hfirst ▸ rfl)
  · have hnone : ∀ neigh ∈ twoTuples.symNeighbors, neigh.willingness ≠ willAlways := by decide
    exact hnone neigh hmem halways

/-! ### One tuple for each main address -/

/-- With one tuple for each main address, the first one is the willing one. -/
theorem Willing.firstWilling (h : s.Willing a) (hunique : s.UniqueNeighbors) : s.FirstWilling a := by
  obtain ⟨neighbor, hmem, rfl, hwilling⟩ := willing_iff.mp h
  cases hfind : s.symNeighbors.find? fun neigh => neigh.neighborMainAddr = neighbor.neighborMainAddr with
  | none => simpa using List.find?_eq_none.mp hfind neighbor hmem
  | some other =>
    have hother : other ∈ s.neighborSet := (mem_symNeighbors.mp (List.mem_of_find?_eq_some hfind)).1
    have haddr : other.neighborMainAddr = neighbor.neighborMainAddr := by simpa using List.find?_some hfind
    obtain rfl := List.inj_on_of_nodup_map hunique hother (mem_symNeighbors.mp hmem).1 haddr
    exact ⟨other, hfind, hwilling⟩

theorem coversTwoHops_of_unique (hunique : s.UniqueNeighbors) (mainAddress : Ipv4Address) :
    s.CoversTwoHops mainAddress := by
  obtain ⟨rounds, mprSet, hend, hwilling, hreaches⟩ := reaches_of_considered s mainAddress
  refine ⟨rounds, mprSet, hend, hwilling, fun a ha => ?_⟩
  obtain ⟨-, -, tuple, htuple, rfl, haddr⟩ := id ha
  exact hreaches tuple htuple ha (.inl (haddr.firstWilling hunique))

end Ns3.Olsr.OlsrState
