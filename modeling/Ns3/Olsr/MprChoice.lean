import Mathlib.Data.Finset.Card
import Mathlib.Data.List.Find
import Mathlib.Data.List.MinMax
import Mathlib.Data.Prod.Lex
import Ns3.Olsr.MprComputation

/-!
# The choice of MPRs

The neighbours that the fourth step of `MprComputation` chooses. `Degree` looks up the neighbour that a 2-hop tuple goes
through, where RFC 3626 asks for the 2-hop address, so that it is 0 for each neighbour and decides nothing.

* `selectMax_eq` — the first neighbour is chosen, of those with the greatest willingness and then the most tuples.
* `greedy_iff` — when that is the neighbour that RFC 3626 wants.
-/

namespace Ns3.Olsr

open Lib

section Argmax

variable {α β : Type} [LinearOrder β] {f : α → β} {l : List α} {m : α}

/-- A pass finds the first of the greatest. -/
theorem exists_append_of_argmax (h : l.argmax f = some m) :
    ∃ u v, l = u ++ m :: v ∧ (∀ b ∈ u, f b < f m) ∧ ∀ b ∈ v, f b ≤ f m := by
  induction l using List.reverseRecOn generalizing m with
  | nil => cases h
  | append_singleton l a ih =>
    rw [List.argmax_concat] at h
    cases hl : l.argmax f with
    | none =>
      rw [hl] at h
      cases h
      rw [List.argmax_eq_none.mp hl]
      exact ⟨[], [], rfl, fun b hb => absurd hb List.not_mem_nil, fun b hb => absurd hb List.not_mem_nil⟩
    | some c =>
      obtain ⟨u, v, rfl, hu, hv⟩ := ih hl
      rw [hl] at h
      dsimp only at h
      split_ifs at h with hlt
      · cases h
        refine ⟨u ++ c :: v, [], rfl, fun b hb => ?_, fun b hb => absurd hb List.not_mem_nil⟩
        exact lt_of_le_of_lt (List.le_of_mem_argmax hb hl) hlt
      · cases h
        refine ⟨u, v ++ [a], by simp, hu, fun b hb => ?_⟩
        rcases List.mem_append.mp hb with hb | hb
        · exact hv b hb
        · rw [List.mem_singleton.mp hb]
          exact not_lt.mp hlt

theorem argmax_eq_find? (f : α → β) (l : List α) : l.argmax f = l.find? fun a => ∀ b ∈ l, f b ≤ f a := by
  cases h : l.argmax f with
  | none => rw [List.argmax_eq_none.mp h, List.find?_nil]
  | some m =>
    obtain ⟨u, v, hl, hu, -⟩ := exists_append_of_argmax h
    refine (List.find?_eq_some_iff_append.mpr ⟨?_, u, v, hl, fun a ha => ?_⟩).symm
    · exact decide_eq_true fun b hb => List.le_of_mem_argmax hb h
    · have hm : m ∈ l := List.argmax_mem h
      rw [Bool.not_eq_true', decide_eq_false_iff_not]
      exact fun hall => not_le.mpr (hu a ha) (hall m hm)

end Argmax

namespace OlsrState

variable (s : OlsrState) (N2 : List TwoHopNeighborTuple)

variable (neighbor : NeighborTuple)

/-- The degree of RFC 3626: the 2-hop tuples of a neighbour whose 2-hop address is not a neighbour. -/
def rfcDegree : ℕ :=
  (s.twoHopNeighborSet.filter fun nb2hop =>
    nb2hop.neighborMainAddr = neighbor.neighborMainAddr ∧
      s.findNeighborTuple nb2hop.twoHopNeighborAddr = none).length

/-- The 2-hop nodes of a neighbour that are not covered yet. -/
def uncovered : ℕ :=
  ((N2.filter fun tuple => neighbor.neighborMainAddr = tuple.neighborMainAddr).map
    TwoHopNeighborTuple.twoHopNeighborAddr).toFinset.card

/-- What RFC 3626 compares: the willingness, then the reachability, then the degree. -/
def rank : ℕ ×ₗ ℕ ×ₗ ℕ :=
  toLex (neighbor.willingness.toNat, toLex (uncovered N2 neighbor, s.rfcDegree neighbor))

/-- The choice that RFC 3626 wants. -/
def Greedy (max : NeighborTuple) : Prop :=
  max ∈ s.symNeighbors ∧ uncovered N2 max ≠ 0 ∧
    ∀ other ∈ s.symNeighbors, uncovered N2 other ≠ 0 → s.rank N2 other ≤ s.rank N2 max

/-- What the fourth step compares. -/
def key (x : NeighborTuple × ℕ) : ℕ ×ₗ ℕ := toLex (x.1.willingness.toNat, x.2)

/-- The first neighbour of the greatest willingness, and then with the most tuples, among those with some. -/
def first : Option NeighborTuple :=
  s.symNeighbors.find? fun neighbor => reachability N2 neighbor ≠ 0 ∧
    ∀ other ∈ s.symNeighbors, reachability N2 other ≠ 0 →
      key (other, reachability N2 other) ≤ key (neighbor, reachability N2 neighbor)

/-- No neighbour that is as willing as the first one reaches more nodes, or as many and has a greater degree. -/
def FirstIsGreatest : Prop :=
  ∀ first ∈ s.first N2, ∀ other ∈ s.symNeighbors, uncovered N2 other ≠ 0 →
    other.willingness = first.willingness →
    uncovered N2 other < uncovered N2 first ∨
      uncovered N2 other = uncovered N2 first ∧ s.rfcDegree other ≤ s.rfcDegree first

variable {s N2}

theorem degree_eq_zero {neighbor : NeighborTuple} (h : neighbor ∈ s.neighborSet) : s.degree neighbor = 0 := by
  rw [degree, List.length_eq_zero_iff, List.filter_eq_nil_iff]
  intro nb2hop _ hcounts
  obtain ⟨haddr, hnone⟩ := of_decide_eq_true hcounts
  rw [haddr, findNeighborTuple, List.find?_eq_none] at hnone
  exact hnone neighbor h (decide_eq_true rfl)

theorem better_eq {best x : NeighborTuple × ℕ} (hbest : best.1 ∈ s.neighborSet) (hx : x.1 ∈ s.neighborSet) :
    s.better (some best) x = if key best < key x then some x else some best := by
  rw [better, degree_eq_zero hbest, degree_eq_zero hx]
  simp only [key, Prod.Lex.toLex_lt_toLex, UInt8.lt_iff_toNat_lt, ← UInt8.toNat_inj]
  split_ifs <;> first | rfl | omega

theorem foldl_better_eq {l : List (NeighborTuple × ℕ)} (hl : ∀ x ∈ l, x.1 ∈ s.neighborSet) :
    l.foldl s.better none = l.argmax key := by
  induction l using List.reverseRecOn with
  | nil => rfl
  | append_singleton l x ih =>
    rw [List.foldl_concat, List.argmax_concat, ih fun y hy => hl y (List.mem_append_left _ hy)]
    cases h : l.argmax key with
    | none => rfl
    | some best =>
      have hbest := hl best (List.mem_append_left _ (List.argmax_mem h))
      exact better_eq hbest (hl x (List.mem_append_right _ (List.mem_singleton_self _)))

/-- What the fourth step chooses. -/
theorem selectMax_eq : s.selectMax N2 = (s.first N2).map fun neighbor => (neighbor, reachability N2 neighbor) := by
  have hall : ∀ x ∈ s.candidates N2, x.1 ∈ s.neighborSet := fun x hx => (mem_symNeighbors.mp (mem_candidates.mp hx).1).1
  rw [selectMax, foldl_better_eq hall, argmax_eq_find?]
  have hgreatest : ∀ x, (∀ y ∈ s.candidates N2, key y ≤ key x) ↔
      ∀ other ∈ s.symNeighbors, reachability N2 other ≠ 0 → key (other, reachability N2 other) ≤ key x := by
    intro x
    constructor
    · exact fun h other hother hne => h _ (mem_candidates.mpr ⟨hother, rfl, hne⟩)
    · rintro h ⟨n, r⟩ hy
      obtain ⟨hn, hr, hne⟩ := mem_candidates.mp hy
      dsimp only at hn hr hne
      subst hr
      exact h n hn hne
  simp only [hgreatest]
  cases h : (s.candidates N2).find? fun x => ∀ other ∈ s.symNeighbors, reachability N2 other ≠ 0 →
      key (other, reachability N2 other) ≤ key x with
  | none =>
    rw [List.find?_eq_none] at h
    have hnone : s.first N2 = none := by
      rw [first, List.find?_eq_none]
      intro n hn hbest
      obtain ⟨hne, hbest⟩ := of_decide_eq_true hbest
      exact h (n, _) (mem_candidates.mpr ⟨hn, rfl, hne⟩) (decide_eq_true hbest)
    rw [hnone]
    rfl
  | some x =>
    obtain ⟨m, r⟩ := x
    have hmax := List.find?_some h
    rw [decide_eq_true_eq] at hmax
    obtain ⟨-, hr, hne⟩ := mem_candidates.mp (List.mem_of_find?_eq_some h)
    dsimp only at hr hne
    -- the first one is in the group of its reachability, and those are in the order of the neighbours
    rw [candidates, List.find?_flatMap] at h
    obtain ⟨before, r', after, hrs, hgroup, -⟩ := List.findSome?_eq_some_iff.mp h
    rw [List.find?_map, List.find?_filter] at hgroup
    obtain ⟨m', hm', heq⟩ := Option.map_eq_some_iff.mp hgroup
    obtain ⟨rfl, rfl⟩ := Prod.mk.inj heq
    have hfirst : s.first N2 = some m' := by
      rw [← hm', first]
      refine List.find?_congr fun n hn => ?_
      simp only [Function.comp, decide_eq_true_eq, decide_eq_decide]
      constructor
      · rintro ⟨hnpos, hbest⟩
        have hle := hmax n hn hnpos
        have hge := hbest m' (List.mem_of_find?_eq_some hm') (hr ▸ hne)
        rw [hr] at hge
        have hsame : reachability N2 n = r' := (Prod.mk.inj (toLex.injective (le_antisymm hle hge))).2
        exact ⟨hsame, hsame ▸ hbest⟩
      · rintro ⟨rfl, hbest⟩
        exact ⟨hne, hbest⟩
    rw [hfirst, Option.map_some, hr]

theorem uncovered_ne_zero {neighbor : NeighborTuple} : uncovered N2 neighbor ≠ 0 ↔ reachability N2 neighbor ≠ 0 := by
  rw [uncovered, reachability, Ne, Finset.card_eq_zero, List.toFinset_eq_empty_iff, List.map_eq_nil_iff, Ne,
    List.length_eq_zero_iff]

/-- When the first neighbour is the one that RFC 3626 wants. -/
theorem greedy_first_iff {max : NeighborTuple} (h : s.first N2 = some max) :
    s.Greedy N2 max ↔ s.FirstIsGreatest N2 := by
  have hmem := List.mem_of_find?_eq_some h
  have hbest := List.find?_some h
  rw [decide_eq_true_eq] at hbest
  obtain ⟨hne, hbest⟩ := hbest
  rw [Greedy, FirstIsGreatest, and_iff_right hmem, and_iff_right (uncovered_ne_zero.mpr hne), h]
  simp only [Option.mem_def, Option.some.injEq, forall_eq']
  refine forall₃_congr fun other hother hpos => ?_
  have hle := hbest other hother (uncovered_ne_zero.mp hpos)
  simp only [key, rank, Prod.Lex.toLex_le_toLex, ← UInt8.toNat_inj] at hle ⊢
  constructor
  · rintro (hlt | ⟨heq, hrest⟩) hsame
    · omega
    · exact hrest
  · intro hrest
    rcases hle with hlt | ⟨heq, -⟩
    · exact .inl hlt
    · exact .inr ⟨heq, hrest heq⟩

/-! ### The rounds -/

/-- The MPRs that the steps before the fourth select, and what is left of `N2` then. -/
def beforeRest (s : OlsrState) (mainAddress : Ipv4Address) : Finset Ipv4Address × List TwoHopNeighborTuple :=
  let (mprSet, N2) := s.symNeighbors.foldl selectAlways (∅, s.twoHopNeighbors mainAddress)
  let (mprSet, covered) := N2.foldl (selectOnly N2) (mprSet, ∅)
  (mprSet, N2.filter fun tuple => tuple.twoHopNeighborAddr ∉ covered)

/-- What `N2` is in the rounds of the fourth step. -/
inductive Round (s : OlsrState) (mainAddress : Ipv4Address) : List TwoHopNeighborTuple → Prop
  | start : Round s mainAddress (s.beforeRest mainAddress).2
  | next {N2 : List TwoHopNeighborTuple} {max : NeighborTuple} {r : ℕ} (h : Round s mainAddress N2)
      (hmax : s.selectMax N2 = some (max, r)) : Round s mainAddress (coverTwoHopNeighbors max.neighborMainAddr N2)

/-- The MPRs of the fourth step are those that its rounds choose. -/
theorem mem_selectRest {rounds : ℕ} {mprSet mprSet' : Finset Ipv4Address} {a : Ipv4Address}
    (hround : s.Round mainAddress N2) (h : s.selectRest rounds mprSet N2 = some mprSet') (ha : a ∈ mprSet') :
    a ∈ mprSet ∨ ∃ N2 max r, s.Round mainAddress N2 ∧ s.selectMax N2 = some (max, r) ∧ max.neighborMainAddr = a := by
  induction rounds generalizing N2 mprSet with
  | zero =>
    cases N2 with
    | nil =>
      cases h
      exact .inl ha
    | cons => cases h
  | succ rounds ih =>
    cases N2 with
    | nil =>
      rw [selectRest] at h
      cases h
      exact .inl ha
    | cons first rest =>
      rw [selectRest] at h
      cases hmax : s.selectMax (first :: rest) with
      | none =>
        rw [hmax] at h
        exact ih hround h
      | some x =>
        obtain ⟨max, r⟩ := x
        rw [hmax] at h
        rcases ih (hround.next hmax) h with hmem | hmem
        · rcases Finset.mem_insert.mp hmem with rfl | hmem
          · exact .inr ⟨_, max, r, hround, hmax, rfl⟩
          · exact .inl hmem
        · exact .inr hmem

/-- The MPRs that are not selected before are chosen in rounds, and a round chooses as RFC 3626 wants exactly if no
neighbour is to be preferred to the first one for its degree or its nodes. -/
theorem greedy_iff (s : OlsrState) (mainAddress : Ipv4Address) :
    (∀ rounds mprSet, s.mprComputation mainAddress rounds = some mprSet → ∀ a ∈ mprSet,
      a ∈ (s.beforeRest mainAddress).1 ∨
        ∃ N2 max r, s.Round mainAddress N2 ∧ s.selectMax N2 = some (max, r) ∧ max.neighborMainAddr = a) ∧
    ∀ N2 max r, s.Round mainAddress N2 → s.selectMax N2 = some (max, r) →
      (s.Greedy N2 max ↔ s.FirstIsGreatest N2) := by
  refine ⟨fun rounds mprSet h a ha => mem_selectRest .start h ha, fun N2 max r _ hmax => ?_⟩
  rw [selectMax_eq] at hmax
  obtain ⟨first, hfirst, heq⟩ := Option.map_eq_some_iff.mp hmax
  obtain ⟨rfl, -⟩ := Prod.mk.inj heq
  exact greedy_first_iff hfirst

/-- Two neighbours that reach one node more, of which the second has a greater degree, and one that is always
willing. -/
def tie : OlsrState where
  linkSet := []
  neighborSet := [⟨⟨2⟩, .sym, 3⟩, ⟨⟨3⟩, .sym, 3⟩, ⟨⟨4⟩, .sym, willAlways⟩]
  twoHopNeighborSet := [⟨⟨2⟩, ⟨10⟩⟩, ⟨⟨3⟩, ⟨10⟩⟩, ⟨⟨3⟩, ⟨12⟩⟩, ⟨⟨4⟩, ⟨12⟩⟩]
  topologySet := []
  ifaceAssocSet := []

theorem not_greedy_tie :
    ∃ N2 max r, tie.Round ⟨1⟩ N2 ∧ tie.selectMax N2 = some (max, r) ∧ ¬ tie.Greedy N2 max := by
  refine ⟨_, ⟨⟨2⟩, .sym, 3⟩, 1, .start, by decide +kernel, fun hgreedy => ?_⟩
  have hle := hgreedy.2.2 ⟨⟨3⟩, .sym, 3⟩ (by decide +kernel) (by decide +kernel)
  exact absurd hle (by decide +kernel)

end OlsrState

end Ns3.Olsr
