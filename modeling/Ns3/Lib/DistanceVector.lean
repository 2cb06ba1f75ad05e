import Mathlib.Data.Prod.Lex

/-!
# Distance vectors with sequence numbers

Nodes that learn routes from each other: what a node says of a destination is a number that the destination gave out,
and how far the node is from it. A route by a node is feasible if that node has said something better than all that the
node with the route has said itself. Where all routes are feasible they have no cycle: along a cycle each node would
have said something better than all that the one before it has, and the first one something better than itself.

* `Label` — a number and a distance, where a label with a greater number, or the same and a smaller distance, is better.
* `View.Sound` — all routes are feasible; `Sound.step` — so they are after a step of one node that `View.Step` allows.
* `Sound.acyclic` — there are no cycles.
-/

namespace Ns3.Lib

universe u v

/-- A number and a distance. -/
@[ext]
structure Label where
  number : ℕ
  distance : ℕ

namespace Label

/-- The smaller of two labels has the smaller number, or the same number and the greater distance. -/
instance : LinearOrder Label :=
  LinearOrder.lift' (fun l => toLex (l.number, OrderDual.toDual l.distance)) fun a b h => by
    have hpair := toLex.injective h
    exact Label.ext (congrArg Prod.fst hpair) (OrderDual.toDual.injective (congrArg Prod.snd hpair))

theorem le_iff {a b : Label} : a ≤ b ↔ a.number < b.number ∨ a.number = b.number ∧ b.distance ≤ a.distance :=
  Prod.Lex.toLex_le_toLex

theorem lt_iff {a b : Label} : a < b ↔ a.number < b.number ∨ a.number = b.number ∧ b.distance < a.distance :=
  Prod.Lex.toLex_lt_toLex

end Label

/-- What nodes have said, and their routes, for each destination. -/
structure View (ι : Type u) (δ : Type v) where
  claims : ι → δ → Label → Prop
  /-- A node has a route by another one, with a label. -/
  route : ι → δ → ι → Label → Prop

namespace View

variable {ι : Type u} {δ : Type v} {v v' : View ι δ} {i : ι}

/-- All that a node has said of a destination is worse. -/
def Feasible (v : View ι δ) (i : ι) (d : δ) (c : Label) : Prop := ∀ c', v.claims i d c' → c' < c

/-- Another node has said better than the label, and than all that the node has said. -/
def Backed (v : View ι δ) (i : ι) (d : δ) (j : ι) (l : Label) : Prop :=
  ∃ c, v.claims j d c ∧ l < c ∧ v.Feasible i d c

/-- All routes are feasible. -/
def Sound (v : View ι δ) : Prop := ∀ i d j l, v.route i d j l → v.Backed i d j l

/-- What a node may do: what was said stays so, a new route is feasible, and what the node says is not better than the
routes that it has then. -/
structure Step (i : ι) (v v' : View ι δ) : Prop where
  claims : ∀ j d c, v.claims j d c → v'.claims j d c
  claims_other : ∀ j d c, j ≠ i → v'.claims j d c → v.claims j d c
  /-- Other nodes keep their routes. -/
  route_other : ∀ j, j ≠ i → v'.route j = v.route j
  route : ∀ d j l, v'.route i d j l → v.route i d j l ∨ v.Backed i d j l
  said : ∀ d c, v'.claims i d c → v.claims i d c ∨ ∀ j l, v'.route i d j l → c ≤ l

theorem Sound.step (hv : v.Sound) (h : Step i v v') : v'.Sound := by
  intro k d j l hroute
  by_cases hk : k = i
  · subst hk
    obtain ⟨c, hc, hlt, hfeasible⟩ : v.Backed k d j l := (h.route d j l hroute).elim (hv k d j l) id
    refine ⟨c, h.claims j d c hc, hlt, fun c' hc' => ?_⟩
    rcases h.said d c' hc' with hold | hnew
    · exact hfeasible c' hold
    · exact (hnew j l hroute).trans_lt hlt
  · rw [h.route_other k hk] at hroute
    obtain ⟨c, hc, hlt, hfeasible⟩ := hv k d j l hroute
    exact ⟨c, h.claims j d c hc, hlt, fun c' hc' => hfeasible c' (h.claims_other k d c' hk hc')⟩

/-- What is said gets better along the routes, so that these have no cycle. -/
theorem Sound.acyclic (hv : v.Sound) (d : δ) (i : ι) : ¬ Relation.TransGen (fun i j => ∃ l, v.route i d j l) i i := by
  have hbetter : ∀ j, Relation.TransGen (fun i j => ∃ l, v.route i d j l) i j →
      ∃ c, v.claims j d c ∧ v.Feasible i d c := by
    intro j hj
    induction hj with
    | single hn =>
      obtain ⟨l, hl⟩ := hn
      obtain ⟨c, hc, -, hfeasible⟩ := hv _ _ _ l hl
      exact ⟨c, hc, hfeasible⟩
    | tail _ hn ih =>
      obtain ⟨l, hl⟩ := hn
      obtain ⟨c, hc, hfeasible⟩ := ih
      obtain ⟨c', hc', -, hnext⟩ := hv _ _ _ l hl
      exact ⟨c', hc', fun a ha => (hfeasible a ha).trans (hnext c hc)⟩
  intro hcycle
  obtain ⟨c, hc, hfeasible⟩ := hbetter i hcycle
  exact lt_irrefl c (hfeasible c hc)

end View

end Ns3.Lib
