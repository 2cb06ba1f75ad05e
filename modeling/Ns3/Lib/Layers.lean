import Mathlib.Order.Nat

/-!
# Searching a graph layer by layer

A search that starts from points at known distances, and then for one distance after the other adds the points that an
edge leads to from a point at that distance.

* `Path` — a point is reached over a number of edges from a start with its distance; `Shortest` — and not over fewer.
* `Explored` — all points up to a distance are found; `Explored.layer` — so they are up to the next one when a `Layer`
  is added, and `Explored.shortest` — all are found at their distances when there is nothing to add.
-/

namespace Ns3.Lib

universe u

variable {V : Type u}

/-- A point is reached from a start, whose distance is the length of the path so far. -/
inductive Path (start : V → ℕ → Prop) (edge : V → V → Prop) : V → ℕ → Prop where
  | start {a : V} {k : ℕ} : start a k → Path start edge a k
  | edge {a b : V} {k : ℕ} : Path start edge b k → edge b a → Path start edge a (k + 1)

/-- The length of the shortest paths to a point. -/
def Shortest (start : V → ℕ → Prop) (edge : V → V → Prop) (a : V) (k : ℕ) : Prop :=
  Path start edge a k ∧ ∀ k', Path start edge a k' → k ≤ k'

/-- What is found is reached, and all that is reached up to a distance is found. -/
structure Explored (start : V → ℕ → Prop) (edge : V → V → Prop) (dist : V → Option ℕ) (h : ℕ) : Prop where
  /-- A distance is the length of a path. -/
  path : ∀ a k, dist a = some k → Path start edge a k
  /-- There are no greater distances. -/
  le : ∀ a k, dist a = some k → k ≤ h
  reached : ∀ a k, Path start edge a k → k ≤ h → ∃ k' ≤ k, dist a = some k'

/-- The next layer is added. -/
structure Layer (edge : V → V → Prop) (dist dist' : V → Option ℕ) (h : ℕ) : Prop where
  kept : ∀ a k, dist a = some k → dist' a = some k
  /-- What is new is reached by an edge. -/
  new : ∀ a k, dist' a = some k → dist a = some k ∨ k = h + 1 ∧ ∃ b, dist b = some h ∧ edge b a
  /-- What an edge leads to is found. -/
  next : ∀ a b, dist b = some h → edge b a → (dist' a).isSome

variable {start : V → ℕ → Prop} {edge : V → V → Prop} {dist dist' : V → Option ℕ} {h : ℕ}

theorem Explored.layer (hd : Explored start edge dist h) (hstart : ∀ a k, start a k → k ≤ h)
    (hlayer : Layer edge dist dist' h) : Explored start edge dist' (h + 1) where
  path a k hk := by
    rcases hlayer.new a k hk with hold | ⟨rfl, b, hb, hedge⟩
    · exact hd.path a k hold
    · exact .edge (hd.path b h hb) hedge
  le a k hk := by
    rcases hlayer.new a k hk with hold | ⟨rfl, -⟩
    · exact Nat.le_succ_of_le (hd.le a k hold)
    · exact le_refl _
  reached a k hpath hle := by
    have hold : ∀ k', Path start edge a k' → k' ≤ h → ∃ k'' ≤ k', dist' a = some k'' := by
      intro k' hpath' hle'
      obtain ⟨k'', hk'', hdist⟩ := hd.reached a k' hpath' hle'
      exact ⟨k'', hk'', hlayer.kept a k'' hdist⟩
    cases hpath with
    | start hs => exact hold k (.start hs) (hstart a k hs)
    | @edge _ b k hb hedge =>
      obtain ⟨k', hk', hdist⟩ := hd.reached b k hb (Nat.le_of_succ_le_succ hle)
      rcases Nat.lt_or_ge k' h with hlt | hge
      · obtain ⟨k'', hk'', hdist'⟩ := hold (k' + 1) (.edge (hd.path b k' hdist) hedge) hlt
        exact ⟨k'', hk''.trans (Nat.succ_le_succ hk'), hdist'⟩
      · obtain rfl := Nat.le_antisymm (hd.le b k' hdist) hge
        obtain ⟨k'', hdist'⟩ := Option.isSome_iff_exists.mp (hlayer.next a b hdist hedge)
        refine ⟨k'', ?_, hdist'⟩
        rcases hlayer.new a k'' hdist' with hk'' | ⟨rfl, -⟩
        · exact (hd.le a k'' hk'').trans (Nat.le_succ_of_le hk')
        · exact Nat.succ_le_succ hk'

/-- When there is nothing to add, all that is reached is found. -/
theorem Explored.done (hd : Explored start edge dist h) (hstart : ∀ a k, start a k → k ≤ h)
    (hdone : ∀ a b, dist b = some h → edge b a → (dist a).isSome) {a : V} {k : ℕ} (hpath : Path start edge a k) :
    ∃ k' ≤ k, dist a = some k' := by
  induction hpath with
  | start hs => exact hd.reached _ _ (.start hs) (hstart _ _ hs)
  | @edge a b k _ hedge ih =>
    obtain ⟨k', hk', hdist⟩ := ih
    rcases Nat.lt_or_ge k' h with hlt | hge
    · obtain ⟨k'', hk'', hdist'⟩ := hd.reached a (k' + 1) (.edge (hd.path b k' hdist) hedge) hlt
      exact ⟨k'', hk''.trans (Nat.succ_le_succ hk'), hdist'⟩
    · obtain rfl := Nat.le_antisymm (hd.le b k' hdist) hge
      obtain ⟨k'', hdist'⟩ := Option.isSome_iff_exists.mp (hdone a b hdist hedge)
      exact ⟨k'', (hd.le a k'' hdist').trans (Nat.le_succ_of_le hk'), hdist'⟩

theorem Explored.shortest (hd : Explored start edge dist h) (hstart : ∀ a k, start a k → k ≤ h)
    (hdone : ∀ a b, dist b = some h → edge b a → (dist a).isSome) {a : V} {k : ℕ} :
    dist a = some k ↔ Shortest start edge a k := by
  constructor
  · intro hk
    refine ⟨hd.path a k hk, fun k' hpath => ?_⟩
    obtain ⟨k'', hk'', hdist⟩ := hd.done hstart hdone hpath
    obtain rfl := Option.some.inj (hk.symm.trans hdist)
    exact hk''
  · rintro ⟨hpath, hleast⟩
    obtain ⟨k', hk', hdist⟩ := hd.done hstart hdone hpath
    obtain rfl := Nat.le_antisymm hk' (hleast k' (hd.path a k' hdist))
    exact hdist

end Ns3.Lib
