import Mathlib.Algebra.BigOperators.Group.List.Basic
import Mathlib.Algebra.Order.Ring.Nat

/-!
# Tallies over a store of records

A program keeps its records in a list and refers to each by its place. A quantity that the
records contribute to — how many of them hold a reference, how often they ask for a route — is
the `tally` of their contributions. The lemmas say what happens to a tally when a record is
added or replaced; an accounting invariant `counter = tally f store` is then kept by a step when
the counter and the one record that changed agree.
-/

namespace Ns3.Lib

universe u

variable {α : Type u}

/-- The sum of what the records of a store contribute. -/
def tally (f : α → ℕ) (l : List α) : ℕ := (l.map f).sum

@[simp] theorem tally_nil (f : α → ℕ) : tally f [] = 0 := rfl

@[simp] theorem tally_cons (f : α → ℕ) (x : α) (l : List α) : tally f (x :: l) = f x + tally f l := by
  simp [tally]

@[simp] theorem tally_append (f : α → ℕ) (l₁ l₂ : List α) :
    tally f (l₁ ++ l₂) = tally f l₁ + tally f l₂ := by
  simp [tally]

variable {l : List α} {f : α → ℕ}

/-- A record contributes at most the whole. -/
theorem le_tally {x : α} (h : x ∈ l) : f x ≤ tally f l := by
  obtain ⟨l₁, l₂, rfl⟩ := List.append_of_mem h
  rw [tally_append, tally_cons]
  omega

/-- A store of records that contribute at most one each tallies at most its length. -/
theorem tally_le_length (h : ∀ x ∈ l, f x ≤ 1) : tally f l ≤ l.length := by
  induction l with
  | nil => simp
  | cons x l ih =>
    have hx := h x List.mem_cons_self
    have hl := ih fun y hy => h y (List.mem_cons_of_mem _ hy)
    rw [tally_cons, List.length_cons]
    omega

/-- Contributions that agree on every record tally the same. -/
theorem tally_congr {f g : α → ℕ} (h : ∀ x ∈ l, f x = g x) : tally f l = tally g l := by
  rw [tally, tally, List.map_congr_left h]

/-- Replacing a record replaces its contribution. -/
theorem tally_set {p : ℕ} {x : α} (h : l[p]? = some x) (y : α) : tally f (l.set p y) + f x = tally f l + f y := by
  induction l generalizing p with
  | nil => simp at h
  | cons a l ih =>
    cases p with
    | zero =>
      rw [List.getElem?_cons_zero, Option.some.injEq] at h
      subst h
      simp only [List.set_cons_zero, tally_cons]
      omega
    | succ p =>
      have := ih h
      simp only [List.set_cons_succ, tally_cons]
      omega

/-- Replacing a record by one that contributes the same leaves the tally. -/
theorem tally_set_of_eq {p : ℕ} {x y : α} (h : l[p]? = some x) (hxy : f y = f x) : tally f (l.set p y) = tally f l := by
  have := tally_set (f := f) h y
  omega

/-- Replacing a record by one that looks the same through `f` leaves the store as seen through `f`. -/
theorem map_set_of_eq {β : Type*} {f : α → β} {p : ℕ} {x y : α} (h : l[p]? = some x) (hxy : f y = f x) :
    (l.set p y).map f = l.map f := by
  obtain ⟨hlt, rfl⟩ := List.getElem?_eq_some_iff.mp h
  refine List.ext_getElem? fun i => ?_
  rw [List.getElem?_map, List.getElem?_map, List.getElem?_set]
  by_cases hi : p = i
  · subst hi
    simp [hlt, hxy]
  · simp [hi]

/-- What every record has, every record has after one is replaced by another that has it. -/
theorem forall_mem_set {P : α → Prop} {p : ℕ} {y : α} (h : ∀ x ∈ l, P x) (hy : P y) : ∀ x ∈ l.set p y, P x := by
  intro x hx
  rcases List.mem_or_eq_of_mem_set hx with hx | rfl
  · exact h x hx
  · exact hy

/-- The record at a place, after the record at a place was replaced. -/
theorem getElem?_set_some {p q : ℕ} {y x : α} (h : (l.set p y)[q]? = some x) :
    (q = p ∧ x = y) ∨ (q ≠ p ∧ l[q]? = some x) := by
  by_cases hqp : q = p
  · subst hqp
    rw [List.getElem?_set_self'] at h
    left
    cases hl : l[q]? with
    | none => simp [hl] at h
    | some z =>
      rw [hl] at h
      exact ⟨rfl, (Option.some.inj h).symm⟩
  · rw [List.getElem?_set_ne (Ne.symm hqp)] at h
    exact .inr ⟨hqp, h⟩

end Ns3.Lib
