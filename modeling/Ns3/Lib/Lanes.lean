import Mathlib.Data.List.Count
import Mathlib.Data.List.Perm.Basic

/-!
# Rows with lanes

A row of items, each of which is in a lane: `lane x`. Items leave the row from any place, but no item before another of
its lane.

* `Departs lane row gone stay` — of the row, the items `gone` leave one after the other, and `stay` is left.
* `Departs.trans` — more of them leave; `Departs.concat` — one more joins at the end.
* `departs_first`, `departs_lane`, `departs_filter` — the first item of a lane leaves; all items of a lane do; those
  that meet a condition do, when they are the first ones of the row.
* `Departs.perm` — every item is among those that left or those that stay.
-/

namespace Ns3.Lib

universe u v

variable {α : Type u} {κ : Type v} [DecidableEq κ]

/-- The items of a lane. -/
def inLane (lane : α → κ) (k : κ) (row : List α) : List α := row.filter fun x => lane x = k

/-- Of the row, the items `gone` leave one after the other, each lane in order, and `stay` is left. -/
structure Departs (lane : α → κ) (row gone stay : List α) : Prop where
  /-- What stays, stays in order. -/
  sublist : stay.Sublist row
  /-- A lane is what left of it, and then what stays. -/
  lanes : ∀ k, inLane lane k gone ++ inLane lane k stay = inLane lane k row

variable {lane : α → κ} {row gone gone' stay stay' : List α}

@[simp] theorem inLane_append (k : κ) (row row' : List α) :
    inLane lane k (row ++ row') = inLane lane k row ++ inLane lane k row' := List.filter_append ..

theorem mem_inLane {k : κ} {x : α} : x ∈ inLane lane k row ↔ x ∈ row ∧ lane x = k := by
  rw [inLane, List.mem_filter, decide_eq_true_eq]

theorem inLane_eq_nil {k : κ} (h : ∀ x ∈ row, lane x ≠ k) : inLane lane k row = [] :=
  List.filter_eq_nil_iff.mpr fun x hx => by simpa using h x hx

namespace Departs

theorem refl (row : List α) : Departs lane row [] row := ⟨List.Sublist.refl row, fun _ => rfl⟩

section

variable (h : Departs lane row gone stay)
include h

theorem trans (h' : Departs lane stay gone' stay') : Departs lane row (gone ++ gone') stay' := by
  refine ⟨h'.sublist.trans h.sublist, fun k => ?_⟩
  rw [inLane_append, List.append_assoc, h'.lanes, h.lanes]

theorem concat (x : α) : Departs lane (row ++ [x]) gone (stay ++ [x]) := by
  refine ⟨h.sublist.append (List.Sublist.refl [x]), fun k => ?_⟩
  rw [inLane_append, inLane_append, ← List.append_assoc, h.lanes]

theorem perm [DecidableEq α] : (gone ++ stay).Perm row := by
  have hcount (a : α) (l : List α) : (inLane lane (lane a) l).count a = l.count a :=
    List.count_filter (by simp)
  refine List.perm_iff_count.mpr fun a => ?_
  rw [← hcount a (gone ++ stay), inLane_append, h.lanes, hcount]

theorem mem_row {x : α} : x ∈ row ↔ x ∈ gone ∨ x ∈ stay := by
  have hmem : x ∈ row ↔ x ∈ inLane lane (lane x) row := by rw [mem_inLane, and_iff_left rfl]
  rw [hmem, ← h.lanes, List.mem_append, mem_inLane, mem_inLane, and_iff_left rfl, and_iff_left rfl]

end

end Departs

/-- The first item of its lane leaves. -/
theorem departs_first {before after : List α} {x : α} (h : ∀ y ∈ before, lane y ≠ lane x) :
    Departs lane (before ++ x :: after) [x] (before ++ after) := by
  refine ⟨(List.Sublist.refl before).append (List.sublist_cons_self x after), fun k => ?_⟩
  have hsplit : before ++ x :: after = before ++ ([x] ++ after) := rfl
  rw [hsplit, inLane_append, inLane_append, inLane_append]
  by_cases hk : lane x = k
  · have hbefore : inLane lane k before = [] := inLane_eq_nil fun y hy => hk ▸ h y hy
    rw [hbefore, List.nil_append, List.nil_append]
  · have hx : inLane lane k [x] = [] := inLane_eq_nil fun y hy => by rwa [List.mem_singleton.mp hy]
    rw [hx, List.nil_append, List.nil_append]

/-- The first item of the row leaves. -/
theorem departs_head (x : α) (row : List α) : Departs lane (x :: row) [x] row :=
  @departs_first α κ _ lane [] row x fun _ h => absurd h List.not_mem_nil

/-- All items of a lane leave. -/
theorem departs_lane (k : κ) (row : List α) :
    Departs lane row (inLane lane k row) (row.filter fun x => lane x ≠ k) := by
  refine ⟨List.filter_sublist, fun k' => ?_⟩
  rw [inLane, inLane, inLane, inLane, List.filter_filter, List.filter_filter]
  by_cases hk : k' = k
  · subst hk
    have hnone : (row.filter fun x => decide (lane x = k') && decide (lane x ≠ k')) = [] :=
      List.filter_eq_nil_iff.mpr fun x _ => by simp
    rw [hnone, List.append_nil]
    exact List.filter_congr fun x _ => Bool.and_self _
  · have hnone : (row.filter fun x => decide (lane x = k') && decide (lane x = k)) = [] :=
      List.filter_eq_nil_iff.mpr fun x _ => by
        rw [Bool.and_eq_true, decide_eq_true_eq, decide_eq_true_eq]
        rintro ⟨rfl, rfl⟩
        exact hk rfl
    rw [hnone, List.nil_append]
    refine List.filter_congr fun x _ => ?_
    by_cases hx : lane x = k'
    · simp [hx, hk]
    · simp [hx]

/-- The items that meet a condition leave, when no other item stands before one of them. -/
theorem departs_filter {p : α → Bool} (h : row.Pairwise fun x y => p y = true → p x = true) :
    Departs lane row (row.filter p) (row.filter fun x => !p x) := by
  refine ⟨List.filter_sublist, fun k => ?_⟩
  rw [← inLane_append]
  congr 1
  induction row with
  | nil => rfl
  | cons x row ih =>
    obtain ⟨hx, hrow⟩ := List.pairwise_cons.mp h
    by_cases hp : p x = true
    · rw [List.filter_cons_of_pos hp, List.filter_cons_of_neg (by simp [hp]), List.cons_append, ih hrow]
    · have hnone : row.filter p = [] := List.filter_eq_nil_iff.mpr fun y hy h => hp (hx y hy h)
      have hall : (row.filter fun y => !p y) = row :=
        List.filter_eq_self.mpr fun y hy => by simpa using fun h => hp (hx y hy h)
      rw [List.filter_cons_of_neg hp, hnone, List.filter_cons_of_pos (by simpa using hp), hall, List.nil_append]

end Ns3.Lib
