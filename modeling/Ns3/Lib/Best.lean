import Mathlib.Order.Lattice
import Mathlib.Data.List.Basic

/-!
# The last of the best

What a pass over a list looks for that keeps the best element so far and gives it up for one that is as good:
of the elements that match, those with the greatest key, and of these the last. `IsLastBest` has a rule for each
thing the pass can do with the next element: skip it, keep the one it has, or take it.
-/

namespace Ns3.Lib

universe u v

variable {α : Type u} {κ : Type v} [LinearOrder κ]

/-- The last of the elements of `l` that match and have the greatest key; `none` if none matches. -/
inductive IsLastBest (Matches : α → Prop) (key : α → κ) (l : List α) : Option α → Prop where
  | absent (h : ∀ a ∈ l, ¬ Matches a) : IsLastBest Matches key l none
  /-- None of those before it is better, and all those behind it are worse. -/
  | found {u v : List α} {a : α} (hl : l = u ++ a :: v) (ha : Matches a)
      (hu : ∀ b ∈ u, Matches b → key b ≤ key a) (hv : ∀ b ∈ v, Matches b → key b < key a) :
      IsLastBest Matches key l (some a)

namespace IsLastBest

variable {Matches : α → Prop} {key : α → κ} {l : List α} {o : Option α} {a b : α}

theorem eq_none_iff (h : IsLastBest Matches key l o) : o = none ↔ ∀ a ∈ l, ¬ Matches a := by
  cases h with
  | absent h => exact iff_of_true rfl h
  | found hl ha hu hv =>
    refine iff_of_false (Option.some_ne_none _) fun h => ?_
    apply h _ _ ha
    rw [hl]
    exact List.mem_append_right _ List.mem_cons_self

/-- It is at least as good as all that match. -/
theorem le (h : IsLastBest Matches key l (some a)) (hb : b ∈ l) (hm : Matches b) : key b ≤ key a := by
  cases h with
  | found hl ha hu hv =>
    rw [hl] at hb
    rcases List.mem_append.mp hb with hb | hb
    · exact hu b hb hm
    · rcases List.mem_cons.mp hb with rfl | hb
      · exact le_rfl
      · exact le_of_lt (hv b hb hm)

/-- The next element does not match. -/
theorem skip (h : IsLastBest Matches key l o) (ha : ¬ Matches a) : IsLastBest Matches key (l ++ [a]) o := by
  cases h with
  | absent h =>
    apply IsLastBest.absent
    intro b hb
    rcases List.mem_append.mp hb with hb | hb
    · exact h b hb
    · rw [List.mem_singleton.mp hb]
      exact ha
  | @found u v c hl hc hu hv =>
    refine .found (v := v ++ [a]) (by rw [hl, List.append_assoc, List.cons_append]) hc hu fun b hb hm => ?_
    rcases List.mem_append.mp hb with hb | hb
    · exact hv b hb hm
    · rw [List.mem_singleton.mp hb] at hm
      exact absurd hm ha

/-- The next element is worse. -/
theorem keep (h : IsLastBest Matches key l (some b)) (hlt : key a < key b) :
    IsLastBest Matches key (l ++ [a]) (some b) := by
  cases h with
  | @found u v _ hl hb hu hv =>
    refine .found (v := v ++ [a]) (by rw [hl, List.append_assoc, List.cons_append]) hb hu fun c hc hm => ?_
    rcases List.mem_append.mp hc with hc | hc
    · exact hv c hc hm
    · rw [List.mem_singleton.mp hc]
      exact hlt

/-- The next element matches and is as good. -/
theorem take (h : IsLastBest Matches key l o) (ha : Matches a) (hle : ∀ b ∈ o, key b ≤ key a) :
    IsLastBest Matches key (l ++ [a]) (some a) := by
  refine .found (v := []) rfl ha (fun b hb hm => ?_) fun b hb => absurd hb List.not_mem_nil
  cases o with
  | none => exact absurd hm (h.eq_none_iff.mp rfl b hb)
  | some c => exact le_trans (h.le hb hm) (hle c rfl)

end IsLastBest

end Ns3.Lib
