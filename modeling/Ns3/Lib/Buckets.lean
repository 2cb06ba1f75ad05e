import Mathlib.Data.List.Flatten
import Mathlib.Data.List.Nodup
import Mathlib.Data.List.Range

/-!
# Buckets

A list that is spread over buckets by a hash of its elements: each bucket has the elements of its hash, in the
order of the list. What is done to one bucket is done to the list, as `modify_inBuckets` says, and the buckets
together have the elements of the list.
-/

namespace Ns3.Lib

variable {α : Type*} {f : α → ℕ} {n : ℕ} {l l' : List α}

/-- The elements of `l` in `n` buckets, by the hash `f`. -/
def inBuckets (n : ℕ) (f : α → ℕ) (l : List α) : List (List α) := (List.range n).map fun i => l.filter fun x => f x = i

@[simp] theorem length_inBuckets : (inBuckets n f l).length = n := by simp [inBuckets]

theorem inBuckets_nil : inBuckets n f [] = List.replicate n [] := by
  refine List.ext_getElem (by simp) fun i hi _ => ?_
  simp [inBuckets]

theorem getElem?_inBuckets {i : ℕ} (hi : i < n) : (inBuckets n f l)[i]? = some (l.filter fun x => f x = i) := by
  rw [inBuckets, List.getElem?_map, List.getElem?_range hi]
  rfl

theorem getD_inBuckets {i : ℕ} (hi : i < n) : (inBuckets n f l).getD i [] = l.filter fun x => f x = i := by
  rw [List.getD_eq_getElem?_getD, getElem?_inBuckets hi, Option.getD_some]

/-- A change of one bucket, when the list changes to one that is the same in the other buckets. -/
theorem modify_inBuckets {g : List α → List α} {j : ℕ}
    (hj : g (l.filter fun x => f x = j) = l'.filter fun x => f x = j)
    (hother : ∀ i, i ≠ j → l.filter (fun x => f x = i) = l'.filter fun x => f x = i) :
    (inBuckets n f l).modify j g = inBuckets n f l' := by
  refine List.ext_getElem? fun i => ?_
  rw [List.getElem?_modify]
  by_cases hi : i < n
  · rw [getElem?_inBuckets hi, getElem?_inBuckets hi]
    by_cases hij : j = i
    · subst hij
      exact congrArg some ((if_pos rfl).trans hj)
    · exact congrArg some ((if_neg hij).trans (hother i (Ne.symm hij)))
  · rw [List.getElem?_eq_none (by simpa using hi), List.getElem?_eq_none (by simpa using hi)]
    rfl

theorem mem_flatten_inBuckets (h : ∀ x ∈ l, f x < n) {x : α} : x ∈ (inBuckets n f l).flatten ↔ x ∈ l := by
  simp only [inBuckets, List.mem_flatten, List.mem_map, List.mem_range]
  constructor
  · rintro ⟨_, ⟨i, -, rfl⟩, hx⟩
    exact List.mem_of_mem_filter hx
  · intro hx
    exact ⟨_, ⟨f x, h x hx, rfl⟩, List.mem_filter.mpr ⟨hx, decide_eq_true rfl⟩⟩

/-- The buckets together have the elements of the list. -/
theorem flatten_inBuckets_perm (h : ∀ x ∈ l, f x < n) (hl : l.Nodup) : (inBuckets n f l).flatten.Perm l := by
  refine (List.perm_ext_iff_of_nodup ?_ hl).mpr fun x => mem_flatten_inBuckets h
  refine List.nodup_flatten.mpr ⟨fun b hb => ?_, ?_⟩
  · obtain ⟨i, -, rfl⟩ := List.mem_map.mp hb
    exact hl.filter _
  · refine List.pairwise_map.mpr (List.nodup_range.imp ?_)
    intro i j hij x hxi hxj
    have hi : f x = i := of_decide_eq_true (List.mem_filter.mp hxi).2
    have hj : f x = j := of_decide_eq_true (List.mem_filter.mp hxj).2
    exact hij (hi.symm.trans hj)

variable {p q : α → Bool}

/-- The first element that is taken out leaves the others of its bucket. -/
theorem filter_eraseP_of_pos (h : ∀ x ∈ l.find? q, p x = true) : (l.eraseP q).filter p = (l.filter p).eraseP q := by
  induction l with
  | nil => rfl
  | cons a l ih =>
    by_cases hq : q a = true
    · have hp : p a = true := h a (by rw [List.find?_cons_of_pos hq]; rfl)
      rw [List.eraseP_cons_of_pos hq, List.filter_cons_of_pos hp, List.eraseP_cons_of_pos hq]
    · have ih := ih fun x hx => h x (by rw [List.find?_cons_of_neg hq]; exact hx)
      rw [List.eraseP_cons_of_neg hq]
      by_cases hp : p a = true
      · rw [List.filter_cons_of_pos hp, List.filter_cons_of_pos hp, List.eraseP_cons_of_neg hq, ih]
      · rw [List.filter_cons_of_neg hp, List.filter_cons_of_neg hp, ih]

/-- The first element that is taken out leaves the other buckets alone. -/
theorem filter_eraseP_of_neg (h : ∀ x ∈ l.find? q, p x = false) : (l.eraseP q).filter p = l.filter p := by
  induction l with
  | nil => rfl
  | cons a l ih =>
    by_cases hq : q a = true
    · have hp : p a = false := h a (by rw [List.find?_cons_of_pos hq]; rfl)
      rw [List.eraseP_cons_of_pos hq, List.filter_cons_of_neg (by simp [hp])]
    · have ih := ih fun x hx => h x (by rw [List.find?_cons_of_neg hq]; exact hx)
      rw [List.eraseP_cons_of_neg hq, List.filter_cons, List.filter_cons, ih]

end Ns3.Lib
