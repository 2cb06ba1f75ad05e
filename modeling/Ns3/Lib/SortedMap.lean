import Mathlib.Data.List.Induction
import Mathlib.Order.Lattice

/-!
# Maps as sorted lists

A map that is iterated in the order of its keys is the list of its pairs, in this order.

* `Ordered` — the keys go up.
* `mapInsert` — a key that is in the map keeps its value; any other one is put in its place.
* `foldl_mapInsert` — a map is built again from its own pairs.
-/

namespace Ns3.Lib

universe u v

variable {κ : Type u} {ν : Type v} [LinearOrder κ] {k : κ} {v : ν} {l : List (κ × ν)} {x : κ × ν}

/-- The keys go up. -/
def Ordered (l : List (κ × ν)) : Prop := l.Pairwise fun x y => x.1 < y.1

/-- The key is in the map. -/
def HasKey (k : κ) (l : List (κ × ν)) : Prop := ∃ x ∈ l, x.1 = k

instance (k : κ) (l : List (κ × ν)) : Decidable (HasKey k l) := inferInstanceAs (Decidable (∃ x ∈ l, _))

omit [LinearOrder κ] in
theorem hasKey_append {l' : List (κ × ν)} : HasKey k (l ++ l') ↔ HasKey k l ∨ HasKey k l' := by
  simp only [HasKey, List.mem_append, or_and_right, exists_or]

omit [LinearOrder κ] in
theorem hasKey_singleton : HasKey k [x] ↔ x.1 = k := by simp [HasKey]

/-- A pair is inserted, unless the key is in the map. -/
def mapInsert (k : κ) (v : ν) : List (κ × ν) → List (κ × ν)
  | [] => [(k, v)]
  | x :: l => if k < x.1 then (k, v) :: x :: l else if k = x.1 then x :: l else x :: mapInsert k v l

theorem mapInsert_cons : mapInsert k v (x :: l) =
    if k < x.1 then (k, v) :: x :: l else if k = x.1 then x :: l else x :: mapInsert k v l := rfl

theorem ordered_nil : Ordered ([] : List (κ × ν)) := List.Pairwise.nil

theorem mem_of_mem_mapInsert (h : x ∈ mapInsert k v l) : x ∈ l ∨ x = (k, v) := by
  induction l with
  | nil => exact .inr (List.mem_singleton.mp h)
  | cons y l ih =>
    rw [mapInsert_cons] at h
    split_ifs at h
    · exact (List.mem_cons.mp h).symm
    · exact .inl h
    · rcases List.mem_cons.mp h with rfl | h
      · exact .inl List.mem_cons_self
      · exact (ih h).imp_left (List.mem_cons_of_mem y)

theorem mem_mapInsert_of_mem (h : x ∈ l) : x ∈ mapInsert k v l := by
  induction l with
  | nil => exact absurd h List.not_mem_nil
  | cons y l ih =>
    rw [mapInsert_cons]
    split_ifs
    · exact List.mem_cons_of_mem _ h
    · exact h
    · rcases List.mem_cons.mp h with rfl | h
      · exact List.mem_cons_self
      · exact List.mem_cons_of_mem _ (ih h)

theorem mem_mapInsert_self (h : ¬HasKey k l) : (k, v) ∈ mapInsert k v l := by
  induction l with
  | nil => exact List.mem_singleton_self _
  | cons y l ih =>
    rw [mapInsert_cons]
    split_ifs with _ heq
    · exact List.mem_cons_self
    · exact absurd ⟨y, List.mem_cons_self, heq.symm⟩ h
    · exact List.mem_cons_of_mem _ (ih fun ⟨x, hx, hkey⟩ => h ⟨x, List.mem_cons_of_mem _ hx, hkey⟩)

theorem length_mapInsert (h : ¬HasKey k l) : (mapInsert k v l).length = l.length + 1 := by
  induction l with
  | nil => rfl
  | cons y l ih =>
    rw [mapInsert_cons]
    split_ifs with _ heq
    · rfl
    · exact absurd ⟨y, List.mem_cons_self, heq.symm⟩ h
    · rw [List.length_cons, ih fun ⟨x, hx, hkey⟩ => h ⟨x, List.mem_cons_of_mem _ hx, hkey⟩, List.length_cons]

theorem Ordered.mapInsert (h : Ordered l) : Ordered (mapInsert k v l) := by
  induction l with
  | nil => exact List.pairwise_singleton _ _
  | cons y l ih =>
    obtain ⟨hy, hl⟩ := List.pairwise_cons.mp h
    rw [mapInsert_cons]
    split_ifs with hlt heq
    · refine List.pairwise_cons.mpr ⟨fun x hx => ?_, h⟩
      rcases List.mem_cons.mp hx with rfl | hx
      · exact hlt
      · exact lt_trans hlt (hy x hx)
    · exact h
    · refine List.pairwise_cons.mpr ⟨fun x hx => ?_, ih hl⟩
      rcases mem_of_mem_mapInsert hx with hx | rfl
      · exact hy x hx
      · exact lt_of_le_of_ne (not_lt.mp hlt) (Ne.symm heq)

/-- A pair whose key comes after all others is put at the end. -/
theorem mapInsert_of_lt (h : ∀ x ∈ l, x.1 < k) : mapInsert k v l = l ++ [(k, v)] := by
  induction l with
  | nil => rfl
  | cons y l ih =>
    have hy : y.1 < k := h y List.mem_cons_self
    rw [mapInsert_cons, if_neg (not_lt.mpr hy.le), if_neg hy.ne', ih fun x hx => h x (List.mem_cons_of_mem y hx),
      List.cons_append]

theorem mapInsert_of_hasKey (h : Ordered l) (hkey : HasKey k l) : mapInsert k v l = l := by
  induction l with
  | nil =>
    obtain ⟨x, hx, -⟩ := hkey
    exact absurd hx List.not_mem_nil
  | cons y l ih =>
    obtain ⟨hy, hl⟩ := List.pairwise_cons.mp h
    rw [mapInsert_cons]
    split_ifs with hlt heq
    · obtain ⟨x, hx, rfl⟩ := hkey
      rcases List.mem_cons.mp hx with rfl | hx
      · exact absurd hlt (lt_irrefl _)
      · exact absurd (lt_trans hlt (hy x hx)) (lt_irrefl _)
    · rfl
    · obtain ⟨x, hx, rfl⟩ := hkey
      rcases List.mem_cons.mp hx with rfl | hx
      · exact absurd rfl heq
      · rw [ih hl ⟨x, hx, rfl⟩]

theorem foldl_mapInsert (h : Ordered l) : l.foldl (fun m x => mapInsert x.1 x.2 m) [] = l := by
  induction l using List.reverseRecOn with
  | nil => rfl
  | append_singleton l x ih =>
    obtain ⟨hl, -, hlast⟩ := List.pairwise_append.mp h
    rw [List.foldl_append, ih hl, List.foldl_cons, List.foldl_nil,
      mapInsert_of_lt fun y hy => hlast y hy x (List.mem_singleton_self x)]

theorem Ordered.nodup (h : Ordered l) : l.Nodup := List.Pairwise.imp (fun hlt heq => hlt.ne (congrArg Prod.fst heq)) h

/-- What is in an ordered map is found by its key. -/
theorem Ordered.eq_of_key (h : Ordered l) {y : κ × ν} (hx : x ∈ l) (hy : y ∈ l) (hkey : x.1 = y.1) : x = y := by
  by_contra hne
  rcases List.pairwise_iff_getElem.mp h with hlt
  obtain ⟨i, hi, rfl⟩ := List.getElem_of_mem hx
  obtain ⟨j, hj, rfl⟩ := List.getElem_of_mem hy
  rcases Nat.lt_trichotomy i j with hij | rfl | hij
  · exact (hlt i j hi hj hij).ne hkey
  · exact hne rfl
  · exact (hlt j i hj hi hij).ne hkey.symm

end Ns3.Lib
