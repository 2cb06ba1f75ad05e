import Mathlib.Data.List.Nodup

/-!
# Lists in which the first match is updated

A vector that is searched from the front, and whose first match is written in place. Where the key identifies an
element, this is the only one that changes.

* `updateFirst` — the first element with a property is updated.
* `map_updateFirst` — the keys stay; `mem_updateFirst` — what is in the list then.
-/

namespace Ns3.Lib

universe u v

variable {α : Type u} {κ : Type v} {p : α → Prop} [DecidablePred p] {f : α → α} {key : α → κ} {l : List α} {a : α}

/-- The first element with the property is updated. -/
def updateFirst (p : α → Prop) [DecidablePred p] (f : α → α) : List α → List α
  | [] => []
  | a :: l => if p a then f a :: l else a :: updateFirst p f l

theorem map_updateFirst (hf : ∀ a, p a → key (f a) = key a) : (updateFirst p f l).map key = l.map key := by
  induction l with
  | nil => rfl
  | cons a l ih =>
    rw [updateFirst]
    split_ifs with ha
    · rw [List.map_cons, List.map_cons, hf a ha]
    · rw [List.map_cons, List.map_cons, ih]

/-- Where the elements with the property have one key, and no two elements have the same, the others stay. -/
theorem mem_updateFirst (hnodup : (l.map key).Nodup) (hkey : ∀ a b, p a → p b → key a = key b) :
    a ∈ updateFirst p f l ↔ a ∈ l ∧ ¬ p a ∨ ∃ old ∈ l, p old ∧ a = f old := by
  induction l with
  | nil => simp [updateFirst]
  | cons first l ih =>
    rw [List.map_cons, List.nodup_cons] at hnodup
    obtain ⟨hnotMem, hnodup⟩ := hnodup
    rw [updateFirst]
    split_ifs with hfirst
    · -- there is no other one with the property
      have hother : ∀ b ∈ l, ¬ p b := fun b hb hpb =>
        hnotMem (List.mem_map.mpr ⟨b, hb, hkey b first hpb hfirst⟩)
      constructor
      · intro hmem
        rcases List.mem_cons.mp hmem with rfl | hmem
        · exact .inr ⟨first, List.mem_cons_self, hfirst, rfl⟩
        · exact .inl ⟨List.mem_cons_of_mem _ hmem, hother a hmem⟩
      · rintro (⟨hmem, hne⟩ | ⟨old, hmem, hold, rfl⟩)
        · rcases List.mem_cons.mp hmem with rfl | hmem
          · exact absurd hfirst hne
          · exact List.mem_cons_of_mem _ hmem
        · rcases List.mem_cons.mp hmem with rfl | hmem
          · exact List.mem_cons_self
          · exact absurd hold (hother old hmem)
    · rw [List.mem_cons, ih hnodup]
      constructor
      · rintro (rfl | ⟨hmem, hne⟩ | ⟨old, hmem, hold, rfl⟩)
        · exact .inl ⟨List.mem_cons_self, hfirst⟩
        · exact .inl ⟨List.mem_cons_of_mem _ hmem, hne⟩
        · exact .inr ⟨old, List.mem_cons_of_mem _ hmem, hold, rfl⟩
      · rintro (⟨hmem, hne⟩ | ⟨old, hmem, hold, rfl⟩)
        · rcases List.mem_cons.mp hmem with rfl | hmem
          · exact .inl rfl
          · exact .inr (.inl ⟨hmem, hne⟩)
        · rcases List.mem_cons.mp hmem with rfl | hmem
          · exact absurd hold hfirst
          · exact .inr (.inr ⟨old, hmem, hold, rfl⟩)

end Ns3.Lib
