import Mathlib.Data.List.Forall2

/-!
# Lists that are related place by place

`List.Forall₂`, with the lists that a partial function is mapped over.
-/

namespace Ns3.Lib

universe u v

variable {α : Type u} {β : Type v} {R S : α → β → Prop} {as rest : List α} {a : α} {l : List β}

theorem forall₂_append_cons (h : List.Forall₂ R (as ++ a :: rest) l) :
    ∃ bs b l', l = bs ++ b :: l' ∧ List.Forall₂ R as bs ∧ R a b ∧ List.Forall₂ R rest l' := by
  induction as generalizing l with
  | nil =>
    obtain ⟨b, l', hab, hrest, rfl⟩ := List.forall₂_cons_left_iff.mp h
    exact ⟨[], b, l', rfl, .nil, hab, hrest⟩
  | cons a' as ih =>
    obtain ⟨b', l', hab, hrest, rfl⟩ := List.forall₂_cons_left_iff.mp h
    obtain ⟨bs, b, l', rfl, hbs, hb, hl⟩ := ih hrest
    exact ⟨b' :: bs, b, l', rfl, .cons hab hbs, hb, hl⟩

theorem forall₂_imp_mem (h : List.Forall₂ R as l) (himp : ∀ a ∈ as, ∀ b ∈ l, R a b → S a b) : List.Forall₂ S as l := by
  induction h with
  | nil => exact .nil
  | cons hab _ ih =>
    refine .cons (himp _ List.mem_cons_self _ List.mem_cons_self hab) (ih fun a ha b hb => ?_)
    exact himp a (List.mem_cons_of_mem _ ha) b (List.mem_cons_of_mem _ hb)

theorem forall₂_and : List.Forall₂ (fun a b => R a b ∧ S a b) as l ↔ List.Forall₂ R as l ∧ List.Forall₂ S as l := by
  induction as generalizing l with
  | nil => cases l <;> simp
  | cons a as ih =>
    cases l with
    | nil => simp
    | cons b l =>
      rw [List.forall₂_cons, List.forall₂_cons, List.forall₂_cons, ih]
      exact and_and_and_comm

theorem exists_forall₂_iff : (∃ l, List.Forall₂ R as l) ↔ ∀ a ∈ as, ∃ b, R a b := by
  induction as with
  | nil => simp
  | cons a as ih =>
    rw [List.forall_mem_cons, ← ih]
    constructor
    · rintro ⟨l, h⟩
      obtain ⟨b, l, hab, hl, rfl⟩ := List.forall₂_cons_left_iff.mp h
      exact ⟨⟨b, hab⟩, l, hl⟩
    · rintro ⟨⟨b, hab⟩, l, hl⟩
      exact ⟨b :: l, .cons hab hl⟩

/-- What a partial function maps a list to. -/
theorem mapM_eq_some_iff {f : α → Option β} : as.mapM f = some l ↔ List.Forall₂ (fun a b => f a = some b) as l := by
  induction as generalizing l with
  | nil => simp [eq_comm]
  | cons a as ih =>
    cases l with
    | nil => simp [List.mapM_cons, Option.bind_eq_some_iff]
    | cons b l => simp [List.mapM_cons, ← ih, Option.bind_eq_some_iff]

end Ns3.Lib
