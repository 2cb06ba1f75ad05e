import Mathlib.Data.List.Basic

/-!
# Covers that are chosen step by step

Records say who covers what: `r` says that `who r` covers `what r`. Some are chosen, and the records of what they cover
are removed, until none is left.

* `Covers` — whatever is not covered yet still has all its records.
* `Covers.remove` — records may be removed of whatever is covered by those that are chosen then.
* `Covers.complete` — when no record is left, everything is covered.
-/

namespace Ns3.Lib

universe u v w

variable {ρ : Type u} {κ : Type v} {α : Type w} (who : ρ → κ) (what : ρ → α)

/-- One of those that are chosen covers it. -/
def Covered (records : List ρ) (chosen : κ → Prop) (a : α) : Prop := ∃ r ∈ records, chosen (who r) ∧ what r = a

/-- Of the records the ones in `left` are left: all that are not covered are among them. -/
structure Covers (records : List ρ) (chosen : κ → Prop) (left : List ρ) : Prop where
  subset : ∀ r ∈ left, r ∈ records
  open_mem : ∀ r ∈ records, r ∈ left ∨ Covered who what records chosen (what r)

variable {who what} {records left left' : List ρ} {chosen chosen' : κ → Prop}

theorem Covered.mono {a : α} (h : Covered who what records chosen a) (hle : ∀ k, chosen k → chosen' k) :
    Covered who what records chosen' a := by
  obtain ⟨r, hr, hk, ha⟩ := h
  exact ⟨r, hr, hle _ hk, ha⟩

namespace Covers

theorem start (records : List ρ) (chosen : κ → Prop) : Covers who what records chosen records :=
  ⟨fun _ h => h, fun _ h => .inl h⟩

theorem remove (h : Covers who what records chosen left) (hle : ∀ k, chosen k → chosen' k)
    (hsub : ∀ r ∈ left', r ∈ left)
    (hremoved : ∀ r ∈ left, r ∉ left' → ∃ r' ∈ left, chosen' (who r') ∧ what r' = what r) :
    Covers who what records chosen' left' := by
  refine ⟨fun r hr => h.subset r (hsub r hr), fun r hr => ?_⟩
  rcases h.open_mem r hr with hleft | hcovered
  · by_cases hr' : r ∈ left'
    · exact .inl hr'
    · obtain ⟨r', hmem, hk, hwhat⟩ := hremoved r hleft hr'
      exact .inr ⟨r', h.subset r' hmem, hk, hwhat⟩
  · exact .inr (hcovered.mono hle)

theorem complete (h : Covers who what records chosen []) {r : ρ} (hr : r ∈ records) :
    Covered who what records chosen (what r) :=
  (h.open_mem r hr).resolve_left List.not_mem_nil

end Covers

end Ns3.Lib
