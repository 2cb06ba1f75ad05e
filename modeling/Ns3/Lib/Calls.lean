import Mathlib.Data.List.Infix

/-!
# Calls one after the other

An object whose state changes with every call, `step`, and a condition on each call that may depend on the state it
finds.

* `Each step s₀ P l` — every call of `l` meets the condition `P` in the state it is made in, from `s₀` on.
* `Each.simulation` — what relates two objects from the start, and is kept by every call that meets the condition,
  relates them after all calls; `Each.invariant` is the same for one object.
-/

namespace Ns3.Lib

universe u v w

variable {σ : Type u} {τ : Type v} {ε : Type w} {step : σ → ε → σ} {s₀ : σ} {P : σ → ε → Prop} {l : List ε} {c : ε}

/-- Every call meets the condition in the state it is made in. -/
def Each (step : σ → ε → σ) (s₀ : σ) (P : σ → ε → Prop) (l : List ε) : Prop :=
  ∀ before c, before ++ [c] <+: l → P (before.foldl step s₀) c

namespace Each

theorem nil : Each step s₀ P [] := fun before c h => absurd (List.prefix_nil.mp h) (by simp)

theorem concat_iff : Each step s₀ P (l ++ [c]) ↔ Each step s₀ P l ∧ P (l.foldl step s₀) c := by
  constructor
  · intro h
    exact ⟨fun before d hd => h before d (hd.trans (List.prefix_append l [c])), h l c (List.prefix_refl _)⟩
  · rintro ⟨h, hc⟩ before d hd
    rcases List.prefix_concat_iff.mp hd with heq | hd
    · obtain ⟨rfl, hdc⟩ := List.append_inj' heq rfl
      obtain rfl := List.singleton_inj.mp hdc
      exact hc
    · exact h before d hd

theorem simulation {step' : τ → ε → τ} {t₀ : τ} {R : τ → σ → Prop} (h : Each step s₀ P l) (hinit : R t₀ s₀)
    (hstep : ∀ t s c, R t s → P s c → R (step' t c) (step s c)) : R (l.foldl step' t₀) (l.foldl step s₀) := by
  induction l using List.reverseRecOn with
  | nil => exact hinit
  | append_singleton l c ih =>
    obtain ⟨hl, hc⟩ := concat_iff.mp h
    rw [List.foldl_concat, List.foldl_concat]
    exact hstep _ _ c (ih hl) hc

theorem invariant {I : σ → Prop} (h : Each step s₀ P l) (hinit : I s₀) (hstep : ∀ s c, I s → P s c → I (step s c)) :
    I (l.foldl step s₀) :=
  @simulation σ σ ε step s₀ P l step s₀ (fun _ s => I s) h hinit fun _ s c => hstep s c

theorem iff_forall_take : Each step s₀ P l ↔ ∀ i : Fin l.length, P ((l.take i).foldl step s₀) (l.get i) := by
  constructor
  · intro h i
    apply h
    rw [List.get_eq_getElem, List.take_concat_get']
    exact List.take_prefix _ l
  · rintro h before c ⟨after, heq⟩
    have hlt : before.length < l.length := by simp [← heq]
    have hc := h ⟨before.length, hlt⟩
    simp only [← heq, List.append_assoc, List.take_left', List.get_eq_getElem] at hc
    simpa using hc

instance [∀ s c, Decidable (P s c)] : Decidable (Each step s₀ P l) := decidable_of_iff' _ iff_forall_take

end Each

end Ns3.Lib
