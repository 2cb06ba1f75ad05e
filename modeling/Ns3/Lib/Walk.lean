import Mathlib.Tactic.Common

/-!
# Walks with marks

A walk visits a vertex and then its children, in their order. A child that is marked is passed over, and a child is
marked behind its own walk. Where no child is above its parent, the walk ends, and what each visit keeps the walk keeps
(`markedWalk_spec`).
-/

namespace Ns3.Lib

universe u

variable {α σ : Type u} [DecidableEq α]

/-- One child of a walk: `next` is the walk from the child. -/
def walkChild (next : α → σ × (α → Bool) → Option (σ × (α → Bool))) (s : σ × (α → Bool)) (c : α) :
    Option (σ × (α → Bool)) :=
  if s.2 c then some s
  else (next c s).map fun s' => (s'.1, Function.update s'.2 c true)

/-- A walk with a number of levels, and the marks: nothing where it has not ended. -/
def markedWalk (visit : α → σ → Option σ) (children : α → List α) : ℕ → α → σ × (α → Bool) → Option (σ × (α → Bool))
  | 0, _, _ => none
  | levels + 1, v, s => do
    let s' ← visit v s.1
    (children v).foldlM (walkChild (markedWalk visit children levels)) (s', s.2)

variable {visit : α → σ → Option σ} {children : α → List α} {P : α → Prop} {Q : σ → Prop}

omit [DecidableEq α] in
/-- What each round of a loop over a list keeps, and no round fails. -/
theorem foldlM_spec {f : σ → α → Option σ} (l : List α) (hf : ∀ a ∈ l, ∀ s, Q s → ∃ s', f s a = some s' ∧ Q s') {s : σ}
    (hs : Q s) : ∃ s', l.foldlM f s = some s' ∧ Q s' := by
  induction l generalizing s with
  | nil => exact ⟨s, rfl, hs⟩
  | cons a l ih =>
    obtain ⟨s', heq, hs'⟩ := hf a List.mem_cons_self s hs
    rw [List.foldlM_cons, heq]
    exact ih (fun a ha => hf a (List.mem_cons_of_mem _ ha)) hs'

/-- What the walk from a child keeps is kept with its mark. -/
theorem walkChild_spec {next : α → σ × (α → Bool) → Option (σ × (α → Bool))} {c : α}
    (hnext : ∀ s, Q s.1 → ∃ s', next c s = some s' ∧ Q s'.1) {s : σ × (α → Bool)} (hs : Q s.1) :
    ∃ s', walkChild next s c = some s' ∧ Q s'.1 := by
  rw [walkChild]
  by_cases hmark : s.2 c = true
  · exact ⟨s, if_pos hmark, hs⟩
  · obtain ⟨s', heq, hs'⟩ := hnext s hs
    rw [if_neg hmark, heq]
    exact ⟨_, rfl, hs'⟩

/-- `rank` goes up from a vertex to its children, and stays below `top`. -/
theorem markedWalk_spec (rank : α → ℕ) (top : ℕ) (hvisit : ∀ v, P v → ∀ s, Q s → ∃ s', visit v s = some s' ∧ Q s')
    (hchildren : ∀ v, P v → ∀ c ∈ children v, P c ∧ rank v < rank c) (htop : ∀ v, P v → rank v < top)
    {levels : ℕ} {v : α} (hv : P v) (hlevels : top ≤ levels + rank v) {s : σ × (α → Bool)} (hs : Q s.1) :
    ∃ s', markedWalk visit children levels v s = some s' ∧ Q s'.1 := by
  induction levels generalizing v s with
  | zero =>
    have := htop v hv
    omega
  | succ levels ih =>
    obtain ⟨s', heq, hs'⟩ := hvisit v hv s.1 hs
    rw [markedWalk, heq]
    refine foldlM_spec (Q := fun s => Q s.1) (children v) (fun c hc s hs => ?_) (s := (s', s.2)) hs'
    obtain ⟨hPc, hrank⟩ := hchildren v hv c hc
    exact walkChild_spec (fun s hs => ih hPc (by omega) hs) hs

end Ns3.Lib
