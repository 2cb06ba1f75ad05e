import Mathlib.Data.List.Basic

/-!
# Machines driven by events

A program that waits for events and runs a handler for each is a `Machine`: `enabled s e`
says that event `e` can happen in state `s`, and `exec s e` is the state its handler leaves,
or `none` where the handler stops the program (a failed assertion, a null dereference).

* `Machine.Run M s₀ tr s` — the machine goes from `s₀` to `s`; the trace `tr` lists the events
  with the state each was handled in, oldest first.
* `Run.invariant` — the induction over a run whose steps all meet a condition: what holds at
  the start and is kept by such a step holds at the end.
* `Run.invariant_history` — the same with a history: a value folded over the trace, for
  properties that speak of what happened earlier.
* `Run.length_add_le` — a measure that every such step makes smaller bounds the length of such a run.
* `Machine.EveryStep` — a property of all the steps of a run; `Run.everyStep_iff` for one that
  comes down to a condition on the state before the step, `Run.everyStep_iff_of_invariant` for one
  that does where an invariant holds. `Run.everyState_iff` is the same for a
  property of all the states, and `Run.everyState_iff_of_invariant` where it takes an invariant that
  says more than the property.
* `Machine.replay` — runs a list of events, so that a concrete run can be computed;
  `run_replay` says that what it computes is a run.
-/

namespace Ns3.Lib

universe u v w

/-- A program that handles events. -/
structure Machine (σ : Type u) (ε : Type v) where
  /-- Event `e` can happen in state `s`. -/
  enabled : σ → ε → Prop
  /-- The handler of `e`: `none` where it stops the program. -/
  exec : σ → ε → Option σ

namespace Machine

variable {σ : Type u} {ε : Type v} {γ : Type w} (M : Machine σ ε)

/-- `e` happens in `s`, and its handler leaves `s'`. -/
def Step (s : σ) (e : ε) (s' : σ) : Prop := M.enabled s e ∧ M.exec s e = some s'

/-- A run from `s₀`, with its trace. -/
inductive Run (s₀ : σ) : List (σ × ε) → σ → Prop where
  | nil : Run s₀ [] s₀
  | snoc {tr : List (σ × ε)} {s s' : σ} {e : ε} :
      Run s₀ tr s → M.Step s e s' → Run s₀ (tr ++ [(s, e)]) s'

/-- Every step of the trace meets the condition `G`, a condition on the event and on the state
it is handled in. -/
def Meets (G : σ → ε → Prop) (tr : List (σ × ε)) : Prop := ∀ x ∈ tr, G x.1 x.2

/-- Every step of a run that ends in the given state has the property `P` of the state before, the
event and the state after. -/
def EveryStep (P : σ → ε → σ → Prop) : List (σ × ε) → σ → Prop
  | [], _ => True
  | [x], s => P x.1 x.2 s
  | x :: y :: tr, s => P x.1 x.2 y.1 ∧ EveryStep P (y :: tr) s

variable {tr : List (σ × ε)} {P : σ → ε → σ → Prop}

theorem everyStep_snoc {s s' : σ} {e : ε} : EveryStep P (tr ++ [(s, e)]) s' ↔ EveryStep P tr s ∧ P s e s' := by
  induction tr with
  | nil => simp [EveryStep]
  | cons x tr ih =>
    cases tr with
    | nil => simp [EveryStep]
    | cons y tr =>
      rw [List.cons_append, List.cons_append, EveryStep, EveryStep, ← List.cons_append, ih, and_assoc]

instance (G : σ → ε → Prop) [∀ s e, Decidable (G s e)] (tr : List (σ × ε)) :
    Decidable (Meets G tr) :=
  inferInstanceAs (Decidable (∀ x ∈ tr, G x.1 x.2))

instance decidableEveryStep {P : σ → ε → σ → Prop} [∀ s e s', Decidable (P s e s')] :
    ∀ (tr : List (σ × ε)) (s : σ), Decidable (EveryStep P tr s)
  | [], _ => .isTrue trivial
  | [x], s => inferInstanceAs (Decidable (P x.1 x.2 s))
  | x :: y :: tr, s =>
    have : Decidable (EveryStep P (y :: tr) s) := decidableEveryStep (y :: tr) s
    inferInstanceAs (Decidable (P x.1 x.2 y.1 ∧ EveryStep P (y :: tr) s))

/-- Every state of a run, from the first to the one it reaches, has the property `I`. -/
def EveryState (I : σ → Prop) (tr : List (σ × ε)) (s : σ) : Prop := (∀ x ∈ tr, I x.1) ∧ I s

variable {G : σ → ε → Prop}

theorem meets_snoc {s : σ} {e : ε} : Meets G (tr ++ [(s, e)]) ↔ Meets G tr ∧ G s e := by
  rw [Meets, List.forall_mem_append, List.forall_mem_singleton]
  rfl

variable {M}

/-- What holds at the start of a run, and is kept by every step that meets the condition, holds
at the end of a run whose steps all meet it. -/
theorem Run.invariant {G : σ → ε → Prop} {I : σ → Prop} {s₀ s : σ} {tr : List (σ × ε)}
    (h : M.Run s₀ tr s) (hG : Meets G tr) (h₀ : I s₀)
    (hstep : ∀ s e s', I s → G s e → M.Step s e s' → I s') : I s := by
  induction h with
  | nil => exact h₀
  | snoc _ hs ih =>
    obtain ⟨htr, he⟩ := meets_snoc.mp hG
    exact hstep _ _ _ (ih htr) he hs

variable {s₀ s : σ} {I : σ → Prop}

/-- What every step that meets the condition keeps, every state of such a run has. -/
theorem Run.everyState_of_meets (h : M.Run s₀ tr s) (hG : Meets G tr) (h₀ : I s₀)
    (hstep : ∀ s e s', I s → G s e → M.Step s e s' → I s') : EveryState I tr s := by
  induction h with
  | nil => exact ⟨fun x hx => absurd hx List.not_mem_nil, h₀⟩
  | @snoc tr s s' e _ hs ih =>
    obtain ⟨htr, he⟩ := meets_snoc.mp hG
    obtain ⟨hall, hlast⟩ := ih htr
    refine ⟨fun x hx => ?_, hstep _ _ _ hlast he hs⟩
    rcases List.mem_append.mp hx with hx | hx
    · exact hall x hx
    · rw [List.mem_singleton.mp hx]
      exact hlast

/-- What every step that meets the condition has, where it keeps the invariant `I`, every step of such a run has. -/
theorem Run.everyStep_of_meets (h : M.Run s₀ tr s) (hG : Meets G tr) (h₀ : I s₀)
    (hstep : ∀ s e s', I s → G s e → M.Step s e s' → I s' ∧ P s e s') : EveryStep P tr s := by
  induction h with
  | nil => exact trivial
  | @snoc tr s s' e hrun hs ih =>
    obtain ⟨htr, he⟩ := meets_snoc.mp hG
    have hI : I s := hrun.invariant htr h₀ fun _ _ _ hI hG h => (hstep _ _ _ hI hG h).1
    exact everyStep_snoc.mpr ⟨ih htr, (hstep _ _ _ hI he hs).2⟩

/-- When the steps that meet a condition make a measure smaller, it bounds the length of a run whose steps all do. -/
theorem Run.length_add_le {μ : σ → ℕ} (h : M.Run s₀ tr s) (hG : Meets G tr)
    (hstep : ∀ s e s', G s e → M.Step s e s' → μ s' < μ s) : tr.length + μ s ≤ μ s₀ := by
  induction h with
  | nil => exact Nat.le_of_eq (Nat.zero_add _)
  | snoc _ hs ih =>
    obtain ⟨htr, he⟩ := meets_snoc.mp hG
    have hlt := hstep _ _ _ he hs
    have hle := ih htr
    rw [List.length_append, List.length_singleton]
    omega

theorem Run.eq_of_nil (h : M.Run s₀ [] s) : s = s₀ := by
  generalize htr : ([] : List (σ × ε)) = tr at h
  cases h with
  | nil => rfl
  | snoc => exact absurd htr.symm (List.append_ne_nil_of_right_ne_nil _ (List.cons_ne_nil _ _))

/-- A run is determined by its events. -/
theorem Run.eq_of_events {s₀ s s' : σ} {tr tr' : List (σ × ε)} (h : M.Run s₀ tr s) (h' : M.Run s₀ tr' s')
    (he : tr.map Prod.snd = tr'.map Prod.snd) : tr = tr' ∧ s = s' := by
  induction h generalizing tr' s' with
  | nil =>
    obtain rfl := List.map_eq_nil_iff.mp he.symm
    exact ⟨rfl, h'.eq_of_nil.symm⟩
  | @snoc tr s t e _ hstep ih =>
    cases h' with
    | nil => exact absurd he (by simp)
    | @snoc tr' s' t' e' hrun' hstep' =>
      rw [List.map_append, List.map_append] at he
      obtain ⟨hbefore, hlast⟩ := List.append_inj' he rfl
      obtain rfl := (List.cons.inj hlast).1
      obtain ⟨rfl, rfl⟩ := ih hrun' hbefore
      exact ⟨rfl, Option.some.inj (hstep.2.symm.trans hstep'.2)⟩

/-- A run, and what it does next, can be cut short before any of its events. -/
theorem Run.split {tr tr₁ tr₂ : List (σ × ε)} {e : ε} {x : σ × ε} (h : M.Run s₀ tr s) (he : M.enabled s e)
    (htr : tr ++ [(s, e)] = tr₁ ++ x :: tr₂) : M.Run s₀ tr₁ x.1 ∧ M.enabled x.1 x.2 := by
  induction h generalizing tr₂ e with
  | nil =>
    obtain ⟨rfl, rfl, -⟩ : tr₁ = [] ∧ x = (s₀, e) ∧ tr₂ = [] := by
      cases tr₁ <;> simp_all
    exact ⟨.nil, he⟩
  | @snoc tr s s' e' hrun hstep ih =>
    rcases List.eq_nil_or_concat tr₂ with rfl | ⟨tr₂, y, rfl⟩
    · obtain ⟨rfl, hx⟩ := List.append_inj' htr rfl
      obtain rfl := (List.cons.inj hx).1
      exact ⟨hrun.snoc hstep, he⟩
    · rw [List.concat_eq_append, ← List.cons_append, ← List.append_assoc] at htr
      exact ih hstep.1 (List.append_inj' htr rfl).1

/-- When a property of a step comes down to a condition on the event and the state before it, that
of all the steps of a run does too. -/
theorem Run.everyStep_iff (h : M.Run s₀ tr s) (hstep : ∀ s e s', M.Step s e s' → (P s e s' ↔ G s e)) :
    EveryStep P tr s ↔ Meets G tr := by
  induction h with
  | nil => simp [EveryStep, Meets]
  | snoc _ hs ih => rw [everyStep_snoc, meets_snoc, ih, hstep _ _ _ hs]

/-- `everyStep_iff` for the runs whose steps meet `H`, where it takes an invariant `J` that a step with
the property keeps. -/
theorem Run.everyStep_iff_of_invariant {G H : σ → ε → Prop} {J : σ → Prop} (h : M.Run s₀ tr s) (hH : Meets H tr)
    (h₀ : J s₀) (hstep : ∀ s e s', J s → H s e → M.Step s e s' → (P s e s' ↔ G s e) ∧ (G s e → J s')) :
    (EveryStep P tr s ↔ Meets G tr) ∧ (Meets G tr → J s) := by
  induction h with
  | nil => simpa [EveryStep, Meets] using h₀
  | snoc _ hs ih =>
    obtain ⟨htr, he⟩ := meets_snoc.mp hH
    obtain ⟨hiff, hkeep⟩ := ih htr
    rw [everyStep_snoc, meets_snoc, hiff]
    exact ⟨and_congr_right fun hG => (hstep _ _ _ (hkeep hG) he hs).1,
      fun hG => (hstep _ _ _ (hkeep hG.1) he hs).2 hG.2⟩

/-- When a step from a state with the property leads to one with it exactly if it meets the
condition, every state of a run has the property exactly if every step meets the condition. -/
theorem Run.everyState_iff (h : M.Run s₀ tr s) (h₀ : I s₀) (hstep : ∀ s e s', I s → M.Step s e s' → (I s' ↔ G s e)) :
    EveryState I tr s ↔ Meets G tr := by
  induction h with
  | nil => exact iff_of_true ⟨fun x hx => absurd hx List.not_mem_nil, h₀⟩ fun x hx => absurd hx List.not_mem_nil
  | @snoc tr s s' e _ hs ih =>
    rw [meets_snoc, ← ih]
    constructor
    · rintro ⟨htr, hI'⟩
      have hI : I s := htr (s, e) (List.mem_append_right _ (List.mem_singleton_self _))
      exact ⟨⟨fun x hx => htr x (List.mem_append_left _ hx), hI⟩, (hstep s e s' hI hs).mp hI'⟩
    · rintro ⟨⟨htr, hI⟩, hG⟩
      refine ⟨fun x hx => ?_, (hstep s e s' hI hs).mpr hG⟩
      rcases List.mem_append.mp hx with hx | hx
      · exact htr x hx
      · rw [List.mem_singleton.mp hx]
        exact hI

/-- `everyState_iff` where the property is part of an invariant `J`, and a step that meets the condition
keeps all of it. -/
theorem Run.everyState_iff_of_invariant {I J : σ → Prop} (h : M.Run s₀ tr s) (h₀ : J s₀) (hJ : ∀ s, J s → I s)
    (hstep : ∀ s e s', J s → M.Step s e s' → (I s' ↔ G s e) ∧ (G s e → J s')) :
    (EveryState I tr s ↔ Meets G tr) ∧ (Meets G tr → EveryState J tr s) := by
  induction h with
  | nil =>
    have hnil : ∀ {Q : σ × ε → Prop}, ∀ x ∈ ([] : List (σ × ε)), Q x := fun x hx => absurd hx List.not_mem_nil
    exact ⟨iff_of_true ⟨hnil, hJ _ h₀⟩ hnil, fun _ => ⟨hnil, h₀⟩⟩
  | @snoc tr s s' e _ hs ih =>
    obtain ⟨hiff, hkeep⟩ := ih
    have hlast : ∀ {Q : σ → Prop}, EveryState Q (tr ++ [(s, e)]) s' ↔ EveryState Q tr s ∧ Q s' := by
      intro Q
      simp only [EveryState, List.mem_append, List.mem_singleton, or_imp, forall_and, forall_eq]
    rw [meets_snoc, hlast, hlast, hiff]
    refine ⟨and_congr_right fun htr => (hstep s e s' (hkeep htr).2 hs).1, fun ⟨htr, he⟩ => ?_⟩
    exact ⟨hkeep htr, (hstep s e s' (hkeep htr).2 hs).2 he⟩

/-- What every step from a state with the property has, every step of a run through such states has. -/
theorem Run.everyStep_of_everyState (h : M.Run s₀ tr s) (hI : EveryState I tr s)
    (hstep : ∀ s e s', I s → M.Step s e s' → P s e s') : EveryStep P tr s := by
  induction h with
  | nil => exact trivial
  | @snoc tr s s' e _ hs ih =>
    have hlast : I s := hI.1 (s, e) (List.mem_append_right _ (List.mem_singleton_self _))
    refine everyStep_snoc.mpr ⟨ih ⟨fun x hx => hI.1 x (List.mem_append_left _ hx), hlast⟩, ?_⟩
    exact hstep s e s' hlast hs

/-- The states of a run, from the first to the one it reaches. -/
def states (tr : List (σ × ε)) (s : σ) : List σ := tr.map Prod.fst ++ [s]

theorem everyState_iff_forall_mem_states {s : σ} : EveryState I tr s ↔ ∀ x ∈ states tr s, I x := by
  simp [EveryState, states, or_imp, forall_and]

/-- The history of a trace: `upd` folded over its events, oldest first. -/
def history (upd : σ → ε → γ → γ) (g₀ : γ) (tr : List (σ × ε)) : γ :=
  tr.foldl (fun g x => upd x.1 x.2 g) g₀

@[simp] theorem history_snoc (upd : σ → ε → γ → γ) (g₀ : γ) (tr : List (σ × ε)) (s : σ) (e : ε) :
    history upd g₀ (tr ++ [(s, e)]) = upd s e (history upd g₀ tr) := by
  simp [history]

/-- `Run.invariant` for a property of the state and of the history of the run. -/
theorem Run.invariant_history {I : σ → γ → Prop} {upd : σ → ε → γ → γ} {g₀ : γ} (h : M.Run s₀ tr s) (hG : Meets G tr)
    (h₀ : I s₀ g₀) (hstep : ∀ s e s' g, I s g → G s e → M.Step s e s' → I s' (upd s e g)) :
    I s (history upd g₀ tr) := by
  induction h with
  | nil => exact h₀
  | snoc _ hs ih =>
    obtain ⟨htr, he⟩ := meets_snoc.mp hG
    rw [history_snoc]
    exact hstep _ _ _ _ (ih htr) he hs

variable (M) [∀ s e, Decidable (M.enabled s e)]

/-- Runs a list of events and keeps the trace; `none` where an event cannot happen or its
handler stops. -/
def replayFrom (tr : List (σ × ε)) (s : σ) : List ε → Option (List (σ × ε) × σ)
  | [] => some (tr, s)
  | e :: es =>
    if M.enabled s e then
      match M.exec s e with
      | some s' => replayFrom (tr ++ [(s, e)]) s' es
      | none => none
    else none

/-- Runs a list of events from `s₀`. -/
def replay (s₀ : σ) (es : List ε) : Option (List (σ × ε) × σ) := M.replayFrom [] s₀ es

variable {M}

theorem run_replayFrom {s₀ : σ} {es : List ε} {s : σ} {out : List (σ × ε) × σ} (hr : M.Run s₀ tr s)
    (h : M.replayFrom tr s es = some out) : M.Run s₀ out.1 out.2 := by
  induction es generalizing tr s with
  | nil =>
    rw [replayFrom, Option.some.injEq] at h
    subst h
    exact hr
  | cons e es ih =>
    rw [replayFrom] at h
    split at h
    · rename_i hen
      split at h
      · rename_i s' hex
        exact ih (hr.snoc ⟨hen, hex⟩) h
      · cases h
    · cases h

/-- What `replay` computes is a run. -/
theorem run_replay {s₀ : σ} {es : List ε} {out : List (σ × ε) × σ} (h : M.replay s₀ es = some out) :
    M.Run s₀ out.1 out.2 :=
  run_replayFrom .nil h

/-- A run that is found by computing it. -/
theorem exists_replay (s₀ : σ) (es : List ε) {P : List (σ × ε) × σ → Prop} [DecidablePred P]
    (h : (M.replay s₀ es).any (fun out => decide (P out)) = true) :
    ∃ out, M.replay s₀ es = some out ∧ M.Run s₀ out.1 out.2 ∧ P out := by
  obtain ⟨out, hout, hP⟩ := (Option.any_eq_true _ _).mp h
  exact ⟨out, hout, run_replay hout, of_decide_eq_true hP⟩

end Machine

end Ns3.Lib
