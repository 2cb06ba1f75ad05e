import Mathlib.Data.List.Basic

/-!
# Programs that call back

A program over a state that may stop with an error, `Prog ε σ`, and a calculus of triples for it. The state
is kept when a program stops, so that it can be looked at.

* `Setting` — what the triples of a development share: a condition on the final state that is taken for
  granted, and the errors that may occur. The condition is meant to be one on a log that only grows, such as
  "all that was recorded is as expected"; a triple says that whoever meets it at the end has met it at the
  start, so that it can be used at every point between.
* `Setting.Triple` — started where `P` holds, the program ends where `Q` does or stops with an error that may
  occur; with a rule for each way to make a program.
* `Setting.Keeps` — the program keeps an invariant.
* `react` — what unknown code does that the program calls back: it reads what to do off the state and calls
  operations of the same program, which may call back again, to any depth.
* `react_triple` — invariants that every operation keeps, as long as those that it calls back do, are kept by
  the code that is called back. This is the induction over the depth, made once.
-/

namespace Ns3.Lib

/-- A program over the states `σ`. -/
abbrev Prog (ε σ : Type) := ExceptT ε (StateM σ)

namespace Prog

variable {ε σ α β : Type}

/-- Reads the state. -/
def read (f : σ → α) : Prog ε σ α := fun s => (.ok (f s), s)

/-- Changes the state. -/
def update (f : σ → σ) : Prog ε σ Unit := fun s => (.ok (), f s)

/-- Stops with an error. -/
def stop (e : ε) : Prog ε σ α := fun s => (.error e, s)

/-- Runs a program if a condition holds. -/
def when (c : Prop) [Decidable c] (x : Prog ε σ Unit) : Prog ε σ Unit := if c then x else Pure.pure ()

/-- Runs a program for the members of a list, in order. -/
def each (f : α → Prog ε σ Unit) : List α → Prog ε σ Unit
  | [] => Pure.pure ()
  | a :: l => do
    f a
    each f l

theorem run_bind_ok {x : Prog ε σ α} {a : α} {s s' : σ} (h : x.run s = (.ok a, s')) (f : α → Prog ε σ β) :
    (x >>= f).run s = (f a).run s' := by
  change (match x.run s with | (r, t) => ExceptT.bindCont f r t) = _
  rw [h]
  rfl

theorem run_bind_error {x : Prog ε σ α} {e : ε} {s s' : σ} (h : x.run s = (.error e, s')) (f : α → Prog ε σ β) :
    (x >>= f).run s = (.error e, s') := by
  change (match x.run s with | (r, t) => ExceptT.bindCont f r t) = _
  rw [h]
  rfl

end Prog

/-- What the triples of a development share. -/
structure Setting (ε σ : Type) where
  /-- The condition on the final state. -/
  assumed : σ → Prop
  /-- The errors that may occur, and in which states. -/
  mayStop : ε → σ → Prop

namespace Setting

variable {ε σ α β : Type} {C : Setting ε σ} {P P' : σ → Prop} {Q Q' : α → σ → Prop} {R : β → σ → Prop}

/-- What `Q` and the errors that may occur say of an outcome. -/
def Ends (C : Setting ε σ) (Q : α → σ → Prop) : Except ε α × σ → Prop
  | (.ok a, s) => Q a s
  | (.error e, s) => C.mayStop e s

/-- Where the condition is met at the end, it was met at the start, and if `P` held there, `Q` holds now. -/
def Triple (C : Setting ε σ) (P : σ → Prop) (x : Prog ε σ α) (Q : α → σ → Prop) : Prop :=
  ∀ s, C.assumed (x.run s).2 → C.assumed s ∧ (P s → C.Ends Q (x.run s))

namespace Triple

variable {x : Prog ε σ α}

theorem conseq (h : C.Triple P x Q) (hpre : ∀ s, P' s → P s) (hpost : ∀ a s, Q a s → Q' a s) : C.Triple P' x Q' := by
  intro s hs
  obtain ⟨hassumed, hends⟩ := h s hs
  refine ⟨hassumed, fun hP => ?_⟩
  have hQ := hends (hpre s hP)
  revert hQ
  rcases x.run s with ⟨a | a, t⟩
  · exact id
  · exact hpost a t

theorem pre (h : C.Triple P x Q) (hpre : ∀ s, P' s → P s) : C.Triple P' x Q :=
  h.conseq hpre fun _ _ => id

theorem post (h : C.Triple P x Q) (hpost : ∀ a s, Q a s → Q' a s) : C.Triple P x Q' :=
  h.conseq (fun _ => id) hpost

theorem pure {a : α} (h : ∀ s, P s → Q a s) : C.Triple P (Pure.pure a) Q := fun s hs => ⟨hs, h s⟩

theorem stop {e : ε} (h : ∀ s, P s → C.mayStop e s) : C.Triple P (Prog.stop e) Q := fun s hs => ⟨hs, h s⟩

theorem update {f : σ → σ} {Q : Unit → σ → Prop} (hback : ∀ s, C.assumed (f s) → C.assumed s)
    (h : ∀ s, C.assumed (f s) → P s → Q () (f s)) : C.Triple P (Prog.update f) Q :=
  fun s hs => ⟨hback s hs, h s hs⟩

theorem bind {x : Prog ε σ β} {f : β → Prog ε σ α} (hx : C.Triple P x R) (hf : ∀ b, C.Triple (R b) (f b) Q) :
    C.Triple P (x >>= f) Q := by
  intro s hs
  rcases hrun : x.run s with ⟨e | b, t⟩
  · rw [Prog.run_bind_error hrun] at hs ⊢
    have h := hx s (hrun ▸ hs)
    rw [hrun] at h
    exact h
  · rw [Prog.run_bind_ok hrun] at hs ⊢
    obtain ⟨ht, hends⟩ := hf b t hs
    have h := hx s (hrun ▸ ht)
    rw [hrun] at h
    exact ⟨h.1, fun hP => hends (h.2 hP)⟩

theorem read {g : σ → β} {f : β → Prog ε σ α} (h : ∀ b, C.Triple (fun s => g s = b ∧ P s) (f b) Q) :
    C.Triple P (Prog.read g >>= f) Q :=
  bind (R := fun b s => g s = b ∧ P s) (fun _ hs => ⟨hs, fun hP => ⟨rfl, hP⟩⟩) h

/-- What a part of the state is at the start may be given a name. -/
theorem fix (g : σ → β) (h : ∀ b, C.Triple (fun s => g s = b ∧ P s) x Q) : C.Triple P x Q := by
  intro s hs
  obtain ⟨hassumed, hends⟩ := h (g s) s hs
  exact ⟨hassumed, fun hP => hends ⟨rfl, hP⟩⟩

theorem ite {c : Prop} [Decidable c] {x y : Prog ε σ α} (hx : c → C.Triple P x Q) (hy : ¬ c → C.Triple P y Q) :
    C.Triple P (if c then x else y) Q := by
  by_cases hc : c
  · rw [if_pos hc]
    exact hx hc
  · rw [if_neg hc]
    exact hy hc

theorem when {c : Prop} [Decidable c] {x : Prog ε σ Unit} {Q : Unit → σ → Prop} (hx : c → C.Triple P x Q)
    (hskip : ¬ c → ∀ s, P s → Q () s) : C.Triple P (Prog.when c x) Q :=
  ite hx fun hc => pure (hskip hc)

theorem each {f : α → Prog ε σ Unit} (h : ∀ a, C.Triple P (f a) fun _ => P) (l : List α) :
    C.Triple P (Prog.each f l) fun _ => P := by
  induction l with
  | nil => exact pure fun _ => id
  | cons a l ih => exact bind (h a) fun _ => ih

end Triple

/-- The program keeps an invariant. -/
def Keeps (C : Setting ε σ) (I : σ → Prop) (x : Prog ε σ α) : Prop := C.Triple I x fun _ => I

namespace Keeps

variable {I : σ → Prop}

theorem pure {a : α} : C.Keeps I (Pure.pure a) := Triple.pure fun _ => id

theorem stop {e : ε} (h : ∀ s, I s → C.mayStop e s) : C.Keeps I (Prog.stop e : Prog ε σ α) := Triple.stop h

theorem bind {x : Prog ε σ β} {f : β → Prog ε σ α} (hx : C.Keeps I x) (hf : ∀ b, C.Keeps I (f b)) :
    C.Keeps I (x >>= f) := Triple.bind hx hf

theorem read {g : σ → β} {f : β → Prog ε σ α} (h : ∀ b, C.Keeps I (f b)) : C.Keeps I (Prog.read g >>= f) :=
  Triple.read fun b => (h b).pre fun _ => And.right

theorem ite {c : Prop} [Decidable c] {x y : Prog ε σ α} (hx : C.Keeps I x) (hy : C.Keeps I y) :
    C.Keeps I (if c then x else y) := Triple.ite (fun _ => hx) fun _ => hy

theorem when {c : Prop} [Decidable c] {x : Prog ε σ Unit} (hx : C.Keeps I x) : C.Keeps I (Prog.when c x) :=
  ite hx pure

end Keeps

end Setting

section React

variable {ε σ β ν κ ι : Type} (take : ν → Prog ε σ (List κ × β)) (exec : (ν → Prog ε σ β) → κ → Prog ε σ Unit)

/-- The code that is called back with a notice: it takes from the state what operations to call and what to
answer, and calls them. At depth zero it only answers. -/
def react : ℕ → ν → Prog ε σ β
  | 0, notice => do
    let (_, answer) ← take notice
    pure answer
  | depth + 1, notice => do
    let (calls, answer) ← take notice
    Prog.each (exec (react depth)) calls
    pure answer

variable {take exec} {C : Setting ε σ} {I : ι → σ → Prop}

theorem react_triple (htake : ∀ i notice, C.Triple (I i) (take notice) fun _ => I i)
    (hexec : ∀ app : ν → Prog ε σ β, (∀ i notice, C.Triple (I i) (app notice) fun _ => I i) →
      ∀ i call, C.Triple (I i) (exec app call) fun _ => I i) (depth : ℕ) :
    ∀ i notice, C.Triple (I i) (react take exec depth notice) fun _ => I i := by
  induction depth with
  | zero => exact fun i notice => (htake i notice).bind fun _ => .pure fun _ => id
  | succ depth ih =>
    intro i notice
    apply (htake i notice).bind
    intro taken
    apply (Setting.Triple.each (hexec _ ih i) taken.1).bind
    exact fun _ => .pure fun _ => id

end React

end Ns3.Lib
