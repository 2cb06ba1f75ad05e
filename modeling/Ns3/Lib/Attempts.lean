import Mathlib.Data.List.Basic

/-!
# Counting attempts

A program tries something again until it succeeds or gives up, for several subjects at once, and starts anew
later on. `Attempts` keeps what was done: rounds are numbered in the order they begin, and each
attempt is one of the round its subject is in.

* `Attempts.Within` — no round has more attempts than `most`, and the round of a subject that is still active has
  no more than the subject allows now.
* `Within.anti`, `Within.next`, `Within.again`, `Within.agains` — what keeps it: a subject that becomes inactive or
  allows more, a new round, and one more attempt, of one subject or of several.
-/

namespace Ns3.Lib

universe u

/-- The attempts that were made for the subjects `κ`. -/
structure Attempts (κ : Type u) where
  /-- How many rounds have begun. -/
  begun : ℕ
  /-- The number of the last round of a subject, from 1 on. -/
  current : κ → ℕ
  /-- The round of each attempt, oldest first. -/
  made : List ℕ

namespace Attempts

variable {κ : Type u}

/-- None yet. -/
def start : Attempts κ := ⟨0, fun _ => 0, []⟩

/-- How many attempts a round has. -/
def count (a : Attempts κ) (n : ℕ) : ℕ := a.made.count n

/-- The first attempt of a new round. -/
def next [DecidableEq κ] (k : κ) (a : Attempts κ) : Attempts κ :=
  { begun := a.begun + 1
    current := fun k' => if k' = k then a.begun + 1 else a.current k'
    made := a.made ++ [a.begun + 1] }

/-- One more attempt of the round a subject is in. -/
def again (k : κ) (a : Attempts κ) : Attempts κ := { a with made := a.made ++ [a.current k] }

theorem count_next [DecidableEq κ] (k : κ) (a : Attempts κ) (n : ℕ) :
    (a.next k).count n = a.count n + if a.begun + 1 = n then 1 else 0 := by
  simp [count, next, List.count_singleton]

theorem count_again (k : κ) (a : Attempts κ) (n : ℕ) :
    (a.again k).count n = a.count n + if a.current k = n then 1 else 0 := by
  simp [count, again, List.count_singleton]

/-- The rounds are within their bounds: `active` is how many attempts a subject that is active may have made in
its round. -/
structure Within (most : ℕ) (active : κ → Option ℕ) (a : Attempts κ) : Prop where
  /-- The rounds of the subjects have begun. -/
  current_le : ∀ k, a.current k ≤ a.begun
  current_inj : ∀ k k', 0 < a.current k → a.current k = a.current k' → k = k'
  /-- Attempts were made in rounds that have begun. -/
  made_le : ∀ n ∈ a.made, n ≤ a.begun
  count_le : ∀ n, a.count n ≤ most
  /-- Nor has that of an active subject. -/
  active_le : ∀ k m, active k = some m → 0 < a.current k ∧ a.count (a.current k) ≤ m

variable {most : ℕ} {active active' : κ → Option ℕ} {a : Attempts κ} {k : κ}

theorem within_start (most : ℕ) : (start : Attempts κ).Within most fun _ => none := by
  constructor
  · exact fun _ => Nat.le_refl 0
  · exact fun _ _ hpos => absurd hpos (Nat.lt_irrefl 0)
  · exact fun _ hn => absurd hn List.not_mem_nil
  · exact fun _ => Nat.zero_le _
  · exact fun _ _ hm => by cases hm

section

variable (h : a.Within most active)
include h

/-- Subjects become inactive, or may have made more attempts. -/
theorem Within.anti
    (hactive : ∀ k m', active' k = some m' → ∃ m, active k = some m ∧ m ≤ m') : a.Within most active' := by
  refine { h with active_le := fun k m' hm' => ?_ }
  obtain ⟨m, hm, hle⟩ := hactive k m' hm'
  obtain ⟨hpos, hcount⟩ := h.active_le k m hm
  exact ⟨hpos, Nat.le_trans hcount hle⟩

/-- A round begins. -/
theorem Within.next [DecidableEq κ] (hmost : 0 < most)
    (hactive : ∀ k' m', active' k' = some m' → k' = k ∧ 0 < m' ∨ k' ≠ k ∧ active k' = some m') :
    (a.next k).Within most active' := by
  -- nothing was done in the new round before
  have hnew : a.count (a.begun + 1) = 0 := by
    apply List.count_eq_zero.mpr
    intro hmem
    have hle := h.made_le _ hmem
    omega
  have hcurrent : ∀ k', (a.next k).current k' = if k' = k then a.begun + 1 else a.current k' := fun _ => rfl
  constructor
  · intro k'
    have hle := h.current_le k'
    rw [hcurrent]
    show _ ≤ a.begun + 1
    split <;> omega
  · intro i j hpos heq
    rw [hcurrent] at hpos
    rw [hcurrent, hcurrent] at heq
    have hi := h.current_le i
    have hj := h.current_le j
    by_cases hik : i = k <;> by_cases hjk : j = k
    · rw [hik, hjk]
    · rw [if_pos hik, if_neg hjk] at heq
      omega
    · rw [if_neg hik, if_pos hjk] at heq
      omega
    · rw [if_neg hik, if_neg hjk] at heq
      rw [if_neg hik] at hpos
      exact h.current_inj i j hpos heq
  · intro n hn
    show n ≤ a.begun + 1
    rcases List.mem_append.mp hn with hn | hn
    · exact Nat.le_succ_of_le (h.made_le n hn)
    · exact Nat.le_of_eq (List.mem_singleton.mp hn)
  · intro n
    rw [count_next]
    split
    · rename_i heq
      rw [← heq, hnew]
      omega
    · exact h.count_le n
  · intro k' m' hm'
    rcases hactive k' m' hm' with ⟨rfl, hpos⟩ | ⟨hne, hm⟩
    · have hk : (a.next k').current k' = a.begun + 1 := if_pos rfl
      rw [hk, count_next, hnew, if_pos rfl]
      omega
    · have hk : (a.next k).current k' = a.current k' := if_neg hne
      obtain ⟨hpos, hcount⟩ := h.active_le k' m' hm
      have hle := h.current_le k'
      rw [hk, count_next, if_neg (by omega)]
      exact ⟨hpos, hcount⟩

/-- One more attempt is made for an active subject. -/
theorem Within.again {m : ℕ} (hk : active k = some m) (hmost : m < most)
    (hactive : ∀ k' m', active' k' = some m' → k' = k ∧ m < m' ∨ k' ≠ k ∧ active k' = some m') :
    (a.again k).Within most active' := by
  obtain ⟨hpos, hcount⟩ := h.active_le k m hk
  refine { current_le := h.current_le, current_inj := h.current_inj, made_le := ?_, count_le := ?_,
           active_le := ?_ }
  · intro n hn
    rcases List.mem_append.mp hn with hn | hn
    · exact h.made_le n hn
    · rw [List.mem_singleton.mp hn]
      exact h.current_le k
  · intro n
    rw [count_again]
    split
    · rename_i heq
      rw [← heq]
      omega
    · exact h.count_le n
  · intro k' m' hm'
    show 0 < a.current k' ∧ (a.again k).count (a.current k') ≤ m'
    rw [count_again]
    rcases hactive k' m' hm' with ⟨rfl, hlt⟩ | ⟨hne, hm⟩
    · rw [if_pos rfl]
      exact ⟨hpos, by omega⟩
    · -- another subject is in another round
      rw [if_neg fun heq => hne (h.current_inj k k' hpos heq).symm]
      exact h.active_le k' m' hm

/-- One more attempt is made for each of several active subjects. -/
theorem Within.agains [DecidableEq κ] {ks : List κ} (hnodup : ks.Nodup)
    (hks : ∀ k ∈ ks, ∃ m, active k = some m ∧ m < most)
    (hactive : ∀ k m', active' k = some m' →
      (k ∈ ks ∧ ∃ m, active k = some m ∧ m < m') ∨ (k ∉ ks ∧ active k = some m')) :
    (ks.foldl (fun a k => a.again k) a).Within most active' := by
  induction ks generalizing a active with
  | nil =>
    refine h.anti fun k m' hm' => ?_
    rcases hactive k m' hm' with ⟨hmem, -⟩ | ⟨-, hm⟩
    · exact absurd hmem List.not_mem_nil
    · exact ⟨m', hm, Nat.le_refl _⟩
  | cons k ks ih =>
    obtain ⟨hnot, hnodup⟩ := List.nodup_cons.mp hnodup
    obtain ⟨m, hm, hlt⟩ := hks k List.mem_cons_self
    -- the first subject is done, and allows as much as it does in the end
    let between : κ → Option ℕ := fun k' => if k' = k then active' k else active k'
    have hbetween : (a.again k).Within most between := by
      refine h.again hm hlt fun k' m' hm' => ?_
      by_cases hk' : k' = k
      · left
        have hm'' : active' k = some m' := (if_pos hk').symm.trans hm'
        rcases hactive k m' hm'' with ⟨-, m₀, hm₀, hlt₀⟩ | ⟨hnot', -⟩
        · obtain rfl := Option.some.inj (hm.symm.trans hm₀)
          exact ⟨hk', hlt₀⟩
        · exact absurd List.mem_cons_self hnot'
      · exact .inr ⟨hk', (if_neg hk').symm.trans hm'⟩
    have hkeep : ∀ k', k' ≠ k → between k' = active k' := fun _ hne => if_neg hne
    refine ih hbetween hnodup (fun k' hk' => ?_) fun k' m' hm' => ?_
    · have hne : k' ≠ k := fun heq => hnot (heq ▸ hk')
      rw [hkeep k' hne]
      exact hks k' (List.mem_cons_of_mem _ hk')
    · by_cases hk' : k' = k
      · rw [hk'] at hm' ⊢
        exact .inr ⟨hnot, (if_pos rfl).trans hm'⟩
      · rw [hkeep k' hk']
        rcases hactive k' m' hm' with ⟨hmem, hlt'⟩ | ⟨hnot', hm''⟩
        · exact .inl ⟨List.mem_of_ne_of_mem hk' hmem, hlt'⟩
        · exact .inr ⟨fun hmem => hnot' (List.mem_cons_of_mem _ hmem), hm''⟩

end

end Attempts

end Ns3.Lib
