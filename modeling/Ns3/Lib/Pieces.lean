import Mathlib.Algebra.Group.Nat.Defs
import Mathlib.Data.List.Basic
import Mathlib.Order.Lattice

/-!
# Putting pieces together

A piece of a whole is a list with its offset in the whole. Pieces that come in any order, and may overlap, are kept in
the order of their offsets.

* `Pieces.insert` — puts a piece before the first one with a greater offset.
* `Pieces.Gapless`, `gapless_iff` — no piece begins after the end of those before it; for pieces in order this says
  that whatever lies before the end of a piece is covered.
* `Pieces.join`, `join_eq` — what pieces without gaps make is the whole up to their end.
* `getElem?_join` — for pieces that may differ where they overlap: each position is taken from the first piece that
  covers it. `Pieces.upToGap` are the pieces before the first gap.
-/

namespace Ns3.Lib.Pieces

variable {α : Type} {whole : List α} {p : List α × ℕ} {l : List (List α × ℕ)}

/-- The end of a piece. -/
def stop (p : List α × ℕ) : ℕ := p.2 + p.1.length

/-- The piece is one of the whole. -/
def Of (whole : List α) (p : List α × ℕ) : Prop :=
  stop p ≤ whole.length ∧ p.1 = (whole.drop p.2).take p.1.length

/-- The pieces with one more, before the first that has a greater offset. -/
def insert (p : List α × ℕ) : List (List α × ℕ) → List (List α × ℕ)
  | [] => [p]
  | q :: l => if p.2 < q.2 then p :: q :: l else q :: insert p l

/-- The pieces are in the order of their offsets. -/
def Sorted (l : List (List α × ℕ)) : Prop := l.Pairwise fun p q => p.2 ≤ q.2

/-- No piece begins after `b` and the ends of the pieces before it. -/
def Gapless (b : ℕ) : List (List α × ℕ) → Prop
  | [] => True
  | p :: l => p.2 ≤ b ∧ Gapless (max b (stop p)) l

/-- Position `i` lies in a piece. -/
def Covered (l : List (List α × ℕ)) (i : ℕ) : Prop := ∃ p ∈ l, p.2 ≤ i ∧ i < stop p

/-- Puts every piece behind what there is, less what is there already. -/
def join (start : List α) : List (List α × ℕ) → List α
  | [] => start
  | p :: l => join (start ++ p.1.drop (start.length - p.2)) l

theorem perm_insert (p : List α × ℕ) (l : List (List α × ℕ)) : (insert p l).Perm (p :: l) := by
  induction l with
  | nil => exact .refl _
  | cons q l ih =>
    rw [insert]
    split_ifs
    · exact .refl _
    · exact (ih.cons q).trans (.swap p q l)

theorem mem_insert_iff {q : List α × ℕ} : q ∈ insert p l ↔ q = p ∨ q ∈ l := by
  rw [(perm_insert p l).mem_iff, List.mem_cons]

theorem sorted_insert (h : Sorted l) : Sorted (insert p l) := by
  induction l with
  | nil => exact List.pairwise_singleton _ p
  | cons q l ih =>
    obtain ⟨hq, hl⟩ := List.pairwise_cons.mp h
    rw [insert]
    split_ifs with hlt
    · refine List.pairwise_cons.mpr ⟨fun r hr => ?_, h⟩
      rcases List.mem_cons.mp hr with rfl | hr
      · exact hlt.le
      · exact hlt.le.trans (hq r hr)
    · refine List.pairwise_cons.mpr ⟨fun r hr => ?_, ih hl⟩
      rcases mem_insert_iff.mp hr with rfl | hr
      · exact Nat.le_of_not_lt hlt
      · exact hq r hr

/-- A piece that comes last in the order goes to the end. -/
theorem insert_of_forall_le (h : ∀ q ∈ l, q.2 ≤ p.2) : insert p l = l ++ [p] := by
  induction l with
  | nil => rfl
  | cons q l ih =>
    obtain ⟨hq, hl⟩ := List.forall_mem_cons.mp h
    rw [insert, if_neg (Nat.not_lt.mpr hq), ih hl, List.cons_append]

/-- Another one leaves the last piece where it is. -/
theorem getLast?_insert (h : ¬ ∀ q ∈ l, q.2 ≤ p.2) : (insert p l).getLast? = l.getLast? := by
  induction l with
  | nil => exact absurd (fun _ hq => absurd hq List.not_mem_nil) h
  | cons q l ih =>
    rw [insert]
    split_ifs with hlt
    · rw [List.getLast?_cons_cons]
    · have hl : ¬ ∀ r ∈ l, r.2 ≤ p.2 :=
        fun hl => h (List.forall_mem_cons.mpr ⟨Nat.le_of_not_lt hlt, hl⟩)
      have hne : l ≠ [] := by
        rintro rfl
        exact hl fun _ hr => absurd hr List.not_mem_nil
      obtain ⟨r, l, rfl⟩ := List.exists_cons_of_ne_nil hne
      rw [List.getLast?_cons_cons, ← ih hl]
      cases hins : insert p (r :: l) with
      | nil => exact absurd (mem_insert_iff.mpr (.inl rfl)) (hins ▸ List.not_mem_nil)
      | cons s m => rw [List.getLast?_cons_cons]

/-- The last of pieces in order has the greatest offset. -/
theorem Sorted.le_getLast? {q r : List α × ℕ} (h : Sorted l) (hq : q ∈ l) (hr : l.getLast? = some r) : q.2 ≤ r.2 := by
  obtain ⟨m, rfl⟩ := List.getLast?_eq_some_iff.mp hr
  rcases List.mem_append.mp hq with hq | hq
  · exact (List.pairwise_append.mp h).2.2 q hq r (List.mem_singleton_self r)
  · rw [List.mem_singleton.mp hq]

/-- Pieces in order are without gaps if and only if everything before the end of a piece is covered. Empty pieces do not
count. -/
theorem gapless_iff {b : ℕ} (hsorted : Sorted l) (hempty : ∀ q ∈ l, q.1 = [] → q.2 ≤ b) :
    Gapless b l ↔ ∀ i, b ≤ i → (∃ q ∈ l, i < stop q) → Covered l i := by
  induction l generalizing b with
  | nil => exact iff_of_true trivial fun i _ h => absurd h (by simp)
  | cons p l ih =>
    obtain ⟨hp, hl⟩ := List.pairwise_cons.mp hsorted
    obtain ⟨hpempty, hlempty⟩ := List.forall_mem_cons.mp hempty
    rw [Gapless, ih hl fun q hq hnil => (hlempty q hq hnil).trans (le_max_left _ _)]
    constructor
    · rintro ⟨hle, hrest⟩ i hi ⟨q, hq, hlt⟩
      rcases Nat.lt_or_ge i (stop p) with h | h
      · exact ⟨p, List.mem_cons_self, hle.trans hi, h⟩
      · rcases List.mem_cons.mp hq with rfl | hq
        · exact absurd hlt (Nat.not_lt.mpr h)
        · obtain ⟨r, hr, hcov⟩ := hrest i (max_le hi h) ⟨q, hq, hlt⟩
          exact ⟨r, List.mem_cons_of_mem p hr, hcov⟩
    · intro h
      constructor
      · by_contra hlt
        -- nothing covers what lies just before the piece
        have hpos : 0 < p.1.length := List.length_pos_iff.mpr fun hnil => hlt (hpempty hnil)
        obtain ⟨q, hq, hle, -⟩ := h b le_rfl ⟨p, List.mem_cons_self, by rw [stop]; omega⟩
        rcases List.mem_cons.mp hq with rfl | hq
        · exact hlt hle
        · exact hlt ((hp q hq).trans hle)
      · intro i hi ⟨q, hq, hlt⟩
        obtain ⟨r, hr, hle, hcov⟩ := h i ((le_max_left _ _).trans hi) ⟨q, List.mem_cons_of_mem p hq, hlt⟩
        rcases List.mem_cons.mp hr with rfl | hr
        · exact absurd hcov (Nat.not_lt.mpr ((le_max_right _ _).trans hi))
        · exact ⟨r, hr, hle, hcov⟩

/-- The greatest end. -/
def reach (b : ℕ) (l : List (List α × ℕ)) : ℕ := l.foldl (fun b p => max b (stop p)) b

theorem reach_le {b n : ℕ} (hb : b ≤ n) (h : ∀ p ∈ l, stop p ≤ n) : reach b l ≤ n := by
  induction l generalizing b with
  | nil => exact hb
  | cons p l ih =>
    obtain ⟨hp, hl⟩ := List.forall_mem_cons.mp h
    exact ih (max_le hb hp) hl

theorem le_reach {b : ℕ} : b ≤ reach b l := by
  induction l generalizing b with
  | nil => exact le_rfl
  | cons p l ih => exact (le_max_left b (stop p)).trans ih

theorem stop_le_reach {b : ℕ} (h : p ∈ l) : stop p ≤ reach b l := by
  induction l generalizing b with
  | nil => exact absurd h List.not_mem_nil
  | cons q l ih =>
    rcases List.mem_cons.mp h with rfl | h
    · exact (le_max_right b (stop p)).trans le_reach
    · exact ih h

/-- A piece that begins within the start of the whole goes on from there. -/
theorem take_append_drop_of {n : ℕ} (hp : Of whole p) (hle : p.2 ≤ n) :
    whole.take n ++ p.1.drop (n - p.2) = whole.take (max n (stop p)) := by
  have hdrop : p.1.drop (n - p.2) = (whole.drop n).take (stop p - n) := by
    rw [hp.2, List.drop_take, List.drop_drop, Nat.add_sub_of_le hle]
    congr 1
    rw [stop]
    omega
  have hmax : max n (stop p) = n + (stop p - n) := by omega
  rw [hdrop, hmax, List.take_add]

/-- Pieces without gaps make the whole, up to their end. -/
theorem join_eq {n : ℕ} (hof : ∀ p ∈ l, Of whole p) (hn : n ≤ whole.length)
    (hgapless : Gapless n l) :
    join (whole.take n) l = whole.take (reach n l) := by
  induction l generalizing n with
  | nil => rfl
  | cons p l ih =>
    obtain ⟨hp, hl⟩ := List.forall_mem_cons.mp hof
    obtain ⟨hle, hrest⟩ := hgapless
    rw [join, List.length_take_of_le hn, take_append_drop_of hp hle]
    exact ih hl (max_le hn hp.1) hrest

variable {start : List α}

/-- Pieces make nothing that is longer than their end. -/
theorem length_join_le {n : ℕ} (hstart : start.length ≤ n) (h : ∀ p ∈ l, stop p ≤ n) : (join start l).length ≤ n := by
  induction l generalizing start with
  | nil => exact hstart
  | cons p l ih =>
    obtain ⟨hp, hl⟩ := List.forall_mem_cons.mp h
    refine ih ?_ hl
    rw [List.length_append, List.length_drop]
    rw [stop] at hp
    omega

/-! ### Pieces that differ where they overlap -/

/-- What the first piece that covers position `i` has there. -/
def itemAt (i : ℕ) : List (List α × ℕ) → Option α
  | [] => none
  | p :: l => if p.2 ≤ i ∧ i < stop p then p.1[i - p.2]? else itemAt i l

/-- The pieces before the first gap. -/
def upToGap (b : ℕ) : List (List α × ℕ) → List (List α × ℕ)
  | [] => []
  | p :: l => if p.2 ≤ b then p :: upToGap (max b (stop p)) l else []

/-- Up to the first gap, no piece ends before `b` and the ends of the pieces before it. -/
def Growing (b : ℕ) : List (List α × ℕ) → Prop
  | [] => True
  | p :: l => p.2 ≤ b → b ≤ stop p ∧ Growing (max b (stop p)) l

theorem gapless_upToGap (b : ℕ) (l : List (List α × ℕ)) : Gapless b (upToGap b l) := by
  induction l generalizing b with
  | nil => trivial
  | cons p l ih =>
    rw [upToGap]
    split_ifs with hle
    · exact ⟨hle, ih _⟩
    · trivial

theorem length_append_drop (hle : p.2 ≤ start.length) :
    (start ++ p.1.drop (start.length - p.2)).length = max start.length (stop p) := by
  rw [List.length_append, List.length_drop, stop]
  omega

theorem length_join (h : Gapless start.length l) : (join start l).length = reach start.length l := by
  induction l generalizing start with
  | nil => rfl
  | cons p l ih =>
    obtain ⟨hle, hrest⟩ := h
    rw [← length_append_drop hle] at hrest
    rw [join, ih hrest, length_append_drop hle]
    rfl

/-- What there is already stays. -/
theorem getElem?_join_of_lt {i : ℕ} (hi : i < start.length) : (join start l)[i]? = start[i]? := by
  induction l generalizing start with
  | nil => rfl
  | cons p l ih =>
    rw [join, ih (by rw [List.length_append]; omega), List.getElem?_append_left hi]

/-- Behind it, each position is taken from the first piece that covers it. -/
theorem getElem?_join {i : ℕ} (h : Gapless start.length l) (hi : start.length ≤ i) :
    (join start l)[i]? = itemAt i l := by
  induction l generalizing start with
  | nil => exact List.getElem?_eq_none hi
  | cons p l ih =>
    obtain ⟨hle, hrest⟩ := h
    have hlength := length_append_drop hle
    rw [join, itemAt]
    split_ifs with hcovers
    · rw [getElem?_join_of_lt (by omega), List.getElem?_append_right hi, List.getElem?_drop]
      congr 1
      omega
    · have hstop : stop p ≤ i := by
        by_contra hlt
        exact hcovers ⟨hle.trans hi, Nat.lt_of_not_le hlt⟩
      rw [← hlength] at hrest
      exact ih hrest (by omega)

theorem covered_of_lt_reach {b i : ℕ} (h : Gapless b l) (hi : b ≤ i) (hlt : i < reach b l) : Covered l i := by
  induction l generalizing b with
  | nil => exact absurd hlt (Nat.not_lt.mpr hi)
  | cons p l ih =>
    obtain ⟨hle, hrest⟩ := h
    rcases Nat.lt_or_ge i (stop p) with hin | hout
    · exact ⟨p, List.mem_cons_self, hle.trans hi, hin⟩
    · obtain ⟨q, hq, hcovers⟩ := ih hrest (max_le hi hout) hlt
      exact ⟨q, List.mem_cons_of_mem p hq, hcovers⟩

theorem covered_of_upToGap {b i : ℕ} (h : Covered (upToGap b l) i) : Covered l i := by
  induction l generalizing b with
  | nil => exact h
  | cons p l ih =>
    obtain ⟨q, hq, hcovers⟩ := h
    rw [upToGap] at hq
    split_ifs at hq
    · rcases List.mem_cons.mp hq with rfl | hq
      · exact ⟨q, List.mem_cons_self, hcovers⟩
      · obtain ⟨r, hr, hr'⟩ := ih ⟨q, hq, hcovers⟩
        exact ⟨r, List.mem_cons_of_mem p hr, hr'⟩
    · exact absurd hq List.not_mem_nil

/-- The pieces behind the first gap do not come first anywhere before it. -/
theorem itemAt_upToGap {b i : ℕ} (hi : b ≤ i) (hlt : i < reach b (upToGap b l)) :
    itemAt i (upToGap b l) = itemAt i l := by
  induction l generalizing b with
  | nil => rfl
  | cons p l ih =>
    rw [upToGap] at hlt ⊢
    split_ifs at hlt ⊢ with hle
    · rw [itemAt, itemAt]
      split_ifs with hcovers
      · rfl
      · have hstop : stop p ≤ i := by
          by_contra hin
          exact hcovers ⟨hle.trans hi, Nat.lt_of_not_le hin⟩
        exact ih (max_le hi hstop) hlt
    · exact absurd hlt (Nat.not_lt.mpr hi)

/-- The first gap is not covered by pieces in order. -/
theorem not_covered_reach {b : ℕ} (hsorted : Sorted l) : ¬ Covered l (reach b (upToGap b l)) := by
  induction l generalizing b with
  | nil => exact fun ⟨_, hq, _⟩ => absurd hq List.not_mem_nil
  | cons p l ih =>
    obtain ⟨hp, hl⟩ := List.pairwise_cons.mp hsorted
    rintro ⟨q, hq, hle, hlt⟩
    rw [upToGap] at hle hlt
    split_ifs at hle hlt with hbegin
    · rcases List.mem_cons.mp hq with rfl | hq
      · exact absurd hlt (Nat.not_lt.mpr (stop_le_reach List.mem_cons_self))
      · exact ih hl ⟨q, hq, hle, hlt⟩
    · have hbelow : p.2 ≤ q.2 := by
        rcases List.mem_cons.mp hq with rfl | hq
        · exact le_rfl
        · exact hp q hq
      exact hbegin (hbelow.trans hle)

end Ns3.Lib.Pieces
