import Mathlib.Data.List.Basic

/-!
# Rows of spans

Parts of a line of places, as the buffers of protocols keep them that put a stream together: a `Span` is a number of
places from a first one on, and in a row they lie in order and apart. Spans may be empty.

* `put` — a span goes where it belongs; `InOrder.put`, `total_put`.
* `trim` — what is not yet in the row of a range from `head` to `tail`; `trim_spec`.
* `store` — the row with that; `store_spec`.
* `reach` — how far the row goes on from a place without a gap; `reach_spec`.
* `removeFirst` — the first places are taken out; `removeFirst_spec`.
* `Joins` — the spans follow each other without a gap; `Joins.covers_iff`.
-/

namespace Ns3.Lib

/-- Places from a first one on. -/
structure Span where
  first : ℕ
  length : ℕ

namespace Span

/-- The place behind the last. -/
def stop (x : Span) : ℕ := x.first + x.length

theorem first_le_stop (x : Span) : x.first ≤ x.stop := Nat.le_add_right _ _

/-- The spans are in order and apart. -/
def InOrder (l : List Span) : Prop := l.Pairwise fun x y => x.first < y.first ∧ x.stop ≤ y.first

/-- A place lies in one of the spans. -/
def Covers (l : List Span) (p : ℕ) : Prop := ∃ x ∈ l, x.first ≤ p ∧ p < x.stop

/-- The number of the places. -/
def total : List Span → ℕ
  | [] => 0
  | x :: l => x.length + total l

variable {l : List Span} {x : Span}

theorem inOrder_cons :
    InOrder (x :: l) ↔ (∀ y ∈ l, x.first < y.first ∧ x.stop ≤ y.first) ∧ InOrder l := List.pairwise_cons

theorem covers_cons {p : ℕ} : Covers (x :: l) p ↔ (x.first ≤ p ∧ p < x.stop) ∨ Covers l p := by
  simp only [Covers, List.mem_cons, exists_eq_or_imp]

theorem total_le (h : InOrder l) {e m : ℕ} (hem : e ≤ m) (hfrom : ∀ x ∈ l, e ≤ x.first) (hto : ∀ x ∈ l, x.stop ≤ m) :
    e + total l ≤ m := by
  induction l generalizing e with
  | nil => exact hem
  | cons x l ih =>
    obtain ⟨hx, hl⟩ := inOrder_cons.mp h
    have hstop : x.stop = x.first + x.length := rfl
    have hfirst := hfrom x List.mem_cons_self
    have hrest := ih hl (hto x List.mem_cons_self) (fun y hy => (hx y hy).2) fun y hy =>
      hto y (List.mem_cons_of_mem _ hy)
    rw [total]
    omega

theorem not_covers_nil (p : ℕ) : ¬ Covers [] p := by
  rintro ⟨x, hx, -⟩
  exact List.not_mem_nil hx

/-! ### A span more -/

/-- The row with a span more, which takes the place of one with the same first place. -/
def put (x : Span) : List Span → List Span
  | [] => [x]
  | y :: l => if x.first < y.first then x :: y :: l else if y.first < x.first then y :: put x l else x :: l

theorem mem_put {x z : Span} {l : List Span} (h : InOrder l) : z ∈ put x l ↔ z = x ∨ (z ∈ l ∧ z.first ≠ x.first) := by
  induction l with
  | nil => simp [put]
  | cons y l ih =>
    obtain ⟨hy, hl⟩ := inOrder_cons.mp h
    rw [put]
    split_ifs with h₁ h₂
    · -- all others lie behind
      have hne : ∀ z ∈ y :: l, z.first ≠ x.first := by
        intro z hz
        rcases List.mem_cons.mp hz with rfl | hz
        · exact (Nat.ne_of_lt h₁).symm
        · have := (hy z hz).1
          omega
      rw [List.mem_cons]
      exact or_congr_right ⟨fun hz => ⟨hz, hne z hz⟩, fun hz => hz.1⟩
    · rw [List.mem_cons, ih hl, List.mem_cons]
      constructor
      · rintro (rfl | rfl | ⟨hz, hne⟩)
        · exact .inr ⟨.inl rfl, Nat.ne_of_lt h₂⟩
        · exact .inl rfl
        · exact .inr ⟨.inr hz, hne⟩
      · rintro (rfl | ⟨rfl | hz, hne⟩)
        · exact .inr (.inl rfl)
        · exact .inl rfl
        · exact .inr (.inr ⟨hz, hne⟩)
    · have hfirst : y.first = x.first := by omega
      rw [List.mem_cons, List.mem_cons]
      refine or_congr_right ⟨fun hz => ⟨.inr hz, ?_⟩, ?_⟩
      · have := (hy z hz).1
        omega
      · rintro ⟨rfl | hz, hne⟩
        · exact absurd hfirst hne
        · exact hz

theorem InOrder.put (h : InOrder l) (hx : ∀ y ∈ l, y.stop ≤ x.first ∨ x.stop ≤ y.first) : InOrder (put x l) := by
  induction l with
  | nil => exact List.pairwise_singleton _ _
  | cons y l ih =>
    obtain ⟨hy, hl⟩ := inOrder_cons.mp h
    have hbehind : ∀ z ∈ y :: l, x.first < z.first → x.first < z.first ∧ x.stop ≤ z.first := by
      intro z hz hlt
      have := z.first_le_stop
      exact ⟨hlt, (hx z hz).resolve_left (by omega)⟩
    rw [Span.put]
    split_ifs with h₁ h₂
    · refine inOrder_cons.mpr ⟨fun z hz => hbehind z hz ?_, h⟩
      rcases List.mem_cons.mp hz with rfl | hz
      · exact h₁
      · exact Nat.lt_trans h₁ (hy z hz).1
    · refine inOrder_cons.mpr ⟨fun z hz => ?_, ih hl fun z hz => hx z (List.mem_cons_of_mem _ hz)⟩
      rcases (mem_put hl).mp hz with rfl | ⟨hz, -⟩
      · have := z.first_le_stop
        exact ⟨h₂, (hx y List.mem_cons_self).resolve_right (by omega)⟩
      · exact hy z hz
    · refine inOrder_cons.mpr ⟨fun z hz => hbehind z (List.mem_cons_of_mem _ hz) ?_, hl⟩
      have := (hy z hz).1
      omega

theorem total_put (h : InOrder l) (hx : ∀ y ∈ l, y.first = x.first → y.length = 0) :
    total (put x l) = total l + x.length := by
  induction l with
  | nil => exact Nat.add_comm x.length 0
  | cons y l ih =>
    obtain ⟨-, hl⟩ := inOrder_cons.mp h
    rw [put]
    split_ifs with h₁ h₂
    · rw [total, Nat.add_comm]
    · rw [total, ih hl fun z hz => hx z (List.mem_cons_of_mem _ hz), total, Nat.add_assoc]
    · rw [total, total, hx y List.mem_cons_self (by omega), Nat.zero_add, Nat.add_comm]

/-! ### The part of a range that is not in the row -/

/-- Goes over the spans that begin up to `tail`: those inside of the range are dropped, and the range ends where others
begin and begins where others end. The spans kept, the places dropped, and the range. -/
def trim (head tail : ℕ) : List Span → List Span × ℕ × ℕ × ℕ
  | [] => ([], 0, head, tail)
  | x :: l =>
    if tail < x.first then (x :: l, 0, head, tail)
    else if x.stop ≤ head then (trim head tail l).map (x :: ·) id
    else if head < x.first ∧ x.stop < tail then (trim head tail l).map id fun r => (r.1 + x.length, r.2)
    else (trim (if x.first ≤ head then x.stop else head) (if tail ≤ x.stop then x.first else tail) l).map (x :: ·) id

/-- What `trim` comes to: the range within the old one is apart from the spans that are kept, and those that are dropped
lie within it. -/
structure Trims (head tail : ℕ) (l kept : List Span) (dropped head' tail' : ℕ) : Prop where
  /-- The spans kept are in the row. -/
  sublist : kept.Sublist l
  total_eq : total kept + dropped = total l
  head_le : head ≤ head'
  tail_le : tail' ≤ tail
  /-- The range is apart from the spans. -/
  apart : ∀ x ∈ kept, x.stop ≤ head' ∨ tail' ≤ x.first
  /-- Spans that are dropped lie within the range. -/
  dropped_of : ∀ x ∈ l, x ∈ kept ∨ (head' ≤ x.first ∧ x.stop ≤ tail')
  /-- The range begins where it did, if all spans lie behind. -/
  head_of : (∀ x ∈ l, head < x.first) → head' = head
  /-- The range ends at the earliest where the spans begin. -/
  le_tail : ∀ m ≤ tail, (∀ x ∈ l, m ≤ x.first) → m ≤ tail'
  /-- The range begins at the latest where the spans end. -/
  head_bound : ∀ m, head ≤ m → (∀ x ∈ l, x.stop ≤ m) → head' ≤ m

theorem trim_spec (h : InOrder l) (head tail : ℕ) :
    Trims head tail l
      (trim head tail l).1 (trim head tail l).2.1 (trim head tail l).2.2.1 (trim head tail l).2.2.2 := by
  induction l generalizing head tail with
  | nil =>
    exact ⟨.slnil, rfl, Nat.le_refl _, Nat.le_refl _, fun x hx => absurd hx List.not_mem_nil,
      fun x hx => absurd hx List.not_mem_nil, fun _ => rfl, fun m hm _ => hm, fun m hm _ => hm⟩
  | cons x l ih =>
    obtain ⟨hx, hl⟩ := inOrder_cons.mp h
    rw [trim]
    by_cases h₁ : tail < x.first
    · -- the spans from here on lie behind the range
      rw [if_pos h₁]
      refine ⟨.refl _, rfl, Nat.le_refl _, Nat.le_refl _, fun y hy => .inr ?_, fun y hy => .inl hy, fun _ => rfl,
        fun m hm _ => hm, fun m hm _ => hm⟩
      rcases List.mem_cons.mp hy with rfl | hy
      · exact Nat.le_of_lt h₁
      · exact Nat.le_of_lt (Nat.lt_trans h₁ (hx y hy).1)
    rw [if_neg h₁]
    by_cases h₂ : x.stop ≤ head
    · obtain ⟨hsub, htotal, hhead, htail, hapart, hdropped, hhead_of, hle_tail, hbound⟩ := ih hl head tail
      rw [if_pos h₂]
      simp only [Prod.map_fst, Prod.map_snd, id_eq]
      refine ⟨hsub.cons_cons x, ?_, hhead, htail, List.forall_mem_cons.mpr ⟨.inl (Nat.le_trans h₂ hhead), hapart⟩,
        ?_, fun hall => ?_, fun m hm hall => ?_, fun m hm hall => ?_⟩
      · rw [total, total, Nat.add_assoc, htotal]
      · refine List.forall_mem_cons.mpr ⟨.inl List.mem_cons_self, fun y hy => ?_⟩
        exact (hdropped y hy).imp_left fun hy => List.mem_cons_of_mem _ hy
      · exact hhead_of (List.forall_mem_cons.mp hall).2
      · exact hle_tail m hm (List.forall_mem_cons.mp hall).2
      · exact hbound m hm (List.forall_mem_cons.mp hall).2
    rw [if_neg h₂]
    by_cases h₃ : head < x.first ∧ x.stop < tail
    · obtain ⟨hsub, htotal, hhead, htail, hapart, hdropped, hhead_of, hle_tail, hbound⟩ := ih hl head tail
      -- what follows does not come near the span that is dropped
      have hbegin := hhead_of fun y hy => Nat.lt_trans h₃.1 (hx y hy).1
      have hend := hle_tail x.stop (Nat.le_of_lt h₃.2) fun y hy => (hx y hy).2
      rw [if_pos h₃]
      simp only [Prod.map_fst, Prod.map_snd, id_eq]
      refine ⟨hsub.cons x, ?_, hhead, htail, hapart, List.forall_mem_cons.mpr ⟨.inr ⟨?_, hend⟩, hdropped⟩,
        fun hall => ?_, fun m hm hall => ?_, fun m hm hall => ?_⟩
      · rw [total, ← htotal]
        omega
      · rw [hbegin]
        exact Nat.le_of_lt h₃.1
      · exact hhead_of (List.forall_mem_cons.mp hall).2
      · exact hle_tail m hm (List.forall_mem_cons.mp hall).2
      · exact hbound m hm (List.forall_mem_cons.mp hall).2
    rw [if_neg h₃]
    -- the range is cut off at one end or at both
    have hends : ∃ head₁ tail₁, (if x.first ≤ head then x.stop else head) = head₁ ∧
        (if tail ≤ x.stop then x.first else tail) = tail₁ ∧ head ≤ head₁ ∧ tail₁ ≤ tail ∧
        (x.stop ≤ head₁ ∨ tail₁ ≤ x.first) ∧ (head < x.first → head₁ = head) ∧
        (∀ m ≤ tail, m ≤ x.first → m ≤ tail₁) ∧ (∀ m, head ≤ m → x.stop ≤ m → head₁ ≤ m) :=
      ⟨_, _, rfl, rfl, by split_ifs <;> omega, by split_ifs <;> omega, by split_ifs <;> omega,
        fun hlt => if_neg (Nat.not_le.mpr hlt), fun m _ _ => by split_ifs <;> omega,
        fun m _ _ => by split_ifs <;> omega⟩
    obtain ⟨head₁, tail₁, hhead₁, htail₁, hlater, hearlier, hself, hbegin, hend, hmax⟩ := hends
    obtain ⟨hsub, htotal, hhead, htail, hapart, hdropped, hhead_of, hle_tail, hbound⟩ := ih hl head₁ tail₁
    rw [hhead₁, htail₁]
    simp only [Prod.map_fst, Prod.map_snd, id_eq]
    refine ⟨hsub.cons_cons x, ?_, Nat.le_trans hlater hhead, Nat.le_trans htail hearlier,
      List.forall_mem_cons.mpr ⟨?_, hapart⟩, List.forall_mem_cons.mpr ⟨.inl List.mem_cons_self, fun y hy => ?_⟩,
      fun hall => ?_, fun m hm hall => ?_, fun m hm hall => ?_⟩
    · rw [total, total, Nat.add_assoc, htotal]
    · exact hself.imp (fun hle => Nat.le_trans hle hhead) fun hle => Nat.le_trans htail hle
    · exact (hdropped y hy).imp_left fun hy => List.mem_cons_of_mem _ hy
    · obtain ⟨hxlt, hrest⟩ := List.forall_mem_cons.mp hall
      rw [← hbegin hxlt] at hrest ⊢
      exact hhead_of hrest
    · obtain ⟨hmx, hrest⟩ := List.forall_mem_cons.mp hall
      exact hle_tail m (hend m hm hmx) hrest
    · obtain ⟨hxm, hrest⟩ := List.forall_mem_cons.mp hall
      exact hbound m (hmax m hm hxm) hrest

/-- The row with what was not in it of the range from `head` to `tail`. -/
def store (head tail : ℕ) (l : List Span) : List Span :=
  let (kept, _, head', tail') := trim head tail l
  if tail' ≤ head' then kept else put ⟨head', tail' - head'⟩ kept

/-- What `store` comes to. -/
structure Stores (head tail : ℕ) (l l' : List Span) (dropped added : ℕ) : Prop where
  inOrder : InOrder l'
  covers : ∀ p, Covers l p → Covers l' p
  /-- What comes in lies within the range. -/
  mem : ∀ x ∈ l', x ∈ l ∨ (head ≤ x.first ∧ x.first < x.stop ∧ x.stop ≤ tail)
  total_eq : total l' + dropped = total l + added

theorem store_spec (h : InOrder l) (head tail : ℕ) :
    Stores head tail l (store head tail l) (trim head tail l).2.1
      ((trim head tail l).2.2.2 - (trim head tail l).2.2.1) := by
  obtain ⟨hsub, htotal, hhead, htail, hapart, hdropped, -, -, -⟩ := trim_spec h head tail
  rw [store]
  generalize trim head tail l = r at *
  obtain ⟨kept, dropped, head', tail'⟩ := r
  dsimp only at *
  have hin : InOrder kept := List.Pairwise.sublist hsub h
  split_ifs with hempty
  · refine ⟨hin, fun p ⟨y, hy, hle, hlt⟩ => ?_, fun y hy => .inl (hsub.subset hy), by
      rw [htotal, Nat.sub_eq_zero_of_le hempty, Nat.add_zero]⟩
    rcases hdropped y hy with hy | ⟨hbegin, hend⟩
    · exact ⟨y, hy, hle, hlt⟩
    · omega
  · have hnone : ∀ y ∈ kept, y.first = head' → y.length = 0 := by
      intro y hy hfirst
      have hstop : y.stop = y.first + y.length := rfl
      have := hapart y hy
      omega
    have hstop : (⟨head', tail' - head'⟩ : Span).stop = tail' := Nat.add_sub_cancel' (Nat.le_of_not_le hempty)
    refine ⟨hin.put fun y hy => ?_, fun p ⟨y, hy, hle, hlt⟩ => ?_, fun y hy => ?_, ?_⟩
    · rw [hstop]
      exact hapart y hy
    · rcases hdropped y hy with hy | ⟨hbegin, hend⟩
      · refine ⟨y, (mem_put hin).mpr (.inr ⟨hy, fun hfirst => ?_⟩), hle, hlt⟩
        have := hnone y hy hfirst
        rw [stop] at hlt
        omega
      · exact ⟨_, (mem_put hin).mpr (.inl rfl), Nat.le_trans hbegin hle,
          by rw [hstop]; exact Nat.lt_of_lt_of_le hlt hend⟩
    · rcases (mem_put hin).mp hy with rfl | ⟨hy, -⟩
      · rw [hstop]
        exact .inr ⟨hhead, Nat.not_le.mp hempty, htail⟩
      · exact .inl (hsub.subset hy)
    · rw [total_put hin hnone, ← htotal]
      dsimp only
      omega

/-! ### How far the row goes on -/

/-- The first place from `n` on that is not in the row. -/
def reach (n : ℕ) : List Span → ℕ
  | [] => n
  | x :: l => if x.first < n then reach n l else if n < x.first then n else reach x.stop l

theorem le_reach (n : ℕ) (l : List Span) : n ≤ reach n l := by
  induction l generalizing n with
  | nil => exact Nat.le_refl n
  | cons x l ih =>
    rw [reach]
    split_ifs with h₁ h₂
    · exact ih n
    · exact Nat.le_refl n
    · have := x.first_le_stop
      have := ih x.stop
      omega

theorem reach_le {n m : ℕ} (hn : n ≤ m) (hl : ∀ x ∈ l, x.stop ≤ m) : reach n l ≤ m := by
  induction l generalizing n with
  | nil => exact hn
  | cons x l ih =>
    have hrest : ∀ y ∈ l, y.stop ≤ m := fun y hy => hl y (List.mem_cons_of_mem _ hy)
    rw [reach]
    split_ifs
    · exact ih hn hrest
    · exact hn
    · exact ih (hl x List.mem_cons_self) hrest

/-- All places before `reach n l` are in the row, and it is not: no span has places on both sides of `n`. -/
theorem reach_spec (h : InOrder l) {n : ℕ} (hn : ∀ x ∈ l, x.stop ≤ n ∨ n ≤ x.first) :
    (∀ p, n ≤ p → p < reach n l → Covers l p) ∧ ¬ Covers l (reach n l) := by
  induction l generalizing n with
  | nil => exact ⟨fun p hp hlt => absurd hlt (Nat.not_lt.mpr hp), not_covers_nil n⟩
  | cons x l ih =>
    obtain ⟨hx, hl⟩ := inOrder_cons.mp h
    have hself := hn x List.mem_cons_self
    have hrest : ∀ y ∈ l, y.stop ≤ n ∨ n ≤ y.first := fun y hy => hn y (List.mem_cons_of_mem _ hy)
    rw [reach]
    split_ifs with h₁ h₂
    · obtain ⟨hcovers, hnot⟩ := ih hl hrest
      have hle := le_reach n l
      refine ⟨fun p hp hlt => covers_cons.mpr (.inr (hcovers p hp hlt)), fun hcov => ?_⟩
      rcases covers_cons.mp hcov with ⟨-, hlt⟩ | hcov
      · omega
      · exact hnot hcov
    · refine ⟨fun p hp hlt => absurd hlt (Nat.not_lt.mpr hp), fun hcov => ?_⟩
      rcases covers_cons.mp hcov with ⟨hle, -⟩ | ⟨y, hy, hle, -⟩
      · omega
      · have := (hx y hy).1
        omega
    · have hfirst : x.first = n := by omega
      obtain ⟨hcovers, hnot⟩ := ih hl (n := x.stop) fun y hy => .inr (hx y hy).2
      have hle := le_reach x.stop l
      refine ⟨fun p hp hlt => covers_cons.mpr ?_, fun hcov => ?_⟩
      · by_cases hinside : p < x.stop
        · exact .inl ⟨by omega, hinside⟩
        · exact .inr (hcovers p (Nat.not_lt.mp hinside) hlt)
      · rcases covers_cons.mp hcov with ⟨-, hlt⟩ | hcov
        · omega
        · exact hnot hcov

/-! ### Without the first places -/

/-- The row without its first `k` places. -/
def removeFirst : ℕ → List Span → List Span
  | _, [] => []
  | k, x :: l =>
    if k = 0 then x :: l
    else if x.length ≤ k then removeFirst (k - x.length) l
    else put ⟨x.first + k, x.length - k⟩ l

/-- A row that begins at `e` begins there with its first span, but for spans without places, and goes on behind it. -/
theorem covers_from {e k : ℕ} (h : InOrder (x :: l)) (hfrom : ∀ y ∈ x :: l, e ≤ y.first)
    (hcovers : ∀ p, e ≤ p → p < e + k → Covers (x :: l) p) (hk : 0 < k) :
    (x.length = 0 ∨ x.first = e) ∧ ∀ p, e + min x.length k ≤ p → p < e + k → Covers l p := by
  have hstop : x.stop = x.first + x.length := rfl
  have hxe := hfrom x List.mem_cons_self
  have hfirst : x.length = 0 ∨ x.first = e := by
    obtain ⟨y, hy, hle, hlt⟩ := hcovers e (Nat.le_refl e) (by omega)
    rcases List.mem_cons.mp hy with rfl | hy
    · exact .inr (Nat.le_antisymm hle hxe)
    · have := ((inOrder_cons.mp h).1 y hy).2
      exact .inl (by omega)
  refine ⟨hfirst, fun p hp hlt => ?_⟩
  rcases covers_cons.mp (hcovers p (by omega) hlt) with hinside | hcov
  · omega
  · exact hcov

/-- What `removeFirst` comes to, where the places from `e` on are in the row. -/
structure Removes (e k : ℕ) (l l' : List Span) : Prop where
  inOrder : InOrder l'
  /-- The rest lies behind what was taken. -/
  le_first : ∀ x ∈ l', e + k ≤ x.first
  /-- The rest ends where the row ended. -/
  stop_le : ∀ x ∈ l', ∃ y ∈ l, x.stop ≤ y.stop
  covers_iff : ∀ p, e + k ≤ p → (Covers l' p ↔ Covers l p)
  total_eq : total l' + k = total l

theorem removeFirst_spec {e k : ℕ} (h : InOrder l) (hfrom : ∀ x ∈ l, e ≤ x.first)
    (hcovers : ∀ p, e ≤ p → p < e + k → Covers l p) : Removes e k l (removeFirst k l) := by
  induction l generalizing e k with
  | nil =>
    have hk : k = 0 := by
      by_contra hk
      exact not_covers_nil e (hcovers e (Nat.le_refl e) (by omega))
    subst hk
    exact ⟨h, fun x hx => absurd hx List.not_mem_nil, fun x hx => absurd hx List.not_mem_nil, fun p _ => Iff.rfl, rfl⟩
  | cons x l ih =>
    obtain ⟨hx, hl⟩ := inOrder_cons.mp h
    have hxe : e ≤ x.first := hfrom x List.mem_cons_self
    have hstop : x.stop = x.first + x.length := rfl
    rw [removeFirst]
    by_cases hk : k = 0
    · subst hk
      rw [if_pos rfl]
      exact ⟨h, hfrom, fun y hy => ⟨y, hy, Nat.le_refl _⟩, fun p _ => Iff.rfl, Nat.add_zero _⟩
    obtain ⟨hfirst, hbehind⟩ := covers_from h hfrom hcovers (Nat.pos_of_ne_zero hk)
    rw [if_neg hk]
    by_cases hwhole : x.length ≤ k
    · rw [if_pos hwhole]
      have hmin : e + min x.length k = e + x.length := by omega
      obtain ⟨hin, hle, hstops, hiff, htotal⟩ := @ih (e + x.length) (k - x.length) hl
        (fun y hy => by
          have := (hx y hy).2
          have := hfrom y (List.mem_cons_of_mem _ hy)
          omega)
        (fun p hp hlt => hbehind p (by omega) (by omega))
      have hplace : e + x.length + (k - x.length) = e + k := by omega
      rw [hplace] at hle hiff
      refine ⟨hin, hle, fun y hy => ?_, fun p hp => (hiff p hp).trans ?_, ?_⟩
      · obtain ⟨z, hz, hyz⟩ := hstops y hy
        exact ⟨z, List.mem_cons_of_mem _ hz, hyz⟩
      · rw [covers_cons]
        exact ⟨.inr, fun hcov => hcov.resolve_left (by omega)⟩
      · rw [total]
        omega
    · rw [if_neg hwhole]
      have hxe' : x.first = e := by omega
      have hrest : ∀ y ∈ l, (⟨x.first + k, x.length - k⟩ : Span).stop ≤ y.first := by
        intro y hy
        have := (hx y hy).2
        rw [stop]
        dsimp only
        omega
      have hmem := fun z => @mem_put ⟨x.first + k, x.length - k⟩ z l hl
      refine ⟨hl.put fun y hy => .inr (hrest y hy), fun y hy => ?_, fun y hy => ?_, fun p hp => ?_, ?_⟩
      · rcases (hmem y).mp hy with rfl | ⟨hy, -⟩
        · exact Nat.le_of_eq (by rw [hxe'])
        · have := (hx y hy).2
          omega
      · rcases (hmem y).mp hy with rfl | ⟨hy, -⟩
        · exact ⟨x, List.mem_cons_self, by rw [stop]; dsimp only; omega⟩
        · exact ⟨y, List.mem_cons_of_mem _ hy, Nat.le_refl _⟩
      · rw [covers_cons]
        constructor
        · rintro ⟨y, hy, hle, hlt⟩
          rcases (hmem y).mp hy with rfl | ⟨hy, -⟩
          · rw [stop] at hlt
            dsimp only at hle hlt
            exact .inl (by omega)
          · exact .inr ⟨y, hy, hle, hlt⟩
        · rintro (⟨hle, hlt⟩ | ⟨y, hy, hle, hlt⟩)
          · exact ⟨_, (hmem _).mpr (.inl rfl), by dsimp only; omega, by rw [stop]; dsimp only; omega⟩
          · refine ⟨y, (hmem y).mpr (.inr ⟨hy, ?_⟩), hle, hlt⟩
            have := (hx y hy).2
            dsimp only
            omega
      · have hput : total (put ⟨x.first + k, x.length - k⟩ l) = total l + (x.length - k) := by
          refine total_put hl fun y hy heq => ?_
          have := (hx y hy).2
          dsimp only at heq
          omega
        rw [hput, total]
        omega

/-- No span without places is left, if there was none. -/
theorem length_pos_removeFirst (h : InOrder l) (hpos : ∀ x ∈ l, 0 < x.length) (k : ℕ) :
    ∀ x ∈ removeFirst k l, 0 < x.length := by
  induction l generalizing k with
  | nil => exact fun x hx => absurd hx List.not_mem_nil
  | cons y l ih =>
    obtain ⟨-, hl⟩ := inOrder_cons.mp h
    obtain ⟨-, hrest⟩ := List.forall_mem_cons.mp hpos
    rw [removeFirst]
    split_ifs with hzero hwhole
    · exact hpos
    · exact ih hl hrest _
    · intro x hx
      rcases (mem_put hl).mp hx with rfl | ⟨hx, -⟩
      · exact Nat.sub_pos_of_lt (Nat.lt_of_not_le hwhole)
      · exact hrest x hx

/-! ### Spans that join -/

/-- The spans follow each other without a gap, from `b` to `n`. -/
def Joins (b : ℕ) : List Span → ℕ → Prop
  | [], n => b = n
  | x :: l, n => x.first = b ∧ Joins x.stop l n

theorem joins_append {b n : ℕ} {l₁ l₂ : List Span} : Joins b (l₁ ++ l₂) n ↔ ∃ m, Joins b l₁ m ∧ Joins m l₂ n := by
  induction l₁ generalizing b with
  | nil => exact ⟨fun h => ⟨b, rfl, h⟩, fun ⟨m, hm, h⟩ => hm ▸ h⟩
  | cons x l₁ ih =>
    rw [List.cons_append, Joins, ih]
    exact ⟨fun ⟨hx, m, hm, h⟩ => ⟨m, ⟨hx, hm⟩, h⟩, fun ⟨m, ⟨hx, hm⟩, h⟩ => ⟨hx, m, hm, h⟩⟩

theorem Joins.le {b n : ℕ} (h : Joins b l n) : b ≤ n := by
  induction l generalizing b with
  | nil => exact Nat.le_of_eq h
  | cons x l ih => exact h.1 ▸ Nat.le_trans x.first_le_stop (ih h.2)

theorem Joins.mem {b n : ℕ} (h : Joins b l n) (hx : x ∈ l) : b ≤ x.first ∧ x.stop ≤ n := by
  obtain ⟨l₁, l₂, rfl⟩ := List.append_of_mem hx
  obtain ⟨m, h₁, hfirst, h₂⟩ := joins_append.mp h
  exact ⟨hfirst ▸ h₁.le, h₂.le⟩

end Span

end Ns3.Lib
