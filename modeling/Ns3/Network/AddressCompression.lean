import Ns3.Network.PacketBB
import Mathlib.Data.List.GetD
import Mathlib.Data.List.Induction
import Mathlib.Order.MinMax

/-!
# The head and the tail of an address block

What `GetHeadTail` finds. The head is what all addresses share. The tail is counted for each address and the one before
it, and can be one octet longer than what was counted last: so it can be longer than what all addresses share.

* `commonHead`, `commonTail`, `pairTail` — what addresses share.
* `HeadTail.headlen_find`, `HeadTail.taillen_le_iff` — the two lengths that are found.
* `TailKept`, `tailKept_iff` — when all addresses share the head and the tail, and these do not overlap.
-/

namespace Ns3.PacketBB

open Lib

/-! ### Loops that stop -/

theorem le_firstUpTo_iff {n k : ℕ} {p : ℕ → Bool} : k ≤ firstUpTo n p ↔ k ≤ n ∧ ∀ i < k, p i = false := by
  constructor
  · intro h
    have hle : firstUpTo n p ≤ (List.range n).length := List.findIdx_le_length
    rw [List.length_range] at hle
    refine ⟨h.trans hle, fun i hi => ?_⟩
    have hnot := List.not_of_lt_findIdx (hi.trans_le h)
    rwa [List.getElem_range] at hnot
  · rintro ⟨hk, hp⟩
    rcases hk.lt_or_eq with hlt | rfl
    · refine List.le_findIdx_of_not (by rwa [List.length_range]) fun j hj => ?_
      rw [List.getElem_range]
      exact hp j hj
    · have hall : firstUpTo k p = (List.range k).length :=
        List.findIdx_eq_length_of_false fun i hi => hp i (List.mem_range.mp hi)
      rw [hall, List.length_range]

theorem firstUpTo_le (n : ℕ) (p : ℕ → Bool) : firstUpTo n p ≤ n := (le_firstUpTo_iff.mp le_rfl).1

theorem firstUpTo_min (m n : ℕ) (p : ℕ → Bool) : firstUpTo (min m n) p = min m (firstUpTo n p) := by
  refine eq_of_forall_le_iff fun k => ?_
  rw [le_firstUpTo_iff, le_min_iff, le_min_iff, le_firstUpTo_iff, and_assoc]

/-! ### What addresses share -/

section Shared

variable {len : ℕ} {as bs : List (List UInt8)} {a b : List UInt8}

/-- The number of octets at the start that all addresses share. -/
def commonHead (len : ℕ) (as : List (List UInt8)) : ℕ :=
  firstUpTo len fun i => as.any fun a => (as.headD [])[i]? != a[i]?

/-- The number of octets at the end that two addresses share. -/
def commonTail (len : ℕ) (a b : List UInt8) : ℕ :=
  firstUpTo len fun k => a[len - 1 - k]? != b[len - 1 - k]?

/-- The octets at the end that an address and the next one share, behind the first octet in which the addresses up to
these differ. -/
def pairTail (len : ℕ) (as : List (List UInt8)) (i : ℕ) : ℕ :=
  min (commonTail len (as.getD i []) (as.getD (i + 1) [])) (len - 1 - commonHead len (as.take (i + 2)))

/-- All addresses share the last `n` octets. -/
def ShareTail (len n : ℕ) (as : List (List UInt8)) : Prop :=
  ∀ a ∈ as, ∀ b ∈ as, a.drop (len - n) = b.drop (len - n)
deriving Decidable

theorem le_commonHead_iff {k : ℕ} :
    k ≤ commonHead len as ↔ k ≤ len ∧ ∀ i < k, ∀ a ∈ as, (as.headD [])[i]? = a[i]? := by
  rw [commonHead, le_firstUpTo_iff]
  simp only [List.any_eq_false, bne_iff_ne, ne_eq, Decidable.not_not]

theorem commonHead_nil (len : ℕ) : commonHead len [] = len :=
  le_antisymm (firstUpTo_le _ _) (le_commonHead_iff.mpr ⟨le_rfl, fun _ _ _ ha => absurd ha List.not_mem_nil⟩)

theorem commonHead_le (len : ℕ) (as : List (List UInt8)) : commonHead len as ≤ len := firstUpTo_le _ _

theorem headD_append (has : as ≠ []) : (as ++ bs).headD [] = as.headD [] := by
  cases as with
  | nil => exact absurd rfl has
  | cons a as => rfl

theorem commonHead_append_le (len : ℕ) (has : as ≠ []) (bs : List (List UInt8)) :
    commonHead len (as ++ bs) ≤ commonHead len as := by
  obtain ⟨hle, hshared⟩ := le_commonHead_iff.mp (le_refl (commonHead len (as ++ bs)))
  rw [headD_append has] at hshared
  exact le_commonHead_iff.mpr ⟨hle, fun i hi a ha => hshared i hi a (List.mem_append_left _ ha)⟩

theorem commonHead_lt_of_take {k : ℕ} (h : commonHead len (as.take k) < len) : commonHead len as < len := by
  have hne : as.take k ≠ [] := by
    intro hnil
    rw [hnil, commonHead_nil] at h
    exact lt_irrefl _ h
  have happend := commonHead_append_le len hne (as.drop k)
  rw [List.take_append_drop] at happend
  exact happend.trans_lt h

theorem take_eq_take_iff {k : ℕ} : a.take k = b.take k ↔ ∀ i < k, a[i]? = b[i]? := by
  constructor
  · intro h i hi
    rw [← List.getElem?_take_of_lt hi, h, List.getElem?_take_of_lt hi]
  · intro h
    refine List.ext_getElem? fun i => ?_
    rw [List.getElem?_take, List.getElem?_take]
    split_ifs with hi
    · exact h i hi
    · rfl

theorem take_commonHead (ha : a ∈ as) (hb : b ∈ as) :
    a.take (commonHead len as) = b.take (commonHead len as) := by
  have hshared := (le_commonHead_iff.mp (le_refl (commonHead len as))).2
  exact take_eq_take_iff.mpr fun i hi => (hshared i hi a ha).symm.trans (hshared i hi b hb)

theorem ShareTail.mono {m n : ℕ} (h : ShareTail len n as) (hm : m ≤ n) : ShareTail len m as := by
  intro a ha b hb
  have hdrop : len - m = len - n + (n - m - (n - len)) := by omega
  rw [hdrop, ← List.drop_drop, ← List.drop_drop, h a ha b hb]

theorem pairTail_le (len : ℕ) (as : List (List UInt8)) (i : ℕ) :
    pairTail len as i ≤ len - 1 - commonHead len (as.take (i + 2)) := min_le_right _ _

/-- The last pair. -/
theorem pairTail_append_last (as : List (List UInt8)) (last a : List UInt8) :
    pairTail len (as ++ [last] ++ [a]) as.length =
      min (commonTail len last a) (len - 1 - commonHead len (as ++ [last] ++ [a])) := by
  have hlast : (as ++ [last] ++ [a]).getD as.length [] = last := by simp
  have ha : (as ++ [last] ++ [a]).getD (as.length + 1) [] = a := by simp
  have htake : (as ++ [last] ++ [a]).take (as.length + 2) = as ++ [last] ++ [a] :=
    List.take_of_length_le (by simp)
  rw [pairTail, hlast, ha, htake]

theorem pairTail_append {i : ℕ} (hi : i + 1 < as.length) : pairTail len (as ++ bs) i = pairTail len as i := by
  rw [pairTail, pairTail, List.getD_append _ _ _ _ (by omega), List.getD_append _ _ _ _ hi,
    List.take_append_of_le_length (by omega)]

end Shared

/-! ### The loop -/

namespace HeadTail

variable {len : ℕ} {as : List (List UInt8)} {a last : List UInt8}

theorem find_append (has : as ≠ []) : find len (as ++ [a]) = (find len as).next len a := by
  rw [find, find, headD_append has, List.foldl_append]
  rfl

theorem buflast_find_append (as : List (List UInt8)) (a : List UInt8) : (find len (as ++ [a])).buflast = a := by
  rw [find, List.foldl_append]
  rfl

theorem bufcur_find_append (as : List (List UInt8)) (last a : List UInt8) :
    (find len (as ++ [last] ++ [a])).bufcur = last := by
  rw [find_append (List.append_ne_nil_of_right_ne_nil _ (List.cons_ne_nil _ _))]
  exact buflast_find_append as last

theorem find_singleton (len : ℕ) (a : List UInt8) :
    (find len [a]).headlen = len ∧ (0 < len → (find len [a]).taillen = len) := by
  have hhead : (find len [a]).headlen = len := by
    refine le_antisymm (firstUpTo_le _ _) (le_firstUpTo_iff.mpr ⟨le_rfl, fun i _ => ?_⟩)
    simp
  refine ⟨hhead, fun hlen => ?_⟩
  have hnot : ¬ (find len [a]).headlen ≤ len - 1 := by omega
  exact if_neg hnot

/-- The head is what all addresses share. -/
theorem headlen_find (has : as ≠ []) : (find len as).headlen = commonHead len as := by
  induction as using List.reverseRecOn with
  | nil => exact absurd rfl has
  | append_singleton as a ih =>
    cases as using List.reverseRecOn with
    | nil =>
      rw [List.nil_append, (find_singleton len a).1]
      refine (le_antisymm (commonHead_le _ _) (le_commonHead_iff.mpr ⟨le_rfl, fun i _ b hb => ?_⟩)).symm
      rw [List.mem_singleton.mp hb]
      rfl
    | append_singleton as last =>
      have hne : as ++ [last] ≠ [] := List.append_ne_nil_of_right_ne_nil _ (List.cons_ne_nil _ _)
      rw [find_append hne]
      refine eq_of_forall_le_iff fun k => ?_
      change k ≤ firstUpTo (find len (as ++ [last])).headlen _ ↔ _
      rw [le_firstUpTo_iff, ih hne, le_commonHead_iff, le_commonHead_iff, headD_append hne, buflast_find_append,
        and_assoc]
      refine and_congr_right fun _ => ?_
      simp only [bne_eq_false_iff_eq, List.mem_append (s := as ++ [last]), List.mem_singleton]
      constructor
      · rintro ⟨hshared, ha⟩ i hi b (hb | rfl)
        · exact hshared i hi b hb
        · exact (hshared i hi last (List.mem_append_right _ (List.mem_singleton_self _))).trans (ha i hi)
      · intro hshared
        refine ⟨fun i hi b hb => hshared i hi b (.inl hb), fun i hi => ?_⟩
        exact (hshared i hi last (.inl (List.mem_append_right _ (List.mem_singleton_self _)))).symm.trans
          (hshared i hi a (.inr rfl))

/-- The tail after a round that finds a difference. -/
theorem taillen_find_append (hhead : commonHead len (as ++ [last] ++ [a]) < len) :
    (find len (as ++ [last] ++ [a])).taillen =
      min ((find len (as ++ [last])).taillen + 1) (pairTail len (as ++ [last] ++ [a]) as.length) := by
  have hne : as ++ [last] ≠ [] := List.append_ne_nil_of_right_ne_nil _ (List.cons_ne_nil _ _)
  have hheadlen : ((find len (as ++ [last])).next len a).headlen = commonHead len (as ++ [last] ++ [a]) := by
    rw [← find_append hne, headlen_find (List.append_ne_nil_of_left_ne_nil hne _)]
  have hle : ((find len (as ++ [last])).next len a).headlen ≤ len - 1 := by omega
  rw [find_append hne]
  change (if ((find len (as ++ [last])).next len a).headlen ≤ len - 1 then _ else _) = _
  rw [if_pos hle]
  change firstUpTo (min _ (len - 1 - ((find len (as ++ [last])).next len a).headlen)) _ = _
  have hcap : len - 1 - commonHead len (as ++ [last] ++ [a]) =
      min (len - 1 - commonHead len (as ++ [last] ++ [a])) len := by omega
  rw [hheadlen, buflast_find_append, firstUpTo_min, hcap, firstUpTo_min, pairTail_append_last]
  exact congrArg (min _) (min_comm _ _)

/-- As long as the addresses are all the same, the tail is a whole address. -/
theorem taillen_find_of_same (hlen : 0 < len) (has : as ≠ []) (hhead : commonHead len as = len) :
    (find len as).taillen = len := by
  induction as using List.reverseRecOn with
  | nil => exact absurd rfl has
  | append_singleton as a ih =>
    cases as using List.reverseRecOn with
    | nil => exact (find_singleton len a).2 hlen
    | append_singleton as last =>
      have hne : as ++ [last] ≠ [] := List.append_ne_nil_of_right_ne_nil _ (List.cons_ne_nil _ _)
      have hbefore : commonHead len (as ++ [last]) = len :=
        le_antisymm (commonHead_le _ _) (hhead.ge.trans (commonHead_append_le len hne _))
      have hheadlen : ((find len (as ++ [last])).next len a).headlen = len := by
        rw [← find_append hne, headlen_find (List.append_ne_nil_of_left_ne_nil hne _), hhead]
      have hnot : ¬ ((find len (as ++ [last])).next len a).headlen ≤ len - 1 := by omega
      rw [find_append hne]
      exact (if_neg hnot).trans (ih hne hbefore)

/-- The tail that is found: what some address shares with the next one, and an octet for each of those behind. -/
theorem taillen_le_iff (hlen : 0 < len) (hhead : commonHead len as < len) (n : ℕ) :
    (find len as).taillen ≤ n ↔ ∃ i, i + 1 < as.length ∧ commonHead len (as.take (i + 2)) < len ∧
      pairTail len as i + (as.length - 2 - i) ≤ n := by
  induction as using List.reverseRecOn generalizing n with
  | nil => exact absurd (commonHead_nil len) hhead.ne
  | append_singleton as a ih =>
    cases as using List.reverseRecOn with
    | nil =>
      rw [List.nil_append, ← headlen_find (List.cons_ne_nil _ _), (find_singleton len a).1] at hhead
      exact absurd hhead (lt_irrefl _)
    | append_singleton as last =>
      have hne : as ++ [last] ≠ [] := List.append_ne_nil_of_right_ne_nil _ (List.cons_ne_nil _ _)
      have hlength : (as ++ [last] ++ [a]).length = as.length + 2 := by simp
      have hwhole : (as ++ [last] ++ [a]).take (as.length + 2) = as ++ [last] ++ [a] :=
        List.take_of_length_le hlength.le
      rw [taillen_find_append hhead, min_le_iff, hlength]
      constructor
      · rintro (hgrown | hpair)
        · by_cases hbefore : commonHead len (as ++ [last]) < len
          · obtain ⟨i, hi, hdiffer, hn⟩ := (ih hbefore (n - 1)).mp (by omega)
            rw [List.length_append, List.length_singleton] at hi hn
            refine ⟨i, by omega, ?_, ?_⟩
            · rwa [List.take_append_of_le_length (by simp; omega)]
            · rw [pairTail_append (by simpa using hi)]
              omega
          · have hsame := taillen_find_of_same hlen hne (le_antisymm (commonHead_le _ _) (not_lt.mp hbefore))
            refine ⟨as.length, by omega, by rwa [hwhole], ?_⟩
            have hle := pairTail_le len (as ++ [last] ++ [a]) as.length
            omega
        · exact ⟨as.length, by omega, by rwa [hwhole], by omega⟩
      · rintro ⟨i, hi, hdiffer, hn⟩
        by_cases hlast : i = as.length
        · subst hlast
          exact .inr (by omega)
        · rw [List.take_append_of_le_length (by simp; omega)] at hdiffer
          rw [pairTail_append (by simp; omega)] at hn
          have hle := (ih (commonHead_lt_of_take hdiffer) (n - 1)).mpr ⟨i, by simp; omega, hdiffer, by simp; omega⟩
          exact .inl (by omega)

/-- Behind a difference the head and the tail leave out the octet that differs. -/
theorem headlen_add_taillen_lt (has : 2 ≤ as.length) (hhead : commonHead len as < len) :
    (find len as).headlen + (find len as).taillen < len := by
  cases as using List.reverseRecOn with
  | nil => simp at has
  | append_singleton as a =>
    cases as using List.reverseRecOn with
    | nil => simp at has
    | append_singleton as last =>
      have hle := pairTail_le len (as ++ [last] ++ [a]) as.length
      rw [List.take_of_length_le (by simp)] at hle
      rw [headlen_find (List.append_ne_nil_of_right_ne_nil _ (List.cons_ne_nil _ _)), taillen_find_append hhead]
      omega

theorem headlen_le (len : ℕ) (has : as ≠ []) : (find len as).headlen ≤ len :=
  (headlen_find has).trans_le (commonHead_le len as)

theorem taillen_le (hlen : 0 < len) (has : 2 ≤ as.length) : (find len as).taillen ≤ len := by
  by_cases hhead : commonHead len as < len
  · have hlt := headlen_add_taillen_lt has hhead
    omega
  · have hne : as ≠ [] := List.ne_nil_of_length_pos (Nat.zero_lt_of_lt has)
    exact (taillen_find_of_same hlen hne (le_antisymm (commonHead_le _ _) (not_lt.mp hhead))).le

theorem bufcur_mem (has : 2 ≤ as.length) : (find len as).bufcur ∈ as := by
  cases as using List.reverseRecOn with
  | nil => simp at has
  | append_singleton as a =>
    cases as using List.reverseRecOn with
    | nil => simp at has
    | append_singleton as last =>
      rw [bufcur_find_append]
      simp

end HeadTail

/-! ### Addresses that keep their tail -/

/-- The addresses differ, and all of them share as many octets at the end as some address shares with the next one, and
one for each address behind. -/
def TailKept (len : ℕ) (as : List (List UInt8)) : Prop :=
  ∃ i, i + 1 < as.length ∧ commonHead len (as.take (i + 2)) < len ∧
    ShareTail len (pairTail len as i + (as.length - 2 - i)) as

/-- The addresses keep their tail exactly if the head and the tail that are found do not overlap and all addresses
share the tail. -/
theorem tailKept_iff {len : ℕ} {as : List (List UInt8)} (hlen : 0 < len) (has : 2 ≤ as.length) :
    TailKept len as ↔ (HeadTail.find len as).headlen + (HeadTail.find len as).taillen ≤ len ∧
      ShareTail len (HeadTail.find len as).taillen as := by
  have hne : as ≠ [] := List.ne_nil_of_length_pos (Nat.zero_lt_of_lt has)
  constructor
  · rintro ⟨i, hi, hdiffer, hshare⟩
    have hhead := commonHead_lt_of_take hdiffer
    have hle := (HeadTail.taillen_le_iff hlen hhead _).mpr ⟨i, hi, hdiffer, le_rfl⟩
    exact ⟨(HeadTail.headlen_add_taillen_lt has hhead).le, hshare.mono hle⟩
  · rintro ⟨hsum, hshare⟩
    have hhead : commonHead len as < len := by
      by_contra hnot
      have hsame : commonHead len as = len := le_antisymm (commonHead_le _ _) (not_lt.mp hnot)
      rw [HeadTail.headlen_find hne, hsame, HeadTail.taillen_find_of_same hlen hne hsame] at hsum
      omega
    obtain ⟨i, hi, hdiffer, hle⟩ := (HeadTail.taillen_le_iff hlen hhead _).mp le_rfl
    exact ⟨i, hi, hdiffer, hshare.mono hle⟩

end Ns3.PacketBB
