import Mathlib.Logic.Equiv.Basic
import Mathlib.Order.Lattice

/-!
# Binary heaps

The places of a binary heap are the numbers from `1` to `n`, and the parent of a place is its half. `k i` is
the priority at the place `i`, so exchanging two places is `k ∘ Equiv.swap i j`.

A heap whose order is broken at one place, the hole, is mended by exchanging the hole with its parent
(`UpOrder`) or with its smaller child (`DownOrder`) until nothing is broken: `swap` is such an exchange,
`ordered` the end of it.
-/

namespace Ns3.Lib

universe u

variable {κ : Type u} [LinearOrder κ] {k : ℕ → κ} {n hole : ℕ}

/-- No place has a smaller priority than its parent. -/
def HeapOrdered (k : ℕ → κ) (n : ℕ) : Prop := ∀ i, 2 ≤ i → i ≤ n → k (i / 2) ≤ k i

/-- The root has the smallest priority. -/
theorem HeapOrdered.root_le (h : HeapOrdered k n) : ∀ i, 1 ≤ i → i ≤ n → k 1 ≤ k i := by
  intro i
  induction i using Nat.strongRecOn with
  | ind i ih =>
    intro hi hn
    rcases Nat.lt_or_ge i 2 with hlt | hge
    · obtain rfl : i = 1 := by omega
      exact le_rfl
    · exact (ih (i / 2) (by omega) (by omega) (by omega)).trans (h i hge hn)

theorem HeapOrdered.congr {k' : ℕ → κ} (h : HeapOrdered k n) (hk : ∀ i, 1 ≤ i → i ≤ n → k' i = k i) :
    HeapOrdered k' n := by
  intro i hi hn
  rw [hk i (by omega) hn, hk (i / 2) (by omega) (by omega)]
  exact h i hi hn

/-- The children of the hole are not smaller than its parent. -/
def GrandOrdered (k : ℕ → κ) (n hole : ℕ) : Prop :=
  2 ≤ hole → ∀ i, i / 2 = hole → i ≤ n → k (hole / 2) ≤ k i

/-- The heap is in order but for the hole, which may be smaller than its parent. -/
structure UpOrder (k : ℕ → κ) (n hole : ℕ) : Prop where
  /-- Other places are not smaller than their parents. -/
  except : ∀ i, 2 ≤ i → i ≤ n → i ≠ hole → k (i / 2) ≤ k i
  /-- The hole may take its parent's place. -/
  grand : GrandOrdered k n hole

/-- The heap is in order but for the hole, which may be larger than its children. -/
structure DownOrder (k : ℕ → κ) (n hole : ℕ) : Prop where
  /-- Places other than the hole's children are not smaller than their parents. -/
  except : ∀ i, 2 ≤ i → i ≤ n → i / 2 ≠ hole → k (i / 2) ≤ k i
  /-- The hole's children may take its place. -/
  grand : GrandOrdered k n hole

theorem UpOrder.ordered (h : UpOrder k n hole) (hhole : 2 ≤ hole → hole ≤ n → k (hole / 2) ≤ k hole) :
    HeapOrdered k n := by
  intro i hi hn
  by_cases hih : i = hole
  · subst hih
    exact hhole hi hn
  · exact h.except i hi hn hih

theorem DownOrder.ordered (h : DownOrder k n hole) (hhole : ∀ i, i / 2 = hole → 2 ≤ i → i ≤ n → k hole ≤ k i) :
    HeapOrdered k n := by
  intro i hi hn
  by_cases hih : i / 2 = hole
  · rw [hih]
    exact hhole i hih hi hn
  · exact h.except i hi hn hih

omit [LinearOrder κ] in
private theorem swap_of_ne {a b i : ℕ} (ha : i ≠ a) (hb : i ≠ b) : (k ∘ Equiv.swap a b) i = k i := by
  rw [Function.comp_apply, Equiv.swap_apply_of_ne_of_ne ha hb]

omit [LinearOrder κ] in
private theorem swap_left (a b : ℕ) : (k ∘ Equiv.swap a b) a = k b := by
  rw [Function.comp_apply, Equiv.swap_apply_left]

omit [LinearOrder κ] in
private theorem swap_right (a b : ℕ) : (k ∘ Equiv.swap a b) b = k a := by
  rw [Function.comp_apply, Equiv.swap_apply_right]

/-- The hole takes its parent's place. -/
theorem UpOrder.swap (h : UpOrder k n hole) (hhole : 2 ≤ hole) (hn : hole ≤ n) (hlt : k hole < k (hole / 2)) :
    UpOrder (k ∘ Equiv.swap hole (hole / 2)) n (hole / 2) := by
  have hparent : 2 ≤ hole / 2 → k (hole / 2 / 2) ≤ k (hole / 2) :=
    fun hp => h.except (hole / 2) hp (by omega) (by omega)
  constructor
  · intro i hi hin hne
    by_cases hih : i = hole
    · subst hih
      rw [swap_left, swap_right]
      exact hlt.le
    rw [swap_of_ne hih hne]
    by_cases hph : i / 2 = hole
    · rw [hph, swap_left]
      exact h.grand hhole i hph hin
    · by_cases hpp : i / 2 = hole / 2
      · rw [hpp, swap_right]
        have hle := h.except i hi hin hih
        rw [hpp] at hle
        exact hlt.le.trans hle
      · rw [swap_of_ne hph hpp]
        exact h.except i hi hin hih
  · intro hp i hi hin
    rw [swap_of_ne (by omega) (by omega)]
    by_cases hih : i = hole
    · rw [hih, swap_left]
      exact hparent hp
    · rw [swap_of_ne hih (by omega)]
      have hle := h.except i (by omega) hin hih
      rw [hi] at hle
      exact (hparent hp).trans hle

/-- The hole's smaller child takes its place. -/
theorem DownOrder.swap (h : DownOrder k n hole) {c : ℕ} (hc : c / 2 = hole) (hc₂ : 2 ≤ c) (hn : c ≤ n)
    (hmin : ∀ i, i / 2 = hole → 2 ≤ i → i ≤ n → k c ≤ k i) (hle : k c ≤ k hole) :
    DownOrder (k ∘ Equiv.swap hole c) n c := by
  constructor
  · intro i hi hin hne
    by_cases hih : i = hole
    · subst hih
      rw [swap_left, swap_of_ne (by omega) (by omega)]
      exact h.grand hi c hc hn
    by_cases hic : i = c
    · rw [hic, hc, swap_left, swap_right]
      exact hle
    rw [swap_of_ne hih hic]
    by_cases hph : i / 2 = hole
    · rw [hph, swap_left]
      exact hmin i hph hi hin
    · rw [swap_of_ne hph hne]
      exact h.except i hi hin hph
  · intro _ i hi hin
    rw [hc, swap_left, swap_of_ne (by omega) (by omega)]
    have hle := h.except i (by omega) hin (by omega)
    rwa [hi] at hle

/-- A new last place: only its parent may be out of order. -/
theorem HeapOrdered.upOrder (h : HeapOrdered k n) : UpOrder k (n + 1) (n + 1) :=
  ⟨fun i hi hn hne => h i hi (by omega), fun _ i hi hn => by omega⟩

/-- The last place is put where a place is taken out. -/
theorem HeapOrdered.downOrder (h : HeapOrdered k (n + 1)) {i : ℕ} (hi : 1 ≤ i) (hn : i ≤ n)
    (hle : 2 ≤ i → k (i / 2) ≤ k (n + 1)) : DownOrder (k ∘ Equiv.swap i (n + 1)) n i := by
  constructor
  · intro j hj hjn hne
    by_cases hji : j = i
    · subst hji
      rw [swap_left, swap_of_ne (by omega) (by omega)]
      exact hle hj
    · rw [swap_of_ne hji (by omega), swap_of_ne hne (by omega)]
      exact h j hj (by omega)
  · intro hi₂ j hj hjn
    rw [swap_of_ne (by omega) (by omega), swap_of_ne (by omega) (by omega)]
    have hparent := h i hi₂ (by omega)
    have hchild := h j (by omega) (by omega)
    rw [hj] at hchild
    exact hparent.trans hchild

end Ns3.Lib
