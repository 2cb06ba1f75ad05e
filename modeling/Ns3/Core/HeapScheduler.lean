import Ns3.Core.Scheduler
import Ns3.Lib.BinaryHeap
import Ns3.Lib.Machine

/-!
# The heap scheduler

`HeapScheduler` (`core/model/heap-scheduler.cc`) keeps its events in a binary heap whose first place is
wasted, so that indexes start at one; they are natural numbers here, and `uint32_t` in the source. `Remove` puts
the last event where it takes one out, and lets it sink; it does not let it rise.

## What is proved

* `bottomUp_spec`, `topDown_spec` — the two loops mend a heap that is broken at one place.
* `agree_iff` — in every run of requests that both schedulers serve, the heap is in order and holds the events of
  the sorted list all along, and returns the same ones, exactly if every `Remove` finds its event and puts an event
  there that does not have to rise.
-/

namespace Ns3

open Lib Scheduler

namespace HeapScheduler

/-- The event in the first place: `{ 0, { 0, 0 } }`. -/
def empty : Event := ⟨0, ⟨0, 0, 0⟩⟩

/-- `m_heap[i]`. -/
def get (heap : List Event) (i : ℕ) : Event := heap.getD i empty

/-- `HeapScheduler ()`. -/
def new : List Event := [empty]

/-- The place above. -/
def parent (id : ℕ) : ℕ := id / 2

/-- The first place below. -/
def leftChild (id : ℕ) : ℕ := id * 2

/-- The second place below. -/
def rightChild (id : ℕ) : ℕ := id * 2 + 1

/-- The first place. -/
def root : ℕ := 1

/-- The last place. -/
def last (heap : List Event) : ℕ := heap.length - 1

/-- The place is behind the last one. -/
def IsBottom (heap : List Event) (id : ℕ) : Prop := heap.length ≤ id
deriving Decidable

/-- Two events change places. -/
def exch (heap : List Event) (a b : ℕ) : List Event := (heap.set a (get heap b)).set b (get heap a)

/-- The event at `a` is before that at `b`. -/
def IsLessStrictly (heap : List Event) (a b : ℕ) : Prop := (get heap a).key < (get heap b).key
deriving Decidable

/-- The place with the earlier event. -/
def smallest (heap : List Event) (a b : ℕ) : ℕ := if IsLessStrictly heap a b then a else b

/-- The loop of `BottomUp`, from `index` on. The index halves, so `index` rounds are more than it makes. -/
def bottomUpFrom : ℕ → List Event → ℕ → List Event
  | 0, heap, _ => heap
  | fuel + 1, heap, index =>
    if index ≠ root ∧ IsLessStrictly heap index (parent index) then
      bottomUpFrom fuel (exch heap index (parent index)) (parent index)
    else heap

/-- The last event rises to where it belongs. -/
def bottomUp (heap : List Event) : List Event := bottomUpFrom (last heap) heap (last heap)

/-- The end of `TopDown`, where the index has at most a left child. -/
def topDownEnd (heap : List Event) (index : ℕ) : List Event :=
  if IsBottom heap index then heap
  else if IsBottom heap (leftChild index) then heap
  else if IsLessStrictly heap index (leftChild index) then heap
  else exch heap index (leftChild index)

/-- The loop of `TopDown`, from `index` on. The index grows, so `heap.length` rounds are more than it makes. -/
def topDownFrom : ℕ → List Event → ℕ → List Event
  | 0, heap, _ => heap
  | fuel + 1, heap, index =>
    if ¬ IsBottom heap (rightChild index) then
      let tmp := smallest heap (leftChild index) (rightChild index)
      if IsLessStrictly heap index tmp then heap
      else topDownFrom fuel (exch heap index tmp) tmp
    else topDownEnd heap index

/-- The event at `start` sinks to where it belongs. -/
def topDown (heap : List Event) (start : ℕ) : List Event := topDownFrom heap.length heap start

/-- An event is put at the end and rises. -/
def insert (ev : Event) (heap : List Event) : List Event := bottomUp (heap ++ [ev])

/-- The event at the root. -/
def peekNext (heap : List Event) : Option Event := heap[root]?

/-- `Exch (i, Last ()); m_heap.pop_back (); TopDown (i)`. -/
def removeAt (heap : List Event) (i : ℕ) : List Event := topDown (exch heap i (last heap)).dropLast i

/-- The event at the root is taken out. -/
def removeNext (heap : List Event) : Option (Event × List Event) :=
  heap[root]?.map fun next => (next, removeAt heap root)

/-- The index at which `Remove` finds an event: the first with its uid. -/
def find (ev : Event) (heap : List Event) : Option ℕ :=
  (heap.tail.findIdx? fun x => ev.key.uid = x.key.uid).map (· + 1)

/-- The event with the identifier is taken out. -/
def remove (ev : Event) (heap : List Event) : Option (List Event) := (find ev heap).map (removeAt heap)

/-- A request, with the event that it returns. -/
def exec (heap : List Event) : Op → Option (Option Event × List Event)
  | .insert ev => some (none, insert ev heap)
  | .peekNext => (peekNext heap).map fun next => (some next, heap)
  | .removeNext => (removeNext heap).map fun (next, heap) => (some next, heap)
  | .remove ev => (remove ev heap).map fun heap => (none, heap)

/-! ### Exchanges -/

/-- The priority at a place. -/
def rankAt (heap : List Event) (i : ℕ) : ℕ ×ₗ ℕ := (get heap i).rank

variable {heap : List Event} {a b : ℕ}

theorem isLessStrictly_iff : IsLessStrictly heap a b ↔ rankAt heap a < rankAt heap b := EventKey.lt_iff

@[simp] theorem length_exch (heap : List Event) (a b : ℕ) : (exch heap a b).length = heap.length := by
  simp [exch]

@[simp] theorem last_exch (heap : List Event) (a b : ℕ) : last (exch heap a b) = last heap := by simp [last]

theorem get_exch (ha : a < heap.length) (hb : b < heap.length) (i : ℕ) :
    get (exch heap a b) i = get heap (Equiv.swap a b i) := by
  rw [exch, get, List.getD_eq_getElem?_getD, List.getElem?_set, List.length_set]
  by_cases hib : b = i
  · subst hib
    rw [if_pos rfl, if_pos hb, Equiv.swap_apply_right, Option.getD_some]
  rw [if_neg hib, List.getElem?_set]
  by_cases hia : a = i
  · subst hia
    rw [if_pos rfl, if_pos ha, Equiv.swap_apply_left, Option.getD_some]
  · rw [if_neg hia, Equiv.swap_apply_of_ne_of_ne (Ne.symm hia) (Ne.symm hib), get, List.getD_eq_getElem?_getD]

theorem rankAt_exch (ha : a < heap.length) (hb : b < heap.length) :
    rankAt (exch heap a b) = rankAt heap ∘ Equiv.swap a b :=
  funext fun i => congrArg Event.rank (get_exch ha hb i)

/-- Exchanging two places, neither the wasted one, keeps the events. -/
theorem tail_exch_perm (ha₁ : 1 ≤ a) (hb₁ : 1 ≤ b) (ha : a < heap.length) (hb : b < heap.length) :
    (exch heap a b).tail.Perm heap.tail := by
  cases heap with
  | nil => cases ha
  | cons x heap =>
    obtain ⟨a, rfl⟩ := Nat.exists_eq_add_of_le' ha₁
    obtain ⟨b, rfl⟩ := Nat.exists_eq_add_of_le' hb₁
    rw [List.length_cons, Nat.add_lt_add_iff_right] at ha hb
    have hgeta : get (x :: heap) (a + 1) = heap[a] := by simp [get, ha]
    have hgetb : get (x :: heap) (b + 1) = heap[b] := by simp [get, hb]
    rw [exch, hgeta, hgetb, List.set_cons_succ, List.set_cons_succ, List.tail_cons, List.tail_cons]
    exact List.set_set_perm ha hb

/-! ### The loops -/

variable {index : ℕ}

theorem bottomUpFrom_spec {fuel : ℕ} (hfuel : index ≤ fuel) (hindex : 1 ≤ index) (hlast : index ≤ last heap)
    (h : UpOrder (rankAt heap) (last heap) index) :
    HeapOrdered (rankAt (bottomUpFrom fuel heap index)) (last heap) ∧
      (bottomUpFrom fuel heap index).length = heap.length ∧ (bottomUpFrom fuel heap index).tail.Perm heap.tail := by
  induction fuel generalizing heap index with
  | zero => omega
  | succ fuel ih =>
    have hlen : heap.length = last heap + 1 := by
      rw [last] at hlast ⊢
      omega
    rw [bottomUpFrom]
    split_ifs with hloop
    · obtain ⟨hroot, hless⟩ := hloop
      rw [root] at hroot
      have hexch : rankAt (exch heap index (parent index)) = rankAt heap ∘ Equiv.swap index (index / 2) :=
        rankAt_exch (by omega) (by rw [parent]; omega)
      have hswap := h.swap (by omega) hlast (isLessStrictly_iff.mp hless)
      rw [← hexch, ← last_exch heap index (parent index)] at hswap
      have hparent : parent index = index / 2 := rfl
      have hlast' : parent index ≤ last (exch heap index (parent index)) := by
        rw [last_exch]
        omega
      obtain ⟨hord, hlength, hperm⟩ := ih (by omega) (by omega) hlast' hswap
      rw [last_exch] at hord
      exact ⟨hord, hlength.trans (length_exch ..),
        hperm.trans (tail_exch_perm hindex (by omega) (by omega) (by omega))⟩
    · refine ⟨h.ordered fun hindex₂ _ => ?_, rfl, .refl _⟩
      have hnot : ¬ IsLessStrictly heap index (parent index) :=
        fun hless => hloop ⟨by rw [root]; omega, hless⟩
      rw [isLessStrictly_iff, not_lt] at hnot
      exact hnot

theorem bottomUp_spec (hlast : 1 ≤ last heap) (h : UpOrder (rankAt heap) (last heap) (last heap)) :
    HeapOrdered (rankAt (bottomUp heap)) (last heap) ∧ (bottomUp heap).length = heap.length ∧
      (bottomUp heap).tail.Perm heap.tail :=
  bottomUpFrom_spec le_rfl hlast le_rfl h

section

variable (hindex : 1 ≤ index)
include hindex

theorem topDownEnd_spec (hbottom : IsBottom heap (rightChild index))
    (h : DownOrder (rankAt heap) (last heap) index) :
    HeapOrdered (rankAt (topDownEnd heap index)) (last heap) ∧
      (topDownEnd heap index).length = heap.length ∧ (topDownEnd heap index).tail.Perm heap.tail := by
  rw [IsBottom, rightChild] at hbottom
  rw [topDownEnd]
  split_ifs with hi hl hless
  · refine ⟨h.ordered fun i hih _ hn => ?_, rfl, .refl _⟩
    rw [IsBottom] at hi
    rw [last] at hn
    omega
  · refine ⟨h.ordered fun i hih _ hn => ?_, rfl, .refl _⟩
    rw [IsBottom, leftChild] at hl
    rw [last] at hn
    omega
  · refine ⟨h.ordered fun i hih _ hn => ?_, rfl, .refl _⟩
    obtain rfl : i = leftChild index := by
      rw [last] at hn
      rw [leftChild]
      omega
    exact (isLessStrictly_iff.mp hless).le
  · rw [IsBottom, Nat.not_le] at hi hl
    rw [isLessStrictly_iff, not_lt] at hless
    have hchild : leftChild index / 2 = index := by
      rw [leftChild]
      omega
    have honly : ∀ i, i / 2 = index → 2 ≤ i → i ≤ last heap → i = leftChild index := by
      intro i hih _ hn
      rw [last] at hn
      rw [leftChild]
      omega
    have hswap := h.swap hchild (by rw [leftChild]; omega) (by rw [last]; omega)
      (fun i hih hi hn => (honly i hih hi hn ▸ le_rfl)) hless
    rw [← rankAt_exch hi hl] at hswap
    refine ⟨hswap.ordered fun i hih _ hn => ?_, length_exch .., tail_exch_perm hindex (by rw [leftChild]; omega) hi hl⟩
    rw [leftChild] at hih hl
    rw [last] at hn
    omega

/-- The smaller of two children. -/
theorem smallest_spec (hright : ¬ IsBottom heap (rightChild index)) :
    smallest heap (leftChild index) (rightChild index) / 2 = index ∧
      smallest heap (leftChild index) (rightChild index) ≤ last heap ∧
      ∀ i, i / 2 = index → 2 ≤ i → i ≤ last heap →
        rankAt heap (smallest heap (leftChild index) (rightChild index)) ≤ rankAt heap i := by
  rw [IsBottom, rightChild, Nat.not_le] at hright
  have hchild : ∀ i, i / 2 = index → i = leftChild index ∨ i = rightChild index := by
    intro i hi
    rw [leftChild, rightChild]
    omega
  have hboth : ∀ i, i = leftChild index ∨ i = rightChild index → i / 2 = index ∧ i ≤ last heap := by
    intro i hi
    rw [leftChild, rightChild] at hi
    rw [last]
    omega
  rw [smallest]
  split_ifs with hless
  · rw [isLessStrictly_iff] at hless
    refine ⟨(hboth _ (.inl rfl)).1, (hboth _ (.inl rfl)).2, fun i hi _ _ => ?_⟩
    rcases hchild i hi with rfl | rfl
    · exact le_rfl
    · exact hless.le
  · rw [isLessStrictly_iff, not_lt] at hless
    refine ⟨(hboth _ (.inr rfl)).1, (hboth _ (.inr rfl)).2, fun i hi _ _ => ?_⟩
    rcases hchild i hi with rfl | rfl
    · exact hless
    · exact le_rfl

theorem topDownFrom_spec {fuel : ℕ} (hfuel : heap.length ≤ fuel + index)
    (hpos : 0 < fuel ∨ IsBottom heap index) (h : DownOrder (rankAt heap) (last heap) index) :
    HeapOrdered (rankAt (topDownFrom fuel heap index)) (last heap) ∧
      (topDownFrom fuel heap index).length = heap.length ∧ (topDownFrom fuel heap index).tail.Perm heap.tail := by
  induction fuel generalizing heap index with
  | zero =>
    refine ⟨h.ordered fun i hih _ hn => ?_, rfl, .refl _⟩
    rw [last] at hn
    omega
  | succ fuel ih =>
    rw [topDownFrom]
    by_cases hright : IsBottom heap (rightChild index)
    · rw [if_neg (not_not_intro hright)]
      exact topDownEnd_spec hindex hright h
    rw [if_pos hright]
    obtain ⟨hc, hcn, hmin⟩ := smallest_spec hindex hright
    dsimp only
    generalize smallest heap (leftChild index) (rightChild index) = c at hc hcn hmin
    split_ifs with hless
    · rw [isLessStrictly_iff] at hless
      exact ⟨h.ordered fun i hih hi hn => hless.le.trans (hmin i hih hi hn), rfl, .refl _⟩
    · rw [isLessStrictly_iff, not_lt] at hless
      have hlen : heap.length = last heap + 1 := by
        rw [last] at hcn ⊢
        omega
      have hswap := h.swap hc (by omega) hcn hmin hless
      rw [← rankAt_exch (by omega) (by omega), ← last_exch heap index c] at hswap
      have hbottom : 0 < fuel ∨ IsBottom (exch heap index c) c := by
        rw [IsBottom, length_exch]
        omega
      obtain ⟨hord, hlength, hperm⟩ := ih (by omega) (by rw [length_exch]; omega) hbottom hswap
      rw [last_exch] at hord
      exact ⟨hord, hlength.trans (length_exch ..),
        hperm.trans (tail_exch_perm hindex (by omega) (by omega) (by omega))⟩

theorem topDown_spec (h : DownOrder (rankAt heap) (last heap) index) :
    HeapOrdered (rankAt (topDown heap index)) (last heap) ∧ (topDown heap index).length = heap.length ∧
      (topDown heap index).tail.Perm heap.tail := by
  refine topDownFrom_spec hindex (Nat.le_add_right ..) ?_ h
  rcases Nat.eq_zero_or_pos heap.length with hzero | hpos
  · exact .inr (by rw [IsBottom]; omega)
  · exact .inl hpos

/-- An event that is smaller than those below it stays where it is. -/
theorem topDown_of_lt
    (h : ∀ i, i / 2 = index → i ≤ last heap → rankAt heap index < rankAt heap i) : topDown heap index = heap := by
  rw [topDown]
  cases hlen : heap.length with
  | zero => rfl
  | succ fuel =>
    rw [topDownFrom]
    by_cases hright : IsBottom heap (rightChild index)
    · rw [if_neg (not_not_intro hright), topDownEnd]
      split_ifs with hi hl hless
      · rfl
      · rfl
      · rfl
      · rw [IsBottom, Nat.not_le, leftChild] at hl
        have hlt := h (leftChild index) (by rw [leftChild]; omega) (by rw [last, leftChild]; omega)
        exact absurd (isLessStrictly_iff.mpr hlt) hless
    · obtain ⟨hc, hcn, -⟩ := smallest_spec hindex hright
      rw [if_pos hright, if_pos (isLessStrictly_iff.mpr (h _ hc hcn))]

end

/-! ### The requests -/

variable {i : ℕ}

theorem get_dropLast (hi : i < last heap) : get heap.dropLast i = get heap i := by
  rw [last] at hi
  rw [get, get, List.getD_eq_getElem?_getD, List.getD_eq_getElem?_getD, List.getElem?_dropLast, if_pos hi]

theorem dropLast_tail_perm (heap : List Event) (h : 1 ≤ last heap) :
    (get heap (last heap) :: heap.dropLast.tail).Perm heap.tail := by
  cases heap with
  | nil => cases h
  | cons x heap =>
    have hne : heap ≠ [] := by
      rintro rfl
      cases h
    have hget : get (x :: heap) (last (x :: heap)) = heap.getLast hne := by
      rw [get, last, List.length_cons, Nat.add_sub_cancel, List.getD_eq_getElem?_getD]
      obtain ⟨k, hk⟩ : ∃ k, heap.length = k + 1 := Nat.exists_eq_succ_of_ne_zero (by simpa using hne)
      rw [hk, List.getElem?_cons_succ, List.getLast_eq_getElem, List.getElem?_eq_getElem (by omega),
        Option.getD_some]
      congr 1
      omega
    rw [hget, List.dropLast_cons_of_ne_nil hne, List.tail_cons, List.tail_cons]
    conv_rhs => rw [← List.dropLast_append_getLast hne]
    exact (List.perm_append_singleton ..).symm

/-- The place where an event was taken out, with the last event in it. -/
theorem rankAt_exch_dropLast (hi : i ≤ last heap) (hlast : 1 ≤ last heap) {j : ℕ} (hj : j < last heap) :
    rankAt (exch heap i (last heap)).dropLast j = (rankAt heap ∘ Equiv.swap i (last heap)) j := by
  have hlen : heap.length = last heap + 1 := by
    rw [last] at hlast ⊢
    omega
  rw [rankAt, get_dropLast (by rwa [last_exch]), ← rankAt_exch (by omega) (by omega)]
  rfl

section

variable (h : HeapOrdered (rankAt heap) (last heap))
include h

/-- An event is taken out, and the last one does not have to rise in its place. -/
theorem removeAt_spec (hi : 1 ≤ i) (hlast : i ≤ last heap)
    (hrise : i = last heap ∨ i = root ∨ ¬ IsLessStrictly heap (last heap) (parent i)) :
    HeapOrdered (rankAt (removeAt heap i)) (last (removeAt heap i)) ∧
      (get heap i :: (removeAt heap i).tail).Perm heap.tail ∧ removeAt heap i ≠ [] := by
  obtain ⟨n, hn⟩ : ∃ n, last heap = n + 1 := Nat.exists_eq_succ_of_ne_zero (by omega)
  have hlen : heap.length = n + 2 := by
    rw [last] at hn
    omega
  let heap' := (exch heap i (last heap)).dropLast
  have hlen' : heap'.length = n + 1 := by simp [heap', hlen]
  have hlast' : last heap' = n := by
    rw [last, hlen', Nat.add_sub_cancel]
  have hrank : ∀ j, j ≤ n → rankAt heap' j = (rankAt heap ∘ Equiv.swap i (n + 1)) j := by
    intro j hj
    rw [← hn]
    exact rankAt_exch_dropLast hlast (by omega) (by omega)
  rw [hn] at h
  have hdown : DownOrder (rankAt heap') (last heap') i := by
    rw [hlast']
    have hswap : DownOrder (rankAt heap ∘ Equiv.swap i (n + 1)) n i := by
      rcases Nat.lt_or_ge n i with hgt | hle
      · obtain rfl : i = n + 1 := by omega
        rw [Equiv.swap_self]
        exact ⟨fun j hj hjn _ => h j hj (by omega), fun _ j hj hjn => by omega⟩
      · refine h.downOrder hi hle fun hi₂ => ?_
        rcases hrise with hrise | hrise | hrise
        · omega
        · rw [root] at hrise
          omega
        · rw [isLessStrictly_iff, not_lt, hn] at hrise
          exact hrise
    constructor
    · intro j hj hjn hne
      rw [hrank j hjn, hrank (j / 2) (by omega)]
      exact hswap.except j hj hjn hne
    · intro hi₂ j hj hjn
      rw [hrank j hjn, hrank (i / 2) (by omega)]
      exact hswap.grand hi₂ j hj hjn
  obtain ⟨hord, hlength, hperm⟩ := topDown_spec hi hdown
  have hlast'' : last (removeAt heap i) = last heap' := by
    rw [last, last]
    exact congrArg (· - 1) hlength
  refine ⟨by rw [hlast'']; exact hord, ?_⟩
  have hexch := tail_exch_perm hi (by omega) (by omega) (show last heap < heap.length by omega)
  have hdrop := dropLast_tail_perm (exch heap i (last heap)) (by rw [last_exch]; omega)
  rw [last_exch, get_exch (by omega) (by omega), Equiv.swap_apply_right] at hdrop
  refine ⟨(hperm.cons _).trans (hdrop.trans hexch), ?_⟩
  exact List.length_pos_iff.mp (hlength.trans_gt (by omega))

/-- The last event has to rise, and does not. -/
theorem removeAt_broken (hi : 2 ≤ i) (hlast : i < last heap)
    (hrise : IsLessStrictly heap (last heap) (parent i)) :
    ¬ HeapOrdered (rankAt (removeAt heap i)) (last (removeAt heap i)) := by
  have hparent : parent i = i / 2 := rfl
  have hlt := isLessStrictly_iff.mp hrise
  rw [hparent] at hlt
  let heap' := (exch heap i (last heap)).dropLast
  have hlast' : last heap' = last heap - 1 := by simp [heap', last]
  have hrank : ∀ j, j < last heap → rankAt heap' j = (rankAt heap ∘ Equiv.swap i (last heap)) j :=
    fun j hj => rankAt_exch_dropLast hlast.le (by omega) hj
  have hself : rankAt heap' i = rankAt heap (last heap) := by
    rw [hrank i hlast, Function.comp_apply, Equiv.swap_apply_left]
  have hother : ∀ j, j < last heap → j ≠ i → rankAt heap' j = rankAt heap j := by
    intro j hj hne
    rw [hrank j hj, Function.comp_apply, Equiv.swap_apply_of_ne_of_ne hne (by omega)]
  have hstay : removeAt heap i = heap' := by
    refine topDown_of_lt (by omega) fun j hj hjn => ?_
    rw [hlast'] at hjn
    rw [hself, hother j (by omega) (by omega)]
    have hup := h i hi hlast.le
    have hdown := h j (by omega) (by omega)
    rw [hj] at hdown
    exact hlt.trans_le (hup.trans hdown)
  intro hord
  rw [hstay, hlast'] at hord
  have hle := hord i hi (by omega)
  rw [hself, hother (i / 2) (by omega) (by omega)] at hle
  exact absurd hle (not_le.mpr hlt)

/-- `Insert` keeps the order. -/
theorem insert_spec (hlen : heap ≠ []) (ev : Event) :
    HeapOrdered (rankAt (insert ev heap)) (last (insert ev heap)) ∧
      (insert ev heap).tail.Perm (ev :: heap.tail) := by
  have hpos : 0 < heap.length := List.length_pos_iff.mpr hlen
  have hlast : last (heap ++ [ev]) = last heap + 1 := by
    rw [last, last, List.length_append, List.length_singleton]
    omega
  have hrank : ∀ i, 1 ≤ i → i ≤ last heap → rankAt (heap ++ [ev]) i = rankAt heap i := by
    intro i _ hi
    rw [last] at hi
    rw [rankAt, rankAt, get, get, List.getD_eq_getElem?_getD, List.getD_eq_getElem?_getD,
      List.getElem?_append_left (by omega)]
  have hup : UpOrder (rankAt (heap ++ [ev])) (last (heap ++ [ev])) (last (heap ++ [ev])) := by
    rw [hlast]
    exact (h.congr hrank).upOrder
  obtain ⟨hord, hlength, hperm⟩ := bottomUp_spec (by omega) hup
  have hlast' : last (insert ev heap) = last (heap ++ [ev]) := by
    rw [last, last]
    exact congrArg (· - 1) hlength
  refine ⟨by rw [hlast']; exact hord, hperm.trans ?_⟩
  rw [List.tail_append_of_ne_nil hlen]
  exact List.perm_append_singleton ..

end

theorem getElem?_eq_get (hi : i < heap.length) : heap[i]? = some (get heap i) := by
  rw [get, List.getD_eq_getElem?_getD, List.getElem?_eq_getElem hi, Option.getD_some]

/-- The index that `Remove` finds. -/
theorem find_spec {ev : Event} (h : ev ∈ heap.tail) :
    ∃ i, find ev heap = some i ∧ 1 ≤ i ∧ i ≤ last heap ∧ (get heap i).key.uid = ev.key.uid := by
  obtain ⟨j, hj⟩ : ∃ j, heap.tail.findIdx? (fun x => ev.key.uid = x.key.uid) = some j := by
    rw [← Option.isSome_iff_exists, List.findIdx?_isSome, List.any_eq_true]
    exact ⟨ev, h, decide_eq_true rfl⟩
  obtain ⟨hlt, huid, -⟩ := List.findIdx?_eq_some_iff_getElem.mp hj
  rw [List.length_tail] at hlt
  refine ⟨j + 1, by rw [find, hj, Option.map_some], by omega, by rw [last]; omega, ?_⟩
  have hget : get heap (j + 1) = heap.tail[j] := by
    have hsome : heap[j + 1]? = some (get heap (j + 1)) := getElem?_eq_get (by omega)
    rw [List.getElem_tail]
    exact (Option.some.inj ((List.getElem?_eq_getElem (by omega)).symm.trans hsome)).symm
  rw [hget]
  exact (of_decide_eq_true huid).symm

/-! ### Beside the sorted list -/

/-- Both schedulers, which get the same requests. -/
structure Both where
  heap : List Event
  list : List Event

/-- Two new schedulers. -/
def Both.new : Both := ⟨HeapScheduler.new, []⟩

/-- The requests that are made: keys are new when they are inserted, only events that are there are removed, and
an empty scheduler is asked for nothing. -/
def Both.Enabled (s : Both) : Op → Prop
  | .insert ev => ∀ x ∈ s.list, x.rank ≠ ev.rank
  | .peekNext | .removeNext => s.list ≠ []
  | .remove ev => ev ∈ s.list

instance (s : Both) : ∀ op, Decidable (s.Enabled op)
  | .insert ev => inferInstanceAs (Decidable (∀ x ∈ s.list, x.rank ≠ ev.rank))
  | .peekNext | .removeNext => inferInstanceAs (Decidable (_ ≠ _))
  | .remove _ => inferInstanceAs (Decidable (_ ∈ _))

/-- Both schedulers serve a request. -/
def Both.exec (s : Both) (op : Op) : Option Both := do
  let (_, heap) ← HeapScheduler.exec s.heap op
  let (_, list) ← ListScheduler.exec s.list op
  some ⟨heap, list⟩

/-- The schedulers side by side. -/
def machine : Machine Both Op where
  enabled := Both.Enabled
  exec := Both.exec

instance (s : Both) (op : Op) : Decidable (machine.enabled s op) := inferInstanceAs (Decidable (s.Enabled op))

/-- The heap is in order, and has the events of the list. -/
structure Both.Agree (s : Both) : Prop where
  /-- No event is before its parent. -/
  ordered : HeapOrdered (rankAt s.heap) (last s.heap)
  /-- No event is lost or duplicated. -/
  perm : s.heap.tail.Perm s.list

/-- Both schedulers answer a request in the same way. -/
def SameAnswer (s : Both) (op : Op) (_ : Both) : Prop :=
  (HeapScheduler.exec s.heap op).map Prod.fst = (ListScheduler.exec s.list op).map Prod.fst
deriving Decidable

/-- A removal that leaves the heap in order: `Remove` finds the earliest event with the uid, and the last event
does not have to rise in its place. -/
def Both.Sinks (s : Both) : Op → Prop
  | .remove ev => ∀ i ∈ find ev s.heap,
    (∀ x ∈ s.heap.tail, x.key.uid = ev.key.uid → ¬ x.key < (get s.heap i).key) ∧
      (i = last s.heap ∨ i = root ∨ ¬ IsLessStrictly s.heap (last s.heap) (parent i))
  | _ => True

instance (s : Both) : ∀ op, Decidable (s.Sinks op)
  | .remove ev => inferInstanceAs (Decidable (∀ _ ∈ find ev s.heap, (∀ _ ∈ s.heap.tail, _ → _) ∧ (_ ∨ _ ∨ _)))
  | .insert _ | .peekNext | .removeNext => .isTrue trivial

/-- What holds of the schedulers as long as they agree. -/
structure Both.Sound (s : Both) : Prop extends Both.Agree s where
  sorted : ListScheduler.Sorted s.list
  /-- The first place of the heap is there. -/
  nonempty : s.heap ≠ []

theorem Both.sound_new : Both.new.Sound where
  ordered i hi hn := by
    have hlast : last HeapScheduler.new = 0 := rfl
    rw [Both.new, hlast] at hn
    omega
  perm := .refl _
  sorted := List.Pairwise.nil
  nonempty := List.cons_ne_nil empty []

variable {s s' : Both} {op : Op}

theorem Both.Sound.length_eq (h : s.Sound) : s.heap.length = s.list.length + 1 := by
  have hlen := h.perm.length_eq
  have hpos := List.length_pos_iff.mpr h.nonempty
  rw [List.length_tail] at hlen
  omega

/-- The first event of the list is at the root of the heap. -/
theorem Both.Sound.root_eq (h : s.Sound) {next : Event} {events : List Event} (hlist : s.list = next :: events) :
    get s.heap root = next := by
  have hlen := h.length_eq
  rw [hlist, List.length_cons] at hlen
  have hmem : get s.heap root ∈ s.list := by
    rw [← h.perm.mem_iff]
    refine List.mem_of_getElem? (i := 0) ?_
    rw [List.getElem?_tail]
    exact getElem?_eq_get (by omega)
  have hnext : next ∈ s.list := by
    rw [hlist]
    exact List.mem_cons_self
  obtain ⟨i, hi⟩ := List.mem_iff_getElem?.mp (h.perm.mem_iff.mpr hnext)
  rw [List.getElem?_tail] at hi
  obtain ⟨hlt, -⟩ := List.getElem?_eq_some_iff.mp hi
  have hget : get s.heap (i + 1) = next := Option.some.inj ((getElem?_eq_get hlt).symm.trans hi)
  have hle := h.ordered.root_le (i + 1) (by omega) (by rw [last]; omega)
  rw [rankAt, rankAt, hget] at hle
  have hsorted := h.sorted
  rw [hlist] at hmem hsorted
  rcases List.mem_cons.mp hmem with heq | hmem
  · exact heq
  · exact absurd hle (not_le.mpr ((List.pairwise_cons.mp hsorted).1 _ hmem))

/-- As long as the schedulers agree, they answer in the same way. -/
theorem Both.Sound.sameAnswer (h : s.Sound) (hen : s.Enabled op) : SameAnswer s op s' := by
  have hlen := h.length_eq
  cases op with
  | insert ev => rfl
  | peekNext =>
    cases hlist : s.list with
    | nil => exact absurd hlist hen
    | cons next events =>
      rw [hlist, List.length_cons] at hlen
      have hroot : s.heap[root]? = some next := by
        rw [← h.root_eq hlist]
        exact getElem?_eq_get (by rw [root]; omega)
      simp [SameAnswer, HeapScheduler.exec, peekNext, ListScheduler.exec, ListScheduler.peekNext, hroot, hlist]
  | removeNext =>
    cases hlist : s.list with
    | nil => exact absurd hlist hen
    | cons next events =>
      rw [hlist, List.length_cons] at hlen
      have hroot : s.heap[root]? = some next := by
        rw [← h.root_eq hlist]
        exact getElem?_eq_get (by rw [root]; omega)
      simp [SameAnswer, HeapScheduler.exec, removeNext, ListScheduler.exec, ListScheduler.removeNext, hroot, hlist]
  | remove ev =>
    obtain ⟨i, hfind, -⟩ := find_spec (h.perm.mem_iff.mpr hen)
    obtain ⟨x, events', hremove, -⟩ := h.sorted.remove hen
    simp [SameAnswer, HeapScheduler.exec, HeapScheduler.remove, ListScheduler.exec, hfind, hremove]

/-- A removal leaves the schedulers in agreement exactly if the last event does not have to rise. -/
theorem Both.Sound.remove (h : s.Sound) {ev : Event} (hstep : machine.Step s (.remove ev) s') :
    (s'.Agree ↔ s.Sinks (.remove ev)) ∧ (s.Sinks (.remove ev) → s'.Sound) := by
  obtain ⟨hen, hexec⟩ := hstep
  obtain ⟨i, hfind, hi, hlast, huid⟩ := find_spec (h.perm.mem_iff.mpr hen)
  obtain ⟨x, events', hremove, hperm, hsorted, hxuid, hxmin⟩ := h.sorted.remove hen
  obtain rfl : (⟨removeAt s.heap i, events'⟩ : Both) = s' := by
    simpa [machine, Both.exec, HeapScheduler.exec, HeapScheduler.remove, ListScheduler.exec, hfind, hremove] using hexec
  have hsinks : s.Sinks (.remove ev) ↔
      (∀ x ∈ s.heap.tail, x.key.uid = ev.key.uid → ¬ x.key < (get s.heap i).key) ∧
        (i = last s.heap ∨ i = root ∨ ¬ IsLessStrictly s.heap (last s.heap) (parent i)) := by
    simp [Both.Sinks, hfind]
  have hmem : get s.heap i ∈ s.list := by
    rw [← h.perm.mem_iff]
    obtain ⟨j, rfl⟩ := Nat.exists_eq_add_of_le' hi
    refine List.mem_of_getElem? (i := j) ?_
    rw [List.getElem?_tail]
    rw [last] at hlast
    exact getElem?_eq_get (by omega)
  have hxmem : x ∈ s.list := hperm.mem_iff.mp List.mem_cons_self
  -- the heap finds what the list finds exactly if no event with the uid is earlier
  have hsame : (∀ x ∈ s.heap.tail, x.key.uid = ev.key.uid → ¬ x.key < (get s.heap i).key) ↔ get s.heap i = x := by
    constructor
    · intro hmin
      have hle := hxmin _ hmem huid
      have hge := hmin x (h.perm.mem_iff.mpr hxmem) hxuid
      rw [EventKey.lt_iff, not_lt] at hge
      exact h.sorted.eq_of_rank_eq hmem hxmem (le_antisymm hge hle)
    · intro heq y hy hyuid
      rw [heq, EventKey.lt_iff, not_lt]
      exact hxmin y (h.perm.mem_iff.mp hy) hyuid
  rw [hsinks, hsame]
  have hsound : get s.heap i = x ∧
      (i = last s.heap ∨ i = root ∨ ¬ IsLessStrictly s.heap (last s.heap) (parent i)) →
      Both.Sound ⟨removeAt s.heap i, events'⟩ := by
    rintro ⟨heq, hrise⟩
    obtain ⟨hord, hperm', hne⟩ := removeAt_spec h.ordered hi hlast hrise
    rw [heq] at hperm'
    have hkeep : (removeAt s.heap i).tail.Perm events' :=
      ((hperm'.trans h.perm).trans hperm.symm).cons_inv
    exact ⟨⟨hord, hkeep⟩, hsorted, hne⟩
  refine ⟨⟨fun hagree => ?_, fun hs => (hsound hs).toAgree⟩, hsound⟩
  have hrise : i = last s.heap ∨ i = root ∨ ¬ IsLessStrictly s.heap (last s.heap) (parent i) := by
    by_contra hnot
    simp only [not_or, not_not] at hnot
    obtain ⟨hl, hr, hless⟩ := hnot
    rw [root] at hr
    exact removeAt_broken h.ordered (by omega) (by omega) hless hagree.ordered
  have hperm' := (removeAt_spec h.ordered hi hlast hrise).2.1
  have hboth : (get s.heap i :: events').Perm (x :: events') :=
    (((hagree.perm.symm.cons _).trans hperm').trans h.perm).trans hperm.symm
  have hnodup : (get s.heap i :: events').Nodup :=
    hboth.nodup_iff.mpr (hperm.nodup_iff.mpr h.sorted.nodup)
  refine ⟨?_, hrise⟩
  rcases List.mem_cons.mp (hperm.mem_iff.mpr hmem) with heq | hin
  · exact heq
  · exact absurd hin (List.nodup_cons.mp hnodup).1

/-- One request: the schedulers agree after it exactly if it is not a removal that should have let an event
rise. -/
theorem Both.Sound.step (h : s.Sound) (hstep : machine.Step s op s') :
    (s'.Agree ↔ s.Sinks op) ∧ (s.Sinks op → s'.Sound) := by
  have htrue : s'.Sound → (s'.Agree ↔ True) ∧ (True → s'.Sound) :=
    fun hs => ⟨iff_of_true hs.toAgree trivial, fun _ => hs⟩
  cases op with
  | insert ev =>
    obtain ⟨hen, hexec⟩ := hstep
    obtain rfl : (⟨insert ev s.heap, ListScheduler.insert ev s.list⟩ : Both) = s' := Option.some.inj hexec
    obtain ⟨hord, hperm⟩ := insert_spec h.ordered h.nonempty ev
    refine htrue ⟨⟨hord, ?_⟩, h.sorted.insert hen, ?_⟩
    · exact (hperm.trans (h.perm.cons ev)).trans (ListScheduler.insert_perm ev s.list).symm
    · intro hnil
      have hlen := hperm.length_eq
      dsimp only at hnil
      rw [hnil, List.length_cons] at hlen
      cases hlen
  | peekNext =>
    obtain ⟨hen, hexec⟩ := hstep
    have hs : s = s' := by
      cases hheap : peekNext s.heap <;> cases hlist : ListScheduler.peekNext s.list <;>
        simp [machine, Both.exec, HeapScheduler.exec, ListScheduler.exec, hheap, hlist] at hexec
      exact hexec
    exact htrue (hs ▸ h)
  | removeNext =>
    obtain ⟨hen, hexec⟩ := hstep
    cases hlist : s.list with
    | nil => exact absurd hlist hen
    | cons next events =>
      have hlen := h.length_eq
      rw [hlist, List.length_cons] at hlen
      have hlast : 1 ≤ last s.heap := by
        rw [last]
        omega
      have hroot : s.heap[root]? = some next := by
        rw [← h.root_eq hlist]
        exact getElem?_eq_get (by rw [root]; omega)
      obtain rfl : (⟨removeAt s.heap root, events⟩ : Both) = s' := by
        simpa [machine, Both.exec, HeapScheduler.exec, removeNext, ListScheduler.exec, ListScheduler.removeNext, hroot,
          hlist] using hexec
      obtain ⟨hord, hperm, hne⟩ := removeAt_spec h.ordered le_rfl hlast (.inr (.inl rfl))
      have hnext : get s.heap 1 = next := h.root_eq hlist
      rw [hnext] at hperm
      have hsorted := h.sorted
      rw [hlist] at hsorted
      refine htrue ⟨⟨hord, ?_⟩, (List.pairwise_cons.mp hsorted).2, hne⟩
      have hall := hperm.trans h.perm
      rw [hlist] at hall
      exact hall.cons_inv
  | remove ev => exact h.remove hstep

/-- In a run the heap scheduler agrees with the sorted list, in all states and in all answers, exactly if no
removal of the run should have let an event rise. -/
theorem agree_iff {tr : List (Both × Op)} (h : machine.Run Both.new tr s) :
    Machine.EveryState Both.Agree tr s ∧ Machine.EveryStep SameAnswer tr s ↔ Machine.Meets Both.Sinks tr := by
  obtain ⟨hiff, hsound⟩ := h.everyState_iff_of_invariant (J := Both.Sound) Both.sound_new (fun _ hs => hs.toAgree)
    fun _ _ _ hs hstep => hs.step hstep
  refine ⟨fun hall => hiff.mp hall.1, fun hmeets => ⟨hiff.mpr hmeets, ?_⟩⟩
  exact h.everyStep_of_everyState (hsound hmeets) fun _ _ _ hs hstep => hs.sameAnswer hstep.1

/-- An event of the given time, the only one with its uid. -/
def eventAt (ts : ℕ) : Event := ⟨ts, ⟨ts, ts, 0⟩⟩

/-- Seven events are inserted, one is removed from the middle, and the next ones are asked for. -/
def removalFromTheMiddle : List Op :=
  [1, 5, 2, 4, 6, 7, 3].map (fun ts => .insert (eventAt ts)) ++
    [.remove (eventAt 5), .removeNext, .removeNext, .removeNext]

/-- After a removal from the middle the event of time 4 is returned before that of time 3. -/
theorem late_event : ∃ tr s, machine.Run Both.new tr s ∧
    ¬ (Machine.EveryState Both.Agree tr s ∧ Machine.EveryStep SameAnswer tr s) := by
  obtain ⟨out, -, hrun, hnot⟩ := Machine.exists_replay (M := machine) Both.new removalFromTheMiddle
    (P := fun out => ¬ Machine.EveryStep SameAnswer out.1 out.2) (by decide +kernel)
  exact ⟨out.1, out.2, hrun, fun hall => hnot hall.2⟩

/-- `agree_iff` for a run in which an event is removed from the middle and none has to rise. -/
theorem agree_without_rise : ∃ tr s, machine.Run Both.new tr s ∧ Machine.EveryState Both.Agree tr s ∧
    Machine.EveryStep SameAnswer tr s := by
  obtain ⟨out, -, hrun, hmeets⟩ := Machine.exists_replay (M := machine) Both.new
    [.insert (eventAt 1), .insert (eventAt 2), .insert (eventAt 3), .insert (eventAt 4), .remove (eventAt 2), .peekNext,
      .removeNext, .removeNext]
    (P := fun out => Machine.Meets Both.Sinks out.1) (by decide +kernel)
  exact ⟨out.1, out.2, hrun, (agree_iff hrun).mpr hmeets⟩

end HeapScheduler

end Ns3
