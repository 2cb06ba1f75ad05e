import Ns3.Lib.Tally
import Mathlib.Data.List.AList

/-!
# Stores of records under keys

A hash map is an `AList`: at most one record under each key. What the records contribute to a
quantity is tallied as in `Ns3.Lib.Tally`; the lemmas say what becomes of a tally, and of the
record under a key, when a record is put into the store or taken out. `holders` is the tally that
reference counts are compared with: how many records refer to a place.
-/

namespace Ns3.Lib

universe u v

/-- Records of `α` under keys of `κ`. -/
abbrev Store (κ : Type u) (α : Type v) := AList fun _ : κ => α

namespace Store

variable {κ : Type u} {α : Type v}

/-- The sum of what the records of a store contribute. -/
def tally (f : κ → α → ℕ) (s : Store κ α) : ℕ := Lib.tally (fun x => f x.1 x.2) s.entries

@[simp] theorem tally_empty (f : κ → α → ℕ) : tally f (∅ : Store κ α) = 0 := rfl

variable {f : κ → α → ℕ} {s : Store κ α}

/-- A store of records that contribute at most one each tallies at most their number. -/
theorem tally_le_length (h : ∀ k x, f k x ≤ 1) : tally f s ≤ s.entries.length :=
  Lib.tally_le_length fun x _ => h x.1 x.2

variable [DecidableEq κ]

/-! ### The record under a key -/

/-- The record under a key, after one was put into the store. -/
theorem lookup_insert_some {k k' : κ} {x y : α} (h : (s.insert k y).lookup k' = some x) :
    (k' = k ∧ x = y) ∨ (k' ≠ k ∧ s.lookup k' = some x) := by
  by_cases hk : k' = k
  · subst hk
    rw [AList.lookup_insert] at h
    exact .inl ⟨rfl, (Option.some.inj h).symm⟩
  · rw [AList.lookup_insert_ne hk] at h
    exact .inr ⟨hk, h⟩

theorem lookup_insert_eq_ite (s : Store κ α) (k : κ) (y : α) (k' : κ) :
    (s.insert k y).lookup k' = if k' = k then some y else s.lookup k' := by
  split_ifs with hk
  · rw [hk, AList.lookup_insert]
  · exact AList.lookup_insert_ne hk

variable {x : α}

/-- The record under a key, after one was taken out. -/
theorem lookup_erase_some {k k' : κ} (h : (s.erase k).lookup k' = some x) : k' ≠ k ∧ s.lookup k' = some x := by
  by_cases hk : k' = k
  · subst hk
    rw [AList.lookup_erase] at h
    cases h
  · rw [AList.lookup_erase_ne hk] at h
    exact ⟨hk, h⟩

/-- Taking a record out before another is put in its place changes nothing. -/
theorem insert_erase (s : Store κ α) (k : κ) (y : α) : (s.erase k).insert k y = s.insert k y := by
  have hk : k ∉ s.erase k := fun hmem => ((AList.mem_erase).mp hmem).1 rfl
  refine AList.ext ?_
  rw [AList.entries_insert_of_notMem hk, AList.entries_insert]
  rfl

variable {k : κ}

/-- What every record has, every record has after one that has it was put into the store. -/
theorem forall_insert {P : κ → α → Prop} {y : α} (h : ∀ k x, s.lookup k = some x → P k x) (hy : P k y) :
    ∀ k' x, (s.insert k y).lookup k' = some x → P k' x := by
  intro k' x hx
  rcases lookup_insert_some hx with ⟨rfl, rfl⟩ | ⟨-, hx⟩
  · exact hy
  · exact h k' x hx

/-! ### Tallies -/

/-- Contributions that agree on every record tally the same. -/
theorem tally_congr {f g : κ → α → ℕ} (h : ∀ k x, s.lookup k = some x → f k x = g k x) : tally f s = tally g s :=
  Lib.tally_congr fun x hx => h x.1 x.2 (AList.mem_lookup_iff.mpr hx)

/-- Stores with the same records tally the same. -/
theorem tally_congr_lookup {s s' : Store κ α} (h : ∀ k, s.lookup k = s'.lookup k) : tally f s = tally f s' := by
  have hperm : s.entries.Perm s'.entries := List.lookup_ext s.nodupKeys s'.nodupKeys fun k x => by
    have hk : s.entries.dlookup k = s'.entries.dlookup k := h k
    rw [hk]
  exact (hperm.map fun x => f x.1 x.2).sum_eq

/-- A record contributes at most the whole. -/
theorem le_tally (h : s.lookup k = some x) : f k x ≤ tally f s :=
  Lib.le_tally (f := fun x : Sigma fun _ : κ => α => f x.1 x.2) (AList.mem_lookup_iff.mp h)

/-- Taking a record out takes its contribution away. -/
theorem tally_kerase {l : List (Sigma fun _ : κ => α)} (h : l.dlookup k = some x) :
    Lib.tally (fun x => f x.1 x.2) (l.kerase k) + f k x = Lib.tally (fun x => f x.1 x.2) l := by
  induction l with
  | nil => cases h
  | cons y l ih =>
    by_cases hk : k = y.1
    · obtain ⟨k', y⟩ := y
      obtain rfl : k = k' := hk
      rw [List.dlookup_cons_eq] at h
      obtain rfl := Option.some.inj h
      have hrest : List.kerase k (⟨k, y⟩ :: l) = l := List.kerase_cons_eq rfl
      rw [hrest, tally_cons]
      exact Nat.add_comm _ _
    · rw [List.dlookup_cons_ne _ _ hk] at h
      have hl := ih h
      rw [List.kerase_cons_ne hk, tally_cons, tally_cons]
      omega

theorem tally_erase (h : s.lookup k = some x) : tally f (s.erase k) + f k x = tally f s :=
  tally_kerase h

/-- Putting a record in the place of another replaces its contribution. -/
theorem tally_insert (h : s.lookup k = some x) (y : α) : tally f (s.insert k y) + f k x = tally f s + f k y := by
  have herase := tally_erase (f := f) h
  have hinsert : tally f (s.insert k y) = f k y + tally f (s.erase k) := by
    rw [tally, AList.entries_insert, tally_cons]
    rfl
  omega

/-- Putting a record under a new key adds its contribution. -/
theorem tally_insert_of_lookup_eq_none (h : s.lookup k = none) (y : α) :
    tally f (s.insert k y) = tally f s + f k y := by
  rw [tally, AList.entries_insert_of_notMem (AList.lookup_eq_none.mp h), tally_cons]
  exact Nat.add_comm _ _

/-! ### A change of every record -/

section MapValues

variable {β : Type*}

omit [DecidableEq κ] in
/-- Every record is changed in its place. -/
def mapValues (f : κ → α → β) (s : Store κ α) : Store κ β := ⟨s.entries.map (.map id f), s.nodupKeys.map₂ f⟩

theorem lookup_mapValues (f : κ → α → β) (s : Store κ α) (k : κ) :
    (mapValues f s).lookup k = (s.lookup k).map (f k) :=
  List.dlookup_map₂ k

/-- The record under a key, after the change. -/
theorem lookup_mapValues_some {f : κ → α → β} {s : Store κ α} {k : κ} {y : β}
    (h : (mapValues f s).lookup k = some y) : ∃ x, s.lookup k = some x ∧ y = f k x := by
  rw [lookup_mapValues, Option.map_eq_some_iff] at h
  obtain ⟨x, hx, rfl⟩ := h
  exact ⟨x, hx, rfl⟩

omit [DecidableEq κ] in
theorem tally_mapValues (g : κ → β → ℕ) (f : κ → α → β) (s : Store κ α) :
    tally g (mapValues f s) = tally (fun k x => g k (f k x)) s := by
  rw [tally, tally, Lib.tally, Lib.tally, mapValues, List.map_map]
  rfl

end MapValues

/-! ### Records that refer to a place -/

section Holders

variable {ι : Type*} [DecidableEq ι] {ref : α → ι}

/-- The number of records that refer to the place `a`. -/
def holders (ref : α → ι) (s : Store κ α) (a : ι) : ℕ := tally (fun _ x => if ref x = a then 1 else 0) s

variable {s : Store κ α}

theorem holders_insert {k : κ} {x : α} (h : s.lookup k = some x) (y : α) (a : ι) :
    holders ref (s.insert k y) a + (if ref x = a then 1 else 0) =
      holders ref s a + (if ref y = a then 1 else 0) :=
  tally_insert h y

/-- A record that still refers to the same place. -/
theorem holders_insert_of_ref_eq {k : κ} {x y : α} (h : s.lookup k = some x) (hxy : ref y = ref x) (a : ι) :
    holders ref (s.insert k y) a = holders ref s a := by
  have hinsert : holders ref (s.insert k y) a + (if ref x = a then 1 else 0) =
      holders ref s a + if ref y = a then 1 else 0 := holders_insert h y a
  rw [hxy] at hinsert
  exact Nat.add_right_cancel hinsert

theorem holders_insert_of_lookup_eq_none {k : κ} (h : s.lookup k = none) (y : α) (a : ι) :
    holders ref (s.insert k y) a = holders ref s a + if ref y = a then 1 else 0 :=
  tally_insert_of_lookup_eq_none h y

theorem holders_erase {k : κ} {x : α} (h : s.lookup k = some x) (a : ι) :
    holders ref (s.erase k) a + (if ref x = a then 1 else 0) = holders ref s a :=
  tally_erase h

/-- A record more adds one holder at most. -/
theorem holders_le_succ {s s' : Store κ α} {t : κ} (h : ∀ k ≠ t, s'.lookup k = s.lookup k) (ht : s.lookup t = none)
    (a : ι) : holders ref s' a ≤ holders ref s a + 1 := by
  have herase : holders ref (s'.erase t) a = holders ref s a := by
    refine tally_congr_lookup fun k => ?_
    by_cases hk : k = t
    · rw [hk, AList.lookup_erase, ht]
    · rw [AList.lookup_erase_ne hk, h k hk]
  cases hx : s'.lookup t with
  | none =>
    have heq : holders ref s' a = holders ref s a := by
      refine tally_congr_lookup fun k => ?_
      by_cases hk : k = t
      · rw [hk, hx, ht]
      · exact h k hk
    omega
  | some x =>
    have htotal : holders ref (s'.erase t) a + (if ref x = a then 1 else 0) = holders ref s' a := holders_erase hx a
    rw [herase] at htotal
    split_ifs at htotal <;> omega

/-- A place that a record refers to has holders. -/
theorem holders_pos {k : κ} {x : α} (h : s.lookup k = some x) : 0 < holders ref s (ref x) := by
  have hle := le_tally (f := fun _ y => if ref y = ref x then 1 else 0) h
  simp only [if_true] at hle
  exact hle

/-- A place that no record refers to has no holders. -/
theorem holders_eq_zero {a : ι} (h : ∀ k x, s.lookup k = some x → ref x ≠ a) : holders ref s a = 0 := by
  have hzero : holders ref s a = tally (fun _ _ => 0) s :=
    tally_congr fun k x hx => if_neg (h k x hx)
  rw [hzero, tally, Lib.tally]
  simp

/-- The holder of a place that has one is unique. -/
theorem eq_of_holders_le_one {a : ι} (hone : holders ref s a ≤ 1) {j k : κ} {x y : α} (hx : s.lookup k = some x)
    (hxa : ref x = a) (hy : s.lookup j = some y) (hya : ref y = a) : j = k := by
  by_contra hne
  have herase : holders ref (s.erase k) a + (if ref x = a then 1 else 0) = holders ref s a :=
    holders_erase hx a
  have hpos : 0 < holders ref (s.erase k) (ref y) :=
    holders_pos (by rw [AList.lookup_erase_ne hne]; exact hy)
  rw [hya] at hpos
  rw [if_pos hxa] at herase
  omega

end Holders

end Store

end Ns3.Lib
