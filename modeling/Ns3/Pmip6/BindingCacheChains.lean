import Ns3.Lib.Machine
import Ns3.Pmip6.BindingCache
import Mathlib.Data.List.AList
import Mathlib.Data.List.Induction

/-!
# The chains of the binding cache

The entries of a mobile node are chained by `m_next`, and `m_bCache` has the newest of them
(`pmip6/model/binding-cache.cc`). An entry is referred to by its place in the order of allocation. `Remove` looks for
the entry among the values of the map, so it takes out the newest entry of a mobile node with all that are chained to
it, and no other entry.

* `Linked` — what is reached from a pointer; `Linked.eq` — it is one list.
* `linked_chain` — where entries are only added, it is the `chain` that the anchor looks up.
* `Multimap.Chained` — the chains are the entries that were added and not removed.
* `Multimap.chained_iff` — they are in every state of a run exactly when only the last entry of a mobile node is
  removed.
-/

namespace Ns3.Pmip6

open Lib

namespace BindingCache

/-- What of `BindingCache::Entry` is used here. -/
structure Cell where
  mnIdentifier : Identifier
  next : Option ℕ

/-- `BindingCache`, with the entries that were allocated. -/
structure Chains where
  cells : List Cell
  bCache : AList fun _ : Identifier => ℕ

namespace Chains

/-- `Lookup (mnId)`. -/
def lookup (c : Chains) (mnId : Identifier) : Option ℕ := c.bCache.lookup mnId

/-- The new cell refers to the old one. -/
def add (c : Chains) (mnId : Identifier) : Chains where
  cells := c.cells ++ [⟨mnId, c.lookup mnId⟩]
  bCache := c.bCache.insert mnId c.cells.length

/-- The entry that the table has is taken out, chain and all. -/
def remove (c : Chains) (entry : ℕ) : Chains :=
  match c.bCache.entries.find? fun x => x.2 = entry with
  | some x => { c with bCache := c.bCache.erase x.1 }
  | none => c

end Chains

/-! ### What is reached -/

/-- From a pointer these entries are reached through `GetNext`. -/
inductive Linked (cells : List Cell) : Option ℕ → List ℕ → Prop where
  | nil : Linked cells none []
  | cons {p : ℕ} {cell : Cell} {l : List ℕ} : cells[p]? = some cell → Linked cells cell.next l →
      Linked cells (some p) (p :: l)

variable {cells : List Cell}

theorem Linked.eq {o : Option ℕ} {l l' : List ℕ} (h : Linked cells o l) (h' : Linked cells o l') : l = l' := by
  induction h generalizing l' with
  | nil =>
    cases h'
    rfl
  | cons hcell _ ih =>
    cases h' with
    | cons hcell' hrest =>
      obtain rfl := Option.some.inj (hcell.symm.trans hcell')
      rw [ih hrest]

theorem Linked.append {o : Option ℕ} {l : List ℕ} (h : Linked cells o l) (more : List Cell) :
    Linked (cells ++ more) o l := by
  induction h with
  | nil => exact .nil
  | cons hcell _ ih =>
    have hlt := (List.getElem?_eq_some_iff.mp hcell).1
    exact .cons ((List.getElem?_append_left hlt).trans hcell) ih

theorem Linked.head?_eq {o : Option ℕ} {l : List ℕ} (h : Linked cells o l) : o = l.head? := by
  cases h <;> rfl

variable (bCache : List Entry)

/-- The cache after these entries were added. -/
def Chains.ofEntries : Chains :=
  bCache.foldl (fun c e => c.add e.mnIdentifier) ⟨[], ∅⟩

theorem length_cells_ofEntries : (Chains.ofEntries bCache).cells.length = bCache.length := by
  induction bCache using List.reverseRecOn with
  | nil => rfl
  | append_singleton bCache e ih =>
    rw [Chains.ofEntries, List.foldl_append, List.foldl_cons, List.foldl_nil, ← Chains.ofEntries, Chains.add,
      List.length_append, List.length_append, ih]
    rfl

/-- An anchor only adds entries: the chain of a mobile node is read off the list of all entries. -/
theorem linked_chain (mnId : Identifier) :
    Linked (Chains.ofEntries bCache).cells ((Chains.ofEntries bCache).lookup mnId)
      ((chain bCache mnId).map Prod.snd) := by
  induction bCache using List.reverseRecOn with
  | nil => exact .nil
  | append_singleton bCache e ih =>
    have hlength := length_cells_ofEntries bCache
    have hchain : chain (bCache ++ [e]) mnId =
        if e.mnIdentifier = mnId then (e, bCache.length) :: chain bCache mnId else chain bCache mnId := by
      rw [chain, List.zipIdx_append, List.filter_append, List.reverse_append]
      split_ifs with heq
      · simp [heq, chain]
      · simp [heq, chain]
    rw [Chains.ofEntries, List.foldl_append, List.foldl_cons, List.foldl_nil, ← Chains.ofEntries, hchain]
    dsimp only [Chains.add, Chains.lookup]
    split_ifs with heq
    · rw [heq, AList.lookup_insert, hlength, List.map_cons]
      have hnew : ((Chains.ofEntries bCache).cells ++ [⟨mnId, (Chains.ofEntries bCache).lookup mnId⟩])[bCache.length]? =
          some ⟨mnId, (Chains.ofEntries bCache).lookup mnId⟩ := by
        rw [List.getElem?_append_right (Nat.le_of_eq hlength), hlength, Nat.sub_self]
        rfl
      exact .cons hnew (ih.append _)
    · rw [AList.lookup_insert_ne fun h => heq h.symm]
      exact ih.append _

end BindingCache

open BindingCache

/-- A cache, and the entries that were added for each mobile node and not removed, the newest first. -/
structure Multimap where
  chains : Chains
  held : Identifier → List ℕ

namespace Multimap

/-- What is done to a cache. -/
inductive Operation where
  | add (mnId : Identifier)
  | remove (entry : ℕ)

/-- An empty cache. -/
def empty : Multimap := ⟨⟨[], ∅⟩, fun _ => []⟩

/-- An operation. -/
def apply (m : Multimap) : Operation → Multimap
  | .add mnId => ⟨m.chains.add mnId, Function.update m.held mnId (m.chains.cells.length :: m.held mnId)⟩
  | .remove entry => ⟨m.chains.remove entry, fun mnId => (m.held mnId).filter (· ≠ entry)⟩

/-- A cache, driven by the operations. -/
def machine : Machine Multimap Operation := ⟨fun _ _ => True, fun m operation => some (m.apply operation)⟩

instance (m : Multimap) (operation : Operation) : Decidable (machine.enabled m operation) := .isTrue trivial

/-- From the entry that is looked up for a mobile node its entries are reached. -/
def Chained (m : Multimap) : Prop := ∀ mnId, Linked m.chains.cells (m.chains.lookup mnId) (m.held mnId)

/-- Only the last entry of a mobile node is removed. -/
def RemovesLast (m : Multimap) : Operation → Prop
  | .add _ => True
  | .remove entry => ∀ cell ∈ m.chains.cells[entry]?, entry ∈ m.held cell.mnIdentifier →
      m.held cell.mnIdentifier = [entry]

instance (m : Multimap) : DecidablePred m.RemovesLast
  | .add _ => .isTrue trivial
  | .remove _ => inferInstanceAs (Decidable (∀ _ ∈ _, _ → _))

/-- The chains are right, and an entry is in that of its mobile node, once. -/
structure Sound (m : Multimap) : Prop where
  chained : m.Chained
  owner : ∀ mnId, ∀ p ∈ m.held mnId, ∃ cell, m.chains.cells[p]? = some cell ∧ cell.mnIdentifier = mnId
  nodup : ∀ mnId, (m.held mnId).Nodup

variable {m : Multimap}

theorem sound_empty : empty.Sound :=
  ⟨fun _ => .nil, fun _ _ hp => absurd hp List.not_mem_nil, fun _ => List.nodup_nil⟩

variable {mnId : Identifier}

theorem Sound.lt (h : m.Sound) {p : ℕ} (hp : p ∈ m.held mnId) : p < m.chains.cells.length := by
  obtain ⟨cell, hcell, -⟩ := h.owner mnId p hp
  exact (List.getElem?_eq_some_iff.mp hcell).1

theorem Sound.owner_eq (h : m.Sound) {mnId mnId' : Identifier} {p : ℕ} (hp : p ∈ m.held mnId)
    (hp' : p ∈ m.held mnId') : mnId = mnId' := by
  obtain ⟨cell, hcell, rfl⟩ := h.owner mnId p hp
  obtain ⟨cell', hcell', rfl⟩ := h.owner mnId' p hp'
  rw [Option.some.inj (hcell.symm.trans hcell')]

theorem Sound.add (h : m.Sound) (mnId : Identifier) : (m.apply (.add mnId)).Sound := by
  have hnew : (m.chains.cells ++ [⟨mnId, m.chains.lookup mnId⟩])[m.chains.cells.length]? =
      some ⟨mnId, m.chains.lookup mnId⟩ := by
    rw [List.getElem?_append_right (Nat.le_refl _), Nat.sub_self]
    rfl
  refine ⟨fun mnId' => ?_, fun mnId' p hp => ?_, fun mnId' => ?_⟩
  · by_cases heq : mnId' = mnId
    · subst heq
      dsimp only [apply, Chains.add, Chains.lookup]
      rw [AList.lookup_insert, Function.update_self]
      exact .cons hnew ((h.chained mnId').append _)
    · dsimp only [apply, Chains.add, Chains.lookup]
      rw [AList.lookup_insert_ne heq, Function.update_of_ne heq]
      exact (h.chained mnId').append _
  · by_cases heq : mnId' = mnId
    · subst heq
      dsimp only [apply] at hp
      rw [Function.update_self] at hp
      rcases List.mem_cons.mp hp with rfl | hold
      · exact ⟨_, hnew, rfl⟩
      · obtain ⟨cell, hcell, howner⟩ := h.owner mnId' p hold
        exact ⟨cell, (List.getElem?_append_left (h.lt hold)).trans hcell, howner⟩
    · dsimp only [apply] at hp
      rw [Function.update_of_ne heq] at hp
      obtain ⟨cell, hcell, howner⟩ := h.owner mnId' p hp
      exact ⟨cell, (List.getElem?_append_left (h.lt hp)).trans hcell, howner⟩
  · by_cases heq : mnId' = mnId
    · subst heq
      dsimp only [apply]
      rw [Function.update_self, List.nodup_cons]
      exact ⟨fun hmem => absurd (h.lt hmem) (Nat.lt_irrefl _), h.nodup mnId'⟩
    · dsimp only [apply]
      rw [Function.update_of_ne heq]
      exact h.nodup mnId'

variable {entry : ℕ}

theorem find?_eq_some {c : Chains} {x : Sigma fun _ : Identifier => ℕ}
    (h : c.bCache.entries.find? (fun x => x.2 = entry) = some x) : c.lookup x.1 = some entry := by
  have hmem := List.mem_of_find?_eq_some h
  have heq : x.2 = entry := by simpa using List.find?_some h
  rw [← heq]
  exact AList.mem_lookup_iff.mpr hmem

theorem find?_eq_none {c : Chains} (h : c.bCache.entries.find? (fun x => x.2 = entry) = none) (mnId : Identifier) :
    c.lookup mnId ≠ some entry := by
  intro heq
  have hmem := AList.mem_lookup_iff.mp (show entry ∈ c.bCache.lookup mnId from heq)
  simpa using List.find?_eq_none.mp h _ hmem

/-- An entry that is not held for a mobile node is not taken from it. -/
theorem filter_eq_self (h : entry ∉ m.held mnId) : (m.held mnId).filter (· ≠ entry) = m.held mnId := by
  refine List.filter_eq_self.mpr fun p hp => decide_eq_true ?_
  rintro rfl
  exact h hp

/-- Only the last entry of a mobile node is removed, whoever it is held for. -/
theorem Sound.removesLast_iff (h : m.Sound) :
    m.RemovesLast (.remove entry) ↔ ∀ mnId, entry ∈ m.held mnId → m.held mnId = [entry] := by
  constructor
  · intro hlast mnId hmem
    obtain ⟨cell, hcell, rfl⟩ := h.owner mnId entry hmem
    exact hlast cell hcell hmem
  · intro hlast cell _ hmem
    exact hlast _ hmem

/-- The newest entry of a mobile node is taken out, with the others of its chain. -/
theorem Sound.remove_newest (h : m.Sound)
    (hfind : ∃ x, m.chains.bCache.entries.find? (fun x => x.2 = entry) = some x ∧ x.1 = mnId) :
    ((m.apply (.remove entry)).Chained ↔ m.held mnId = [entry]) := by
  obtain ⟨x, hfind, rfl⟩ := hfind
  have hhead := (h.chained x.1).head?_eq
  rw [find?_eq_some hfind] at hhead
  obtain ⟨rest, hrest⟩ := List.head?_eq_some_iff.mp hhead.symm
  have hnodup := h.nodup x.1
  rw [hrest, List.nodup_cons] at hnodup
  have hheld : (m.held x.1).filter (· ≠ entry) = rest := by
    rw [hrest, List.filter_cons_of_neg (by simp)]
    refine List.filter_eq_self.mpr fun p hp => decide_eq_true ?_
    rintro rfl
    exact hnodup.1 hp
  constructor
  · intro hchained
    have hnone := hchained x.1
    dsimp only [apply] at hnone
    rw [Chains.remove, hfind, hheld, Chains.lookup, AList.lookup_erase] at hnone
    cases hnone
    exact hrest
  · intro hlast mnId
    dsimp only [apply]
    rw [Chains.remove, hfind]
    dsimp only [Chains.lookup]
    by_cases heq : mnId = x.1
    · subst heq
      rw [AList.lookup_erase, hlast, List.filter_cons_of_neg (by simp)]
      exact .nil
    · have hnot : entry ∉ m.held mnId := by
        intro hmem
        exact heq (h.owner_eq hmem (by rw [hrest]; exact List.mem_cons_self))
      rw [AList.lookup_erase_ne heq, filter_eq_self hnot]
      exact h.chained mnId

/-- Removing an entry leaves the chains right exactly when it is the last one of its mobile node, or not held. -/
theorem Sound.remove_iff (h : m.Sound) (entry : ℕ) :
    (m.apply (.remove entry)).Chained ↔ m.RemovesLast (.remove entry) := by
  rw [h.removesLast_iff]
  cases hfind : m.chains.bCache.entries.find? fun x => x.2 = entry with
  | some x =>
    rw [h.remove_newest ⟨x, hfind, rfl⟩]
    constructor
    · intro hlast mnId hmem
      obtain rfl : mnId = x.1 := h.owner_eq hmem (by rw [hlast]; exact List.mem_cons_self)
      exact hlast
    · intro hlast
      have hhead := (h.chained x.1).head?_eq
      rw [find?_eq_some hfind] at hhead
      exact hlast x.1 (List.mem_of_head? hhead.symm)
  | none =>
    constructor
    · intro hchained mnId hmem
      -- the chain is as it was, with the entry
      have hlinked := hchained mnId
      dsimp only [apply] at hlinked
      rw [Chains.remove, hfind] at hlinked
      rw [(h.chained mnId).eq hlinked] at hmem
      simp at hmem
    · intro hlast mnId
      have hnot : entry ∉ m.held mnId := by
        intro hmem
        have hhead := (h.chained mnId).head?_eq
        rw [hlast mnId hmem] at hhead
        exact find?_eq_none hfind mnId hhead
      dsimp only [apply]
      rw [Chains.remove, hfind, filter_eq_self hnot]
      exact h.chained mnId

theorem cells_remove (c : Chains) (entry : ℕ) : (c.remove entry).cells = c.cells := by
  rw [Chains.remove]
  split <;> rfl

theorem Sound.apply (h : m.Sound) (operation : Operation) :
    ((m.apply operation).Chained ↔ m.RemovesLast operation) ∧
      (m.RemovesLast operation → (m.apply operation).Sound) := by
  cases operation with
  | add mnId => exact ⟨iff_of_true (h.add mnId).chained trivial, fun _ => h.add mnId⟩
  | remove entry =>
    refine ⟨h.remove_iff entry, fun hlast => ⟨(h.remove_iff entry).mpr hlast, fun mnId p hp => ?_, fun mnId => ?_⟩⟩
    · obtain ⟨cell, hcell, howner⟩ := h.owner mnId p (List.mem_of_mem_filter hp)
      refine ⟨cell, ?_, howner⟩
      dsimp only [Multimap.apply]
      rw [cells_remove]
      exact hcell
    · exact (h.nodup mnId).filter _

/-- The mobile node of an operation. -/
def Operation.mobileNode (m : Multimap) : Operation → Option Identifier
  | .add mnId => some mnId
  | .remove entry => m.chains.cells[entry]?.map Cell.mnIdentifier

/-- An operation leaves the chains of the other mobile nodes as they are. -/
def KeepsOthers (m : Multimap) (operation : Operation) (m' : Multimap) : Prop :=
  ∀ mnId, operation.mobileNode m ≠ some mnId →
    ∀ l, Linked m'.chains.cells (m'.chains.lookup mnId) l ↔ Linked m.chains.cells (m.chains.lookup mnId) l

theorem Sound.keepsOthers (h : m.Sound) (operation : Operation) : m.KeepsOthers operation (m.apply operation) := by
  intro mnId hother l
  cases operation with
  | add mnId' =>
    have hne : mnId ≠ mnId' := fun heq => hother (congrArg some heq.symm)
    have hlookup : (m.chains.add mnId').lookup mnId = m.chains.lookup mnId := AList.lookup_insert_ne hne
    dsimp only [Multimap.apply]
    rw [hlookup]
    constructor
    · intro hlinked
      rw [← ((h.chained mnId).append _).eq hlinked]
      exact h.chained mnId
    · exact fun hlinked => hlinked.append _
  | remove entry =>
    dsimp only [Multimap.apply]
    rw [cells_remove]
    have hlookup : (m.chains.remove entry).lookup mnId = m.chains.lookup mnId := by
      cases hfind : m.chains.bCache.entries.find? fun x => x.2 = entry with
      | none => rw [Chains.remove, hfind]
      | some x =>
        have hhead := (h.chained x.1).head?_eq
        rw [find?_eq_some hfind] at hhead
        obtain ⟨cell, hcell, howner⟩ := h.owner x.1 entry (List.mem_of_head? hhead.symm)
        have hne : mnId ≠ x.1 := by
          rintro rfl
          exact hother (by rw [Operation.mobileNode, hcell, Option.map_some, howner])
        rw [Chains.remove, hfind]
        exact AList.lookup_erase_ne hne
    rw [hlookup]

/-- In every state of a run the entries of a mobile node are those that were added and not removed, the newest first,
and no operation changes the chain of another mobile node, exactly when every entry that is removed is the last one of
its mobile node. -/
theorem chained_iff (tr : List (Multimap × Operation)) (m : Multimap) (hrun : machine.Run empty tr m) :
    Machine.EveryState Chained tr m ∧ Machine.EveryStep KeepsOthers tr m ↔ Machine.Meets RemovesLast tr := by
  have hstep : ∀ m operation m', m.Sound → machine.Step m operation m' →
      (m'.Chained ↔ m.RemovesLast operation) ∧ (m.RemovesLast operation → m'.Sound) := by
    rintro m operation m' h ⟨-, hexec⟩
    cases hexec
    exact h.apply operation
  obtain ⟨hiff, hsound⟩ := hrun.everyState_iff_of_invariant sound_empty (fun _ h => h.chained) hstep
  rw [hiff]
  refine ⟨And.left, fun hmeets => ⟨hmeets, hrun.everyStep_of_everyState (hsound hmeets) ?_⟩⟩
  rintro m operation m' h ⟨-, hexec⟩
  cases hexec
  exact h.keepsOthers operation

theorem chained_of_lasts : ∃ out,
    machine.replay empty [.add (.ofOctet 1), .add (.ofOctet 2), .add (.ofOctet 1), .remove 1, .add (.ofOctet 2)] =
        some out ∧
      Machine.EveryState Chained out.1 out.2 ∧ Machine.EveryStep KeepsOthers out.1 out.2 := by
  obtain ⟨out, hout, hrun, hmeets⟩ := Machine.exists_replay (M := machine) empty
    [.add (.ofOctet 1), .add (.ofOctet 2), .add (.ofOctet 1), .remove 1, .add (.ofOctet 2)]
    (P := fun out => Machine.Meets RemovesLast out.1) (by decide +kernel)
  exact ⟨out, hout, (chained_iff out.1 out.2 hrun).mpr hmeets⟩

/-- The newer of two entries is removed, and the older one is not found any more. -/
theorem not_chained_of_newest : ¬ ∀ (tr : List (Multimap × Operation)) (m : Multimap), machine.Run empty tr m →
    Machine.EveryState Chained tr m ∧ Machine.EveryStep KeepsOthers tr m := by
  intro h
  obtain ⟨out, -, hrun, hlookup, hheld⟩ := Machine.exists_replay (M := machine) empty
    [.add (.ofOctet 1), .add (.ofOctet 1), .remove 1]
    (P := fun out => out.2.chains.lookup (.ofOctet 1) = none ∧ out.2.held (.ofOctet 1) = [0]) (by decide +kernel)
  have hlinked := (h out.1 out.2 hrun).1.2 (.ofOctet 1)
  rw [hlookup, hheld] at hlinked
  cases hlinked

end Multimap

end Ns3.Pmip6
