import Mathlib.Data.Prod.Lex
import Mathlib.Order.Lattice.Nat

/-!
# Event schedulers

The events of `Scheduler` (`core/model/scheduler.h`), and `ListScheduler`, which keeps them in a list by the
order of their keys: it is what the other schedulers are compared with.
-/

namespace Ns3

namespace Scheduler

/-- What events are ordered by: time stamp, then identifier. -/
structure EventKey where
  ts : ℕ
  uid : ℕ
  context : ℕ
  deriving DecidableEq

/-- `Scheduler::Event`: `impl` is the address of the `EventImpl`. -/
structure Event where
  impl : ℕ
  key : EventKey
  deriving DecidableEq

/-- `operator <` on keys. The context does not count. -/
instance : LT EventKey := ⟨fun a b => a.ts < b.ts ∨ a.ts = b.ts ∧ a.uid < b.uid⟩

instance (a b : EventKey) : Decidable (a < b) := inferInstanceAs (Decidable (_ ∨ _ ∧ _))

/-- What the order of keys looks at. -/
def EventKey.rank (a : EventKey) : ℕ ×ₗ ℕ := toLex (a.ts, a.uid)

theorem EventKey.lt_iff {a b : EventKey} : a < b ↔ a.rank < b.rank := by
  rw [rank, rank, Prod.Lex.toLex_lt_toLex]
  rfl

theorem EventKey.rank_eq_iff {a b : EventKey} : a.rank = b.rank ↔ a.ts = b.ts ∧ a.uid = b.uid := by
  rw [rank, rank, EmbeddingLike.apply_eq_iff_eq, Prod.mk.injEq]

/-- What the order of events looks at. -/
def Event.rank (ev : Event) : ℕ ×ₗ ℕ := ev.key.rank

/-- The requests that a scheduler serves. -/
inductive Op where
  | insert (ev : Event)
  | peekNext
  | removeNext
  | remove (ev : Event)
  deriving DecidableEq

end Scheduler

open Scheduler

namespace ListScheduler

/-- Before the first event that is later. -/
def insert (ev : Event) : List Event → List Event
  | [] => [ev]
  | x :: events => if ev.key < x.key then ev :: x :: events else x :: insert ev events

/-- The first event. -/
def peekNext (events : List Event) : Option Event := events.head?

/-- The first event is taken out. -/
def removeNext : List Event → Option (Event × List Event)
  | [] => none
  | next :: events => some (next, events)

/-- `Remove`: the first event with the uid. -/
def remove (ev : Event) (events : List Event) : Option (List Event) :=
  if events.any (fun x => x.key.uid = ev.key.uid) then some (events.eraseP fun x => x.key.uid = ev.key.uid)
  else none

/-- A request, with the event that it returns. -/
def exec (events : List Event) : Op → Option (Option Event × List Event)
  | .insert ev => some (none, insert ev events)
  | .peekNext => (peekNext events).map fun next => (some next, events)
  | .removeNext => (removeNext events).map fun (next, events) => (some next, events)
  | .remove ev => (remove ev events).map fun events => (none, events)

/-- The events are in the order of their keys, and no two keys are the same. -/
def Sorted (events : List Event) : Prop := events.Pairwise fun x y => x.rank < y.rank

theorem insert_perm (ev : Event) (events : List Event) : (insert ev events).Perm (ev :: events) := by
  induction events with
  | nil => exact .refl _
  | cons x events ih =>
    rw [insert]
    split_ifs
    · exact .refl _
    · exact (ih.cons x).trans (.swap ..)

variable {events : List Event}

theorem mem_insert {ev x : Event} : x ∈ insert ev events ↔ x = ev ∨ x ∈ events := by
  rw [(insert_perm ev events).mem_iff, List.mem_cons]

section

variable (h : Sorted events)
include h

/-- An event whose key is new is put where it belongs. -/
theorem Sorted.insert {ev : Event} (hev : ∀ x ∈ events, x.rank ≠ ev.rank) :
    Sorted (insert ev events) := by
  induction events with
  | nil => exact List.pairwise_singleton ..
  | cons x events ih =>
    obtain ⟨hx, hrest⟩ := List.pairwise_cons.mp h
    rw [ListScheduler.insert]
    split_ifs with hlt
    · rw [EventKey.lt_iff] at hlt
      refine List.pairwise_cons.mpr ⟨fun y hy => ?_, h⟩
      rcases List.mem_cons.mp hy with rfl | hy
      · exact hlt
      · exact hlt.trans (hx y hy)
    · have hle : x.rank ≤ ev.rank := by
        rw [EventKey.lt_iff, not_lt] at hlt
        exact hlt
      refine List.pairwise_cons.mpr ⟨fun y hy => ?_, ih hrest fun y hy => hev y (List.mem_cons_of_mem _ hy)⟩
      rcases mem_insert.mp hy with rfl | hy
      · exact lt_of_le_of_ne hle (hev x List.mem_cons_self)
      · exact hx y hy

theorem Sorted.nodup_rank : (events.map Event.rank).Nodup :=
  List.pairwise_map.mpr (h.imp fun hlt => hlt.ne)

theorem Sorted.nodup : events.Nodup := h.nodup_rank.of_map

theorem Sorted.eq_of_rank_eq {x y : Event} (hx : x ∈ events) (hy : y ∈ events)
    (hxy : x.rank = y.rank) : x = y :=
  List.inj_on_of_nodup_map h.nodup_rank hx hy hxy

/-- `Remove` takes out the earliest event with the uid. -/
theorem Sorted.remove {ev : Event} (hev : ev ∈ events) :
    ∃ x events', remove ev events = some events' ∧ (x :: events').Perm events ∧ Sorted events' ∧
      x.key.uid = ev.key.uid ∧ ∀ y ∈ events, y.key.uid = ev.key.uid → x.rank ≤ y.rank := by
  obtain ⟨x, l₁, l₂, hl₁, hx, rfl, herase⟩ :=
    List.exists_of_eraseP (p := fun x : Event => x.key.uid = ev.key.uid) hev (decide_eq_true rfl)
  have hany : (l₁ ++ x :: l₂).any (fun y => y.key.uid = ev.key.uid) = true :=
    List.any_eq_true.mpr ⟨ev, hev, decide_eq_true rfl⟩
  obtain ⟨hs₁, hs₂, hs₁₂⟩ := List.pairwise_append.mp h
  obtain ⟨hxl₂, hs₂⟩ := List.pairwise_cons.mp hs₂
  refine ⟨x, l₁ ++ l₂, ?_, List.perm_middle.symm, ?_, of_decide_eq_true hx, fun y hy huid => ?_⟩
  · rw [ListScheduler.remove, if_pos hany, herase]
  · exact List.pairwise_append.mpr ⟨hs₁, hs₂, fun y hy z hz => hs₁₂ y hy z (List.mem_cons_of_mem _ hz)⟩
  · rcases List.mem_append.mp hy with hy | hy
    · exact absurd (decide_eq_true huid) (hl₁ y hy)
    · rcases List.mem_cons.mp hy with rfl | hy
      · exact le_rfl
      · exact (hxl₂ y hy).le

end

end ListScheduler

end Ns3
