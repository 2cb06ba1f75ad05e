import Mathlib.Algebra.Order.BigOperators.Group.List
import Mathlib.Algebra.Order.Group.Nat
import Mathlib.Data.Nat.GCD.Basic
import Ns3.Core.CalendarScheduler
import Ns3.Lib.Buckets

/-!
# The order of the calendar

The calendar against the sorted list.

## What is proved

* `search_near`, `search_far` — the search finds the first event: within a round of the buckets, or as the least of
  the first events where it is further away.
* `resize_spec` — a new array has the same events, unless the new width is zero and there is none.
* `agree` — in every run in which the tops of the buckets are numbers of 64 bits, keys are new and removals find the
  event that the list finds, the calendar has the events of the list and returns the same ones; the next request
  divides by zero exactly if it computes a width from times between events that add up to a multiple of `2 ^ 32`.
-/

namespace Ns3

open Lib Scheduler

namespace ListScheduler

/-- An insertion into the sorted list is one into the bucket of the event. -/
theorem filter_insert {events : List Event} (h : Sorted events) (ev : Event) (p : Event → Bool) :
    (insert ev events).filter p = if p ev = true then insert ev (events.filter p) else events.filter p := by
  induction events with
  | nil => cases hp : p ev <;> simp [insert, hp]
  | cons x events ih =>
    obtain ⟨hx, hrest⟩ := List.pairwise_cons.mp h
    by_cases hlt : ev.key < x.key
    · rw [insert, if_pos hlt]
      by_cases hp : p ev = true
      · rw [List.filter_cons_of_pos hp, if_pos hp]
        cases hfilter : (x :: events).filter p with
        | nil => rfl
        | cons y ys =>
          have hy : y ∈ x :: events := List.mem_of_mem_filter (hfilter ▸ List.mem_cons_self)
          have hlty : ev.key < y.key := by
            rw [EventKey.lt_iff] at hlt ⊢
            rcases List.mem_cons.mp hy with rfl | hy
            · exact hlt
            · exact hlt.trans (hx y hy)
          rw [insert, if_pos hlty]
      · rw [List.filter_cons_of_neg hp, if_neg hp]
    · rw [insert, if_neg hlt, List.filter_cons, List.filter_cons, ih hrest]
      cases hpx : p x <;> cases hp : p ev <;> simp [insert, hlt]

end ListScheduler

namespace CalendarScheduler

/-- The calendar has the events of the list. -/
structure Holds (c : CalendarScheduler) (events : List Event) : Prop where
  /-- Each bucket has the events of its hash. -/
  buckets_eq : c.buckets = inBuckets c.nBuckets (fun ev => c.hash ev.key.ts) events
  nBuckets_pos : 0 < c.nBuckets
  width_pos : 0 < c.width
  sorted : ListScheduler.Sorted events

/-- The search starts at the time of the last event, and no event is before it. -/
structure At (c : CalendarScheduler) (events : List Event) : Prop where
  /-- The bucket of the last event. -/
  lastBucket_eq : c.lastBucket = c.hash c.lastPrio
  bucketTop_eq : c.bucketTop = c.topOf c.lastPrio
  /-- The events are not before it. -/
  le : ∀ ev ∈ events, c.lastPrio ≤ ev.key.ts

/-- The tops of the buckets that a search from the time of an event looks at are numbers of 64 bits. -/
def TopsFit (c : CalendarScheduler) (events : List Event) : Prop :=
  ∀ ev ∈ events, (ev.key.ts / c.width + c.nBuckets) * c.width < 2 ^ 64
deriving Decidable

/-- The calendars have the same parameters, and are as large. -/
structure SameShape (c c' : CalendarScheduler) : Prop where
  /-- The same number of buckets. -/
  nBuckets_eq : c'.nBuckets = c.nBuckets
  width_eq : c'.width = c.width
  qSize_eq : c'.qSize = c.qSize

variable {c c' : CalendarScheduler} {events : List Event} {next : Event}

theorem SameShape.trans {c'' : CalendarScheduler} (h : c.SameShape c') (h' : c'.SameShape c'') : c.SameShape c'' :=
  ⟨h'.nBuckets_eq.trans h.nBuckets_eq, h'.width_eq.trans h.width_eq, h'.qSize_eq.trans h.qSize_eq⟩

theorem SameShape.hash_eq (h : c.SameShape c') (ts : ℕ) : c'.hash ts = c.hash ts := by
  rw [hash, hash, h.nBuckets_eq, h.width_eq]

theorem TopsFit.mono {events' : List Event} (h : c.TopsFit events) (hsub : ∀ ev ∈ events', ev ∈ events) :
    c.TopsFit events' := fun ev hev => h ev (hsub ev hev)

theorem TopsFit.of_sameShape (h : c.TopsFit events) (hshape : c.SameShape c') : c'.TopsFit events := by
  intro ev hev
  rw [hshape.nBuckets_eq, hshape.width_eq]
  exact h ev hev

theorem Holds.hash_lt (h : c.Holds events) (ts : ℕ) : c.hash ts < c.nBuckets := Nat.mod_lt _ h.nBuckets_pos

theorem Holds.bucket_eq (h : c.Holds events) {i : ℕ} (hi : i < c.nBuckets) :
    c.bucket i = events.filter fun ev => c.hash ev.key.ts = i := by
  rw [bucket, h.buckets_eq, getD_inBuckets hi]

variable {ev : Event}

/-- A bucket has the day that its round of the search is for, or one that comes round later. -/
theorem Holds.mem_bucket (h : c.Holds events) {i : ℕ} (hi : i < c.nBuckets) (hev : ev ∈ c.bucket i) :
    ev ∈ events ∧ ev.key.ts / c.width % c.nBuckets = i := by
  rw [h.bucket_eq hi] at hev
  exact ⟨List.mem_of_mem_filter hev, of_decide_eq_true (List.mem_filter.mp hev).2⟩

theorem Holds.bucket_next (h : c.Holds (next :: events)) :
    ∃ rest, c.bucket (c.hash next.key.ts) = next :: rest := by
  rw [h.bucket_eq (h.hash_lt _)]
  exact ⟨_, List.filter_cons_of_pos (decide_eq_true rfl)⟩

theorem Holds.day_le (h : c.Holds (next :: events)) (hev : ev ∈ next :: events) :
    next.key.ts / c.width ≤ ev.key.ts / c.width := by
  rcases List.mem_cons.mp hev with rfl | hev
  · exact le_rfl
  · have hlt := (List.pairwise_cons.mp h.sorted).1 ev hev
    rw [Event.rank, Event.rank, EventKey.rank, EventKey.rank, Prod.Lex.toLex_lt_toLex] at hlt
    exact Nat.div_le_div_right (by omega)

/-- The top of a day, as the search computes it. -/
def dayTop (c : CalendarScheduler) (day : ℕ) : ℕ := (day + 1) * c.width % 2 ^ 64

theorem add64_dayTop (day : ℕ) : add64 (c.dayTop day) c.width = c.dayTop (day + 1) := by
  rw [add64, dayTop, dayTop, Nat.mod_add_mod, ← Nat.succ_mul]

theorem lt_dayTop_iff (hwidth : 0 < c.width) {ts day : ℕ} (hday : (day + 1) * c.width < 2 ^ 64) :
    ts < c.dayTop day ↔ ts / c.width ≤ day := by
  rw [dayTop, Nat.mod_eq_of_lt hday, ← Nat.div_lt_iff_lt_mul hwidth, Nat.lt_succ_iff]

theorem TopsFit.dayTop_lt (h : c.TopsFit (next :: events)) {day : ℕ} (hday : day < next.key.ts / c.width + c.nBuckets) :
    (day + 1) * c.width < 2 ^ 64 :=
  (Nat.mul_le_mul_right _ hday).trans_lt (h next List.mem_cons_self)

theorem succ_mod (day n : ℕ) : (day % n + 1) % n = (day + 1) % n := Nat.mod_add_mod ..

section

variable (h : c.Holds (next :: events))
include h

/-- The search finds the first event when it comes to its day. -/
theorem search_near (hfit : c.TopsFit (next :: events)) {rounds day : ℕ} (hday : day ≤ next.key.ts / c.width)
    (hrounds : next.key.ts / c.width < day + rounds) (minEvent : Event) :
    c.search rounds (day % c.nBuckets) (c.dayTop day) minEvent =
      .inl (c.hash next.key.ts, c.topOf next.key.ts, next) := by
  have hnbuckets := h.nBuckets_pos
  induction rounds generalizing day minEvent with
  | zero => omega
  | succ rounds ih =>
    have htop : (day + 1) * c.width < 2 ^ 64 := hfit.dayTop_lt (by omega)
    rw [search]
    rcases Nat.eq_or_lt_of_le hday with heq | hlt
    · obtain ⟨rest, hbucket⟩ := h.bucket_next
      rw [hash, ← heq] at hbucket
      rw [hbucket]
      change (if next.key.ts < c.dayTop day then _ else _) = _
      rw [if_pos ((lt_dayTop_iff h.width_pos htop).mpr heq.ge), hash, topOf, ← heq]
      rfl
    · have hnext := fun ev => @ih (day + 1) (by omega) (by omega) ev
      rw [succ_mod, add64_dayTop]
      cases hbucket : c.bucket (day % c.nBuckets) with
      | nil => exact hnext minEvent
      | cons first rest =>
        obtain ⟨hmem, -⟩ := h.mem_bucket (Nat.mod_lt day h.nBuckets_pos) (hbucket ▸ List.mem_cons_self)
        have hle := h.day_le hmem
        change (if first.key.ts < c.dayTop day then _ else _) = _
        rw [if_neg (fun hfirst => by have := (lt_dayTop_iff h.width_pos htop).mp hfirst; omega)]
        exact hnext _

/-- Where the first event is more than a round away, the search ends with the least of the first events. -/
theorem search_far (hfit : c.TopsFit (next :: events)) {rounds start day : ℕ}
    (hfar : start + c.nBuckets ≤ next.key.ts / c.width) (hday : day + rounds = start + c.nBuckets) {minEvent : Event}
    (hmin : minEvent = next ∨ next.rank < minEvent.rank)
    (hseen : minEvent ≠ next → ∀ d, start ≤ d → d < day → d % c.nBuckets ≠ c.hash next.key.ts) :
    c.search rounds (day % c.nBuckets) (c.dayTop day) minEvent = .inr next := by
  induction rounds generalizing day minEvent with
  | zero =>
    rw [search]
    refine congrArg _ (by_contra fun hne => ?_)
    -- among as many days as there are buckets, one has the bucket of the event
    have hpos := h.nBuckets_pos
    have hlt := Nat.mod_lt (next.key.ts / c.width - start) hpos
    refine hseen hne (start + (next.key.ts / c.width - start) % c.nBuckets) (by omega) (by omega) ?_
    rw [hash, Nat.add_mod_mod, Nat.add_sub_cancel' (by omega)]
  | succ rounds ih =>
    have htop : (day + 1) * c.width < 2 ^ 64 := hfit.dayTop_lt (by omega)
    have hextend : ∀ {ev : Event}, (ev ≠ next → ∀ d, start ≤ d → d < day → d % c.nBuckets ≠ c.hash next.key.ts) →
        (ev ≠ next → day % c.nBuckets ≠ c.hash next.key.ts) →
        ev ≠ next → ∀ d, start ≤ d → d < day + 1 → d % c.nBuckets ≠ c.hash next.key.ts := by
      intro ev hold hnew hne d hd hlt
      rcases Nat.lt_succ_iff_lt_or_eq.mp hlt with hlt | rfl
      · exact hold hne d hd hlt
      · exact hnew hne
    rw [search, succ_mod, add64_dayTop]
    cases hbucket : c.bucket (day % c.nBuckets) with
    | nil =>
      refine ih (by omega) hmin (hextend hseen fun _ heq => ?_)
      obtain ⟨rest, hrest⟩ := h.bucket_next
      rw [heq, hrest] at hbucket
      cases hbucket
    | cons first rest =>
      obtain ⟨hmem, hmod⟩ := h.mem_bucket (Nat.mod_lt day h.nBuckets_pos) (hbucket ▸ List.mem_cons_self)
      have hle := h.day_le hmem
      have hfirst : first = next ∨ next.rank < first.rank := by
        rcases List.mem_cons.mp hmem with heq | hmem
        · exact Or.inl heq
        · exact Or.inr ((List.pairwise_cons.mp h.sorted).1 first hmem)
      have hhere : day % c.nBuckets = c.hash next.key.ts → first = next := by
        intro heq
        obtain ⟨rest', hrest⟩ := h.bucket_next
        rw [heq, hrest] at hbucket
        exact (List.cons.inj hbucket).1.symm
      change (if first.key.ts < c.dayTop day then _ else _) = _
      rw [if_neg (fun hlt => by have := (lt_dayTop_iff h.width_pos htop).mp hlt; omega)]
      by_cases hless : first.key < minEvent.key
      · rw [if_pos hless]
        refine ih (by omega) hfirst (hextend (fun hne => ?_) fun hne heq => hne (hhere heq))
        refine hseen fun heq => ?_
        rw [EventKey.lt_iff, heq] at hless
        exact hfirst.elim hne fun hlt => absurd hless (not_lt.mpr hlt.le)
      · rw [if_neg hless]
        refine ih (by omega) hmin (hextend hseen fun hne heq => hless ?_)
        rw [EventKey.lt_iff, hhere heq]
        exact hmin.resolve_left hne

/-- The search from the time of the last event on. -/
theorem searchAll_spec (hat : c.At (next :: events)) (hfit : c.TopsFit (next :: events)) :
    c.searchAll = .inl (c.hash next.key.ts, c.topOf next.key.ts, next) ∨ c.searchAll = .inr next := by
  have hle : c.lastPrio / c.width ≤ next.key.ts / c.width := Nat.div_le_div_right (hat.le next List.mem_cons_self)
  rw [searchAll, hat.lastBucket_eq, hat.bucketTop_eq]
  by_cases hnear : next.key.ts / c.width < c.lastPrio / c.width + c.nBuckets
  · exact Or.inl (search_near h hfit hle hnear _)
  · refine Or.inr (search_far h hfit (Nat.not_lt.mp hnear) rfl (Or.inr ?_) fun _ d hd hlt => absurd hd (by omega))
    -- the event that the search starts from is later than any
    have hlast : next.key.ts / c.width < next.key.ts / c.width + c.nBuckets := Nat.lt_add_of_pos_right h.nBuckets_pos
    have hts : next.key.ts < (next.key.ts / c.width + 1) * c.width :=
      (Nat.div_lt_iff_lt_mul h.width_pos).mp (Nat.lt_succ_self _)
    have htop := hfit.dayTop_lt hlast
    rw [Event.rank, Event.rank, EventKey.rank, EventKey.rank, Prod.Lex.toLex_lt_toLex]
    refine Or.inl ?_
    change next.key.ts < 2 ^ 64 - 1
    omega

theorem Holds.popFront {i : ℕ} (hi : i = c.hash next.key.ts) :
    c.buckets.modify i List.tail = inBuckets c.nBuckets (fun ev => c.hash ev.key.ts) events := by
  rw [h.buckets_eq]
  refine modify_inBuckets ?_ fun j hj => ?_
  · rw [List.filter_cons_of_pos (by simpa using hi.symm)]
    rfl
  · exact List.filter_cons_of_neg (by simpa using fun heq => hj (heq.symm.trans hi.symm))

/-- `DoRemoveNext` returns the first event of the list. -/
theorem doRemoveNext_spec (hat : c.At (next :: events)) (hfit : c.TopsFit (next :: events)) :
    ∃ c', c.doRemoveNext = (next, c') ∧ c'.Holds events ∧ c'.At events ∧ c.SameShape c' ∧
      c'.lastPrio = next.key.ts := by
  have hle : ∀ ev ∈ events, next.key.ts ≤ ev.key.ts := by
    intro ev hev
    have hlt := (List.pairwise_cons.mp h.sorted).1 ev hev
    rw [Event.rank, Event.rank, EventKey.rank, EventKey.rank, Prod.Lex.toLex_lt_toLex] at hlt
    omega
  have hsorted := (List.pairwise_cons.mp h.sorted).2
  rw [doRemoveNext]
  rcases searchAll_spec h hat hfit with hsearch | hsearch
  · rw [hsearch]
    exact ⟨_, rfl, ⟨h.popFront rfl, h.nBuckets_pos, h.width_pos, hsorted⟩, ⟨rfl, rfl, hle⟩, ⟨rfl, rfl, rfl⟩, rfl⟩
  · rw [hsearch]
    exact ⟨_, rfl, ⟨h.popFront rfl, h.nBuckets_pos, h.width_pos, hsorted⟩, ⟨rfl, rfl, hle⟩, ⟨rfl, rfl, rfl⟩, rfl⟩

end

/-! ### Taking samples -/

theorem Holds.doInsert (h : c.Holds events) (hev : ∀ x ∈ events, x.rank ≠ ev.rank) :
    (c.doInsert ev).Holds (ListScheduler.insert ev events) ∧ c.SameShape (c.doInsert ev) := by
  refine ⟨⟨?_, h.nBuckets_pos, h.width_pos, h.sorted.insert hev⟩, rfl, rfl, rfl⟩
  change c.buckets.modify _ _ = inBuckets c.nBuckets (fun ev => c.hash ev.key.ts) _
  rw [h.buckets_eq]
  refine modify_inBuckets ?_ fun j hj => ?_
  · rw [ListScheduler.filter_insert h.sorted, if_pos (decide_eq_true rfl)]
  · rw [ListScheduler.filter_insert h.sorted, if_neg (by simpa using Ne.symm hj)]

/-- Events that are put in one after the other. -/
theorem Holds.insertAll {evs : List Event} (h : c.Holds events)
    (hevs : ((evs ++ events).map Event.rank).Nodup) :
    ∃ events', (evs.foldl CalendarScheduler.doInsert c).Holds events' ∧ events'.Perm (evs ++ events) ∧
      evs.foldl CalendarScheduler.doInsert c =
        { c with buckets := (evs.foldl CalendarScheduler.doInsert c).buckets } := by
  induction evs generalizing c events with
  | nil => exact ⟨events, h, .refl _, rfl⟩
  | cons ev evs ih =>
    rw [List.cons_append, List.map_cons, List.nodup_cons] at hevs
    have hev : ∀ x ∈ events, x.rank ≠ ev.rank := fun x hx heq =>
      hevs.1 (List.mem_map.mpr ⟨x, List.mem_append_right _ hx, heq⟩)
    have hperm : (evs ++ ListScheduler.insert ev events).Perm (ev :: (evs ++ events)) :=
      ((ListScheduler.insert_perm ev events).append_left evs).trans List.perm_middle
    obtain ⟨events', hholds, hperm', heq⟩ :=
      ih (h.doInsert hev).1 ((hperm.map _).nodup_iff.mpr (List.nodup_cons.mpr hevs))
    exact ⟨events', hholds, hperm'.trans hperm, heq⟩

theorem sorted_unique {events' : List Event} (h : ListScheduler.Sorted events) (h' : ListScheduler.Sorted events')
    (hperm : events'.Perm events) : events' = events :=
  hperm.eq_of_pairwise (fun _ _ _ _ hlt hlt' => absurd (hlt.trans hlt') (lt_irrefl _)) h' h

/-- The samples are the first events of the list. -/
theorem gather_spec {k : ℕ} (hk : k ≤ events.length) (h : c.Holds events) (hat : c.At events)
    (hfit : c.TopsFit events) :
    ∃ c', gather k c = (events.take k, c') ∧ c'.Holds (events.drop k) ∧ c.SameShape c' := by
  induction k generalizing c events with
  | zero => exact ⟨c, rfl, h, rfl, rfl, rfl⟩
  | succ k ih =>
    cases events with
    | nil => cases hk
    | cons next events =>
      obtain ⟨c₁, heq, hholds, hat', hshape, -⟩ := doRemoveNext_spec h hat hfit
      have hfit' : c₁.TopsFit events := (hfit.mono fun ev hev => List.mem_cons_of_mem _ hev).of_sameShape hshape
      obtain ⟨c₂, hgather, hholds', hshape'⟩ := ih (Nat.le_of_succ_le_succ hk) hholds hat' hfit'
      refine ⟨c₂, ?_, hholds', hshape.trans hshape'⟩
      rw [gather, heq]
      change (next :: (gather k c₁).1, (gather k c₁).2) = _
      rw [hgather]
      rfl

theorem nSamples_le (qSize : ℕ) : nSamples qSize ≤ qSize := by
  rw [nSamples]
  split_ifs <;> omega

/-- The width that a queue gets when its array is made anew. -/
def newWidth (events : List Event) : ℕ :=
  if events.length < 2 then 1 else widthOf (events.take (nSamples events.length))

/-- `CalculateNewWidth` leaves the calendar as it was. -/
theorem calculateNewWidth_spec (h : c.Holds events) (hat : c.At events) (hfit : c.TopsFit events)
    (hsize : c.qSize = events.length) : c.calculateNewWidth = (newWidth events, c) := by
  rw [calculateNewWidth, newWidth, hsize]
  split_ifs with htwo
  · rfl
  · obtain ⟨c', hgather, hholds, hshape⟩ := gather_spec (nSamples_le events.length) h hat hfit
    have hnodup : ((events.take (nSamples events.length) ++ events.drop (nSamples events.length)).map
        Event.rank).Nodup := by
      rw [List.take_append_drop]
      exact h.sorted.nodup_rank
    obtain ⟨events', hholds', hperm, heq⟩ := hholds.insertAll hnodup
    rw [List.take_append_drop] at hperm
    obtain rfl : events' = events := sorted_unique h.sorted hholds'.sorted hperm
    rw [hgather]
    refine Prod.ext rfl (CalendarScheduler.ext ?_ ?_ ?_ rfl rfl rfl ?_)
    · change (List.foldl _ c' _).buckets = _
      rw [hholds'.buckets_eq, h.buckets_eq, heq]
      change inBuckets c'.nBuckets (fun ev => c'.hash ev.key.ts) events' = _
      simp only [hshape.nBuckets_eq, hshape.hash_eq]
    · change (List.foldl _ c' _).nBuckets = _
      rw [heq]
      exact hshape.nBuckets_eq
    · change (List.foldl _ c' _).width = _
      rw [heq]
      exact hshape.width_eq
    · change (List.foldl _ c' _).qSize = _
      rw [heq]
      exact hshape.qSize_eq

/-- A new array has the same events, and there is one if the new width is not zero. -/
theorem resize_spec (h : c.Holds events) (hat : c.At events) (hfit : c.TopsFit events)
    (hsize : c.qSize = events.length) {newSize : ℕ} (hpos : 0 < newSize) :
    if newWidth events = 0 then c.resize newSize = none
    else ∃ c', c.resize newSize = some c' ∧ c'.Holds events ∧ c'.At events ∧ c'.qSize = events.length ∧
      c'.lastPrio = c.lastPrio ∧ c'.nBuckets = newSize := by
  rw [resize, calculateNewWidth_spec h hat hfit hsize]
  change if _ then c.doResize newSize (newWidth events) = none
    else ∃ c', c.doResize newSize (newWidth events) = some c' ∧ _
  rw [doResize, init]
  by_cases hwidth : newWidth events = 0
  · rw [if_pos hwidth, if_pos (Or.inl hwidth)]
    rfl
  · rw [if_neg hwidth, if_neg (not_or.mpr ⟨hwidth, hpos.ne'⟩)]
    obtain ⟨empty, hempty⟩ : ∃ empty : CalendarScheduler, empty = { c with
      buckets := List.replicate newSize []
      nBuckets := newSize
      width := newWidth events
      lastPrio := c.lastPrio
      lastBucket := c.lastPrio / newWidth events % newSize
      bucketTop := (c.lastPrio / newWidth events + 1) * newWidth events % 2 ^ 64 } := ⟨_, rfl⟩
    have hperm : c.buckets.flatten.Perm events := by
      rw [h.buckets_eq]
      exact flatten_inBuckets_perm (fun ev _ => h.hash_lt ev.key.ts) h.sorted.nodup
    have hholds : empty.Holds [] := by
      rw [hempty]
      exact ⟨inBuckets_nil.symm, hpos, Nat.pos_of_ne_zero hwidth, List.Pairwise.nil⟩
    have hnodup : ((c.buckets.flatten ++ []).map Event.rank).Nodup := by
      rw [List.append_nil]
      exact (hperm.map _).nodup_iff.mpr h.sorted.nodup_rank
    obtain ⟨events', hholds', hperm', heq⟩ := hholds.insertAll hnodup
    rw [List.append_nil] at hperm'
    obtain rfl : events' = events := sorted_unique h.sorted hholds'.sorted (hperm'.trans hperm)
    have hsome : Option.map (fun c' => c.buckets.flatten.foldl CalendarScheduler.doInsert c') (some empty) =
        some (c.buckets.flatten.foldl CalendarScheduler.doInsert empty) := rfl
    rw [hempty] at hsome
    refine ⟨_, hsome, ?_⟩
    rw [← hempty]
    refine ⟨hholds', ?_, ?_, ?_, ?_⟩
    · rw [heq, hempty]
      exact ⟨rfl, rfl, hat.le⟩
    · rw [heq, hempty]
      exact hsize
    · rw [heq, hempty]
    · rw [heq, hempty]

/-! ### The new width -/

/-- The times between events in order. -/
def timesBetween : List Event → List ℕ
  | cur :: next :: events => (next.key.ts - cur.key.ts) :: timesBetween (next :: events)
  | _ => []

/-- Those of the times between events that are at most twice the average, as a number of 64 bits, added up. -/
def spread (events : List Event) : ℕ :=
  ((timesBetween events).filter fun diff =>
    diff ≤ (timesBetween events).sum / (events.length - 1) * 2 % 2 ^ 64).sum

theorem gaps_eq (h : ListScheduler.Sorted events) : gaps events = timesBetween events := by
  induction events with
  | nil => rfl
  | cons cur events ih =>
    obtain ⟨hcur, hrest⟩ := List.pairwise_cons.mp h
    cases events with
    | nil => rfl
    | cons next events =>
      have hlt := hcur next List.mem_cons_self
      rw [Event.rank, Event.rank, EventKey.rank, EventKey.rank, Prod.Lex.toLex_lt_toLex] at hlt
      rw [gaps, timesBetween, ih hrest, sub64, if_pos (by omega)]

/-- The times between events add up to what is between the first and the last. -/
theorem sum_timesBetween_lt (h : ListScheduler.Sorted (next :: events)) {bound : ℕ}
    (hbound : ∀ ev ∈ next :: events, ev.key.ts < bound) :
    next.key.ts + (timesBetween (next :: events)).sum < bound := by
  induction events generalizing next with
  | nil => exact hbound next List.mem_cons_self
  | cons second events ih =>
    obtain ⟨hnext, hrest⟩ := List.pairwise_cons.mp h
    have hlt := hnext second List.mem_cons_self
    rw [Event.rank, Event.rank, EventKey.rank, EventKey.rank, Prod.Lex.toLex_lt_toLex] at hlt
    have hsum := ih hrest fun ev hev => hbound ev (List.mem_cons_of_mem _ hev)
    rw [timesBetween, List.sum_cons]
    omega

theorem foldl_add64 {l : List ℕ} {a : ℕ} (h : a + l.sum < 2 ^ 64) : l.foldl add64 a = a + l.sum := by
  induction l generalizing a with
  | nil => rfl
  | cons x l ih =>
    rw [List.sum_cons, ← Nat.add_assoc] at h
    rw [List.foldl_cons, add64, Nat.mod_eq_of_lt (by omega), ih h, List.sum_cons, Nat.add_assoc]

theorem sum64_eq {l : List ℕ} (h : l.sum < 2 ^ 64) : sum64 l = l.sum := by
  have hfold := foldl_add64 (l := l) (a := 0) (by omega)
  rw [Nat.zero_add] at hfold
  exact hfold

theorem sum_filter_le (l : List ℕ) (p : ℕ → Bool) : (l.filter p).sum ≤ l.sum :=
  List.filter_sublist.sum_le_sum fun _ _ => Nat.zero_le _

/-- Three times a total, as a number of 64 bits and at least one, is lost as it becomes one of 32 bits if the total
is a multiple of `2 ^ 32`. -/
theorem truncated_eq_zero_iff {total : ℕ} (h : total < 2 ^ 64) :
    max (total * 3 % 2 ^ 64) 1 % 2 ^ 32 = 0 ↔ total ≠ 0 ∧ 2 ^ 32 ∣ total := by
  have hcoprime : ∀ k, Nat.Coprime (2 ^ k) 3 := fun k => Nat.Coprime.pow_left k (by decide)
  have hdvd : 2 ^ 32 ∣ total * 3 % 2 ^ 64 ↔ 2 ^ 32 ∣ total := by
    rw [Nat.dvd_mod_iff (pow_dvd_pow 2 (by decide)), (hcoprime 32).dvd_mul_right]
  have hzero : total * 3 % 2 ^ 64 = 0 ↔ total = 0 := by
    rw [← Nat.dvd_iff_mod_eq_zero, (hcoprime 64).dvd_mul_right]
    exact ⟨fun hd => Nat.eq_zero_of_dvd_of_lt hd h, fun hd => hd ▸ Nat.dvd_zero _⟩
  rw [← Nat.dvd_iff_mod_eq_zero]
  rcases Nat.eq_zero_or_pos (total * 3 % 2 ^ 64) with heq | hpos
  · rw [heq]
    exact iff_of_false (by decide) fun hboth => hboth.1 (hzero.mp heq)
  · rw [Nat.max_eq_left hpos, hdvd]
    exact (and_iff_right fun heq => (Nat.ne_of_gt hpos) (hzero.mpr heq)).symm

/-- The width of the samples is lost as it becomes a number of 32 bits if their times add up to a multiple of
`2 ^ 32`. -/
theorem widthOf_eq_zero_iff (h : ListScheduler.Sorted events) (hbound : ∀ ev ∈ events, ev.key.ts < 2 ^ 64) :
    widthOf events = 0 ↔ spread events ≠ 0 ∧ 2 ^ 32 ∣ spread events := by
  have hsum : (timesBetween events).sum < 2 ^ 64 := by
    cases events with
    | nil => exact Nat.two_pow_pos 64
    | cons next events =>
      have hlt := sum_timesBetween_lt h hbound
      omega
  have hle := sum_filter_le (timesBetween events) fun diff =>
    diff ≤ (timesBetween events).sum / (events.length - 1) * 2 % 2 ^ 64
  have htotal : totalSeparation events = spread events := by
    rw [totalSeparation, twiceAvg, gaps_eq h, sum64_eq hsum, sum64_eq (hle.trans_lt hsum), spread]
  have hlt : spread events < 2 ^ 64 := hle.trans_lt hsum
  rw [widthOf, htotal]
  exact truncated_eq_zero_iff hlt

/-- A width for the queue. -/
def Kept (events : List Event) : Prop :=
  2 ≤ events.length → spread (events.take (nSamples events.length)) = 0 ∨
    ¬ 2 ^ 32 ∣ spread (events.take (nSamples events.length))

theorem newWidth_eq_zero_iff (h : ListScheduler.Sorted events) (hbound : ∀ ev ∈ events, ev.key.ts < 2 ^ 64) :
    newWidth events = 0 ↔ ¬ Kept events := by
  rw [newWidth, Kept]
  split_ifs with htwo
  · exact iff_of_false not_false (not_not.mpr fun hle => absurd hle (Nat.not_le.mpr htwo))
  · rw [widthOf_eq_zero_iff (h.sublist (List.take_sublist ..)) fun ev hev => hbound ev (List.mem_of_mem_take hev),
      imp_iff_right (Nat.not_lt.mp htwo), not_or, not_not]

/-! ### Requests -/

/-- The calendar holds the events, and goes on from where another one was. -/
structure Carries (c c' : CalendarScheduler) (events : List Event) : Prop where
  holds : c'.Holds events
  searches : c'.At events
  qSize_eq : c'.qSize = events.length
  /-- The time of the last event. -/
  lastPrio_eq : c'.lastPrio = c.lastPrio

theorem TopsFit.ts_lt (h : c.TopsFit events) (hholds : c.Holds events) : ∀ ev ∈ events, ev.key.ts < 2 ^ 64 := by
  intro ev hev
  have hday : ev.key.ts < (ev.key.ts / c.width + 1) * c.width :=
    (Nat.div_lt_iff_lt_mul hholds.width_pos).mp (Nat.lt_succ_self _)
  have hle : (ev.key.ts / c.width + 1) * c.width ≤ (ev.key.ts / c.width + c.nBuckets) * c.width :=
    Nat.mul_le_mul_right _ (Nat.add_le_add_left hholds.nBuckets_pos _)
  exact (hday.trans_le hle).trans (h ev hev)

/-- What a change of the array does, where there may be one. -/
theorem resize_if (h : c.Holds events) (hat : c.At events) (hfit : c.TopsFit events) (hsize : c.qSize = events.length)
    {n : ℕ} {P : Prop} [Decidable P] (hpos : P → 0 < n) :
    ((if P then c.resize n else some c) = none ↔ ¬ (P → Kept events)) ∧
      ∀ c', (if P then c.resize n else some c) = some c' → c.Carries c' events := by
  have hzero := newWidth_eq_zero_iff h.sorted (hfit.ts_lt h)
  by_cases hP : P
  · have hresize := resize_spec h hat hfit hsize (hpos hP)
    rw [if_pos hP, imp_iff_right hP, ← hzero]
    split_ifs at hresize with hwidth
    · rw [hresize]
      exact ⟨iff_of_true rfl hwidth, fun c' hc' => by cases hc'⟩
    · obtain ⟨c', hsome, hholds, hat', hsize', hprio, -⟩ := hresize
      rw [hsome]
      refine ⟨iff_of_false (Option.some_ne_none c') hwidth, fun c'' hc'' => ?_⟩
      cases hc''
      exact ⟨hholds, hat', hsize', hprio⟩
  · rw [if_neg hP]
    refine ⟨iff_of_false (Option.some_ne_none c) (not_not.mpr fun hp => absurd hp hP), fun c' hc' => ?_⟩
    cases hc'
    exact ⟨h, hat, hsize, rfl⟩

/-- The event that the list finds for a removal: the first with the uid. -/
def found (ev : Event) (events : List Event) : Option Event := events.find? fun x => x.key.uid = ev.key.uid

/-- What the requests are to be like: the tops of the buckets are numbers of 64 bits, keys are new, and a removal
finds the event that the list finds, as its bucket has that one. -/
def Both.Clear (s : Both) : Op → Prop
  | .insert ev =>
    (∀ x ∈ s.list, x.rank ≠ ev.rank) ∧ s.calendar.TopsFit (ev :: s.list) ∧ s.list.length + 1 < 2 ^ 32
  | .peekNext | .removeNext => s.calendar.TopsFit s.list
  | .remove ev =>
    s.calendar.TopsFit s.list ∧ ∀ x ∈ found ev s.list, s.calendar.hash x.key.ts = s.calendar.hash ev.key.ts

instance (s : Both) : ∀ op, Decidable (s.Clear op)
  | .insert _ => inferInstanceAs (Decidable (_ ∧ _ ∧ _))
  | .peekNext | .removeNext => inferInstanceAs (Decidable (s.calendar.TopsFit _))
  | .remove _ => inferInstanceAs (Decidable (_ ∧ _))

/-- If the request makes the array anew, the times between the events that are left give it a width. -/
def Both.WidthFits (s : Both) : Op → Prop
  | .insert ev =>
    s.calendar.nBuckets * 2 < s.list.length + 1 ∧ s.calendar.nBuckets < 32768 → Kept (ListScheduler.insert ev s.list)
  | .peekNext => True
  | .removeNext => s.list.length - 1 < s.calendar.nBuckets / 2 → Kept s.list.tail
  | .remove ev =>
    s.list.length - 1 < s.calendar.nBuckets / 2 → Kept (s.list.eraseP fun x => x.key.uid = ev.key.uid)

/-- The calendar has the events of the list in buckets that have a width. -/
structure Both.Agree (s : Both) : Prop where
  width_pos : 1 ≤ s.calendar.width
  perm : s.calendar.buckets.flatten.Perm s.list

/-- Both answer the request in the same way. -/
def SameAnswer (s : Both) (op : Op) (_ : Both) : Prop :=
  (s.calendar.exec op).map Prod.fst = (ListScheduler.exec s.list op).map Prod.fst

/-- What holds of the schedulers in a run. -/
structure Both.Sound (s : Both) : Prop where
  holds : s.calendar.Holds s.list
  searches : s.calendar.At s.list
  qSize_eq : s.calendar.qSize = s.list.length
  /-- The time of the last event. -/
  last_eq : s.last = s.calendar.lastPrio

theorem Both.sound_new : Both.new.Sound where
  holds := ⟨rfl, Nat.two_pos, Nat.one_pos, List.Pairwise.nil⟩
  searches := ⟨rfl, rfl, fun _ hev => absurd hev List.not_mem_nil⟩
  qSize_eq := rfl
  last_eq := rfl

theorem Both.Sound.toAgree {s : Both} (h : s.Sound) : s.Agree where
  width_pos := h.holds.width_pos
  perm := by
    rw [h.holds.buckets_eq]
    exact flatten_inBuckets_perm (fun ev _ => h.holds.hash_lt ev.key.ts) h.holds.sorted.nodup

/-- What a request does, when all is as it should be. -/
structure Served (s : Both) (op : Op) : Prop where
  /-- It divides by zero if the new array has no width. -/
  stops_iff : machine.exec s op = none ↔ ¬ s.WidthFits op
  sound : ∀ s', machine.exec s op = some s' → s'.Sound ∧ SameAnswer s op s'

variable {s : Both} {op : Op}

/-- A request whose answer is that of the list, and that leaves the calendar with the events of the list. -/
theorem served_of {a : Option Event} {q : Option CalendarScheduler} {l : List Event} {t : ℕ}
    (hcalendar : s.calendar.exec op = q.map fun c => (a, c))
    (hlist : ListScheduler.exec s.list op = some (a, l))
    (hlast : (if op = .removeNext then (s.list.head?.map fun next => next.key.ts).getD 0 else s.last) = t)
    (hnone : q = none ↔ ¬ s.WidthFits op)
    (hsome : ∀ c', q = some c' → c'.Holds l ∧ c'.At l ∧ c'.qSize = l.length ∧ t = c'.lastPrio) :
    Served s op := by
  have hexec : machine.exec s op = q.map fun c => ⟨c, l, t⟩ := by
    change Both.exec s op = _
    rw [Both.exec, hcalendar, hlist, hlast]
    cases q <;> rfl
  refine ⟨?_, fun s' hs' => ?_⟩
  · rw [hexec, Option.map_eq_none_iff]
    exact hnone
  · rw [hexec] at hs'
    obtain ⟨c', rfl, rfl⟩ := Option.map_eq_some_iff.mp hs'
    obtain ⟨hholds, hat, hsize, hprio⟩ := hsome c' rfl
    refine ⟨⟨hholds, hat, hsize, hprio⟩, ?_⟩
    rw [SameAnswer, hcalendar, hlist]
    rfl

theorem Both.Sound.insert (h : s.Sound) (hen : s.Enabled (.insert ev)) (hclear : s.Clear (.insert ev)) :
    Served s (.insert ev) := by
  obtain ⟨hnew, hfit, hlength⟩ := hclear
  obtain ⟨hholds, -⟩ := h.holds.doInsert hnew
  have hmem : ∀ x ∈ ListScheduler.insert ev s.list, x ∈ ev :: s.list :=
    fun x hx => (ListScheduler.insert_perm ev s.list).mem_iff.mp hx
  have hlen : (ListScheduler.insert ev s.list).length = s.list.length + 1 :=
    (ListScheduler.insert_perm ev s.list).length_eq
  have hsize : (s.calendar.qSize + 1) % 2 ^ 32 = s.list.length + 1 := by
    rw [h.qSize_eq, Nat.mod_eq_of_lt hlength]
  have hle : ∀ x ∈ ListScheduler.insert ev s.list, s.calendar.lastPrio ≤ x.key.ts := by
    intro x hx
    rcases List.mem_cons.mp (hmem x hx) with rfl | hx
    · exact h.last_eq.ge.trans hen
    · exact h.searches.le x hx
  obtain ⟨hnone, hsome⟩ := resize_if (c := { s.calendar.doInsert ev with qSize := (s.calendar.qSize + 1) % 2 ^ 32 })
    (n := s.calendar.nBuckets * 2)
    (P := s.calendar.nBuckets * 2 < (s.calendar.qSize + 1) % 2 ^ 32 ∧ s.calendar.nBuckets < 32768)
    { hholds with } ⟨h.searches.lastBucket_eq, h.searches.bucketTop_eq, hle⟩ (fun x hx => hfit x (hmem x hx))
    (hsize.trans hlen.symm) fun _ => Nat.mul_pos h.holds.nBuckets_pos Nat.two_pos
  refine served_of rfl rfl rfl (hnone.trans ?_) fun c' hc' => ?_
  · rw [Both.WidthFits, hsize]
  · have hcarries := hsome c' hc'
    refine ⟨hcarries.holds, hcarries.searches, hcarries.qSize_eq, ?_⟩
    rw [hcarries.lastPrio_eq]
    exact h.last_eq

theorem Both.Sound.qSize_ne_zero (h : s.Sound) (hne : s.list ≠ []) : s.calendar.qSize ≠ 0 := by
  rw [h.qSize_eq]
  exact List.length_pos_iff.mpr hne |>.ne'

theorem Both.Sound.peekNext (h : s.Sound) (hen : s.Enabled .peekNext) (hclear : s.Clear .peekNext) :
    Served s .peekNext := by
  obtain ⟨next, events, hlist⟩ := List.exists_cons_of_ne_nil hen
  have hsearch : s.calendar.peekNext = some next := by
    rw [CalendarScheduler.peekNext, if_neg (h.qSize_ne_zero hen)]
    rcases searchAll_spec (hlist ▸ h.holds) (hlist ▸ h.searches) (hlist ▸ hclear) with hsearch | hsearch
    · rw [hsearch]
    · rw [hsearch]
  refine served_of (a := some next) (q := some s.calendar) (l := s.list) ?_ ?_ rfl ?_ fun c' hc' => ?_
  · rw [CalendarScheduler.exec, hsearch]
    rfl
  · rw [ListScheduler.exec, ListScheduler.peekNext, hlist]
    rfl
  · exact iff_of_false (Option.some_ne_none _) (not_not.mpr trivial)
  · cases hc'
    exact ⟨h.holds, h.searches, h.qSize_eq, h.last_eq⟩

theorem Both.Sound.removeNext (h : s.Sound) (hen : s.Enabled .removeNext) (hclear : s.Clear .removeNext) :
    Served s .removeNext := by
  obtain ⟨next, events, hlist⟩ := List.exists_cons_of_ne_nil hen
  have hfit : s.calendar.TopsFit (next :: events) := hlist ▸ hclear
  obtain ⟨c₁, hremove, hholds, hat, hshape, hprio⟩ := doRemoveNext_spec (hlist ▸ h.holds) (hlist ▸ h.searches) hfit
  have hsize : c₁.qSize - 1 = s.list.length - 1 := by rw [hshape.qSize_eq, h.qSize_eq]
  have hlen : s.list.length - 1 = events.length := by rw [hlist, List.length_cons, Nat.add_sub_cancel]
  have hfit' : c₁.TopsFit events := (hfit.mono fun ev hev => List.mem_cons_of_mem _ hev).of_sameShape hshape
  obtain ⟨hnone, hsome⟩ := resize_if (c := { c₁ with qSize := c₁.qSize - 1 }) (n := c₁.nBuckets / 2)
    (P := c₁.qSize - 1 < c₁.nBuckets / 2) { hholds with } { hat with } hfit' (hsize.trans hlen)
    fun hlt => Nat.zero_lt_of_lt hlt
  refine served_of (a := some next) (l := events) (t := next.key.ts)
    (q := { c₁ with qSize := c₁.qSize - 1 }.resizeDown) ?_ ?_ ?_ (hnone.trans ?_) fun c' hc' => ?_
  · rw [CalendarScheduler.exec, CalendarScheduler.removeNext, if_neg (h.qSize_ne_zero hen), hremove]
    change Option.map _ (Option.map _ _) = _
    rw [Option.map_map]
    rfl
  · rw [ListScheduler.exec, hlist]
    rfl
  · rw [if_pos rfl, hlist]
    rfl
  · rw [Both.WidthFits, hsize, hshape.nBuckets_eq, hlist]
    rfl
  · have hcarries := hsome c' hc'
    refine ⟨hcarries.holds, hcarries.searches, hcarries.qSize_eq, ?_⟩
    rw [hcarries.lastPrio_eq]
    exact hprio.symm

theorem Both.Sound.remove (h : s.Sound) (hen : s.Enabled (.remove ev)) (hclear : s.Clear (.remove ev)) :
    Served s (.remove ev) := by
  obtain ⟨hfit, hbucket⟩ := hclear
  have hany : ∀ {l : List Event}, ev ∈ l → l.any (fun x => x.key.uid = ev.key.uid) = true :=
    fun hmem => List.any_eq_true.mpr ⟨ev, hmem, decide_eq_true rfl⟩
  have hin : ev ∈ s.calendar.bucket (s.calendar.hash ev.key.ts) := by
    rw [h.holds.bucket_eq (h.holds.hash_lt _)]
    exact List.mem_filter.mpr ⟨hen, decide_eq_true rfl⟩
  have hsub : ∀ x ∈ s.list.eraseP (fun x => x.key.uid = ev.key.uid), x ∈ s.list :=
    fun x hx => List.eraseP_sublist.subset hx
  have hlen : (s.list.eraseP fun x => x.key.uid = ev.key.uid).length = s.list.length - 1 :=
    List.length_eraseP_of_mem hen (decide_eq_true rfl)
  have hsize : s.calendar.qSize - 1 = s.list.length - 1 := by rw [h.qSize_eq]
  have hholds : { s.calendar with
      buckets := s.calendar.buckets.modify (s.calendar.hash ev.key.ts) (List.eraseP fun x => x.key.uid = ev.key.uid)
      qSize := s.calendar.qSize - 1 : CalendarScheduler }.Holds (s.list.eraseP fun x => x.key.uid = ev.key.uid) := by
    refine ⟨?_, h.holds.nBuckets_pos, h.holds.width_pos, h.holds.sorted.sublist List.eraseP_sublist⟩
    change s.calendar.buckets.modify _ _ = inBuckets s.calendar.nBuckets (fun ev => s.calendar.hash ev.key.ts) _
    rw [h.holds.buckets_eq]
    refine modify_inBuckets (filter_eraseP_of_pos fun x hx => ?_).symm fun j hj => ?_
    · exact decide_eq_true (hbucket x hx)
    · refine (filter_eraseP_of_neg fun x hx => ?_).symm
      exact decide_eq_false fun heq => hj (heq.symm.trans (hbucket x hx))
  obtain ⟨hnone, hsome⟩ := resize_if (n := s.calendar.nBuckets / 2)
    (P := s.calendar.qSize - 1 < s.calendar.nBuckets / 2) hholds
    ⟨h.searches.lastBucket_eq, h.searches.bucketTop_eq, fun x hx => h.searches.le x (hsub x hx)⟩
    (fun x hx => hfit x (hsub x hx)) (hsize.trans hlen.symm) fun hlt => Nat.zero_lt_of_lt hlt
  refine served_of (a := none) (l := s.list.eraseP fun x => x.key.uid = ev.key.uid) ?_ ?_ rfl (hnone.trans ?_)
    fun c' hc' => ?_
  · rw [CalendarScheduler.exec, CalendarScheduler.remove, if_neg (h.qSize_ne_zero (List.ne_nil_of_mem hen)),
      if_pos (hany hin)]
    rfl
  · rw [ListScheduler.exec, ListScheduler.remove, if_pos (hany hen)]
    rfl
  · rw [Both.WidthFits, hsize]
  · have hcarries := hsome c' hc'
    refine ⟨hcarries.holds, hcarries.searches, hcarries.qSize_eq, ?_⟩
    rw [hcarries.lastPrio_eq]
    exact h.last_eq

/-- One request. -/
theorem Both.Sound.served (h : s.Sound) (hen : s.Enabled op) (hclear : s.Clear op) : Served s op := by
  cases op with
  | insert ev => exact h.insert hen hclear
  | peekNext => exact h.peekNext hen hclear
  | removeNext => exact h.removeNext hen hclear
  | remove ev => exact h.remove hen hclear

/-- In a run of clear requests the calendar agrees with the sorted list, in all states and in all answers, and the
next request is served exactly if it does not make an array of no width. -/
theorem agree {tr : List (Both × Op)} (h : machine.Run Both.new tr s) (hclear : Machine.Meets Both.Clear tr) :
    Machine.EveryState Both.Agree tr s ∧ Machine.EveryStep SameAnswer tr s ∧
      ∀ op, s.Enabled op → s.Clear op → (machine.exec s op ≠ none ↔ s.WidthFits op) := by
  suffices hall : Machine.EveryState Both.Sound tr s ∧ Machine.EveryStep SameAnswer tr s by
    refine ⟨⟨fun x hx => (hall.1.1 x hx).toAgree, hall.1.2.toAgree⟩, hall.2, fun op hen hop => ?_⟩
    rw [← not_iff_not, not_not]
    exact (hall.1.2.served hen hop).stops_iff
  induction h with
  | nil => exact ⟨⟨fun x hx => absurd hx List.not_mem_nil, Both.sound_new⟩, trivial⟩
  | @snoc tr s s' op hrun hstep ih =>
    obtain ⟨htr, hop⟩ := Machine.meets_snoc.mp hclear
    obtain ⟨⟨hstates, hs⟩, hsteps⟩ := ih htr
    obtain ⟨hsound, hanswer⟩ := (hs.served hstep.1 hop).sound s' hstep.2
    refine ⟨⟨fun x hx => ?_, hsound⟩, Machine.everyStep_snoc.mpr ⟨hsteps, hanswer⟩⟩
    rcases List.mem_append.mp hx with hx | hx
    · exact hstates x hx
    · rw [List.mem_singleton.mp hx]
      exact hs

/-- An event of the given time and uid. -/
def eventAt (ts uid : ℕ) : Event := ⟨uid, ⟨ts, uid, 0⟩⟩

/-- Five events, each `2 ^ 32` after the one before, in the order of their times. -/
def farApart : List Op := (List.range 5).map fun k => .insert (eventAt (k * 2 ^ 32) k)

/-- The fifth of the events makes an array of width zero. -/
theorem width_lost : ∃ tr s op, machine.Run Both.new tr s ∧ Machine.Meets Both.Clear tr ∧ s.Enabled op ∧ s.Clear op ∧
    machine.exec s op = none := by
  obtain ⟨out, -, hrun, hmeets, hlast⟩ := Machine.exists_replay (M := machine) Both.new (farApart.take 4)
    (P := fun out => Machine.Meets Both.Clear out.1 ∧ out.2.Enabled (.insert (eventAt (4 * 2 ^ 32) 4)) ∧
      out.2.Clear (.insert (eventAt (4 * 2 ^ 32) 4)) ∧ out.2.exec (.insert (eventAt (4 * 2 ^ 32) 4)) = none)
    (by decide +kernel)
  exact ⟨out.1, out.2, _, hrun, hmeets, hlast⟩

/-- `agree` for a run in which the array grows and shrinks. -/
theorem agree_seven_events : ∃ tr s, machine.Run Both.new tr s ∧ Machine.EveryState Both.Agree tr s ∧
    Machine.EveryStep SameAnswer tr s ∧ s.calendar.nBuckets = 1 := by
  obtain ⟨out, -, hrun, hmeets, hsize⟩ := Machine.exists_replay (M := machine) Both.new
    ([50, 30, 100, 30, 10, 1000, 70].zipIdx.map (fun x => .insert (eventAt x.1 x.2)) ++
      [.remove (eventAt 30 1), .peekNext, .removeNext, .removeNext, .removeNext, .removeNext, .removeNext, .removeNext])
    (P := fun out => Machine.Meets Both.Clear out.1 ∧ out.2.calendar.nBuckets = 1) (by decide +kernel)
  obtain ⟨hstates, hsteps, -⟩ := agree hrun hmeets
  exact ⟨out.1, out.2, hrun, hstates, hsteps, hsize⟩

end CalendarScheduler

end Ns3
