import Ns3.Core.Scheduler
import Ns3.Lib.Machine

/-!
# The calendar scheduler

`CalendarScheduler` (`core/model/calendar-scheduler.cc`): days of `m_width` time units go round an array of
buckets, each a sorted list of the events of its days, and the next event is looked for from the bucket of the last
one on. When the queue has grown or shrunk, the array is made anew, with a width that is computed from the first
events of the queue.
-/

namespace Ns3

open Scheduler

/-- `CalendarScheduler`. -/
@[ext]
structure CalendarScheduler where
  buckets : List (List Event)
  nBuckets : ℕ
  width : ℕ
  lastBucket : ℕ
  bucketTop : ℕ
  lastPrio : ℕ
  qSize : ℕ

namespace CalendarScheduler

/-- A sum of `uint64_t`. -/
def add64 (a b : ℕ) : ℕ := (a + b) % 2 ^ 64

/-- A difference of `uint64_t`. -/
def sub64 (a b : ℕ) : ℕ := if b ≤ a then a - b else a + 2 ^ 64 - b

variable (c : CalendarScheduler)

/-- The bucket of a time stamp. -/
def hash (ts : ℕ) : ℕ := ts / c.width % c.nBuckets

/-- The top of the bucket of a time: `(ts / m_width + 1) * m_width`. -/
def topOf (ts : ℕ) : ℕ := (ts / c.width + 1) * c.width % 2 ^ 64

/-- `Init`: it divides by the width. -/
def init (nBuckets width startPrio : ℕ) : Option CalendarScheduler :=
  if width = 0 ∨ nBuckets = 0 then none
  else
    let c := { c with
      buckets := List.replicate nBuckets []
      nBuckets := nBuckets
      width := width
      lastPrio := startPrio }
    some { c with lastBucket := c.hash startPrio, bucketTop := c.topOf startPrio }

/-- `CalendarScheduler ()`. -/
def new : CalendarScheduler where
  buckets := [[], []]
  nBuckets := 2
  width := 1
  lastBucket := 0
  bucketTop := 1
  lastPrio := 0
  qSize := 0

/-- `m_buckets[i]`. -/
def bucket (i : ℕ) : List Event := c.buckets.getD i []

/-- The event is put into its bucket, in order. -/
def doInsert (ev : Event) : CalendarScheduler :=
  { c with buckets := c.buckets.modify (c.hash ev.key.ts) (ListScheduler.insert ev) }

/-- `m_buckets[i].pop_front ()`. -/
def popFront (i : ℕ) : CalendarScheduler := { c with buckets := c.buckets.modify i List.tail }

/-- The `minEvent` that the search starts from: `{ 0, { ~0, ~0}}`. -/
def noEvent : Event := ⟨0, ⟨2 ^ 64 - 1, 2 ^ 32 - 1, 0⟩⟩

/-- The loop of `PeekNext` and of `DoRemoveNext`, for some rounds: the bucket, its top and its first event where
that is below the top, or else the least of the first events. -/
def search (c : CalendarScheduler) : ℕ → ℕ → ℕ → Event → ℕ × ℕ × Event ⊕ Event
  | 0, _, _, minEvent => .inr minEvent
  | rounds + 1, i, bucketTop, minEvent =>
    match c.bucket i with
    | [] => c.search rounds ((i + 1) % c.nBuckets) (add64 bucketTop c.width) minEvent
    | next :: _ =>
      if next.key.ts < bucketTop then .inl (i, bucketTop, next)
      else
        c.search rounds ((i + 1) % c.nBuckets) (add64 bucketTop c.width)
          (if next.key < minEvent.key then next else minEvent)

/-- The search goes round the buckets once. -/
def searchAll : ℕ × ℕ × Event ⊕ Event :=
  c.search c.nBuckets c.lastBucket c.bucketTop noEvent

/-- The next event, which stays. -/
def peekNext : Option Event :=
  if c.qSize = 0 then none
  else
    match c.searchAll with
    | .inl (_, _, next) => some next
    | .inr minEvent => some minEvent

/-- The next event is taken out of its bucket. -/
def doRemoveNext : Event × CalendarScheduler :=
  match c.searchAll with
  | .inl (i, bucketTop, next) =>
    (next, { c with lastBucket := i, lastPrio := next.key.ts, bucketTop := bucketTop }.popFront i)
  | .inr minEvent =>
    let i := c.hash minEvent.key.ts
    (minEvent, { c with
      lastPrio := minEvent.key.ts
      lastBucket := i
      bucketTop := c.topOf minEvent.key.ts }.popFront i)

/-- `DoRemoveNext`, some times. -/
def gather : ℕ → CalendarScheduler → List Event × CalendarScheduler
  | 0, c => ([], c)
  | nSamples + 1, c =>
    let (ev, c) := c.doRemoveNext
    let (samples, c) := gather nSamples c
    (ev :: samples, c)

/-- How many events `CalculateNewWidth` looks at. -/
def nSamples (qSize : ℕ) : ℕ := min (if qSize ≤ 5 then qSize else 5 + qSize / 10) 25

/-- The times between the samples. -/
def gaps : List Event → List ℕ
  | cur :: next :: samples => sub64 next.key.ts cur.key.ts :: gaps (next :: samples)
  | _ => []

/-- The sum of a loop. -/
def sum64 (l : List ℕ) : ℕ := l.foldl add64 0

variable (samples : List Event)

/-- Twice the average of the times between the samples. -/
def twiceAvg : ℕ := sum64 (gaps samples) / (samples.length - 1) * 2 % 2 ^ 64

/-- The sum of the times that are at most twice the average. -/
def totalSeparation : ℕ := sum64 ((gaps samples).filter fun diff => diff ≤ twiceAvg samples)

/-- What `CalculateNewWidth` returns for its samples: the `uint64_t` is returned as a `uint32_t`. -/
def widthOf : ℕ := max (totalSeparation samples * 3 % 2 ^ 64) 1 % 2 ^ 32

/-- `CalculateNewWidth`: it takes the samples out of the queue and puts them back. -/
def calculateNewWidth : ℕ × CalendarScheduler :=
  if c.qSize < 2 then (1, c)
  else
    let (samples, c') := gather (nSamples c.qSize) c
    (widthOf samples, { samples.foldl doInsert c' with
      lastBucket := c.lastBucket
      bucketTop := c.bucketTop
      lastPrio := c.lastPrio })

/-- The events are put into new buckets. -/
def doResize (newSize newWidth : ℕ) : Option CalendarScheduler :=
  (c.init newSize newWidth c.lastPrio).map fun c' => c.buckets.flatten.foldl doInsert c'

/-- The events are put into `newSize` buckets of a new width. -/
def resize (newSize : ℕ) : Option CalendarScheduler :=
  let (newWidth, c) := c.calculateNewWidth
  c.doResize newSize newWidth

/-- There are twice as many buckets if there are too many events. -/
def resizeUp : Option CalendarScheduler :=
  if c.nBuckets * 2 < c.qSize ∧ c.nBuckets < 32768 then c.resize (c.nBuckets * 2) else some c

/-- There are half as many buckets if there are too few events. -/
def resizeDown : Option CalendarScheduler :=
  if c.qSize < c.nBuckets / 2 then c.resize (c.nBuckets / 2) else some c

/-- An event is put in, and the calendar grows if need be. -/
def insert (ev : Event) (c : CalendarScheduler) : Option CalendarScheduler :=
  { c.doInsert ev with qSize := (c.qSize + 1) % 2 ^ 32 }.resizeUp

/-- The next event is taken out, and the calendar shrinks if need be. -/
def removeNext : Option (Event × CalendarScheduler) :=
  if c.qSize = 0 then none
  else
    let (ev, c) := c.doRemoveNext
    { c with qSize := c.qSize - 1 }.resizeDown.map fun c => (ev, c)

/-- The event with the identifier is taken out of the bucket. -/
def remove (ev : Event) (c : CalendarScheduler) : Option CalendarScheduler :=
  if c.qSize = 0 then none
  else
    let i := c.hash ev.key.ts
    if (c.bucket i).any (fun x => x.key.uid = ev.key.uid) then
      { c with
        buckets := c.buckets.modify i (List.eraseP fun x => x.key.uid = ev.key.uid)
        qSize := c.qSize - 1 }.resizeDown
    else none

/-- A request, with the event that it returns. -/
def exec : Op → Option (Option Event × CalendarScheduler)
  | .insert ev => (insert ev c).map fun c => (none, c)
  | .peekNext => (peekNext c).map fun next => (some next, c)
  | .removeNext => (removeNext c).map fun (next, c) => (some next, c)
  | .remove ev => (remove ev c).map fun c => (none, c)

/-- The calendar, and the sorted list that it is compared with. -/
structure Both where
  calendar : CalendarScheduler
  list : List Event
  /-- The time of the last event that `RemoveNext` returned. -/
  last : ℕ

/-- Both are empty. -/
def Both.new : Both := ⟨CalendarScheduler.new, [], 0⟩

/-- A request can be made: events are not inserted before the last one that was removed, and are there to be
removed. -/
def Both.Enabled (s : Both) : Op → Prop
  | .insert ev => s.last ≤ ev.key.ts
  | .peekNext | .removeNext => s.list ≠ []
  | .remove ev => ev ∈ s.list

instance (s : Both) : ∀ op, Decidable (s.Enabled op)
  | .insert _ => inferInstanceAs (Decidable (_ ≤ _))
  | .peekNext | .removeNext => inferInstanceAs (Decidable (_ ≠ _))
  | .remove _ => inferInstanceAs (Decidable (_ ∈ _))

/-- Both serve a request. -/
def Both.exec (s : Both) (op : Op) : Option Both := do
  let (_, calendar) ← s.calendar.exec op
  let (_, list) ← ListScheduler.exec s.list op
  some ⟨calendar, list, if op = .removeNext then (s.list.head?.map fun next => next.key.ts).getD 0 else s.last⟩

/-- Both schedulers with a program. -/
def machine : Lib.Machine Both Op where
  enabled := Both.Enabled
  exec := Both.exec

instance (s : Both) (op : Op) : Decidable (machine.enabled s op) := inferInstanceAs (Decidable (s.Enabled op))

end CalendarScheduler

end Ns3
