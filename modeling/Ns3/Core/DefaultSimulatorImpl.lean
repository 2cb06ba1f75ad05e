import Ns3.Core.Scheduler
import Ns3.Lib.Machine

/-!
# The simulator

`DefaultSimulatorImpl` (`core/model/default-simulator-impl.cc`): the event loop, with a sorted list as the
scheduler. The functions that events run are whatever calls the program makes between one `ProcessOneEvent` and
the next, so the model is a machine whose events are calls in any order.

`debug` says how the program was built: with `NS_ASSERT`, a failed assertion stops it; without, it goes on.
-/

namespace Ns3

open Lib Scheduler

/-- An event as its caller holds it. -/
structure EventId where
  eventImpl : Option ℕ
  ts : ℕ
  context : ℕ
  uid : ℕ
  deriving DecidableEq

/-- `EventId ()`. -/
def EventId.null : EventId := ⟨none, 0, 0, 0⟩

/-- The id of an event in the queue. -/
def Scheduler.Event.id (ev : Event) : EventId := ⟨some ev.impl, ev.key.ts, ev.key.context, ev.key.uid⟩

/-- The `DefaultSimulatorImpl`. -/
structure DefaultSimulatorImpl where
  destroyEvents : List EventId
  stop : Bool
  events : List Event
  uid : ℕ
  currentUid : ℕ
  currentTs : ℕ
  currentContext : ℕ
  unscheduledEvents : ℤ

/-- The simulator with its `EventImpl`s, and what the program sees of it. An `EventImpl` lives as long as an id
or the queue refers to it; they are numbered as they are made. -/
structure Simulation extends DefaultSimulatorImpl where
  /-- The number of `EventImpl`s made. -/
  made : ℕ
  /-- The `EventImpl`s with `m_cancel` set. -/
  cancelled : List ℕ
  /-- The ids that the program has been given. -/
  handed : List EventId
  /-- The `EventImpl`s that `ProcessOneEvent` has notified, each with the time of the clock. -/
  invoked : List (ℕ × ℕ)
  /-- The `EventImpl`s that `Destroy` has notified. -/
  destroyed : List ℕ

namespace Simulation

/-- `DefaultSimulatorImpl ()`. -/
def new : Simulation where
  destroyEvents := []
  stop := false
  events := []
  uid := 4
  currentUid := 0
  currentTs := 0
  currentContext := 0xffffffff
  unscheduledEvents := 0
  made := 0
  cancelled := []
  handed := []
  invoked := []
  destroyed := []

/-- A number as an `int`. -/
def toInt (n : ℤ) : ℤ := (n + 2 ^ 31) % 2 ^ 32 - 2 ^ 31

/-- A number of `uint64_t` as one of `int64_t`. -/
def toInt64 (ts : ℕ) : ℤ := if ts < 2 ^ 63 then ts else ts - 2 ^ 64

variable (s : Simulation)

/-- The timestamp `delay` from now, as the sum of 64 bits that it is. -/
def absolute (delay : ℤ) : ℕ := ((s.currentTs + delay) % 2 ^ 64).toNat

/-- The event of a new `EventImpl`, with the next uid. -/
def nextEvent (ts context : ℕ) : Event := ⟨s.made, ⟨ts, s.uid, context⟩⟩

/-- What `Schedule`, `ScheduleWithContext` and `ScheduleNow` do with an event. -/
def insertEvent (ev : Event) : Simulation :=
  { s with
    uid := (s.uid + 1) % 2 ^ 32
    unscheduledEvents := toInt (s.unscheduledEvents + 1)
    events := ListScheduler.insert ev s.events
    made := s.made + 1 }

variable (debug : Bool)

/-- An event after a delay, in the same context. -/
def schedule (s : Simulation) (delay : ℤ) : Option Simulation :=
  let tAbsolute := s.absolute delay
  if debug ∧ ¬ (0 ≤ toInt64 tAbsolute ∧ toInt64 s.currentTs ≤ toInt64 tAbsolute) then none
  else
    let ev := s.nextEvent tAbsolute s.currentContext
    some { s.insertEvent ev with handed := s.handed ++ [ev.id] }

/-- An event after a delay, in the context. No identifier is handed out. -/
def scheduleWithContext (context : ℕ) (delay : ℤ) : Simulation :=
  s.insertEvent (s.nextEvent (s.absolute delay) context)

/-- An event at the current time. -/
def scheduleNow : Simulation :=
  let ev := s.nextEvent s.currentTs s.currentContext
  { s.insertEvent ev with handed := s.handed ++ [ev.id] }

/-- An event for `Destroy`. -/
def scheduleDestroy : Simulation :=
  let id : EventId := ⟨some s.made, s.currentTs, 0xffffffff, 2⟩
  { s with
    destroyEvents := s.destroyEvents ++ [id]
    uid := (s.uid + 1) % 2 ^ 32
    made := s.made + 1
    handed := s.handed ++ [id] }

variable (ev : EventId)

/-- `IsCancelled`, of an id's `EventImpl`, or there is none. -/
def isCancelled : Bool :=
  match ev.eventImpl with
  | none => true
  | some impl => impl ∈ s.cancelled

/-- The event has run, is cancelled, or was removed. -/
def isExpired : Bool :=
  if ev.uid = 2 then
    if s.isCancelled ev then true
    else !s.destroyEvents.contains ev
  else
    s.isCancelled ev || decide (ev.ts < s.currentTs ∨ ev.ts = s.currentTs ∧ ev.uid ≤ s.currentUid)

/-- `EventImpl::Cancel`. -/
def cancelImpl : Simulation :=
  match ev.eventImpl with
  | none => s
  | some impl => { s with cancelled := impl :: s.cancelled }

/-- A pending event will not run. -/
def cancel : Simulation := if s.isExpired ev then s else s.cancelImpl ev

/-- A pending event is taken out of the list. -/
def remove (s : Simulation) (id : EventId) : Option Simulation :=
  if id.uid = 2 then some { s with destroyEvents := s.destroyEvents.erase id }
  else if s.isExpired id then some s
  else do
    let events ← ListScheduler.remove ⟨id.eventImpl.getD 0, ⟨id.ts, id.uid, id.context⟩⟩ s.events
    some { s.cancelImpl id with events := events, unscheduledEvents := toInt (s.unscheduledEvents - 1) }

/-- `ProcessOneEvent`, up to what the notified function does. -/
def processOneEvent (s : Simulation) : Option Simulation := do
  let (next, events) ← ListScheduler.removeNext s.events
  if debug ∧ ¬ s.currentTs ≤ next.key.ts then none
  else
    some { s with
      events := events
      unscheduledEvents := toInt (s.unscheduledEvents - 1)
      currentTs := next.key.ts
      currentContext := next.key.context
      currentUid := next.key.uid
      invoked := if next.impl ∈ s.cancelled then s.invoked else s.invoked ++ [(next.impl, next.key.ts)] }

/-- One round of the loop of `Destroy`. -/
def destroyNext : Option Simulation :=
  match s.destroyEvents with
  | [] => none
  | ev :: destroyEvents =>
    let s := { s with destroyEvents := destroyEvents }
    if s.isCancelled ev then some s
    else some { s with destroyed := s.destroyed ++ ev.eventImpl.toList }

/-- The calls of a program, and the rounds of the loops of `Run` and `Destroy`. -/
inductive Call where
  | schedule (delay : ℤ)
  | scheduleWithContext (context : ℕ) (delay : ℤ)
  | scheduleNow
  | scheduleDestroy
  | remove (id : EventId)
  | cancel (id : EventId)
  | stop
  /-- A round of `Run`, or `RunOneEvent`. -/
  | processOneEvent
  /-- A round of `Destroy`. -/
  | destroyNext

/-- What a program can do: delays are numbers of `int64_t`, ids are those it was given, or null, and a loop goes
on while there are events. -/
def Enabled : Call → Prop
  | .schedule delay => -2 ^ 63 ≤ delay ∧ delay < 2 ^ 63
  | .scheduleWithContext _ delay => -2 ^ 63 ≤ delay ∧ delay < 2 ^ 63
  | .remove id => id ∈ EventId.null :: s.handed
  | .cancel id => id ∈ EventId.null :: s.handed
  | .processOneEvent => s.events ≠ []
  | .destroyNext => s.destroyEvents ≠ []
  | _ => True

instance (s : Simulation) : ∀ call, Decidable (s.Enabled call)
  | .schedule _ | .scheduleWithContext _ _ => inferInstanceAs (Decidable (_ ∧ _))
  | .remove id | .cancel id => inferInstanceAs (Decidable (id ∈ EventId.null :: s.handed))
  | .processOneEvent => inferInstanceAs (Decidable (_ ≠ _))
  | .destroyNext => inferInstanceAs (Decidable (_ ≠ _))
  | .scheduleNow | .scheduleDestroy | .stop => .isTrue trivial

/-- What a call does. -/
def exec (s : Simulation) : Call → Option Simulation
  | .schedule delay => s.schedule debug delay
  | .scheduleWithContext context delay => some (s.scheduleWithContext context delay)
  | .scheduleNow => some s.scheduleNow
  | .scheduleDestroy => some s.scheduleDestroy
  | .remove id => s.remove id
  | .cancel id => some (s.cancel id)
  | .stop => some { s with stop := true }
  | .processOneEvent => s.processOneEvent debug
  | .destroyNext => s.destroyNext

/-- The simulator with a program. -/
def machine : Machine Simulation Call where
  enabled := Enabled
  exec := exec debug

instance (debug : Bool) (s : Simulation) (call : Call) : Decidable ((machine debug).enabled s call) :=
  inferInstanceAs (Decidable (s.Enabled call))

end Simulation

end Ns3
