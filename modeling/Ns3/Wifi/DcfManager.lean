import Ns3.Lib.Counters
import Ns3.Lib.Machine
import Mathlib.Algebra.Group.Int.Defs

/-!
# The DCF manager

`DcfState` and `DcfManager` (`wifi/model/dcf-manager.cc`): when a station may use the medium. The backoff of a state is
not counted down; `UpdateBackoff` finds out, whenever something happens, how many slots have passed since the state was
last looked at, from the times at which the medium was last busy in each way.

Times are in nanoseconds. What a call leaves to be done when it calls a state back is a list of tasks, so that the
user of the state may call the manager again before it goes on.
-/

namespace Ns3

/-- Microseconds, in nanoseconds. -/
def microSeconds (us : UInt32) : ℤ := us.toNat * 1000

/-- `DcfState`, without the contention window, which the manager does not read. -/
structure DcfState where
  aifsn : UInt32
  backoffSlots : UInt32
  backoffStart : ℤ
  accessRequested : Bool

namespace DcfState

/-- `DcfState ()`, with its `m_aifsn`. -/
def new (aifsn : UInt32) : DcfState := ⟨aifsn, 0, 0, false⟩

/-- Slots have gone by. -/
def updateBackoffSlotsNow (s : DcfState) (nSlots : UInt32) (backoffUpdateBound : ℤ) : DcfState :=
  { s with backoffSlots := s.backoffSlots - nSlots, backoffStart := backoffUpdateBound }

/-- `StartBackoffNow`; nothing where its assertion fails. -/
def startBackoffNow (s : DcfState) (nSlots : UInt32) (now : ℤ) : Option DcfState :=
  if s.backoffSlots = 0 then some { s with backoffSlots := nSlots, backoffStart := now } else none

end DcfState

/-- What the medium did last, and who waits for it. -/
structure DcfManager where
  states : List DcfState
  lastAckTimeoutEnd : ℤ
  lastCtsTimeoutEnd : ℤ
  lastNavStart : ℤ
  lastNavDuration : ℤ
  lastRxStart : ℤ
  lastRxDuration : ℤ
  lastRxReceivedOk : Bool
  lastRxEnd : ℤ
  lastTxStart : ℤ
  lastTxDuration : ℤ
  lastBusyStart : ℤ
  lastBusyDuration : ℤ
  lastSwitchingStart : ℤ
  lastSwitchingDuration : ℤ
  rxing : Bool
  eifsNoDifs : ℕ
  /-- `m_accessTimeout`: the time it is due, while it runs. -/
  accessTimeout : Option ℤ
  slotTimeUs : UInt32
  sifs : ℕ

namespace DcfManager

/-- `DcfManager ()`, with its states and with what is set before it is used. -/
def new (states : List DcfState) (slotTimeUs : UInt32) (sifs eifsNoDifs : ℕ) : DcfManager :=
  ⟨states, 0, 0, 0, 0, 0, 0, true, 0, 0, 0, 0, 0, 0, 0, false, eifsNoDifs, none, slotTimeUs, sifs⟩

variable (m : DcfManager)

variable (now : ℤ)

/-- The medium is in use. -/
def IsBusy : Prop :=
  m.rxing = true ∨ now < m.lastTxStart + m.lastTxDuration ∨ now < m.lastNavStart + m.lastNavDuration
deriving Decidable

/-- When the medium has been idle for SIFS, whatever used it last. -/
def getAccessGrantStart : ℤ :=
  let rxAccessStart :=
    if m.rxing = false then m.lastRxEnd + m.sifs + if m.lastRxReceivedOk = false then (m.eifsNoDifs : ℤ) else 0
    else m.lastRxStart + m.lastRxDuration + m.sifs
  let busyAccessStart := m.lastBusyStart + m.lastBusyDuration + m.sifs
  let txAccessStart := m.lastTxStart + m.lastTxDuration + m.sifs
  let navAccessStart := m.lastNavStart + m.lastNavDuration + m.sifs
  let ackTimeoutAccessStart := m.lastAckTimeoutEnd + m.sifs
  let ctsTimeoutAccessStart := m.lastCtsTimeoutEnd + m.sifs
  let switchingAccessStart := m.lastSwitchingStart + m.lastSwitchingDuration + m.sifs
  max (max (max rxAccessStart busyAccessStart) (max txAccessStart navAccessStart))
    (max (max ackTimeoutAccessStart ctsTimeoutAccessStart) switchingAccessStart)

/-- When a backoff may count slots. -/
def getBackoffStartFor (s : DcfState) : ℤ :=
  max s.backoffStart (m.getAccessGrantStart + microSeconds (s.aifsn * m.slotTimeUs))

/-- When a backoff is over. -/
def getBackoffEndFor (s : DcfState) : ℤ :=
  m.getBackoffStartFor s + microSeconds (s.backoffSlots * m.slotTimeUs)

/-- A round of the loop of `UpdateBackoff`; nothing where it divides by zero. -/
def updateBackoffFor (s : DcfState) : Option DcfState :=
  let backoffStart := m.getBackoffStartFor s
  if backoffStart ≤ now then
    if m.slotTimeUs = 0 then none
    else
      let nus := UInt32.ofNat ((now - backoffStart) / 1000).toNat
      let nIntSlots := nus / m.slotTimeUs
      let n := min nIntSlots s.backoffSlots
      some (s.updateBackoffSlotsNow n (backoffStart + microSeconds (n * m.slotTimeUs)))
  else some s

/-- The slots that went by are counted. -/
def updateBackoff : Option DcfManager :=
  (m.states.mapM (m.updateBackoffFor now)).map fun states => { m with states := states }

/-- The state needs access, and its backoff has expired. -/
def Ready (s : DcfState) : Prop :=
  s.accessRequested = true ∧ m.getBackoffEndFor s ≤ now
deriving Decidable

/-- The inner loop of `DoGrantAccess`: the places of `internalCollisionStates`. -/
def internalCollisions (m : DcfManager) (now : ℤ) : ℕ → List DcfState → List ℕ
  | _, [] => []
  | j, s :: rest =>
    if m.Ready now s then j :: internalCollisions m now (j + 1) rest else internalCollisions m now (j + 1) rest

/-- The outer loop of `DoGrantAccess`: the place of the state that is granted access, and those of the states that it
collides with. -/
def granted (m : DcfManager) (now : ℤ) : ℕ → List DcfState → Option (ℕ × List ℕ)
  | _, [] => none
  | i, s :: rest =>
    if m.Ready now s then some (i, internalCollisions m now (i + 1) rest) else granted m now (i + 1) rest

/-- `DoRestartAccessTimeoutIfNeeded`: the backoff ends that are to come. -/
def backoffEnds : List ℤ :=
  ((m.states.filter fun s => s.accessRequested).map m.getBackoffEndFor).filter fun tmp => now < tmp

/-- The next access is at the earliest end of a backoff. -/
def doRestartAccessTimeoutIfNeeded : DcfManager :=
  match (m.backoffEnds now).min? with
  | none => m
  | some expectedBackoffEnd =>
    match m.accessTimeout with
    | none => { m with accessTimeout := some expectedBackoffEnd }
    | some due => { m with accessTimeout := some (min due expectedBackoffEnd) }

/-- What a state is told. -/
inductive Notice where
  | accessGranted (i : ℕ)
  | internalCollision (i : ℕ)
  | collision (i : ℕ)
  | channelSwitching (i : ℕ)

/-- What a call has still to do. -/
inductive Task where
  /-- The virtual method of a state is called. -/
  | tell (notice : Notice)
  /-- `DoGrantAccess`. -/
  | grantAccess
  /-- `DoRestartAccessTimeoutIfNeeded`. -/
  | restartAccessTimeout
  /-- `NotifySwitchingStartNow` resets the backoff of a state. -/
  | resetBackoff (i : ℕ)
  /-- `NotifySwitchingStartNow` sets the time of the switching. -/
  | switchingStart (duration : ℕ)

/-- A call, of the manager or of the state at place `i`. -/
inductive Call where
  | requestAccess (i : ℕ)
  | accessTimeout
  | startBackoffNow (i : ℕ) (nSlots : UInt32)
  | notifyRxStartNow (duration : ℕ)
  | notifyRxEndOkNow
  | notifyRxEndErrorNow
  | notifyTxStartNow (duration : ℕ)
  | notifyMaybeCcaBusyStartNow (duration : ℕ)
  | notifySwitchingStartNow (duration : ℕ)
  | notifyNavResetNow (duration : ℕ)
  | notifyNavStartNow (duration : ℕ)
  | notifyAckTimeoutStartNow (duration : ℕ)
  | notifyAckTimeoutResetNow
  | notifyCtsTimeoutStartNow (duration : ℕ)
  | notifyCtsTimeoutResetNow
  deriving DecidableEq

/-- `RequestAccess`, up to the first thing that a state is told. -/
def requestAccess (i : ℕ) : Option (DcfManager × List Task) := do
  let m ← m.updateBackoff now
  let s ← m.states[i]?
  if s.accessRequested then none
  else
    let m' := { m with states := m.states.set i { s with accessRequested := true } }
    some (m', (if s.backoffSlots = 0 ∧ m.IsBusy now then [.tell (.collision i)] else []) ++
      [.grantAccess, .restartAccessTimeout])

/-- `NotifyRxEndOkNow` and `NotifyRxEndErrorNow`. -/
def notifyRxEnd (ok : Bool) : DcfManager :=
  { m with lastRxEnd := now, lastRxReceivedOk := ok, rxing := false }

/-- A reception that is cut short. -/
def stopRx : DcfManager :=
  if m.rxing then
    { m with lastRxEnd := now, lastRxDuration := now - m.lastRxStart, lastRxReceivedOk := true, rxing := false }
  else m

/-- A transmission starts, and stops what was received. -/
def notifyTxStartNow (duration : ℕ) : Option DcfManager :=
  if m.rxing ∧ ¬ now - m.lastRxStart ≤ m.sifs then none
  else do
    let m ← (m.stopRx now).updateBackoff now
    some { m with lastTxStart := now, lastTxDuration := duration }

/-- `NotifySwitchingStartNow`, up to the loop over the states. -/
def cutShort : DcfManager :=
  let m := m.stopRx now
  { m with
    lastNavDuration := if now < m.lastNavStart + m.lastNavDuration then now - m.lastNavStart else m.lastNavDuration
    lastBusyDuration := if now < m.lastBusyStart + m.lastBusyDuration then now - m.lastBusyStart else m.lastBusyDuration
    lastAckTimeoutEnd := if now < m.lastAckTimeoutEnd then now else m.lastAckTimeoutEnd
    lastCtsTimeoutEnd := if now < m.lastCtsTimeoutEnd then now else m.lastCtsTimeoutEnd
    accessTimeout := none }

/-- The channel is switched: all is cut short and told so. -/
def notifySwitchingStartNow (duration : ℕ) : Option (DcfManager × List Task) :=
  if m.lastTxStart + m.lastTxDuration ≤ now ∧ m.lastSwitchingStart + m.lastSwitchingDuration ≤ now then
    some (m.cutShort now, ((List.range m.states.length).flatMap fun i =>
      [.resetBackoff i, .tell (.channelSwitching i)]) ++ [.switchingStart duration])
  else none

/-- The NAV is set anew. -/
def notifyNavResetNow (duration : ℕ) : Option DcfManager := do
  let m ← m.updateBackoff now
  let m ← { m with lastNavStart := now, lastNavDuration := duration }.updateBackoff now
  some (m.doRestartAccessTimeoutIfNeeded now)

/-- The NAV is set, if it ends later than before. -/
def notifyNavStartNow (duration : ℕ) : Option DcfManager :=
  if m.lastNavStart < now then do
    let m ← m.updateBackoff now
    if m.lastNavStart + m.lastNavDuration < now + duration then
      some { m with lastNavStart := now, lastNavDuration := duration }
    else some m
  else none

/-- What a call does at once, and what it leaves to do. -/
def call : Call → Option (DcfManager × List Task)
  | .requestAccess i => m.requestAccess now i
  | .accessTimeout => do
    let m ← { m with accessTimeout := none }.updateBackoff now
    some (m, [.grantAccess, .restartAccessTimeout])
  | .startBackoffNow i nSlots => do
    let s ← m.states[i]?
    let s ← s.startBackoffNow nSlots now
    some ({ m with states := m.states.set i s }, [])
  | .notifyRxStartNow duration => do
    let m ← m.updateBackoff now
    some ({ m with lastRxStart := now, lastRxDuration := duration, rxing := true }, [])
  | .notifyRxEndOkNow => some (m.notifyRxEnd now true, [])
  | .notifyRxEndErrorNow => some (m.notifyRxEnd now false, [])
  | .notifyTxStartNow duration => (m.notifyTxStartNow now duration).map fun m => (m, [])
  | .notifyMaybeCcaBusyStartNow duration => do
    let m ← m.updateBackoff now
    some ({ m with lastBusyStart := now, lastBusyDuration := duration }, [])
  | .notifySwitchingStartNow duration => m.notifySwitchingStartNow now duration
  | .notifyNavResetNow duration => (m.notifyNavResetNow now duration).map fun m => (m, [])
  | .notifyNavStartNow duration => (m.notifyNavStartNow now duration).map fun m => (m, [])
  | .notifyAckTimeoutStartNow duration =>
    if m.lastAckTimeoutEnd < now then some ({ m with lastAckTimeoutEnd := now + duration }, []) else none
  | .notifyAckTimeoutResetNow => some ({ m with lastAckTimeoutEnd := now }.doRestartAccessTimeoutIfNeeded now, [])
  | .notifyCtsTimeoutStartNow duration => some ({ m with lastCtsTimeoutEnd := now + duration }, [])
  | .notifyCtsTimeoutResetNow => some ({ m with lastCtsTimeoutEnd := now }.doRestartAccessTimeoutIfNeeded now, [])

/-- A state is changed. -/
def modifyState (i : ℕ) (f : DcfState → DcfState) : DcfManager :=
  { m with states := m.states.modify i f }

/-- `NotifySwitchingStartNow` for a state. -/
def resetBackoff (s : DcfState) : DcfState :=
  let s := if 0 < s.backoffSlots then s.updateBackoffSlotsNow s.backoffSlots now else s
  { s with accessRequested := false }

/-- `DoGrantAccess`: the state that is granted access is told so first, and then those that it collides with. -/
def doGrantAccess : DcfManager × List Notice :=
  match m.granted now 0 m.states with
  | none => (m, [])
  | some (i, collisions) =>
    (m.modifyState i fun s => { s with accessRequested := false },
      .accessGranted i :: collisions.map .internalCollision)

/-- What a task does, and what it puts before the tasks that are left. -/
def perform : Task → DcfManager × List Task
  | .tell _ => (m, [])
  | .grantAccess => ((m.doGrantAccess now).1, (m.doGrantAccess now).2.map .tell)
  | .restartAccessTimeout => (m.doRestartAccessTimeoutIfNeeded now, [])
  | .resetBackoff i => (m.modifyState i (resetBackoff now), [])
  | .switchingStart duration => ({ m with lastSwitchingStart := now, lastSwitchingDuration := duration }, [])

/-! ### Runs -/

/-- A manager, the time of what happened last, and what is left to do of it. -/
structure Station where
  manager : DcfManager
  now : ℤ
  tasks : List Task

/-- What happens next: a call at a time, or the first task is done. -/
inductive Event where
  | call (time : ℤ) (call : Call)
  | task

/-- The time at which it happens. -/
def Event.time (s : Station) : Event → ℤ
  | .call time _ => time
  | .task => s.now

/-- A state is being told something. -/
def telling : List Task → Bool
  | .tell _ :: _ => true
  | _ => false

/-- Calls come from a state that is being told something, or when nothing is left to do; the access timeout when it is
due. -/
def Enabled (s : Station) : Event → Prop
  | .call time call => s.now ≤ time ∧ (∀ due ∈ s.manager.accessTimeout, time ≤ due) ∧
      (call = .accessTimeout → s.tasks = [] ∧ s.manager.accessTimeout = some time) ∧
      (s.tasks ≠ [] → time = s.now ∧ telling s.tasks = true)
  | .task => s.tasks ≠ []

/-- The station after the event. -/
def exec (s : Station) : Event → Option Station
  | .call time call => (s.manager.call time call).map fun x => ⟨x.1, time, x.2 ++ s.tasks⟩
  | .task =>
    match s.tasks with
    | [] => none
    | task :: rest => some ⟨(s.manager.perform s.now task).1, s.now, (s.manager.perform s.now task).2 ++ rest⟩

/-- A station with a DCF manager. -/
def machine : Lib.Machine Station Event := ⟨Enabled, exec⟩

/-- A station at its start. -/
def init (aifsns : List UInt32) (slotTimeUs : UInt32) (sifs eifsNoDifs : ℕ) : Station :=
  ⟨.new (aifsns.map DcfState.new) slotTimeUs sifs eifsNoDifs, 0, []⟩

end DcfManager

end Ns3
