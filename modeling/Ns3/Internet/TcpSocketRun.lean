import Ns3.Internet.TcpSocketBase
import Ns3.Lib.Machine

/-!
# The runs of a TCP socket

The socket as a machine: what can happen to it are the calls of the application, the segments that its end point
receives, the timers, and what it has scheduled. An event comes with a script, what the application does when it is
called back meanwhile. The application may call the socket from its callbacks, and be called back by it again, to a
depth that is a parameter.

A socket is made by its constructor, or by `Fork` in a socket that listens.
-/

namespace Ns3

open Lib

namespace TcpSocketBase

variable {γ : Type}

/-- A socket made by `CreateSocket`. The attributes have their default values. -/
def new : TcpSocketBase where
  retxEvent := none
  lastAckEvent := false
  delAckEvent := false
  persistEvent := false
  timewaitEvent := false
  dupAckCount := 0
  delAckCount := 0
  delAckMaxCount := 2
  noDelay := true
  cnCount := 0
  cnRetries := 6
  lastRtt := 0
  endPoint := none
  tcp := true
  rtt := .new
  nextTxSequence := ⟨0⟩
  highTxMark := ⟨0⟩
  rxBuffer := (TcpRxBuffer.new 0).setMaxBufferSize 131072
  txBuffer := (TcpTxBuffer.new 0).setMaxBufferSize 131072
  state := .closed
  errno := .notError
  closeNotified := false
  closeOnEmpty := false
  shutdownSend := false
  shutdownRecv := false
  connected := false
  segmentSize := 536
  maxWinSize := 65535
  rWnd := 0

/-- The copy constructor. -/
def copy (s : TcpSocketBase) : TcpSocketBase :=
  { s with
    retxEvent := none
    lastAckEvent := false
    delAckEvent := false
    persistEvent := false
    timewaitEvent := false
    delAckCount := 0
    lastRtt := 0
    endPoint := none }

/-- What the application does when it is called back: the next entry of the script. -/
def takeReaction (_ : TcpNotice) : TcpProg γ (List TcpCall × Bool) := fun w =>
  match w.script with
  | [] => (.ok ([], true), w)
  | reaction :: script => (.ok (reaction.calls, reaction.accept), { w with script })

/-- A timer is pending. -/
def Pending (s : TcpSocketBase) : TcpTimer → Prop
  | .retx => s.retxEvent ≠ none
  | .lastAck => s.lastAckEvent = true
  | .delAck => s.delAckEvent = true
  | .persist => s.persistEvent = true
  | .timewait => s.timewaitEvent = true

instance (s : TcpSocketBase) : (timer : TcpTimer) → Decidable (s.Pending timer)
  | .retx => inferInstanceAs (Decidable (_ ≠ _))
  | .lastAck => inferInstanceAs (Decidable (_ = _))
  | .delAck => inferInstanceAs (Decidable (_ = _))
  | .persist => inferInstanceAs (Decidable (_ = _))
  | .timewait => inferInstanceAs (Decidable (_ = _))

/-- A timer that expires is not pending any more. -/
def expire (s : TcpSocketBase) : TcpTimer → TcpSocketBase
  | .retx => { s with retxEvent := none }
  | .lastAck => { s with lastAckEvent := false }
  | .delAck => { s with delAckEvent := false }
  | .persist => { s with persistEvent := false }
  | .timewait => { s with timewaitEvent := false }

variable [TcpCongestion γ] (app : TcpNotice → TcpProg γ Bool)

/-- A call of the application. -/
def call : TcpCall → TcpProg γ Unit
  | .bind port allocated => do
    let _ ← bind port allocated
  | .bindToNetDevice netdevice allocated => bindToNetDevice netdevice allocated
  | .connect allocated address port route => do
    let _ ← connect app allocated address port route
  | .listen => listen
  | .close => close app
  | .shutdownSend => modify fun s => { s with shutdownSend := true }
  | .shutdownRecv => modify fun s => { s with shutdownRecv := true }
  | .send p => send p
  | .recv maxSize => do
    let _ ← recv maxSize
  | .setAttribute value => setAttribute value

/-- The expiration of a timer. -/
def timeout (timer : TcpTimer) : TcpProg γ Unit := do
  record (.timeout timer)
  let s ← get
  modify fun s => s.expire timer
  match timer with
  | .retx =>
    match s.retxEvent with
    | some .reTxTimeout => reTxTimeout app
    | some (.sendEmptyPacket flags) => sendEmptyPacket app flags
    | none => pure ()
  | .lastAck => lastAckTimeout app
  | .delAck => delAckTimeout app
  | .persist => persistTimeout
  | .timewait => closeAndNotify app

/-- What the application does when it is called back. -/
def application (depth : ℕ) : TcpNotice → TcpProg γ Bool := react takeReaction call depth

end TcpSocketBase

namespace TcpState

variable {γ : Type}

/-- A new socket. -/
def new (congestion : γ) : TcpState γ :=
  ⟨.new, congestion, [], 0, 0, [], false, [], [], none⟩

/-- A socket made by `Fork`, with its `CompleteFork` scheduled. -/
def forked [TcpCongestion γ] (s : TcpSocketBase) (congestion : γ) (now : ℤ) : TcpState γ :=
  ⟨s.copy, TcpCongestion.copy congestion, [], now, 0, [], true, [], [], none⟩

/-- What can happen to a socket. -/
inductive Event where
  | call (call : TcpCall)
  /-- The end point receives a segment. -/
  | segment (segment : TcpSegment)
  | timeout (timer : TcpTimer)
  /-- A scheduled `ConnectionSucceeded` runs. -/
  | connectionSucceeded
  /-- A scheduled `NotifyDataSent` runs. -/
  | dataSent
  /-- The scheduled `CompleteFork` runs, for the segment that made the connection, and with what `Allocate` returns. -/
  | completeFork (allocated : Option Ipv4EndPoint) (h : TcpHeader)
  /-- The end point is destroyed. -/
  | destroy
  | clock (now : ℤ)

/-- An event can happen. Nobody knows of a socket before its `CompleteFork`. -/
def Enabled (w : TcpState γ) : Event → Prop
  | .call _ => w.forking = false
  | .segment _ => w.socket.endPoint ≠ none
  | .timeout timer => w.socket.Pending timer
  | .connectionSucceeded => w.succeeding ≠ 0
  | .dataSent => w.sending ≠ []
  | .completeFork .. => w.forking = true
  | .destroy => w.socket.endPoint ≠ none
  | .clock now => w.now ≤ now

instance (w : TcpState γ) : (e : Event) → Decidable (w.Enabled e)
  | .call _ => inferInstanceAs (Decidable (_ = _))
  | .segment _ => inferInstanceAs (Decidable (_ ≠ _))
  | .timeout timer => inferInstanceAs (Decidable (w.socket.Pending timer))
  | .connectionSucceeded => inferInstanceAs (Decidable (_ ≠ _))
  | .dataSent => inferInstanceAs (Decidable (_ ≠ _))
  | .completeFork .. => inferInstanceAs (Decidable (_ = _))
  | .destroy => inferInstanceAs (Decidable (_ ≠ _))
  | .clock _ => inferInstanceAs (Decidable (_ ≤ _))

variable [TcpCongestion γ]

open TcpSocketBase in
/-- The handler of an event. -/
def handle (depth : ℕ) : Event → TcpProg γ Unit
  | .call c => call (application depth) c
  | .segment segment => doForwardUp (application depth) segment
  | .timeout timer => timeout (application depth) timer
  | .connectionSucceeded => do
    Prog.update fun w => { w with succeeding := w.succeeding - 1 }
    connectionSucceeded (application depth)
  | .dataSent => do
    let w ← Prog.read id
    Prog.update fun w => { w with sending := w.sending.tail }
    notify (application depth) (.dataSent (w.sending.headD 0))
  | .completeFork allocated h => do
    Prog.update fun w => { w with forking := false }
    completeFork (application depth) allocated h
  | .destroy => destroy
  | .clock now => Prog.update fun w => { w with now }

/-- The outcome of a handler, with what has stopped it. -/
def finish : Except TcpFault Unit × TcpState γ → TcpState γ
  | (.ok _, w) => w
  | (.error fault, w) => { w with stopped := some fault }

/-- The machine: an event and what the application does meanwhile. -/
def machine (γ : Type) [TcpCongestion γ] (depth : ℕ) : Machine (TcpState γ) (List TcpReaction × Event) where
  enabled w e := w.stopped = none ∧ w.Enabled e.2
  exec w e := some (finish ((handle depth e.2).run { w with script := e.1 }))

instance (depth : ℕ) (w : TcpState γ) (e : List TcpReaction × Event) : Decidable ((machine γ depth).enabled w e) :=
  inferInstanceAs (Decidable (_ ∧ _))

/-- The states that sockets begin in: new, or made by a socket that listens. -/
inductive Born (depth : ℕ) : TcpState γ → Prop where
  | new (congestion : γ) : Born depth (.new congestion)
  | forked {w₀ w : TcpState γ} {s : TcpSocketBase} {tr : List (TcpState γ × List TcpReaction × Event)} (congestion : γ)
      (now : ℤ) :
      Born depth w₀ → (machine γ depth).Run w₀ tr w → (.fork, s) ∈ w.log → Born depth (.forked s congestion now)

end TcpState

end Ns3
