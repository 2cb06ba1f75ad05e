import Ns3.Internet.Ipv4EndPointDemux
import Ns3.Internet.TcpBuffers
import Ns3.Lib.Reentrant

/-!
# TCP sockets

`TcpSocketBase` (`internet/model/tcp-socket-base.cc`), the state machine of a TCP socket, with what it calls while
it runs: the application, through the callbacks of `Socket`, and the congestion control of its subclass.

The functions are programs over a `TcpState`, the socket with its surroundings. They take as a parameter what the
application does when it is called back, which may be to call the socket again. A timer is modelled by whether it is
pending, and may expire at any time. Assertions are off; what dereferences a null pointer stops the program.

`TcpState.log` is a list of what was done, each entry with the socket as it was then. The code never reads it: it is
there for the properties of runs to speak of.
-/

namespace Ns3

open Lib

/-- `TcpStates_t`. -/
inductive TcpStates where
  | closed | listen | synSent | synRcvd | established | closeWait | lastAck | finWait1 | finWait2 | closing | timeWait
  deriving DecidableEq

/-- `TcpHeader`, what is used of it. -/
structure TcpHeader where
  sourcePort : ℕ
  destinationPort : ℕ
  sequenceNumber : SequenceNumber32
  ackNumber : SequenceNumber32
  flags : UInt8
  windowSize : UInt16

namespace TcpHeader

/-- No more data. -/
def FIN : UInt8 := 1

/-- Synchronize. -/
def SYN : UInt8 := 2

/-- Reset. -/
def RST : UInt8 := 4

/-- Push. -/
def PSH : UInt8 := 8

/-- The acknowledgement number counts. -/
def ACK : UInt8 := 16

/-- Urgent. -/
def URG : UInt8 := 32

/-- A flag is set. -/
def Has (flags flag : UInt8) : Prop := flags &&& flag ≠ 0
deriving Decidable

/-- The flags that the socket honours. -/
def tcpflags (h : TcpHeader) : UInt8 := h.flags &&& ~~~(PSH ||| URG)

end TcpHeader

/-- A TCP segment with the addresses of its IP header. -/
structure TcpSegment where
  source : Ipv4Address
  destination : Ipv4Address
  header : TcpHeader
  payload : List UInt8

/-- What is scheduled as the retransmission event. -/
inductive RetxEvent where
  | reTxTimeout
  /-- `SendEmptyPacket (flags)`. -/
  | sendEmptyPacket (flags : UInt8)

/-- `SocketErrno`, what is used of it. -/
inductive SocketErrno where
  | notError | notConn | msgSize | shutdown | inval | noRouteToHost | addrNotAvail | addrInUse

/-- A socket: its end point, buffers, timers and state. -/
structure TcpSocketBase where
  /-- `m_retxEvent`, while it is pending. -/
  retxEvent : Option RetxEvent
  /-- `m_lastAckEvent` is pending. -/
  lastAckEvent : Bool
  /-- `m_delAckEvent` is pending. -/
  delAckEvent : Bool
  /-- `m_persistEvent` is pending. -/
  persistEvent : Bool
  /-- `m_timewaitEvent` is pending. -/
  timewaitEvent : Bool
  dupAckCount : UInt32
  delAckCount : UInt32
  delAckMaxCount : UInt32
  noDelay : Bool
  cnCount : UInt32
  cnRetries : UInt32
  lastRtt : ℤ
  endPoint : Option Ipv4EndPoint
  /-- `m_tcp` is not null. -/
  tcp : Bool
  rtt : RttEstimator
  nextTxSequence : SequenceNumber32
  highTxMark : SequenceNumber32
  rxBuffer : TcpRxBuffer
  txBuffer : TcpTxBuffer
  state : TcpStates
  errno : SocketErrno
  closeNotified : Bool
  closeOnEmpty : Bool
  shutdownSend : Bool
  shutdownRecv : Bool
  connected : Bool
  segmentSize : UInt32
  maxWinSize : UInt16
  rWnd : UInt32

/-- An attribute that the application can set. -/
inductive TcpAttribute where
  | sndBufSize (size : UInt32)
  | rcvBufSize (size : UInt32)
  | segmentSize (size : UInt32)
  | connCount (count : UInt32)
  | delAckCount (count : UInt32)
  | tcpNoDelay (noDelay : Bool)
  | maxWindowSize (size : UInt16)

/-- A call of the application, with what the layers below answer. -/
inductive TcpCall where
  /-- `Bind`, with a port or zero, and what `Allocate` returns. -/
  | bind (port : ℕ) (allocated : Option Ipv4EndPoint)
  | bindToNetDevice (netdevice : Option ℕ) (allocated : Option Ipv4EndPoint)
  /-- `Connect`, with the source address of the route, if there is one. -/
  | connect (allocated : Option Ipv4EndPoint) (address : Ipv4Address) (port : ℕ) (route : Option Ipv4Address)
  | listen
  | close
  | shutdownSend
  | shutdownRecv
  | send (p : List UInt8)
  | recv (maxSize : UInt32)
  | setAttribute (value : TcpAttribute)

/-- The callbacks of `Socket`. -/
inductive TcpNotice where
  | connectionSucceeded | connectionFailed | normalClose | errorClose | connectionRequest | newConnectionCreated
  | dataSent (size : UInt32)
  | send (spaceAvailable : UInt32)
  | dataRecv

/-- What the application does when it is called back. -/
structure TcpReaction where
  calls : List TcpCall
  /-- What it answers to a connection request. -/
  accept : Bool

/-- The timers. -/
inductive TcpTimer where
  | retx | lastAck | delAck | persist | timewait

/-- The entries of the log. -/
inductive TcpStep where
  /-- `Bind` is called. -/
  | bind (allocated : Option Ipv4EndPoint)
  /-- `Connect` is called. -/
  | connect
  /-- `Close` is called. -/
  | close
  /-- `Recv` is called. -/
  | recv (maxSize : UInt32)
  /-- An end point was allocated. -/
  | allocated
  /-- `SendRST` is done. -/
  | sentReset
  /-- `CloseAndNotify` is done. -/
  | closed
  /-- The end point was destroyed. -/
  | destroyed
  /-- `CompleteFork`, and what `Allocate` returns. -/
  | completeFork (allocated : Option Ipv4EndPoint)
  | fork
  | timeout (timer : TcpTimer)
  /-- `m_state` is about to be assigned. -/
  | moved (state : TcpStates)
  /-- `ReceivedData` is called. -/
  | receivedData (p : List UInt8) (h : TcpHeader)
  /-- `NotifyDataRecv` has returned to `ReceivedData`, which called it in the given state. -/
  | told (state : TcpStates) (h : TcpHeader)
  /-- `PeerClose` is called. -/
  | peerClose (h : TcpHeader)
  /-- `DoPeerClose` is called. -/
  | doPeerClose
  /-- A subclass retransmits after `NewAck`. -/
  | retransmit

/-- What stops the program. -/
inductive TcpFault where
  /-- `m_endPoint` is dereferenced, and null. -/
  | nullEndPoint
  /-- `m_tcp` is dereferenced, and null. -/
  | nullTcp
  /-- The packet to be sent is dereferenced, and null. -/
  | nullPacket
  /-- `SendPendingData` does not end. -/
  | endless
  /-- `NS_ABORT_MSG_UNLESS`. -/
  | abort

/-- The socket and its surroundings; `γ` is the data of the subclass. -/
structure TcpState (γ : Type) where
  socket : TcpSocketBase
  congestion : γ
  /-- What the application does at its next callbacks. -/
  script : List TcpReaction
  now : ℤ
  /-- How many `ConnectionSucceeded` are scheduled. -/
  succeeding : ℕ
  /-- The scheduled `NotifyDataSent`. -/
  sending : List UInt32
  /-- A `CompleteFork` is scheduled. -/
  forking : Bool
  sent : List TcpSegment
  log : List (TcpStep × TcpSocketBase)
  /-- What has stopped the program. -/
  stopped : Option TcpFault

/-- What a subclass does at a duplicate acknowledgement. -/
inductive DupAckAction where
  | nothing
  /-- `DoRetransmit`. -/
  | retransmit
  /-- `DoRetransmit`, after `m_nextTxSequence` was set back to the head of the buffer. -/
  | restart
  /-- `SendPendingData`. -/
  | sendPending
  | limitedTransmit

/-- The virtual functions that the congestion control of a subclass overrides. -/
class TcpCongestion (γ : Type) where
  window : γ → TcpSocketBase → UInt32
  /-- What `Connect` and `Listen` do first. -/
  initializeCwnd : γ → TcpSocketBase → γ
  /-- What `NewAck` does first, and whether it ends with `DoRetransmit`. -/
  newAck : γ → TcpSocketBase → SequenceNumber32 → γ × Bool
  dupAck : γ → TcpSocketBase → UInt32 → γ × DupAckAction
  /-- What `Retransmit` does to the data, and whether it resets `m_dupAckCount`. -/
  retransmit : γ → TcpSocketBase → γ × Bool
  copy : γ → γ

/-- `TcpRfc793`: no congestion control. -/
instance : TcpCongestion Unit where
  window _ s := s.rWnd
  initializeCwnd _ _ := ()
  newAck _ _ _ := ((), false)
  dupAck _ _ _ := ((), .nothing)
  retransmit _ _ := ((), true)
  copy _ := ()

/-- The programs over a socket and its surroundings. -/
abbrev TcpProg (γ : Type) := Prog TcpFault (TcpState γ)

namespace TcpSocketBase

variable (s : TcpSocketBase)

/-- No timer is pending. -/
def cancelAllTimers : TcpSocketBase :=
  { s with
    retxEvent := none, persistEvent := false, delAckEvent := false, lastAckEvent := false, timewaitEvent := false }

/-- The end point is given up, with the timers. -/
def deallocateEndPoint : TcpSocketBase :=
  if s.endPoint = none then s else { s with endPoint := none }.cancelAllTimers

/-- The room of the receive buffer, in 16 bits. -/
def advertisedWindowSize : UInt16 :=
  (min (s.rxBuffer.maxBuffer - s.rxBuffer.size) s.maxWinSize.toUInt32).toUInt16

/-- What is sent and not acknowledged. -/
def unAckDataCount : UInt32 := s.nextTxSequence.minus s.txBuffer.firstByteSeq

/-- A segment lies outside the receive window. -/
def outOfRange (head tail : SequenceNumber32) : Bool :=
  match s.state with
  | .listen | .synSent | .synRcvd => false
  | .lastAck | .closing | .closeWait => s.rxBuffer.nextRxSeq ≠ head
  | _ => tail.lt s.rxBuffer.nextRxSeq || s.rxBuffer.maxRxSequence.le head

/-- A segment from the end point, with the header fields that all have in common. -/
def segmentFrom (e : Ipv4EndPoint) (flags : UInt8) (seq : SequenceNumber32) (p : List UInt8) :
    TcpSegment where
  source := e.localAddr
  destination := e.peerAddr
  payload := p
  header :=
    { sourcePort := e.localPort, destinationPort := e.peerPort, sequenceNumber := seq,
      ackNumber := s.rxBuffer.nextRxSeq, flags, windowSize := s.advertisedWindowSize }

/-- The greater of two sequence numbers, by `std::max`. -/
def maxSequence (a b : SequenceNumber32) : SequenceNumber32 := if a.lt b then b else a

open TcpHeader

variable {γ : Type}

/-- Reads the socket. -/
def get : TcpProg γ TcpSocketBase := .read TcpState.socket

/-- Changes the socket. -/
def modify (f : TcpSocketBase → TcpSocketBase) : TcpProg γ Unit := .update fun w => { w with socket := f w.socket }

/-- Writes to the log. -/
def record (step : TcpStep) : TcpProg γ Unit := .update fun w => { w with log := w.log ++ [(step, w.socket)] }

/-- Assigns `m_state`. -/
def move (state : TcpStates) : TcpProg γ Unit := do
  record (.moved state)
  modify fun s => { s with state }

/-- `m_tcp->SendPacket`. -/
def sendPacket (segment : TcpSegment) : TcpProg γ Unit := .update fun w => { w with sent := w.sent ++ [segment] }

/-- `Simulator::ScheduleNow (&TcpSocketBase::ConnectionSucceeded, this)`. -/
def scheduleConnectionSucceeded : TcpProg γ Unit := .update fun w => { w with succeeding := w.succeeding + 1 }

variable (app : TcpNotice → TcpProg γ Bool)

/-- A callback whose answer is not used. -/
def notify (notice : TcpNotice) : TcpProg γ Unit := do
  let _ ← app notice

/-- The socket is closed, and the application told so once. -/
def closeAndNotify : TcpProg γ Unit := do
  let s ← get
  Prog.when (s.closeNotified = false) (notify app .normalClose)
  modify fun s => if s.state = .timeWait then s else s.deallocateEndPoint
  modify fun s => { s with closeNotified := true }.cancelAllTimers
  move .closed
  record .closed

/-- A segment without data is sent. -/
def sendEmptyPacket (flags : UInt8) : TcpProg γ Unit := do
  let s ← get
  match s.endPoint with
  | none => pure ()
  | some e =>
    let flags' := if Has flags FIN then flags ||| ACK else flags
    let seq :=
      if ¬ Has flags FIN ∧ (s.state = .finWait1 ∨ s.state = .lastAck ∨ s.state = .closing) then s.nextTxSequence.next
      else s.nextTxSequence
    if Has flags SYN ∧ s.cnCount = 0 then closeAndNotify app
    else do
      Prog.when (Has flags SYN) (modify fun s => { s with cnCount := s.cnCount - 1 })
      sendPacket (s.segmentFrom e flags' seq [])
      Prog.when (Has flags' ACK) (modify fun s => { s with delAckEvent := false, delAckCount := 0 })
      Prog.when (s.retxEvent = none ∧ (Has flags SYN ∨ Has flags FIN) ∧ flags' ≠ ACK)
        (modify fun s => { s with retxEvent := some (.sendEmptyPacket flags') })

/-- The peer is reset, and the socket gives up its end point. -/
def sendRST : TcpProg γ Unit := do
  sendEmptyPacket app RST
  notify app .errorClose
  modify deallocateEndPoint
  record .sentReset

/-- A FIN, and the state behind it. -/
def doClose : TcpProg γ Unit := do
  let s ← get
  match s.state with
  | .synRcvd | .established =>
    sendEmptyPacket app FIN
    move .finWait1
  | .closeWait =>
    sendEmptyPacket app (FIN ||| ACK)
    move .lastAck
  | .synSent | .closing =>
    sendRST app
    closeAndNotify app
  | .listen | .lastAck => closeAndNotify app
  | .closed | .finWait1 | .finWait2 | .timeWait => pure ()

/-- The application closes: a reset if there is data to read, a FIN when all is sent. -/
def close : TcpProg γ Unit := do
  record .close
  let s ← get
  if s.rxBuffer.size ≠ 0 then sendRST app
  else if s.txBuffer.sizeFromSequence s.nextTxSequence > 0 then modify fun s => { s with closeOnEmpty := true }
  else doClose app

/-- The socket gets an end point. -/
def bind (port : ℕ) (allocated : Option Ipv4EndPoint) : TcpProg γ Bool := do
  record (.bind allocated)
  let s ← get
  if s.tcp = false then Prog.stop .nullTcp
  else
    match allocated with
    | none =>
      modify fun s => { s with endPoint := none, errno := if port = 0 then .addrNotAvail else .addrInUse }
      pure false
    | some e =>
      modify fun s => { s with endPoint := some e }
      record .allocated
      pure true

/-- `Bind`, unless there is an end point. -/
def ensureBound (allocated : Option Ipv4EndPoint) : TcpProg γ Bool := do
  let s ← get
  if s.endPoint = none then bind 0 allocated else pure true

/-- Packets of the device only, once the socket has an end point. -/
def bindToNetDevice (netdevice : Option ℕ) (allocated : Option Ipv4EndPoint) : TcpProg γ Unit := do
  let bound ← ensureBound allocated
  Prog.when (bound = true) (modify fun s => { s with endPoint := s.endPoint.map (·.bindToNetDevice netdevice) })

/-- A SYN, if the state allows it. -/
def doConnect : TcpProg γ Unit := do
  let s ← get
  if s.state ∈ [.closed, .listen, .synSent, .lastAck, .closeWait] then do
    sendEmptyPacket app SYN
    move .synSent
  else Prog.when (s.state ≠ .timeWait) do
    sendRST app
    closeAndNotify app

/-- What `CompleteFork` and the handlers of `SYN_RCVD` do to the end point. -/
def setPeer (address : Ipv4Address) (port : ℕ) : TcpProg γ Unit := do
  let s ← get
  match s.endPoint with
  | none => Prog.stop .nullEndPoint
  | some e => modify fun s => { s with endPoint := some (e.setPeer address port) }

/-- All timers are stopped but that of `TIME_WAIT`. -/
def timeWait : TcpProg γ Unit := do
  move .timeWait
  modify fun s => { s.cancelAllTimers with timewaitEvent := true }

/-- `Recv`: the packet, if there is one. -/
def recv (maxSize : UInt32) : TcpProg γ (Option (List UInt8)) := do
  record (.recv maxSize)
  let s ← get
  if s.rxBuffer.size = 0 ∧ s.state = .closeWait then pure (some [])
  else do
    let (out, rxBuffer) := s.rxBuffer.extract maxSize
    modify fun s => { s with rxBuffer }
    match out with
    | none => pure none
    | some p => if s.endPoint = none then Prog.stop .nullEndPoint else pure (some p)

/-- The peer has closed. -/
def doPeerClose : TcpProg γ Unit := do
  record .doPeerClose
  move .closeWait
  let s ← get
  Prog.when (s.closeNotified = false) do
    notify app .normalClose
    modify fun s => { s with closeNotified := true }
  let s ← get
  if s.shutdownSend then close app else sendEmptyPacket app ACK
  modify fun s => if s.state = .lastAck then { s with lastAckEvent := true } else s

/-- The acknowledgement in `ReceivedData` of data that was buffered. -/
def acknowledgeData (expectedSeq : SequenceNumber32) (size : UInt32) : TcpProg γ Unit := do
  let s ← get
  if s.rxBuffer.size > s.rxBuffer.availBytes ∨ s.rxBuffer.nextRxSeq.gt (expectedSeq.plus size) then
    sendEmptyPacket app ACK
  else if s.delAckCount + 1 ≥ s.delAckMaxCount then do
    modify fun s => { s with delAckEvent := false, delAckCount := 0 }
    sendEmptyPacket app ACK
  else modify fun s => { s with delAckEvent := true, delAckCount := s.delAckCount + 1 }

/-- Data comes in, and is acknowledged at once or later. -/
def receivedData (p : List UInt8) (h : TcpHeader) : TcpProg γ Unit := do
  record (.receivedData p h)
  let s ← get
  let (added, rxBuffer) := s.rxBuffer.add p h.sequenceNumber
  modify fun s => { s with rxBuffer }
  if added = false then sendEmptyPacket app ACK
  else do
    acknowledgeData app s.rxBuffer.nextRxSeq (packetSize p)
    Prog.when (s.rxBuffer.nextRxSeq.lt rxBuffer.nextRxSeq) do
      let s ← get
      Prog.when (s.shutdownRecv = false) do
        notify app .dataRecv
        record (.told s.state h)
      let s ← get
      Prog.when (s.rxBuffer.finished ∧ ¬ Has h.flags FIN) (doPeerClose app)

/-- The range check of `PeerClose`. -/
def OutOfWindow (h : TcpHeader) : Prop :=
  h.sequenceNumber.lt s.rxBuffer.nextRxSeq ∨ h.sequenceNumber.gt s.rxBuffer.maxRxSequence
deriving Decidable

/-- A FIN comes in, maybe before its time. -/
def peerClose (p : List UInt8) (h : TcpHeader) : TcpProg γ Unit := do
  record (.peerClose h)
  let s ← get
  if s.OutOfWindow h then pure ()
  else do
    modify fun s => { s with rxBuffer := s.rxBuffer.setFinSequence (h.sequenceNumber.plus (packetSize p)) }
    Prog.when (p ≠ []) (receivedData app p h)
    let s ← get
    if s.rxBuffer.finished = false then pure ()
    else if s.state = .finWait1 then move .closing
    else doPeerClose app

/-- `m_state <= ESTABLISHED`. -/
def upToEstablished : Bool :=
  s.state ∈ [.closed, .listen, .synSent, .synRcvd, .established]

/-- `SendDataPacket`: the size of the packet. -/
def sendDataPacket (seq : SequenceNumber32) (maxSize : UInt32) (withAck : Bool) : TcpProg γ UInt32 := do
  let s ← get
  match s.txBuffer.copyFromSequence maxSize seq with
  | none => Prog.stop .nullPacket
  | some p =>
    let size := packetSize p
    let fin : Bool := s.closeOnEmpty && s.txBuffer.sizeFromSequence (seq.plus size) = 0
    let flags := (if withAck then ACK else 0) ||| (if fin then FIN else 0)
    Prog.when (fin ∧ s.state = .established) (move .finWait1)
    Prog.when (fin ∧ s.state = .closeWait) (move .lastAck)
    let s ← get
    match s.endPoint with
    | none => Prog.stop .nullEndPoint
    | some e =>
      modify fun s => if s.retxEvent = none then { s with retxEvent := some .reTxTimeout } else s
      sendPacket (s.segmentFrom e flags seq p)
      let now ← Prog.read TcpState.now
      modify fun s => { s with rtt := s.rtt.sentSeq now seq size }
      Prog.when (seq = s.nextTxSequence) (Prog.update fun w => { w with sending := w.sending ++ [size] })
      modify fun s => { s with highTxMark := maxSequence (seq.plus size) s.highTxMark }
      pure size

variable [TcpCongestion γ]

/-- How much may be sent now. -/
def availableWindow (congestion : γ) (s : TcpSocketBase) : UInt32 :=
  let win := TcpCongestion.window congestion s
  if win < s.unAckDataCount then 0 else win - s.unAckDataCount

/-- The tests of the loop of `SendPendingData`: how much it sends next, unless it ends. -/
def nextPiece (congestion : γ) (s : TcpSocketBase) : Option UInt32 :=
  let left := s.txBuffer.sizeFromSequence s.nextTxSequence
  let w := availableWindow congestion s
  if left = 0 ∨ s.shutdownSend ∨ w < s.segmentSize ∧ left > w ∨
    s.noDelay = false ∧ s.unAckDataCount > 0 ∧ left < s.segmentSize then none
  else some (min w s.segmentSize)

/-- The end of the loop, which notes the error that sending was shut down. -/
def endSending : TcpProg γ Unit :=
  modify fun s =>
    if s.txBuffer.sizeFromSequence s.nextTxSequence ≠ 0 ∧ s.shutdownSend then { s with errno := .shutdown } else s

/-- The loop of `SendPendingData`, for a number of rounds. Every round sends something, or the same again. -/
def sendLoop (withAck : Bool) : ℕ → TcpProg γ Unit
  | 0 => do
    let w ← Prog.read id
    match nextPiece w.congestion w.socket with
    | none => endSending
    | some _ => Prog.stop .endless
  | rounds + 1 => do
    let w ← Prog.read id
    match nextPiece w.congestion w.socket with
    | none => endSending
    | some size =>
      let sz ← sendDataPacket w.socket.nextTxSequence size withAck
      modify fun s => { s with nextTxSequence := s.nextTxSequence.plus sz }
      sendLoop withAck rounds

/-- What the windows allow is sent. -/
def sendPendingData (withAck : Bool) : TcpProg γ Unit := do
  let s ← get
  if s.txBuffer.size = 0 ∨ s.endPoint = none then pure ()
  else sendLoop withAck (s.txBuffer.sizeFromSequence s.nextTxSequence).toNat

variable (p : List UInt8)

/-- The application has data to send. -/
def send : TcpProg γ Unit := do
  let s ← get
  if s.state = .established ∨ s.state = .synSent ∨ s.state = .closeWait then
    let (added, txBuffer) := s.txBuffer.add p
    if added then do
      modify fun s => { s with txBuffer }
      Prog.when (s.state ≠ .synSent) (sendPendingData s.connected)
    else modify fun s => { s with errno := .msgSize }
  else modify fun s => { s with errno := .notConn }

/-- `Connect`: whether it succeeds. -/
def connect (allocated : Option Ipv4EndPoint) (address : Ipv4Address) (port : ℕ) (route : Option Ipv4Address) :
    TcpProg γ Bool := do
  record .connect
  Prog.update fun w => { w with congestion := TcpCongestion.initializeCwnd w.congestion w.socket }
  let bound ← ensureBound allocated
  if bound = false then pure false
  else do
    modify fun s => { s with endPoint := s.endPoint.map (·.setPeer address port) }
    match route with
    | none =>
      modify fun s => { s with errno := .noRouteToHost }
      pure false
    | some source =>
      modify fun s => { s with endPoint := s.endPoint.map (·.setLocalAddress source) }
      modify fun s => { s with rtt := .new, cnCount := s.cnRetries }
      doConnect app
      pure true

/-- The socket waits for connections. -/
def listen : TcpProg γ Unit := do
  Prog.update fun w => { w with congestion := TcpCongestion.initializeCwnd w.congestion w.socket }
  let s ← get
  if s.state = .closed then move .listen else modify fun s => { s with errno := .inval }

/-- The setters of the attributes. -/
def setAttribute : TcpAttribute → TcpProg γ Unit
  | .sndBufSize size => modify fun s => { s with txBuffer := s.txBuffer.setMaxBufferSize size }
  | .rcvBufSize size => modify fun s => { s with rxBuffer := s.rxBuffer.setMaxBufferSize size }
  | .segmentSize size => do
    modify fun s => { s with segmentSize := size }
    let s ← get
    Prog.when (s.state ≠ .closed) (Prog.stop .abort)
  | .connCount count => modify fun s => { s with cnRetries := count }
  | .delAckCount count => modify fun s => { s with delAckMaxCount := count }
  | .tcpNoDelay noDelay => modify fun s => { s with noDelay }
  | .maxWindowSize size => modify fun s => { s with maxWinSize := size }

/-- The first segment that is not acknowledged, a SYN or a FIN is sent again. -/
def doRetransmit : TcpProg γ Unit := do
  let s ← get
  if s.state = .synSent then
    if s.cnCount > 0 then sendEmptyPacket app SYN else notify app .connectionFailed
  else if s.txBuffer.size = 0 then
    Prog.when (s.state = .finWait1 ∨ s.state = .closing) (sendEmptyPacket app FIN)
  else do
    let sz ← sendDataPacket s.txBuffer.firstByteSeq s.segmentSize true
    modify fun s =>
      { s with nextTxSequence := maxSequence s.nextTxSequence (s.txBuffer.firstByteSeq.plus sz) }

/-- The window shrinks, and the transmission begins anew. -/
def retransmit : TcpProg γ Unit := do
  let w ← Prog.read id
  let (congestion, resets) := TcpCongestion.retransmit w.congestion w.socket
  Prog.update fun w => { w with congestion }
  modify fun s => { s with nextTxSequence := s.txBuffer.firstByteSeq }
  Prog.when (resets = true) (modify fun s => { s with dupAckCount := 0 })
  doRetransmit app

/-- No acknowledgement came in time. -/
def reTxTimeout : TcpProg γ Unit := do
  let s ← get
  if s.state = .closed ∨ s.state = .timeWait then pure ()
  else if s.upToEstablished ∧ s.txBuffer.firstByteSeq.ge s.highTxMark then pure ()
  else retransmit app

/-- New data is acknowledged. -/
def newAck (ack : SequenceNumber32) : TcpProg γ Unit := do
  let s ← get
  Prog.when (s.state ≠ .synRcvd) (modify fun s => { s with retxEvent := some .reTxTimeout })
  Prog.when (s.rWnd = 0 ∧ s.persistEvent = false)
    (modify fun s => { s with retxEvent := none, persistEvent := true })
  modify fun s => { s with txBuffer := s.txBuffer.discardUpTo ack }
  let s ← get
  Prog.when (s.txBuffer.available > 0) (notify app (.send s.txBuffer.available))
  modify fun s => if ack.gt s.nextTxSequence then { s with nextTxSequence := ack } else s
  modify fun s =>
    if s.txBuffer.size = 0 ∧ s.state ≠ .finWait1 ∧ s.state ≠ .closing then { s with retxEvent := none } else s
  let s ← get
  sendPendingData s.connected

/-- `NewAck` of the subclass. -/
def newAckOfSubclass (ack : SequenceNumber32) : TcpProg γ Unit := do
  let w ← Prog.read id
  let (congestion, retransmits) := TcpCongestion.newAck w.congestion w.socket ack
  Prog.update fun w => { w with congestion }
  newAck app ack
  Prog.when (retransmits = true) do
    record .retransmit
    doRetransmit app

/-- An acknowledgement came again. -/
def dupAck (count : UInt32) : TcpProg γ Unit := do
  let w ← Prog.read id
  let (congestion, action) := TcpCongestion.dupAck w.congestion w.socket count
  Prog.update fun w => { w with congestion }
  match action with
  | .nothing => pure ()
  | .retransmit => doRetransmit app
  | .restart =>
    modify fun s => { s with nextTxSequence := s.txBuffer.firstByteSeq }
    doRetransmit app
  | .sendPending => sendPendingData w.socket.connected
  | .limitedTransmit =>
    let sz ← sendDataPacket w.socket.nextTxSequence w.socket.segmentSize true
    modify fun s => { s with nextTxSequence := s.nextTxSequence.plus sz }

variable (h : TcpHeader)

/-- `ReceivedAck`, less the data. -/
def processAck : TcpProg γ Unit := do
  let s ← get
  if ¬ Has h.flags ACK ∨ h.ackNumber.lt s.txBuffer.firstByteSeq then pure ()
  else if h.ackNumber = s.txBuffer.firstByteSeq then
    Prog.when (h.ackNumber.lt s.nextTxSequence) do
      modify fun s => { s with dupAckCount := s.dupAckCount + 1 }
      dupAck app (s.dupAckCount + 1)
  else do
    newAckOfSubclass app h.ackNumber
    modify fun s => { s with dupAckCount := 0 }

/-- An acknowledgement, with data or without. -/
def receivedAck (h : TcpHeader) : TcpProg γ Unit := do
  processAck app h
  Prog.when (p ≠ []) (receivedData app p h)

/-- What most handlers do with flags that they do not expect: a reset is not answered. -/
def terminate : TcpProg γ Unit := do
  Prog.when (h.tcpflags ≠ RST) (sendRST app)
  closeAndNotify app

/-- A segment in `ESTABLISHED`. -/
def processEstablished (h : TcpHeader) : TcpProg γ Unit :=
  if h.tcpflags = ACK then receivedAck app p h
  else if h.tcpflags = SYN ∨ h.tcpflags = SYN ||| ACK then pure ()
  else if h.tcpflags = FIN ∨ h.tcpflags = FIN ||| ACK then peerClose app p h
  else if h.tcpflags = 0 then do
    receivedData app p h
    let s ← get
    Prog.when (s.rxBuffer.finished = true) (peerClose app p h)
  else terminate app h

/-- `ProcessListen`, up to `CompleteFork`, which runs on the copy. -/
def processListen : TcpProg γ Unit :=
  Prog.when (h.tcpflags = SYN) do
    let accept ← app .connectionRequest
    Prog.when (accept = true) (record .fork)

/-- A segment in `SYN_SENT`. -/
def processSynSent (h : TcpHeader) : TcpProg γ Unit := do
  let s ← get
  if h.tcpflags = 0 then do
    move .established
    modify fun s => { s with connected := true, retxEvent := none, delAckCount := s.delAckMaxCount }
    receivedData app p h
    scheduleConnectionSucceeded
  else if h.tcpflags = ACK then pure ()
  else if h.tcpflags = SYN then do
    move .synRcvd
    modify fun s =>
      { s with cnCount := s.cnRetries, rxBuffer := s.rxBuffer.setNextRxSequence h.sequenceNumber.next }
    sendEmptyPacket app (SYN ||| ACK)
  else if h.tcpflags = SYN ||| ACK ∧ s.nextTxSequence.next = h.ackNumber then do
    move .established
    modify fun s =>
      { s with
        connected := true
        retxEvent := none
        rxBuffer := s.rxBuffer.setNextRxSequence h.sequenceNumber.next
        nextTxSequence := s.nextTxSequence.next
        highTxMark := s.nextTxSequence.next
        txBuffer := s.txBuffer.setHeadSequence s.nextTxSequence.next }
    sendEmptyPacket app ACK
    sendPendingData true
    scheduleConnectionSucceeded
    modify fun s => { s with delAckCount := s.delAckMaxCount }
  else terminate app h

/-- What ends the handshake in `SYN_RCVD`, less the change of state. -/
def completeHandshake (source : Ipv4Address) (h : TcpHeader) : TcpProg γ Unit := do
  modify fun s =>
    { s with
      connected := true
      retxEvent := none
      nextTxSequence := s.nextTxSequence.next
      highTxMark := s.nextTxSequence.next
      txBuffer := s.txBuffer.setHeadSequence s.nextTxSequence.next }
  setPeer source h.sourcePort

/-- A segment in `SYN_RCVD`. -/
def processSynRcvd (source : Ipv4Address) (p : List UInt8) (h : TcpHeader) : TcpProg γ Unit := do
  let s ← get
  if h.tcpflags = 0 ∨ h.tcpflags = ACK ∧ s.nextTxSequence.next = h.ackNumber then do
    move .established
    completeHandshake source h
    modify fun s => { s with delAckCount := s.delAckMaxCount }
    receivedAck app p h
    notify app .newConnectionCreated
    let s ← get
    Prog.when (s.txBuffer.available > 0) (notify app (.send s.txBuffer.available))
  else if h.tcpflags = SYN then do
    modify fun s => { s with rxBuffer := s.rxBuffer.setNextRxSequence h.sequenceNumber.next }
    sendEmptyPacket app (SYN ||| ACK)
  else if h.tcpflags = FIN ||| ACK then
    Prog.when (h.sequenceNumber = s.rxBuffer.nextRxSeq) do
      completeHandshake source h
      peerClose app p h
  else do
    Prog.when (h.tcpflags ≠ RST) do
      setPeer source h.sourcePort
      sendRST app
    closeAndNotify app

/-- An acknowledgement of the `FIN` that was sent. -/
def AcksFin (h : TcpHeader) : Prop := s.txBuffer.size = 0 ∧ h.ackNumber = s.highTxMark.next
deriving Decidable

/-- The end of `ProcessWait`, for a `FIN` that is in sequence now. -/
def finishWait : TcpProg γ Unit := do
  let s ← get
  Prog.when ((s.state = .finWait1 ∨ s.state = .finWait2) ∧ s.rxBuffer.finished = true) do
    Prog.when (s.state = .finWait1) (move .closing)
    Prog.when (s.state = .finWait2 ∨ s.AcksFin h) timeWait
    sendEmptyPacket app ACK
    let s ← get
    Prog.when (s.shutdownRecv = false) (notify app .dataRecv)

/-- A segment in `FIN_WAIT_1` or `FIN_WAIT_2`. -/
def processWait (h : TcpHeader) : TcpProg γ Unit :=
  if p ≠ [] then do
    receivedData app p h
    finishWait app h
  else if h.tcpflags = ACK then do
    receivedAck app p h
    let s ← get
    Prog.when (s.state = .finWait1 ∧ s.AcksFin h) (move .finWait2)
    finishWait app h
  else if h.tcpflags = FIN ∨ h.tcpflags = FIN ||| ACK then do
    Prog.when (Has h.tcpflags ACK) (receivedAck app p h)
    modify fun s => { s with rxBuffer := s.rxBuffer.setFinSequence h.sequenceNumber }
    finishWait app h
  else if h.tcpflags = SYN ∨ h.tcpflags = SYN ||| ACK then pure ()
  else terminate app h

/-- A segment in `CLOSING`. -/
def processClosing : TcpProg γ Unit := do
  let s ← get
  if h.tcpflags = ACK then Prog.when (h.sequenceNumber = s.rxBuffer.nextRxSeq) timeWait
  else if h.tcpflags = FIN ∨ h.tcpflags = FIN ||| ACK then do
    sendEmptyPacket app ACK
    closeAndNotify app
  else terminate app h

/-- A segment in `LAST_ACK`. -/
def processLastAck (h : TcpHeader) : TcpProg γ Unit := do
  let s ← get
  if h.tcpflags = 0 then receivedData app p h
  else if h.tcpflags = ACK then Prog.when (h.sequenceNumber = s.rxBuffer.nextRxSeq) (closeAndNotify app)
  else if h.tcpflags = FIN then sendEmptyPacket app (FIN ||| ACK)
  else if h.tcpflags = FIN ||| ACK then closeAndNotify app
  else terminate app h

/-- The answer to a segment in `CLOSED`. -/
def resetFor (segment : TcpSegment) : TcpSegment where
  source := segment.destination
  destination := segment.source
  payload := []
  header :=
    { sourcePort := segment.header.destinationPort, destinationPort := segment.header.sourcePort,
      sequenceNumber := s.nextTxSequence, ackNumber := s.rxBuffer.nextRxSeq, flags := RST,
      windowSize := s.advertisedWindowSize }

/-- What `DoForwardUp` does before it looks at the state: it estimates the round trip time and updates the window. -/
def takeHeader (now : ℤ) (s : TcpSocketBase) : TcpSocketBase :=
  let s :=
    if Has h.flags ACK then
      { s with lastRtt := (s.rtt.sample now h.ackNumber).getD 0, rtt := s.rtt.ackSeq h.ackNumber }
    else s
  { s with
    persistEvent := if s.rWnd = 0 ∧ h.windowSize ≠ 0 then false else s.persistEvent
    rWnd := h.windowSize.toUInt32 }

/-- The state machine of `DoForwardUp`. -/
def process (segment : TcpSegment) : TcpProg γ Unit := do
  let s ← get
  match s.state with
  | .established => processEstablished app segment.payload segment.header
  | .listen => processListen app segment.header
  | .timeWait => pure ()
  | .closed => Prog.when (segment.header.tcpflags ≠ RST) (sendPacket (s.resetFor segment))
  | .synSent => processSynSent app segment.payload segment.header
  | .synRcvd => processSynRcvd app segment.source segment.payload segment.header
  | .finWait1 | .finWait2 | .closeWait => processWait app segment.payload segment.header
  | .closing => processClosing app segment.header
  | .lastAck => processLastAck app segment.payload segment.header

/-- A segment comes in. -/
def doForwardUp (segment : TcpSegment) : TcpProg γ Unit := do
  let h := segment.header
  let now ← Prog.read TcpState.now
  modify (takeHeader h now)
  let s ← get
  if segment.payload ≠ [] ∧ s.outOfRange h.sequenceNumber (h.sequenceNumber.plus (packetSize segment.payload)) then
    Prog.when (s.state = .established ∧ ¬ Has h.flags RST) (sendEmptyPacket app ACK)
  else process app segment

/-- The acknowledgement that was put off. -/
def delAckTimeout : TcpProg γ Unit := do
  modify fun s => { s with delAckCount := 0 }
  sendEmptyPacket app ACK

/-- The last acknowledgement did not come. -/
def lastAckTimeout : TcpProg γ Unit := do
  let s ← get
  Prog.when (s.state = .lastAck) (closeAndNotify app)
  modify fun s => { s with closeNotified := true }

/-- One byte is sent to a closed window. -/
def persistTimeout : TcpProg γ Unit := do
  let s ← get
  match s.txBuffer.copyFromSequence 1 s.nextTxSequence, s.endPoint with
  | _, none => Prog.stop .nullEndPoint
  | none, _ => Prog.stop .nullPacket
  | some p, some e =>
    sendPacket (s.segmentFrom e 0 s.nextTxSequence p)
    modify fun s => { s with persistEvent := true }

/-- The application may send. -/
def connectionSucceeded : TcpProg γ Unit := do
  notify app .connectionSucceeded
  let s ← get
  Prog.when (s.txBuffer.available > 0) (notify app (.send s.txBuffer.available))

/-- A connection that came in gets a socket of its own. -/
def completeFork (allocated : Option Ipv4EndPoint) (h : TcpHeader) : TcpProg γ Unit := do
  record (.completeFork allocated)
  modify fun s => { s with endPoint := allocated }
  Prog.when (allocated ≠ none) (record .allocated)
  move .synRcvd
  modify fun s => { s with cnCount := s.cnRetries, rxBuffer := s.rxBuffer.setNextRxSequence h.sequenceNumber.next }
  sendEmptyPacket app (SYN ||| ACK)

/-- The end point is gone. -/
def destroy : TcpProg γ Unit := do
  record .destroyed
  modify fun s => { s with endPoint := none, tcp := false }.cancelAllTimers

end TcpSocketBase

end Ns3
