import Ns3.Internet.TcpSocketRun

/-!
# What the handlers of a TCP socket keep

An invariant of the socket is kept by every handler if a few functions keep it, and the application does. The invariant
speaks of the fields in `TcpCore`: the others are timers, counters, flags and the receive buffer, which most of the code
is about.

* `CallsKept` — the functions that the calls of the application come down to; `CallsKept.call`.
* `Kept` — these and the ones that acknowledgements and timeouts come down to; `Kept.handle`, `Kept.run`.
* `Indifferent` — for an invariant that does not mind `m_state` and `m_closeNotified` most of them are the same.
-/

namespace Ns3

open Lib

/-- What invariants of a socket speak of. -/
structure TcpCore (γ : Type) where
  state : TcpStates
  closeNotified : Bool
  txBuffer : TcpTxBuffer
  nextTxSequence : SequenceNumber32
  highTxMark : SequenceNumber32
  segmentSize : UInt32
  rWnd : UInt32
  congestion : γ
  log : List (TcpStep × TcpSocketBase)

/-- The fields that invariants speak of. -/
def TcpState.core {γ : Type} (w : TcpState γ) : TcpCore γ where
  state := w.socket.state
  closeNotified := w.socket.closeNotified
  txBuffer := w.socket.txBuffer
  nextTxSequence := w.socket.nextTxSequence
  highTxMark := w.socket.highTxMark
  segmentSize := w.socket.segmentSize
  rWnd := w.socket.rWnd
  congestion := w.congestion
  log := w.log

/-- The steps whose entries most invariants do not mind. -/
def TcpStep.isPlain : TcpStep → Bool
  | .doPeerClose | .moved .closeWait | .fork => false
  | _ => true

/-- What the end of the handshake does to the core: the `SYN` is acknowledged. -/
def TcpCore.synAcked {γ : Type} (c : TcpCore γ) : TcpCore γ :=
  { c with
    txBuffer := c.txBuffer.setHeadSequence c.nextTxSequence.next
    nextTxSequence := c.nextTxSequence.next
    highTxMark := c.nextTxSequence.next }

/-- The fields of an invariant that does not mind `m_state` and `m_closeNotified`, and the sockets that were copied. -/
structure TcpOutgoing (γ : Type) where
  txBuffer : TcpTxBuffer
  nextTxSequence : SequenceNumber32
  highTxMark : SequenceNumber32
  segmentSize : UInt32
  rWnd : UInt32
  congestion : γ
  forks : List TcpSocketBase

/-- The socket at an entry for `Fork`. -/
def TcpStep.copied : TcpStep × TcpSocketBase → Option TcpSocketBase
  | (.fork, s) => some s
  | _ => none

theorem TcpState.forks_record {γ : Type} (w : TcpState γ) {step : TcpStep}
    (hstep : ∀ s, TcpStep.copied (step, s) = none) :
    (w.log ++ [(step, w.socket)]).filterMap TcpStep.copied = w.log.filterMap TcpStep.copied := by
  rw [List.filterMap_append, List.filterMap_cons_none (hstep _), List.filterMap_nil, List.append_nil]

/-- The fields that such an invariant speaks of. -/
def TcpCore.outgoing {γ : Type} (c : TcpCore γ) : TcpOutgoing γ where
  txBuffer := c.txBuffer
  nextTxSequence := c.nextTxSequence
  highTxMark := c.highTxMark
  segmentSize := c.segmentSize
  rWnd := c.rWnd
  congestion := c.congestion
  forks := c.log.filterMap TcpStep.copied

namespace TcpSocketBase

variable {γ : Type}

theorem core_deallocateEndPoint (w : TcpState γ) :
    { w with socket := w.socket.deallocateEndPoint }.core = w.core := by
  rw [deallocateEndPoint]
  split_ifs <;> rfl

variable [TcpCongestion γ] {C : Setting TcpFault (TcpState γ)} {I : TcpState γ → Prop}
  {app : TcpNotice → TcpProg γ Bool}

/-- What the calls of the application come down to keeps the invariant. -/
structure CallsKept (C : Setting TcpFault (TcpState γ)) (I : TcpState γ → Prop) (app : TcpNotice → TcpProg γ Bool) :
    Prop where
  reacts : ∀ notice, C.Keeps I (app notice)
  stop : ∀ e w, I w → C.mayStop e w
  /-- What does not change the core. -/
  update : ∀ f : TcpState γ → TcpState γ, (∀ w, (f w).core = w.core) → C.Keeps I (Prog.update f)
  record : ∀ step : TcpStep, step.isPlain = true → C.Keeps I (record step)
  /-- Changes of `m_state`. -/
  move : ∀ state : TcpStates, state ≠ .closed → state ≠ .closeWait → C.Keeps I (move state)
  closeAndNotify : C.Keeps I (closeAndNotify app)
  send : ∀ p, C.Keeps I (send p)
  setAttribute : ∀ value, C.Keeps I (setAttribute value)
  initializeCwnd :
    C.Keeps I (Prog.update fun w => { w with congestion := TcpCongestion.initializeCwnd w.congestion w.socket })

namespace CallsKept

variable (h : CallsKept C I app)

include h

theorem modify {f : TcpSocketBase → TcpSocketBase}
    (hf : ∀ w : TcpState γ, { w with socket := f w.socket }.core = w.core) : C.Keeps I (TcpSocketBase.modify f) :=
  h.update _ hf

theorem notify (notice : TcpNotice) : C.Keeps I (TcpSocketBase.notify app notice) :=
  (h.reacts notice).bind fun _ => .pure

theorem sendEmptyPacket (flags : UInt8) : C.Keeps I (sendEmptyPacket app flags) := by
  apply Setting.Keeps.read
  intro s
  cases s.endPoint with
  | none => exact .pure
  | some e =>
    refine .ite h.closeAndNotify ?_
    refine .bind (.when (h.modify fun _ => rfl)) fun _ => ?_
    refine .bind (h.update _ fun _ => rfl) fun _ => ?_
    refine .bind (.when (h.modify fun _ => rfl)) fun _ => ?_
    exact .when (h.modify fun _ => rfl)

theorem sendRST : C.Keeps I (sendRST app) := by
  refine .bind (h.sendEmptyPacket _) fun _ => ?_
  refine .bind (h.notify _) fun _ => ?_
  refine .bind (h.modify core_deallocateEndPoint) fun _ => ?_
  exact h.record _ rfl

theorem doClose : C.Keeps I (doClose app) := by
  refine .read fun s => ?_
  cases s.state with
  | synRcvd | established =>
    exact .bind (h.sendEmptyPacket _) fun _ => h.move _ (by decide) (by decide)
  | closeWait => exact .bind (h.sendEmptyPacket _) fun _ => h.move _ (by decide) (by decide)
  | synSent | closing => exact .bind h.sendRST fun _ => h.closeAndNotify
  | listen | lastAck => exact h.closeAndNotify
  | closed | finWait1 | finWait2 | timeWait => exact .pure

theorem close : C.Keeps I (close app) := by
  refine .bind (h.record _ rfl) fun _ => ?_
  refine .read fun s => ?_
  exact .ite h.sendRST (.ite (h.modify fun _ => rfl) h.doClose)

theorem bind (port : ℕ) (allocated : Option Ipv4EndPoint) : C.Keeps I (bind port allocated) := by
  refine .bind (h.record _ rfl) fun _ => ?_
  refine .read fun s => ?_
  refine .ite (.stop (h.stop _)) ?_
  cases allocated with
  | none => exact .bind (h.modify fun _ => rfl) fun _ => .pure
  | some e =>
    refine .bind (h.modify fun _ => rfl) fun _ => ?_
    exact .bind (h.record _ rfl) fun _ => .pure

theorem ensureBound (allocated : Option Ipv4EndPoint) : C.Keeps I (ensureBound allocated) :=
  .read fun _ => .ite (h.bind 0 allocated) .pure

theorem bindToNetDevice (netdevice : Option ℕ) (allocated : Option Ipv4EndPoint) :
    C.Keeps I (bindToNetDevice netdevice allocated) :=
  .bind (h.ensureBound allocated) fun _ => .when (h.modify fun _ => rfl)

theorem doConnect : C.Keeps I (doConnect app) := by
  refine .read fun s => .ite ?_ (.when ?_)
  · exact .bind (h.sendEmptyPacket _) fun _ => h.move _ (by decide) (by decide)
  · exact .bind h.sendRST fun _ => h.closeAndNotify

theorem setPeer (address : Ipv4Address) (port : ℕ) : C.Keeps I (setPeer address port) := by
  refine .read fun s => ?_
  cases s.endPoint with
  | none => exact .stop (h.stop _)
  | some e => exact h.modify fun _ => rfl

theorem timeWait : C.Keeps I timeWait :=
  .bind (h.move _ (by decide) (by decide)) fun _ => h.modify fun _ => rfl

theorem recv (maxSize : UInt32) : C.Keeps I (recv maxSize) := by
  refine .bind (h.record _ rfl) fun _ => ?_
  refine .read fun s => .ite .pure ?_
  generalize s.rxBuffer.extract maxSize = extracted
  refine .bind (h.modify fun _ => rfl) fun _ => ?_
  cases extracted.1 with
  | none => exact .pure
  | some p => exact .ite (.stop (h.stop _)) .pure

theorem connect (allocated : Option Ipv4EndPoint) (address : Ipv4Address) (port : ℕ) (route : Option Ipv4Address) :
    C.Keeps I (connect app allocated address port route) := by
  refine .bind (h.record _ rfl) fun _ => ?_
  refine .bind h.initializeCwnd fun _ => ?_
  refine .bind (h.ensureBound allocated) fun bound => .ite .pure ?_
  refine .bind (h.modify fun _ => rfl) fun _ => ?_
  cases route with
  | none => exact .bind (h.modify fun _ => rfl) fun _ => .pure
  | some source =>
    refine .bind (h.modify fun _ => rfl) fun _ => ?_
    refine .bind (h.modify fun _ => rfl) fun _ => ?_
    exact .bind h.doConnect fun _ => .pure

theorem listen : C.Keeps I (listen : TcpProg γ Unit) := by
  refine .bind h.initializeCwnd fun _ => ?_
  exact .read fun s => .ite (h.move _ (by decide) (by decide)) (h.modify fun _ => rfl)

/-- Every call of the application does. -/
theorem call (c : TcpCall) : C.Keeps I (call app c) := by
  cases c with
  | bind port allocated => exact .bind (h.bind port allocated) fun _ => .pure
  | bindToNetDevice netdevice allocated => exact h.bindToNetDevice netdevice allocated
  | connect allocated address port route => exact .bind (h.connect allocated address port route) fun _ => .pure
  | listen => exact h.listen
  | close => exact h.close
  | shutdownSend | shutdownRecv => exact h.modify fun _ => rfl
  | send p => exact h.send p
  | recv maxSize => exact .bind (h.recv maxSize) fun _ => .pure
  | setAttribute value => exact h.setAttribute value

theorem acknowledgeData (expectedSeq : SequenceNumber32) (size : UInt32) :
    C.Keeps I (acknowledgeData app expectedSeq size) := by
  refine .read fun s => .ite (h.sendEmptyPacket _) (.ite ?_ (h.modify fun _ => rfl))
  exact .bind (h.modify fun _ => rfl) fun _ => h.sendEmptyPacket _

theorem terminate (header : TcpHeader) : C.Keeps I (terminate app header) :=
  .bind (.when h.sendRST) fun _ => h.closeAndNotify

theorem finishWait (header : TcpHeader) : C.Keeps I (finishWait app header) := by
  refine .read fun s => .when ?_
  refine .bind (.when (h.move _ (by decide) (by decide))) fun _ => ?_
  refine .bind (.when h.timeWait) fun _ => ?_
  exact .bind (h.sendEmptyPacket _) fun _ => .read fun _ => .when (h.notify _)

theorem processClosing (header : TcpHeader) : C.Keeps I (processClosing app header) := by
  refine .read fun s => .ite (.when h.timeWait) (.ite ?_ (h.terminate header))
  exact .bind (h.sendEmptyPacket _) fun _ => h.closeAndNotify

theorem delAckTimeout : C.Keeps I (delAckTimeout app) :=
  .bind (h.modify fun _ => rfl) fun _ => h.sendEmptyPacket _

theorem persistTimeout : C.Keeps I (persistTimeout : TcpProg γ Unit) := by
  refine .read fun s => ?_
  cases s.endPoint with
  | none => exact .stop (h.stop _)
  | some e =>
    cases s.txBuffer.copyFromSequence 1 s.nextTxSequence with
    | none => exact .stop (h.stop _)
    | some p => exact .bind (h.update _ fun _ => rfl) fun _ => h.modify fun _ => rfl

theorem connectionSucceeded : C.Keeps I (connectionSucceeded app) :=
  .bind (h.notify _) fun _ => .read fun _ => .when (h.notify _)

theorem completeFork (allocated : Option Ipv4EndPoint) (header : TcpHeader) :
    C.Keeps I (completeFork app allocated header) := by
  refine .bind (h.record _ rfl) fun _ => ?_
  refine .bind (h.modify fun _ => rfl) fun _ => ?_
  refine .bind (.when (h.record _ rfl)) fun _ => ?_
  refine .bind (h.move _ (by decide) (by decide)) fun _ => ?_
  exact .bind (h.modify fun _ => rfl) fun _ => h.sendEmptyPacket _

theorem destroy : C.Keeps I (destroy : TcpProg γ Unit) :=
  .bind (h.record _ rfl) fun _ => h.modify fun _ => rfl

theorem receivedData (hpeer : C.Keeps I (doPeerClose app)) (p : List UInt8) (header : TcpHeader) :
    C.Keeps I (receivedData app p header) := by
  refine .bind (h.record _ rfl) fun _ => .read fun s => ?_
  generalize s.rxBuffer.add p header.sequenceNumber = added
  refine .bind (h.modify fun _ => rfl) fun _ => .ite (h.sendEmptyPacket _) ?_
  refine .bind (h.acknowledgeData _ _) fun _ => .when (.read fun s => ?_)
  refine .bind (.when (.bind (h.notify _) fun _ => h.record _ rfl)) fun _ => ?_
  exact .read fun s => .when hpeer

theorem peerClose (hpeer : C.Keeps I (doPeerClose app)) (p : List UInt8) (header : TcpHeader) :
    C.Keeps I (peerClose app p header) := by
  refine .bind (h.record _ rfl) fun _ => .read fun s => .ite .pure ?_
  refine .bind (h.modify fun _ => rfl) fun _ => ?_
  refine .bind (.when (h.receivedData hpeer p header)) fun _ => ?_
  exact .read fun s => .ite .pure (.ite (h.move _ (by decide) (by decide)) hpeer)

end CallsKept

/-- What the handlers come down to keeps the invariant. -/
structure Kept (C : Setting TcpFault (TcpState γ)) (I : TcpState γ → Prop) (app : TcpNotice → TcpProg γ Bool) : Prop
    extends CallsKept C I app where
  /-- `m_closeNotified` is set. -/
  notified : C.Keeps I (TcpSocketBase.modify fun s => { s with closeNotified := true })
  /-- A connection request is accepted. -/
  fork : C.Keeps I (TcpSocketBase.record .fork)
  /-- The window of the peer is noted. -/
  takeHeader : ∀ header now, C.Keeps I (TcpSocketBase.modify (takeHeader header now))
  /-- The `SYN` is acknowledged. -/
  handshake : ∀ f : TcpSocketBase → TcpSocketBase,
    (∀ w : TcpState γ, { w with socket := f w.socket }.core = w.core.synAcked) → C.Keeps I (TcpSocketBase.modify f)
  sendPendingData : ∀ withAck, C.Keeps I (sendPendingData withAck)
  processAck : ∀ header, C.Keeps I (processAck app header)
  retransmit : C.Keeps I (retransmit app)
  receivedData : ∀ p header, C.Keeps I (receivedData app p header)
  peerClose : ∀ p header, C.Keeps I (peerClose app p header)

namespace Kept

variable (h : Kept C I app)

include h

theorem reTxTimeout : C.Keeps I (reTxTimeout app) := .read fun _ => .ite .pure (.ite .pure h.retransmit)

theorem receivedAck (p : List UInt8) (header : TcpHeader) : C.Keeps I (receivedAck app p header) :=
  .bind (h.processAck header) fun _ => .when (h.receivedData p header)

theorem processListen (header : TcpHeader) : C.Keeps I (processListen app header) :=
  .when (.bind (h.reacts _) fun _ => .when h.fork)

theorem completeHandshake (source : Ipv4Address) (header : TcpHeader) :
    C.Keeps I (completeHandshake source header : TcpProg γ Unit) :=
  .bind (h.handshake _ fun _ => rfl) fun _ => h.setPeer source header.sourcePort

theorem processEstablished (p : List UInt8) (header : TcpHeader) : C.Keeps I (processEstablished app p header) := by
  refine .ite (h.receivedAck p header) (.ite .pure (.ite (h.peerClose p header) (.ite ?_ (h.terminate header))))
  exact .bind (h.receivedData p header) fun _ => .read fun s => .when (h.peerClose p header)

theorem processSynSent (p : List UInt8) (header : TcpHeader) : C.Keeps I (processSynSent app p header) := by
  refine .read fun s => .ite ?_ (.ite .pure (.ite ?_ (.ite ?_ (h.terminate header))))
  · refine .bind (h.move _ (by decide) (by decide)) fun _ => ?_
    refine .bind (h.modify fun _ => rfl) fun _ => ?_
    exact .bind (h.receivedData p header) fun _ => h.update _ fun _ => rfl
  · refine .bind (h.move _ (by decide) (by decide)) fun _ => ?_
    exact .bind (h.modify fun _ => rfl) fun _ => h.sendEmptyPacket _
  · refine .bind (h.move _ (by decide) (by decide)) fun _ => ?_
    refine .bind (h.handshake _ fun _ => rfl) fun _ => ?_
    refine .bind (h.sendEmptyPacket _) fun _ => ?_
    refine .bind (h.sendPendingData _) fun _ => ?_
    exact .bind (h.update _ fun _ => rfl) fun _ => h.modify fun _ => rfl

theorem processSynRcvd (source : Ipv4Address) (p : List UInt8) (header : TcpHeader) :
    C.Keeps I (processSynRcvd app source p header) := by
  refine .read fun s => .ite ?_ (.ite ?_ (.ite (.when ?_) ?_))
  · refine .bind (h.move _ (by decide) (by decide)) fun _ => ?_
    refine .bind (h.completeHandshake source header) fun _ => ?_
    refine .bind (h.modify fun _ => rfl) fun _ => ?_
    refine .bind (h.receivedAck p header) fun _ => ?_
    exact .bind (h.notify _) fun _ => .read fun _ => .when (h.notify _)
  · exact .bind (h.modify fun _ => rfl) fun _ => h.sendEmptyPacket _
  · exact .bind (h.completeHandshake source header) fun _ => h.peerClose p header
  · refine .bind (.when ?_) fun _ => h.closeAndNotify
    exact .bind (h.setPeer source header.sourcePort) fun _ => h.sendRST

theorem processWait (p : List UInt8) (header : TcpHeader) : C.Keeps I (processWait app p header) := by
  refine .ite ?_ (.ite ?_ (.ite ?_ (.ite .pure (h.terminate header))))
  · exact .bind (h.receivedData p header) fun _ => h.finishWait header
  · refine .bind (h.receivedAck p header) fun _ => .read fun s => ?_
    exact .bind (.when (h.move _ (by decide) (by decide))) fun _ => h.finishWait header
  · refine .bind (.when (h.receivedAck p header)) fun _ => ?_
    exact .bind (h.modify fun _ => rfl) fun _ => h.finishWait header

theorem processLastAck (p : List UInt8) (header : TcpHeader) : C.Keeps I (processLastAck app p header) := by
  refine .read fun s => .ite (h.receivedData p header) (.ite (.when h.closeAndNotify) ?_)
  exact .ite (h.sendEmptyPacket _) (.ite h.closeAndNotify (h.terminate header))

theorem process (segment : TcpSegment) : C.Keeps I (process app segment) := by
  refine .read fun s => ?_
  cases s.state with
  | established => exact h.processEstablished _ _
  | listen => exact h.processListen _
  | timeWait => exact .pure
  | closed => exact .when (h.update _ fun _ => rfl)
  | synSent => exact h.processSynSent _ _
  | synRcvd => exact h.processSynRcvd _ _ _
  | finWait1 | finWait2 | closeWait => exact h.processWait _ _
  | closing => exact h.processClosing _
  | lastAck => exact h.processLastAck _ _

theorem doForwardUp (segment : TcpSegment) : C.Keeps I (doForwardUp app segment) := by
  refine .read fun now => ?_
  refine .bind (h.takeHeader _ now) fun _ => .read fun s => ?_
  exact .ite (.when (h.sendEmptyPacket _)) (h.process segment)

theorem lastAckTimeout : C.Keeps I (lastAckTimeout app) :=
  .read fun _ => .bind (.when h.closeAndNotify) fun _ => h.notified

theorem timeout (timer : TcpTimer) : C.Keeps I (timeout app timer) := by
  refine .bind (h.record _ rfl) fun _ => .read fun s => ?_
  refine .bind (h.modify fun w => ?_) fun _ => ?_
  · cases timer <;> rfl
  cases timer with
  | retx =>
    cases s.retxEvent with
    | none => exact .pure
    | some event =>
      cases event with
      | reTxTimeout => exact h.reTxTimeout
      | sendEmptyPacket flags => exact h.sendEmptyPacket flags
  | lastAck => exact h.lastAckTimeout
  | delAck => exact h.delAckTimeout
  | persist => exact h.persistTimeout
  | timewait => exact h.closeAndNotify

end Kept

/-- The invariant holds, or a fault has stopped the program. -/
def Outcome (C : Setting TcpFault (TcpState γ)) (I : TcpState γ → Prop) (w : TcpState γ) : Prop :=
  I w ∨ ∃ e t, C.mayStop e t ∧ w = { t with stopped := some e }

omit [TcpCongestion γ] in
theorem Outcome.of_running {w : TcpState γ} (h : Outcome C I w) (hrunning : w.stopped = none) : I w := by
  rcases h with hI | ⟨e, t, -, rfl⟩
  · exact hI
  · exact absurd hrunning (Option.some_ne_none e)

namespace Kept

variable {depth : ℕ}

/-- Every handler does. -/
theorem handle (h : Kept C I (application depth)) (e : TcpState.Event) :
    C.Keeps I (TcpState.handle depth e : TcpProg γ Unit) := by
  cases e with
  | call c => exact h.toCallsKept.call c
  | segment segment => exact h.doForwardUp segment
  | timeout timer => exact h.timeout timer
  | connectionSucceeded => exact .bind (h.update _ fun _ => rfl) fun _ => h.connectionSucceeded
  | dataSent => exact .read fun w => .bind (h.update _ fun _ => rfl) fun _ => h.notify _
  | completeFork allocated header =>
    exact .bind (h.update _ fun _ => rfl) fun _ => h.completeFork allocated header
  | destroy => exact h.destroy
  | clock now => exact h.update _ fun _ => rfl

/-- The invariant holds after an event, unless it stops the program. -/
theorem step (h : Kept C I (application depth)) {w w' : TcpState γ} {e : List TcpReaction × TcpState.Event}
    (hstep : (TcpState.machine γ depth).Step w e w') (hassumed : C.assumed w') :
    C.assumed w ∧ (I w → Outcome C I w') := by
  obtain ⟨-, hexec⟩ := hstep
  have hscript := h.update (fun w => { w with script := e.1 }) (fun _ => rfl) w
  have hkeeps := h.handle e.2 { w with script := e.1 }
  have hw' : TcpState.finish ((TcpState.handle depth e.2).run { w with script := e.1 }) = w' := Option.some.inj hexec
  rcases hrun : (TcpState.handle depth e.2).run { w with script := e.1 } with ⟨fault | _, t⟩
  · rw [hrun] at hw' hkeeps
    subst hw'
    have hstopped := h.update (fun w => { w with stopped := some fault }) (fun _ => rfl) t
    obtain ⟨hbefore, hends⟩ := hkeeps (hstopped hassumed).1
    obtain ⟨hassumed', hw⟩ := hscript hbefore
    exact ⟨hassumed', fun hI => .inr ⟨fault, t, hends (hw hI), rfl⟩⟩
  · rw [hrun] at hw' hkeeps
    subst hw'
    obtain ⟨hbefore, hends⟩ := hkeeps hassumed
    obtain ⟨hassumed', hw⟩ := hscript hbefore
    exact ⟨hassumed', fun hI => .inl (hends (hw hI))⟩

/-- What holds at the start of a run whose log is as assumed holds at its end. -/
theorem run (h : Kept C I (application depth)) {w₀ w : TcpState γ}
    {tr : List (TcpState γ × List TcpReaction × TcpState.Event)} (hrun : (TcpState.machine γ depth).Run w₀ tr w)
    (hassumed : C.assumed w) (h₀ : I w₀) : Outcome C I w := by
  induction hrun with
  | nil => exact .inl h₀
  | snoc _ hstep ih =>
    obtain ⟨hbefore, hkeep⟩ := h.step hstep hassumed
    exact hkeep ((ih hbefore).of_running hstep.1.1)

end Kept

/-- The invariant does not mind `m_state` and `m_closeNotified`, and is kept by the calls that it does mind. -/
structure Indifferent (C : Setting TcpFault (TcpState γ)) (I : TcpState γ → Prop) (app : TcpNotice → TcpProg γ Bool) :
    Prop where
  reacts : ∀ notice, C.Keeps I (app notice)
  stop : ∀ e w, I w → C.mayStop e w
  update : ∀ f : TcpState γ → TcpState γ, (∀ w, (f w).core.outgoing = w.core.outgoing) → C.Keeps I (Prog.update f)
  send : ∀ p, C.Keeps I (send p)
  setAttribute : ∀ value, C.Keeps I (setAttribute value)
  initializeCwnd :
    C.Keeps I (Prog.update fun w => { w with congestion := TcpCongestion.initializeCwnd w.congestion w.socket })

namespace Indifferent

variable (h : Indifferent C I app)

include h

theorem modify {f : TcpSocketBase → TcpSocketBase}
    (hf : ∀ w : TcpState γ, { w with socket := f w.socket }.core.outgoing = w.core.outgoing) :
    C.Keeps I (TcpSocketBase.modify f) := h.update _ hf

theorem record {step : TcpStep} (hstep : ∀ s, TcpStep.copied (step, s) = none) :
    C.Keeps I (TcpSocketBase.record step) :=
  h.update _ fun w => congrArg (TcpOutgoing.mk _ _ _ _ _ _) (w.forks_record hstep)

theorem move (state : TcpStates) : C.Keeps I (TcpSocketBase.move state) :=
  .bind (h.record fun _ => rfl) fun _ => h.modify fun _ => rfl

theorem closeAndNotify : C.Keeps I (closeAndNotify app) := by
  refine .read fun s => .bind (.when (.bind (h.reacts _) fun _ => .pure)) fun _ => ?_
  refine .bind (h.modify fun w => ?_) fun _ => ?_
  · split_ifs
    · rfl
    · exact congrArg TcpCore.outgoing (core_deallocateEndPoint w)
  refine .bind (h.modify fun _ => rfl) fun _ => ?_
  exact .bind (h.move _) fun _ => h.record fun _ => rfl

theorem callsKept : CallsKept C I app where
  reacts := h.reacts
  stop := h.stop
  update f hf := h.update f fun w => congrArg TcpCore.outgoing (hf w)
  record step hstep := by
    refine h.record fun s => ?_
    cases step <;> first | rfl | exact absurd hstep Bool.false_ne_true
  move state _ _ := h.move state
  closeAndNotify := h.closeAndNotify
  send := h.send
  setAttribute := h.setAttribute
  initializeCwnd := h.initializeCwnd

theorem doPeerClose : C.Keeps I (doPeerClose app) := by
  refine .bind (h.record fun _ => rfl) fun _ => .bind (h.move _) fun _ => .read fun s => ?_
  refine .bind (.when (.bind (h.callsKept.notify _) fun _ => h.modify fun _ => rfl)) fun _ => .read fun s => ?_
  have hlast : C.Keeps I
      (TcpSocketBase.modify fun s => if s.state = .lastAck then { s with lastAckEvent := true } else s) := by
    refine h.modify fun w => ?_
    split_ifs <;> rfl
  exact .ite (.bind h.callsKept.close fun _ => hlast) (.bind (h.callsKept.sendEmptyPacket _) fun _ => hlast)

end Indifferent

/-! ### One data packet -/

/-- What decides how much is sent. -/
structure Sender (γ : Type) where
  txBuffer : TcpTxBuffer
  nextTxSequence : SequenceNumber32
  segmentSize : UInt32
  rWnd : UInt32
  noDelay : Bool
  shutdownSend : Bool
  endPoint : Option Ipv4EndPoint
  congestion : γ
  forks : List TcpSocketBase

/-- What decides how much is sent. -/
def sender (w : TcpState γ) : Sender γ where
  txBuffer := w.socket.txBuffer
  nextTxSequence := w.socket.nextTxSequence
  segmentSize := w.socket.segmentSize
  rWnd := w.socket.rWnd
  noDelay := w.socket.noDelay
  shutdownSend := w.socket.shutdownSend
  endPoint := w.socket.endPoint
  congestion := w.congestion
  forks := w.log.filterMap TcpStep.copied

section SendDataPacket

variable (hassumed : ∀ w w' : TcpState γ, w'.congestion = w.congestion → C.assumed w' → C.assumed w)
  {K : Sender γ → List TcpSegment → SequenceNumber32 → Prop}

include hassumed

omit [TcpCongestion γ] in
theorem keeps_update {f : TcpState γ → TcpState γ} (hsender : ∀ w, sender (f w) = sender w)
    (hsent : ∀ w, (f w).sent = w.sent) (hmark : ∀ w, (f w).socket.highTxMark = w.socket.highTxMark) :
    C.Keeps (fun w => K (sender w) w.sent w.socket.highTxMark) (Prog.update f) := by
  refine .update (fun w => hassumed w (f w) (congrArg Sender.congestion (hsender w))) fun w _ hK => ?_
  rw [hsender, hsent, hmark]
  exact hK

omit [TcpCongestion γ] in
theorem keeps_move (state : TcpStates) :
    C.Keeps (fun w => K (sender w) w.sent w.socket.highTxMark) (move state) := by
  refine Setting.Keeps.bind (keeps_update hassumed (fun w => ?_) (fun _ => rfl) fun _ => rfl) fun _ => ?_
  · exact congrArg (Sender.mk _ _ _ _ _ _ _ _) (w.forks_record fun _ => rfl)
  · exact keeps_update hassumed (fun _ => rfl) (fun _ => rfl) fun _ => rfl

omit [TcpCongestion γ] in
/-- `SendDataPacket` sends the bytes that it copies, and what decides how much is sent stays. -/
theorem sendDataPacket_triple {P : Sender γ → Prop} {seq m : SequenceNumber32} {maxSize : UInt32} {l : List TcpSegment}
    (withAck : Bool)
    (hpacket : ∀ w, P (sender w) → w.socket.txBuffer.copyFromSequence maxSize seq = none → C.mayStop .nullPacket w)
    (hpoint : ∀ w, P (sender w) → w.socket.endPoint = none → C.mayStop .nullEndPoint w) :
    C.Triple (fun w => P (sender w) ∧ w.sent = l ∧ w.socket.highTxMark = m) (sendDataPacket seq maxSize withAck)
      fun sz w => P (sender w) ∧ ∃ g : TcpSegment, g.header.sequenceNumber = seq ∧
        w.socket.txBuffer.copyFromSequence maxSize seq = some g.payload ∧ sz = packetSize g.payload ∧
        w.sent = l ++ [g] ∧ w.socket.highTxMark = maxSequence (seq.plus sz) m := by
  refine .read fun s => ?_
  cases hcopy : s.txBuffer.copyFromSequence maxSize seq with
  | none =>
    refine .stop fun w hw => hpacket w hw.2.1 ?_
    rw [hw.1, hcopy]
  | some p =>
    -- what holds before the packet is sent, and after
    let K (c : Sender γ) (sent : List TcpSegment) (mark : SequenceNumber32) : Prop :=
      P c ∧ c.txBuffer.copyFromSequence maxSize seq = some p ∧ sent = l ∧ mark = m
    let K' (c : Sender γ) (sent : List TcpSegment) (mark : SequenceNumber32) : Prop :=
      P c ∧ c.txBuffer.copyFromSequence maxSize seq = some p ∧
        (∃ g : TcpSegment, g.header.sequenceNumber = seq ∧ g.payload = p ∧ sent = l ++ [g]) ∧ mark = m
    refine Setting.Triple.pre (P := fun w => K (sender w) w.sent w.socket.highTxMark) ?_ fun w hw => ?_
    swap
    · refine ⟨hw.2.1, ?_, hw.2.2⟩
      rw [← hcopy, ← hw.1]
      rfl
    refine .bind (Setting.Keeps.when (keeps_move hassumed _)) fun _ => ?_
    refine .bind (Setting.Keeps.when (keeps_move hassumed _)) fun _ => .read fun s' => ?_
    cases hpoint' : s'.endPoint with
    | none =>
      refine .stop fun w hw => hpoint w hw.2.1 ?_
      rw [hw.1, hpoint']
    | some e =>
      refine .bind (R := fun _ w => K (sender w) w.sent w.socket.highTxMark) ?_ fun _ => ?_
      · refine Setting.Triple.pre ?_ fun w hw => hw.2
        refine keeps_update hassumed (fun w => ?_) (fun w => ?_) fun w => ?_ <;> dsimp only <;> split_ifs <;> rfl
      refine .bind (R := fun _ w => K' (sender w) w.sent w.socket.highTxMark) ?_ fun _ => ?_
      · refine .update (fun w => hassumed w _ rfl) fun w _ hw => ?_
        obtain ⟨hP, hcopied, hsent, hmark⟩ := hw
        exact ⟨hP, hcopied, ⟨_, rfl, rfl, congrArg (· ++ [_]) hsent⟩, hmark⟩
      refine .read fun now => ?_
      refine .bind (R := fun _ w => K' (sender w) w.sent w.socket.highTxMark) ?_ fun _ => ?_
      · refine Setting.Triple.pre ?_ fun w hw => hw.2
        exact keeps_update hassumed (fun _ => rfl) (fun _ => rfl) fun _ => rfl
      refine .bind (Setting.Keeps.when (keeps_update hassumed (fun _ => rfl) (fun _ => rfl) fun _ => rfl)) fun _ => ?_
      refine .bind (R := fun _ w => P (sender w) ∧ ∃ g : TcpSegment, g.header.sequenceNumber = seq ∧
        w.socket.txBuffer.copyFromSequence maxSize seq = some g.payload ∧ packetSize p = packetSize g.payload ∧
        w.sent = l ++ [g] ∧ w.socket.highTxMark = maxSequence (seq.plus (packetSize p)) m) ?_ fun _ => .pure fun _ => id
      refine .update (fun w => hassumed w _ rfl) fun w _ hw => ?_
      obtain ⟨hP, hcopied, ⟨g, hseq, rfl, hsent⟩, hmark⟩ := hw
      exact ⟨hP, g, hseq, hcopied, rfl, hsent, congrArg (maxSequence _) hmark⟩

end SendDataPacket

end TcpSocketBase

end Ns3
