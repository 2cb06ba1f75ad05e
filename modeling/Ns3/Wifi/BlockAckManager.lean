import Ns3.Wifi.BlockAckHeader
import Ns3.Lib.Machine
import Ns3.Lib.Store

/-!
# Originators of block acks

`BlockAckManager` (`wifi/model/block-ack-manager.cc`) keeps the packets that were sent under a block ack agreement in a
queue for each recipient and TID, and in `m_retryPackets` iterators to those that have to be sent again. Here an
iterator is the number of the list node that it points to; what is done with an iterator whose node is gone, and with
the front of an empty list, is undefined. A handler takes what it asks of other objects as arguments: the time, the
number of packets in the queue of `EdcaTxopN`, the next sequence number. The inactivity timer is left out.
-/

namespace Ns3

open Lib

/-- The acknowledgement policies that `BlockAckManager` sets. -/
inductive QosAckPolicy where
  | normalAck | blockAck
  deriving DecidableEq

/-- What `BlockAckManager` uses of `WifiMacHeader`, of QoS data. -/
structure WifiMacHeader where
  addr1 : Mac48Address
  qosTid : ℕ
  /-- `m_seqSeq`. -/
  sequenceNumber : ℕ
  /-- `m_seqFrag`. -/
  fragmentNumber : ℕ
  /-- `m_ctrlRetry`. -/
  retry : Bool
  qosAckPolicy : QosAckPolicy
  deriving DecidableEq

/-- `OriginatorBlockAckAgreement::State`. -/
inductive OriginatorState where
  | pending | established | inactive | unsuccessful
  deriving DecidableEq

/-- An agreement, as its originator sees it. -/
structure OriginatorBlockAckAgreement where
  peer : Mac48Address
  tid : ℕ
  state : OriginatorState
  startingSeq : ℕ
  bufferSize : ℕ
  timeout : ℕ
  amsduSupported : Bool
  /-- `m_blockAckPolicy` is that of an immediate block ack. -/
  immediate : Bool
  sentMpdus : ℕ
  needBlockAckReq : Bool

namespace OriginatorBlockAckAgreement

variable (a : OriginatorBlockAckAgreement)

/-- The state; counters are reset if it is inactive. -/
def setState (state : OriginatorState) : OriginatorBlockAckAgreement :=
  if state = .inactive then { a with state, needBlockAckReq := false, sentMpdus := 0 } else { a with state }

/-- The number to begin with. -/
def setStartingSequence (seq : ℕ) : OriginatorBlockAckAgreement :=
  { a with startingSeq := seq }

/-- A packet was sent; a request is due when the buffer or the bitmap is full. -/
def notifyMpduTransmission (nextSeqNumber : ℕ) : OriginatorBlockAckAgreement :=
  let sentMpdus := (a.sentMpdus + 1) % 2 ^ 16
  let delta := Ring.ahead 4096 a.startingSeq nextSeqNumber
  let min := if a.bufferSize < 64 then a.bufferSize else 64
  { a with sentMpdus, needBlockAckReq := a.needBlockAckReq || min ≤ delta || sentMpdus = a.bufferSize }

/-- Nothing was sent since the last request. -/
def completeExchange : OriginatorBlockAckAgreement :=
  { a with needBlockAckReq := false, sentMpdus := 0 }

end OriginatorBlockAckAgreement

/-- `Bar`: a block ack request, of the given type and starting sequence, to be sent. -/
structure Bar where
  /-- The type in `bar`. -/
  type : BlockAckType
  /-- The starting sequence in `bar`. -/
  startingSeq : ℕ
  recipient : Mac48Address
  tid : ℕ
  immediate : Bool

/-- What of an ADDBA request or response the manager uses. -/
structure AddBaHeader where
  tid : ℕ
  /-- `GetStartingSequence`, of a request. -/
  startingSequence : ℕ
  /-- `GetBufferSize`, of a response. -/
  bufferSize : ℕ
  timeout : ℕ
  amsduSupported : Bool
  /-- `IsImmediateBlockAck`. -/
  immediate : Bool

/-- A recipient and a TID. -/
abbrev AgreementKey := Mac48Address × ℕ

/-- `BlockAckManager::Item`, with the number of the list node that holds it. -/
structure Item where
  node : ℕ
  packet : List UInt8
  hdr : WifiMacHeader
  timestamp : ℕ
  deriving DecidableEq

/-- The agreement that a packet belongs to. -/
def Item.key (i : Item) : AgreementKey := (i.hdr.addr1, i.hdr.qosTid)

/-- A value of `m_agreements`: an agreement and its `PacketQueue`. -/
structure AgreementQueue where
  agreement : OriginatorBlockAckAgreement
  queue : List Item

/-- The agreements, the packets to send again, and the requests. -/
structure BlockAckManager where
  agreements : Store AgreementKey AgreementQueue
  /-- `m_retryPackets`: the nodes that the iterators point to. -/
  retryPackets : List ℕ
  bars : List Bar
  blockAckThreshold : ℕ
  blockAckType : BlockAckType
  maxDelay : ℕ
  /-- The number of the next list node. -/
  nextNode : ℕ

/-- Why a handler does not come to an end. -/
inductive BlockAckFault where
  /-- An assertion fails, there is a fatal error, or a loop does not end. -/
  | stopped
  /-- An iterator to a node that is gone is used, or the front of an empty list. -/
  | undefined

namespace BlockAckManager

/-- A manager without agreements. -/
def new (blockAckThreshold : ℕ) (blockAckType : BlockAckType) (maxDelay : ℕ) : BlockAckManager :=
  ⟨∅, [], [], blockAckThreshold, blockAckType, maxDelay, 0⟩

variable (m : BlockAckManager)

/-- All packets that are stored. -/
def items : List Item := m.agreements.entries.flatMap fun x => x.2.queue

/-- What an iterator points to. -/
def deref (node : ℕ) : Except BlockAckFault Item :=
  match m.items.find? fun i => i.node = node with
  | none => throw .undefined
  | some i => pure i

/-- What the iterators in `m_retryPackets` point to. -/
def retryItems : Except BlockAckFault (List Item) := m.retryPackets.mapM m.deref

variable (key : AgreementKey)

/-- `m_agreements[key] = …`. -/
def setAgreement (x : AgreementQueue) : BlockAckManager :=
  { m with agreements := m.agreements.insert key x }

/-- An iterator that should not be `m_agreements.end ()`. -/
def findAgreement : Except BlockAckFault AgreementQueue :=
  match m.agreements.lookup key with
  | none => throw .stopped
  | some x => pure x

/-- There is an agreement in the state. -/
def existsAgreementInState (state : OriginatorState) : Bool :=
  (m.agreements.lookup key).any fun x => x.agreement.state = state

/-- A request makes an agreement that is pending. -/
def createAgreement (reqHdr : AddBaHeader) (recipient : Mac48Address) : BlockAckManager :=
  let key := (recipient, reqHdr.tid)
  if (m.agreements.lookup key).isSome then m
  else m.setAgreement key ⟨⟨recipient, reqHdr.tid, .pending, reqHdr.startingSequence, 0, reqHdr.timeout,
    reqHdr.amsduSupported, reqHdr.immediate, 0, false⟩, []⟩

/-- `DestroyAgreement` and `TearDownBlockAck`. -/
def destroyAgreement (recipient : Mac48Address) (tid : ℕ) :
    Except BlockAckFault BlockAckManager := do
  if (m.agreements.lookup (recipient, tid)).isSome then
    let retry ← m.retryItems
    pure { m with
      agreements := m.agreements.erase (recipient, tid)
      retryPackets := (retry.filter fun i => ¬ (i.hdr.addr1 = recipient ∧ i.hdr.qosTid = tid)).map Item.node
      bars := m.bars.filter fun bar => ¬ (bar.recipient = recipient ∧ bar.tid = tid) }
  else pure m

/-- A response says how large the buffer is. -/
def updateAgreement (respHdr : AddBaHeader) (recipient : Mac48Address) : BlockAckManager :=
  match m.agreements.lookup (recipient, respHdr.tid) with
  | none => m
  | some x =>
    let agreement := { x.agreement with
      bufferSize := respHdr.bufferSize + 1
      timeout := respHdr.timeout
      amsduSupported := respHdr.amsduSupported
      immediate := respHdr.immediate }
    m.setAgreement (recipient, respHdr.tid) { x with agreement := agreement.setState .established }

/-- The packet is kept until it is acknowledged. -/
def storePacket (packet : List UInt8) (hdr : WifiMacHeader) (tStamp : ℕ) :
    Except BlockAckFault BlockAckManager := do
  let item : Item := ⟨m.nextNode, packet, hdr, tStamp⟩
  let x ← m.findAgreement item.key
  pure { m.setAgreement item.key { x with queue := x.queue ++ [item] } with nextNode := m.nextNode + 1 }

/-- The loop of `GetNBufferedPackets`, where the inner one may be at a sequence number. -/
def countPackets (currentSeq : Option ℕ) : List Item → ℕ
  | [] => 0
  | i :: queue =>
    if currentSeq = some i.hdr.sequenceNumber then countPackets currentSeq queue
    else countPackets (some i.hdr.sequenceNumber) queue + 1

/-- How many packets, fragments joined, are kept. -/
def getNBufferedPackets : ℕ :=
  match m.agreements.lookup key with
  | none => 0
  | some x => countPackets none x.queue

/-- The loop of `GetNRetryNeededPackets`, where the inner one may be at a sequence number. At a packet of another
agreement it stays where it is. -/
def countRetry (key : AgreementKey) (currentSeq : Option ℕ) : List Item → Except BlockAckFault ℕ
  | [] => pure 0
  | i :: retry =>
    if currentSeq = some i.hdr.sequenceNumber then countRetry key currentSeq retry
    else if i.key = key then (· + 1) <$> countRetry key (some i.hdr.sequenceNumber) retry
    else throw .stopped

/-- How many packets, fragments joined, are to be sent again. -/
def getNRetryNeededPackets : Except BlockAckFault ℕ :=
  if (m.agreements.lookup key).isSome then do countRetry key none (← m.retryItems) else pure 0

/-- `GetSeqNumOfNextRetryPacket`. Its loop stays at the first packet. -/
def getSeqNumOfNextRetryPacket : Except BlockAckFault ℕ :=
  match m.retryPackets with
  | [] => pure 4096
  | node :: _ => do
    let i ← m.deref node
    if i.key = key then pure i.hdr.sequenceNumber else throw .stopped

/-- The agreement holds, from the number on. -/
def notifyAgreementEstablished (startingSeq : ℕ) :
    Except BlockAckFault BlockAckManager := do
  let x ← m.findAgreement key
  pure (m.setAgreement key { x with agreement := (x.agreement.setState .established).setStartingSequence startingSeq })

/-- The agreement was refused. -/
def notifyAgreementUnsuccessful : Except BlockAckFault BlockAckManager := do
  let x ← m.findAgreement key
  pure (m.setAgreement key { x with agreement := x.agreement.setState .unsuccessful })

/-- `SwitchToBlockAckIfNeeded`, with the number of packets in the queue. -/
def switchToBlockAckIfNeeded (startingSeq queued : ℕ) :
    Except BlockAckFault (Bool × BlockAckManager) := do
  if m.existsAgreementInState key .pending then throw .stopped
  else if !m.existsAgreementInState key .unsuccessful && (m.agreements.lookup key).isSome &&
      queued + m.getNBufferedPackets key ≥ m.blockAckThreshold then
    pure (true, ← m.notifyAgreementEstablished key startingSeq)
  else pure (false, m)

/-- The life of a packet is over. -/
def expired (now : ℕ) (i : Item) : Bool := i.timestamp + m.maxDelay ≤ now

/-- The loop of `CleanupBuffers` over `m_retryPackets`, for a packet of an agreement. When it has erased an iterator, it
goes on from it. -/
def removeRetry (agreement : OriginatorBlockAckAgreement) (i : Item) :
    Except BlockAckFault Unit := do
  let retry ← m.retryItems
  if retry.any fun r => r.hdr.addr1 = agreement.peer && r.hdr.qosTid = agreement.tid &&
      r.hdr.sequenceNumber = i.hdr.sequenceNumber then throw .undefined
  else pure ()

/-- What `CleanupBuffers` does with an agreement. Where all packets have expired, `end` is the first of them. -/
def cleanupAgreement (now : ℕ) (key : AgreementKey) : Except BlockAckFault BlockAckManager := do
  match m.agreements.lookup key with
  | none => pure m
  | some x =>
    match x.queue with
    | [] => pure m
    | first :: _ =>
      let gone := x.queue.takeWhile (m.expired now)
      gone.forM (m.removeRetry x.agreement)
      match x.queue.drop gone.length with
      | [] => pure (m.setAgreement key
          { x with agreement := x.agreement.setStartingSequence first.hdr.sequenceNumber })
      | stop :: rest => pure (m.setAgreement key
          ⟨x.agreement.setStartingSequence stop.hdr.sequenceNumber, stop :: rest⟩)

/-- `CleanupBuffers`. The order of the agreements makes no difference. -/
def cleanupBuffers (now : ℕ) : Except BlockAckFault BlockAckManager :=
  m.agreements.keys.foldlM (fun m key => m.cleanupAgreement now key) m

/-- `list::erase` of a node in the queue of an agreement. -/
def eraseNode (node : ℕ) : Except BlockAckFault BlockAckManager := do
  match m.agreements.lookup key with
  | none => throw .undefined
  | some x => pure (m.setAgreement key { x with queue := x.queue.filter fun i => i.node ≠ node })

/-- The condition in `GetNextPacket` for a packet to be sent with the policy of a block ack. -/
def usesBlockAck (i : Item) (queued : ℕ) : Except BlockAckFault (Bool × BlockAckManager) :=
  if m.existsAgreementInState i.key .established then pure (true, m)
  else m.switchToBlockAckIfNeeded i.key i.hdr.sequenceNumber queued

/-- What `GetNextPacket` does with the packet that it has taken from the retry list: with its header, the policy is set,
and for a normal ack it is erased from its queue. -/
def handOver (node : ℕ) (i : Item) (queued : ℕ) :
    Except BlockAckFault (Option (Item × WifiMacHeader) × BlockAckManager) := do
  let (blockAck, m) ← m.usesBlockAck i queued
  if blockAck then pure (some (i, { i.hdr with retry := true, qosAckPolicy := .blockAck }), m)
  else do
    let m ← m.eraseNode i.key node
    pure (some (i, { i.hdr with retry := true, qosAckPolicy := .normalAck }), m)

/-- `GetNextPacket`: the packet and its header. -/
def getNextPacket (now queued : ℕ) :
    Except BlockAckFault (Option (Item × WifiMacHeader) × BlockAckManager) := do
  if m.retryPackets = [] then pure (none, m)
  else
    let m ← m.cleanupBuffers now
    match m.retryPackets with
    | [] => throw .undefined
    | node :: retryPackets =>
      let i ← m.deref node
      { m with retryPackets }.handOver node i queued

/-- The loop of `NotifyGotBlockAck` for a compressed block ack, where the inner one may be at a sequence number: the
packets that stay in the queue. -/
def compressedLoop (blockAck : CtrlBAckResponseHeader) (currentSeq : Option ℕ) : List Item → List Item
  | [] => []
  | i :: queue =>
    if currentSeq = some i.hdr.sequenceNumber then compressedLoop blockAck currentSeq queue
    else if blockAck.isPacketReceived i.hdr.sequenceNumber then
      compressedLoop blockAck (some i.hdr.sequenceNumber) queue
    else i :: compressedLoop blockAck none queue

/-- The loops of `NotifyGotBlockAck`: the packets that stay in the queue. -/
def notReceived (blockAck : CtrlBAckResponseHeader) (queue : List Item) : List Item :=
  if blockAck.compressed then compressedLoop blockAck none queue
  else queue.filter fun i => !blockAck.isFragmentReceived i.hdr.sequenceNumber i.hdr.fragmentNumber

/-- What the loops of `NotifyGotBlockAck` leave, for the packets that stay in the queue of an agreement: the first of
them is the first lost. -/
def afterBlockAck (agreement : OriginatorBlockAckAgreement)
    (queue : List Item) : BlockAckManager :=
  let agreement :=
    match queue with
    | [] => agreement
    | i :: _ => agreement.setStartingSequence i.hdr.sequenceNumber
  { m.setAgreement key ⟨agreement, queue⟩ with retryPackets := m.retryPackets ++ queue.map Item.node }

/-- `SetState (INACTIVE)` for an agreement. -/
def setInactive : BlockAckManager :=
  match m.agreements.lookup key with
  | none => m
  | some x => m.setAgreement key { x with agreement := x.agreement.setState .inactive }

/-- `NotifyGotBlockAck`, with the next sequence number and the number of packets in the queue. -/
def notifyGotBlockAck (blockAck : CtrlBAckResponseHeader) (recipient : Mac48Address)
    (newSeq queued : ℕ) : Except BlockAckFault BlockAckManager := do
  if blockAck.multiTid then throw .stopped
  else
    let key := (recipient, blockAck.tidInfo)
    match m.agreements.lookup key with
    | none => pure m
    | some x =>
      if x.agreement.state ≠ .established then pure m
      else
        let queue := notReceived blockAck x.queue
        let startingSeq := (queue.head?.map fun i => i.hdr.sequenceNumber).getD newSeq
        let (switched, m) ← (m.afterBlockAck key x.agreement queue).switchToBlockAckIfNeeded key startingSeq queued
        if switched then pure m else pure (m.setInactive key)

/-- The condition in `ScheduleBlockAckReqIfNeeded` for a request. -/
def needsBar (agreement : OriginatorBlockAckAgreement) (queued : ℕ) :
    Except BlockAckFault Bool :=
  if agreement.needBlockAckReq then pure true
  else do pure (decide ((← m.getNRetryNeededPackets key) = 0 ∧ queued = 0))

/-- `ScheduleBlockAckReqIfNeeded`: the request, and the agreement. -/
def scheduleBlockAckReqIfNeeded (agreement : OriginatorBlockAckAgreement)
    (queued : ℕ) : Except BlockAckFault (Option Bar × OriginatorBlockAckAgreement) := do
  if ← m.needsBar key agreement queued then
    let agreement := agreement.completeExchange
    if m.blockAckType = .multiTidBlockAck then throw .stopped
    else pure (some ⟨m.blockAckType, agreement.startingSeq, key.1, key.2, agreement.immediate⟩, agreement)
  else pure (none, agreement)

/-- `nextSeq` in `NotifyMpduTransmission`. -/
def nextSeq (nextSeqNumber : ℕ) : Except BlockAckFault ℕ := do
  if (← m.getNRetryNeededPackets key) > 0 then m.getSeqNumOfNextRetryPacket key else pure nextSeqNumber

/-- `NotifyMpduTransmission`, with the number of packets in the queue. -/
def notifyMpduTransmission (m : BlockAckManager) (key : AgreementKey) (nextSeqNumber queued : ℕ) :
    Except BlockAckFault BlockAckManager := do
  let x ← m.findAgreement key
  let nextSeq ← m.nextSeq key nextSeqNumber
  let (bar, agreement) ← m.scheduleBlockAckReqIfNeeded key (x.agreement.notifyMpduTransmission nextSeq) queued
  pure { m.setAgreement key { x with agreement } with bars := m.bars ++ bar.toList }

/-- What the manager is asked to do. -/
inductive Event where
  | createAgreement (reqHdr : AddBaHeader) (recipient : Mac48Address)
  | updateAgreement (respHdr : AddBaHeader) (recipient : Mac48Address)
  | notifyAgreementUnsuccessful (key : AgreementKey)
  | storePacket (packet : List UInt8) (hdr : WifiMacHeader) (tStamp : ℕ)
  /-- `GetNextPacket`. -/
  | getNextPacket (now queued : ℕ)
  /-- `HasBar`. -/
  | hasBar
  | notifyGotBlockAck (blockAck : CtrlBAckResponseHeader) (recipient : Mac48Address) (newSeq queued : ℕ)
  | notifyMpduTransmission (key : AgreementKey) (nextSeqNumber queued : ℕ)
  | switchToBlockAckIfNeeded (key : AgreementKey) (startingSeq queued : ℕ)
  | tearDownBlockAck (recipient : Mac48Address) (tid : ℕ)

/-- The handlers. -/
def handle : Event → Except BlockAckFault BlockAckManager
  | .createAgreement reqHdr recipient => pure (m.createAgreement reqHdr recipient)
  | .updateAgreement respHdr recipient => pure (m.updateAgreement respHdr recipient)
  | .notifyAgreementUnsuccessful key => m.notifyAgreementUnsuccessful key
  | .storePacket packet hdr tStamp => m.storePacket packet hdr tStamp
  | .getNextPacket now queued => Prod.snd <$> m.getNextPacket now queued
  | .hasBar => pure { m with bars := m.bars.tail }
  | .notifyGotBlockAck blockAck recipient newSeq queued => m.notifyGotBlockAck blockAck recipient newSeq queued
  | .notifyMpduTransmission key nextSeqNumber queued => m.notifyMpduTransmission key nextSeqNumber queued
  | .switchToBlockAckIfNeeded key startingSeq queued => Prod.snd <$> m.switchToBlockAckIfNeeded key startingSeq queued
  | .tearDownBlockAck recipient tid => m.destroyAgreement recipient tid

/-- The manager; there is no state after what is undefined. -/
def machine : Machine (Option BlockAckManager) Event where
  enabled s _ := s.isSome = true
  exec s e := s.bind fun m =>
    match m.handle e with
    | .ok m' => some (some m')
    | .error .undefined => some none
    | .error .stopped => none

instance (s : Option BlockAckManager) (e : Event) : Decidable (machine.enabled s e) :=
  inferInstanceAs (Decidable (_ = _))

end BlockAckManager

end Ns3
