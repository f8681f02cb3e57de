import LeoNdn.LpReliability

/-!
The sending side of a link service with fragmentation, reliability and congestion
marking: network packets, retransmissions and idle packets all go through
`sendLpPacket`, which adds Acks and a congestion mark.
-/

namespace LeoNdn.LinkSending

open LeoNdn.Tlv LeoNdn.TlvEncoding LeoNdn.LinkService LeoNdn.LpFragmenter LeoNdn.OrderedMaps
open LeoNdn.LpReliability (Reliability Failure UnackedFrag NetPkt piggyback assignTxSequence deleteUnackedFrag handleOutgoing
  findLostLpPackets giveUp onLpPacketAcknowledged readAcks)

section Model

/-- The interval after the n-th mark comes out of floating point and is left open. -/
structure Options extends LpReliability.Options where
  nMaxFragments : ℕ
  baseCongestionMarkingInterval : ℤ
  markingInterval : ℕ → ℤ
  defaultCongestionThreshold : ℕ

/-- What the transport and the clock show; a negative length or capacity is none. -/
structure Reading where
  sendQueueLength : Option ℕ
  sendQueueCapacity : Option ℕ
  now : ℤ

structure Marking where
  m_nextMarkTime : ℤ
  m_lastMarkTime : ℤ
  m_nMarkedSinceInMarkingState : ℕ

/-- `time::steady_clock::TimePoint::max()` -/
def maxTime : ℤ := 9223372036854775807

def congestionThreshold (options : Options) (reading : Reading) : ℕ :=
  match reading.sendQueueCapacity with
  | none => options.defaultCongestionThreshold
  | some sendQueueCapacity => min options.defaultCongestionThreshold (sendQueueCapacity / 2)

def isMarkTime (options : Options) (now : ℤ) (marking : Marking) : Bool :=
  now ≥ marking.m_nextMarkTime || now ≥ marking.m_lastMarkTime + options.baseCongestionMarkingInterval

def congestionMarkField (congestionMark : ℕ) : Block := makeNonNegativeIntegerBlock 832 congestionMark

def checkCongestionLevel (options : Options) (reading : Reading) (pkt : LpPacket) (marking : Marking) : LpPacket × Marking :=
  match reading.sendQueueLength with
  | none => (pkt, marking)
  | some sendQueueLength =>
    if sendQueueLength > congestionThreshold options reading then
      if isMarkTime options reading.now marking then
        let nMarked := marking.m_nMarkedSinceInMarkingState + 1
        let nextMarkTime := if marking.m_nMarkedSinceInMarkingState = 0 then reading.now else marking.m_nextMarkTime
        (set pkt (congestionMarkField 1), ⟨nextMarkTime + options.markingInterval nMarked, reading.now, nMarked⟩)
      else (pkt, marking)
    else if marking.m_nextMarkTime ≠ maxTime then (pkt, ⟨maxTime, marking.m_lastMarkTime, 0⟩)
    else (pkt, marking)

def marks (options : Options) (reading : Reading) (marking : Marking) : Bool :=
  reading.sendQueueLength.any (fun sendQueueLength => sendQueueLength > congestionThreshold options reading) &&
    isMarkTime options reading.now marking

/-- A packet that `sendLpPacket` is called with, the Acks that are pending then, and whether it is marked. -/
structure Sending where
  pkt : LpPacket
  pending : List ℕ
  marks : Bool

def Sending.out (mtu : Option ℕ) (sending : Sending) : LpPacket :=
  let pkt := (piggyback mtu sending.pkt sending.pending).1
  if sending.marks then set pkt (congestionMarkField 1) else pkt

/-- The last field is not in the source: the calls of `sendLpPacket` so far. -/
structure Link where
  reliability : Reliability
  m_lastSeqNo : ℕ
  marking : Marking
  nFragmentationErrors : ℕ
  nCongestionMarked : ℕ
  nOutOverMtu : ℕ
  transport : List LpPacket
  sendings : List Sending

def initial : Link :=
  ⟨LpReliability.initial, sequenceLimit - 2, ⟨maxTime, -9223372036854775808, 0⟩, 0, 0, 0, [], []⟩

/-- A packet with a TxSequence or with Acks has a header, so that it is not sent bare. -/
def encodedSize (pkt : LpPacket) : ℕ := size (makeBlock 100 pkt.elements)

def isOverMtu (mtu : Option ℕ) (pkt : LpPacket) : Bool := mtu.any (fun mtu => encodedSize pkt > mtu)

/-- The transport and the clock are read at each call. -/
structure Context where
  options : Options
  readings : ℕ → Reading

variable (ctx : Context)

/-- `sendLpPacket`, given what `piggyback` leaves of the reliability. -/
def passOn (pkt : LpPacket) (reliability : Reliability) (link : Link) : Link :=
  let reading := ctx.readings link.sendings.length
  let acked := (piggyback ctx.options.mtu pkt link.reliability.ackQueue).1
  let (out, marking) := checkCongestionLevel ctx.options reading acked link.marking
  let isMarked := marks ctx.options reading link.marking
  { link with
    reliability := reliability
    marking := marking
    nCongestionMarked := if isMarked then link.nCongestionMarked + 1 else link.nCongestionMarked
    nOutOverMtu := if isOverMtu ctx.options.mtu out then link.nOutOverMtu + 1 else link.nOutOverMtu
    transport := if isOverMtu ctx.options.mtu out then link.transport else link.transport ++ [out]
    sendings := link.sendings ++ [⟨pkt, link.reliability.ackQueue, isMarked⟩] }

def sendLpPacket (netPkt fragment : ℕ) (pkt : LpPacket) (link : Link) : Link :=
  passOn ctx pkt (LpReliability.sendLpPacket ctx.options.toOptions netPkt fragment pkt link.reliability) link

def requestIdlePacket (link : Link) : Link :=
  passOn ctx ⟨[]⟩
    { link.reliability with ackQueue := (piggyback ctx.options.mtu ⟨[]⟩ link.reliability.ackQueue).2 } link

def sendLpPackets (netPkt : ℕ) : ℕ → List LpPacket → Link → Link
  | _, [], link => link
  | fragment, frag :: frags, link => sendLpPackets netPkt (fragment + 1) frags (sendLpPacket ctx netPkt fragment frag link)

def sendFragments (frags : List LpPacket) (pkt : LpPacket) (isInterest : Bool) (link : Link) : Except Failure Link :=
  if (frags.headD ⟨[]⟩).has 80 then do
    let (frags, s) ← handleOutgoing frags pkt isInterest link.reliability
    .ok (sendLpPackets ctx link.reliability.netPkts.length 0 frags { link with reliability := s })
  else .ok link

def Options.sendOptions (options : Options) : SendOptions := ⟨true, true, true, options.nMaxFragments⟩

/-- A packet that is not a network packet fails an assertion. -/
def sendNetPacket (pkt : LpPacket) (isInterest : Bool) (link : Link) : Except Failure Link :=
  match makeFragments ctx.options.sendOptions ctx.options.mtu pkt with
  | .error _ => .error .assertionFailed
  | .ok none => .ok { link with nFragmentationErrors := link.nFragmentationErrors + 1 }
  | .ok (some frags) =>
    if frags.length > 1 then
      let (frags, lastSeqNo) := assignSequences link.m_lastSeqNo frags
      sendFragments ctx frags pkt isInterest { link with m_lastSeqNo := lastSeqNo }
    else sendFragments ctx frags pkt isInterest link

def retransmit (txSeq : ℕ) (txFrag : UnackedFrag) (netPkt : NetPkt) (link : Link) : Except Failure (List ℕ × Link) := do
  let (newTxSeq, pkt, s) ← assignTxSequence txFrag.pkt link.reliability
  if txSeq ∉ netPkt.unackedFrags then .error .assertionFailed
  else do
    let s ← deleteUnackedFrag
      { s with
        unackedFrags := emplace s.unackedFrags newTxSeq
          ⟨pkt, txFrag.retxCount + 1, 0, txFrag.netPkt, txFrag.fragment, s.nTxSequences - 1⟩
        netPkts := s.netPkts.set txFrag.netPkt
          { netPkt with
            didRetx := true
            unackedFrags := netPkt.unackedFrags.replace txSeq newTxSeq } } txSeq
    .ok ([txSeq], sendLpPacket ctx txFrag.netPkt txFrag.fragment pkt { link with reliability := s })

def onLpPacketLost (txSeq : ℕ) (link : Link) : Except Failure (List ℕ × Link) :=
  match lookup link.reliability.unackedFrags txSeq with
  | none => .error .assertionFailed
  | some txFrag =>
    match link.reliability.netPkts[txFrag.netPkt]? with
    | none => .error .assertionFailed
    | some netPkt =>
      if txFrag.retxCount ≥ ctx.options.maxRetx then do
        let (removed, s) ← giveUp txSeq netPkt link.reliability
        .ok (removed, { link with reliability := s })
      else retransmit ctx txSeq txFrag netPkt link

def resendLost : List ℕ → List ℕ → Link → Except Failure Link
  | [], _, link => .ok link
  | txSeq :: lost, removed, link =>
    if txSeq ∈ removed then resendLost lost removed link
    else do
      let (removedThisTxSeq, link) ← onLpPacketLost ctx txSeq link
      resendLost lost (removed ++ removedThisTxSeq) link

def processAck (link : Link) (ackSeq : ℕ) : Except Failure Link :=
  if (lookup link.reliability.unackedFrags ackSeq).isNone then .ok link
  else do
    let (lost, s) := findLostLpPackets ctx.options.toOptions ackSeq link.reliability
    let s ← onLpPacketAcknowledged ackSeq s
    resendLost ctx lost [] { link with reliability := s }

def processIncomingPacket (pkt : LpPacket) (link : Link) : Except Failure (Option Exception × Link) :=
  match readAcks pkt with
  | .error e => .ok (some e, link)
  | .ok acks => do
    let link ← acks.foldlM (processAck ctx) link
    if pkt.has 80 ∧ pkt.has 840 then
      match pkt.get 840 decodeUint64 with
      | .error e => .ok (some e, link)
      | .ok txSeq =>
        .ok (none, { link with reliability := { link.reliability with ackQueue := link.reliability.ackQueue ++ [txSeq] } })
    else .ok (none, link)

/-- The loop of the idle Ack timer, for so many rounds. -/
def sendIdlePackets : ℕ → Link → Option Link
  | 0, link => if link.reliability.ackQueue = [] then some link else none
  | rounds + 1, link =>
    if link.reliability.ackQueue = [] then some link else sendIdlePackets rounds (requestIdlePacket ctx link)

/-- Timers may run at any time. -/
inductive Step : Link → Link → Prop
  | sendNetPacket {link link' : Link} (p : NetPacket) (isInterest : Bool)
      (h : sendNetPacket ctx p.pkt isInterest link = .ok link') : Step link link'
  | receive {link link' : Link} {exception : Option Exception} (pkt : LpPacket)
      (h : processIncomingPacket ctx pkt link = .ok (exception, link')) : Step link link'
  | rtoTimer {link link' : Link} {removed : List ℕ} (txSeq : ℕ) (h : onLpPacketLost ctx txSeq link = .ok (removed, link')) :
      Step link link'
  | idleAckTimer {link link' : Link} (rounds : ℕ) (h : sendIdlePackets ctx rounds link = some link') : Step link link'

inductive Reachable : Link → Prop
  | initial : Reachable initial
  | step {link link' : Link} (h : Reachable link) (hstep : Step ctx link link') : Reachable link'

end Model

end LeoNdn.LinkSending
