import LeoNdn.LpFragmenter
import LeoNdn.OrderedMaps

/-!
Reliability of a link: the fragments that are sent wait for acknowledgements. A
lost one is sent again under a new TxSequence number; one that is lost too often
makes the link give its network packet up.
-/

namespace LeoNdn.LpReliability

open LeoNdn.Tlv LeoNdn.TlvEncoding LeoNdn.LinkService LeoNdn.LpFragmenter LeoNdn.OrderedMaps

section Model

/-- The MTU is that of the transport, if it has a limit. -/
structure Options where
  maxRetx : ℕ
  seqNumLossThreshold : ℕ
  mtu : Option ℕ

/-- The last two fields are not in the source: which fragment of its packet this is,
and how many TxSequence numbers were assigned before its own. -/
structure UnackedFrag where
  pkt : LpPacket
  retxCount : ℕ
  nGreaterSeqAcks : ℕ
  netPkt : ℕ
  fragment : ℕ
  number : ℕ

/-- Its fragments are known by their TxSequence numbers. -/
structure NetPkt where
  unackedFrags : List ℕ
  pkt : LpPacket
  isInterest : Bool
  didRetx : Bool

structure Transmission where
  netPkt : ℕ
  fragment : ℕ
  packet : LpPacket

/-- A network packet is known by its place in `netPkts`, the order in which they
were sent. `nTxSequences` counts the TxSequence numbers that were assigned. -/
structure Reliability where
  unackedFrags : OrderedMap UnackedFrag
  firstUnackedFrag : Option ℕ
  ackQueue : List ℕ
  lastTxSeqNo : ℕ
  netPkts : List NetPkt
  nAcknowledged : ℕ
  nRetransmitted : ℕ
  nRetxExhausted : ℕ
  droppedInterests : List LpPacket
  transmissions : List Transmission
  nTxSequences : ℕ

/-- `std::length_error`, which ends the run, or the use of an iterator that is not valid. -/
inductive Failure
  | rangeExceeded
  | assertionFailed
  deriving DecidableEq, Repr

def initial : Reliability := ⟨[], none, [], sequenceLimit - 1, [], 0, 0, 0, [], [], 0⟩

def txSequenceField (txSeq : ℕ) : Block := ⟨840, toBigEndian 8 txSeq⟩

def ackField (ackSeq : ℕ) : Block := ⟨836, toBigEndian 8 ackSeq⟩

def ackSize : ℤ := 3 + 1 + 8

/-- The loop of `piggyback` over the queue. -/
def piggybackAcks : ℤ → LpPacket → List ℕ → LpPacket × List ℕ
  | _, pkt, [] => (pkt, [])
  | remainingSpace, pkt, ackSeq :: ackQueue =>
    if ackSize > remainingSpace then (pkt, ackSeq :: ackQueue)
    else piggybackAcks (remainingSpace - ackSize) (add pkt (ackField ackSeq)) ackQueue

def piggyback (mtu : Option ℕ) (pkt : LpPacket) (ackQueue : List ℕ) : LpPacket × List ℕ :=
  let pktSize : ℤ := size (makeBlock 100 pkt.elements)
  let reservedSpace : ℤ := (encodeVarNumber 8800).length - (encodeVarNumber pktSize.toNat).length
  piggybackAcks ((mtu.getD 8800 : ℕ) - reservedSpace - pktSize) pkt ackQueue

def sendLpPacket (options : Options) (netPkt fragment : ℕ) (pkt : LpPacket) (s : Reliability) : Reliability :=
  let (pkt, ackQueue) := piggyback options.mtu pkt s.ackQueue
  { s with
    ackQueue := ackQueue
    transmissions := s.transmissions ++ [⟨netPkt, fragment, pkt⟩] }

/-- The number, the fragment that carries it, and the state after it. -/
def assignTxSequence (frag : LpPacket) (s : Reliability) : Except Failure (ℕ × LpPacket × Reliability) :=
  let txSeq := (s.lastTxSeqNo + 1) % sequenceLimit
  if ¬ s.unackedFrags.isEmpty ∧ s.firstUnackedFrag = some txSeq then .error .rangeExceeded
  else
    .ok (txSeq, set frag (txSequenceField txSeq),
      { s with
        lastTxSeqNo := txSeq
        nTxSequences := s.nTxSequences + 1 })

def deleteUnackedFrag (s : Reliability) (txSeq : ℕ) : Except Failure Reliability :=
  match s.firstUnackedFrag, lookup s.unackedFrags txSeq with
  | some first, some _ =>
    let unackedFrags := erase s.unackedFrags txSeq
    .ok { s with
      unackedFrags := unackedFrags
      firstUnackedFrag :=
        if unackedFrags.isEmpty then none
        else if first = txSeq then circularNext unackedFrags txSeq
        else some first }
  | _, _ => .error .assertionFailed

/-- The body of the loop in `handleOutgoing`, after the TxSequence number. -/
def storeFrag (netPkt fragment txSeq : ℕ) (frag : LpPacket) (s : Reliability) : Reliability :=
  let unackedFrags := emplace s.unackedFrags txSeq ⟨frag, 0, 0, netPkt, fragment, s.nTxSequences - 1⟩
  { s with
    unackedFrags := unackedFrags
    firstUnackedFrag := if unackedFrags.length = 1 then unackedFrags.head?.map Prod.fst else s.firstUnackedFrag
    netPkts := s.netPkts.modify netPkt (fun p => { p with unackedFrags := p.unackedFrags ++ [txSeq] }) }

def storeFrags (netPkt : ℕ) : ℕ → List LpPacket → Reliability → Except Failure (List LpPacket × Reliability)
  | _, [], s => .ok ([], s)
  | fragment, frag :: frags, s => do
    let (txSeq, frag, s) ← assignTxSequence frag s
    let (frags, s) ← storeFrags netPkt (fragment + 1) frags (storeFrag netPkt fragment txSeq frag s)
    .ok (frag :: frags, s)

def handleOutgoing (frags : List LpPacket) (pkt : LpPacket) (isInterest : Bool) (s : Reliability) :
    Except Failure (List LpPacket × Reliability) :=
  storeFrags s.netPkts.length 0 frags { s with netPkts := s.netPkts ++ [⟨[], pkt, isInterest, false⟩] }

def sendLpPackets (options : Options) (netPkt : ℕ) : ℕ → List LpPacket → Reliability → Reliability
  | _, [], s => s
  | fragment, frag :: frags, s =>
    sendLpPackets options netPkt (fragment + 1) frags (sendLpPacket options netPkt fragment frag s)

/-- The end of `sendNetPacket`; without a Fragment field the packet is not tracked. -/
def sendFragments (options : Options) (frags : List LpPacket) (pkt : LpPacket) (isInterest : Bool) (s : Reliability) :
    Except Failure Reliability :=
  if (frags.headD ⟨[]⟩).has 80 then do
    let (frags, s') ← handleOutgoing frags pkt isInterest s
    .ok (sendLpPackets options s.netPkts.length 0 frags s')
  else .ok s

/-- The fragments that are passed on the way to the acknowledged one, and which of
them are lost. -/
def findLostLpPackets (options : Options) (ackSeq : ℕ) (s : Reliability) : List ℕ × Reliability :=
  let passed := (circularFrom s.unackedFrags (s.firstUnackedFrag.getD 0)).takeWhile (fun txSeq => txSeq ≠ ackSeq)
  let unackedFrags := mapValues (fun txSeq frag =>
    if txSeq ∈ passed then { frag with nGreaterSeqAcks := frag.nGreaterSeqAcks + 1 } else frag) s.unackedFrags
  (passed.filter (fun txSeq =>
      (lookup unackedFrags txSeq).any (fun frag => frag.nGreaterSeqAcks ≥ options.seqNumLossThreshold)),
    { s with unackedFrags := unackedFrags })

/-- The branch of `onLpPacketLost` that gives the network packet up. -/
def giveUp (txSeq : ℕ) (netPkt : NetPkt) (s : Reliability) : Except Failure (List ℕ × Reliability) := do
  let others := netPkt.unackedFrags.filter (fun other => other ≠ txSeq)
  let s ← others.foldlM deleteUnackedFrag s
  let s ← deleteUnackedFrag
    { s with
      nRetxExhausted := s.nRetxExhausted + 1
      droppedInterests := if netPkt.isInterest then s.droppedInterests ++ [netPkt.pkt] else s.droppedInterests } txSeq
  .ok (others ++ [txSeq], s)

/-- The branch of `onLpPacketLost` that sends the fragment again. -/
def retransmit (options : Options) (txSeq : ℕ) (txFrag : UnackedFrag) (netPkt : NetPkt) (s : Reliability) :
    Except Failure (List ℕ × Reliability) := do
  let (newTxSeq, pkt, s) ← assignTxSequence txFrag.pkt s
  if txSeq ∉ netPkt.unackedFrags then .error .assertionFailed
  else do
    let s ← deleteUnackedFrag
      { s with
        unackedFrags := emplace s.unackedFrags newTxSeq
          ⟨pkt, txFrag.retxCount + 1, 0, txFrag.netPkt, txFrag.fragment, s.nTxSequences - 1⟩
        netPkts := s.netPkts.set txFrag.netPkt
          { netPkt with
            didRetx := true
            unackedFrags := netPkt.unackedFrags.replace txSeq newTxSeq } } txSeq
    .ok ([txSeq], sendLpPacket options txFrag.netPkt txFrag.fragment pkt s)

def onLpPacketLost (options : Options) (txSeq : ℕ) (s : Reliability) : Except Failure (List ℕ × Reliability) :=
  match lookup s.unackedFrags txSeq with
  | none => .error .assertionFailed
  | some txFrag =>
    match s.netPkts[txFrag.netPkt]? with
    | none => .error .assertionFailed
    | some netPkt =>
      if txFrag.retxCount ≥ options.maxRetx then giveUp txSeq netPkt s
      else retransmit options txSeq txFrag netPkt s

/-- The last element takes the place of the one that is removed. -/
def swapRemove (txSeqs : List ℕ) (txSeq : ℕ) : List ℕ :=
  (txSeqs.set (txSeqs.idxOf txSeq) (txSeqs.getLastD 0)).dropLast

def onLpPacketAcknowledged (txSeq : ℕ) (s : Reliability) : Except Failure Reliability :=
  match lookup s.unackedFrags txSeq with
  | none => .error .assertionFailed
  | some frag =>
    match s.netPkts[frag.netPkt]? with
    | none => .error .assertionFailed
    | some netPkt =>
      if txSeq ∉ netPkt.unackedFrags then .error .assertionFailed
      else
        let unackedFrags := swapRemove netPkt.unackedFrags txSeq
        deleteUnackedFrag
          { s with
            netPkts := s.netPkts.set frag.netPkt { netPkt with unackedFrags := unackedFrags }
            nRetransmitted := if unackedFrags.isEmpty ∧ netPkt.didRetx then s.nRetransmitted + 1 else s.nRetransmitted
            nAcknowledged := if unackedFrags.isEmpty ∧ ¬ netPkt.didRetx then s.nAcknowledged + 1 else s.nAcknowledged }
          txSeq

/-- The loop over the fragments that are considered lost; the set holds those that
were removed on the way. -/
def resendLost (options : Options) : List ℕ → List ℕ → Reliability → Except Failure Reliability
  | [], _, s => .ok s
  | txSeq :: lost, removed, s =>
    if txSeq ∈ removed then resendLost options lost removed s
    else do
      let (removedThisTxSeq, s) ← onLpPacketLost options txSeq s
      resendLost options lost (removed ++ removedThisTxSeq) s

def processAck (options : Options) (s : Reliability) (ackSeq : ℕ) : Except Failure Reliability :=
  if (lookup s.unackedFrags ackSeq).isNone then .ok s
  else do
    let (lost, s) := findLostLpPackets options ackSeq s
    let s ← onLpPacketAcknowledged ackSeq s
    resendLost options lost [] s

/-- `pkt.list<lp::AckField>()` -/
def readAcks (pkt : LpPacket) : Except Exception (List ℕ) :=
  (pkt.elements.filter (fun element => element.type = 836)).mapM decodeUint64

/-- The exception, if there is one, goes to the caller, which drops the packet. -/
def processIncomingPacket (options : Options) (pkt : LpPacket) (s : Reliability) :
    Except Failure (Option Exception × Reliability) :=
  match readAcks pkt with
  | .error e => .ok (some e, s)
  | .ok acks => do
    let s ← acks.foldlM (processAck options) s
    if pkt.has 80 ∧ pkt.has 840 then
      match pkt.get 840 decodeUint64 with
      | .error e => .ok (some e, s)
      | .ok txSeq => .ok (none, { s with ackQueue := s.ackQueue ++ [txSeq] })
    else .ok (none, s)

/-- Timers may run at any time. -/
inductive Event
  | send (frags : List LpPacket) (pkt : LpPacket) (isInterest : Bool)
  | receive (pkt : LpPacket)
  | rtoTimer (txSeq : ℕ)
  | requestIdlePacket

def step (options : Options) (s : Reliability) : Event → Except Failure Reliability
  | .send frags pkt isInterest => sendFragments options frags pkt isInterest s
  | .receive pkt => do
    let (_, s) ← processIncomingPacket options pkt s
    .ok s
  | .rtoTimer txSeq =>
    if (lookup s.unackedFrags txSeq).isNone then .ok s
    else do
      let (_, s) ← onLpPacketLost options txSeq s
      .ok s
  | .requestIdlePacket => .ok { s with ackQueue := (piggyback options.mtu ⟨[]⟩ s.ackQueue).2 }

def run (options : Options) (events : List Event) : Except Failure Reliability :=
  events.foldlM (step options) initial

end Model

section Outcomes

variable {α β : Type} {p : α → Prop} {q : β → Prop}

/-- The result has the property, unless the range of TxSequence numbers was exceeded. -/
def Outcome (p : α → Prop) : Except Failure α → Prop
  | .ok a => p a
  | .error e => e = .rangeExceeded

theorem Outcome.bind {result : Except Failure α} {next : α → Except Failure β} (h : Outcome p result)
    (hnext : ∀ a, p a → Outcome q (next a)) : Outcome q (result >>= next) := by
  cases result with
  | error e => exact h
  | ok a => exact hnext a h

theorem Outcome.mono {p' : α → Prop} {result : Except Failure α} (h : Outcome p result) (hp : ∀ a, p a → p' a) :
    Outcome p' result := by
  cases result with
  | error e => exact h
  | ok a => exact hp a h

theorem Outcome.foldlM {items : List β} {f : α → β → Except Failure α} (hstep : ∀ a item, p a → Outcome p (f a item))
    {a : α} (ha : p a) : Outcome p (items.foldlM f a) := by
  induction items generalizing a with
  | nil => exact ha
  | cons item items ih =>
    rw [List.foldlM_cons]
    exact (hstep a item ha).bind fun a' ha' => ih ha'

end Outcomes

section Windows

variable {s : Reliability} {txSeq : ℕ}

def IsFirst (unackedFrags : OrderedMap UnackedFrag) : Option ℕ → Prop
  | none => unackedFrags = []
  | some first => ∃ frag, (first, frag) ∈ unackedFrags ∧
      ∀ txSeq frag', (txSeq, frag') ∈ unackedFrags → frag.number ≤ frag'.number

/-- The TxSequence number of a fragment in a window that ends before the number `limit`. -/
structure InWindow (limit txSeq : ℕ) (frag : UnackedFrag) : Prop where
  txSeq_eq : txSeq = frag.number % sequenceLimit
  number_lt : frag.number < limit
  limit_le : limit ≤ frag.number + sequenceLimit

structure Window (s : Reliability) : Prop where
  ordered : Ordered s.unackedFrags
  inWindow : ∀ txSeq frag, (txSeq, frag) ∈ s.unackedFrags → InWindow s.nTxSequences txSeq frag
  last_eq : (s.lastTxSeqNo + 1) % sequenceLimit = s.nTxSequences % sequenceLimit
  first : IsFirst s.unackedFrags s.firstUnackedFrag

theorem Window.first_some (h : Window s) (hmem : txSeq ∈ s.unackedFrags.map Prod.fst) :
    ∃ first frag, s.firstUnackedFrag = some first ∧ (first, frag) ∈ s.unackedFrags ∧
      ∀ txSeq frag', (txSeq, frag') ∈ s.unackedFrags → frag.number ≤ frag'.number := by
  have hfirst := h.first
  cases heq : s.firstUnackedFrag with
  | none =>
    rw [heq] at hfirst
    rw [show s.unackedFrags = [] from hfirst] at hmem
    cases hmem
  | some first =>
    rw [heq] at hfirst
    obtain ⟨frag, hfrag, hle⟩ := hfirst
    exact ⟨first, frag, rfl, hfrag, hle⟩

theorem Window.isFirst_next (h : Window s) {first : ℕ} {frag : UnackedFrag} (hfirst : (first, frag) ∈ s.unackedFrags)
    (hle : ∀ txSeq frag', (txSeq, frag') ∈ s.unackedFrags → frag.number ≤ frag'.number)
    (hne : erase s.unackedFrags first ≠ []) :
    IsFirst (erase s.unackedFrags first) (circularNext (erase s.unackedFrags first) first) := by
  obtain ⟨next, hnext, hmem, hbetween⟩ := (h.ordered.erase first).circularNext hne first
  rw [hnext]
  obtain ⟨⟨next', fragNext⟩, hentry, rfl⟩ := List.mem_map.mp hmem
  refine ⟨fragNext, hentry, fun txSeq' frag' hmem' => ?_⟩
  obtain ⟨hentry, hnextNe⟩ := mem_erase.mp hentry
  have hkey : txSeq' ∈ (erase s.unackedFrags first).map Prod.fst := List.mem_map_of_mem hmem'
  obtain ⟨hmem', hne'⟩ := mem_erase.mp hmem'
  obtain ⟨hseq, hlt, hlimit⟩ := h.inWindow _ _ hfirst
  obtain ⟨hseqNext, hltNext, hlimitNext⟩ := h.inWindow _ _ hentry
  obtain ⟨hseq', hlt', hlimit'⟩ := h.inWindow _ _ hmem'
  have hleNext := hle _ _ hentry
  have hle' := hle _ _ hmem'
  have hbetween' : (first < next' ∧ (first < txSeq' → next' ≤ txSeq')) ∨ (txSeq' ≤ first ∧ next' ≤ txSeq') := by
    rcases hbetween with ⟨hgt, hmin⟩ | hmin
    · exact Or.inl ⟨hgt, hmin txSeq' hkey⟩
    · exact Or.inr (hmin txSeq' hkey)
  simp only [sequenceLimit] at *
  omega

theorem deleteUnackedFrag_window (h : Window s) (hmem : txSeq ∈ s.unackedFrags.map Prod.fst) :
    ∃ first, deleteUnackedFrag s txSeq = .ok { s with
        unackedFrags := erase s.unackedFrags txSeq
        firstUnackedFrag := first } ∧
      Window { s with
        unackedFrags := erase s.unackedFrags txSeq
        firstUnackedFrag := first } := by
  obtain ⟨first, frag, hfirst, hfrag, hle⟩ := h.first_some hmem
  obtain ⟨deleted, hdeleted⟩ := Option.isSome_iff_exists.mp (lookup_isSome.mpr hmem)
  simp only [deleteUnackedFrag, hfirst, hdeleted]
  refine ⟨_, rfl, h.ordered.erase txSeq, fun txSeq' frag' hmem' => h.inWindow _ _ (mem_erase.mp hmem').1, h.last_eq, ?_⟩
  dsimp only
  by_cases hempty : erase s.unackedFrags txSeq = []
  · rw [hempty]
    exact rfl
  · rw [if_neg (by simpa using hempty)]
    by_cases heq : first = txSeq
    · subst heq
      rw [if_pos rfl]
      exact h.isFirst_next hfrag hle hempty
    · rw [if_neg heq]
      exact ⟨frag, mem_erase.mpr ⟨hfrag, heq⟩, fun txSeq' frag' hmem' => hle _ _ (mem_erase.mp hmem').1⟩

/-- The state after the fragments at these numbers have been deleted. -/
def Deleted (s : Reliability) (txSeqs : List ℕ) (s' : Reliability) : Prop :=
  ∃ first, s' = { s with
    unackedFrags := s.unackedFrags.filter (fun entry => entry.1 ∉ txSeqs)
    firstUnackedFrag := first }

theorem foldlM_deleteUnackedFrag (txSeqs : List ℕ) (h : Window s) (hnodup : txSeqs.Nodup)
    (hmem : ∀ txSeq ∈ txSeqs, txSeq ∈ s.unackedFrags.map Prod.fst) :
    ∃ s', txSeqs.foldlM deleteUnackedFrag s = .ok s' ∧ Deleted s txSeqs s' ∧ Window s' := by
  induction txSeqs generalizing s with
  | nil => exact ⟨s, rfl, ⟨s.firstUnackedFrag, by simp⟩, h⟩
  | cons txSeq txSeqs ih =>
    obtain ⟨hnot, hnodup⟩ := List.nodup_cons.mp hnodup
    obtain ⟨first, hdelete, hwindow⟩ := deleteUnackedFrag_window h (hmem txSeq List.mem_cons_self)
    obtain ⟨s', hfold, ⟨first', rfl⟩, hwindow'⟩ := ih hwindow hnodup fun other hother => by
      obtain ⟨entry, hentry, rfl⟩ := List.mem_map.mp (hmem other (List.mem_cons_of_mem _ hother))
      exact List.mem_map_of_mem (mem_erase.mpr ⟨hentry, fun heq => hnot (heq ▸ hother)⟩)
    refine ⟨_, by rw [List.foldlM_cons, hdelete]; exact hfold, ⟨first', ?_⟩, hwindow'⟩
    simp only [erase, List.filter_filter, List.mem_cons, not_or, Bool.decide_and, Bool.and_comm]

theorem assignTxSequence_window (h : Window s) (frag : LpPacket) :
    assignTxSequence frag s = .error .rangeExceeded ∨
      assignTxSequence frag s = .ok (s.nTxSequences % sequenceLimit, set frag (txSequenceField (s.nTxSequences % sequenceLimit)),
        { s with
          lastTxSeqNo := s.nTxSequences % sequenceLimit
          nTxSequences := s.nTxSequences + 1 }) ∧
      s.nTxSequences % sequenceLimit ∉ s.unackedFrags.map Prod.fst ∧
      ∀ txSeq frag', (txSeq, frag') ∈ s.unackedFrags → s.nTxSequences + 1 ≤ frag'.number + sequenceLimit := by
  rw [assignTxSequence, h.last_eq]
  by_cases hnew : ¬ s.unackedFrags.isEmpty ∧ s.firstUnackedFrag = some (s.nTxSequences % sequenceLimit)
  · exact Or.inl (if_pos hnew)
  · refine Or.inr ⟨if_neg hnew, ?_⟩
    have hlimit : ∀ txSeq frag', (txSeq, frag') ∈ s.unackedFrags → s.nTxSequences + 1 ≤ frag'.number + sequenceLimit := by
      intro txSeq frag' hmem
      obtain ⟨first, firstFrag, hfirst, hfrag, hle⟩ := h.first_some (List.mem_map_of_mem hmem)
      obtain ⟨hseq, hlt, hwithin⟩ := h.inWindow _ _ hfrag
      have hle' := hle _ _ hmem
      have hne : s.nTxSequences % sequenceLimit ≠ first := by
        intro heq
        refine hnew ⟨?_, by rw [hfirst, heq]⟩
        rw [List.isEmpty_iff]
        exact List.ne_nil_of_mem hmem
      simp only [sequenceLimit] at *
      omega
    refine ⟨fun hmem => ?_, hlimit⟩
    obtain ⟨⟨txSeq, frag'⟩, hentry, heq⟩ := List.mem_map.mp hmem
    obtain ⟨hseq, hlt, -⟩ := h.inWindow _ _ hentry
    have hlimit' := hlimit _ _ hentry
    simp only [sequenceLimit] at *
    omega

theorem emplace_window (h : Window s) (frag : UnackedFrag) (hnumber : frag.number = s.nTxSequences)
    (hnew : s.nTxSequences % sequenceLimit ∉ s.unackedFrags.map Prod.fst)
    (hlimit : ∀ txSeq frag', (txSeq, frag') ∈ s.unackedFrags → s.nTxSequences + 1 ≤ frag'.number + sequenceLimit)
    (netPkts : List NetPkt) :
    Window { s with
      unackedFrags := emplace s.unackedFrags (s.nTxSequences % sequenceLimit) frag
      firstUnackedFrag :=
        if s.unackedFrags.isEmpty then some (s.nTxSequences % sequenceLimit) else s.firstUnackedFrag
      lastTxSeqNo := s.nTxSequences % sequenceLimit
      nTxSequences := s.nTxSequences + 1
      netPkts := netPkts } := by
  have hmem : ∀ entry, entry ∈ emplace s.unackedFrags (s.nTxSequences % sequenceLimit) frag ↔
      entry = (s.nTxSequences % sequenceLimit, frag) ∨ entry ∈ s.unackedFrags := by
    intro entry
    rw [(emplace_perm hnew frag).mem_iff, List.mem_cons]
  refine ⟨h.ordered.emplace hnew frag, fun txSeq frag' hentry => ?_, ?_, ?_⟩
  · rcases (hmem _).mp hentry with heq | hold
    · obtain ⟨rfl, rfl⟩ := Prod.mk.inj heq
      exact ⟨by rw [hnumber], by rw [hnumber]; exact Nat.lt_succ_self _, by
        rw [hnumber]
        simp only [sequenceLimit]
        omega⟩
    · obtain ⟨hseq, hlt, -⟩ := h.inWindow _ _ hold
      exact ⟨hseq, Nat.lt_succ_of_lt hlt, hlimit _ _ hold⟩
  · simp only [sequenceLimit]
    omega
  · dsimp only
    by_cases hempty : s.unackedFrags = []
    · rw [if_pos (by rw [hempty]; rfl)]
      refine ⟨frag, (hmem _).mpr (Or.inl rfl), fun txSeq frag' hentry => ?_⟩
      rcases (hmem _).mp hentry with heq | hold
      · rw [(Prod.mk.inj heq).2]
      · rw [hempty] at hold
        cases hold
    · rw [if_neg (by simpa using hempty)]
      obtain ⟨entry, rest, hcons⟩ := List.exists_cons_of_ne_nil hempty
      have hentry : entry ∈ s.unackedFrags := by
        rw [hcons]
        exact List.mem_cons_self
      obtain ⟨first, firstFrag, hfirst, hfrag, hle⟩ := h.first_some (List.mem_map_of_mem hentry)
      rw [hfirst]
      refine ⟨firstFrag, (hmem _).mpr (Or.inr hfrag), fun txSeq frag' hentry => ?_⟩
      rcases (hmem _).mp hentry with heq | hold
      · rw [(Prod.mk.inj heq).2, hnumber]
        exact (h.inWindow _ _ hfrag).number_lt.le
      · exact hle _ _ hold

theorem mapValues_window (h : Window s) {f : ℕ → UnackedFrag → UnackedFrag} (hf : ∀ txSeq frag, (f txSeq frag).number = frag.number) :
    Window { s with unackedFrags := mapValues f s.unackedFrags } := by
  refine ⟨h.ordered.mapValues f, fun txSeq frag hmem => ?_, h.last_eq, ?_⟩
  · obtain ⟨frag', hmem', rfl⟩ := mem_mapValues.mp hmem
    obtain ⟨hseq, hlt, hlimit⟩ := h.inWindow _ _ hmem'
    exact ⟨by rw [hf]; exact hseq, by rw [hf]; exact hlt, by rw [hf]; exact hlimit⟩
  · have hfirst := h.first
    cases heq : s.firstUnackedFrag with
    | none =>
      rw [heq] at hfirst
      rw [show s.unackedFrags = [] from hfirst]
      exact rfl
    | some first =>
      rw [heq] at hfirst
      obtain ⟨frag, hfrag, hle⟩ := hfirst
      refine ⟨f first frag, mem_mapValues.mpr ⟨frag, hfrag, rfl⟩, fun txSeq frag' hmem => ?_⟩
      obtain ⟨frag'', hmem', rfl⟩ := mem_mapValues.mp hmem
      rw [hf, hf]
      exact hle _ _ hmem'

/-- The cursor is at the fragment that was sent earliest: by its number, and by how
far its TxSequence number is behind the last one in the circle. -/
def CursorEarliest (s : Reliability) : Prop :=
  (s.unackedFrags = [] → s.firstUnackedFrag = none) ∧
    (s.unackedFrags ≠ [] → ∃ first frag, s.firstUnackedFrag = some first ∧ (first, frag) ∈ s.unackedFrags ∧
      ∀ txSeq frag', (txSeq, frag') ∈ s.unackedFrags → txSeq ≠ first → frag.number < frag'.number ∧
        (s.lastTxSeqNo + sequenceLimit - txSeq) % sequenceLimit < (s.lastTxSeqNo + sequenceLimit - first) % sequenceLimit)

theorem Window.cursorEarliest (h : Window s) : CursorEarliest s := by
  refine ⟨fun hempty => ?_, fun hne => ?_⟩
  · have hfirst := h.first
    cases hcursor : s.firstUnackedFrag with
    | none => rfl
    | some first =>
      rw [hcursor] at hfirst
      obtain ⟨frag, hmem, -⟩ := hfirst
      rw [hempty] at hmem
      cases hmem
  · obtain ⟨entry, hentry⟩ := List.exists_mem_of_ne_nil _ hne
    obtain ⟨first, frag, hfirst, hfrag, hle⟩ := h.first_some (List.mem_map_of_mem hentry)
    refine ⟨first, frag, hfirst, hfrag, fun txSeq frag' hmem hother => ?_⟩
    obtain ⟨hseq, hlt, hlimit⟩ := h.inWindow _ _ hfrag
    obtain ⟨hseq', hlt', hlimit'⟩ := h.inWindow _ _ hmem
    have hle' := hle _ _ hmem
    have hlast := h.last_eq
    have hnumber : frag.number ≠ frag'.number := fun heq => hother (by rw [hseq, hseq', heq])
    simp only [sequenceLimit] at *
    omega

end Windows

end LeoNdn.LpReliability
