import LeoNdn.KiteRoutes
import LeoNdn.LinkService

/-!
What becomes of the exceptions that decoding an acknowledgment throws: the
handlers of the link service catch one family of the two.
-/

namespace LeoNdn.KiteAckErrors

open LeoNdn.Tlv LeoNdn.NdnPacket LeoNdn.KiteProtocol LeoNdn.Forwarder LeoNdn.LinkService

variable {σ κ : Type}

/-- The entries and the Content Store are as before, or the Data has satisfied
the entries as `onIncomingData` does for any other. -/
def DroppedOrSatisfied (ctx : Context κ) (inFace : Face) (data : Data) (tables tables' : Tables κ) : Prop :=
  (tables'.m_pit = tables.m_pit ∧ tables'.m_cs = tables.m_cs) ∨
    tables' = satisfyMatches ctx inFace data (ctx.findAllDataMatches tables.m_pit data) tables.countData

/-- The header throws nothing but `tlv::Error`, and where it lets the Data through
to the decoder of acknowledgments, the content has no elements or the first Data
among them is an announcement. -/
def Contained (ctx : LinkContext σ κ) (inFace : Face) (firstPkt : LpPacket) (data : Data) : Prop :=
  OnlyTlvErrors (admitsData ctx firstPkt) ∧
    (admitsData ctx firstPkt = .ok true → isViolatingLocalhost inFace data = false →
      ∀ payload, data.m_content.parse = .ok payload →
        ∃ prefixAnn, Ack.announcement ctx.forwarder.fromIsoString data.m_content payload = .ok prefixAnn)

section Handlers

variable {handler : Node σ κ → Node σ κ} {result : Option Exception × Node σ κ}

theorem catchTlvError_none_iff :
    (catchTlvError handler result).1 = none ↔ ∀ e, result.1 = some e → e.isTlvError = true := by
  obtain ⟨thrown, node⟩ := result
  rcases thrown with - | e
  · simp [catchTlvError]
  · cases e <;> simp [catchTlvError, Exception.isTlvError]

theorem catchTlvError_isTlvError_iff : (∀ e, (catchTlvError handler result).1 = some e → e.isTlvError = true) ↔
    ∀ e, result.1 = some e → e.isTlvError = true := by
  obtain ⟨thrown, node⟩ := result
  rcases thrown with - | e
  · simp [catchTlvError]
  · cases e <;> simp [catchTlvError, Exception.isTlvError]

theorem catchTlvError_tables (hhandler : ∀ node, (handler node).tables = node.tables) :
    (catchTlvError handler result).2.tables = result.2.tables := by
  unfold catchTlvError
  split
  · exact hhandler _
  · rfl

theorem countLpInvalid_tables (node : Node σ κ) : node.countLpInvalid.tables = node.tables := rfl

theorem countNetInvalid_tables (node : Node σ κ) : node.countNetInvalid.tables = node.tables := rfl

end Handlers

section Receiving

variable {ctx : LinkContext σ κ} {face : Face} {packet : TransportPacket} {node : Node σ κ} {netPkt : Block}
  {firstPkt : LpPacket} {lp : σ}

/-- Neither handler catches what the decoder of the Data lets escape. -/
theorem doReceivePacket_thrown_iff (hreceived : receiveLpPacket ctx packet node.lp = (.ok (some (netPkt, firstPkt)), lp))
    (hnet : netPkt.type = 6) : (doReceivePacket ctx face packet node).1 = none ↔
      ∀ e, (decodeData ctx face netPkt firstPkt { node with lp := lp }).1 = some e → e.isTlvError = true := by
  simp only [doReceivePacket, hreceived, catchTlvError_none_iff, decodeNetPacket, catchTlvError_isTlvError_iff]
  simp [hnet]

theorem doReceivePacket_tables (hreceived : receiveLpPacket ctx packet node.lp = (.ok (some (netPkt, firstPkt)), lp))
    (hnet : netPkt.type = 6) : (doReceivePacket ctx face packet node).2.tables =
      (decodeData ctx face netPkt firstPkt { node with lp := lp }).2.tables := by
  simp only [doReceivePacket, hreceived, catchTlvError_tables countLpInvalid_tables, decodeNetPacket,
    catchTlvError_tables countNetInvalid_tables]
  simp [hnet]

end Receiving

section Acknowledgments

variable {ctx : LinkContext σ κ} {face : Face} {node : Node σ κ} {netPkt : Block} {firstPkt : LpPacket} {data : Data}

theorem onIncomingData_droppedOrSatisfied {ctx : Context κ} {tables : Tables κ} (htype : data.getContentType = 6)
    (hmatch : ctx.findAllDataMatches tables.m_pit data ≠ []) :
    DroppedOrSatisfied ctx face data tables (onIncomingData ctx face data tables).tables := by
  cases hlocal : isViolatingLocalhost face data with
  | true =>
    rw [onIncomingData_violating hlocal]
    exact .inl ⟨rfl, rfl⟩
  | false =>
    cases hack : Ack.ofData ctx.fromIsoString data with
    | error e =>
      rw [onIncomingData_thrown hlocal hmatch htype hack]
      exact .inl ⟨rfl, rfl⟩
    | ok ack =>
      rw [onIncomingData_acknowledged hlocal hmatch htype hack]
      exact .inr rfl

theorem decodeData_droppedOrSatisfied (hdata : Data.wireDecode netPkt = .ok data) (htype : data.getContentType = 6)
    (hmatch : ctx.forwarder.findAllDataMatches node.tables.m_pit data ≠ []) :
    DroppedOrSatisfied ctx.forwarder face data node.tables (decodeData ctx face netPkt firstPkt node).2.tables := by
  simp only [decodeData, hdata]
  split
  · exact .inl ⟨rfl, rfl⟩
  · exact .inl ⟨rfl, rfl⟩
  · exact onIncomingData_droppedOrSatisfied htype hmatch

theorem ack_errors_iff {fromIsoString : List UInt8 → Except Exception ℤ} (htype : data.getContentType = 6) :
    OnlyTlvErrors (Ack.ofData fromIsoString data) ↔ ∀ payload, data.m_content.parse = .ok payload →
      ∃ prefixAnn, Ack.announcement fromIsoString data.m_content payload = .ok prefixAnn := by
  constructor
  · intro herrors payload hparse
    cases hann : Ack.announcement fromIsoString data.m_content payload with
    | ok prefixAnn => exact ⟨prefixAnn, rfl⟩
    | error e => cases herrors _ (Ack.ofData_no_announcement htype hparse hann)
  · intro hann
    cases hparse : data.m_content.parse with
    | error e =>
      rw [Ack.ofData_unparsable htype hparse]
      exact OnlyThrows.error (parse_errors _ e hparse)
    | ok payload =>
      obtain ⟨prefixAnn, h⟩ := hann payload hparse
      rw [(Ack.ofData_ok_iff htype ⟨prefixAnn⟩).mpr ⟨payload, hparse, h⟩]
      exact OnlyThrows.ok _

theorem onIncomingData_thrown_iff {ctx : Context κ} {tables : Tables κ} (htype : data.getContentType = 6)
    (hmatch : ctx.findAllDataMatches tables.m_pit data ≠ []) :
    (∀ e, (onIncomingData ctx face data tables).thrown = some e → e.isTlvError = true) ↔
      (isViolatingLocalhost face data = false → OnlyTlvErrors (Ack.ofData ctx.fromIsoString data)) := by
  cases hlocal : isViolatingLocalhost face data with
  | true => simp [onIncomingData_violating hlocal]
  | false =>
    cases hack : Ack.ofData ctx.fromIsoString data with
    | error e => simp [onIncomingData_thrown hlocal hmatch htype hack, OnlyThrows]
    | ok ack => simp [onIncomingData_acknowledged hlocal hmatch htype hack, OnlyThrows]

theorem decodeData_thrown_iff (hdata : Data.wireDecode netPkt = .ok data) (htype : data.getContentType = 6)
    (hmatch : ctx.forwarder.findAllDataMatches node.tables.m_pit data ≠ []) :
    (∀ e, (decodeData ctx face netPkt firstPkt node).1 = some e → e.isTlvError = true) ↔
      Contained ctx face firstPkt data := by
  simp only [decodeData, hdata, Contained, ← ack_errors_iff htype]
  cases hadmits : admitsData ctx firstPkt with
  | error e => simp [OnlyThrows]
  | ok admitted =>
    cases admitted with
    | false => simp [OnlyThrows]
    | true =>
      simp only [receiveData]
      rw [onIncomingData_thrown_iff htype hmatch]
      simp [OnlyThrows]

/-- The exceptions of the link layer's own decoders are caught. An acknowledgment
that has elements but no announcement among them is what stops the node. -/
theorem kiteAck_contained_iff (ctx : LinkContext σ κ) (face : Face) {packet : TransportPacket} {node : Node σ κ}
    {netPkt : Block} {firstPkt : LpPacket} {lp : σ} {data : Data}
    (hreceived : receiveLpPacket ctx packet node.lp = (.ok (some (netPkt, firstPkt)), lp)) (hnet : netPkt.type = 6)
    (hdata : Data.wireDecode netPkt = .ok data) (htype : data.getContentType = 6)
    (hmatch : ctx.forwarder.findAllDataMatches node.tables.m_pit data ≠ []) :
    ((doReceivePacket ctx face packet node).1 = none ∧
        DroppedOrSatisfied ctx.forwarder face data node.tables (doReceivePacket ctx face packet node).2.tables) ↔
      Contained ctx face firstPkt data := by
  rw [doReceivePacket_thrown_iff hreceived hnet, doReceivePacket_tables hreceived hnet]
  have hthrown : (∀ e, (decodeData ctx face netPkt firstPkt { node with lp := lp }).1 = some e → e.isTlvError = true) ↔
      Contained ctx face firstPkt data := decodeData_thrown_iff hdata htype hmatch
  rw [hthrown]
  exact ⟨And.left, fun h => ⟨h, decodeData_droppedOrSatisfied hdata htype hmatch⟩⟩

end Acknowledgments

section Escaping

open LeoNdn.KiteRoutes

def answerWire (content : List UInt8) : List UInt8 :=
  shortElement 7 (aliceRequest.flatMap (fun component => shortElement component.type.toUInt8 component.value)) ++
    shortElement 20 (shortElement 24 [6]) ++ shortElement 21 content ++ shortElement 22 (shortElement 27 [0]) ++
    shortElement 23 []

def answerPacket (content : List UInt8) : TransportPacket :=
  ⟨⟨6, answerWire content⟩, shortElement 6 (answerWire content), 1⟩

def link : LinkContext Unit (List Data) where
  forwarder := forwarder
  reliabilityIsEnabled := false
  allowReassembly := false
  allowSelfLearning := true
  nMaxFragments := 400
  processIncomingPacket _ lp := (none, lp)
  addToPartialPacket _ _ lp := (.ok none, lp)
  receiveInterest _ _ node := (none, node)

def pendingNode : Node Unit (List Data) := ⟨0, 0, 0, (), pendingRequest, []⟩

/-- An acknowledgment without content, for an entry that is pending. -/
theorem empty_acknowledgment_escapes :
    Data.wireDecode ⟨6, answerWire []⟩ = .ok (answer []) ∧ (answer []).getContentType = 6 ∧
      forwarder.findAllDataMatches pendingNode.tables.m_pit (answer []) ≠ [] ∧
      (doReceivePacket link upstream (answerPacket []) pendingNode).1 =
        some (.invalidArgument "Invalid or no prefix announcement") := by
  decide

theorem kiteAck_contained_iff_announcement :
    ((doReceivePacket link upstream (answerPacket bobAnnouncement) pendingNode).1 = none ∧
        DroppedOrSatisfied forwarder upstream (answer bobAnnouncement) pendingRequest
          (doReceivePacket link upstream (answerPacket bobAnnouncement) pendingNode).2.tables) ↔
      Contained link upstream ⟨[⟨80, shortElement 6 (answerWire bobAnnouncement)⟩]⟩ (answer bobAnnouncement) :=
  kiteAck_contained_iff link upstream (by rfl) rfl (by decide) rfl (by decide)

end Escaping

end LeoNdn.KiteAckErrors
