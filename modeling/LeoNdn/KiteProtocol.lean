import LeoNdn.NdnPacket

/-!
KITE: the prefix announcement that an acknowledgment carries, and the request
that it answers. What reads a date is a parameter.
-/

namespace LeoNdn.KiteProtocol

open LeoNdn.Tlv LeoNdn.NdnPacket

/-- `32=KITE`. -/
def KITE_KEYWORD : Component := ⟨32, [0x4B, 0x49, 0x54, 0x45]⟩

/-- `32=PA`. -/
def KEYWORD_PA_COMP : Component := ⟨32, [0x50, 0x41]⟩

section Acknowledgment

variable (fromIsoString : List UInt8 → Except Exception ℤ)

structure ValidityPeriod where
  m_notBefore : ℤ
  m_notAfter : ℤ
  deriving DecidableEq, Repr

def ValidityPeriod.readPeriod (notBefore notAfter : Block) : Except Exception ValidityPeriod := do
  let notBefore ← fromIsoString notBefore.value
  let notAfter ← fromIsoString notAfter.value
  .ok ⟨notBefore, notAfter⟩

def ValidityPeriod.wireDecode (wire : Block) : Except Exception ValidityPeriod := do
  let elements ← wire.parse
  match elements with
  | [notBefore, notAfter] =>
    if notBefore.type ≠ 254 ∨ notBefore.value.length ≠ 15 ∨ notAfter.type ≠ 255 ∨ notAfter.value.length ≠ 15 then
      .error (.tlvError "Invalid NotBefore or NotAfter field")
    else
      match ValidityPeriod.readPeriod fromIsoString notBefore notAfter with
      | .error (.badCast _) => .error (.tlvError "Invalid date format in NOT-BEFORE or NOT-AFTER field")
      | result => result
  | _ => .error (.tlvError "Does not have two sub-TLVs")

structure PrefixAnnouncement where
  m_data : Data
  m_announcedName : Name
  m_expiration : ℤ
  m_validity : Option ValidityPeriod
  deriving DecidableEq, Repr

/-- The name ends with the keyword, a version and a segment. -/
def isAnnouncementName (name : Name) : Bool :=
  match name.reverse with
  | segment :: version :: keyword :: _ =>
    Component.equals keyword KEYWORD_PA_COMP && Component.isVersion version && Component.isSegment segment
  | _ => false

/-- The constructor of `PrefixAnnouncement` from a Data packet. -/
def PrefixAnnouncement.ofData (data : Data) : Except Exception PrefixAnnouncement := do
  if data.getContentType ≠ 5 then
    .error (.tlvError ("Data is not a prefix announcement: ContentType is " ++ toString data.getContentType))
  else if ¬ isAnnouncementName data.m_name then
    .error (.tlvError "Data is not a prefix announcement: wrong name structure")
  else do
    let payload ← data.m_content.parse
    let expirationPeriod ← get data.m_content payload 109
    let expiration ← readNonNegativeInteger expirationPeriod
    let validity ← match find payload 253 with
      | some element => do
        let validity ← ValidityPeriod.wireDecode fromIsoString element
        .ok (some validity)
      | none => .ok none
    match payload.find? (fun element => element.type ≠ 109 && element.type ≠ 253 && isCriticalType element.type) with
    | some element =>
      .error (.tlvError ("unrecognized element of critical type " ++ toString element.type))
    | none => .ok ⟨data, data.m_name.take (data.m_name.length - 3), milliseconds expiration, validity⟩

structure Ack where
  m_prefixAnn : PrefixAnnouncement
  deriving DecidableEq, Repr

/-- The `try` block: the first Data element of the content as an announcement. -/
def Ack.announcement (content : Block) (payload : List Block) : Except Exception PrefixAnnouncement := do
  let element ← get content payload 6
  let data ← Data.wireDecode element
  PrefixAnnouncement.ofData fromIsoString data

/-- The constructor of `Ack` from a Data packet. -/
def Ack.ofData (data : Data) : Except Exception Ack :=
  if data.getContentType ≠ 6 then
    .error (.invalidArgument ("Data is not a KITE acknowledgment: ContentType is " ++ toString data.getContentType))
  else do
    let payload ← data.m_content.parse
    match Ack.announcement fromIsoString data.m_content payload with
    | .ok prefixAnn => .ok ⟨prefixAnn⟩
    | .error _ => .error (.invalidArgument "Invalid or no prefix announcement")

end Acknowledgment

structure Request where
  m_rvPrefix : Name
  m_producerSuffix : Name
  m_timestamp : ℤ
  m_nonce : ℕ
  m_expiration : Option ℤ
  deriving DecidableEq, Repr

/-- The rendezvous prefix before the first keyword, and the producer suffix
between it and the last four components. -/
def Request.extractPrefixes (name : Name) : Except Exception (Name × Name) :=
  let keywordPos := name.findIdx (fun component => Component.equals component KITE_KEYWORD)
  if keywordPos = 0 then .error (.invalidArgument "RV prefix not found")
  else if keywordPos = name.length then .error (.invalidArgument "\"KITE\" keyword not found")
  else
    let producerSuffixLength : ℤ := name.length - keywordPos - 1 - 4
    if producerSuffixLength > 0 then
      .ok (name.take keywordPos, (name.drop (keywordPos + 1)).take producerSuffixLength.toNat)
    else .error (.invalidArgument "producer suffix not found")

/-- The constructor of `Request` from an Interest. -/
def Request.ofInterest (interest : Interest) : Except Exception Request := do
  let (rvPrefix, producerSuffix) ← Request.extractPrefixes interest.m_name
  let timestamp ← Name.atBack interest.m_name 4
  let timestamp ← Component.toNumber timestamp
  let nonce ← Name.atBack interest.m_name 3
  let nonce ← Component.toNumber nonce
  match interest.m_parameters with
  | none => .ok ⟨rvPrefix, producerSuffix, milliseconds timestamp, nonce, none⟩
  | some parameter => do
    let elements ← parameter.parse
    let expirationBlock ← get parameter elements 109
    let expiration ← readNonNegativeInteger expirationBlock
    .ok ⟨rvPrefix, producerSuffix, milliseconds timestamp, nonce, some (milliseconds expiration)⟩

def Request.getProducerPrefix (request : Request) : Name := request.m_rvPrefix ++ request.m_producerSuffix

def Request.canMatch (request : Request) (ack : Ack) : Bool :=
  Name.equals ack.m_prefixAnn.m_announcedName request.getProducerPrefix

section Errors

variable {fromIsoString : List UInt8 → Except Exception ℤ}

theorem Ack.ofData_ok_iff {data : Data} (htype : data.getContentType = 6) (ack : Ack) :
    Ack.ofData fromIsoString data = .ok ack ↔ ∃ payload, data.m_content.parse = .ok payload ∧
      Ack.announcement fromIsoString data.m_content payload = .ok ack.m_prefixAnn := by
  simp only [Ack.ofData, htype, ne_eq, not_true, if_false]
  cases hparse : data.m_content.parse with
  | error e => simp [bind, Except.bind]
  | ok payload =>
    cases hann : Ack.announcement fromIsoString data.m_content payload with
    | error e => simp [bind, Except.bind, hann]
    | ok prefixAnn =>
      obtain ⟨ann⟩ := ack
      simp [bind, Except.bind, hann]

theorem Ack.ofData_unparsable {data : Data} (htype : data.getContentType = 6) {e : Exception}
    (hparse : data.m_content.parse = .error e) : Ack.ofData fromIsoString data = .error e := by
  simp [Ack.ofData, htype, hparse, bind, Except.bind]

theorem Ack.ofData_no_announcement {data : Data} (htype : data.getContentType = 6) {payload : List Block}
    {e : Exception} (hparse : data.m_content.parse = .ok payload)
    (hann : Ack.announcement fromIsoString data.m_content payload = .error e) :
    Ack.ofData fromIsoString data = .error (.invalidArgument "Invalid or no prefix announcement") := by
  simp [Ack.ofData, htype, hparse, hann, bind, Except.bind]

end Errors

end LeoNdn.KiteProtocol
