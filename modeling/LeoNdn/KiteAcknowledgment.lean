import LeoNdn.KiteRequest
import Mathlib.Data.List.Induction

/-!
The acknowledgment that the rendezvous server makes of a KITE request, and that
the request is matched and the announcement is decoded from it.
-/

namespace LeoNdn.KiteAcknowledgment

open LeoNdn.Tlv LeoNdn.TlvEncoding LeoNdn.NdnPacket LeoNdn.NdnEncoding LeoNdn.KiteProtocol LeoNdn.KiteRequest

/-- The seconds of a time point that is kept in nanoseconds of 64 bits. -/
def IsTimePoint (t : ℤ) : Prop := -9223372036 ≤ t ∧ t ≤ 9223372036

/-- The dates of the time library, in seconds. -/
structure IsoTime where
  toIsoString : ℤ → List UInt8
  fromIsoString : List UInt8 → Except Exception ℤ
  length_toIsoString : ∀ t, IsTimePoint t → (toIsoString t).length = 15
  fromIsoString_toIsoString : ∀ t, IsTimePoint t → fromIsoString (toIsoString t) = .ok t

/-- What the key chain puts into a packet that it signs. -/
structure Signer where
  info : SignatureInfo
  info_wellFormed : SignatureInfo.WellFormed info
  value : Data → List UInt8

/-- A prefix announcement as its setters make it, or with the Data packet that it
was decoded from and the wire of the packet, if it has one. -/
inductive Announcement
  | made (announcedName : Name) (expiration : ℤ) (validity : Option ValidityPeriod)
  | decoded (prefixAnn : PrefixAnnouncement) (wire : Option Block)
  deriving DecidableEq, Repr

def Announcement.getAnnouncedName : Announcement → Name
  | .made announcedName _ _ => announcedName
  | .decoded prefixAnn _ => prefixAnn.m_announcedName

def Announcement.getExpiration : Announcement → ℤ
  | .made _ expiration _ => expiration
  | .decoded prefixAnn _ => prefixAnn.m_expiration

def Announcement.getValidityPeriod : Announcement → Option ValidityPeriod
  | .made _ _ validity => validity
  | .decoded prefixAnn _ => prefixAnn.m_validity

def fromNumberWithMarker (marker : UInt8) (number : ℕ) : Component := ⟨8, marker :: encodeNonNegativeInteger number⟩

variable (iso : IsoTime) (signer : Signer)

def encodeValidityPeriod (validity : ValidityPeriod) : Block :=
  makeBlock 253 [⟨254, iso.toIsoString validity.m_notBefore⟩, ⟨255, iso.toIsoString validity.m_notAfter⟩]

/-- The block that `KeyChain::sign` makes of the packet. -/
def signedBlock (data : Data) : Except Exception Block :=
  encodeData { data with m_info := some signer.info, m_value := some ⟨23, signer.value data⟩ }

def sign (data : Data) : Except Exception (Data × Block) := do
  let block ← signedBlock signer data
  let data ← Data.wireDecode block
  .ok (data, block)

/-- The packet that `PrefixAnnouncement::toData` makes and has signed. -/
def announcementData (version : ℕ) (announcedName : Name) (expiration : ℤ) (validity : Option ValidityPeriod) :
    Data where
  m_name := announcedName ++ [KEYWORD_PA_COMP, fromNumberWithMarker 0xFD version, fromNumberWithMarker 0x00 0]
  m_metaInfo := ⟨5, 0, none, []⟩
  m_content := makeBlock 21 (makeNonNegativeIntegerBlock 109 (count expiration) ::
    (validity.map (encodeValidityPeriod iso)).toList)
  m_info := none
  m_value := none

def Announcement.toData (version : ℕ) : Announcement → Except Exception (Data × Option Block)
  | .made announcedName expiration validity => do
    let (data, wire) ← sign signer (announcementData iso version announcedName expiration validity)
    .ok (data, some wire)
  | .decoded prefixAnn wire => .ok (prefixAnn.m_data, wire)

/-- `Data::wireEncode`, which decodes what it has encoded. -/
def wireEncode (data : Data) : Option Block → Except Exception Block
  | some wire => .ok wire
  | none => do
    let block ← encodeData data
    let _ ← Data.wireDecode block
    .ok block

def ackData (name : Name) (element : Block) : Data := ⟨name, ⟨6, 0, none, []⟩, makeBlock 21 [element], none, none⟩

/-- `Ack::makeData`, of an acknowledgment with or without an announcement. -/
def makeData (version : ℕ) (name : Name) : Option Announcement → Except Exception Data
  | none => .error (.tlvError "Cannot create Data: prefix announcement not set")
  | some announcement => do
    let (data, wire) ← announcement.toData iso signer version
    let element ← wireEncode data wire
    let (data, _) ← sign signer (ackData name element)
    .ok data

/-- The fields of an Interest that its `matchesData` reads, besides the name. -/
structure Selectors where
  m_minSuffixComponents : ℤ
  m_maxSuffixComponents : ℤ
  m_exclude : Option (Component → Bool)
  m_publisherPublicKeyLocator : Option KeyLocator

def exactSelectors : Selectors := ⟨-1, 1, none, none⟩

def isExcluded (selectors : Selectors) (component : Option Component) : Bool :=
  match selectors.m_exclude, component with
  | some excluded, some component => excluded component
  | _, _ => false

/-- `Interest::matchesData`, with the digest that the full name of the packet ends in. -/
def matchesData (digest : Data → Component) (name : Name) (selectors : Selectors) (data : Data) : Bool :=
  let fullName := data.m_name ++ [digest data]
  name.length + selectors.m_minSuffixComponents.toNat ≤ fullName.length &&
    (selectors.m_maxSuffixComponents < 0 || name.length + selectors.m_maxSuffixComponents ≥ fullName.length) &&
    (if name.length = fullName.length then
      name.getLast?.any (fun component => component.type = 1 && component.value.length = 32) && Name.equals name fullName
    else Name.isPrefixOf name data.m_name) &&
    ! (isExcluded selectors fullName[name.length]?) &&
    (match selectors.m_publisherPublicKeyLocator with
      | none => true
      | some keyLocator => (data.m_info.bind SignatureInfo.m_keyLocator) = some keyLocator)

/-- The announcement that `processKiteRequest` acknowledges the request with; an
Interest that is not a request is dropped. -/
def processKiteRequest (interest : Interest) : Except Exception (Option Announcement) :=
  match Request.ofInterest interest with
  | .error (.invalidArgument _) => .ok none
  | .error e => .error e
  | .ok request =>
    if request.m_expiration.getD 1000 < 0 then .error (.invalidArgument "expiration period is negative")
    else .ok (some (.made request.getProducerPrefix (request.m_expiration.getD 1000) none))

/-- An announcement that its setters made, or that was constructed from a Data packet,
which may have no signature yet. -/
def Announcement.Constructed : Announcement → Prop
  | .made announcedName expiration validity =>
    Name.TypesOk announcedName ∧ 0 ≤ expiration ∧ expiration < 9223372036854775808 ∧
      ∀ period, validity = some period → IsTimePoint period.m_notBefore ∧ IsTimePoint period.m_notAfter
  | .decoded prefixAnn wire =>
    PrefixAnnouncement.ofData iso.fromIsoString prefixAnn.m_data = .ok prefixAnn ∧
      match wire with
      | some wire => wire.type ≤ 4294967295 ∧ Data.wireDecode wire = .ok prefixAnn.m_data
      | none => Name.TypesOk prefixAnn.m_data.m_name ∧ MetaInfo.WellFormed prefixAnn.m_data.m_metaInfo ∧
          prefixAnn.m_data.m_content.type = 21 ∧
          (∀ info ∈ prefixAnn.m_data.m_info, SignatureInfo.WellFormed info) ∧
          ∀ value ∈ prefixAnn.m_data.m_value, value.type = 23

/-- The packet that the announcement was constructed from, if it was, has a wire of
type Data, or has a signature with a value. -/
def Announcement.HasSignedPacket : Announcement → Prop
  | .made _ _ _ => True
  | .decoded _ (some wire) => wire.type = 6
  | .decoded prefixAnn none => prefixAnn.m_data.m_info.isSome = true ∧ prefixAnn.m_data.m_value.isSome = true

def Announcement.element (version : ℕ) : Announcement → Except Exception Block
  | .made announcedName expiration validity =>
    signedBlock signer (announcementData iso version announcedName expiration validity)
  | .decoded _ (some wire) => .ok wire
  | .decoded prefixAnn none => encodeData prefixAnn.m_data

/-- The acknowledgment can be encoded: its length fits into 64 bits. -/
def Fits (version : ℕ) (name : Name) (announcement : Announcement) : Prop :=
  ∀ element block, announcement.element iso signer version = .ok element →
    signedBlock signer (ackData name element) = .ok block → block.value.length < 18446744073709551616

section Names

theorem equals_self (component : Component) : Component.equals component component = true := by
  simp [Component.equals]

theorem all_zip_self (name : Name) : (name.zip name).all (fun e => Component.equals e.1 e.2) = true := by
  induction name with
  | nil => rfl
  | cons component name ih => rw [List.zip_cons_cons, List.all_cons, equals_self, ih]; rfl

theorem name_equals_self (name : Name) : Name.equals name name = true := by
  rw [Name.equals, all_zip_self]
  simp

theorem isPrefixOf_self (name : Name) : Name.isPrefixOf name name = true := by
  rw [Name.isPrefixOf, all_zip_self]
  simp

theorem length_encodeNonNegativeInteger (number : ℕ) : (encodeNonNegativeInteger number).length ∈ [1, 2, 4, 8] := by
  unfold encodeNonNegativeInteger
  repeat' split
  all_goals
    rw [toBigEndian_length]
    decide

theorem isNumberWithMarker_fromNumberWithMarker (marker : UInt8) (number : ℕ) :
    Component.isNumberWithMarker marker (fromNumberWithMarker marker number) = true := by
  have hlength := length_encodeNonNegativeInteger number
  simp only [List.mem_cons, List.not_mem_nil, or_false] at hlength
  simp only [Component.isNumberWithMarker, fromNumberWithMarker, List.head?_cons, List.length_cons, List.mem_cons,
    List.not_mem_nil, or_false, Bool.and_eq_true, decide_eq_true_eq]
  exact ⟨⟨rfl, trivial⟩, by omega⟩

theorem isAnnouncementName_append (announcedName : Name) (version : ℕ) :
    isAnnouncementName (announcedName ++
      [KEYWORD_PA_COMP, fromNumberWithMarker 0xFD version, fromNumberWithMarker 0x00 0]) = true := by
  have hreverse : (announcedName ++
      [KEYWORD_PA_COMP, fromNumberWithMarker 0xFD version, fromNumberWithMarker 0x00 0]).reverse =
        fromNumberWithMarker 0x00 0 :: fromNumberWithMarker 0xFD version :: KEYWORD_PA_COMP :: announcedName.reverse := by
    simp
  rw [isAnnouncementName, hreverse]
  simp only [Component.isVersion, Component.isSegment, isNumberWithMarker_fromNumberWithMarker, equals_self,
    Bool.and_self]

theorem matchesData_exact (digest : Data → Component) {name : Name} {data : Data} (hname : data.m_name = name) :
    matchesData digest name exactSelectors data = true := by
  have hlength : ¬ (name.length = (name ++ [digest data]).length) := by
    rw [List.length_append, List.length_singleton]
    omega
  simp only [matchesData, hname, exactSelectors, if_neg hlength, isPrefixOf_self, isExcluded]
  simp

end Names

section Announcements

variable {iso : IsoTime} {signer : Signer}

theorem wireDecode_encodeValidityPeriod {validity : ValidityPeriod} (hbefore : IsTimePoint validity.m_notBefore)
    (hafter : IsTimePoint validity.m_notAfter) :
    ValidityPeriod.wireDecode iso.fromIsoString (encodeValidityPeriod iso validity) = .ok validity := by
  have hlength := iso.length_toIsoString _ hbefore
  have hlength' := iso.length_toIsoString _ hafter
  have hencodable : ∀ element ∈ [Block.mk 254 (iso.toIsoString validity.m_notBefore),
      Block.mk 255 (iso.toIsoString validity.m_notAfter)], Encodable element := by
    intro element helement
    rcases List.mem_pair.mp helement with rfl | rfl
    · exact ⟨by change 254 ≤ 4294967295; decide, by rw [hlength]; decide⟩
    · exact ⟨by change 255 ≤ 4294967295; decide, by rw [hlength']; decide⟩
  rw [ValidityPeriod.wireDecode, encodeValidityPeriod, parse_makeBlock 253 hencodable]
  simp [bind, Except.bind, hlength, hlength', ValidityPeriod.readPeriod, iso.fromIsoString_toIsoString _ hbefore,
    iso.fromIsoString_toIsoString _ hafter]

theorem encodable_encodeValidityPeriod {validity : ValidityPeriod} (hbefore : IsTimePoint validity.m_notBefore)
    (hafter : IsTimePoint validity.m_notAfter) : Encodable (encodeValidityPeriod iso validity) := by
  have hwire : ∀ type bytes, type ≤ 255 → bytes.length = 15 → (wire ⟨type, bytes⟩).length ≤ 27 := by
    intro type bytes htype hbytes
    have hnumber : ∀ number, number ≤ 255 → (encodeVarNumber number).length ≤ 3 := by
      intro number hnumber
      rw [length_encodeVarNumber]
      split_ifs <;> omega
    have h := hnumber type htype
    have h' := hnumber 15 (by decide)
    simp only [wire, List.length_append, hbytes]
    omega
  have h := hwire 254 _ (by decide) (iso.length_toIsoString _ hbefore)
  have h' := hwire 255 _ (by decide) (iso.length_toIsoString _ hafter)
  refine ⟨by change 253 ≤ 4294967295; decide, ?_⟩
  simp only [encodeValidityPeriod, makeBlock, List.flatMap_cons, List.flatMap_nil, List.append_nil,
    List.length_append]
  omega

theorem ofData_announcementData {version : ℕ} {announcedName : Name} {expiration : ℤ}
    {validity : Option ValidityPeriod} (hvalid : Announcement.Constructed iso (.made announcedName expiration validity))
    {data : Data} (hname : data.m_name = (announcementData iso version announcedName expiration validity).m_name)
    (htype : data.getContentType = 5)
    (hcontent : data.m_content = (announcementData iso version announcedName expiration validity).m_content) :
    PrefixAnnouncement.ofData iso.fromIsoString data = .ok ⟨data, announcedName, expiration, validity⟩ := by
  obtain ⟨-, hnonneg, hlt, hperiod⟩ := hvalid
  have hparse : (announcementData iso version announcedName expiration validity).m_content.parse =
      .ok (makeNonNegativeIntegerBlock 109 (count expiration) :: (validity.map (encodeValidityPeriod iso)).toList) := by
    refine parse_makeBlock 21 fun element helement => ?_
    rcases List.mem_cons.mp helement with rfl | h
    · exact encodable_number (by decide)
    · obtain ⟨period, hsome, rfl⟩ := Option.map_eq_some_iff.mp (Option.mem_toList.mp h)
      obtain ⟨hbefore, hafter⟩ := hperiod period hsome
      exact encodable_encodeValidityPeriod hbefore hafter
  have hnameOk : isAnnouncementName data.m_name = true := by
    rw [hname]
    exact isAnnouncementName_append announcedName version
  have htake : data.m_name.take (data.m_name.length - 3) = announcedName := by
    rw [hname]
    exact List.take_left' (by simp [announcementData])
  have hget : Tlv.get data.m_content
      (makeNonNegativeIntegerBlock 109 (count expiration) :: (validity.map (encodeValidityPeriod iso)).toList) 109 =
        .ok (makeNonNegativeIntegerBlock 109 (count expiration)) := rfl
  rw [PrefixAnnouncement.ofData, htype, hnameOk, hcontent, hparse, htake]
  rw [hcontent] at hget
  simp only [ne_eq, not_true, if_false, bind, Except.bind, hget,
    readNonNegativeInteger_encode (count_lt expiration) 109, milliseconds_count hnonneg hlt]
  cases validity with
  | none => rfl
  | some period =>
    obtain ⟨hbefore, hafter⟩ := hperiod period rfl
    have hfind : Tlv.find (makeNonNegativeIntegerBlock 109 (count expiration) ::
        ((some period).map (encodeValidityPeriod iso)).toList) 253 = some (encodeValidityPeriod iso period) := rfl
    rw [hfind]
    simp only [wireDecode_encodeValidityPeriod hbefore hafter]
    rfl

end Announcements

section Signing

variable {iso : IsoTime} {signer : Signer}

def signed (signer : Signer) (data : Data) : Data :=
  { data with m_info := some signer.info, m_value := some ⟨23, signer.value data⟩ }

theorem signed_ok {data : Data} (hname : Name.TypesOk data.m_name) (hmeta : MetaInfo.WellFormed data.m_metaInfo)
    (hcontent : data.m_content.type = 21) : Data.Signed (signed signer data) :=
  ⟨hname, hmeta, hcontent, ⟨signer.info, rfl, signer.info_wellFormed⟩, ⟨_, rfl, rfl⟩⟩

theorem encodeData_ok {data : Data} (hsigned : Data.Signed data) : ∃ block, encodeData data = .ok block := by
  obtain ⟨info, hinfo, hwf⟩ := hsigned.info
  obtain ⟨infoBlock, hinfoBlock⟩ := encodeSignatureInfo_ok hwf
  simp only [encodeData, hinfo, hinfoBlock, bind, Except.bind]
  exact ⟨_, rfl⟩

theorem sign_eq {data : Data} (hsigned : Data.Signed (signed signer data)) {block : Block}
    (hblock : signedBlock signer data = .ok block) (hlength : block.value.length < 18446744073709551616) :
    block.type = 6 ∧ Data.wireDecode block = .ok (signed signer data) ∧
      sign signer data = .ok (signed signer data, block) := by
  obtain ⟨htype, hdecode⟩ := wireDecode_encodeData hsigned hblock hlength
  refine ⟨htype, hdecode, ?_⟩
  simp only [sign, hblock, bind, Except.bind, hdecode]

theorem metaInfo_ok {type : ℕ} (htype : type ≤ 4294967295) : MetaInfo.WellFormed ⟨type, 0, none, []⟩ where
  type_le := htype
  freshness_nonneg := Int.le_refl 0
  freshness_lt := by
    change (0 : ℤ) < 9223372036854775808
    decide
  final_valid := by
    intro component h
    cases h
  app_types := by
    intro element h
    cases h

theorem announcementData_ok {version : ℕ} {announcedName : Name} {expiration : ℤ} {validity : Option ValidityPeriod}
    (hname : Name.TypesOk announcedName) :
    Data.Signed (signed signer (announcementData iso version announcedName expiration validity)) := by
  refine signed_ok ?_ (metaInfo_ok (by decide)) rfl
  intro component hcomponent
  rcases List.mem_append.mp hcomponent with h | h
  · exact hname component h
  · simp only [List.mem_cons, List.not_mem_nil, or_false] at h
    rcases h with rfl | rfl | rfl
    · decide
    · change 8 ≤ 4294967295
      decide
    · change 8 ≤ 4294967295
      decide

theorem length_content_le {data : Data} {block : Block} (hblock : encodeData data = .ok block) :
    data.m_content.value.length ≤ block.value.length := by
  unfold encodeData at hblock
  cases hinfo : data.m_info with
  | none =>
    rw [hinfo] at hblock
    cases hblock
  | some info =>
    rw [hinfo] at hblock
    cases hinfoBlock : encodeSignatureInfo info with
    | error e =>
      simp only [hinfoBlock, bind, Except.bind] at hblock
      cases hblock
    | ok infoBlock =>
      simp only [hinfoBlock, bind, Except.bind] at hblock
      obtain rfl := Except.ok.inj hblock
      exact length_le_makeBlock 6 (by simp)

theorem signed_of_constructed {prefixAnn : PrefixAnnouncement}
    (hvalid : Announcement.Constructed iso (.decoded prefixAnn none))
    (hsigned : Announcement.HasSignedPacket (.decoded prefixAnn none)) : Data.Signed prefixAnn.m_data := by
  obtain ⟨-, hname, hmeta, hcontent, hinfo, hvalue⟩ := hvalid
  obtain ⟨info, hsome⟩ := Option.isSome_iff_exists.mp hsigned.1
  obtain ⟨value, hsome'⟩ := Option.isSome_iff_exists.mp hsigned.2
  exact ⟨hname, hmeta, hcontent, ⟨info, hsome, hinfo info hsome⟩, ⟨value, hsome', hvalue value hsome'⟩⟩

theorem element_spec {version : ℕ} {announcement : Announcement} (hvalid : announcement.Constructed iso)
    (hsigned : announcement.HasSignedPacket) {element : Block}
    (helement : announcement.element iso signer version = .ok element)
    (hlength : element.value.length < 18446744073709551616) :
    (announcement.toData iso signer version >>= fun toData => wireEncode toData.1 toData.2) = .ok element ∧
      element.type = 6 ∧ ∃ data prefixAnn, Data.wireDecode element = .ok data ∧
        PrefixAnnouncement.ofData iso.fromIsoString data = .ok prefixAnn ∧
        prefixAnn.m_announcedName = announcement.getAnnouncedName ∧
        prefixAnn.m_expiration = announcement.getExpiration ∧
        prefixAnn.m_validity = announcement.getValidityPeriod := by
  cases announcement with
  | made announcedName expiration validity =>
    obtain ⟨htype, hdecode, hsign⟩ := sign_eq (announcementData_ok hvalid.1) helement hlength
    refine ⟨?_, htype, _, ⟨_, announcedName, expiration, validity⟩, hdecode,
      ofData_announcementData hvalid rfl rfl rfl, rfl, rfl, rfl⟩
    simp only [Announcement.toData, hsign, bind, Except.bind, wireEncode]
  | decoded prefixAnn wire =>
    have hofData := hvalid.1
    cases wire with
    | some wire =>
      obtain rfl := Except.ok.inj helement
      exact ⟨rfl, hsigned, prefixAnn.m_data, prefixAnn, hvalid.2.2, hofData, rfl, rfl, rfl⟩
    | none =>
      obtain ⟨htype, hdecode⟩ := wireDecode_encodeData (signed_of_constructed hvalid hsigned) helement hlength
      refine ⟨?_, htype, prefixAnn.m_data, prefixAnn, hdecode, hofData, rfl, rfl, rfl⟩
      have hencode : encodeData prefixAnn.m_data = .ok element := helement
      simp only [Announcement.toData, bind, Except.bind, wireEncode, hencode, hdecode]

end Signing

section RoundTrip

variable {iso : IsoTime} {signer : Signer}

theorem content_parse {element : Block} (htype : element.type ≤ 4294967295)
    (hlength : element.value.length < 18446744073709551616) : (makeBlock 21 [element]).parse = .ok [element] := by
  refine parse_makeBlock 21 fun element' helement => ?_
  obtain rfl := List.mem_singleton.mp helement
  exact ⟨htype, hlength⟩

theorem ackData_ok {name : Name} (hname : Name.TypesOk name) (element : Block) :
    Data.Signed (signed signer (ackData name element)) :=
  signed_ok hname (metaInfo_ok (by decide)) rfl

theorem signedBlock_ok {version : ℕ} {name : Name} {announcement : Announcement} (hname : Name.TypesOk name)
    (hfits : Fits iso signer version name announcement) {element : Block}
    (helement : announcement.element iso signer version = .ok element) :
    element.value.length < 18446744073709551616 ∧
      sign signer (ackData name element) >>= (fun result => .ok result.1) =
        .ok (signed signer (ackData name element)) := by
  obtain ⟨block, hblock⟩ := encodeData_ok (ackData_ok hname element : Data.Signed (signed signer _))
  have hlength := hfits element block helement hblock
  have hcontent : (signed signer (ackData name element)).m_content.value.length ≤ block.value.length :=
    length_content_le hblock
  have hle : element.value.length ≤ (signed signer (ackData name element)).m_content.value.length :=
    length_le_makeBlock 21 List.mem_cons_self
  obtain ⟨-, -, hsign⟩ := sign_eq (ackData_ok hname element) hblock hlength
  refine ⟨by omega, ?_⟩
  simp only [hsign, bind, Except.bind]

theorem makeData_ok {version : ℕ} {name : Name} {announcement : Announcement} (hname : Name.TypesOk name)
    (hvalid : announcement.Constructed iso) (hsigned : announcement.HasSignedPacket)
    (hfits : Fits iso signer version name announcement) :
    ∃ data ack, makeData iso signer version name (some announcement) = .ok data ∧ data.m_name = name ∧
      Ack.ofData iso.fromIsoString data = .ok ack ∧
      ack.m_prefixAnn.m_announcedName = announcement.getAnnouncedName ∧
      ack.m_prefixAnn.m_expiration = announcement.getExpiration ∧
      ack.m_prefixAnn.m_validity = announcement.getValidityPeriod := by
  obtain ⟨element, helement⟩ : ∃ element, announcement.element iso signer version = .ok element := by
    cases announcement with
    | made announcedName expiration validity => exact encodeData_ok (announcementData_ok hvalid.1)
    | decoded prefixAnn wire =>
      cases wire with
      | some wire => exact ⟨wire, rfl⟩
      | none => exact encodeData_ok (signed_of_constructed hvalid hsigned)
  obtain ⟨hlength, hsign⟩ := signedBlock_ok hname hfits helement
  obtain ⟨hencode, htype, inner, prefixAnn, hdecode, hofData, hannounced, hexpiration, hvalidity⟩ :=
    element_spec hvalid hsigned helement hlength
  refine ⟨signed signer (ackData name element), ⟨prefixAnn⟩, ?_, rfl, ?_, hannounced, hexpiration, hvalidity⟩
  · rw [makeData]
    cases htoData : announcement.toData iso signer version with
    | error e =>
      rw [htoData] at hencode
      cases hencode
    | ok toData =>
      rw [htoData] at hencode
      have hwire : wireEncode toData.1 toData.2 = .ok element := hencode
      simp only [bind, Except.bind, hwire]
      exact hsign
  · refine (Ack.ofData_ok_iff rfl _).mpr ⟨[element], content_parse (by omega) hlength, ?_⟩
    have hget : Tlv.get (signed signer (ackData name element)).m_content [element] 6 = .ok element := by
      simp only [Tlv.get, Tlv.find, List.find?_cons, htype, decide_true]
    simp only [Ack.announcement, hget, bind, Except.bind, hdecode, hofData]

theorem encodeData_of_wireEncode {data : Data} {block : Block} (h : wireEncode data none = .ok block) :
    encodeData data = .ok block ∧ ∃ decoded, Data.wireDecode block = .ok decoded := by
  cases hencode : encodeData data with
  | error e =>
    simp only [wireEncode, hencode, bind, Except.bind] at h
    cases h
  | ok encoded =>
    cases hdecode : Data.wireDecode encoded with
    | error e =>
      simp only [wireEncode, hencode, hdecode, bind, Except.bind] at h
      cases h
    | ok decoded =>
      simp only [wireEncode, hencode, hdecode, bind, Except.bind] at h
      obtain rfl := Except.ok.inj h
      exact ⟨rfl, decoded, hdecode⟩

/-- The encoder needs the signature info, and the decoder after it the signature value. -/
theorem signature_of_wireEncode {data : Data} (hname : Name.TypesOk data.m_name)
    (hmeta : MetaInfo.WellFormed data.m_metaInfo) (hcontent : data.m_content.type = 21)
    (hinfo : ∀ info ∈ data.m_info, SignatureInfo.WellFormed info) {block : Block}
    (hwire : wireEncode data none = .ok block) (hlength : block.value.length < 18446744073709551616) :
    data.m_info.isSome = true ∧ data.m_value.isSome = true := by
  obtain ⟨hencode, decoded, hdecode⟩ := encodeData_of_wireEncode hwire
  constructor
  · cases hsome : data.m_info with
    | none =>
      rw [encodeData, hsome] at hencode
      cases hencode
    | some info => rfl
  · cases hvalue : data.m_value with
    | none =>
      obtain ⟨e, hfails⟩ := wireDecode_encodeData_error hname hmeta hcontent hinfo hvalue hencode hlength
      cases hdecode.symm.trans hfails
    | some value => rfl

theorem hasSignedPacket_of_makeData {version : ℕ} {name : Name} {announcement : Announcement}
    (hname : Name.TypesOk name) (hvalid : announcement.Constructed iso)
    (hfits : Fits iso signer version name announcement) {data : Data} {ack : Ack}
    (hmake : makeData iso signer version name (some announcement) = .ok data)
    (hack : Ack.ofData iso.fromIsoString data = .ok ack) : announcement.HasSignedPacket := by
  cases announcement with
  | made announcedName expiration validity => trivial
  | decoded prefixAnn wire =>
    cases wire with
    | some wire =>
      have helement : Announcement.element iso signer version (.decoded prefixAnn (some wire)) = .ok wire := rfl
      obtain ⟨hlength, hsign⟩ := signedBlock_ok hname hfits helement
      obtain rfl := Except.ok.inj (hsign.symm.trans hmake)
      obtain ⟨elements, hparse, hannouncement⟩ := (Ack.ofData_ok_iff rfl _).mp hack
      obtain rfl := Except.ok.inj ((content_parse hvalid.2.1 hlength).symm.trans hparse)
      by_contra htype
      change ¬ wire.type = 6 at htype
      have hget : Tlv.find [wire] 6 = none := List.find?_eq_none.mpr (by simpa using htype)
      simp only [Ack.announcement, Tlv.get, hget, bind, Except.bind] at hannouncement
      cases hannouncement
    | none =>
      obtain ⟨-, hdataName, hmeta, hcontent, hinfo, -⟩ := hvalid
      cases hwire : wireEncode prefixAnn.m_data none with
      | error e =>
        simp only [makeData, Announcement.toData, hwire, bind, Except.bind] at hmake
        cases hmake
      | ok block =>
        have helement : Announcement.element iso signer version (.decoded prefixAnn none) = .ok block :=
          (encodeData_of_wireEncode hwire).1
        exact signature_of_wireEncode hdataName hmeta hcontent hinfo hwire (signedBlock_ok hname hfits helement).1

end RoundTrip

section Requests

theorem bigEndian_lt (bytes : List UInt8) : bigEndian bytes < 256 ^ bytes.length := by
  induction bytes using List.reverseRecOn with
  | nil => exact Nat.one_pos
  | append_singleton bytes octet ih =>
    have hoctet := octet.toNat_lt
    rw [bigEndian_append, List.length_append, List.length_singleton, Nat.pow_succ]
    omega

theorem readNonNegativeInteger_lt {block : Block} {number : ℕ} (h : readNonNegativeInteger block = .ok number) :
    number < 18446744073709551616 := by
  unfold readNonNegativeInteger at h
  split at h
  · rename_i hlength
    obtain rfl := Except.ok.inj h
    have hlt := bigEndian_lt block.value
    simp only [List.mem_cons, List.not_mem_nil, or_false] at hlength
    rcases hlength with hlength | hlength | hlength | hlength <;>
      · rw [hlength] at hlt
        omega
  · cases h

theorem milliseconds_lt {number : ℕ} (h : number < 18446744073709551616) :
    milliseconds number < 9223372036854775808 := by
  unfold milliseconds
  split <;> omega

theorem extractPrefixes_mem {name rvPrefix producerSuffix : Name}
    (h : Request.extractPrefixes name = .ok (rvPrefix, producerSuffix)) :
    ∀ component ∈ rvPrefix ++ producerSuffix, component ∈ name := by
  unfold Request.extractPrefixes at h
  dsimp only at h
  split at h
  · cases h
  · split at h
    · cases h
    · split at h
      · obtain ⟨rfl, rfl⟩ := Prod.mk.inj (Except.ok.inj h)
        intro component hcomponent
        rcases List.mem_append.mp hcomponent with hmem | hmem
        · exact List.mem_of_mem_take hmem
        · exact List.mem_of_mem_drop (List.mem_of_mem_take hmem)
      · cases h

theorem ofInterest_spec {interest : Interest} {request : Request} (h : Request.ofInterest interest = .ok request) :
    (∀ component ∈ request.getProducerPrefix, component ∈ interest.m_name) ∧
      ∀ expiration, request.m_expiration = some expiration → expiration < 9223372036854775808 := by
  unfold Request.ofInterest at h
  cases hprefixes : Request.extractPrefixes interest.m_name with
  | error e =>
    rw [hprefixes] at h
    cases h
  | ok prefixes =>
    have hmem := extractPrefixes_mem hprefixes
    rw [hprefixes] at h
    simp only [bind, Except.bind] at h
    repeat' split at h
    all_goals first
      | cases h
        done
      | skip
    · obtain rfl := Except.ok.inj h
      exact ⟨hmem, fun expiration hnone => by cases hnone⟩
    · rename_i hread
      obtain rfl := Except.ok.inj h
      refine ⟨hmem, fun expiration hsome => ?_⟩
      rw [← Option.some.inj hsome]
      exact milliseconds_lt (readNonNegativeInteger_lt hread)

theorem processKiteRequest_some {interest : Interest} {announcement : Announcement}
    (h : processKiteRequest interest = .ok (some announcement)) :
    ∃ request, Request.ofInterest interest = .ok request ∧ 0 ≤ request.m_expiration.getD 1000 ∧
      announcement = .made request.getProducerPrefix (request.m_expiration.getD 1000) none := by
  unfold processKiteRequest at h
  cases hrequest : Request.ofInterest interest with
  | error e =>
    rw [hrequest] at h
    cases e <;> cases h
  | ok request =>
    rw [hrequest] at h
    simp only at h
    split at h
    · cases h
    · cases h
      exact ⟨request, rfl, by omega, rfl⟩

theorem made_valid {iso : IsoTime} {interest : Interest} {request : Request} (hname : Name.TypesOk interest.m_name)
    (hrequest : Request.ofInterest interest = .ok request) (hnonneg : 0 ≤ request.m_expiration.getD 1000) :
    Announcement.Constructed iso (.made request.getProducerPrefix (request.m_expiration.getD 1000) none) := by
  obtain ⟨hmem, hlt⟩ := ofInterest_spec hrequest
  refine ⟨fun component hcomponent => hname component (hmem component hcomponent), hnonneg, ?_, ?_⟩
  · cases hexpiration : request.m_expiration with
    | none =>
      change (1000 : ℤ) < 9223372036854775808
      decide
    | some expiration => exact hlt expiration hexpiration
  · intro period h
    cases h

end Requests

/-- An announcement comes through the acknowledgment, which satisfies the request, if
and only if it was not constructed from a packet without a signature; and what the
rendezvous server acknowledges a request with can match the request. -/
theorem makeData_roundTrip_iff (iso : IsoTime) (signer : Signer) (digest : Data → Component) (version : ℕ) :
    (∀ (request : Request) (now : ℤ) (nonce : ℕ) (interestSigner : Name → Component × Component)
        (announcement : Announcement),
      let interest := KiteRequest.makeInterest request now nonce interestSigner
      Name.TypesOk interest.m_name → announcement.Constructed iso →
      Fits iso signer version interest.m_name announcement →
      ((∃ data ack, makeData iso signer version interest.m_name (some announcement) = .ok data ∧
        Ack.ofData iso.fromIsoString data = .ok ack ∧
        ack.m_prefixAnn.m_announcedName = announcement.getAnnouncedName ∧
        ack.m_prefixAnn.m_expiration = announcement.getExpiration ∧
        ack.m_prefixAnn.m_validity = announcement.getValidityPeriod ∧
        matchesData digest interest.m_name exactSelectors data = true) ↔ announcement.HasSignedPacket)) ∧
    (∀ (interest : Interest) (announcement : Announcement),
      processKiteRequest interest = .ok (some announcement) →
      ∃ request, Request.ofInterest interest = .ok request ∧
        Name.equals announcement.getAnnouncedName request.getProducerPrefix = true ∧
        (Name.TypesOk interest.m_name → Fits iso signer version interest.m_name announcement →
          ∃ data ack, makeData iso signer version interest.m_name (some announcement) = .ok data ∧
            Ack.ofData iso.fromIsoString data = .ok ack ∧ request.canMatch ack = true)) := by
  refine ⟨?_, ?_⟩
  · intro request now nonce interestSigner announcement interest hname hvalid hfits
    constructor
    · rintro ⟨data, ack, hmake, hack, -⟩
      exact hasSignedPacket_of_makeData hname hvalid hfits hmake hack
    · intro hsigned
      obtain ⟨data, ack, hmake, hdataName, hack, hannounced, hexpiration, hvalidity⟩ :=
        makeData_ok hname hvalid hsigned hfits
      exact ⟨data, ack, hmake, hack, hannounced, hexpiration, hvalidity, matchesData_exact digest hdataName⟩
  · intro interest announcement hprocess
    obtain ⟨request, hrequest, hnonneg, rfl⟩ := processKiteRequest_some hprocess
    refine ⟨request, hrequest, name_equals_self _, ?_⟩
    intro hname hfits
    obtain ⟨data, ack, hmake, -, hack, hannounced, -⟩ := makeData_ok hname (made_valid hname hrequest hnonneg) trivial hfits
    refine ⟨data, ack, hmake, hack, ?_⟩
    rw [Request.canMatch, hannounced]
    exact name_equals_self _

section Examples

def isoSeconds : IsoTime where
  toIsoString t := toBigEndian 15 (t + 9223372036).toNat
  fromIsoString bytes := .ok (bigEndian bytes - 9223372036)
  length_toIsoString t _ := toBigEndian_length 15 _
  fromIsoString_toIsoString t ht := by
    obtain ⟨hle, hle'⟩ := ht
    rw [bigEndian_toBigEndian (by omega)]
    exact congrArg Except.ok (by omega)

def digestSha256 : Signer where
  info := ⟨0, none, []⟩
  info_wellFormed := by
    refine ⟨Nat.zero_le _, ?_, ?_, ?_⟩
    · intro keyLocator h
      cases h
    · intro element h
      cases h
    · intro _ element h
      cases h
  value := fun _ => List.replicate 32 0

def aliceRequest : Request := ⟨[⟨8, [114, 118]⟩], [⟨8, [97]⟩], 0, 0, some 1000⟩

def aliceInterest : Interest := KiteRequest.makeInterest aliceRequest 1500 7 (fun _ => (⟨22, []⟩, ⟨23, []⟩))

theorem fits_aliceInterest :
    Fits isoSeconds digestSha256 1 aliceInterest.m_name (.made aliceRequest.getProducerPrefix 1000 none) := by
  intro element block helement hblock
  have h : Except.ok _ = Except.ok element := helement
  obtain rfl := Except.ok.inj h
  have h' : Except.ok _ = Except.ok block := hblock
  obtain rfl := Except.ok.inj h'
  decide

theorem makeData_roundTrip_iff_alice :
    ∃ data ack, makeData isoSeconds digestSha256 1 aliceInterest.m_name
        (some (.made aliceRequest.getProducerPrefix 1000 none)) = .ok data ∧
      Ack.ofData isoSeconds.fromIsoString data = .ok ack ∧
      ack.m_prefixAnn.m_announcedName = aliceRequest.getProducerPrefix ∧ ack.m_prefixAnn.m_expiration = 1000 ∧
      ack.m_prefixAnn.m_validity = none ∧
      matchesData (fun _ => ⟨1, List.replicate 32 0⟩) aliceInterest.m_name exactSelectors data = true :=
  ((makeData_roundTrip_iff isoSeconds digestSha256 (fun _ => ⟨1, List.replicate 32 0⟩) 1).1 aliceRequest 1500 7
    (fun _ => (⟨22, []⟩, ⟨23, []⟩)) (.made aliceRequest.getProducerPrefix 1000 none)
    (by unfold Name.TypesOk; decide)
    ⟨by unfold Name.TypesOk; decide, by decide, by decide, fun _ h => nomatch h⟩ fits_aliceInterest).mpr trivial

def unsignedData : Data := announcementData isoSeconds 1 aliceRequest.getProducerPrefix 1000 none

/-- An announcement of a packet that has not been signed cannot be put into an acknowledgment. -/
theorem unsigned_not_acknowledged :
    PrefixAnnouncement.ofData isoSeconds.fromIsoString unsignedData =
        .ok ⟨unsignedData, aliceRequest.getProducerPrefix, 1000, none⟩ ∧
      makeData isoSeconds digestSha256 1 aliceInterest.m_name
          (some (.decoded ⟨unsignedData, aliceRequest.getProducerPrefix, 1000, none⟩ none)) =
        .error (.tlvError "Requested wire format, but Data has not been signed") :=
  ⟨by decide, rfl⟩

end Examples

end LeoNdn.KiteAcknowledgment
