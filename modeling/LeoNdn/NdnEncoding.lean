import LeoNdn.NdnPacket
import LeoNdn.TlvEncoding
import Mathlib.Order.Basic

/-!
The encoder of a Data packet, and that the decoder gives the packet back.
-/

namespace LeoNdn.NdnEncoding

open LeoNdn.Tlv LeoNdn.TlvEncoding LeoNdn.NdnPacket

/-- A count of milliseconds as an unsigned number of 64 bits. -/
def count (duration : ℤ) : ℕ := (duration % 18446744073709551616).toNat

def encodeName (name : Name) : Block := makeBlock 7 name

def MetaInfo.elements (metaInfo : MetaInfo) : List Block :=
  (if metaInfo.m_type = 0 then none else some (makeNonNegativeIntegerBlock 24 metaInfo.m_type)).toList ++
    ((if metaInfo.m_freshnessPeriod = 0 then none
      else some (makeNonNegativeIntegerBlock 25 (count metaInfo.m_freshnessPeriod))).toList ++
    ((metaInfo.m_finalBlockId.map (fun component => makeBlock 26 [component])).toList ++
    metaInfo.m_appMetaInfo))

def encodeMetaInfo (metaInfo : MetaInfo) : Block := makeBlock 20 (MetaInfo.elements metaInfo)

def encodeKeyLocator : KeyLocator → Except Exception Block
  | .None => .ok (makeBlock 28 [])
  | .Name name => .ok (makeBlock 28 [encodeName name])
  | .KeyDigest digest => .ok (makeBlock 28 [digest])
  | .Unknown => .error (.tlvError "Unsupported KeyLocator type")

def encodeSignatureInfo (info : SignatureInfo) : Except Exception Block :=
  match info.m_keyLocator with
  | none => .ok (makeBlock 22 (makeNonNegativeIntegerBlock 27 info.m_type :: info.m_otherTlvs))
  | some keyLocator => do
    let keyLocator ← encodeKeyLocator keyLocator
    .ok (makeBlock 22 (makeNonNegativeIntegerBlock 27 info.m_type :: keyLocator :: info.m_otherTlvs))

/-- `Data::wireEncode` without a wire to return; a value that is missing is
encoded as a block of the invalid type. -/
def encodeData (data : Data) : Except Exception Block :=
  match data.m_info with
  | none => .error (.tlvError "Requested wire format, but Data has not been signed")
  | some info => do
    let info ← encodeSignatureInfo info
    .ok (makeBlock 6 [encodeName data.m_name, encodeMetaInfo data.m_metaInfo, data.m_content, info,
      data.m_value.getD ⟨4294967295, []⟩])

section Sizes

theorem length_le_makeBlock {element : Block} {elements : List Block} (type : ℕ) (h : element ∈ elements) :
    element.value.length ≤ (makeBlock type elements).value.length := by
  obtain ⟨before, after, rfl⟩ := List.append_of_mem h
  simp only [makeBlock, List.flatMap_append, List.flatMap_cons, List.length_append, wire]
  omega

theorem encodable_elements {type : ℕ} {elements : List Block} (htypes : ∀ element ∈ elements, element.type ≤ 4294967295)
    (hlength : (makeBlock type elements).value.length < 18446744073709551616) :
    ∀ element ∈ elements, Encodable element :=
  fun element helement => ⟨htypes element helement, (length_le_makeBlock type helement).trans_lt hlength⟩

theorem parse_elements {type : ℕ} {elements : List Block} (htypes : ∀ element ∈ elements, element.type ≤ 4294967295)
    (hlength : (makeBlock type elements).value.length < 18446744073709551616) :
    (makeBlock type elements).parse = .ok elements :=
  parse_makeBlock type (encodable_elements htypes hlength)

end Sizes

section WellFormed

def Name.TypesOk (name : Name) : Prop := ∀ component ∈ name, component.type ≤ 4294967295

structure MetaInfo.WellFormed (metaInfo : MetaInfo) : Prop where
  type_le : metaInfo.m_type ≤ 4294967295
  freshness_nonneg : 0 ≤ metaInfo.m_freshnessPeriod
  freshness_lt : metaInfo.m_freshnessPeriod < 9223372036854775808
  final_valid : ∀ component, metaInfo.m_finalBlockId = some component → Component.ensureValid component = .ok component
  app_types : ∀ element ∈ metaInfo.m_appMetaInfo, 128 ≤ element.type ∧ element.type ≤ 252

def KeyLocator.WellFormed : KeyLocator → Prop
  | .None => True
  | .Name name => Name.TypesOk name
  | .KeyDigest digest => digest.type = 29
  | .Unknown => False

structure SignatureInfo.WellFormed (info : SignatureInfo) : Prop where
  type_le : info.m_type ≤ 65535
  keyLocator : ∀ keyLocator, info.m_keyLocator = some keyLocator → KeyLocator.WellFormed keyLocator
  otherTlvs : ∀ element ∈ info.m_otherTlvs, element.type ≤ 4294967295
  first : info.m_keyLocator = none → ∀ element, info.m_otherTlvs.head? = some element → element.type ≠ 28

structure Data.Signed (data : Data) : Prop where
  name : Name.TypesOk data.m_name
  metaInfo : MetaInfo.WellFormed data.m_metaInfo
  content : data.m_content.type = 21
  info : ∃ info, data.m_info = some info ∧ SignatureInfo.WellFormed info
  value : ∃ value, data.m_value = some value ∧ value.type = 23

end WellFormed

section RoundTrip

theorem count_lt (duration : ℤ) : count duration < 18446744073709551616 := by
  unfold count
  omega

theorem milliseconds_count {duration : ℤ} (hnonneg : 0 ≤ duration) (hlt : duration < 9223372036854775808) :
    milliseconds (count duration) = duration := by
  unfold milliseconds count
  split <;> omega

theorem wireDecode_encodeName {name : Name} (htypes : Name.TypesOk name)
    (hlength : (encodeName name).value.length < 18446744073709551616) :
    Name.wireDecode (encodeName name) = .ok name := by
  rw [Name.wireDecode, if_neg (by exact fun h => h rfl)]
  exact parse_elements htypes hlength

theorem takeType_append {type : ℕ} {first : Option Block} {rest : List Block}
    (hfirst : ∀ element, first = some element → element.type = type) (hrest : ∀ element ∈ rest, element.type ≠ type) :
    takeType type (first.toList ++ rest) = (first, rest) := by
  cases first with
  | some element => exact if_pos (hfirst element rfl)
  | none =>
    cases rest with
    | nil => rfl
    | cons element rest => exact if_neg (hrest element List.mem_cons_self)

theorem readNonNegativeIntegerAs_encode {max value type : ℕ} (h : value ≤ max) (hlt : value < 18446744073709551616) :
    readNonNegativeIntegerAs max (makeNonNegativeIntegerBlock type value) = .ok value := by
  rw [readNonNegativeIntegerAs, readNonNegativeInteger_encode hlt]
  exact if_neg (by omega)

theorem blockFromValue_makeBlock {type : ℕ} {element : Block} (h : Encodable element) :
    (makeBlock type [element]).blockFromValue = .ok element := by
  have hvalue : (makeBlock type [element]).value =
      encodeVarNumber element.type ++ (encodeVarNumber element.value.length ++ element.value) := by
    simp only [makeBlock, List.flatMap_cons, List.flatMap_nil, List.append_nil, wire, List.append_assoc]
  rw [Block.blockFromValue, hvalue, readType_encodeVarNumber h.1]
  simp only [bind, Except.bind]
  rw [readVarNumber_encodeVarNumber h.2]
  simp

theorem ensureValid_type {component : Component} (h : Component.ensureValid component = .ok component) :
    component.type ≤ 65535 := by
  by_contra hlt
  rw [Component.ensureValid, if_pos (Or.inr (by omega))] at h
  cases h

theorem wireDecode_encodeMetaInfo {metaInfo : MetaInfo} (hwf : MetaInfo.WellFormed metaInfo)
    (hlength : (encodeMetaInfo metaInfo).value.length < 18446744073709551616) :
    MetaInfo.wireDecode (encodeMetaInfo metaInfo) = .ok metaInfo := by
  obtain ⟨type, freshness, final, app⟩ := metaInfo
  obtain ⟨htype, hnonneg, hlt, hfinal, happ⟩ := hwf
  simp only at htype hnonneg hlt hfinal happ
  have happ' : ∀ n, n < 128 → ∀ element ∈ app, element.type ≠ n := by
    intro n hn element helement
    have h := (happ element helement).1
    omega
  have hfinal' : ∀ element, final.map (fun component => makeBlock 26 [component]) = some element → element.type = 26 := by
    intro element h
    obtain ⟨component, -, rfl⟩ := Option.map_eq_some_iff.mp h
    rfl
  have hfreshness' : ∀ element, (if freshness = 0 then none
      else some (makeNonNegativeIntegerBlock 25 (count freshness))) = some element → element.type = 25 := by
    intro element h
    split at h
    · cases h
    · rw [← Option.some.inj h]
      rfl
  have htype' : ∀ element, (if type = 0 then none else some (makeNonNegativeIntegerBlock 24 type)) = some element →
      element.type = 24 := by
    intro element h
    split at h
    · cases h
    · rw [← Option.some.inj h]
      rfl
  have htypes : ∀ element ∈ MetaInfo.elements ⟨type, freshness, final, app⟩, element.type ≤ 4294967295 := by
    intro element helement
    simp only [MetaInfo.elements, List.mem_append, Option.mem_toList] at helement
    rcases helement with h | h | h | h
    · rw [htype' element h]
      decide
    · rw [hfreshness' element h]
      decide
    · rw [hfinal' element h]
      decide
    · exact (happ element h).2.trans (by decide)
  have hencodable := encodable_elements htypes hlength
  have hcomponent : ∀ component, final = some component →
      (makeBlock 26 [component]).blockFromValue = .ok component ∧ Component.ensureValid component = .ok component := by
    rintro component rfl
    have hvalid := hfinal component rfl
    have hblock : Encodable (makeBlock 26 [component]) := by
      refine hencodable _ ?_
      simp only [MetaInfo.elements, List.mem_append, Option.mem_toList]
      exact Or.inr (Or.inr (Or.inl rfl))
    refine ⟨blockFromValue_makeBlock (encodable_elements ?_ hblock.2 component List.mem_cons_self), hvalid⟩
    intro element helement
    rw [List.mem_singleton.mp helement]
    exact (ensureValid_type hvalid).trans (by decide)
  have hreadType : readNonNegativeIntegerAs 4294967295 (makeNonNegativeIntegerBlock 24 type) = .ok type :=
    readNonNegativeIntegerAs_encode htype (by omega)
  have hreadFreshness := readNonNegativeInteger_encode (count_lt freshness) 25
  have hms := milliseconds_count hnonneg hlt
  rw [MetaInfo.wireDecode, encodeMetaInfo, parse_makeBlock 20 hencodable]
  simp only [bind, Except.bind, MetaInfo.elements]
  rw [takeType_append htype', takeType_append hfreshness', takeType_append hfinal' (happ' 26 (by decide))]
  · by_cases htype0 : type = 0 <;> by_cases hfreshness0 : freshness = 0 <;> cases final with
    | none => simp [htype0, hfreshness0, hreadType, hreadFreshness, hms]
    | some component =>
      obtain ⟨hread, hvalid⟩ := hcomponent component rfl
      simp [htype0, hfreshness0, hreadType, hreadFreshness, hms, hread, hvalid]
  · intro element helement
    rcases List.mem_append.mp helement with h | h
    · rw [hfinal' element (Option.mem_toList.mp h)]
      decide
    · exact happ' 25 (by decide) element h
  · intro element helement
    simp only [List.mem_append, Option.mem_toList] at helement
    rcases helement with h | h | h
    · rw [hfreshness' element h]
      decide
    · rw [hfinal' element h]
      decide
    · exact happ' 24 (by decide) element h

theorem wireDecode_encodeKeyLocator {keyLocator : KeyLocator} (hwf : KeyLocator.WellFormed keyLocator) {block : Block}
    (hencode : encodeKeyLocator keyLocator = .ok block) (hlength : block.value.length < 18446744073709551616) :
    block.type = 28 ∧ KeyLocator.wireDecode block = .ok keyLocator := by
  cases keyLocator with
  | None =>
    obtain rfl := Except.ok.inj hencode
    exact ⟨rfl, rfl⟩
  | Name name =>
    obtain rfl := Except.ok.inj hencode
    have htypes : ∀ element ∈ [encodeName name], element.type ≤ 4294967295 := by
      intro element helement
      rw [List.mem_singleton.mp helement]
      change 7 ≤ 4294967295
      decide
    have hname := wireDecode_encodeName hwf (encodable_elements htypes hlength _ List.mem_cons_self).2
    refine ⟨rfl, ?_⟩
    rw [KeyLocator.wireDecode, parse_elements htypes hlength]
    simp only [bind, Except.bind, hname]
    rfl
  | KeyDigest digest =>
    obtain rfl := Except.ok.inj hencode
    have hdigest : digest.type = 29 := hwf
    have htypes : ∀ element ∈ [digest], element.type ≤ 4294967295 := by
      intro element helement
      rw [List.mem_singleton.mp helement, hdigest]
      decide
    refine ⟨rfl, ?_⟩
    rw [KeyLocator.wireDecode, parse_elements htypes hlength]
    simp [bind, Except.bind, hdigest]
  | Unknown => exact absurd hwf id

theorem encodeKeyLocator_ok {keyLocator : KeyLocator} (hwf : KeyLocator.WellFormed keyLocator) :
    ∃ block, encodeKeyLocator keyLocator = .ok block := by
  cases keyLocator with
  | None => exact ⟨_, rfl⟩
  | Name name => exact ⟨_, rfl⟩
  | KeyDigest digest => exact ⟨_, rfl⟩
  | Unknown => exact absurd hwf id

theorem encodeSignatureInfo_ok {info : SignatureInfo} (hwf : SignatureInfo.WellFormed info) :
    ∃ block, encodeSignatureInfo info = .ok block := by
  unfold encodeSignatureInfo
  cases hlocator : info.m_keyLocator with
  | none => exact ⟨_, rfl⟩
  | some keyLocator =>
    obtain ⟨block, hblock⟩ := encodeKeyLocator_ok (hwf.keyLocator keyLocator hlocator)
    refine ⟨makeBlock 22 (makeNonNegativeIntegerBlock 27 info.m_type :: block :: info.m_otherTlvs), ?_⟩
    simp only [hblock, bind, Except.bind]

theorem wireDecode_encodeSignatureInfo {info : SignatureInfo} (hwf : SignatureInfo.WellFormed info) {block : Block}
    (hencode : encodeSignatureInfo info = .ok block) (hlength : block.value.length < 18446744073709551616) :
    block.type = 22 ∧ SignatureInfo.wireDecode block = .ok info := by
  obtain ⟨type, keyLocator, otherTlvs⟩ := info
  obtain ⟨htype, hlocator, hothers, hhead⟩ := hwf
  simp only at htype hlocator hothers hhead
  have hreadType : readNonNegativeIntegerAs 65535 (makeNonNegativeIntegerBlock 27 type) = .ok type :=
    readNonNegativeIntegerAs_encode htype (by omega)
  cases keyLocator with
  | none =>
    obtain rfl := Except.ok.inj hencode
    have htypes : ∀ element ∈ makeNonNegativeIntegerBlock 27 type :: otherTlvs, element.type ≤ 4294967295 := by
      intro element helement
      rcases List.mem_cons.mp helement with rfl | h
      · change 27 ≤ 4294967295
        decide
      · exact hothers element h
    have htake : takeType 28 otherTlvs = (none, otherTlvs) := by
      cases otherTlvs with
      | nil => rfl
      | cons element otherTlvs => exact if_neg (hhead rfl element rfl)
    refine ⟨rfl, ?_⟩
    rw [SignatureInfo.wireDecode, parse_elements htypes hlength]
    have hfirst : takeType 27 (makeNonNegativeIntegerBlock 27 type :: otherTlvs) =
        (some (makeNonNegativeIntegerBlock 27 type), otherTlvs) := rfl
    simp only [bind, Except.bind, hfirst, htake, hreadType]
  | some keyLocator =>
    cases hkey : encodeKeyLocator keyLocator with
    | error e =>
      simp only [encodeSignatureInfo, hkey, bind, Except.bind] at hencode
      cases hencode
    | ok keyBlock =>
      simp only [encodeSignatureInfo, hkey, bind, Except.bind] at hencode
      obtain rfl := Except.ok.inj hencode
      have hkeyLength : keyBlock.value.length < 18446744073709551616 :=
        (length_le_makeBlock 22 (List.mem_cons_of_mem _ List.mem_cons_self)).trans_lt hlength
      obtain ⟨hkeyType, hkeyDecode⟩ := wireDecode_encodeKeyLocator (hlocator keyLocator rfl) hkey hkeyLength
      have htypes : ∀ element ∈ makeNonNegativeIntegerBlock 27 type :: keyBlock :: otherTlvs,
          element.type ≤ 4294967295 := by
        intro element helement
        rcases List.mem_cons.mp helement with rfl | h
        · change 27 ≤ 4294967295
          decide
        · rcases List.mem_cons.mp h with rfl | h
          · omega
          · exact hothers element h
      refine ⟨rfl, ?_⟩
      rw [SignatureInfo.wireDecode, parse_elements htypes hlength]
      have hfirst : takeType 27 (makeNonNegativeIntegerBlock 27 type :: keyBlock :: otherTlvs) =
          (some (makeNonNegativeIntegerBlock 27 type), keyBlock :: otherTlvs) := rfl
      have htake : takeType 28 (keyBlock :: otherTlvs) = (some keyBlock, otherTlvs) := if_pos hkeyType
      simp only [bind, Except.bind, hfirst, htake, hreadType, hkeyDecode]

/-- What is decoded from the elements of a packet depends on the last one: it is the
signature value, or the invalid block that is there in its stead. -/
theorem wireDecode_packet {name : Name} {metaInfo : MetaInfo} {content : Block} {info : SignatureInfo}
    {infoBlock value : Block} (hname : Name.TypesOk name) (hmeta : MetaInfo.WellFormed metaInfo)
    (hcontent : content.type = 21) (hinfo : SignatureInfo.WellFormed info)
    (hinfoBlock : encodeSignatureInfo info = .ok infoBlock) (hvalue : value.type = 23 ∨ value.type = 4294967295)
    (hlength : (makeBlock 6 [encodeName name, encodeMetaInfo metaInfo, content, infoBlock, value]).value.length <
      18446744073709551616) :
    Data.wireDecode (makeBlock 6 [encodeName name, encodeMetaInfo metaInfo, content, infoBlock, value]) =
      if value.type = 23 then .ok ⟨name, metaInfo, content, some info, some value⟩
      else .error (.tlvError ("unrecognized element of critical type " ++ toString value.type)) := by
  have hlengths : ∀ element ∈ [encodeName name, encodeMetaInfo metaInfo, content, infoBlock, value],
      element.value.length < 18446744073709551616 :=
    fun element helement => (length_le_makeBlock 6 helement).trans_lt hlength
  obtain ⟨hinfoType, hinfoDecode⟩ := wireDecode_encodeSignatureInfo hinfo hinfoBlock (hlengths _ (by simp))
  have hnameDecode := wireDecode_encodeName hname (hlengths _ (by simp))
  have hmetaDecode := wireDecode_encodeMetaInfo hmeta (hlengths _ (by simp))
  have htypes : ∀ element ∈ [encodeName name, encodeMetaInfo metaInfo, content, infoBlock, value],
      element.type ≤ 4294967295 := by
    intro element helement
    simp only [List.mem_cons, List.not_mem_nil, or_false] at helement
    rcases helement with rfl | rfl | rfl | rfl | rfl
    · change 7 ≤ 4294967295
      decide
    · change 20 ≤ 4294967295
      decide
    · omega
    · omega
    · omega
  rw [Data.wireDecode, parse_elements htypes hlength]
  have hnameType : (encodeName name).type = 7 := rfl
  have hmetaType : (encodeMetaInfo metaInfo).type = 20 := rfl
  rcases hvalue with hvalue | hvalue
  · simp [bind, Except.bind, hnameType, hnameDecode, Data.decodeElements, hmetaType, hmetaDecode, hcontent, hinfoType,
      hinfoDecode, hvalue]
  · simp [bind, Except.bind, hnameType, hnameDecode, Data.decodeElements, hmetaType, hmetaDecode, hcontent, hinfoType,
      hinfoDecode, hvalue, isCriticalType]

theorem wireDecode_encodeData {data : Data} (hsigned : Data.Signed data) {block : Block}
    (hencode : encodeData data = .ok block) (hlength : block.value.length < 18446744073709551616) :
    block.type = 6 ∧ Data.wireDecode block = .ok data := by
  obtain ⟨name, metaInfo, content, info, value⟩ := data
  obtain ⟨hname, hmeta, hcontent, ⟨info, rfl, hinfo⟩, ⟨value, rfl, hvalue⟩⟩ := hsigned
  obtain ⟨infoBlock, hinfoBlock⟩ := encodeSignatureInfo_ok hinfo
  simp only [encodeData, hinfoBlock, bind, Except.bind, Option.getD_some] at hencode
  obtain rfl := Except.ok.inj hencode
  exact ⟨rfl, (wireDecode_packet hname hmeta hcontent hinfo hinfoBlock (Or.inl hvalue) hlength).trans (if_pos hvalue)⟩

theorem wireDecode_encodeData_error {data : Data} (hname : Name.TypesOk data.m_name)
    (hmeta : MetaInfo.WellFormed data.m_metaInfo) (hcontent : data.m_content.type = 21)
    (hinfo : ∀ info ∈ data.m_info, SignatureInfo.WellFormed info) (hvalue : data.m_value = none) {block : Block}
    (hencode : encodeData data = .ok block) (hlength : block.value.length < 18446744073709551616) :
    ∃ e, Data.wireDecode block = .error e := by
  obtain ⟨name, metaInfo, content, info, value⟩ := data
  obtain rfl : value = none := hvalue
  cases info with
  | none => cases hencode
  | some info =>
    obtain ⟨infoBlock, hinfoBlock⟩ := encodeSignatureInfo_ok (hinfo info rfl)
    simp only [encodeData, hinfoBlock, bind, Except.bind, Option.getD_none] at hencode
    obtain rfl := Except.ok.inj hencode
    exact ⟨_, (wireDecode_packet hname hmeta hcontent (hinfo info rfl) hinfoBlock (Or.inr rfl) hlength).trans
      (if_neg (by decide))⟩

end RoundTrip

end LeoNdn.NdnEncoding
