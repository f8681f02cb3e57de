import LeoNdn.Tlv
import Mathlib.Data.Int.Notation

/-!
Names, the fields of Interest and Data packets that forwarding reads, and the
decoder of a Data packet.
-/

namespace LeoNdn.NdnPacket

open LeoNdn.Tlv

abbrev Component := Block

abbrev Name := List Component

/-- `Component::equals`; a block of the greatest type counts as empty. -/
def Component.equals (component other : Component) : Bool :=
  component.type = other.type && component.value.length = other.value.length &&
    (component.type = 4294967295 || component.value = other.value)

def Name.equals (name other : Name) : Bool :=
  name.length = other.length && (name.zip other).all (fun e => Component.equals e.1 e.2)

def Name.isPrefixOf (name other : Name) : Bool :=
  name.length ≤ other.length && (name.zip other).all (fun e => Component.equals e.1 e.2)

/-- `at(-k)`. -/
def Name.atBack (name : Name) (k : ℕ) : Except Exception Component :=
  match name.reverse[k - 1]? with
  | some component => .ok component
  | none => .error (.tlvError "Requested component does not exist (out of bounds)")

def Component.isNumberWithMarker (marker : UInt8) (component : Component) : Bool :=
  component.type ≠ 4294967295 && component.value.head? = some marker && component.value.length ∈ [2, 3, 5, 9]

def Component.isVersion (component : Component) : Bool := Component.isNumberWithMarker 0xFD component

def Component.isSegment (component : Component) : Bool := Component.isNumberWithMarker 0x00 component

def Component.toNumber (component : Component) : Except Exception ℕ :=
  if component.value.length ∈ [1, 2, 4, 8] then readNonNegativeInteger component
  else .error (.tlvError "Name component does not have nonNegativeInteger value")

/-- The constructor of a component from a block. -/
def Component.ensureValid (block : Block) : Except Exception Component :=
  if block.type < 1 ∨ block.type > 65535 then
    .error (.tlvError ("TLV-TYPE " ++ toString block.type ++ " is not a valid NameComponent"))
  else if block.type = 1 ∧ block.value.length ≠ 32 then
    .error (.tlvError "ImplicitSha256DigestComponent TLV-LENGTH must be 32")
  else if block.type = 2 ∧ block.value.length ≠ 32 then
    .error (.tlvError "ParametersSha256DigestComponent TLV-LENGTH must be 32")
  else .ok block

/-- `/localhost`. -/
def LOCALHOST : Name := [⟨8, [108, 111, 99, 97, 108, 104, 111, 115, 116]⟩]

def Name.wireDecode (wire : Block) : Except Exception Name :=
  if wire.type ≠ 7 then .error (.tlvError "Unexpected TLV type when decoding Name")
  else wire.parse

/-- A number of 64 bits as a count of milliseconds, which is signed. -/
def milliseconds (number : ℕ) : ℤ := if number < 9223372036854775808 then number else number - 18446744073709551616

structure MetaInfo where
  m_type : ℕ
  m_freshnessPeriod : ℤ
  m_finalBlockId : Option Component
  m_appMetaInfo : List Block
  deriving DecidableEq, Repr

/-- The first element, if it has the type, and what comes after it. -/
def takeType (type : ℕ) : List Block → Option Block × List Block
  | [] => (none, [])
  | element :: elements => if element.type = type then (some element, elements) else (none, element :: elements)

def MetaInfo.wireDecode (wire : Block) : Except Exception MetaInfo := do
  let elements ← wire.parse
  let (contentType, elements) := takeType 24 elements
  let type ← match contentType with
    | some element => readNonNegativeIntegerAs 4294967295 element
    | none => .ok 0
  let (freshnessPeriod, elements) := takeType 25 elements
  let freshness ← match freshnessPeriod with
    | some element => do
      let number ← readNonNegativeInteger element
      .ok (milliseconds number)
    | none => .ok 0
  let (finalBlockId, elements) := takeType 26 elements
  let final ← match finalBlockId with
    | some element => do
      let block ← element.blockFromValue
      let component ← Component.ensureValid block
      .ok (some component)
    | none => .ok none
  .ok ⟨type, freshness, final, elements⟩

inductive KeyLocator
  | None
  | Name (name : Name)
  | KeyDigest (digest : Block)
  | Unknown
  deriving DecidableEq, Repr

def KeyLocator.wireDecode (wire : Block) : Except Exception KeyLocator := do
  let elements ← wire.parse
  match elements with
  | [] => .ok .None
  | element :: _ =>
    if element.type = 7 then do
      let name ← Name.wireDecode element
      .ok (.Name name)
    else if element.type = 29 then .ok (.KeyDigest element)
    else .ok .Unknown

structure SignatureInfo where
  m_type : ℕ
  m_keyLocator : Option KeyLocator
  m_otherTlvs : List Block
  deriving DecidableEq, Repr

def SignatureInfo.wireDecode (wire : Block) : Except Exception SignatureInfo := do
  let elements ← wire.parse
  let (signatureType, elements) := takeType 27 elements
  match signatureType with
  | none => .error (.tlvError "Missing SignatureType in SignatureInfo")
  | some element => do
    let type ← readNonNegativeIntegerAs 65535 element
    let (keyLocator, elements) := takeType 28 elements
    let locator ← match keyLocator with
      | some element => do
        let locator ← KeyLocator.wireDecode element
        .ok (some locator)
      | none => .ok none
    .ok ⟨type, locator, elements⟩

structure Data where
  m_name : Name
  m_metaInfo : MetaInfo
  m_content : Block
  m_info : Option SignatureInfo
  m_value : Option Block
  deriving DecidableEq, Repr

/-- The loop over the elements after the name; `lastElement` is the index of the
last one that has been recognized. -/
def Data.decodeElements : ℕ → Data → List Block → Except Exception Data
  | _, data, [] => .ok data
  | lastElement, data, element :: elements =>
    if element.type = 20 then
      if lastElement ≥ 2 then .error (.tlvError "MetaInfo element is out of order")
      else do
        let metaInfo ← MetaInfo.wireDecode element
        decodeElements 2 { data with m_metaInfo := metaInfo } elements
    else if element.type = 21 then
      if lastElement ≥ 3 then .error (.tlvError "Content element is out of order")
      else decodeElements 3 { data with m_content := element } elements
    else if element.type = 22 then
      if lastElement ≥ 4 then .error (.tlvError "SignatureInfo element is out of order")
      else do
        let info ← SignatureInfo.wireDecode element
        decodeElements 4 { data with m_info := some info } elements
    else if element.type = 23 then
      if lastElement ≥ 5 then .error (.tlvError "SignatureValue element is out of order")
      else decodeElements 5 { data with m_value := some element } elements
    else if isCriticalType element.type then
      .error (.tlvError ("unrecognized element of critical type " ++ toString element.type))
    else decodeElements lastElement data elements

def Data.wireDecode (wire : Block) : Except Exception Data := do
  let elements ← wire.parse
  match elements with
  | [] => .error (.tlvError "Name element is missing or out of order")
  | element :: elements =>
    if element.type ≠ 7 then .error (.tlvError "Name element is missing or out of order")
    else do
      let name ← Name.wireDecode element
      let data ← decodeElements 1 ⟨name, ⟨0, 0, none, []⟩, ⟨21, []⟩, none, none⟩ elements
      if data.m_info.isNone then .error (.tlvError "SignatureInfo element is missing")
      else .ok data

def Data.getContentType (data : Data) : ℕ := data.m_metaInfo.m_type

def Data.getFreshnessPeriod (data : Data) : ℤ := data.m_metaInfo.m_freshnessPeriod

/-- The fields of an Interest that the modelled pipelines read; no parameters
are a block that is empty. -/
structure Interest where
  m_name : Name
  m_mustBeFresh : Bool
  m_parameters : Option Block
  deriving DecidableEq, Repr

end LeoNdn.NdnPacket
