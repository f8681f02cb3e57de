import LeoNdn.NdnEncoding

/-!
The selectors of an Interest: the components that it excludes, and the Data
packets that it matches.
-/

namespace LeoNdn.InterestSelectors

open LeoNdn.Tlv LeoNdn.NdnPacket LeoNdn.NdnEncoding

def memcmp : List UInt8 → List UInt8 → Ordering
  | [], [] => .eq
  | [], _ :: _ => .lt
  | _ :: _, [] => .gt
  | octet :: octets, other :: others => (compare octet.toNat other.toNat).then (memcmp octets others)

/-- `Component::compare`: the type first, then the length, then the value. -/
def compareComponents (component other : Component) : Ordering :=
  (compare component.type other.type).then
    ((compare component.value.length other.value.length).then (memcmp component.value other.value))

section Order

open Std

theorem memcmp_eq (octets others : List UInt8) :
    memcmp octets others = List.compareLex (fun octet other => compare octet.toNat other.toNat) octets others := by
  induction octets generalizing others with
  | nil => cases others <;> rfl
  | cons octet octets ih =>
    cases others with
    | nil => rfl
    | cons other others => rw [memcmp, ih, List.compareLex_cons_cons]

theorem compareComponents_eq : compareComponents = compareLex (compareOn Block.type)
    (compareLex (compareOn (fun component => component.value.length)) (fun component other =>
      List.compareLex (compareOn UInt8.toNat) component.value other.value)) := by
  funext component other
  rw [compareComponents, memcmp_eq]
  rfl

instance transCmp_compareComponents : TransCmp compareComponents := by
  rw [compareComponents_eq]
  have hvalues : TransCmp (List.compareLex (compareOn UInt8.toNat)) := inferInstance
  have hvalue : TransCmp (fun component other : Component =>
      List.compareLex (compareOn UInt8.toNat) component.value other.value) :=
    { eq_swap := hvalues.eq_swap, isLE_trans := hvalues.isLE_trans }
  infer_instance

end Order

inductive ExcludeComponent
  | negInf
  | component (component : Component)
  deriving DecidableEq, Repr

/-- `operator>`. -/
def ExcludeComponent.isGreater : ExcludeComponent → ExcludeComponent → Bool
  | .component _, .negInf => true
  | .negInf, _ => false
  | .component first, .component second => compareComponents first second = .gt

/-- The keys are in descending order; each with whether what lies between it and the
next greater key is excluded too. -/
structure Exclude where
  m_entries : List (ExcludeComponent × Bool)
  deriving DecidableEq, Repr

/-- The entries from `lower_bound` on. -/
def Exclude.lowerBound (exclude : Exclude) (key : ExcludeComponent) : List (ExcludeComponent × Bool) :=
  exclude.m_entries.dropWhile (fun entry => entry.1.isGreater key)

def Exclude.isExcluded (exclude : Exclude) (comp : Component) : Bool :=
  match exclude.lowerBound (.component comp) with
  | [] => false
  | (.negInf, hasAny) :: _ => hasAny
  | (.component component, hasAny) :: _ => hasAny || Component.equals component comp

/-- A locator that has been decoded keeps its wire. -/
structure PublisherKeyLocator where
  locator : KeyLocator
  m_wire : Option Block
  deriving DecidableEq, Repr

def PublisherKeyLocator.wireEncode (keyLocator : PublisherKeyLocator) : Except Exception Block :=
  match keyLocator.m_wire with
  | some wire => .ok wire
  | none => encodeKeyLocator keyLocator.locator

structure Selectors where
  m_minSuffixComponents : ℤ
  m_maxSuffixComponents : ℤ
  m_publisherPublicKeyLocator : PublisherKeyLocator
  m_exclude : Exclude
  m_childSelector : ℤ
  m_mustBeFresh : Bool
  deriving DecidableEq, Repr

section Matching

variable (computeDigest : Data → Vector UInt8 32) (keyLocatorOf : Data → Option Block)

def getFullName (data : Data) : Name := data.m_name ++ [⟨1, (computeDigest data).toList⟩]

def matchesSuffix (nameLength fullNameLength : ℕ) (selectors : Selectors) : Bool :=
  nameLength + selectors.m_minSuffixComponents.toNat ≤ fullNameLength &&
    (selectors.m_maxSuffixComponents < 0 || nameLength + selectors.m_maxSuffixComponents ≥ fullNameLength)

def matchesPrefix (name : Name) (data : Data) : Bool :=
  let fullName := getFullName computeDigest data
  if name.length = fullName.length then
    name.getLast?.any (fun component => component.type = 1 && component.value.length = 32) && Name.equals name fullName
  else Name.isPrefixOf name data.m_name

def violatesExclude (name : Name) (selectors : Selectors) (data : Data) : Bool :=
  selectors.m_exclude.m_entries ≠ [] &&
    ((getFullName computeDigest data)[name.length]?).any (Exclude.isExcluded selectors.m_exclude)

def matchesKeyLocator (selectors : Selectors) (data : Data) : Bool :=
  selectors.m_publisherPublicKeyLocator.locator = .None ||
    (keyLocatorOf data).any (fun element => selectors.m_publisherPublicKeyLocator.wireEncode = .ok element)

/-- `Interest::matchesData`, with the digest of the packet and the key locator in its
SignatureInfo. -/
def matchesData (name : Name) (selectors : Selectors) (data : Data) : Bool :=
  matchesSuffix name.length (data.m_name.length + 1) selectors && matchesPrefix computeDigest name data &&
    ! violatesExclude computeDigest name selectors data && matchesKeyLocator keyLocatorOf selectors data

end Matching

end LeoNdn.InterestSelectors
