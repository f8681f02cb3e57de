import LeoNdn.SelectorsCodec
import LeoNdn.DelegationLists

/-!
The Interest packet: its setters, its two packet formats, and what of an Interest
its encoding gives back.
-/

namespace LeoNdn.InterestCodec

open LeoNdn.Tlv LeoNdn.TlvEncoding LeoNdn.NdnPacket LeoNdn.NdnEncoding LeoNdn.InterestSelectors LeoNdn.Excludes
open LeoNdn.SelectorsCodec LeoNdn.DelegationLists
open LeoNdn.NdnPacket hiding Interest
open LeoNdn.Loops (ok_of_bind)

/-- No parameters are a block that is empty; so is no wire. -/
structure Interest where
  m_name : Name
  m_selectors : Selectors
  m_nonce : Option UInt32
  m_interestLifetime : ℤ
  m_forwardingHint : DelegationList
  m_parameters : Option Block
  m_wire : Option Block
  deriving DecidableEq, Repr

def DEFAULT_INTEREST_LIFETIME : ℤ := 4000

def Interest.hasParameters (interest : Interest) : Bool := interest.m_parameters.isSome

def Interest.getCanBePrefix (interest : Interest) : Bool := interest.m_selectors.m_maxSuffixComponents ≠ 1

def Interest.getMustBeFresh (interest : Interest) : Bool := interest.m_selectors.m_mustBeFresh

def Interest.setCanBePrefix (interest : Interest) (canBePrefix : Bool) : Interest :=
  { interest with
    m_selectors := { interest.m_selectors with m_maxSuffixComponents := if canBePrefix then -1 else 1 }
    m_wire := none }

def Interest.construct (s_defaultCanBePrefix : Option Bool) (name : Name) (lifetime : ℤ) :
    Except Exception Interest :=
  if lifetime < 0 then .error (.invalidArgument "InterestLifetime must be >= 0")
  else
    let interest : Interest := ⟨name, Selectors.initial, none, lifetime, ⟨true, []⟩, none, none⟩
    match s_defaultCanBePrefix with
    | some canBePrefix => .ok (interest.setCanBePrefix canBePrefix)
    | none => .ok interest

/-- `select` stands for the setters that are those of the selectors; `refreshNonce` comes
with the random number that it ends with, `modifyForwardingHint` is `setForwardingHint`, and
parameters from a buffer are a Parameters block of its octets. -/
inductive Interest.Setter
  | setName (name : Name)
  | setCanBePrefix (canBePrefix : Bool)
  | select (setter : Selectors.Setter)
  | setSelectors (selectors : Selectors)
  | setForwardingHint (value : DelegationList)
  | setNonce (nonce : UInt32)
  | refreshNonce (newNonce : UInt32)
  | setInterestLifetime (lifetime : ℤ)
  | setParameters (parameters : Block)
  | unsetParameters
  deriving DecidableEq, Repr

def Interest.set (interest : Interest) : Interest.Setter → Except Exception Interest
  | .setName name => .ok { interest with m_name := name, m_wire := none }
  | .setCanBePrefix canBePrefix => .ok (interest.setCanBePrefix canBePrefix)
  | .select setter => do
    let selectors ← Selectors.set interest.m_selectors setter
    .ok { interest with m_selectors := selectors, m_wire := none }
  | .setSelectors selectors => .ok { interest with m_selectors := selectors, m_wire := none }
  | .setForwardingHint value => .ok { interest with m_forwardingHint := value, m_wire := none }
  | .setNonce nonce => .ok { interest with m_nonce := some nonce, m_wire := none }
  | .refreshNonce newNonce =>
    if interest.m_nonce.isSome then .ok { interest with m_nonce := some newNonce, m_wire := none } else .ok interest
  | .setInterestLifetime lifetime =>
    if lifetime < 0 then .error (.invalidArgument "InterestLifetime must be >= 0")
    else .ok { interest with m_interestLifetime := lifetime, m_wire := none }
  | .setParameters parameters =>
    .ok { interest with
      m_parameters := some (if parameters.type = 35 then parameters else makeBlock 35 [parameters])
      m_wire := none }
  | .unsetParameters => .ok { interest with m_parameters := none, m_wire := none }

def Interest.Setter.Typed : Interest.Setter → Prop
  | .setName name => Name.TypesOk name
  | .select setter => Selectors.Setter.Typed setter
  | .setSelectors selectors => Selectors.Built selectors
  | .setForwardingHint value => DelegationList.Built value
  | .setInterestLifetime lifetime => lifetime < 9223372036854775808
  | _ => True

inductive Interest.Built : Interest → Prop
  | construct {s_defaultCanBePrefix : Option Bool} {name : Name} {lifetime : ℤ} {interest : Interest} :
      Name.TypesOk name → lifetime < 9223372036854775808 →
      Interest.construct s_defaultCanBePrefix name lifetime = .ok interest → Interest.Built interest
  | set {interest interest' : Interest} {setter : Interest.Setter} : Interest.Built interest →
      Interest.Setter.Typed setter → interest.set setter = .ok interest' → Interest.Built interest'

section Encoder

/-- The octets of the number as they lie in memory. -/
def encodeNonce (nonce : UInt32) : Block := ⟨10, (toBigEndian 4 nonce.toNat).reverse⟩

def encodeLifetime (lifetime : ℤ) : Option Block :=
  if lifetime ≠ DEFAULT_INTEREST_LIFETIME then some (makeNonNegativeIntegerBlock 12 (count lifetime)) else none

def Interest.encodeForwardingHint (interest : Interest) : Except Exception (Option Block) :=
  encodeUnless (interest.m_forwardingHint.m_dels = []) (interest.m_forwardingHint.wireEncode 30)

def Interest.encode02 (nonce : UInt32) (interest : Interest) : Except Exception Block := do
  let forwardingHint ← interest.encodeForwardingHint
  let selectors ← encodeUnless (Selectors.isEmpty interest.m_selectors) (Selectors.wireEncode interest.m_selectors)
  .ok (makeBlock 5 (encodeName interest.m_name :: (selectors.toList ++
    encodeNonce nonce :: ((encodeLifetime interest.m_interestLifetime).toList ++ (forwardingHint.toList ++ [])))))

def emptyBlock (type : ℕ) (present : Bool) : Option Block := if present then some ⟨type, []⟩ else none

def Interest.encode03 (nonce : UInt32) (interest : Interest) : Except Exception Block := do
  let forwardingHint ← interest.encodeForwardingHint
  .ok (makeBlock 5 (encodeName interest.m_name :: ((emptyBlock 33 interest.getCanBePrefix).toList ++
    ((emptyBlock 18 interest.getMustBeFresh).toList ++ (forwardingHint.toList ++
    (encodeNonce nonce :: ((encodeLifetime interest.m_interestLifetime).toList ++ interest.m_parameters.toList)))))))

/-- The template of `wireEncode`; a nonce that is unset is a random number. -/
def Interest.encode (generateWord32 : UInt32) (interest : Interest) : Except Exception Block :=
  if interest.hasParameters then interest.encode03 (interest.m_nonce.getD generateWord32)
  else interest.encode02 (interest.m_nonce.getD generateWord32)

end Encoder

section Decoder

def decodeOptional {α : Type} (absent : α) (decode : Block → Except Exception α) : Option Block → Except Exception α
  | none => .ok absent
  | some element => decode element

def decodeNonce (element : Block) : Except Exception UInt32 :=
  if element.value.length ≠ 4 then .error (.tlvError "Nonce element is malformed")
  else .ok (UInt32.ofNat (bigEndian element.value.reverse))

def decodeLifetime (element : Block) : Except Exception ℤ := do
  let number ← readNonNegativeInteger element
  .ok (milliseconds number)

/-- Whether the packet is of the old format; the fields are written as they are read. -/
def Interest.decode02 (interest : Interest) (elements : List Block) : Except Exception (Bool × Interest) := do
  match takeType 7 elements with
  | (none, _) => .ok (false, interest)
  | (some element, elements) => do
    let name ← Name.wireDecode element
    let (element, elements) := takeType 9 elements
    let selectors ← decodeOptional Selectors.initial Selectors.wireDecode element
    match takeType 10 elements with
    | (none, _) => .ok (false, { interest with m_name := name, m_selectors := selectors })
    | (some element, elements) => do
      let nonce ← decodeNonce element
      let (element, elements) := takeType 12 elements
      let lifetime ← decodeOptional DEFAULT_INTEREST_LIFETIME decodeLifetime element
      let (element, elements) := takeType 30 elements
      let forwardingHint ← decodeOptional ⟨true, []⟩ (DelegationList.wireDecode · false) element
      .ok (elements.isEmpty, { interest with
        m_name := name
        m_selectors := selectors
        m_nonce := some nonce
        m_interestLifetime := lifetime
        m_forwardingHint := forwardingHint })

/-- The loop over the elements after the name; `lastElement` is the index of the
last one that has been recognized. -/
def Interest.decodeElements : ℕ → Interest → List Block → Except Exception Interest
  | _, interest, [] => .ok interest
  | lastElement, interest, element :: elements =>
    if element.type = 33 then
      if lastElement ≥ 2 then .error (.tlvError "CanBePrefix element is out of order")
      else if element.value.length ≠ 0 then .error (.tlvError "CanBePrefix element has non-zero TLV-LENGTH")
      else decodeElements 2 { interest with
        m_selectors := { interest.m_selectors with m_maxSuffixComponents := -1 } } elements
    else if element.type = 18 then
      if lastElement ≥ 3 then .error (.tlvError "MustBeFresh element is out of order")
      else if element.value.length ≠ 0 then .error (.tlvError "MustBeFresh element has non-zero TLV-LENGTH")
      else decodeElements 3 { interest with
        m_selectors := { interest.m_selectors with m_mustBeFresh := true } } elements
    else if element.type = 30 then
      if lastElement ≥ 4 then .error (.tlvError "ForwardingHint element is out of order")
      else do
        let forwardingHint ← DelegationList.wireDecode element true
        decodeElements 4 { interest with m_forwardingHint := forwardingHint } elements
    else if element.type = 10 then
      if lastElement ≥ 5 then .error (.tlvError "Nonce element is out of order")
      else do
        let nonce ← decodeNonce element
        decodeElements 5 { interest with m_nonce := some nonce } elements
    else if element.type = 12 then
      if lastElement ≥ 6 then .error (.tlvError "InterestLifetime element is out of order")
      else do
        let lifetime ← decodeLifetime element
        decodeElements 6 { interest with m_interestLifetime := lifetime } elements
    else if element.type = 34 then
      if lastElement ≥ 7 then decodeElements lastElement interest elements
      else if element.value.length ≠ 1 then .error (.tlvError "HopLimit element is malformed")
      else decodeElements 7 interest elements
    else if element.type = 35 then
      if lastElement ≥ 8 then .error (.tlvError "Parameters element is out of order")
      else decodeElements 8 { interest with m_parameters := some element } elements
    else if isCriticalType element.type then
      .error (.tlvError ("unrecognized element of critical type " ++ toString element.type))
    else decodeElements lastElement interest elements

def Interest.decode03 (interest : Interest) (elements : List Block) : Except Exception Interest := do
  match takeType 7 elements with
  | (none, _) => .error (.tlvError "Name element is missing or out of order")
  | (some element, elements) => do
    let name ← Name.wireDecode element
    if name = [] then .error (.tlvError "Name has zero name components")
    else Interest.decodeElements 1 { interest with
      m_name := name
      m_selectors := { Selectors.initial with m_maxSuffixComponents := 1 }
      m_nonce := none
      m_interestLifetime := DEFAULT_INTEREST_LIFETIME
      m_forwardingHint := ⟨true, []⟩
      m_parameters := none } elements

def Interest.wireDecode (generateWord32 : UInt32) (interest : Interest) (wire : Block) : Except Exception Interest := do
  let elements ← wire.parse
  if wire.type ≠ 5 then .error (.tlvError ("expecting Interest element, got " ++ toString wire.type))
  else do
    let (isFormat02, interest) ← { interest with m_wire := some wire }.decode02 elements
    if isFormat02 then .ok interest
    else do
      let interest ← interest.decode03 elements
      if interest.m_nonce.isNone then .ok { interest with m_nonce := some generateWord32, m_wire := none }
      else .ok interest

/-- The constructor of an Interest from a wire. -/
def Interest.ofWire (generateWord32 : UInt32) (wire : Block) : Except Exception Interest :=
  Interest.wireDecode generateWord32 ⟨[], Selectors.initial, none, 0, ⟨true, []⟩, none, none⟩ wire

/-- The Interest is decoded from its own encoding. -/
def Interest.wireEncode (generateWord32 : UInt32) (interest : Interest) : Except Exception (Block × Interest) :=
  match interest.m_wire with
  | some wire => .ok (wire, interest)
  | none => do
    let wire ← interest.encode generateWord32
    let interest ← Interest.wireDecode generateWord32 interest wire
    .ok (wire, interest)

end Decoder

structure Interest.WellFormed (interest : Interest) : Prop where
  name : Name.TypesOk interest.m_name
  selectors : Selectors.WellFormed interest.m_selectors
  lifetime_nonneg : 0 ≤ interest.m_interestLifetime
  lifetime_lt : interest.m_interestLifetime < 9223372036854775808
  forwardingHint : DelegationList.WellFormed interest.m_forwardingHint
  parameters : ∀ parameters, interest.m_parameters = some parameters → parameters.type = 35
  wire : interest.m_wire = none

section Building

variable {interest interest' : Interest}

theorem WellFormed.setCanBePrefix (hwf : interest.WellFormed) (canBePrefix : Bool) :
    (interest.setCanBePrefix canBePrefix).WellFormed := by
  obtain ⟨hname, hselectors, hnonneg, hlt, hhint, hparameters, -⟩ := hwf
  have hle : ∀ canBePrefix : Bool, (if canBePrefix then -1 else 1 : ℤ) ≤ 2147483647 := by decide
  exact ⟨hname, ⟨hselectors.min_le, hle canBePrefix, hselectors.keyLocator, hselectors.exclude,
    hselectors.childSelector⟩, hnonneg, hlt, hhint, hparameters, rfl⟩

theorem WellFormed.construct {s_defaultCanBePrefix : Option Bool} {name : Name} {lifetime : ℤ}
    (hname : Name.TypesOk name) (hlt : lifetime < 9223372036854775808)
    (h : Interest.construct s_defaultCanBePrefix name lifetime = .ok interest) : interest.WellFormed := by
  unfold Interest.construct at h
  split at h
  · cases h
  rename_i hnonneg
  have hwf : Interest.WellFormed ⟨name, Selectors.initial, none, lifetime, ⟨true, []⟩, none, none⟩ :=
    ⟨hname, SelectorsCodec.WellFormed.initial, Int.not_lt.mp hnonneg, hlt, DelegationLists.WellFormed.empty true,
      fun _ h => (by cases h), rfl⟩
  cases s_defaultCanBePrefix with
  | none =>
    cases h
    exact hwf
  | some canBePrefix =>
    cases h
    exact WellFormed.setCanBePrefix hwf canBePrefix

theorem WellFormed.set {setter : Interest.Setter} (hwf : interest.WellFormed) (htyped : Interest.Setter.Typed setter)
    (h : interest.set setter = .ok interest') : interest'.WellFormed := by
  have hsame := hwf
  obtain ⟨hname, hselectors, hnonneg, hlt, hhint, hparameters, -⟩ := hwf
  cases setter with
  | setName name =>
    cases h
    exact ⟨htyped, hselectors, hnonneg, hlt, hhint, hparameters, rfl⟩
  | setCanBePrefix canBePrefix =>
    cases h
    exact WellFormed.setCanBePrefix hsame canBePrefix
  | select setter =>
    obtain ⟨selectors, hset, h⟩ := ok_of_bind h
    cases h
    exact ⟨hname, SelectorsCodec.WellFormed.set hselectors htyped hset, hnonneg, hlt, hhint, hparameters, rfl⟩
  | setSelectors selectors =>
    cases h
    exact ⟨hname, SelectorsCodec.Built.wellFormed htyped, hnonneg, hlt, hhint, hparameters, rfl⟩
  | setForwardingHint value =>
    cases h
    exact ⟨hname, hselectors, hnonneg, hlt, DelegationLists.Built.wellFormed htyped, hparameters, rfl⟩
  | setNonce nonce =>
    cases h
    exact ⟨hname, hselectors, hnonneg, hlt, hhint, hparameters, rfl⟩
  | refreshNonce newNonce =>
    rw [Interest.set] at h
    split at h
    · cases h
      exact ⟨hname, hselectors, hnonneg, hlt, hhint, hparameters, rfl⟩
    · cases h
      exact hsame
  | setInterestLifetime lifetime =>
    rw [Interest.set] at h
    split at h
    · cases h
    · rename_i hlifetime
      cases h
      exact ⟨hname, hselectors, Int.not_lt.mp hlifetime, htyped, hhint, hparameters, rfl⟩
  | setParameters parameters =>
    cases h
    refine ⟨hname, hselectors, hnonneg, hlt, hhint, fun block hblock => ?_, rfl⟩
    obtain rfl := Option.some.inj hblock
    split
    · rename_i htype
      exact htype
    · rfl
  | unsetParameters =>
    cases h
    exact ⟨hname, hselectors, hnonneg, hlt, hhint, fun _ h => (by cases h), rfl⟩

theorem Built.wellFormed (h : interest.Built) : interest.WellFormed := by
  induction h with
  | construct hname hlt h => exact WellFormed.construct hname hlt h
  | set _ htyped h ih => exact WellFormed.set ih htyped h

end Building

section Fields

variable {interest : Interest}

theorem decodeNonce_encode (nonce : UInt32) : decodeNonce (encodeNonce nonce) = .ok nonce := by
  have hlength : (encodeNonce nonce).value.length = 4 := by
    rw [encodeNonce, List.length_reverse, toBigEndian_length]
  rw [decodeNonce, if_neg (not_not.mpr hlength), encodeNonce, List.reverse_reverse,
    bigEndian_toBigEndian nonce.toNat_lt, UInt32.ofNat_toNat]

theorem decodeLifetime_encode {lifetime : ℤ} (hnonneg : 0 ≤ lifetime) (hlt : lifetime < 9223372036854775808) :
    decodeOptional DEFAULT_INTEREST_LIFETIME decodeLifetime (encodeLifetime lifetime) = .ok lifetime := by
  unfold encodeLifetime
  split
  · rw [decodeOptional, decodeLifetime, readNonNegativeInteger_encode (count_lt lifetime)]
    simp only [bind, Except.bind, milliseconds_count hnonneg hlt]
  · rename_i hdefault
    exact congrArg Except.ok (not_not.mp hdefault).symm

theorem isEmpty_iff {selectors : Selectors} : Selectors.isEmpty selectors = true ↔
    selectors.m_minSuffixComponents < 0 ∧ selectors.m_maxSuffixComponents < 0 ∧
      selectors.m_publisherPublicKeyLocator.locator = .None ∧ selectors.m_exclude.m_entries = [] ∧
      selectors.m_childSelector = 0 ∧ selectors.m_mustBeFresh = false := by
  simp only [Selectors.isEmpty, Bool.and_eq_true, decide_eq_true_eq, Bool.not_eq_true', and_assoc]

theorem decodeSelectors_encode (hwf : interest.WellFormed) (hv02 : OnlyV02 interest.m_selectors.m_exclude)
    {selectors : Option Block}
    (h : encodeUnless (Selectors.isEmpty interest.m_selectors) (Selectors.wireEncode interest.m_selectors) =
      .ok selectors)
    (hlength : ∀ wire, selectors = some wire → wire.value.length < 18446744073709551616) :
    ∃ keyLocator, decodeOptional Selectors.initial Selectors.wireDecode selectors =
      .ok (decodedSelectors interest.m_selectors keyLocator) := by
  rcases encodeUnless_ok h with ⟨hempty, rfl⟩ | ⟨-, wire, hencode, rfl⟩
  · obtain ⟨hmin, hmax, hlocator, hexclude, hchild, hfresh⟩ := isEmpty_iff.mp hempty
    refine ⟨none, congrArg Except.ok ?_⟩
    have hmin' : max (-1) interest.m_selectors.m_minSuffixComponents = -1 := by omega
    have hmax' : max (-1) interest.m_selectors.m_maxSuffixComponents = -1 := by omega
    have hexclude' : interest.m_selectors.m_exclude = ⟨[]⟩ := congrArg Exclude.mk hexclude
    simp only [decodedSelectors, hmin', hmax', hlocator, hexclude', hchild, hfresh]
    rfl
  · exact SelectorsCodec.wireDecode_wireEncode hwf.selectors hv02 hencode (hlength wire rfl)

theorem decodeForwardingHint_encode (hwf : interest.WellFormed) (wantSort : Bool) {forwardingHint : Option Block}
    (h : interest.encodeForwardingHint = .ok forwardingHint)
    (hlength : ∀ wire, forwardingHint = some wire → wire.value.length < 18446744073709551616) :
    ∃ list, decodeOptional ⟨true, []⟩ (DelegationList.wireDecode · wantSort) forwardingHint = .ok list ∧
      list.m_dels = if wantSort then SortedLists.sort Delegation.isBefore interest.m_forwardingHint.m_dels
        else interest.m_forwardingHint.m_dels := by
  rcases encodeUnless_ok h with ⟨hnil, rfl⟩ | ⟨-, wire, hencode, rfl⟩
  · refine ⟨⟨true, []⟩, rfl, ?_⟩
    rw [hnil]
    cases wantSort <;> rfl
  · exact ⟨_, DelegationLists.wireDecode_wireEncode hwf.forwardingHint.names wantSort hencode (hlength wire rfl), rfl⟩

theorem encodeForwardingHint_type {forwardingHint : Option Block} {wire : Block}
    (h : interest.encodeForwardingHint = .ok forwardingHint) (hwire : forwardingHint = some wire) : wire.type = 30 := by
  subst hwire
  have hencode := encodeUnless_some h
  unfold DelegationList.wireEncode at hencode
  split at hencode
  · cases hencode
  · split at hencode
    · cases hencode
    · cases hencode
      rfl

theorem encodeForwardingHint_ok (interest : Interest) : ∃ forwardingHint,
    interest.encodeForwardingHint = .ok forwardingHint := by
  refine encodeUnless_exists ?_
  intro hne
  have hvalid : ¬ (! DelegationList.isValidTlvType 30) = true := by decide
  rw [DelegationList.wireEncode, if_neg hvalid, if_neg hne]
  exact ⟨_, rfl⟩

theorem encodeLifetime_type {lifetime : ℤ} {element : Block} (h : encodeLifetime lifetime = some element) :
    element.type = 12 := by
  unfold encodeLifetime at h
  split at h
  · rw [← Option.some.inj h]
    rfl
  · cases h

end Fields

section RoundTrip

variable {interest old : Interest} {nonce : UInt32}

theorem takeType_cons {type : ℕ} {element : Block} (h : element.type = type) (elements : List Block) :
    takeType type (element :: elements) = (some element, elements) := by
  rw [takeType, if_pos h]

theorem mem_lengths {elements : List Block} (hlength : (makeBlock 5 elements).value.length < 18446744073709551616) :
    ∀ element ∈ elements, element.value.length < 18446744073709551616 :=
  fun _ helement => (length_le_makeBlock 5 helement).trans_lt hlength

theorem decode02_encode02 (hwf : interest.WellFormed) (hv02 : OnlyV02 interest.m_selectors.m_exclude) {wire : Block}
    (h : interest.encode02 nonce = .ok wire) (hlength : wire.value.length < 18446744073709551616) :
    wire.type = 5 ∧ ∃ elements keyLocator list, wire.parse = .ok elements ∧
      list.m_dels = interest.m_forwardingHint.m_dels ∧
      ∀ old : Interest, old.decode02 elements = .ok (true, { old with
        m_name := interest.m_name
        m_selectors := decodedSelectors interest.m_selectors keyLocator
        m_nonce := some nonce
        m_interestLifetime := interest.m_interestLifetime
        m_forwardingHint := list }) := by
  obtain ⟨forwardingHint, hhint, h⟩ := ok_of_bind h
  obtain ⟨selectors, hselectors, h⟩ := ok_of_bind h
  cases h
  have hselectorsType : ∀ element, selectors = some element → element.type = 9 := by
    rintro element rfl
    obtain ⟨exclude, -, hencode⟩ := ok_of_bind (encodeUnless_some hselectors)
    obtain ⟨keyLocator, -, hencode⟩ := ok_of_bind hencode
    cases hencode
    rfl
  have hhintType : ∀ element, forwardingHint = some element → element.type = 30 := fun element h =>
    encodeForwardingHint_type hhint h
  have hlifetimeType : ∀ element, encodeLifetime interest.m_interestLifetime = some element → element.type = 12 :=
    fun element h => encodeLifetime_type h
  have hlengths := mem_lengths hlength
  have htypes : ∀ element ∈ encodeName interest.m_name :: (selectors.toList ++
      encodeNonce nonce :: ((encodeLifetime interest.m_interestLifetime).toList ++ (forwardingHint.toList ++ []))),
      element.type ≤ 4294967295 := by
    intro element helement
    simp only [List.mem_cons, List.mem_append, Option.mem_toList, List.not_mem_nil, or_false] at helement
    rcases helement with rfl | h | rfl | h | h
    · change 7 ≤ 4294967295
      decide
    · rw [hselectorsType element h]
      decide
    · change 10 ≤ 4294967295
      decide
    · rw [hlifetimeType element h]
      decide
    · rw [hhintType element h]
      decide
  obtain ⟨keyLocator, hdecodeSelectors⟩ := decodeSelectors_encode hwf hv02 hselectors fun wire h =>
    hlengths wire (by simp [h])
  obtain ⟨list, hdecodeHint, hdels⟩ := decodeForwardingHint_encode hwf false hhint fun wire h => hlengths wire (by simp [h])
  have hdecodeName := wireDecode_encodeName hwf.name (hlengths _ List.mem_cons_self)
  refine ⟨rfl, _, keyLocator, list, parse_elements htypes hlength, hdels, fun old => ?_⟩
  have hname : ∀ rest, takeType 7 (encodeName interest.m_name :: rest) = (some (encodeName interest.m_name), rest) :=
    takeType_cons rfl
  have hnonce : ∀ rest, takeType 10 (encodeNonce nonce :: rest) = (some (encodeNonce nonce), rest) :=
    takeType_cons rfl
  have hselectorsTake : takeType 9 (selectors.toList ++ encodeNonce nonce ::
      ((encodeLifetime interest.m_interestLifetime).toList ++ (forwardingHint.toList ++ []))) = (selectors,
      encodeNonce nonce :: ((encodeLifetime interest.m_interestLifetime).toList ++ (forwardingHint.toList ++ []))) := by
    refine takeType_append hselectorsType fun element helement => ?_
    simp only [List.mem_cons, List.mem_append, Option.mem_toList, List.not_mem_nil, or_false] at helement
    rcases helement with rfl | h | h
    · change 10 ≠ 9
      decide
    · rw [hlifetimeType element h]
      decide
    · rw [hhintType element h]
      decide
  have hlifetimeTake : takeType 12 ((encodeLifetime interest.m_interestLifetime).toList ++
      (forwardingHint.toList ++ [])) =
      (encodeLifetime interest.m_interestLifetime, forwardingHint.toList ++ []) := by
    refine takeType_append hlifetimeType fun element helement => ?_
    simp only [List.mem_append, Option.mem_toList, List.not_mem_nil, or_false] at helement
    rw [hhintType element helement]
    decide
  have hhintTake : takeType 30 (forwardingHint.toList ++ []) = (forwardingHint, []) :=
    takeType_append hhintType fun element helement => absurd helement List.not_mem_nil
  simp only [Interest.decode02, hname, bind, Except.bind, hdecodeName, hselectorsTake, hdecodeSelectors, hnonce,
    decodeNonce_encode, hlifetimeTake, decodeLifetime_encode hwf.lifetime_nonneg hwf.lifetime_lt, hhintTake,
    hdecodeHint, List.isEmpty_nil]

theorem emptyBlock_toList (type : ℕ) (present : Bool) :
    (emptyBlock type present).toList = if present then [⟨type, []⟩] else [] := by
  cases present <;> rfl

theorem decodeElements_canBePrefix {lastElement : ℕ} (hlast : lastElement < 2) (interest : Interest) (present : Bool)
    (elements : List Block) : ∃ lastElement' < 3, ∃ interest' : Interest,
      interest' = { interest with m_selectors := { interest.m_selectors with
        m_maxSuffixComponents := if present then -1 else interest.m_selectors.m_maxSuffixComponents } } ∧
      Interest.decodeElements lastElement interest ((emptyBlock 33 present).toList ++ elements) =
        Interest.decodeElements lastElement' interest' elements := by
  cases present with
  | true =>
    refine ⟨2, by decide, _, rfl, ?_⟩
    rw [emptyBlock_toList, if_pos rfl, List.singleton_append, Interest.decodeElements, if_pos rfl,
      if_neg (Nat.not_le.mpr hlast)]
    rfl
  | false => exact ⟨lastElement, Nat.lt_succ_of_lt hlast, interest, rfl, rfl⟩

theorem decodeElements_mustBeFresh {lastElement : ℕ} (hlast : lastElement < 3) (interest : Interest) (present : Bool)
    (elements : List Block) : ∃ lastElement' < 4, ∃ interest' : Interest,
      interest' = { interest with m_selectors := { interest.m_selectors with
        m_mustBeFresh := if present then true else interest.m_selectors.m_mustBeFresh } } ∧
      Interest.decodeElements lastElement interest ((emptyBlock 18 present).toList ++ elements) =
        Interest.decodeElements lastElement' interest' elements := by
  cases present with
  | true =>
    refine ⟨3, by decide, _, rfl, ?_⟩
    rw [emptyBlock_toList, if_pos rfl, List.singleton_append, Interest.decodeElements, if_neg (by decide), if_pos rfl,
      if_neg (Nat.not_le.mpr hlast)]
    rfl
  | false => exact ⟨lastElement, Nat.lt_succ_of_lt hlast, interest, rfl, rfl⟩

theorem decodeElements_forwardingHint {lastElement : ℕ} (hlast : lastElement < 4) {interest : Interest}
    (hnone : interest.m_forwardingHint = ⟨true, []⟩) {forwardingHint : Option Block} {list : DelegationList}
    (hdecode : decodeOptional ⟨true, []⟩ (DelegationList.wireDecode · true) forwardingHint = .ok list)
    (htype : ∀ wire, forwardingHint = some wire → wire.type = 30) (elements : List Block) : ∃ lastElement' < 5,
      Interest.decodeElements lastElement interest (forwardingHint.toList ++ elements) =
        Interest.decodeElements lastElement' { interest with m_forwardingHint := list } elements := by
  cases forwardingHint with
  | some wire =>
    have htype' := htype wire rfl
    have hdecode' : DelegationList.wireDecode wire true = .ok list := hdecode
    refine ⟨4, by decide, ?_⟩
    rw [Option.toList_some, List.singleton_append, Interest.decodeElements, if_neg (by omega), if_neg (by omega),
      if_pos htype', if_neg (Nat.not_le.mpr hlast), hdecode']
    rfl
  | none =>
    obtain rfl := Except.ok.inj hdecode
    refine ⟨lastElement, Nat.lt_succ_of_lt hlast, ?_⟩
    rw [← hnone]
    rfl

theorem decodeElements_nonce {lastElement : ℕ} (hlast : lastElement < 5) (interest : Interest) (nonce : UInt32)
    (elements : List Block) : Interest.decodeElements lastElement interest (encodeNonce nonce :: elements) =
      Interest.decodeElements 5 { interest with m_nonce := some nonce } elements := by
  have htype : (encodeNonce nonce).type = 10 := rfl
  rw [Interest.decodeElements, if_neg (by omega), if_neg (by omega), if_neg (by omega), if_pos htype,
    if_neg (Nat.not_le.mpr hlast), decodeNonce_encode]
  rfl

theorem decodeElements_lifetime {lastElement : ℕ} (hlast : lastElement < 6) {interest : Interest}
    (hdefault : interest.m_interestLifetime = DEFAULT_INTEREST_LIFETIME) {lifetime : ℤ} (hnonneg : 0 ≤ lifetime)
    (hlt : lifetime < 9223372036854775808) (elements : List Block) : ∃ lastElement' < 7,
      Interest.decodeElements lastElement interest ((encodeLifetime lifetime).toList ++ elements) =
        Interest.decodeElements lastElement' { interest with m_interestLifetime := lifetime } elements := by
  have hdecode := decodeLifetime_encode hnonneg hlt
  cases hlifetime : encodeLifetime lifetime with
  | some block =>
    have htype := encodeLifetime_type hlifetime
    rw [hlifetime] at hdecode
    have hdecode' : decodeLifetime block = .ok lifetime := hdecode
    refine ⟨6, by decide, ?_⟩
    rw [Option.toList_some, List.singleton_append, Interest.decodeElements, if_neg (by omega), if_neg (by omega),
      if_neg (by omega), if_neg (by omega), if_pos htype, if_neg (Nat.not_le.mpr hlast), hdecode']
    rfl
  | none =>
    rw [hlifetime] at hdecode
    obtain rfl : DEFAULT_INTEREST_LIFETIME = lifetime := Except.ok.inj hdecode
    refine ⟨lastElement, Nat.lt_succ_of_lt hlast, ?_⟩
    rw [← hdefault]
    rfl

/-- What the decoder of the new format makes; what that format does not have is as in a new
Interest. -/
def decoded03 (interest : Interest) (nonce : UInt32) (list : DelegationList) (old : Interest) : Interest :=
  { old with
    m_name := interest.m_name
    m_selectors := { Selectors.initial with
      m_maxSuffixComponents := if interest.getCanBePrefix then -1 else 1
      m_mustBeFresh := interest.getMustBeFresh }
    m_nonce := some nonce
    m_interestLifetime := interest.m_interestLifetime
    m_forwardingHint := list
    m_parameters := interest.m_parameters }

theorem decodeElements_encode03 {parameters : Block} (hwf : interest.WellFormed)
    (hparameters : interest.m_parameters = some parameters) {forwardingHint : Option Block} {list : DelegationList}
    (hhint : decodeOptional ⟨true, []⟩ (DelegationList.wireDecode · true) forwardingHint = .ok list)
    (hhintType : ∀ wire, forwardingHint = some wire → wire.type = 30) (old : Interest) :
    Interest.decodeElements 1 { old with
        m_name := interest.m_name
        m_selectors := { Selectors.initial with m_maxSuffixComponents := 1 }
        m_nonce := none
        m_interestLifetime := DEFAULT_INTEREST_LIFETIME
        m_forwardingHint := ⟨true, []⟩
        m_parameters := none }
      ((emptyBlock 33 interest.getCanBePrefix).toList ++ ((emptyBlock 18 interest.getMustBeFresh).toList ++
        (forwardingHint.toList ++ (encodeNonce nonce ::
        ((encodeLifetime interest.m_interestLifetime).toList ++ interest.m_parameters.toList))))) =
      .ok (decoded03 interest nonce list old) := by
  have htype := hwf.parameters parameters hparameters
  obtain ⟨last, hlast, first, hfirst, hcanBePrefix⟩ := decodeElements_canBePrefix (Nat.lt_succ_self 1) { old with
        m_name := interest.m_name
        m_selectors := { Selectors.initial with m_maxSuffixComponents := 1 }
        m_nonce := none
        m_interestLifetime := DEFAULT_INTEREST_LIFETIME
        m_forwardingHint := ⟨true, []⟩
        m_parameters := none } interest.getCanBePrefix _
  rw [hcanBePrefix]
  obtain ⟨last, hlast, second, hsecond, hmustBeFresh⟩ := decodeElements_mustBeFresh hlast first interest.getMustBeFresh _
  rw [hmustBeFresh]
  have hnoHint : second.m_forwardingHint = ⟨true, []⟩ := by rw [hsecond, hfirst]
  obtain ⟨last, hlast, hforwardingHint⟩ := decodeElements_forwardingHint hlast hnoHint hhint hhintType _
  rw [hforwardingHint, decodeElements_nonce hlast]
  have hdefault : second.m_interestLifetime = DEFAULT_INTEREST_LIFETIME := by rw [hsecond, hfirst]
  obtain ⟨last, hlast, hlifetime⟩ := @decodeElements_lifetime 5 (Nat.lt_succ_self 5)
    { second with m_forwardingHint := list, m_nonce := some nonce } hdefault interest.m_interestLifetime
    hwf.lifetime_nonneg hwf.lifetime_lt interest.m_parameters.toList
  rw [hlifetime, hparameters, Option.toList_some, Interest.decodeElements, if_neg (by omega), if_neg (by omega),
    if_neg (by omega), if_neg (by omega), if_neg (by omega), if_neg (by omega), if_pos htype, if_neg (by omega),
    Interest.decodeElements, decoded03, hparameters, hsecond, hfirst]
  cases interest.getMustBeFresh <;> rfl

theorem takeType_none {type : ℕ} {elements : List Block} (h : ∀ element ∈ elements, element.type ≠ type) :
    takeType type elements = (none, elements) :=
  @takeType_append type none elements (fun _ h => (by cases h)) h

def elements03 (interest : Interest) (nonce : UInt32) (forwardingHint : Option Block) : List Block :=
  (emptyBlock 33 interest.getCanBePrefix).toList ++ ((emptyBlock 18 interest.getMustBeFresh).toList ++
    (forwardingHint.toList ++ (encodeNonce nonce ::
    ((encodeLifetime interest.m_interestLifetime).toList ++ interest.m_parameters.toList))))

theorem elements03_types (hwf : interest.WellFormed) {forwardingHint : Option Block}
    (hhintType : ∀ wire, forwardingHint = some wire → wire.type = 30) :
    ∀ element ∈ elements03 interest nonce forwardingHint, element.type ∈ [33, 18, 30, 10, 12, 35] := by
  intro element helement
  have hempty : ∀ {type : ℕ} {present : Bool}, emptyBlock type present = some element → element.type = type := by
    intro type present h
    cases present with
    | true => rw [← Option.some.inj h]
    | false => cases h
  simp only [elements03, List.mem_append, List.mem_cons, Option.mem_toList] at helement
  rcases helement with h | h | h | rfl | h | h
  · rw [hempty h]
    decide
  · rw [hempty h]
    decide
  · rw [hhintType element h]
    decide
  · change 10 ∈ [33, 18, 30, 10, 12, 35]
    decide
  · rw [encodeLifetime_type h]
    decide
  · rw [hwf.parameters element h]
    decide

theorem decode02_elements03 {parameters : Block} (hwf : interest.WellFormed)
    (hparameters : interest.m_parameters = some parameters)
    (hname : (encodeName interest.m_name).value.length < 18446744073709551616) {forwardingHint : Option Block}
    (hhintType : ∀ wire, forwardingHint = some wire → wire.type = 30) (old : Interest) :
    ∃ interest', old.decode02 (encodeName interest.m_name :: elements03 interest nonce forwardingHint) =
      .ok (false, interest') ∧ interest'.m_wire = old.m_wire := by
  have htypes : ∀ element ∈ elements03 interest nonce forwardingHint, _ := elements03_types hwf hhintType
  have hparametersType := hwf.parameters parameters hparameters
  have hselectors : takeType 9 (elements03 interest nonce forwardingHint) =
      (none, elements03 interest nonce forwardingHint) := by
    refine takeType_none fun element helement h => ?_
    have htype := htypes element helement
    rw [h] at htype
    exact absurd htype (by decide)
  have hdecodeName := wireDecode_encodeName hwf.name hname
  have hnameTake : takeType 7 (encodeName interest.m_name :: elements03 interest nonce forwardingHint) = _ :=
    takeType_cons rfl _
  have hnoSelectors : decodeOptional Selectors.initial Selectors.wireDecode none = .ok Selectors.initial := rfl
  have hnoHint : decodeOptional ⟨true, []⟩ (DelegationList.wireDecode · false) none = .ok ⟨true, []⟩ := rfl
  simp only [Interest.decode02, hnameTake, bind, Except.bind, hdecodeName, hselectors, hnoSelectors]
  -- The nonce comes first only if no element is there that the old format does not know.
  have hnonce : takeType 10 (elements03 interest nonce forwardingHint) =
        (none, elements03 interest nonce forwardingHint) ∨
      takeType 10 (elements03 interest nonce forwardingHint) = (some (encodeNonce nonce),
        (encodeLifetime interest.m_interestLifetime).toList ++ interest.m_parameters.toList) := by
    unfold elements03
    cases interest.getCanBePrefix with
    | true => exact Or.inl rfl
    | false =>
      cases interest.getMustBeFresh with
      | true => exact Or.inl rfl
      | false =>
        cases forwardingHint with
        | some wire =>
          have htype := hhintType wire rfl
          left
          change takeType 10 (wire :: _) = _
          rw [takeType, if_neg (by omega)]
          rfl
        | none => exact Or.inr rfl
  rcases hnonce with h | h
  · rw [h]
    exact ⟨_, rfl, rfl⟩
  · have hlifetimeTake : takeType 12 ((encodeLifetime interest.m_interestLifetime).toList ++ [parameters]) =
        (encodeLifetime interest.m_interestLifetime, [parameters]) := by
      refine takeType_append (fun element h => encodeLifetime_type h) fun element helement => ?_
      rw [List.mem_singleton.mp helement, hparametersType]
      decide
    have hhintTake : takeType 30 [parameters] = (none, [parameters]) := by
      refine takeType_none fun element helement => ?_
      rw [List.mem_singleton.mp helement, hparametersType]
      decide
    have hlifetime := decodeLifetime_encode hwf.lifetime_nonneg hwf.lifetime_lt
    rw [h, hparameters, Option.toList_some]
    simp only [decodeNonce_encode, hlifetimeTake, hhintTake, hlifetime, hnoHint]
    exact ⟨_, rfl, rfl⟩

theorem parse_encode03 {parameters : Block} (hwf : interest.WellFormed)
    (hparameters : interest.m_parameters = some parameters) {wire : Block} (h : interest.encode03 nonce = .ok wire)
    (hlength : wire.value.length < 18446744073709551616) : ∃ forwardingHint elements,
      interest.encodeForwardingHint = .ok forwardingHint ∧
      elements = elements03 interest nonce forwardingHint ∧ wire.type = 5 ∧
      wire.parse = .ok (encodeName interest.m_name :: elements) ∧
      (∀ element ∈ encodeName interest.m_name :: elements, element.value.length < 18446744073709551616) ∧
      ∀ old : Interest, ∃ interest', old.decode02 (encodeName interest.m_name :: elements) = .ok (false, interest') ∧
        interest'.m_wire = old.m_wire := by
  obtain ⟨forwardingHint, hhint, h⟩ := ok_of_bind h
  cases h
  have hhintType : ∀ wire, forwardingHint = some wire → wire.type = 30 := fun wire h => encodeForwardingHint_type hhint h
  have hlengths := mem_lengths hlength
  have htypes : ∀ element ∈ encodeName interest.m_name :: elements03 interest nonce forwardingHint,
      element.type ≤ 4294967295 := by
    intro element helement
    rcases List.mem_cons.mp helement with rfl | helement
    · change 7 ≤ 4294967295
      decide
    · have hbound : ∀ type ∈ [33, 18, 30, 10, 12, 35], type ≤ 4294967295 := by decide
      exact hbound _ (elements03_types hwf hhintType element helement)
  exact ⟨forwardingHint, _, hhint, rfl, rfl, parse_elements htypes hlength, hlengths,
    decode02_elements03 hwf hparameters (hlengths _ List.mem_cons_self) hhintType⟩

theorem wireDecode_encode03 {parameters : Block} (hwf : interest.WellFormed) (hne : interest.m_name ≠ [])
    (hparameters : interest.m_parameters = some parameters) {wire : Block} (h : interest.encode03 nonce = .ok wire)
    (hlength : wire.value.length < 18446744073709551616) : ∃ list : DelegationList,
      list.m_dels = SortedLists.sort Delegation.isBefore interest.m_forwardingHint.m_dels ∧
      ∀ (generateWord32 : UInt32) (old : Interest), Interest.wireDecode generateWord32 old wire =
        .ok { decoded03 interest nonce list old with m_wire := some wire } := by
  obtain ⟨forwardingHint, elements, hhint, rfl, htype, hparse, hlengths, hdecode02⟩ :=
    parse_encode03 hwf hparameters h hlength
  have hhintType : ∀ wire, forwardingHint = some wire → wire.type = 30 := fun wire h => encodeForwardingHint_type hhint h
  obtain ⟨list, hdecodeHint, hdels⟩ := decodeForwardingHint_encode hwf true hhint fun wire h =>
    hlengths wire (by simp [elements03, h])
  refine ⟨list, hdels, fun generateWord32 old => ?_⟩
  obtain ⟨interest', hdecode02, hwire⟩ := hdecode02 { old with m_wire := some wire }
  have hnameTake : takeType 7 (encodeName interest.m_name :: elements03 interest nonce forwardingHint) = _ :=
    takeType_cons rfl _
  have hdecodeName := wireDecode_encodeName hwf.name (hlengths _ List.mem_cons_self)
  have hdecoded : interest'.decode03 (encodeName interest.m_name :: elements03 interest nonce forwardingHint) =
      .ok (decoded03 interest nonce list interest') := by
    simp only [Interest.decode03, hnameTake, bind, Except.bind, hdecodeName]
    rw [if_neg hne]
    exact decodeElements_encode03 hwf hparameters hdecodeHint hhintType interest'
  have hnonce : ¬ (decoded03 interest nonce list interest').m_nonce.isNone = true := Bool.false_ne_true
  rw [Interest.wireDecode, hparse]
  simp only [bind, Except.bind]
  rw [if_neg (not_not.mpr htype), hdecode02]
  simp only [Bool.false_eq_true, if_false, hdecoded]
  rw [if_neg hnonce, decoded03, hwire]
  rfl

theorem wireDecode_emptyName {parameters : Block} (hwf : interest.WellFormed) (hname : interest.m_name = [])
    (hparameters : interest.m_parameters = some parameters) {wire : Block} (h : interest.encode03 nonce = .ok wire)
    (hlength : wire.value.length < 18446744073709551616) (generateWord32 : UInt32) (old : Interest) :
    Interest.wireDecode generateWord32 old wire = .error (.tlvError "Name has zero name components") := by
  obtain ⟨forwardingHint, elements, hhint, rfl, htype, hparse, hlengths, hdecode02⟩ :=
    parse_encode03 hwf hparameters h hlength
  obtain ⟨interest', hdecode02, -⟩ := hdecode02 { old with m_wire := some wire }
  have hnameTake : takeType 7 (encodeName interest.m_name :: elements03 interest nonce forwardingHint) = _ :=
    takeType_cons rfl _
  have hdecodeName := wireDecode_encodeName hwf.name (hlengths _ List.mem_cons_self)
  rw [Interest.wireDecode, hparse]
  simp only [bind, Except.bind]
  rw [if_neg (not_not.mpr htype), hdecode02]
  simp only [Bool.false_eq_true, if_false, Interest.decode03, hnameTake, bind, Except.bind, hdecodeName]
  rw [if_pos hname]

theorem wireDecode_encode02 (hwf : interest.WellFormed) (hv02 : OnlyV02 interest.m_selectors.m_exclude)
    {wire : Block} (h : interest.encode02 nonce = .ok wire) (hlength : wire.value.length < 18446744073709551616) :
    ∃ (keyLocator : Option Block) (list : DelegationList), list.m_dels = interest.m_forwardingHint.m_dels ∧
      ∀ (generateWord32 : UInt32) (old : Interest), Interest.wireDecode generateWord32 old wire = .ok { old with
        m_name := interest.m_name
        m_selectors := decodedSelectors interest.m_selectors keyLocator
        m_nonce := some nonce
        m_interestLifetime := interest.m_interestLifetime
        m_forwardingHint := list
        m_wire := some wire } := by
  obtain ⟨htype, elements, keyLocator, list, hparse, hdels, hdecode⟩ := decode02_encode02 hwf hv02 h hlength
  refine ⟨keyLocator, list, hdels, fun generateWord32 old => ?_⟩
  rw [Interest.wireDecode, hparse]
  simp only [bind, Except.bind]
  rw [if_neg (fun h => h htype), hdecode]
  simp only [if_true]

end RoundTrip

structure SameFields (generateWord32 : UInt32) (interest decoded : Interest) : Prop where
  name : decoded.m_name = interest.m_name
  canBePrefix : decoded.getCanBePrefix = interest.getCanBePrefix
  mustBeFresh : decoded.getMustBeFresh = interest.getMustBeFresh
  minSuffixComponents : decoded.m_selectors.m_minSuffixComponents = interest.m_selectors.m_minSuffixComponents
  maxSuffixComponents : decoded.m_selectors.m_maxSuffixComponents = interest.m_selectors.m_maxSuffixComponents
  publisherPublicKeyLocator : decoded.m_selectors.m_publisherPublicKeyLocator.locator =
    interest.m_selectors.m_publisherPublicKeyLocator.locator
  exclude : decoded.m_selectors.m_exclude = interest.m_selectors.m_exclude
  childSelector : decoded.m_selectors.m_childSelector = interest.m_selectors.m_childSelector
  forwardingHint : decoded.m_forwardingHint.m_dels = interest.m_forwardingHint.m_dels
  nonce : decoded.m_nonce = some (interest.m_nonce.getD generateWord32)
  lifetime : decoded.m_interestLifetime = interest.m_interestLifetime
  parameters : decoded.m_parameters = interest.m_parameters

/-- What the packet format of the Interest can express. -/
def InFormat (interest : Interest) : Prop :=
  if interest.hasParameters then interest.m_name ≠ []
  else interest.m_selectors.m_publisherPublicKeyLocator.locator ≠ .Unknown ∧ OnlyV02 interest.m_selectors.m_exclude

/-- Selectors that the format does not have are as in a new Interest, numbers that mean none
are -1, and the delegations that the decoder sorts are sorted. -/
def LosesNothing (interest : Interest) : Prop :=
  if interest.hasParameters then
    interest.m_selectors.m_minSuffixComponents = -1 ∧
      (interest.m_selectors.m_maxSuffixComponents = -1 ∨ interest.m_selectors.m_maxSuffixComponents = 1) ∧
      interest.m_selectors.m_publisherPublicKeyLocator.locator = .None ∧
      interest.m_selectors.m_exclude.m_entries = [] ∧ interest.m_selectors.m_childSelector = 0 ∧
      SortedLists.Sorted Delegation.isBefore interest.m_forwardingHint.m_dels
  else -1 ≤ interest.m_selectors.m_minSuffixComponents ∧ -1 ≤ interest.m_selectors.m_maxSuffixComponents

structure CarriedBack (generateWord32 : UInt32) (interest decoded : Interest) : Prop where
  name : decoded.m_name = interest.m_name
  canBePrefix : decoded.getCanBePrefix = interest.getCanBePrefix
  mustBeFresh : decoded.getMustBeFresh = interest.getMustBeFresh
  nonce : decoded.m_nonce = some (interest.m_nonce.getD generateWord32)
  lifetime : decoded.m_interestLifetime = interest.m_interestLifetime
  parameters : decoded.m_parameters = interest.m_parameters
  format02 : interest.m_parameters = none →
    decoded.m_selectors = decodedSelectors interest.m_selectors
      decoded.m_selectors.m_publisherPublicKeyLocator.m_wire ∧
    decoded.m_forwardingHint.m_dels = interest.m_forwardingHint.m_dels
  format03 : interest.m_parameters ≠ none →
    decoded.m_selectors = { Selectors.initial with
      m_maxSuffixComponents := if interest.getCanBePrefix then -1 else 1
      m_mustBeFresh := interest.getMustBeFresh } ∧
    decoded.m_forwardingHint.m_dels = SortedLists.sort Delegation.isBefore interest.m_forwardingHint.m_dels

section Claims

variable {interest decoded : Interest} {generateWord32 : UInt32}

theorem sort_eq_iff {dels : List Delegation} :
    SortedLists.sort Delegation.isBefore dels = dels ↔ SortedLists.Sorted Delegation.isBefore dels := by
  constructor
  · intro h
    rw [← h]
    exact SortedLists.sort_sorted strictOrder_isBefore dels
  · exact SortedLists.sort_of_sorted

theorem CarriedBack.sameFields_iff (h : CarriedBack generateWord32 interest decoded) :
    SameFields generateWord32 interest decoded ↔ LosesNothing interest := by
  unfold LosesNothing
  cases hparameters : interest.m_parameters with
  | none =>
    obtain ⟨hselectors, hdels⟩ := h.format02 hparameters
    rw [if_neg (by rw [Interest.hasParameters, hparameters]; exact Bool.false_ne_true)]
    constructor
    · intro hsame
      have hmin := hsame.minSuffixComponents
      have hmax := hsame.maxSuffixComponents
      rw [hselectors] at hmin hmax
      simp only [decodedSelectors] at hmin hmax
      omega
    · rintro ⟨hmin, hmax⟩
      refine ⟨h.name, h.canBePrefix, h.mustBeFresh, ?_, ?_, ?_, ?_, ?_, hdels, h.nonce, h.lifetime, h.parameters⟩
      · rw [hselectors]
        exact Int.max_eq_right hmin
      · rw [hselectors]
        exact Int.max_eq_right hmax
      · rw [hselectors]
        rfl
      · rw [hselectors]
        rfl
      · rw [hselectors]
        rfl
  | some parameters =>
    obtain ⟨hselectors, hdels⟩ := h.format03 (by rw [hparameters]; exact Option.some_ne_none parameters)
    rw [if_pos (by rw [Interest.hasParameters, hparameters]; rfl)]
    constructor
    · intro hsame
      have hmin := hsame.minSuffixComponents
      have hmax := hsame.maxSuffixComponents
      have hlocator := hsame.publisherPublicKeyLocator
      have hexclude := hsame.exclude
      have hchild := hsame.childSelector
      rw [hselectors] at hmin hmax hlocator hexclude hchild
      refine ⟨hmin.symm, ?_, hlocator.symm, ?_, hchild.symm, ?_⟩
      · rw [← hmax]
        cases interest.getCanBePrefix
        · exact Or.inr rfl
        · exact Or.inl rfl
      · rw [← hexclude]
        rfl
      · rw [← sort_eq_iff, ← hdels]
        exact hsame.forwardingHint
    · rintro ⟨hmin, hmax, hlocator, hexclude, hchild, hsorted⟩
      refine ⟨h.name, h.canBePrefix, h.mustBeFresh, ?_, ?_, ?_, ?_, ?_, ?_, h.nonce, h.lifetime, h.parameters⟩
      · rw [hselectors, hmin]
        rfl
      · rw [hselectors]
        rcases hmax with hmax | hmax <;> simp [Interest.getCanBePrefix, hmax]
      · rw [hselectors, hlocator]
        rfl
      · rw [hselectors]
        exact (congrArg Exclude.mk hexclude).symm
      · rw [hselectors, hchild]
        rfl
      · rw [hdels, sort_eq_iff.mpr hsorted]

theorem encode_ok (hwf : interest.WellFormed) (hformat : InFormat interest) :
    ∃ block, interest.encode generateWord32 = .ok block := by
  obtain ⟨forwardingHint, hhint⟩ := encodeForwardingHint_ok interest
  unfold InFormat at hformat
  unfold Interest.encode
  split
  · rw [Interest.encode03, hhint]
    exact ⟨_, rfl⟩
  · rename_i hnone
    rw [if_neg hnone] at hformat
    obtain ⟨selectors, hselectors⟩ : ∃ selectors, encodeUnless (Selectors.isEmpty interest.m_selectors)
        (Selectors.wireEncode interest.m_selectors) = .ok selectors :=
      encodeUnless_exists fun _ => SelectorsCodec.wireEncode_ok hformat.1 hwf.selectors
    rw [Interest.encode02, hhint]
    simp only [hselectors, bind, Except.bind]
    exact ⟨_, rfl⟩

theorem encode_type {block : Block} (h : interest.encode generateWord32 = .ok block) : block.type = 5 := by
  unfold Interest.encode at h
  split at h
  · obtain ⟨forwardingHint, -, h⟩ := ok_of_bind h
    cases h
    rfl
  · obtain ⟨forwardingHint, -, h⟩ := ok_of_bind h
    obtain ⟨selectors, -, h⟩ := ok_of_bind h
    cases h
    rfl

/-- One Interest comes out of every decoding that has no parameters to begin with. -/
theorem wireDecode_encode (hwf : interest.WellFormed) (hformat : InFormat interest) {block : Block}
    (h : interest.encode generateWord32 = .ok block) (hlength : block.value.length < 18446744073709551616) :
    ∃ decoded, CarriedBack generateWord32 interest decoded ∧ ∀ (generateWord32' : UInt32) (old : Interest),
      (interest.m_parameters = none → old.m_parameters = none) →
        Interest.wireDecode generateWord32' old block = .ok decoded := by
  unfold InFormat at hformat
  unfold Interest.encode at h
  cases hparameters : interest.m_parameters with
  | none =>
    have hnone : ¬ interest.hasParameters = true := by
      rw [Interest.hasParameters, hparameters]
      exact Bool.false_ne_true
    rw [if_neg hnone] at h hformat
    obtain ⟨keyLocator, list, hdels, hdecode⟩ := wireDecode_encode02 hwf hformat.2 h hlength
    refine ⟨⟨interest.m_name, decodedSelectors interest.m_selectors keyLocator,
      some (interest.m_nonce.getD generateWord32), interest.m_interestLifetime, list, none, some block⟩,
      ⟨rfl, ?_, rfl, rfl, rfl, hparameters.symm, fun _ => ⟨rfl, hdels⟩, fun h => absurd hparameters h⟩,
      fun generateWord32' old hold => ?_⟩
    · simp only [Interest.getCanBePrefix, decodedSelectors, ne_eq]
      congr 1
      rw [eq_iff_iff]
      omega
    · rw [hdecode, hold rfl]
  | some parameters =>
    have hsome : interest.hasParameters = true := by
      rw [Interest.hasParameters, hparameters]
      rfl
    rw [if_pos hsome] at h hformat
    obtain ⟨list, hdels, hdecode⟩ := wireDecode_encode03 hwf hformat hparameters h hlength
    refine ⟨{ decoded03 interest (interest.m_nonce.getD generateWord32) list interest with m_wire := some block },
      ⟨rfl, ?_, rfl, rfl, rfl, rfl, fun h => absurd (hparameters.symm.trans h) (Option.some_ne_none parameters),
        fun _ => ⟨rfl, hdels⟩⟩,
      fun generateWord32' old _ => hdecode generateWord32' old⟩
    simp only [Interest.getCanBePrefix, decoded03, ne_eq]
    by_cases hmax : interest.m_selectors.m_maxSuffixComponents = 1 <;> simp [hmax]

/-- An Interest that its packet format can express is encoded, and decoded from its encoding,
also by `wireEncode` itself; the format decides what is given back. -/
theorem interest_roundTrip (interest : Interest) (hbuilt : interest.Built) (generateWord32 : UInt32) :
    (InFormat interest → ∃ block, interest.encode generateWord32 = .ok block ∧
      (block.value.length < 18446744073709551616 → ∃ decoded, CarriedBack generateWord32 interest decoded ∧
        (SameFields generateWord32 interest decoded ↔ LosesNothing interest) ∧
        interest.wireEncode generateWord32 = .ok (block, decoded) ∧
        ∀ generateWord32', (Block.ofBuffer (wire block) >>= Interest.ofWire generateWord32') = .ok decoded)) ∧
    (interest.m_parameters = none → interest.m_selectors.m_publisherPublicKeyLocator.locator = .Unknown →
      interest.wireEncode generateWord32 = .error (.tlvError "Unsupported KeyLocator type")) ∧
    (interest.m_parameters ≠ none → interest.m_name = [] → ∃ block, interest.encode generateWord32 = .ok block ∧
      (block.value.length < 18446744073709551616 →
        interest.wireEncode generateWord32 = .error (.tlvError "Name has zero name components"))) := by
  have hwf := Built.wellFormed hbuilt
  refine ⟨fun hformat => ?_, fun hnone hunknown => ?_, fun hsome hname => ?_⟩
  · obtain ⟨block, hencode⟩ := encode_ok hwf hformat
    refine ⟨block, hencode, fun hlength => ?_⟩
    obtain ⟨decoded, hcarried, hdecode⟩ := wireDecode_encode hwf hformat hencode hlength
    refine ⟨decoded, hcarried, hcarried.sameFields_iff, ?_, fun generateWord32' => ?_⟩
    · rw [Interest.wireEncode, hwf.wire]
      simp only [hencode, bind, Except.bind, hdecode generateWord32 interest id]
    · have hencodable : Encodable block := by
        refine ⟨?_, hlength⟩
        rw [encode_type hencode]
        decide
      rw [ofBuffer_wire hencodable]
      exact hdecode generateWord32' _ fun _ => rfl
  · have hempty : ¬ Selectors.isEmpty interest.m_selectors = true := by
      rw [isEmpty_iff, hunknown]
      rintro ⟨-, -, h, -⟩
      cases h
    obtain ⟨forwardingHint, hhint⟩ := encodeForwardingHint_ok interest
    have hnot : ¬ interest.hasParameters = true := by
      rw [Interest.hasParameters, hnone]
      exact Bool.false_ne_true
    have hencode : interest.encode generateWord32 = .error (.tlvError "Unsupported KeyLocator type") := by
      rw [Interest.encode, if_neg hnot, Interest.encode02, hhint, encodeUnless, if_neg hempty,
        SelectorsCodec.wireEncode_unknown hunknown]
      rfl
    rw [Interest.wireEncode, hwf.wire, hencode]
    rfl
  · obtain ⟨parameters, hparameters⟩ := Option.ne_none_iff_exists'.mp hsome
    have hhas : interest.hasParameters = true := by
      rw [Interest.hasParameters, hparameters]
      rfl
    obtain ⟨forwardingHint, hhint⟩ := encodeForwardingHint_ok interest
    have hencode : interest.encode generateWord32 = interest.encode03 (interest.m_nonce.getD generateWord32) := if_pos hhas
    have hok : ∃ block, interest.encode03 (interest.m_nonce.getD generateWord32) = .ok block := by
      rw [Interest.encode03, hhint]
      exact ⟨_, rfl⟩
    obtain ⟨block, hblock⟩ := hok
    refine ⟨block, hencode.trans hblock, fun hlength => ?_⟩
    rw [Interest.wireEncode, hwf.wire, hencode, hblock]
    simp only [bind, Except.bind, wireDecode_emptyName hwf hname hparameters hblock hlength]

def aliceInterest (minSuffixComponents : ℤ) : Interest :=
  ⟨[⟨8, [97]⟩], { Selectors.initial with m_maxSuffixComponents := 1, m_minSuffixComponents := minSuffixComponents },
    some 7, 4000, ⟨true, []⟩, some ⟨35, [192]⟩, none⟩

theorem built_aliceInterest {minSuffixComponents : ℤ} (hint : IsInt minSuffixComponents) :
    (aliceInterest minSuffixComponents).Built := by
  have hname : Name.TypesOk [⟨8, [97]⟩] := by
    unfold Name.TypesOk
    decide
  have hnew : Interest.Built ⟨[⟨8, [97]⟩], { Selectors.initial with m_maxSuffixComponents := 1 }, none, 4000, ⟨true, []⟩,
      none, none⟩ := @Interest.Built.construct (some false) _ 4000 _ hname (by decide) rfl
  have hmin := @Interest.Built.set _ _ (.select (.setMinSuffixComponents minSuffixComponents)) hnew hint rfl
  have hnonce := @Interest.Built.set _ _ (.setNonce 7) hmin trivial rfl
  exact @Interest.Built.set _ _ (.setParameters ⟨35, [192]⟩) hnonce trivial rfl

theorem encode_aliceInterest (minSuffixComponents : ℤ) (generateWord32 : UInt32) :
    (aliceInterest minSuffixComponents).encode generateWord32 =
      .ok ⟨5, [7, 3, 8, 1, 97, 10, 4, 7, 0, 0, 0, 35, 1, 192]⟩ := by
  have helements : (aliceInterest minSuffixComponents).encode generateWord32 =
      .ok (makeBlock 5 [⟨7, [8, 1, 97]⟩, encodeNonce 7, ⟨35, [192]⟩]) := rfl
  rw [helements]
  decide

theorem interest_roundTrip_alice : ∃ block decoded, (aliceInterest (-1)).encode 9 = .ok block ∧
    (Block.ofBuffer (wire block) >>= Interest.ofWire 3) = .ok decoded ∧ SameFields 9 (aliceInterest (-1)) decoded := by
  have hformat : InFormat (aliceInterest (-1)) := by
    exact List.cons_ne_nil _ _
  obtain ⟨block, hencode, h⟩ :=
    (interest_roundTrip (aliceInterest (-1)) (built_aliceInterest (by unfold IsInt; decide)) 9).1 hformat
  have hblock := hencode
  rw [encode_aliceInterest] at hblock
  cases hblock
  obtain ⟨decoded, -, hsame, -, hdecode⟩ := h (by decide)
  refine ⟨_, decoded, hencode, hdecode 3, hsame.mpr ?_⟩
  exact ⟨rfl, Or.inr rfl, rfl, rfl, rfl, List.Pairwise.nil⟩

theorem not_sameFields_alice : ¬ ∀ interest : Interest, interest.Built → ∀ generateWord32 generateWord32' : UInt32,
    ∃ block decoded, interest.encode generateWord32 = .ok block ∧
      (Block.ofBuffer (wire block) >>= Interest.ofWire generateWord32') = .ok decoded ∧
      SameFields generateWord32 interest decoded := by
  intro h
  have hbuilt : (aliceInterest 1).Built := built_aliceInterest (by unfold IsInt; decide)
  obtain ⟨block, decoded, hencode, hdecode, hsame⟩ := h (aliceInterest 1) hbuilt 9 9
  have hformat : InFormat (aliceInterest 1) := by
    exact List.cons_ne_nil _ _
  have hlength : block.value.length < 18446744073709551616 := by
    rw [encode_aliceInterest] at hencode
    cases hencode
    decide
  obtain ⟨decoded', hcarried, hdecode'⟩ := wireDecode_encode (Built.wellFormed hbuilt) hformat hencode hlength
  have hencodable : Encodable block := by
    refine ⟨?_, hlength⟩
    rw [encode_type hencode]
    decide
  rw [ofBuffer_wire hencodable] at hdecode
  have hdecoded : decoded = decoded' := Except.ok.inj (hdecode.symm.trans (hdecode' 9 _ fun _ => rfl))
  rw [hdecoded] at hsame
  have hloses := hcarried.sameFields_iff.mp hsame
  have hmin : (1 : ℤ) = -1 := hloses.1
  cases hmin

end Claims

end LeoNdn.InterestCodec
