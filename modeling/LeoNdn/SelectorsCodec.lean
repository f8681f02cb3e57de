import LeoNdn.Excludes
import LeoNdn.Loops

/-!
The selectors of an Interest: their setters, their encoding, and that the decoder
gives them back.
-/

namespace LeoNdn.SelectorsCodec

open LeoNdn.Tlv LeoNdn.TlvEncoding LeoNdn.NdnPacket LeoNdn.NdnEncoding LeoNdn.InterestSelectors LeoNdn.Excludes
open LeoNdn.Loops (ok_of_bind)

def PublisherKeyLocator.setName (name : Name) : PublisherKeyLocator := ⟨.Name name, none⟩

def PublisherKeyLocator.setKeyDigest (keyDigest : Block) : Except Exception PublisherKeyLocator :=
  if keyDigest.type ≠ 29 then .error (.tlvError "expecting KeyDigest block") else .ok ⟨.KeyDigest keyDigest, none⟩

def PublisherKeyLocator.wireDecode (wire : Block) : Except Exception PublisherKeyLocator := do
  if wire.type ≠ 28 then .error (.tlvError "Unexpected TLV type during KeyLocator decoding")
  else do
    let locator ← KeyLocator.wireDecode wire
    .ok ⟨locator, some wire⟩

inductive PublisherKeyLocator.Built : PublisherKeyLocator → Prop
  | empty : PublisherKeyLocator.Built ⟨.None, none⟩
  | setName {name : Name} : Name.TypesOk name → PublisherKeyLocator.Built (PublisherKeyLocator.setName name)
  | setKeyDigest {keyDigest : Block} {keyLocator : PublisherKeyLocator} :
      PublisherKeyLocator.setKeyDigest keyDigest = .ok keyLocator → PublisherKeyLocator.Built keyLocator
  | wireEncode {keyLocator : PublisherKeyLocator} {wire : Block} : PublisherKeyLocator.Built keyLocator →
      keyLocator.wireEncode = .ok wire → PublisherKeyLocator.Built ⟨keyLocator.locator, some wire⟩
  | wireDecode {keyLocator : PublisherKeyLocator} {wire : Block} :
      PublisherKeyLocator.wireDecode wire = .ok keyLocator → PublisherKeyLocator.Built keyLocator

def Selectors.initial : Selectors := ⟨-1, -1, ⟨.None, none⟩, ⟨[]⟩, 0, false⟩

def Selectors.isEmpty (selectors : Selectors) : Bool :=
  selectors.m_minSuffixComponents < 0 && selectors.m_maxSuffixComponents < 0 &&
    selectors.m_publisherPublicKeyLocator.locator = .None && selectors.m_exclude.m_entries = [] &&
    selectors.m_childSelector = 0 && ! selectors.m_mustBeFresh

inductive Selectors.Setter
  | setMinSuffixComponents (minSuffixComponents : ℤ)
  | setMaxSuffixComponents (maxSuffixComponents : ℤ)
  | setPublisherPublicKeyLocator (keyLocator : PublisherKeyLocator)
  | setExclude (exclude : Exclude)
  | setChildSelector (childSelector : ℤ)
  | setMustBeFresh (mustBeFresh : Bool)
  deriving DecidableEq, Repr

def Selectors.set (selectors : Selectors) : Selectors.Setter → Except Exception Selectors
  | .setMinSuffixComponents minSuffixComponents => .ok { selectors with m_minSuffixComponents := minSuffixComponents }
  | .setMaxSuffixComponents maxSuffixComponents => .ok { selectors with m_maxSuffixComponents := maxSuffixComponents }
  | .setPublisherPublicKeyLocator keyLocator => .ok { selectors with m_publisherPublicKeyLocator := keyLocator }
  | .setExclude exclude => .ok { selectors with m_exclude := exclude }
  | .setChildSelector childSelector =>
    if childSelector ≠ 0 ∧ childSelector ≠ 1 then .error (.invalidArgument "ChildSelector must be 0 or 1")
    else .ok { selectors with m_childSelector := childSelector }
  | .setMustBeFresh mustBeFresh => .ok { selectors with m_mustBeFresh := mustBeFresh }

/-- A value of type `int`. -/
def IsInt (number : ℤ) : Prop := -2147483648 ≤ number ∧ number ≤ 2147483647

def Selectors.Setter.Typed : Selectors.Setter → Prop
  | .setMinSuffixComponents minSuffixComponents => IsInt minSuffixComponents
  | .setMaxSuffixComponents maxSuffixComponents => IsInt maxSuffixComponents
  | .setPublisherPublicKeyLocator keyLocator => PublisherKeyLocator.Built keyLocator
  | .setExclude exclude => Exclude.Built exclude
  | .setChildSelector childSelector => IsInt childSelector
  | .setMustBeFresh _ => True

/-- The elements in the order of their types in the packet format. -/
def Selectors.slots (selectors : Selectors) (keyLocator exclude : Option Block) : List (ℕ × Option Block) :=
  [(13, if selectors.m_minSuffixComponents ≥ 0 then
      some (makeNonNegativeIntegerBlock 13 selectors.m_minSuffixComponents.toNat) else none),
    (14, if selectors.m_maxSuffixComponents ≥ 0 then
      some (makeNonNegativeIntegerBlock 14 selectors.m_maxSuffixComponents.toNat) else none),
    (28, keyLocator), (16, exclude),
    (17, if selectors.m_childSelector ≠ 0 then
      some (makeNonNegativeIntegerBlock 17 selectors.m_childSelector.toNat) else none),
    (18, if selectors.m_mustBeFresh then some ⟨18, []⟩ else none)]

def encodeUnless (absent : Prop) [Decidable absent] (encode : Except Exception Block) :
    Except Exception (Option Block) :=
  if absent then .ok none
  else do
    let block ← encode
    .ok (some block)

def elementsOf (slots : List (ℕ × Option Block)) : List Block := slots.flatMap (fun slot => slot.2.toList)

def Selectors.wireEncode (selectors : Selectors) : Except Exception Block := do
  let exclude ← encodeUnless (selectors.m_exclude.m_entries = []) (Exclude.wireEncode selectors.m_exclude)
  let keyLocator ← encodeUnless (selectors.m_publisherPublicKeyLocator.locator = .None)
    (encodeKeyLocator selectors.m_publisherPublicKeyLocator.locator)
  .ok (makeBlock 9 (elementsOf (Selectors.slots selectors keyLocator exclude)))

def decodeField {α : Type} (type : ℕ) (elements : List Block) (absent : α) (decode : Block → Except Exception α) :
    Except Exception α :=
  match find elements type with
  | some element => decode element
  | none => .ok absent

/-- `readNonNegativeIntegerAs<int>`. -/
def decodeInt (element : Block) : Except Exception ℤ := do
  let number ← readNonNegativeIntegerAs 2147483647 element
  .ok number

/-- `readNonNegativeIntegerAs<bool>`. -/
def decodeBool (element : Block) : Except Exception ℤ := do
  let number ← readNonNegativeIntegerAs 1 element
  .ok number

def Selectors.wireDecode (wire : Block) : Except Exception Selectors := do
  if wire.type ≠ 9 then .error (.tlvError "Unexpected TLV type when decoding Selectors")
  else do
    let elements ← wire.parse
    let minSuffixComponents ← decodeField 13 elements (-1) decodeInt
    let maxSuffixComponents ← decodeField 14 elements (-1) decodeInt
    let keyLocator ← decodeField 28 elements ⟨.None, none⟩ PublisherKeyLocator.wireDecode
    let exclude ← decodeField 16 elements ⟨[]⟩ Exclude.wireDecode
    let childSelector ← decodeField 17 elements 0 decodeBool
    .ok ⟨minSuffixComponents, maxSuffixComponents, keyLocator, exclude, childSelector, (find elements 18).isSome⟩

inductive Selectors.Built : Selectors → Prop
  | initial : Selectors.Built Selectors.initial
  | set {selectors selectors' : Selectors} {setter : Selectors.Setter} : Selectors.Built selectors →
      Selectors.Setter.Typed setter → Selectors.set selectors setter = .ok selectors' → Selectors.Built selectors'
  | wireDecode {selectors : Selectors} {wire : Block} :
      Selectors.wireDecode wire = .ok selectors → Selectors.Built selectors

structure Selectors.WellFormed (selectors : Selectors) : Prop where
  min_le : selectors.m_minSuffixComponents ≤ 2147483647
  max_le : selectors.m_maxSuffixComponents ≤ 2147483647
  keyLocator : selectors.m_publisherPublicKeyLocator.locator ≠ .Unknown →
    KeyLocator.WellFormed selectors.m_publisherPublicKeyLocator.locator
  exclude : Exclude.WellFormed selectors.m_exclude
  childSelector : selectors.m_childSelector = 0 ∨ selectors.m_childSelector = 1

section Building

variable {selectors selectors' : Selectors} {keyLocator : PublisherKeyLocator}

theorem wireDecode_wellFormed {wire : Block} {locator : KeyLocator} (h : KeyLocator.wireDecode wire = .ok locator)
    (hknown : locator ≠ .Unknown) : KeyLocator.WellFormed locator := by
  obtain ⟨elements, hparse, h⟩ := ok_of_bind h
  split at h
  · cases h
    trivial
  · rename_i element rest
    split at h
    · obtain ⟨name, hname, h⟩ := ok_of_bind h
      cases h
      unfold Name.wireDecode at hname
      split at hname
      · cases hname
      · exact parse_types_le hname
    · split at h
      · rename_i hdigest
        cases h
        exact hdigest
      · cases h
        exact absurd rfl hknown

theorem PublisherKeyLocator.Built.wellFormed (h : PublisherKeyLocator.Built keyLocator)
    (hknown : keyLocator.locator ≠ .Unknown) : KeyLocator.WellFormed keyLocator.locator := by
  induction h with
  | empty => trivial
  | setName hname => exact hname
  | @setKeyDigest keyDigest keyLocator h =>
    unfold PublisherKeyLocator.setKeyDigest at h
    split at h
    · cases h
    · rename_i htype
      cases h
      exact not_not.mp htype
  | wireEncode _ _ ih => exact ih hknown
  | @wireDecode keyLocator wire h =>
    unfold PublisherKeyLocator.wireDecode at h
    split at h
    · cases h
    · obtain ⟨locator, hdecode, h⟩ := ok_of_bind h
      cases h
      exact wireDecode_wellFormed hdecode hknown

theorem decodeField_ok {α : Type} {type : ℕ} {elements : List Block} {absent a : α}
    {decode : Block → Except Exception α} (h : decodeField type elements absent decode = .ok a) :
    a = absent ∨ ∃ element, decode element = .ok a := by
  unfold decodeField at h
  split at h
  · rename_i element _
    exact Or.inr ⟨element, h⟩
  · exact Or.inl (Except.ok.inj h).symm

theorem readNonNegativeIntegerAs_le {max number : ℕ} {element : Block}
    (h : readNonNegativeIntegerAs max element = .ok number) : number ≤ max := by
  obtain ⟨value, -, h⟩ := ok_of_bind h
  split at h
  · cases h
  · cases h
    omega

theorem decodeInt_le {element : Block} {number : ℤ} (h : decodeInt element = .ok number) : number ≤ 2147483647 := by
  obtain ⟨value, hread, h⟩ := ok_of_bind h
  have hle := readNonNegativeIntegerAs_le hread
  cases h
  omega

theorem decodeBool_eq {element : Block} {number : ℤ} (h : decodeBool element = .ok number) :
    number = 0 ∨ number = 1 := by
  obtain ⟨value, hread, h⟩ := ok_of_bind h
  have hle := readNonNegativeIntegerAs_le hread
  cases h
  omega

theorem WellFormed.initial : Selectors.WellFormed Selectors.initial :=
  ⟨by decide, by decide, fun _ => trivial, Excludes.WellFormed.empty, Or.inl rfl⟩

theorem WellFormed.set {setter : Selectors.Setter} (hwf : Selectors.WellFormed selectors)
    (htyped : Selectors.Setter.Typed setter) (h : Selectors.set selectors setter = .ok selectors') :
    Selectors.WellFormed selectors' := by
  cases setter with
  | setMinSuffixComponents minSuffixComponents =>
    cases h
    exact ⟨htyped.2, hwf.max_le, hwf.keyLocator, hwf.exclude, hwf.childSelector⟩
  | setMaxSuffixComponents maxSuffixComponents =>
    cases h
    exact ⟨hwf.min_le, htyped.2, hwf.keyLocator, hwf.exclude, hwf.childSelector⟩
  | setPublisherPublicKeyLocator keyLocator =>
    cases h
    exact ⟨hwf.min_le, hwf.max_le, PublisherKeyLocator.Built.wellFormed htyped, hwf.exclude, hwf.childSelector⟩
  | setExclude exclude =>
    cases h
    exact ⟨hwf.min_le, hwf.max_le, hwf.keyLocator, Excludes.Built.wellFormed htyped, hwf.childSelector⟩
  | setChildSelector childSelector =>
    rw [Selectors.set] at h
    split at h
    · cases h
    · rename_i hchild
      cases h
      refine ⟨hwf.min_le, hwf.max_le, hwf.keyLocator, hwf.exclude, ?_⟩
      change childSelector = 0 ∨ childSelector = 1
      omega
  | setMustBeFresh mustBeFresh =>
    cases h
    exact ⟨hwf.min_le, hwf.max_le, hwf.keyLocator, hwf.exclude, hwf.childSelector⟩

theorem WellFormed.wireDecode {wire : Block} (h : Selectors.wireDecode wire = .ok selectors) :
    Selectors.WellFormed selectors := by
  unfold Selectors.wireDecode at h
  split at h
  · cases h
  obtain ⟨elements, -, h⟩ := ok_of_bind h
  obtain ⟨min, hmin, h⟩ := ok_of_bind h
  obtain ⟨max, hmax, h⟩ := ok_of_bind h
  obtain ⟨keyLocator, hkeyLocator, h⟩ := ok_of_bind h
  obtain ⟨exclude, hexclude, h⟩ := ok_of_bind h
  obtain ⟨childSelector, hchild, h⟩ := ok_of_bind h
  cases h
  refine ⟨?_, ?_, fun hknown => ?_, ?_, ?_⟩
  · rcases decodeField_ok hmin with rfl | ⟨element, hdecode⟩
    · exact WellFormed.initial.min_le
    · exact decodeInt_le hdecode
  · rcases decodeField_ok hmax with rfl | ⟨element, hdecode⟩
    · exact WellFormed.initial.max_le
    · exact decodeInt_le hdecode
  · rcases decodeField_ok hkeyLocator with rfl | ⟨element, hdecode⟩
    · trivial
    · exact PublisherKeyLocator.Built.wellFormed (.wireDecode hdecode) hknown
  · rcases decodeField_ok hexclude with rfl | ⟨element, hdecode⟩
    · exact Excludes.WellFormed.empty
    · exact Excludes.WellFormed.wireDecode hdecode
  · rcases decodeField_ok hchild with rfl | ⟨element, hdecode⟩
    · exact Or.inl rfl
    · exact decodeBool_eq hdecode

theorem Built.wellFormed (h : Selectors.Built selectors) : Selectors.WellFormed selectors := by
  induction h with
  | initial => exact WellFormed.initial
  | set _ htyped h ih => exact WellFormed.set ih htyped h
  | wireDecode h => exact WellFormed.wireDecode h

end Building

section Slots

variable {slots : List (ℕ × Option Block)}

def Slotted (slots : List (ℕ × Option Block)) : Prop :=
  ∀ slot ∈ slots, ∀ element, slot.2 = some element → element.type = slot.1

theorem mem_elementsOf {element : Block} :
    element ∈ elementsOf slots ↔ ∃ slot ∈ slots, slot.2 = some element := by
  simp only [elementsOf, List.mem_flatMap, Option.mem_toList]

theorem find_elementsOf (hslotted : Slotted slots) (hnodup : (slots.map Prod.fst).Nodup) {type : ℕ}
    {element : Option Block} (h : (type, element) ∈ slots) : find (elementsOf slots) type = element := by
  induction slots with
  | nil => cases h
  | cons slot slots ih =>
    have hrest : Slotted slots := fun slot' hslot' => hslotted slot' (List.mem_cons_of_mem _ hslot')
    obtain ⟨hfresh, hnodup'⟩ := List.nodup_cons.mp hnodup
    obtain ⟨type', element'⟩ := slot
    have hcons : elementsOf ((type', element') :: slots) = element'.toList ++ elementsOf slots := rfl
    rw [hcons]
    rcases List.mem_cons.mp h with heq | h
    · obtain ⟨rfl, rfl⟩ := Prod.mk.inj heq
      cases element with
      | some element =>
        have htype := hslotted _ List.mem_cons_self element rfl
        rw [find, Option.toList_some, List.singleton_append, List.find?_cons_of_pos (by simpa using htype)]
      | none =>
        rw [find, Option.toList_none, List.nil_append, List.find?_eq_none]
        intro other hother
        obtain ⟨slot, hslot, hsome⟩ := mem_elementsOf.mp hother
        have htype := hrest slot hslot other hsome
        have hne : other.type ≠ type := by
          rintro rfl
          exact hfresh (List.mem_map.mpr ⟨slot, hslot, htype.symm⟩)
        simpa using hne
    · have hne : type' ≠ type := by
        rintro rfl
        exact hfresh (List.mem_map.mpr ⟨(type', element), h, rfl⟩)
      have hskip : find (element'.toList ++ elementsOf slots) type = find (elementsOf slots) type := by
        cases element' with
        | none => rfl
        | some element' =>
          have htype := hslotted _ List.mem_cons_self element' rfl
          have hne' : element'.type ≠ type := by rwa [htype]
          rw [find, Option.toList_some, List.singleton_append, List.find?_cons_of_neg (by simpa using hne')]
          rfl
      rw [hskip]
      exact ih hrest hnodup' h

end Slots

section RoundTrip

variable {selectors : Selectors}

/-- What the decoder makes of the encoding: a negative number of components, which means
none, is not encoded, and the locator keeps its element. -/
def decodedSelectors (selectors : Selectors) (keyLocator : Option Block) : Selectors :=
  { selectors with
    m_minSuffixComponents := max (-1) selectors.m_minSuffixComponents
    m_maxSuffixComponents := max (-1) selectors.m_maxSuffixComponents
    m_publisherPublicKeyLocator := ⟨selectors.m_publisherPublicKeyLocator.locator, keyLocator⟩ }

theorem encodeUnless_ok {absent : Prop} [Decidable absent] {encode : Except Exception Block} {block : Option Block}
    (h : encodeUnless absent encode = .ok block) :
    (absent ∧ block = none) ∨ (¬ absent ∧ ∃ wire, encode = .ok wire ∧ block = some wire) := by
  unfold encodeUnless at h
  split at h
  · rename_i habsent
    cases h
    exact Or.inl ⟨habsent, rfl⟩
  · rename_i hpresent
    obtain ⟨wire, hencode, h⟩ := ok_of_bind h
    cases h
    exact Or.inr ⟨hpresent, wire, hencode, rfl⟩

theorem encodeUnless_some {absent : Prop} [Decidable absent] {encode : Except Exception Block} {wire : Block}
    (h : encodeUnless absent encode = .ok (some wire)) : encode = .ok wire := by
  rcases encodeUnless_ok h with ⟨-, heq⟩ | ⟨-, wire', hencode, heq⟩
  · cases heq
  · rw [hencode, Option.some.inj heq]

theorem encodeUnless_none {absent : Prop} [Decidable absent] {encode : Except Exception Block}
    (h : encodeUnless absent encode = .ok none) : absent := by
  rcases encodeUnless_ok h with ⟨habsent, -⟩ | ⟨-, wire, -, heq⟩
  · exact habsent
  · cases heq

theorem encodeUnless_exists {absent : Prop} [Decidable absent] {encode : Except Exception Block}
    (hencode : ¬ absent → ∃ wire, encode = .ok wire) : ∃ block, encodeUnless absent encode = .ok block := by
  by_cases habsent : absent
  · exact ⟨none, if_pos habsent⟩
  · obtain ⟨wire, hwire⟩ := hencode habsent
    refine ⟨some wire, ?_⟩
    rw [encodeUnless, if_neg habsent, hwire]
    rfl

theorem Exclude.wireEncode_type {exclude : Exclude} {wire : Block} (h : Exclude.wireEncode exclude = .ok wire) :
    wire.type = 16 := by
  unfold Exclude.wireEncode at h
  split at h
  · cases h
  · cases h
    rfl

theorem encodeKeyLocator_type {keyLocator : KeyLocator} {wire : Block} (h : encodeKeyLocator keyLocator = .ok wire) :
    wire.type = 28 := by
  cases keyLocator <;> cases h <;> rfl

theorem slotted_slots {keyLocator exclude : Option Block}
    (hkeyLocator : ∀ element, keyLocator = some element → element.type = 28)
    (hexclude : ∀ element, exclude = some element → element.type = 16) :
    Slotted (Selectors.slots selectors keyLocator exclude) := by
  have hif : ∀ (c : Prop) [Decidable c] (block : Block) (element : Block),
      (if c then some block else none) = some element → element.type = block.type := by
    intro c _ block element h
    split at h
    · rw [← Option.some.inj h]
    · cases h
  intro slot hslot element helement
  simp only [Selectors.slots, List.mem_cons, List.not_mem_nil, or_false] at hslot
  rcases hslot with rfl | rfl | rfl | rfl | rfl | rfl
  · exact hif _ _ element helement
  · exact hif _ _ element helement
  · exact hkeyLocator element helement
  · exact hexclude element helement
  · exact hif _ _ element helement
  · exact hif _ _ element helement

theorem decodeField_slot {α : Type} {slots : List (ℕ × Option Block)} (hslotted : Slotted slots)
    (hnodup : (slots.map Prod.fst).Nodup) {type : ℕ} {element : Option Block} (h : (type, element) ∈ slots)
    {absent a : α} {decode : Block → Except Exception α} (hnone : element = none → a = absent)
    (hsome : ∀ block, element = some block → decode block = .ok a) :
    decodeField type (elementsOf slots) absent decode = .ok a := by
  rw [decodeField, find_elementsOf hslotted hnodup h]
  cases element with
  | none => rw [hnone rfl]
  | some block => exact hsome block rfl

theorem decodeInt_encode {number : ℤ} (hnonneg : 0 ≤ number) (hle : number ≤ 2147483647) (type : ℕ) :
    decodeInt (makeNonNegativeIntegerBlock type number.toNat) = .ok number := by
  rw [decodeInt, readNonNegativeIntegerAs_encode (by omega) (by omega)]
  simp only [bind, Except.bind, Int.toNat_of_nonneg hnonneg]

theorem decodeInt_slot {slots : List (ℕ × Option Block)} (hslotted : Slotted slots)
    (hnodup : (slots.map Prod.fst).Nodup) {type : ℕ} {number : ℤ} (hle : number ≤ 2147483647)
    (h : (type, if number ≥ 0 then some (makeNonNegativeIntegerBlock type number.toNat) else none) ∈ slots) :
    decodeField type (elementsOf slots) (-1) decodeInt = .ok (max (-1) number) := by
  refine decodeField_slot hslotted hnodup h (fun hnone => ?_) fun block hsome => ?_
  · split at hnone
    · cases hnone
    · omega
  · split at hsome
    · rename_i hnonneg
      obtain rfl := Option.some.inj hsome
      rw [decodeInt_encode hnonneg hle]
      congr 1
      omega
    · cases hsome

theorem decodeBool_slot {slots : List (ℕ × Option Block)} (hslotted : Slotted slots)
    (hnodup : (slots.map Prod.fst).Nodup) {type : ℕ} {number : ℤ} (hbool : number = 0 ∨ number = 1)
    (h : (type, if number ≠ 0 then some (makeNonNegativeIntegerBlock type number.toNat) else none) ∈ slots) :
    decodeField type (elementsOf slots) 0 decodeBool = .ok number := by
  refine decodeField_slot hslotted hnodup h (fun hnone => ?_) fun block hsome => ?_
  · split at hnone
    · cases hnone
    · rename_i hzero
      exact not_not.mp hzero
  · split at hsome
    · rename_i hone
      obtain rfl := hbool.resolve_left hone
      obtain rfl := Option.some.inj hsome
      rfl
    · cases hsome

theorem wireDecode_publisherKeyLocator {locator : KeyLocator} {block : Block}
    (hwf : locator ≠ .Unknown → KeyLocator.WellFormed locator) (h : encodeKeyLocator locator = .ok block)
    (hlength : block.value.length < 18446744073709551616) :
    PublisherKeyLocator.wireDecode block = .ok ⟨locator, some block⟩ := by
  have hknown : locator ≠ .Unknown := by
    rintro rfl
    cases h
  obtain ⟨htype, hdecode⟩ := wireDecode_encodeKeyLocator (hwf hknown) h hlength
  rw [PublisherKeyLocator.wireDecode, if_neg (not_not.mpr htype), hdecode]
  rfl

theorem slots_nodup (keyLocator exclude : Option Block) :
    ((Selectors.slots selectors keyLocator exclude).map Prod.fst).Nodup := by
  change [13, 14, 28, 16, 17, 18].Nodup
  decide

theorem slots_types {keyLocator exclude : Option Block} (hslotted : Slotted (Selectors.slots selectors keyLocator exclude)) :
    ∀ element ∈ elementsOf (Selectors.slots selectors keyLocator exclude), element.type ≤ 4294967295 := by
  intro element helement
  obtain ⟨slot, hslot, hsome⟩ := mem_elementsOf.mp helement
  have htype : slot.1 ∈ [13, 14, 28, 16, 17, 18] := List.mem_map_of_mem hslot
  have hbound : ∀ type ∈ [13, 14, 28, 16, 17, 18], type ≤ 4294967295 := by decide
  rw [hslotted slot hslot element hsome]
  exact hbound slot.1 htype

theorem wireDecode_wireEncode (hwf : Selectors.WellFormed selectors) (hv02 : OnlyV02 selectors.m_exclude)
    {wire : Block} (h : Selectors.wireEncode selectors = .ok wire)
    (hlength : wire.value.length < 18446744073709551616) :
    ∃ keyLocator, Selectors.wireDecode wire = .ok (decodedSelectors selectors keyLocator) := by
  obtain ⟨exclude, hexclude, h⟩ := ok_of_bind h
  obtain ⟨keyLocator, hkeyLocator, h⟩ := ok_of_bind h
  cases h
  have hexcludeType : ∀ element, exclude = some element → element.type = 16 := by
    rintro element rfl
    exact Exclude.wireEncode_type (encodeUnless_some hexclude)
  have hlocatorType : ∀ element, keyLocator = some element → element.type = 28 := by
    rintro element rfl
    exact encodeKeyLocator_type (encodeUnless_some hkeyLocator)
  have hslotted : Slotted (Selectors.slots selectors keyLocator exclude) := slotted_slots hlocatorType hexcludeType
  have hnodup : ((Selectors.slots selectors keyLocator exclude).map Prod.fst).Nodup := slots_nodup keyLocator exclude
  have htypes := slots_types hslotted
  have hlengths : ∀ slot ∈ Selectors.slots selectors keyLocator exclude, ∀ element, slot.2 = some element →
      element.value.length < 18446744073709551616 := fun slot hslot element hsome =>
    (length_le_makeBlock 9 (mem_elementsOf.mpr ⟨slot, hslot, hsome⟩)).trans_lt hlength
  have hmin : decodeField 13 (elementsOf (Selectors.slots selectors keyLocator exclude)) (-1) decodeInt =
      .ok (max (-1) selectors.m_minSuffixComponents) :=
    decodeInt_slot hslotted hnodup hwf.min_le (by simp [Selectors.slots])
  have hmax : decodeField 14 (elementsOf (Selectors.slots selectors keyLocator exclude)) (-1) decodeInt =
      .ok (max (-1) selectors.m_maxSuffixComponents) :=
    decodeInt_slot hslotted hnodup hwf.max_le (by simp [Selectors.slots])
  have hlocatorSlot : (28, keyLocator) ∈ Selectors.slots selectors keyLocator exclude := by simp [Selectors.slots]
  have hexcludeSlot : (16, exclude) ∈ Selectors.slots selectors keyLocator exclude := by simp [Selectors.slots]
  have hlocator : decodeField 28 (elementsOf (Selectors.slots selectors keyLocator exclude)) ⟨.None, none⟩
      PublisherKeyLocator.wireDecode = .ok ⟨selectors.m_publisherPublicKeyLocator.locator, keyLocator⟩ := by
    refine decodeField_slot hslotted hnodup hlocatorSlot ?_ ?_
    · rintro rfl
      rw [encodeUnless_none hkeyLocator]
    · rintro block rfl
      exact wireDecode_publisherKeyLocator hwf.keyLocator (encodeUnless_some hkeyLocator) (hlengths _ hlocatorSlot block rfl)
  have hexclude' : decodeField 16 (elementsOf (Selectors.slots selectors keyLocator exclude)) ⟨[]⟩ Exclude.wireDecode =
      .ok selectors.m_exclude := by
    refine decodeField_slot hslotted hnodup hexcludeSlot ?_ ?_
    · rintro rfl
      exact congrArg Exclude.mk (encodeUnless_none hexclude)
    · rintro block rfl
      exact Excludes.wireDecode_wireEncode hwf.exclude hv02 (encodeUnless_some hexclude) (hlengths _ hexcludeSlot block rfl)
  have hchild : decodeField 17 (elementsOf (Selectors.slots selectors keyLocator exclude)) 0 decodeBool =
      .ok selectors.m_childSelector :=
    decodeBool_slot hslotted hnodup hwf.childSelector (by simp [Selectors.slots])
  have hfresh : (find (elementsOf (Selectors.slots selectors keyLocator exclude)) 18).isSome = selectors.m_mustBeFresh := by
    have hslot : (18, if selectors.m_mustBeFresh then some ⟨18, []⟩ else none) ∈
        Selectors.slots selectors keyLocator exclude := by simp [Selectors.slots]
    rw [find_elementsOf hslotted hnodup hslot]
    cases selectors.m_mustBeFresh <;> rfl
  have hparse : (makeBlock 9 (elementsOf (Selectors.slots selectors keyLocator exclude))).parse = _ :=
    parse_elements htypes hlength
  refine ⟨keyLocator, ?_⟩
  rw [Selectors.wireDecode, if_neg (fun h => h rfl), hparse]
  simp only [bind, Except.bind, hmin, hmax, hlocator, hexclude', hchild, hfresh]
  rfl

theorem wireEncode_ok (hknown : selectors.m_publisherPublicKeyLocator.locator ≠ .Unknown)
    (hwf : Selectors.WellFormed selectors) : ∃ wire, Selectors.wireEncode selectors = .ok wire := by
  obtain ⟨exclude, hexclude⟩ : ∃ exclude, encodeUnless (selectors.m_exclude.m_entries = [])
      (Exclude.wireEncode selectors.m_exclude) = .ok exclude := encodeUnless_exists fun hne => ⟨_, if_neg hne⟩
  obtain ⟨keyLocator, hkeyLocator⟩ : ∃ keyLocator, encodeUnless (selectors.m_publisherPublicKeyLocator.locator = .None)
      (encodeKeyLocator selectors.m_publisherPublicKeyLocator.locator) = .ok keyLocator :=
    encodeUnless_exists fun _ => encodeKeyLocator_ok (hwf.keyLocator hknown)
  refine ⟨makeBlock 9 (elementsOf (Selectors.slots selectors keyLocator exclude)), ?_⟩
  rw [Selectors.wireEncode, hexclude, hkeyLocator]
  rfl

theorem wireEncode_unknown (hunknown : selectors.m_publisherPublicKeyLocator.locator = .Unknown) :
    Selectors.wireEncode selectors = .error (.tlvError "Unsupported KeyLocator type") := by
  obtain ⟨exclude, hexclude⟩ : ∃ exclude, encodeUnless (selectors.m_exclude.m_entries = [])
      (Exclude.wireEncode selectors.m_exclude) = .ok exclude := encodeUnless_exists fun hne => ⟨_, if_neg hne⟩
  rw [Selectors.wireEncode, hexclude, hunknown]
  rfl

end RoundTrip

end LeoNdn.SelectorsCodec
