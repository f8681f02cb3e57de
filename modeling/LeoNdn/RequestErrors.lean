import LeoNdn.KiteAcknowledgment
import LeoNdn.RendezvousFilters
import LeoNdn.Loops

/-!
What the rendezvous server makes of an Interest for a KITE filter that is not a
well-formed request, and which exceptions leave its handler.
-/

namespace LeoNdn.RequestErrors

open LeoNdn.Tlv LeoNdn.NdnPacket LeoNdn.NdnEncoding LeoNdn.KiteProtocol LeoNdn.KiteAcknowledgment

/-- "throw std::invalid_argument the Interest is not a KITE request" -/
def Documented (interest : Interest) : Prop :=
  (∃ request, Request.ofInterest interest = .ok request) ∨
    ∃ what, Request.ofInterest interest = .error (.invalidArgument what)

/-- The handler returns without effect, or it answers with an acknowledgment. -/
def Handled (iso : IsoTime) (signer : Signer) (version : ℕ) (interest : Interest) : Prop :=
  processKiteRequest interest = .ok none ∨
    ∃ announcement data, processKiteRequest interest = .ok (some announcement) ∧
      makeData iso signer version interest.m_name (some announcement) = .ok data

/-- The keyword is neither missing nor the first component, and a suffix is left
between it and the last four components. -/
def HasPrefixes (name : Name) : Prop :=
  let keywordPos := name.findIdx (fun component => Component.equals component KITE_KEYWORD)
  0 < keywordPos ∧ keywordPos + 5 < name.length

def isNumber (block : Block) : Bool := block.value.length ∈ [1, 2, 4, 8]

/-- The timestamp and the nonce are numbers, and the parameters, if there are any,
have an expiration period that is a number below the limit. -/
structure CarriesNumbers (limit : ℕ) (interest : Interest) : Prop where
  timestamp : ∃ component, Name.atBack interest.m_name 4 = .ok component ∧ isNumber component = true
  nonce : ∃ component, Name.atBack interest.m_name 3 = .ok component ∧ isNumber component = true
  expiration : ∀ parameter, interest.m_parameters = some parameter →
    ∃ elements expirationBlock, parameter.parse = .ok elements ∧ find elements 109 = some expirationBlock ∧
      isNumber expirationBlock = true ∧ bigEndian expirationBlock.value < limit

section Errors

variable {e : Exception}

theorem readNonNegativeInteger_cases (block : Block) :
    (isNumber block = true ∧ readNonNegativeInteger block = .ok (bigEndian block.value)) ∨
      (isNumber block = false ∧ ∃ what, readNonNegativeInteger block = .error (.tlvError what)) := by
  unfold isNumber readNonNegativeInteger
  by_cases h : block.value.length ∈ [1, 2, 4, 8]
  · rw [if_pos h]
    exact Or.inl ⟨decide_eq_true h, rfl⟩
  · rw [if_neg h]
    exact Or.inr ⟨decide_eq_false h, _, rfl⟩

theorem toNumber_cases (component : Component) :
    (isNumber component = true ∧ Component.toNumber component = .ok (bigEndian component.value)) ∨
      (isNumber component = false ∧ ∃ what, Component.toNumber component = .error (.tlvError what)) := by
  unfold Component.toNumber
  rcases readNonNegativeInteger_cases component with ⟨hnumber, hread⟩ | ⟨hnumber, hread⟩
  · rw [if_pos (of_decide_eq_true hnumber)]
    exact Or.inl ⟨hnumber, hread⟩
  · rw [if_neg (of_decide_eq_false hnumber)]
    exact Or.inr ⟨hnumber, _, rfl⟩

end Errors

section Decoding

/-- What the constructor reads of the parameters. -/
def readExpiration (parameter : Block) : Except Exception ℕ := do
  let elements ← parameter.parse
  let expirationBlock ← get parameter elements 109
  readNonNegativeInteger expirationBlock

theorem get_cases (block : Block) (elements : List Block) (type : ℕ) :
    (∃ element, find elements type = some element ∧ get block elements type = .ok element) ∨
      (find elements type = none ∧ ∃ what, get block elements type = .error (.tlvError what)) := by
  unfold Tlv.get
  cases find elements type with
  | none => exact Or.inr ⟨rfl, _, rfl⟩
  | some element => exact Or.inl ⟨element, rfl, rfl⟩

theorem readExpiration_error {parameter : Block} {e : Exception} (h : readExpiration parameter = .error e) :
    ∃ what, e = .tlvError what := by
  rcases Loops.error_of_bind h with hparse | ⟨elements, -, h⟩
  · exact (parse_errors _).tlvError hparse
  · rcases Loops.error_of_bind h with hget | ⟨expirationBlock, -, hread⟩
    · rcases get_cases parameter elements 109 with ⟨element, -, hok⟩ | ⟨-, what, herror⟩
      · cases hok.symm.trans hget
      · exact ⟨what, Except.error.inj (hget.symm.trans herror)⟩
    · rcases readNonNegativeInteger_cases expirationBlock with ⟨-, hok⟩ | ⟨-, what, herror⟩
      · cases hok.symm.trans hread
      · exact ⟨what, Except.error.inj (hread.symm.trans herror)⟩

theorem readExpiration_ok_iff {parameter : Block} {number : ℕ} :
    readExpiration parameter = .ok number ↔
      ∃ elements expirationBlock, parameter.parse = .ok elements ∧ find elements 109 = some expirationBlock ∧
        isNumber expirationBlock = true ∧ bigEndian expirationBlock.value = number := by
  constructor
  · intro h
    obtain ⟨elements, hparse, h⟩ := Loops.ok_of_bind h
    obtain ⟨expirationBlock, hget, hread⟩ := Loops.ok_of_bind h
    rcases get_cases parameter elements 109 with ⟨element, hfind, hok⟩ | ⟨-, what, herror⟩
    · obtain rfl := Except.ok.inj (hok.symm.trans hget)
      rcases readNonNegativeInteger_cases element with ⟨hnumber, hvalue⟩ | ⟨-, what, herror⟩
      · exact ⟨elements, element, hparse, hfind, hnumber, Except.ok.inj (hvalue.symm.trans hread)⟩
      · cases herror.symm.trans hread
    · cases herror.symm.trans hget
  · rintro ⟨elements, expirationBlock, hparse, hfind, hnumber, rfl⟩
    rcases readNonNegativeInteger_cases expirationBlock with ⟨-, hvalue⟩ | ⟨hnot, -⟩
    · simp only [readExpiration, hparse, bind, Except.bind, Tlv.get, hfind, hvalue]
    · rw [hnumber] at hnot
      cases hnot

theorem extractPrefixes_cases (name : Name) :
    (HasPrefixes name ∧ ∃ prefixes, Request.extractPrefixes name = .ok prefixes) ∨
      (¬ HasPrefixes name ∧ ∃ what, Request.extractPrefixes name = .error (.invalidArgument what)) := by
  unfold HasPrefixes Request.extractPrefixes
  simp only
  generalize name.findIdx (fun component => Component.equals component KITE_KEYWORD) = keywordPos
  split
  · exact Or.inr ⟨by omega, _, rfl⟩
  · split
    · exact Or.inr ⟨by omega, _, rfl⟩
    · split
      · exact Or.inl ⟨by omega, _, rfl⟩
      · exact Or.inr ⟨by omega, _, rfl⟩

theorem atBack_ok {name : Name} {k : ℕ} (hpos : 0 < k) (hle : k ≤ name.length) :
    ∃ component, Name.atBack name k = .ok component := by
  have hlt : k - 1 < name.reverse.length := by
    rw [List.length_reverse]
    omega
  refine ⟨name.reverse[k - 1], ?_⟩
  rw [Name.atBack, List.getElem?_eq_getElem hlt]

theorem CarriesNumbers.mono {limit limit' : ℕ} {interest : Interest} (h : CarriesNumbers limit interest)
    (hle : limit ≤ limit') : CarriesNumbers limit' interest where
  timestamp := h.timestamp
  nonce := h.nonce
  expiration parameter hparameter := by
    obtain ⟨elements, expirationBlock, hparse, hfind, hblock, hlt⟩ := h.expiration parameter hparameter
    exact ⟨elements, expirationBlock, hparse, hfind, hblock, hlt.trans_le hle⟩

theorem ofInterest_eq {interest : Interest} {prefixes : Name × Name} {timestampComp nonceComp : Component}
    (hprefixes : Request.extractPrefixes interest.m_name = .ok prefixes)
    (htimestamp : Name.atBack interest.m_name 4 = .ok timestampComp)
    (hnonce : Name.atBack interest.m_name 3 = .ok nonceComp) :
    Request.ofInterest interest = (do
      let timestamp ← Component.toNumber timestampComp
      let nonce ← Component.toNumber nonceComp
      let expiration ← match interest.m_parameters with
        | none => .ok none
        | some parameter => do
          let number ← readExpiration parameter
          .ok (some (milliseconds number))
      .ok ⟨prefixes.1, prefixes.2, milliseconds timestamp, nonce, expiration⟩) := by
  simp only [Request.ofInterest, hprefixes, htimestamp, hnonce, bind, Except.bind]
  cases Component.toNumber timestampComp with
  | error e => rfl
  | ok timestamp =>
    cases Component.toNumber nonceComp with
    | error e => rfl
    | ok nonce =>
      cases interest.m_parameters with
      | none => rfl
      | some parameter =>
        simp only [readExpiration, bind, Except.bind]
        cases parameter.parse with
        | error e => rfl
        | ok elements =>
          cases hget : get parameter elements 109 with
          | error e => simp [hget]
          | ok expirationBlock => cases hread : readNonNegativeInteger expirationBlock <;> simp [hget, hread]

theorem milliseconds_nonneg_iff {number : ℕ} (h : number < 18446744073709551616) :
    0 ≤ milliseconds number ↔ number < 9223372036854775808 := by
  unfold milliseconds
  split <;> omega

theorem carriesNumbers_iff {interest : Interest} {limit : ℕ} {timestampComp nonceComp : Component}
    (htimestamp : Name.atBack interest.m_name 4 = .ok timestampComp) (htimestampNumber : isNumber timestampComp = true)
    (hnonce : Name.atBack interest.m_name 3 = .ok nonceComp) (hnonceNumber : isNumber nonceComp = true) :
    CarriesNumbers limit interest ↔ ∀ parameter, interest.m_parameters = some parameter →
      ∃ number, readExpiration parameter = .ok number ∧ number < limit := by
  constructor
  · intro hcarries parameter hparameter
    obtain ⟨elements, expirationBlock, hparse, hfind, hblock, hlt⟩ := hcarries.expiration parameter hparameter
    exact ⟨_, readExpiration_ok_iff.mpr ⟨elements, expirationBlock, hparse, hfind, hblock, rfl⟩, hlt⟩
  · intro hread
    refine ⟨⟨timestampComp, htimestamp, htimestampNumber⟩, ⟨nonceComp, hnonce, hnonceNumber⟩, ?_⟩
    intro parameter hparameter
    obtain ⟨number, hnumberRead, hlt⟩ := hread parameter hparameter
    obtain ⟨elements, expirationBlock, hparse, hfind, hblock, rfl⟩ := readExpiration_ok_iff.mp hnumberRead
    exact ⟨elements, expirationBlock, hparse, hfind, hblock, hlt⟩

theorem readExpiration_lt {parameter : Block} {number : ℕ} (hread : readExpiration parameter = .ok number) :
    number < 18446744073709551616 := by
  obtain ⟨elements, expirationBlock, -, -, hblock, rfl⟩ := readExpiration_ok_iff.mp hread
  rcases readNonNegativeInteger_cases expirationBlock with ⟨-, hok⟩ | ⟨hnot, -⟩
  · exact readNonNegativeInteger_lt hok
  · exact absurd (hblock.symm.trans hnot) (by decide)

theorem ofInterest_cases {interest : Interest} (h : HasPrefixes interest.m_name) :
    (CarriesNumbers 18446744073709551616 interest ∧ ∃ request, Request.ofInterest interest = .ok request ∧
        (CarriesNumbers 9223372036854775808 interest ↔ 0 ≤ request.m_expiration.getD 1000)) ∨
      (¬ CarriesNumbers 18446744073709551616 interest ∧
        ∃ what, Request.ofInterest interest = .error (.tlvError what)) := by
  rcases extractPrefixes_cases interest.m_name with ⟨hprefixes, prefixes, hextract⟩ | ⟨hnot, -⟩
  swap
  · exact absurd h hnot
  obtain ⟨timestampComp, htimestamp⟩ := @atBack_ok interest.m_name 4 (by decide) (by have := hprefixes.2; omega)
  obtain ⟨nonceComp, hnonce⟩ := @atBack_ok interest.m_name 3 (by decide) (by have := hprefixes.2; omega)
  rw [ofInterest_eq hextract htimestamp hnonce]
  rcases toNumber_cases timestampComp with ⟨hnumber, hvalue⟩ | ⟨hnumber, what, herror⟩
  swap
  · refine Or.inr ⟨?_, what, by rw [herror]; rfl⟩
    rintro ⟨⟨component, hcomponent, hcomponentNumber⟩, -, -⟩
    obtain rfl := Except.ok.inj (htimestamp.symm.trans hcomponent)
    exact Bool.false_ne_true (hnumber.symm.trans hcomponentNumber)
  rcases toNumber_cases nonceComp with ⟨hnumber', hvalue'⟩ | ⟨hnumber', what, herror⟩
  swap
  · refine Or.inr ⟨?_, what, by rw [hvalue, herror]; rfl⟩
    rintro ⟨-, ⟨component, hcomponent, hcomponentNumber⟩, -⟩
    obtain rfl := Except.ok.inj (hnonce.symm.trans hcomponent)
    exact Bool.false_ne_true (hnumber'.symm.trans hcomponentNumber)
  have hcarries (limit : ℕ) := @carriesNumbers_iff interest limit _ _ htimestamp hnumber hnonce hnumber'
  rw [hcarries, hcarries, hvalue, hvalue']
  cases hparameters : interest.m_parameters with
  | none =>
    have hnone : ∀ (limit : ℕ) (parameter : Block), none = some parameter →
        ∃ number, readExpiration parameter = .ok number ∧ number < limit := by
      intro limit parameter hparameter
      cases hparameter
    have hdefault : (0 : ℤ) ≤ (none : Option ℤ).getD 1000 := by decide
    exact Or.inl ⟨hnone _, _, rfl, fun _ => hdefault, fun _ => hnone _⟩
  | some parameter =>
    cases hread : readExpiration parameter with
    | error e =>
      obtain ⟨what, rfl⟩ := readExpiration_error hread
      refine Or.inr ⟨?_, what, by simp only [bind, Except.bind, hread]⟩
      intro hnumbers
      obtain ⟨number, hok, -⟩ := hnumbers parameter rfl
      cases hread.symm.trans hok
    | ok number =>
      have hlt := readExpiration_lt hread
      refine Or.inl ⟨?_, _, by simp only [bind, Except.bind, hread]; rfl, ?_⟩
      · intro other hother
        obtain rfl := Option.some.inj hother
        exact ⟨_, hread, hlt⟩
      · change _ ↔ 0 ≤ milliseconds number
        rw [milliseconds_nonneg_iff hlt]
        constructor
        · intro hnumbers
          obtain ⟨other, hok, hnumberLt⟩ := hnumbers parameter rfl
          obtain rfl := Except.ok.inj (hread.symm.trans hok)
          exact hnumberLt
        · intro hnumberLt other hother
          obtain rfl := Option.some.inj hother
          exact ⟨_, hread, hnumberLt⟩

end Decoding

section Handler

variable {interest : Interest}

theorem documented_iff : Documented interest ↔
    (HasPrefixes interest.m_name → CarriesNumbers 18446744073709551616 interest) := by
  unfold Documented
  by_cases hprefixes : HasPrefixes interest.m_name
  · rcases ofInterest_cases hprefixes with ⟨hcarries, request, hok, -⟩ | ⟨hnot, what, herror⟩
    · exact ⟨fun _ _ => hcarries, fun _ => Or.inl ⟨request, hok⟩⟩
    · constructor
      · rintro (⟨request, hok⟩ | ⟨what', hinvalid⟩)
        · cases herror.symm.trans hok
        · cases herror.symm.trans hinvalid
      · exact fun h => absurd (h hprefixes) hnot
  · rcases extractPrefixes_cases interest.m_name with ⟨h, -⟩ | ⟨-, what, hextract⟩
    · exact absurd h hprefixes
    · exact ⟨fun _ h => absurd h hprefixes, fun _ => Or.inr ⟨what, by simp only [Request.ofInterest, hextract]; rfl⟩⟩

theorem handled_iff {iso : IsoTime} {signer : Signer} {version : ℕ} (hname : Name.TypesOk interest.m_name)
    (hfits : ∀ announcement, processKiteRequest interest = .ok (some announcement) →
      Fits iso signer version interest.m_name announcement) :
    Handled iso signer version interest ↔
      (HasPrefixes interest.m_name → CarriesNumbers 9223372036854775808 interest) := by
  by_cases hprefixes : HasPrefixes interest.m_name
  · rcases ofInterest_cases hprefixes with ⟨-, request, hok, hnonneg⟩ | ⟨hnot, what, herror⟩
    · have hprocess : processKiteRequest interest = if request.m_expiration.getD 1000 < 0 then
          .error (.invalidArgument "expiration period is negative")
          else .ok (some (.made request.getProducerPrefix (request.m_expiration.getD 1000) none)) := by
        simp only [processKiteRequest, hok]
      by_cases hneg : request.m_expiration.getD 1000 < 0
      · rw [if_pos hneg] at hprocess
        constructor
        · rintro (hnone | ⟨announcement, data, hsome, -⟩)
          · cases hprocess.symm.trans hnone
          · cases hprocess.symm.trans hsome
        · intro hcarries
          have := hnonneg.mp (hcarries hprefixes)
          omega
      · rw [if_neg hneg] at hprocess
        obtain ⟨data, -, hmake, -⟩ := makeData_ok hname (made_valid hname hok (by omega)) trivial (hfits _ hprocess)
        exact ⟨fun _ _ => hnonneg.mpr (by omega), fun _ => Or.inr ⟨_, data, hprocess, hmake⟩⟩
    · have hprocess : processKiteRequest interest = .error (.tlvError what) := by
        simp only [processKiteRequest, herror]
      constructor
      · rintro (hnone | ⟨announcement, data, hsome, -⟩)
        · cases hprocess.symm.trans hnone
        · cases hprocess.symm.trans hsome
      · exact fun h => absurd ((h hprefixes).mono (by decide)) hnot
  · rcases extractPrefixes_cases interest.m_name with ⟨h, -⟩ | ⟨-, what, hextract⟩
    · exact absurd h hprefixes
    · have hinvalid : Request.ofInterest interest = .error (.invalidArgument what) := by
        simp only [Request.ofInterest, hextract]
        rfl
      refine ⟨fun _ h => absurd h hprefixes, fun _ => Or.inl ?_⟩
      simp only [processKiteRequest, hinvalid]

/-- The constructor throws what is documented if and only if a name with both prefixes comes with the numbers, and no
exception leaves the handler if and only if the expiration period is in the range of signed milliseconds, too. -/
theorem kiteRequest_handled_iff (iso : IsoTime) (signer : Signer) (version : ℕ) (interest : Interest)
    (hname : Name.TypesOk interest.m_name)
    (hfits : ∀ announcement, processKiteRequest interest = .ok (some announcement) →
      Fits iso signer version interest.m_name announcement) :
    (Documented interest ↔ (HasPrefixes interest.m_name → CarriesNumbers 18446744073709551616 interest)) ∧
      (Handled iso signer version interest ↔
        (HasPrefixes interest.m_name → CarriesNumbers 9223372036854775808 interest)) :=
  ⟨documented_iff, handled_iff hname hfits⟩

theorem kiteRequest_handled_iff_alice :
    Documented aliceInterest ∧ Handled isoSeconds digestSha256 1 aliceInterest := by
  have hprocess : processKiteRequest aliceInterest = .ok (some (.made aliceRequest.getProducerPrefix 1000 none)) := by
    decide
  have hcarries : CarriesNumbers 9223372036854775808 aliceInterest := by
    refine ⟨⟨⟨8, [5, 220]⟩, by decide, by decide⟩, ⟨⟨8, [7]⟩, by decide, by decide⟩, fun parameter hparameter => ?_⟩
    obtain rfl : (⟨35, [109, 2, 3, 232]⟩ : Block) = parameter := Option.some.inj hparameter
    exact ⟨[⟨109, [3, 232]⟩], ⟨109, [3, 232]⟩, by decide, by decide, by decide, by decide⟩
  obtain ⟨hdocumented, hhandled⟩ := kiteRequest_handled_iff isoSeconds digestSha256 1 aliceInterest
    (by unfold Name.TypesOk; decide) (fun announcement h => by
      obtain rfl := Option.some.inj (Except.ok.inj (hprocess.symm.trans h))
      exact fits_aliceInterest)
  exact ⟨hdocumented.mpr fun _ => hcarries.mono (by decide), hhandled.mpr fun _ => hcarries⟩

def requestName (timestamp : List UInt8) : Name :=
  [⟨8, [114, 118]⟩, KITE_KEYWORD, ⟨8, [97]⟩, ⟨8, timestamp⟩, ⟨8, [7]⟩, ⟨8, [22]⟩, ⟨8, [23]⟩]

/-- A timestamp of three octets, parameters without an expiration period, and one of 2^63 ms. -/
theorem not_handled_bob :
    (∀ timestamp ∈ [[1, 2, 3], [7]], 0 < RendezvousFilters.processed [[⟨8, [114, 118]⟩]] (requestName timestamp)) ∧
      ¬ Documented ⟨requestName [1, 2, 3], false, none⟩ ∧ ¬ Documented ⟨requestName [7], false, some ⟨35, [128, 0]⟩⟩ ∧
      ¬ Handled isoSeconds digestSha256 1
        ⟨requestName [7], false, some ⟨35, [109, 8, 128, 0, 0, 0, 0, 0, 0, 0]⟩⟩ := by
  have htimestamp : Request.ofInterest ⟨requestName [1, 2, 3], false, none⟩ =
      .error (.tlvError "Name component does not have nonNegativeInteger value") := by decide
  have hmissing : Request.ofInterest ⟨requestName [7], false, some ⟨35, [128, 0]⟩⟩ =
      .error (.tlvError "No sub-element of type 109 is found in block of type 35") := by decide
  have hnegative : processKiteRequest ⟨requestName [7], false, some ⟨35, [109, 8, 128, 0, 0, 0, 0, 0, 0, 0]⟩⟩ =
      .error (.invalidArgument "expiration period is negative") := by decide
  refine ⟨by decide, ?_, ?_, ?_⟩
  · rintro (⟨request, h⟩ | ⟨what, h⟩)
    · cases htimestamp.symm.trans h
    · cases htimestamp.symm.trans h
  · rintro (⟨request, h⟩ | ⟨what, h⟩)
    · cases hmissing.symm.trans h
    · cases hmissing.symm.trans h
  · rintro (h | ⟨announcement, data, h, -⟩)
    · cases hnegative.symm.trans h
    · cases hnegative.symm.trans h

end Handler

end LeoNdn.RequestErrors
