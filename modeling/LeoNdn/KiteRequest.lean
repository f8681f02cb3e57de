import LeoNdn.KiteProtocol
import LeoNdn.NdnEncoding

/-!
The Interest that a producer makes of a KITE request, and the request that is
decoded from it.
-/

namespace LeoNdn.KiteRequest

open LeoNdn.Tlv LeoNdn.TlvEncoding LeoNdn.NdnPacket LeoNdn.NdnEncoding LeoNdn.KiteProtocol

def fromNumber (number : ℕ) : Component := makeNonNegativeIntegerBlock 8 number

def setParameters (interest : Interest) (parameters : Block) : Interest :=
  { interest with m_parameters := some (if parameters.type = 35 then parameters else makeBlock 35 [parameters]) }

/-- The timestamp of `CommandInterestPreparer`, which is later than the last one. -/
def nextTimestamp (m_lastUsedTimestamp now : ℤ) : ℤ :=
  if now ≤ m_lastUsedTimestamp then m_lastUsedTimestamp + 1 else now

def prepareCommandInterestName (timestamp : ℤ) (nonce : ℕ) (name : Name) : Name :=
  name ++ [fromNumber (count timestamp), fromNumber nonce]

/-- `KeyChain::sign`, with what makes the two components of the signature. -/
def sign (signer : Name → Component × Component) (interest : Interest) : Interest :=
  let (signatureInfo, signatureValue) := signer interest.m_name
  { interest with m_name := interest.m_name ++ [signatureInfo, signatureValue] }

def setExpiration (request : Request) (expiration : ℤ) : Except Exception Request :=
  if expiration < 0 then .error (.invalidArgument "expiration period is negative")
  else .ok { request with m_expiration := some expiration }

/-- The preparer is a new one, so that its last timestamp is zero. -/
def makeInterest (request : Request) (now : ℤ) (nonce : ℕ) (signer : Name → Component × Component) : Interest :=
  let interest : Interest := ⟨request.m_rvPrefix ++ [KITE_KEYWORD] ++ request.m_producerSuffix, false, none⟩
  let interest :=
    match request.m_expiration with
    | none => interest
    | some expiration => setParameters interest (makeNonNegativeIntegerBlock 109 (count expiration))
  sign signer { interest with m_name := prepareCommandInterestName (nextTimestamp 0 now) nonce interest.m_name }

section Numbers

theorem toNumber_fromNumber {number : ℕ} (h : number < 18446744073709551616) :
    Component.toNumber (fromNumber number) = .ok number := by
  have hread : readNonNegativeInteger (fromNumber number) = .ok number := readNonNegativeInteger_encode h 8
  have hlength : (fromNumber number).value.length ∈ [1, 2, 4, 8] := by
    by_contra hlength
    rw [readNonNegativeInteger, if_neg hlength] at hread
    cases hread
  rw [Component.toNumber, if_pos hlength]
  exact hread

theorem nextTimestamp_bounds {now : ℤ} (hnow : now < 9223372036854775808) :
    0 ≤ nextTimestamp 0 now ∧ nextTimestamp 0 now < 9223372036854775808 := by
  unfold nextTimestamp
  split <;> omega

end Numbers

section RoundTrip

variable {rvPrefix producerSuffix : Name}

theorem findIdx_keyword (hkeyword : ∀ component ∈ rvPrefix, Component.equals component KITE_KEYWORD = false)
    (rest : Name) :
    (rvPrefix ++ KITE_KEYWORD :: rest).findIdx (fun component => Component.equals component KITE_KEYWORD) =
      rvPrefix.length := by
  have hself : Component.equals KITE_KEYWORD KITE_KEYWORD = true := by decide
  induction rvPrefix with
  | nil => rw [List.nil_append, List.findIdx_cons, hself]; rfl
  | cons component rvPrefix ih =>
    rw [List.cons_append, List.findIdx_cons, hkeyword component List.mem_cons_self,
      ih fun component' hmem => hkeyword component' (List.mem_cons_of_mem _ hmem)]
    rfl

theorem extractPrefixes_eq (hrv : rvPrefix ≠ [])
    (hkeyword : ∀ component ∈ rvPrefix, Component.equals component KITE_KEYWORD = false)
    (hsuffix : producerSuffix ≠ []) (timestamp nonce signatureInfo signatureValue : Component) :
    Request.extractPrefixes
        (rvPrefix ++ KITE_KEYWORD :: (producerSuffix ++ [timestamp, nonce, signatureInfo, signatureValue])) =
      .ok (rvPrefix, producerSuffix) := by
  have hrv' := List.length_pos_iff.mpr hrv
  have hsuffix' := List.length_pos_iff.mpr hsuffix
  have hlength : ((rvPrefix ++ KITE_KEYWORD :: (producerSuffix ++ [timestamp, nonce, signatureInfo, signatureValue])).length
      : ℤ) - rvPrefix.length - 1 - 4 = producerSuffix.length := by
    simp only [List.length_append, List.length_cons, List.length_nil]
    omega
  simp only [Request.extractPrefixes, findIdx_keyword hkeyword, hlength]
  rw [if_neg (by omega), if_neg (by simp), if_pos (by omega), List.take_left' rfl, ← List.drop_drop,
    List.drop_left' rfl, Int.toNat_natCast, List.drop_succ_cons, List.drop_zero, List.take_left' rfl]

theorem atBack_append (name : Name) (timestamp nonce signatureInfo signatureValue : Component) :
    Name.atBack (name ++ [timestamp, nonce, signatureInfo, signatureValue]) 4 = .ok timestamp ∧
      Name.atBack (name ++ [timestamp, nonce, signatureInfo, signatureValue]) 3 = .ok nonce := by
  simp [Name.atBack]

theorem parse_parameters (expiration : ℕ) :
    (makeBlock 35 [makeNonNegativeIntegerBlock 109 expiration]).parse =
      .ok [makeNonNegativeIntegerBlock 109 expiration] := by
  refine parse_makeBlock 35 fun element helement => ?_
  rw [List.mem_singleton.mp helement]
  exact encodable_number (by decide)

theorem makeInterest_name (request : Request) (now : ℤ) (nonce : ℕ) (signer : Name → Component × Component) :
    ∃ signatureInfo signatureValue, (makeInterest request now nonce signer).m_name =
      request.m_rvPrefix ++ KITE_KEYWORD :: (request.m_producerSuffix ++
        [fromNumber (count (nextTimestamp 0 now)), fromNumber nonce, signatureInfo, signatureValue]) := by
  have hname : ∀ interest : Interest, ∃ signatureInfo signatureValue, (sign signer
      { interest with m_name := prepareCommandInterestName (nextTimestamp 0 now) nonce interest.m_name }).m_name =
        interest.m_name ++
          [fromNumber (count (nextTimestamp 0 now)), fromNumber nonce, signatureInfo, signatureValue] := by
    intro interest
    refine ⟨(signer (prepareCommandInterestName (nextTimestamp 0 now) nonce interest.m_name)).1,
      (signer (prepareCommandInterestName (nextTimestamp 0 now) nonce interest.m_name)).2, ?_⟩
    simp only [sign, prepareCommandInterestName, List.append_assoc, List.cons_append, List.nil_append]
  unfold makeInterest
  cases request.m_expiration with
  | none =>
    obtain ⟨signatureInfo, signatureValue, h⟩ :=
      hname ⟨request.m_rvPrefix ++ [KITE_KEYWORD] ++ request.m_producerSuffix, false, none⟩
    refine ⟨signatureInfo, signatureValue, h.trans ?_⟩
    simp only [List.append_assoc, List.cons_append, List.nil_append]
  | some expiration =>
    obtain ⟨signatureInfo, signatureValue, h⟩ :=
      hname (setParameters ⟨request.m_rvPrefix ++ [KITE_KEYWORD] ++ request.m_producerSuffix, false, none⟩
        (makeNonNegativeIntegerBlock 109 (count expiration)))
    refine ⟨signatureInfo, signatureValue, h.trans ?_⟩
    simp only [setParameters, List.append_assoc, List.cons_append, List.nil_append]

theorem makeInterest_parameters (request : Request) (now : ℤ) (nonce : ℕ) (signer : Name → Component × Component) :
    (makeInterest request now nonce signer).m_parameters =
      request.m_expiration.map (fun expiration => makeBlock 35 [makeNonNegativeIntegerBlock 109 (count expiration)]) := by
  unfold makeInterest
  cases request.m_expiration <;> rfl

theorem ofInterest_makeInterest (request : Request) (now : ℤ) (nonce : ℕ) (signer : Name → Component × Component)
    (hrv : request.m_rvPrefix ≠ [])
    (hkeyword : ∀ component ∈ request.m_rvPrefix, Component.equals component KITE_KEYWORD = false)
    (hsuffix : request.m_producerSuffix ≠ [])
    (hexpiration : ∀ expiration, request.m_expiration = some expiration →
      0 ≤ expiration ∧ expiration < 9223372036854775808)
    (hnow : now < 9223372036854775808) (hnonce : nonce < 18446744073709551616) :
    Request.ofInterest (makeInterest request now nonce signer) =
      .ok { request with m_timestamp := nextTimestamp 0 now, m_nonce := nonce } := by
  obtain ⟨signatureInfo, signatureValue, hname⟩ := makeInterest_name request now nonce signer
  obtain ⟨htimestamp, hnonce'⟩ := atBack_append (request.m_rvPrefix ++ KITE_KEYWORD :: request.m_producerSuffix)
    (fromNumber (count (nextTimestamp 0 now))) (fromNumber nonce) signatureInfo signatureValue
  rw [List.append_assoc, List.cons_append] at htimestamp hnonce'
  obtain ⟨hle, hlt⟩ := nextTimestamp_bounds hnow
  rw [Request.ofInterest, hname, extractPrefixes_eq hrv hkeyword hsuffix, htimestamp, hnonce',
    makeInterest_parameters]
  simp only [bind, Except.bind]
  rw [toNumber_fromNumber (count_lt _), toNumber_fromNumber hnonce]
  simp only [milliseconds_count hle hlt]
  cases hcase : request.m_expiration with
  | none => simp only [Option.map_none]
  | some expiration =>
    obtain ⟨hle', hlt'⟩ := hexpiration expiration hcase
    have hget : Tlv.get (makeBlock 35 [makeNonNegativeIntegerBlock 109 (count expiration)])
        [makeNonNegativeIntegerBlock 109 (count expiration)] 109 =
          .ok (makeNonNegativeIntegerBlock 109 (count expiration)) := rfl
    simp only [Option.map_some, parse_parameters, hget, readNonNegativeInteger_encode (count_lt expiration) 109,
      milliseconds_count hle' hlt']

/-- A suffix that contains the keyword. -/
theorem ofInterest_makeInterest_alice :
    Request.ofInterest (makeInterest ⟨[⟨8, [114, 118]⟩], [⟨8, [97]⟩, KITE_KEYWORD], 0, 0, some 1000⟩ 1500 7
        (fun _ => (⟨22, []⟩, ⟨23, []⟩))) =
      .ok ⟨[⟨8, [114, 118]⟩], [⟨8, [97]⟩, KITE_KEYWORD], 1500, 7, some 1000⟩ :=
  ofInterest_makeInterest ⟨[⟨8, [114, 118]⟩], [⟨8, [97]⟩, KITE_KEYWORD], 0, 0, some 1000⟩ 1500 7
    (fun _ => (⟨22, []⟩, ⟨23, []⟩)) (List.cons_ne_nil _ _) (by decide) (List.cons_ne_nil _ _)
    (fun expiration h => by obtain rfl := Option.some.inj h; decide) (by decide) (by decide)

end RoundTrip

end LeoNdn.KiteRequest
