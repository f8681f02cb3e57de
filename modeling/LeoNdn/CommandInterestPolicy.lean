import LeoNdn.KiteRequest
import LeoNdn.Loops
import Mathlib.Data.List.Chain

/-!
The policy that a validator has for command Interests, and the timestamps of
the requests that one producer makes.
-/

namespace LeoNdn.CommandInterestPolicy

open LeoNdn.Tlv LeoNdn.TlvEncoding LeoNdn.NdnPacket LeoNdn.NdnEncoding LeoNdn.KiteProtocol LeoNdn.KiteRequest

section Policy

inductive Code
  | INVALID_KEY_LOCATOR
  | POLICY_ERROR
  deriving DecidableEq, Repr

structure ValidationError where
  code : Code
  info : String
  deriving DecidableEq, Repr

/-- Durations in nanoseconds. -/
structure Options where
  gracePeriod : ℤ := 120000000000
  maxRecords : ℤ := 1000
  recordLifetime : ℤ := 3600000000000

structure LastTimestampRecord where
  keyName : Name
  timestamp : ℕ
  lastRefreshed : ℤ
  deriving DecidableEq, Repr

/-- `afterSuccess` has the handlers of the validations that go on. -/
structure Policy where
  m_queue : List LastTimestampRecord
  afterSuccess : List (Name × ℕ)

/-- `/localhost/identity/digest-sha256`. -/
def digestSha256Identity : Name :=
  [⟨8, [108, 111, 99, 97, 108, 104, 111, 115, 116]⟩, ⟨8, [105, 100, 101, 110, 116, 105, 116, 121]⟩,
    ⟨8, [100, 105, 103, 101, 115, 116, 45, 115, 104, 97, 50, 53, 54]⟩]

variable (toUri : Name → String)

def Exception.what : Exception → String
  | .tlvError what | .invalidArgument what | .badCast what | .outOfRange what => what

def decodeSignatureInfo (component : Component) : Except Exception SignatureInfo := do
  let wire ← component.blockFromValue
  let _ ← wire.parse
  if wire.type ≠ 22 then
    .error (.tlvError ("Decoding SignatureInfo, but TLV-TYPE is " ++ toString wire.type))
  else SignatureInfo.wireDecode wire

def keyLocatorNameOf (si : SignatureInfo) : Except ValidationError Name :=
  if si.m_type = 0 then .ok digestSha256Identity
  else
    match si.m_keyLocator with
    | none => .error ⟨.INVALID_KEY_LOCATOR, "KeyLocator is missing"⟩
    | some (.Name name) => .ok name
    | some _ => .error ⟨.INVALID_KEY_LOCATOR, "KeyLocator type is not Name"⟩

def getKeyLocatorName (interest : Interest) : Except ValidationError Name :=
  match Name.atBack interest.m_name 2 with
  | .error _ => .error ⟨.INVALID_KEY_LOCATOR, "Invalid signed Interest: name too short"⟩
  | .ok component =>
    match decodeSignatureInfo component with
    | .error e => .error ⟨.INVALID_KEY_LOCATOR, "Invalid signed Interest: " ++ Exception.what e⟩
    | .ok si => keyLocatorNameOf si

def parseCommandInterest (interest : Interest) : Except ValidationError (Name × ℕ) :=
  match Name.atBack interest.m_name 4 with
  | .error _ => .error ⟨.POLICY_ERROR, "Command interest `" ++ toUri interest.m_name ++ "` is too short"⟩
  | .ok timestampComp =>
    match Component.toNumber timestampComp with
    | .error _ =>
      .error ⟨.POLICY_ERROR, "Command interest `" ++ toUri interest.m_name ++ "` doesn't include timestamp component"⟩
    | .ok timestamp =>
      match getKeyLocatorName interest with
      | .error e => .error e
      | .ok keyName => .ok (keyName, timestamp)

def cleanup (options : Options) (steadyNow : ℤ) : List LastTimestampRecord → List LastTimestampRecord
  | [] => []
  | record :: m_queue =>
    if record.lastRefreshed ≤ steadyNow - options.recordLifetime ∨
        (0 ≤ options.maxRecords ∧ options.maxRecords < m_queue.length + 1) then cleanup options steadyNow m_queue
    else record :: m_queue

/-- Nanoseconds of 64 bits. -/
def fromUnixTimestamp (duration : ℤ) : ℤ := (duration * 1000000).bmod 18446744073709551616

def outsideGracePeriod (options : Options) (timestamp : ℕ) (now : ℤ) : Bool :=
  let timestampPoint := fromUnixTimestamp (milliseconds timestamp)
  timestampPoint < now - max options.gracePeriod 0 || timestampPoint > now + max options.gracePeriod 0

def findRecord (m_queue : List LastTimestampRecord) (keyName : Name) : Option LastTimestampRecord :=
  m_queue.find? (fun record => Name.equals record.keyName keyName)

def reordered (keyName : Name) : ValidationError :=
  ⟨.POLICY_ERROR, "Timestamp is reordered for key " ++ toUri keyName⟩

def checkTimestamp (options : Options) (policy : Policy) (keyName : Name) (timestamp : ℕ) (now steadyNow : ℤ) :
    Policy × Except ValidationError Unit :=
  let policy := { policy with m_queue := cleanup options steadyNow policy.m_queue }
  if outsideGracePeriod options timestamp now then
    (policy, .error ⟨.POLICY_ERROR, "Timestamp is outside the grace period for key " ++ toUri keyName⟩)
  else if (findRecord policy.m_queue keyName).any (fun record => timestamp ≤ record.timestamp) then
    (policy, .error (reordered toUri keyName))
  else ({ policy with afterSuccess := policy.afterSuccess ++ [(keyName, timestamp)] }, .ok ())

/-- Up to the inner policy. -/
def checkPolicy (options : Options) (policy : Policy) (interest : Interest) (now steadyNow : ℤ) :
    Policy × Except ValidationError Unit :=
  match parseCommandInterest toUri interest with
  | .error e => (policy, .error e)
  | .ok (keyName, timestamp) => checkTimestamp toUri options policy keyName timestamp now steadyNow

/-- A record of the key moves to the tail of the queue. -/
def insertNewRecord (m_queue : List LastTimestampRecord) (keyName : Name) (timestamp : ℕ) (now : ℤ) :
    List LastTimestampRecord :=
  m_queue.eraseP (fun record => Name.equals record.keyName keyName) ++ [⟨keyName, timestamp, now⟩]

inductive Event
  | check (interest : Interest) (now steadyNow : ℤ)
  | success (validation : ℕ) (steadyNow : ℤ)

def Policy.succeed (policy : Policy) (validation : ℕ) (steadyNow : ℤ) : Policy :=
  match policy.afterSuccess[validation]? with
  | none => policy
  | some (keyName, timestamp) =>
    ⟨insertNewRecord policy.m_queue keyName timestamp steadyNow, policy.afterSuccess.eraseIdx validation⟩

def outcomes (options : Options) : Policy → List Event → List (Interest × Except ValidationError Unit)
  | _, [] => []
  | policy, .check interest now steadyNow :: events =>
    let (policy, outcome) := checkPolicy toUri options policy interest now steadyNow
    (interest, outcome) :: outcomes options policy events
  | policy, .success validation steadyNow :: events => outcomes options (policy.succeed validation steadyNow) events

end Policy

section Requests

/-- A call of `makeInterest`, with the system clock in nanoseconds of 64 bits. -/
structure Making where
  request : Request
  now : ℤ
  nonce : ℕ
  now_lt : now < 9223372036854775808

def toUnixTimestamp (point : ℤ) : ℤ := point.tdiv 1000000

def Making.interest (signer : Name → Component × Component) (making : Making) : Interest :=
  makeInterest making.request (toUnixTimestamp making.now) making.nonce signer

def SignsUnder (signer : Name → Component × Component) (keyName : Name) : Prop :=
  ∀ name, ∃ si, decodeSignatureInfo (signer name).1 = .ok si ∧ keyLocatorNameOf si = .ok keyName

def timestampOf (interest : Interest) : Except Exception ℕ := do
  let timestamp ← Name.atBack interest.m_name 4
  Component.toNumber timestamp

def StrictlyIncreasing (interests : List Interest) : Prop :=
  ∃ timestamps : List ℕ, interests.map timestampOf = timestamps.map Except.ok ∧ timestamps.Pairwise (· < ·)

def signedUnder (keyName : Name) (interest : Interest) : Bool :=
  match getKeyLocatorName interest with
  | .error _ => false
  | .ok name => Name.equals name keyName

/-- The Interests that are signed under the key, in the order in which they are
checked, with the system clock at each check. -/
def received (keyName : Name) (events : List Event) : List (Interest × ℤ) :=
  events.filterMap fun
    | .check interest now _ => if signedUnder keyName interest then some (interest, now) else none
    | .success _ _ => none

def WithinGracePeriod (options : Options) (check : Interest × ℤ) : Prop :=
  ∃ timestamp, timestampOf check.1 = .ok timestamp ∧ outsideGracePeriod options timestamp check.2 = false

/-- Whatever else the policy checks, and whenever the validations succeed. -/
def NoneReordered (toUri : Name → String) (options : Options) (keyName : Name) (interests : List Interest) : Prop :=
  ∀ events, (received keyName events).map Prod.fst = interests →
    (∀ check ∈ received keyName events, WithinGracePeriod options check) →
    ∀ output ∈ outcomes toUri options ⟨[], []⟩ events, signedUnder keyName output.1 = true →
      ∀ keyName', output.2 ≠ .error (reordered toUri keyName')

/-- The milliseconds of the clock, and at least one. -/
def Making.milliseconds (making : Making) : ℤ := max 1 (toUnixTimestamp making.now)

end Requests

section Names

/-- What `Component::equals` compares. -/
def compared (component : Component) : ℕ × ℕ × List UInt8 :=
  (component.type, component.value.length, if component.type = 4294967295 then [] else component.value)

theorem equals_iff_compared {component other : Component} :
    Component.equals component other = true ↔ compared component = compared other := by
  simp only [Component.equals, compared, Bool.and_eq_true, Bool.or_eq_true, decide_eq_true_eq, Prod.mk.injEq, and_assoc]
  constructor
  · rintro ⟨htype, hlength, hvalue⟩
    refine ⟨htype, hlength, ?_⟩
    rcases hvalue with hempty | hvalue
    · rw [if_pos hempty, if_pos (htype ▸ hempty)]
    · rw [hvalue, htype]
  · rintro ⟨htype, hlength, hvalue⟩
    refine ⟨htype, hlength, ?_⟩
    by_cases hempty : component.type = 4294967295
    · exact Or.inl hempty
    · rw [if_neg hempty, if_neg (htype ▸ hempty)] at hvalue
      exact Or.inr hvalue

theorem name_equals_iff {name other : Name} :
    Name.equals name other = true ↔ name.map compared = other.map compared := by
  induction name generalizing other with
  | nil => cases other <;> simp [Name.equals]
  | cons component name ih =>
    cases other with
    | nil => simp [Name.equals]
    | cons component' other =>
      have hcons : Name.equals (component :: name) (component' :: other) = true ↔
          Component.equals component component' = true ∧ Name.equals name other = true := by
        simp only [Name.equals, List.length_cons, Nat.add_right_cancel_iff, List.zip_cons_cons, List.all_cons,
          Bool.and_eq_true, decide_eq_true_eq]
        exact and_left_comm
      rw [hcons, equals_iff_compared, ih, List.map_cons, List.map_cons, List.cons.injEq]

end Names

section Policies

variable {toUri : Name → String} {options : Options} {keyName : Name}

theorem cleanup_sublist (steadyNow : ℤ) (m_queue : List LastTimestampRecord) :
    (cleanup options steadyNow m_queue).Sublist m_queue := by
  induction m_queue with
  | nil => exact List.Sublist.refl _
  | cons record m_queue ih =>
    rw [cleanup]
    split
    · exact ih.cons record
    · exact List.Sublist.refl _

structure Before (keyName : Name) (timestamp : ℕ) (policy : Policy) : Prop where
  record : ∀ record ∈ policy.m_queue, Name.equals record.keyName keyName = true → record.timestamp < timestamp
  handler : ∀ handler ∈ policy.afterSuccess, Name.equals handler.1 keyName = true → handler.2 < timestamp

theorem Before.mono {timestamp later : ℕ} {policy : Policy} (h : Before keyName timestamp policy)
    (hle : timestamp ≤ later) : Before keyName later policy :=
  ⟨fun record hmem hkey => (h.record record hmem hkey).trans_le hle,
    fun handler hmem hkey => (h.handler handler hmem hkey).trans_le hle⟩

theorem Before.succeed {timestamp : ℕ} {policy : Policy} (h : Before keyName timestamp policy) (validation : ℕ)
    (steadyNow : ℤ) : Before keyName timestamp (policy.succeed validation steadyNow) := by
  unfold Policy.succeed
  cases hhandler : policy.afterSuccess[validation]? with
  | none => exact h
  | some handler =>
    constructor
    · intro record hmem hkey
      rcases List.mem_append.mp hmem with hold | hnew
      · exact h.record record (List.mem_of_mem_eraseP hold) hkey
      · rw [List.mem_singleton.mp hnew] at hkey ⊢
        exact h.handler handler (List.mem_of_getElem? hhandler) hkey
    · intro other hmem hkey
      exact h.handler other (List.mem_of_mem_eraseIdx hmem) hkey

theorem Before.cleaned {timestamp : ℕ} {policy : Policy} (h : Before keyName timestamp policy) (steadyNow : ℤ) :
    Before keyName timestamp { policy with m_queue := cleanup options steadyNow policy.m_queue } :=
  ⟨fun record hmem => h.record record ((cleanup_sublist steadyNow policy.m_queue).subset hmem), h.handler⟩

theorem parseCommandInterest_ok {interest : Interest} {name : Name} {timestamp : ℕ}
    (h : parseCommandInterest toUri interest = .ok (name, timestamp)) :
    timestampOf interest = .ok timestamp ∧ getKeyLocatorName interest = .ok name := by
  unfold parseCommandInterest at h
  split at h
  · cases h
  · rename_i component hcomponent
    split at h
    · cases h
    · rename_i number hnumber
      split at h
      · cases h
      · rename_i keyName hname
        cases h
        refine ⟨?_, hname⟩
        rw [timestampOf, hcomponent]
        exact hnumber

theorem parseCommandInterest_eq {interest : Interest} {name : Name} {timestamp : ℕ}
    (htimestamp : timestampOf interest = .ok timestamp) (hname : getKeyLocatorName interest = .ok name) :
    parseCommandInterest toUri interest = .ok (name, timestamp) := by
  obtain ⟨component, hcomponent, hnumber⟩ := Loops.ok_of_bind htimestamp
  simp only [parseCommandInterest, hcomponent, hnumber, hname]

theorem signedUnder_iff {interest : Interest} :
    signedUnder keyName interest = true ↔
      ∃ name, getKeyLocatorName interest = .ok name ∧ Name.equals name keyName = true := by
  unfold signedUnder
  cases getKeyLocatorName interest <;> simp

theorem Before.checkTimestamp {bound timestamp later : ℕ} {name : Name} {policy : Policy}
    (h : Before keyName bound policy) (hle : bound ≤ later) (hlater : Name.equals name keyName = true → timestamp < later)
    (now steadyNow : ℤ) : Before keyName later (checkTimestamp toUri options policy name timestamp now steadyNow).1 := by
  have hcleaned := (@Before.cleaned options _ _ _ h steadyNow).mono hle
  unfold CommandInterestPolicy.checkTimestamp
  simp only
  split
  · exact hcleaned
  · split
    · exact hcleaned
    · refine ⟨hcleaned.record, ?_⟩
      intro handler hmem hkey
      rcases List.mem_append.mp hmem with hold | hnew
      · exact hcleaned.handler handler hold hkey
      · rw [List.mem_singleton.mp hnew] at hkey ⊢
        exact hlater hkey

theorem Before.checkPolicy {bound later : ℕ} {interest : Interest} {policy : Policy} (h : Before keyName bound policy)
    (hle : bound ≤ later)
    (hlater : ∀ timestamp, signedUnder keyName interest = true → timestampOf interest = .ok timestamp → timestamp < later)
    (now steadyNow : ℤ) : Before keyName later (checkPolicy toUri options policy interest now steadyNow).1 := by
  unfold CommandInterestPolicy.checkPolicy
  cases hparse : parseCommandInterest toUri interest with
  | error e => exact h.mono hle
  | ok parsed =>
    obtain ⟨htimestamp, hname⟩ := parseCommandInterest_ok hparse
    exact h.checkTimestamp hle
      (fun hkey => hlater parsed.2 (signedUnder_iff.mpr ⟨parsed.1, hname, hkey⟩) htimestamp) now steadyNow

theorem checkPolicy_not_reordered {timestamp : ℕ} {interest : Interest} {policy : Policy}
    (h : Before keyName timestamp policy) (hsigned : signedUnder keyName interest = true)
    (htimestamp : timestampOf interest = .ok timestamp) {now : ℤ}
    (hgrace : outsideGracePeriod options timestamp now = false) (steadyNow : ℤ) :
    (checkPolicy toUri options policy interest now steadyNow).2 = .ok () := by
  obtain ⟨name, hname, hkey⟩ := signedUnder_iff.mp hsigned
  have hfind : (findRecord (cleanup options steadyNow policy.m_queue) name).any
      (fun record => decide (timestamp ≤ record.timestamp)) = false := by
    rw [Option.any_eq_false]
    intro record hrecord
    have hfound := List.find?_some hrecord
    have hequals : Name.equals record.keyName keyName = true :=
      name_equals_iff.mpr ((name_equals_iff.mp hfound).trans (name_equals_iff.mp hkey))
    have hlt := (@Before.cleaned options _ _ _ h steadyNow).record record (List.mem_of_find?_eq_some hrecord) hequals
    simpa using hlt
  rw [CommandInterestPolicy.checkPolicy, parseCommandInterest_eq htimestamp hname]
  simp only [CommandInterestPolicy.checkTimestamp, hgrace, hfind, Bool.false_eq_true, if_false]

theorem received_check (interest : Interest) (now steadyNow : ℤ) (events : List Event) :
    received keyName (.check interest now steadyNow :: events) =
      (if signedUnder keyName interest then [(interest, now)] else []) ++ received keyName events := by
  unfold received
  rw [List.filterMap_cons]
  split <;> simp_all

theorem outcomes_ok {events : List Event} {policy : Policy} {timestamps : List ℕ} {bound : ℕ}
    (hbefore : Before keyName bound policy)
    (htimestamps : ((received keyName events).map Prod.fst).map timestampOf = timestamps.map Except.ok)
    (hincreasing : timestamps.Pairwise (· < ·)) (hbound : ∀ timestamp ∈ timestamps, bound ≤ timestamp)
    (hgrace : ∀ check ∈ received keyName events, WithinGracePeriod options check) :
    ∀ output ∈ outcomes toUri options policy events, signedUnder keyName output.1 = true → output.2 = .ok () := by
  induction events generalizing policy timestamps bound with
  | nil => exact fun output houtput => absurd houtput List.not_mem_nil
  | cons event events ih =>
    cases event with
    | success validation steadyNow => exact ih (hbefore.succeed validation steadyNow) htimestamps hincreasing hbound hgrace
    | check interest now steadyNow =>
      rw [received_check] at htimestamps hgrace
      by_cases hsigned : signedUnder keyName interest = true
      · rw [if_pos hsigned] at htimestamps hgrace
        cases timestamps with
        | nil => simp at htimestamps
        | cons timestamp timestamps =>
          simp only [List.cons_append, List.nil_append, List.map_cons, List.cons.injEq] at htimestamps
          obtain ⟨hfirst, hrest⟩ := htimestamps
          rw [List.pairwise_cons] at hincreasing
          have hle := hbound timestamp List.mem_cons_self
          obtain ⟨timestamp', htimestamp', hinside⟩ := hgrace (interest, now) List.mem_cons_self
          obtain rfl : timestamp = timestamp' := Except.ok.inj (hfirst.symm.trans htimestamp')
          have hok : (checkPolicy toUri options policy interest now steadyNow).2 = .ok () :=
            checkPolicy_not_reordered (hbefore.mono hle) hsigned hfirst hinside steadyNow
          have hnext : Before keyName (timestamp + 1) (checkPolicy toUri options policy interest now steadyNow).1 := by
            refine hbefore.checkPolicy (by omega) ?_ now steadyNow
            intro other _ hother
            obtain rfl := Except.ok.inj (hfirst.symm.trans hother)
            omega
          intro output houtput houtputSigned
          rcases List.mem_cons.mp houtput with rfl | htail
          · exact hok
          · exact ih hnext hrest hincreasing.2 (fun other hother => hincreasing.1 other hother)
              (fun check hcheck => hgrace check (List.mem_cons_of_mem _ hcheck)) output htail houtputSigned
      · rw [if_neg hsigned, List.nil_append] at htimestamps hgrace
        have hnext : Before keyName bound (checkPolicy toUri options policy interest now steadyNow).1 :=
          hbefore.checkPolicy le_rfl (fun _ h => absurd h hsigned) now steadyNow
        intro output houtput houtputSigned
        rcases List.mem_cons.mp houtput with rfl | htail
        · exact absurd houtputSigned hsigned
        · exact ih hnext htimestamps hincreasing hbound hgrace output htail houtputSigned

theorem noneReordered_of_increasing {interests : List Interest} (h : StrictlyIncreasing interests) :
    NoneReordered toUri options keyName interests := by
  obtain ⟨timestamps, htimestamps, hincreasing⟩ := h
  intro events hevents hgrace output houtput hsigned keyName' hreordered
  have hbefore : Before keyName 0 ⟨[], []⟩ := ⟨fun _ h => absurd h List.not_mem_nil, fun _ h => absurd h List.not_mem_nil⟩
  have hok := @outcomes_ok toUri _ _ _ _ _ _ hbefore (hevents ▸ htimestamps) hincreasing (fun _ _ => Nat.zero_le _) hgrace
    output houtput hsigned
  rw [hok] at hreordered
  cases hreordered

end Policies

section Increase

variable {toUri : Name → String} {signer : Name → Component × Component} {keyName : Name}

theorem Making.milliseconds_bounds (making : Making) :
    1 ≤ making.milliseconds ∧ making.milliseconds * 1000000 < 9223372036854775808 := by
  have hlt := making.now_lt
  have hdiv : toUnixTimestamp making.now * 1000000 ≤ max making.now 0 := by
    unfold toUnixTimestamp
    rcases Int.le_total 0 making.now with hnonneg | hneg
    · rw [Int.tdiv_eq_ediv_of_nonneg hnonneg]
      omega
    · have hnonpos : making.now.tdiv 1000000 ≤ 0 := by
        have hneg' := Int.tdiv_nonneg (Int.neg_nonneg_of_nonpos hneg) (by decide : (0 : ℤ) ≤ 1000000)
        rw [Int.neg_tdiv] at hneg'
        omega
      omega
  unfold Making.milliseconds
  omega

theorem nextTimestamp_zero (now : ℤ) : nextTimestamp 0 now = max 1 now := by
  unfold nextTimestamp
  split <;> omega

theorem timestampOf_interest (making : Making) :
    timestampOf (making.interest signer) = .ok making.milliseconds.toNat := by
  obtain ⟨hpos, hlt⟩ := making.milliseconds_bounds
  obtain ⟨signatureInfo, signatureValue, hname⟩ := makeInterest_name making.request (toUnixTimestamp making.now)
    making.nonce signer
  have hback := (atBack_append (making.request.m_rvPrefix ++ KITE_KEYWORD :: making.request.m_producerSuffix)
    (fromNumber (count (nextTimestamp 0 (toUnixTimestamp making.now)))) (fromNumber making.nonce) signatureInfo
    signatureValue).1
  rw [List.append_assoc, List.cons_append, ← hname] at hback
  rw [timestampOf, Making.interest, hback]
  simp only [bind, Except.bind]
  rw [toNumber_fromNumber (count_lt _), nextTimestamp_zero]
  change Except.ok (count making.milliseconds) = _
  rw [count, Int.emod_eq_of_lt (by omega) (by omega)]

theorem getKeyLocatorName_interest (hsigner : SignsUnder signer keyName) (making : Making) :
    getKeyLocatorName (making.interest signer) = .ok keyName := by
  have hsigned : ∃ name, (making.interest signer).m_name = name ++ [(signer name).1, (signer name).2] := by
    unfold Making.interest makeInterest
    cases making.request.m_expiration <;> exact ⟨_, rfl⟩
  obtain ⟨name, hname⟩ := hsigned
  obtain ⟨si, hinfo, hkey⟩ := hsigner name
  have hback : Name.atBack (making.interest signer).m_name 2 = .ok (signer name).1 := by
    rw [hname]
    simp [Name.atBack]
  simp only [getKeyLocatorName, hback, hinfo, hkey]

theorem strictlyIncreasing_iff (makings : List Making) :
    StrictlyIncreasing (makings.map (Making.interest signer)) ↔
      (makings.map Making.milliseconds).Pairwise (· < ·) := by
  have htimestamps : (makings.map (Making.interest signer)).map timestampOf =
      (makings.map fun making => making.milliseconds.toNat).map Except.ok := by
    simp only [List.map_map]
    exact List.map_congr_left fun making _ => timestampOf_interest making
  have hpairwise : (makings.map fun making => making.milliseconds.toNat).Pairwise (· < ·) ↔
      (makings.map Making.milliseconds).Pairwise (· < ·) := by
    rw [List.pairwise_map, List.pairwise_map]
    constructor
    · intro h
      refine h.imp fun {making later} hlt => ?_
      have := making.milliseconds_bounds.1
      omega
    · intro h
      refine h.imp fun {making later} hlt => ?_
      have := making.milliseconds_bounds.1
      omega
  rw [← hpairwise]
  constructor
  · rintro ⟨timestamps, heq, hincreasing⟩
    have hinjective : Function.Injective (Except.ok : ℕ → Except Exception ℕ) := fun _ _ h => Except.ok.inj h
    rwa [List.map_injective_iff.mpr hinjective (htimestamps.symm.trans heq)]
  · exact fun hincreasing => ⟨_, htimestamps, hincreasing⟩

/-- Each Interest arrives at the time that its timestamp tells, and is validated at once. -/
def arrivals (signer : Name → Component × Component) (makings : List Making) : List Event :=
  makings.flatMap fun making => [.check (making.interest signer) (making.milliseconds * 1000000) 0, .success 0 0]

def recorded (keyName : Name) (making : Making) : Policy := ⟨[⟨keyName, making.milliseconds.toNat, 0⟩], []⟩

theorem inside_gracePeriod (making : Making) :
    outsideGracePeriod {} making.milliseconds.toNat (making.milliseconds * 1000000) = false := by
  obtain ⟨hpos, hlt⟩ := making.milliseconds_bounds
  have hms : NdnPacket.milliseconds making.milliseconds.toNat = making.milliseconds := by
    rw [NdnPacket.milliseconds, if_pos (by omega)]
    omega
  have hpoint : fromUnixTimestamp making.milliseconds = making.milliseconds * 1000000 := by
    unfold fromUnixTimestamp
    rw [Int.bmod_eq_of_le] <;> omega
  simp only [outsideGracePeriod, hms, hpoint, Bool.or_eq_false_iff, decide_eq_false_iff_not]
  omega

theorem checkPolicy_recorded (hsigner : SignsUnder signer keyName) (making later : Making) :
    checkPolicy toUri {} (recorded keyName making) (later.interest signer) (later.milliseconds * 1000000) 0 =
      if later.milliseconds ≤ making.milliseconds then (recorded keyName making, .error (reordered toUri keyName))
      else (⟨[⟨keyName, making.milliseconds.toNat, 0⟩], [(keyName, later.milliseconds.toNat)]⟩, .ok ()) := by
  have hcleanup : cleanup {} 0 (recorded keyName making).m_queue = (recorded keyName making).m_queue := by
    simp [cleanup, recorded]
  have hfind : (findRecord (recorded keyName making).m_queue keyName).any
      (fun record => decide (later.milliseconds.toNat ≤ record.timestamp)) =
        decide (later.milliseconds ≤ making.milliseconds) := by
    have hself : Name.equals keyName keyName = true := name_equals_iff.mpr rfl
    have hpos := making.milliseconds_bounds.1
    simp only [findRecord, recorded, List.find?_cons, hself, Option.any_some]
    exact decide_eq_decide.mpr (by omega)
  rw [checkPolicy, parseCommandInterest_eq (timestampOf_interest later) (getKeyLocatorName_interest hsigner later)]
  simp only [checkTimestamp, hcleanup, hfind, inside_gracePeriod, Bool.false_eq_true, if_false, decide_eq_true_eq]
  rfl

theorem chain_of_outcomes (hsigner : SignsUnder signer keyName) (making : Making) (makings : List Making)
    (h : ∀ output ∈ outcomes toUri {} (recorded keyName making) (arrivals signer makings),
      output.2 ≠ .error (reordered toUri keyName)) :
    ((making :: makings).map Making.milliseconds).IsChain (· < ·) := by
  induction makings generalizing making with
  | nil => exact List.isChain_singleton _
  | cons later makings ih =>
    have harrivals : arrivals signer (later :: makings) = .check (later.interest signer) (later.milliseconds * 1000000) 0 ::
        .success 0 0 :: arrivals signer makings := rfl
    rw [harrivals, outcomes, checkPolicy_recorded hsigner] at h
    by_cases hle : later.milliseconds ≤ making.milliseconds
    · rw [if_pos hle] at h
      exact absurd rfl (h _ List.mem_cons_self)
    · rw [if_neg hle] at h
      have hself : Name.equals keyName keyName = true := name_equals_iff.mpr rfl
      have hsucceed : Policy.succeed
          ⟨[⟨keyName, making.milliseconds.toNat, 0⟩], [(keyName, later.milliseconds.toNat)]⟩ 0 0 =
            recorded keyName later := by
        simp [Policy.succeed, insertNewRecord, hself, recorded]
      have hrest := ih later fun output houtput =>
        h output (List.mem_cons_of_mem _ (by rw [outcomes, hsucceed]; exact houtput))
      rw [List.map_cons] at hrest ⊢
      exact List.IsChain.cons_cons (Int.not_le.mp hle) hrest

theorem received_arrivals (hsigner : SignsUnder signer keyName) (makings : List Making) :
    received keyName (arrivals signer makings) =
      makings.map fun making => (making.interest signer, making.milliseconds * 1000000) := by
  induction makings with
  | nil => rfl
  | cons making makings ih =>
    have harrivals : arrivals signer (making :: makings) = .check (making.interest signer) (making.milliseconds * 1000000) 0 ::
        .success 0 0 :: arrivals signer makings := rfl
    have hsigned : signedUnder keyName (making.interest signer) = true :=
      signedUnder_iff.mpr ⟨keyName, getKeyLocatorName_interest hsigner making, name_equals_iff.mpr rfl⟩
    rw [harrivals, received_check, if_pos hsigned, List.map_cons, ← ih]
    rfl

theorem signedUnder_outcomes (hsigner : SignsUnder signer keyName) (makings : List Making) (policy : Policy) :
    ∀ output ∈ outcomes toUri {} policy (arrivals signer makings), signedUnder keyName output.1 = true := by
  induction makings generalizing policy with
  | nil => exact fun output houtput => absurd houtput List.not_mem_nil
  | cons making makings ih =>
    intro output houtput
    rcases List.mem_cons.mp houtput with rfl | htail
    · exact signedUnder_iff.mpr ⟨keyName, getKeyLocatorName_interest hsigner making, name_equals_iff.mpr rfl⟩
    · exact ih _ output htail

theorem increasing_of_noneReordered (hsigner : SignsUnder signer keyName) (makings : List Making)
    (h : NoneReordered toUri {} keyName (makings.map (Making.interest signer))) :
    (makings.map Making.milliseconds).Pairwise (· < ·) := by
  have hreceived := received_arrivals hsigner makings
  have hrun := h (arrivals signer makings) (by rw [hreceived, List.map_map]; rfl) (by
    rw [hreceived]
    intro check hcheck
    obtain ⟨making, -, rfl⟩ := List.mem_map.mp hcheck
    exact ⟨_, timestampOf_interest making, inside_gracePeriod making⟩)
  rw [← List.isChain_iff_pairwise]
  cases makings with
  | nil => exact List.isChain_nil
  | cons making makings =>
    refine @chain_of_outcomes toUri _ _ hsigner making makings fun output houtput => ?_
    have hfirst : checkPolicy toUri {} ⟨[], []⟩ (making.interest signer) (making.milliseconds * 1000000) 0 =
        (⟨[], [(keyName, making.milliseconds.toNat)]⟩, .ok ()) := by
      rw [checkPolicy, parseCommandInterest_eq (timestampOf_interest making) (getKeyLocatorName_interest hsigner making)]
      simp [checkTimestamp, inside_gracePeriod, cleanup, findRecord]
    have hoccurs : output ∈ outcomes toUri {} ⟨[], []⟩ (arrivals signer (making :: makings)) := by
      change output ∈ outcomes toUri {} ⟨[], []⟩ (.check (making.interest signer) (making.milliseconds * 1000000) 0 ::
        .success 0 0 :: arrivals signer makings)
      rw [outcomes, hfirst]
      exact List.mem_cons_of_mem _ houtput
    exact hrun output hoccurs (signedUnder_outcomes hsigner makings (recorded keyName making) output houtput) keyName

/-- No request is taken for reordered if and only if each is made in a later millisecond than the one before it. -/
theorem requests_increasing_iff (toUri : Name → String) {signer : Name → Component × Component} {keyName : Name}
    (hsigner : SignsUnder signer keyName) (makings : List Making) :
    (StrictlyIncreasing (makings.map (Making.interest signer)) ↔
      (makings.map Making.milliseconds).Pairwise (· < ·)) ∧
    (NoneReordered toUri {} keyName (makings.map (Making.interest signer)) ↔
      (makings.map Making.milliseconds).Pairwise (· < ·)) ∧
    ((makings.map Making.milliseconds).Pairwise (· < ·) →
      ∀ options, NoneReordered toUri options keyName (makings.map (Making.interest signer))) := by
  have hincreasing := @strictlyIncreasing_iff signer makings
  have hnone : (makings.map Making.milliseconds).Pairwise (· < ·) →
      ∀ options, NoneReordered toUri options keyName (makings.map (Making.interest signer)) :=
    fun h options => noneReordered_of_increasing (hincreasing.mpr h)
  exact ⟨hincreasing, ⟨increasing_of_noneReordered hsigner makings, fun h => hnone h {}⟩, hnone⟩

def digestSigner (_ : Name) : Component × Component := (⟨8, [22, 3, 27, 1, 0]⟩, ⟨8, [23, 0]⟩)

theorem digestSigner_signs : SignsUnder digestSigner digestSha256Identity :=
  have hinfo : decodeSignatureInfo ⟨8, [22, 3, 27, 1, 0]⟩ = .ok ⟨0, none, []⟩ := by decide
  fun _ => ⟨⟨0, none, []⟩, hinfo, by decide⟩

def alice : Making := ⟨⟨[⟨8, [114, 118]⟩], [⟨8, [97]⟩], 0, 0, some 1000⟩, 1500000000, 7, by decide⟩

def bob : Making := ⟨⟨[⟨8, [114, 118]⟩], [⟨8, [98]⟩], 0, 0, some 1000⟩, 1500400000, 9, by decide⟩

def carol : Making := ⟨⟨[⟨8, [114, 118]⟩], [⟨8, [99]⟩], 0, 0, some 1000⟩, 1501000000, 11, by decide⟩

theorem requests_increasing_iff_carol :
    StrictlyIncreasing ([alice, carol].map (Making.interest digestSigner)) ∧
      NoneReordered (fun _ => "") {} digestSha256Identity ([alice, carol].map (Making.interest digestSigner)) := by
  obtain ⟨hincreasing, hnone, -⟩ := requests_increasing_iff (fun _ => "") digestSigner_signs [alice, carol]
  exact ⟨hincreasing.mpr (by decide), hnone.mpr (by decide)⟩

theorem not_increasing_bob :
    ¬ StrictlyIncreasing ([alice, bob].map (Making.interest digestSigner)) ∧
      ¬ NoneReordered (fun _ => "") {} digestSha256Identity ([alice, bob].map (Making.interest digestSigner)) :=
  ⟨fun h => absurd ((strictlyIncreasing_iff _).mp h) (by decide),
    fun h => absurd (increasing_of_noneReordered digestSigner_signs _ h) (by decide)⟩

end Increase

end LeoNdn.CommandInterestPolicy
