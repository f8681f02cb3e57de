import LeoNdn.PitPipelines
import LeoNdn.Runs

/-!
The strategies that forward an Interest to all next hops with a suppression of
retransmissions for each upstream (`HintStrategy` handles an Interest in the same
way), and when they give a PIT entry up.
-/

namespace LeoNdn.RetxStrategy

open LeoNdn.Tlv LeoNdn.NdnPacket LeoNdn.Runs
open LeoNdn.Forwarder (Face FaceRecord)
open LeoNdn.PitPipelines (Interest InRecord Packet updateRecord insertOrUpdate)

variable {σ : Type}

/-- With the interval in microseconds that the suppression keeps, and with the faces
from which the Interests have come that were sent. -/
structure OutRecord extends FaceRecord where
  m_incomingNack : Option ℕ
  suppressionInterval : Option ℤ
  downstreams : List Face
  deriving DecidableEq, Repr

/-- `expiryTimer` is the time at which the entry ends. -/
structure PitEntry (σ : Type) where
  m_inRecords : List (InRecord σ)
  m_outRecords : List OutRecord
  expiryTimer : Option ℤ
  sent : List (Face × Packet σ)
  deriving DecidableEq, Repr

section Strategy

/-- `/localhop`. -/
def LOCALHOP : Name := [⟨8, [108, 111, 99, 97, 108, 104, 111, 112]⟩]

def wouldViolateScope (inFace : Face) (interest : Interest σ) (outFace : Face) : Bool :=
  if outFace.scope = .scopeLocal then false
  else if Name.isPrefixOf LOCALHOST interest.m_name then true
  else if Name.isPrefixOf LOCALHOP interest.m_name then inFace.scope ≠ .scopeLocal
  else false

inductive RetxSuppressionResult
  | NEW
  | FORWARD
  | SUPPRESS
  deriving DecidableEq, Repr

def RETX_SUPPRESSION_INITIAL : ℤ := 10000

def RETX_SUPPRESSION_MAX : ℤ := 250000

def getOutRecord (outFace : Face) (pitEntry : PitEntry σ) : Option OutRecord :=
  pitEntry.m_outRecords.find? (fun record => record.m_face = outFace)

def modifyOutRecord (outFace : Face) (f : OutRecord → OutRecord) (pitEntry : PitEntry σ) : PitEntry σ :=
  { pitEntry with m_outRecords := pitEntry.m_outRecords.map (fun record => if record.m_face = outFace then f record else record) }

def insertStrategyInfo (record : OutRecord) : OutRecord :=
  { record with suppressionInterval := some (record.suppressionInterval.getD RETX_SUPPRESSION_INITIAL) }

def shouldSuppress (now : ℤ) (record : OutRecord) : Bool :=
  now - record.m_lastRenewed < record.suppressionInterval.getD RETX_SUPPRESSION_INITIAL * 1000

def decidePerUpstream (now : ℤ) (pitEntry : PitEntry σ) (outFace : Face) : RetxSuppressionResult × PitEntry σ :=
  match getOutRecord outFace pitEntry with
  | none => (.NEW, pitEntry)
  | some outRecord =>
    (if shouldSuppress now outRecord then .SUPPRESS else .FORWARD, modifyOutRecord outFace insertStrategyInfo pitEntry)

def incrementInterval (record : OutRecord) : OutRecord :=
  { record with
    suppressionInterval :=
      some (min RETX_SUPPRESSION_MAX (record.suppressionInterval.getD RETX_SUPPRESSION_INITIAL * 2)) }

def incrementIntervalForOutRecord (outFace : Face) (pitEntry : PitEntry σ) : PitEntry σ :=
  modifyOutRecord outFace incrementInterval pitEntry

def sendInterest (now : ℤ) (inFace outFace : Face) (interest : Interest σ) (pitEntry : PitEntry σ) : PitEntry σ :=
  { pitEntry with
    m_outRecords := insertOrUpdate (fun record => record.m_face = outFace)
      (fun record => { record with
        toFaceRecord := updateRecord now interest record.toFaceRecord, downstreams := inFace :: record.downstreams })
      ⟨⟨outFace, 0, 0, 0⟩, none, none, []⟩ pitEntry.m_outRecords
    sent := pitEntry.sent ++ [(outFace, .interest interest)] }

def sendNack (inFace : Face) (reason : ℕ) (pitEntry : PitEntry σ) : PitEntry σ :=
  if inFace.id = 0 then pitEntry
  else
    match pitEntry.m_inRecords.find? (fun record => record.m_face = inFace) with
    | none => pitEntry
    | some inRecord =>
      if inFace.linkType ≠ .pointToPoint then pitEntry
      else
        { pitEntry with
          m_inRecords := pitEntry.m_inRecords.eraseP (fun record => record.m_face = inFace)
          sent := pitEntry.sent ++ [(inFace, .nack reason inRecord.m_interest)] }

def rejectPendingInterest (now : ℤ) (pitEntry : PitEntry σ) : PitEntry σ := { pitEntry with expiryTimer := some now }

/-- The next hop is the incoming face itself, or out of the scope. -/
def isClosed (inFace : Face) (interest : Interest σ) (outFace : Face) : Bool :=
  (outFace.id = inFace.id && outFace.linkType ≠ .adHoc) || wouldViolateScope inFace interest outFace

/-- The loop over the next hops, with the number of eligible ones and whether one was suppressed. -/
def forwardToNextHops (now : ℤ) (inFace : Face) (interest : Interest σ) :
    List Face → ℕ → Bool → PitEntry σ → PitEntry σ × ℕ × Bool
  | [], nEligibleNextHops, isSuppressed, pitEntry => (pitEntry, nEligibleNextHops, isSuppressed)
  | outFace :: nexthops, nEligibleNextHops, isSuppressed, pitEntry =>
    let (suppressResult, pitEntry) := decidePerUpstream now pitEntry outFace
    if suppressResult = .SUPPRESS then
      forwardToNextHops now inFace interest nexthops nEligibleNextHops true pitEntry
    else if isClosed inFace interest outFace then
      forwardToNextHops now inFace interest nexthops nEligibleNextHops isSuppressed pitEntry
    else
      let pitEntry := sendInterest now inFace outFace interest pitEntry
      let pitEntry :=
        if suppressResult = .FORWARD then incrementIntervalForOutRecord outFace pitEntry else pitEntry
      forwardToNextHops now inFace interest nexthops (nEligibleNextHops + 1) isSuppressed pitEntry

/-- And whether the entry is rejected; 150 is the reason `NO_ROUTE`. -/
def afterReceiveInterest (now : ℤ) (inFace : Face) (interest : Interest σ) (nexthops : List Face)
    (pitEntry : PitEntry σ) : PitEntry σ × Bool :=
  let (pitEntry, nEligibleNextHops, isSuppressed) := forwardToNextHops now inFace interest nexthops 0 false pitEntry
  if nEligibleNextHops = 0 ∧ isSuppressed = false then
    (rejectPendingInterest now (sendNack inFace 150 pitEntry), true)
  else (pitEntry, false)

end Strategy

section Pipeline

def insertOrUpdateInRecord (now : ℤ) (inFace : Face) (interest : Interest σ) (pitEntry : PitEntry σ) : PitEntry σ :=
  { pitEntry with
    m_inRecords := insertOrUpdate (fun record => record.m_face = inFace)
      (fun record => ⟨updateRecord now interest record.toFaceRecord, interest⟩)
      ⟨⟨inFace, 0, 0, 0⟩, interest⟩ pitEntry.m_inRecords }

def lastExpiryFromNow (now : ℤ) (pitEntry : PitEntry σ) : ℤ :=
  Int.tdiv (((pitEntry.m_inRecords.map (fun record => record.m_expiry)).max?).getD now - now) 1000000

/-- For an Interest without a chosen next hop. -/
def onContentStoreMiss (now : ℤ) (inFace : Face) (interest : Interest σ) (nexthops : List Face)
    (pitEntry : PitEntry σ) : PitEntry σ × Bool :=
  let pitEntry := insertOrUpdateInRecord now inFace interest pitEntry
  let pitEntry := { pitEntry with expiryTimer := some (now + lastExpiryFromNow now pitEntry * 1000000) }
  afterReceiveInterest now inFace interest nexthops pitEntry

def hasDuplicateNonce (inFace : Face) (interest : Interest σ) (pitEntry : PitEntry σ) : Bool :=
  PitPipelines.hasDuplicateNonce
    ⟨interest, pitEntry.m_inRecords, pitEntry.m_outRecords.map (fun record => ⟨record.toFaceRecord, record.m_incomingNack⟩),
      false, 0, none⟩ interest.m_nonce inFace

structure State (σ : Type) where
  now : ℤ
  pitEntry : PitEntry σ
  deriving DecidableEq, Repr

/-- An Interest comes with the next hops that the FIB has for it then; whatever else
happens to the entry in between is a change. -/
inductive Event (σ : Type)
  | advance (duration : ℕ)
  | interest (inFace : Face) (interest : Interest σ) (nexthops : List Face)
  | change (pitEntry : PitEntry σ)
  deriving DecidableEq, Repr

def handle (s : State σ) (inFace : Face) (interest : Interest σ) (nexthops : List Face) : PitEntry σ × Bool :=
  if hasDuplicateNonce inFace interest s.pitEntry then (s.pitEntry, false)
  else onContentStoreMiss s.now inFace interest nexthops s.pitEntry

def step (s : State σ) : Event σ → State σ
  | .advance duration => { s with now := s.now + duration }
  | .interest inFace interest nexthops => { s with pitEntry := (handle s inFace interest nexthops).1 }
  | .change pitEntry => { s with pitEntry := pitEntry }

end Pipeline

section Downstreams

/-- The upstream has neither answered nor run out of time. -/
def mayAnswer (now : ℤ) (record : OutRecord) : Bool := now ≤ record.m_expiry && record.m_incomingNack.isNone

/-- Another downstream has an unexpired in-record, and its Interest was sent to an
upstream that may still answer. -/
def otherWaits (s : State σ) (inFace : Face) : Bool :=
  s.pitEntry.m_inRecords.any (fun inRecord => inRecord.m_face ≠ inFace && s.now < inRecord.m_expiry &&
    s.pitEntry.m_outRecords.any (fun outRecord => outRecord.downstreams.contains inRecord.m_face && mayAnswer s.now outRecord))

/-- The strategy gives the entry up while another downstream waits. -/
def Cancels (s : State σ) : Event σ → Prop
  | .interest inFace interest nexthops => (handle s inFace interest nexthops).2 = true ∧ otherWaits s inFace = true
  | _ => False

def isSuppressed (now : ℤ) (pitEntry : PitEntry σ) (outFace : Face) : Bool :=
  (getOutRecord outFace pitEntry).any (shouldSuppress now)

/-- No next hop is open to the incoming face, and none is in its suppression interval. -/
def isBlocked (now : ℤ) (inFace : Face) (interest : Interest σ) (nexthops : List Face) (pitEntry : PitEntry σ) : Bool :=
  nexthops.all (fun outFace => isClosed inFace interest outFace && ! isSuppressed now pitEntry outFace)

def BlockedWhileOtherWaits (s : State σ) : Event σ → Prop
  | .interest inFace interest nexthops => hasDuplicateNonce inFace interest s.pitEntry = false ∧
      isBlocked s.now inFace interest nexthops s.pitEntry = true ∧ otherWaits s inFace = true
  | _ => False

end Downstreams

section Suppression

variable {now : ℤ} {inFace outFace : Face} {interest : Interest σ} {pitEntry : PitEntry σ}

theorem getOutRecord_modifyOutRecord {f : OutRecord → OutRecord} (hface : ∀ record, (f record).m_face = record.m_face)
    (other : Face) :
    getOutRecord other (modifyOutRecord outFace f pitEntry) =
      (getOutRecord other pitEntry).map (fun record => if record.m_face = outFace then f record else record) := by
  unfold getOutRecord modifyOutRecord
  rw [List.find?_map]
  congr 2
  funext record
  simp only [Function.comp]
  split <;> simp [hface]

theorem shouldSuppress_insertStrategyInfo (record : OutRecord) :
    shouldSuppress now (insertStrategyInfo record) = shouldSuppress now record := rfl

/-- The decision does not change what is decided of the other next hops. -/
theorem isSuppressed_decidePerUpstream (other : Face) :
    isSuppressed now (decidePerUpstream now pitEntry outFace).2 other = isSuppressed now pitEntry other := by
  unfold decidePerUpstream
  cases getOutRecord outFace pitEntry with
  | none => rfl
  | some outRecord =>
    simp only [isSuppressed]
    rw [getOutRecord_modifyOutRecord (f := insertStrategyInfo) (fun _ => rfl), Option.any_map]
    congr 1
    funext record
    split
    · exact shouldSuppress_insertStrategyInfo record
    · rfl

theorem suppress_iff :
    (decidePerUpstream now pitEntry outFace).1 = .SUPPRESS ↔ isSuppressed now pitEntry outFace = true := by
  unfold decidePerUpstream isSuppressed
  cases getOutRecord outFace pitEntry with
  | none => simp
  | some outRecord => by_cases h : shouldSuppress now outRecord <;> simp [h]

theorem forwardToNextHops_le (nexthops : List Face) (nEligibleNextHops : ℕ) (suppressed : Bool) (pitEntry : PitEntry σ) :
    nEligibleNextHops ≤ (forwardToNextHops now inFace interest nexthops nEligibleNextHops suppressed pitEntry).2.1 ∧
      (suppressed = true →
        (forwardToNextHops now inFace interest nexthops nEligibleNextHops suppressed pitEntry).2.2 = true) := by
  induction nexthops generalizing nEligibleNextHops suppressed pitEntry with
  | nil => exact ⟨le_rfl, id⟩
  | cons outFace nexthops ih =>
    simp only [forwardToNextHops]
    split
    · exact ⟨(ih _ true _).1, fun _ => (ih _ true _).2 rfl⟩
    · split
      · exact ih _ suppressed _
      · exact ⟨(Nat.le_succ _).trans (ih (nEligibleNextHops + 1) suppressed _).1, (ih _ suppressed _).2⟩

theorem forwardToNextHops_none_iff (nexthops : List Face) (pitEntry : PitEntry σ) :
    ((forwardToNextHops now inFace interest nexthops 0 false pitEntry).2.1 = 0 ∧
        (forwardToNextHops now inFace interest nexthops 0 false pitEntry).2.2 = false) ↔
      isBlocked now inFace interest nexthops pitEntry = true := by
  induction nexthops generalizing pitEntry with
  | nil => simp [forwardToNextHops, isBlocked]
  | cons outFace nexthops ih =>
    have htail : isBlocked now inFace interest nexthops (decidePerUpstream now pitEntry outFace).2 =
        isBlocked now inFace interest nexthops pitEntry := by
      simp only [isBlocked, isSuppressed_decidePerUpstream]
    have hcons : isBlocked now inFace interest (outFace :: nexthops) pitEntry = true ↔
        (isClosed inFace interest outFace = true ∧ isSuppressed now pitEntry outFace = false) ∧
          isBlocked now inFace interest nexthops pitEntry = true := by
      simp [isBlocked]
    rw [hcons]
    simp only [forwardToNextHops]
    split
    · rename_i hsuppress
      have hsuppressed := suppress_iff.mp hsuppress
      have hflag := (@forwardToNextHops_le _ now inFace interest nexthops 0 true
        (decidePerUpstream now pitEntry outFace).2).2 rfl
      simp [hsuppressed, hflag]
    · rename_i hsuppress
      have hsuppressed : isSuppressed now pitEntry outFace = false := by
        rw [← Bool.not_eq_true, ← suppress_iff]
        exact hsuppress
      split
      · rename_i hclosed
        rw [ih, htail]
        simp [hclosed, hsuppressed]
      · rename_i hopen
        have hcount (sentEntry : PitEntry σ) :
            (forwardToNextHops now inFace interest nexthops (0 + 1) false sentEntry).2.1 ≠ 0 :=
          Nat.ne_of_gt (forwardToNextHops_le nexthops (0 + 1) false sentEntry).1
        constructor
        · exact fun h => absurd h.1 (hcount _)
        · exact fun h => absurd h.1.1 hopen

theorem afterReceiveInterest_rejects_iff (nexthops : List Face) (pitEntry : PitEntry σ) :
    (afterReceiveInterest now inFace interest nexthops pitEntry).2 = true ↔
      isBlocked now inFace interest nexthops pitEntry = true := by
  rw [← forwardToNextHops_none_iff]
  simp only [afterReceiveInterest]
  split <;> simp_all

theorem handle_rejects_iff (s : State σ) (nexthops : List Face) :
    (handle s inFace interest nexthops).2 = true ↔ hasDuplicateNonce inFace interest s.pitEntry = false ∧
      isBlocked s.now inFace interest nexthops s.pitEntry = true := by
  unfold handle
  split
  · simp_all
  · rename_i hduplicate
    rw [onContentStoreMiss, afterReceiveInterest_rejects_iff]
    simp only [Bool.not_eq_true] at hduplicate
    simp only [hduplicate, true_and]
    exact Iff.rfl

end Suppression

section Cancelled

/-- The entry is given up while another downstream waits if and only if an Interest finds all next hops closed to it
and none of them suppressed. -/
theorem neverCancels_iff (s : State σ) (events : List (Event σ)) :
    EachStep step (fun s event => ¬ Cancels s event) s events ↔
      EachStep step (fun s event => ¬ BlockedWhileOtherWaits s event) s events := by
  apply eachStep_congr
  intro s event
  cases event with
  | advance duration => exact Iff.rfl
  | change pitEntry => exact Iff.rfl
  | interest inFace interest nexthops =>
    simp only [Cancels, BlockedWhileOtherWaits, handle_rejects_iff, and_assoc]

def alice : Face := ⟨257, .scopeNonLocal, .pointToPoint⟩

def bob : Face := ⟨258, .scopeNonLocal, .pointToPoint⟩

def interestOf (nonce : ℕ) : Interest Unit := ⟨[⟨8, [97]⟩], (), nonce, 4000, [], none⟩

/-- The retransmission of the only upstream, 20 ms after the Interest was sent to it. -/
theorem not_neverCancels_bob :
    ¬ EachStep step (fun s event => ¬ Cancels s event) ⟨0, ⟨[], [], none, []⟩⟩
      [.interest alice (interestOf 1) [bob], .advance 20000000, .interest bob (interestOf 2) [bob]] := by
  intro h
  exact h.2.2.1 ⟨by decide, by decide⟩

end Cancelled

end LeoNdn.RetxStrategy
