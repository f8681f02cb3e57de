import LeoNdn.RetxStrategy
import Mathlib.Data.Rat.Floor
import Mathlib.Tactic.Linarith

/-!
The exponential suppression of retransmissions with any intervals and any rational
multiplier, and when Interests of an entry are sent to an upstream.
-/

namespace LeoNdn.RetxSuppression

open LeoNdn.Runs LeoNdn.RetxStrategy
open LeoNdn.Forwarder (Face)
open LeoNdn.PitPipelines (Interest Packet updateRecord find?_insertOrUpdate find?_insertOrUpdate_other)

variable {σ : Type}

/-- What its constructor asserts; the intervals are in microseconds. The multiplier is a `float` in the source, with which
the products are exact for the values that the strategies take. -/
structure RetxSuppressionExponential where
  m_initialInterval : ℤ
  m_multiplier : ℚ
  m_maxInterval : ℤ
  initial_pos : 0 < m_initialInterval
  one_le_multiplier : 1 ≤ m_multiplier
  initial_le_max : m_initialInterval ≤ m_maxInterval

section Strategy

variable (suppression : RetxSuppressionExponential)

/-- `duration_cast` to microseconds, which drops the fraction. -/
def durationCast (duration : ℚ) : ℤ := Int.tdiv duration.num duration.den

def intervalOf (record : OutRecord) : ℤ := record.suppressionInterval.getD suppression.m_initialInterval

def insertStrategyInfo (record : OutRecord) : OutRecord :=
  { record with suppressionInterval := some (intervalOf suppression record) }

def shouldSuppress (now : ℤ) (record : OutRecord) : Bool := now - record.m_lastRenewed < intervalOf suppression record * 1000

def decidePerUpstream (now : ℤ) (pitEntry : PitEntry σ) (outFace : Face) : RetxSuppressionResult × PitEntry σ :=
  match getOutRecord outFace pitEntry with
  | none => (.NEW, pitEntry)
  | some outRecord =>
    (if shouldSuppress suppression now outRecord then .SUPPRESS else .FORWARD,
      modifyOutRecord outFace (insertStrategyInfo suppression) pitEntry)

def incrementInterval (record : OutRecord) : OutRecord :=
  { record with
    suppressionInterval := some (min suppression.m_maxInterval
      (durationCast (intervalOf suppression record * suppression.m_multiplier))) }

def incrementIntervalForOutRecord (outFace : Face) (pitEntry : PitEntry σ) : PitEntry σ :=
  modifyOutRecord outFace (incrementInterval suppression) pitEntry

/-- The loop over the next hops, with the number of eligible ones and whether one was suppressed. -/
def forwardToNextHops (now : ℤ) (inFace : Face) (interest : Interest σ) :
    List Face → ℕ → Bool → PitEntry σ → PitEntry σ × ℕ × Bool
  | [], nEligibleNextHops, isSuppressed, pitEntry => (pitEntry, nEligibleNextHops, isSuppressed)
  | outFace :: nexthops, nEligibleNextHops, isSuppressed, pitEntry =>
    let (suppressResult, pitEntry) := decidePerUpstream suppression now pitEntry outFace
    if suppressResult = .SUPPRESS then
      forwardToNextHops now inFace interest nexthops nEligibleNextHops true pitEntry
    else if isClosed inFace interest outFace then
      forwardToNextHops now inFace interest nexthops nEligibleNextHops isSuppressed pitEntry
    else
      let pitEntry := sendInterest now inFace outFace interest pitEntry
      let pitEntry :=
        if suppressResult = .FORWARD then incrementIntervalForOutRecord suppression outFace pitEntry else pitEntry
      forwardToNextHops now inFace interest nexthops (nEligibleNextHops + 1) isSuppressed pitEntry

def afterReceiveInterest (now : ℤ) (inFace : Face) (interest : Interest σ) (nexthops : List Face)
    (pitEntry : PitEntry σ) : PitEntry σ × Bool :=
  let (pitEntry, nEligibleNextHops, isSuppressed) :=
    forwardToNextHops suppression now inFace interest nexthops 0 false pitEntry
  if nEligibleNextHops = 0 ∧ isSuppressed = false then
    (rejectPendingInterest now (sendNack inFace 150 pitEntry), true)
  else (pitEntry, false)

end Strategy

section Arrivals

variable (suppression : RetxSuppressionExponential)

/-- An Interest that the strategy is given, with the next hops that the FIB has then. -/
structure Arrival (σ : Type) where
  now : ℤ
  inFace : Face
  interest : Interest σ
  nexthops : List Face

def next (pitEntry : PitEntry σ) (arrival : Arrival σ) : PitEntry σ :=
  (afterReceiveInterest suppression arrival.now arrival.inFace arrival.interest arrival.nexthops pitEntry).1

def interval (record : Option OutRecord) : ℤ := (record.map (intervalOf suppression)).getD suppression.m_initialInterval

def intervalTo (outFace : Face) (pitEntry : PitEntry σ) : ℤ := interval suppression (getOutRecord outFace pitEntry)

def isInterestTo (outFace : Face) : Face × Packet σ → Bool
  | (face, .interest _) => face = outFace
  | _ => false

/-- When Interests are sent to an upstream, with the interval in force after each. -/
def forwardsTo (outFace : Face) : PitEntry σ → List (Arrival σ) → List (ℤ × ℤ)
  | _, [] => []
  | pitEntry, arrival :: arrivals =>
    List.replicate (((next suppression pitEntry arrival).sent.drop pitEntry.sent.length).countP (isInterestTo outFace))
        (arrival.now, intervalTo suppression outFace (next suppression pitEntry arrival)) ++
      forwardsTo outFace (next suppression pitEntry arrival) arrivals

def alone (outFace : Face) (pitEntry : PitEntry σ) : PitEntry σ :=
  { pitEntry with m_outRecords := pitEntry.m_outRecords.filter (fun record => record.m_face = outFace) }

def Arrival.alone (outFace : Face) (arrival : Arrival σ) : Arrival σ :=
  { arrival with nexthops := arrival.nexthops.filter (fun nexthop => nexthop = outFace) }

/-- The intervals that the suppression has left in the out-records. -/
def Within (pitEntry : PitEntry σ) : Prop :=
  ∀ outFace, suppression.m_initialInterval ≤ intervalTo suppression outFace pitEntry ∧
    intervalTo suppression outFace pitEntry ≤ suppression.m_maxInterval

structure IntervalsRight (pitEntry : PitEntry σ) (arrival : Arrival σ) : Prop where
  mono : ∀ outFace, intervalTo suppression outFace pitEntry ≤ intervalTo suppression outFace (next suppression pitEntry arrival)
  within : Within suppression (next suppression pitEntry arrival)

end Arrivals

section Upstream

variable (suppression : RetxSuppressionExponential) (now : ℤ) (inFace outFace : Face) (interest : Interest σ)

def updateOutRecord (record : OutRecord) : OutRecord :=
  { record with
    toFaceRecord := updateRecord now interest record.toFaceRecord, downstreams := inFace :: record.downstreams }

/-- What one iteration does to the out-record of its upstream, and whether it sends the Interest. -/
def visit : Option OutRecord → Option OutRecord × Bool
  | none =>
    if isClosed inFace interest outFace then (none, false)
    else (some (updateOutRecord now inFace interest ⟨⟨outFace, 0, 0, 0⟩, none, none, []⟩), true)
  | some record =>
    if shouldSuppress suppression now record || isClosed inFace interest outFace then
      (some (insertStrategyInfo suppression record), false)
    else
      (some (incrementInterval suppression (updateOutRecord now inFace interest (insertStrategyInfo suppression record))), true)

/-- A number of iterations for an upstream, and how often they send the Interest. -/
def visits : ℕ → Option OutRecord → Option OutRecord × ℕ
  | 0, record => (record, 0)
  | n + 1, record =>
    let visited := visit suppression now inFace outFace interest record
    ((visits n visited.1).1, (if visited.2 then 1 else 0) + (visits n visited.1).2)

end Upstream

section Records

variable {suppression : RetxSuppressionExponential} {now : ℤ} {inFace outFace other : Face} {interest : Interest σ}
variable {pitEntry : PitEntry σ}

theorem getOutRecord_face {record : OutRecord} (h : getOutRecord outFace pitEntry = some record) :
    record.m_face = outFace := by
  simpa using List.find?_some h

theorem getOutRecord_modify {f : OutRecord → OutRecord} (hface : ∀ record, (f record).m_face = record.m_face) :
    getOutRecord other (modifyOutRecord outFace f pitEntry) =
      if other = outFace then (getOutRecord other pitEntry).map f else getOutRecord other pitEntry := by
  rw [getOutRecord_modifyOutRecord hface]
  cases hrecord : getOutRecord other pitEntry with
  | none => simp
  | some record =>
    rw [Option.map_some, Option.map_some, getOutRecord_face hrecord]
    split <;> rfl

theorem getOutRecord_sendInterest :
    getOutRecord other (sendInterest now inFace outFace interest pitEntry) =
      if other = outFace then
        some (updateOutRecord now inFace interest ((getOutRecord outFace pitEntry).getD ⟨⟨outFace, 0, 0, 0⟩, none, none, []⟩))
      else getOutRecord other pitEntry := by
  split
  · rename_i heq
    subst heq
    refine find?_insertOrUpdate ?_
    cases hrecord : getOutRecord other pitEntry with
    | none =>
      rw [getOutRecord] at hrecord
      rw [hrecord]
      exact decide_eq_true rfl
    | some record =>
      have hface := getOutRecord_face hrecord
      rw [getOutRecord] at hrecord
      rw [hrecord]
      exact decide_eq_true hface
  · rename_i hne
    refine find?_insertOrUpdate_other (fun record hface => ?_) (decide_eq_false (Ne.symm hne))
    have heq : record.m_face = outFace := by simpa using hface
    exact ⟨decide_eq_false (heq ▸ Ne.symm hne), decide_eq_false (heq ▸ Ne.symm hne)⟩

def iteration (suppression : RetxSuppressionExponential) (now : ℤ) (inFace : Face) (interest : Interest σ) (outFace : Face)
    (pitEntry : PitEntry σ) : PitEntry σ :=
  let decided := decidePerUpstream suppression now pitEntry outFace
  if decided.1 = .SUPPRESS ∨ isClosed inFace interest outFace = true then decided.2
  else if decided.1 = .FORWARD then
    incrementIntervalForOutRecord suppression outFace (sendInterest now inFace outFace interest decided.2)
  else sendInterest now inFace outFace interest decided.2

theorem forwardToNextHops_cons (nexthops : List Face) (nEligibleNextHops : ℕ) (isSuppressed : Bool) (pitEntry : PitEntry σ) :
    ∃ nEligibleNextHops' isSuppressed',
      forwardToNextHops suppression now inFace interest (outFace :: nexthops) nEligibleNextHops isSuppressed pitEntry =
        forwardToNextHops suppression now inFace interest nexthops nEligibleNextHops' isSuppressed'
          (iteration suppression now inFace interest outFace pitEntry) := by
  simp only [forwardToNextHops, iteration]
  by_cases hsuppress : (decidePerUpstream suppression now pitEntry outFace).1 = .SUPPRESS
  · simp only [hsuppress, if_true, true_or]
    exact ⟨_, _, rfl⟩
  · by_cases hclosed : isClosed inFace interest outFace = true
    · simp only [hsuppress, hclosed, if_false, if_true, or_true]
      exact ⟨_, _, rfl⟩
    · simp only [hsuppress, hclosed, if_false]
      exact ⟨_, _, rfl⟩

theorem countP_sent : [((outFace, .interest interest) : Face × Packet σ)].countP (isInterestTo other) =
    if other = outFace then 1 else 0 := by
  by_cases h : other = outFace
  · simp [isInterestTo, h]
  · simp [isInterestTo, h, Ne.symm h]

/-- What an iteration does to the out-record of any upstream, and whether it sends the Interest there. -/
def IterationSpec (outFace other : Face) (visited : Option OutRecord × Bool) (pitEntry pitEntry' : PitEntry σ) : Prop :=
  getOutRecord other pitEntry' = (if other = outFace then visited.1 else getOutRecord other pitEntry) ∧
    ∃ sent, pitEntry'.sent = pitEntry.sent ++ sent ∧
      sent.countP (isInterestTo other) = if other = outFace then (if visited.2 then 1 else 0) else 0

theorem iteration_spec (pitEntry : PitEntry σ) :
    IterationSpec outFace other (visit suppression now inFace outFace interest (getOutRecord outFace pitEntry)) pitEntry
      (iteration suppression now inFace interest outFace pitEntry) := by
  have hface (record : OutRecord) : (insertStrategyInfo suppression record).m_face = record.m_face := rfl
  have hincrement (record : OutRecord) : (incrementInterval suppression record).m_face = record.m_face := rfl
  unfold iteration decidePerUpstream
  cases hrecord : getOutRecord outFace pitEntry with
  | none =>
    by_cases hclosed : isClosed inFace interest outFace = true
    · simp only [visit, hclosed, if_true, or_true]
      refine ⟨?_, [], (List.append_nil _).symm, by simp⟩
      split
      · rename_i heq
        rw [heq, hrecord]
      · rfl
    · simp only [visit, hclosed, if_false, reduceCtorEq, or_self]
      refine ⟨?_, _, rfl, countP_sent⟩
      rw [getOutRecord_sendInterest, hrecord]
      rfl
  | some record =>
    dsimp only
    have hquiet : ((if shouldSuppress suppression now record = true then RetxSuppressionResult.SUPPRESS else .FORWARD) =
        .SUPPRESS ∨ isClosed inFace interest outFace = true) ↔
          (shouldSuppress suppression now record || isClosed inFace interest outFace) = true := by
      cases shouldSuppress suppression now record <;> simp
    by_cases hskipped : (shouldSuppress suppression now record || isClosed inFace interest outFace) = true
    · rw [if_pos (hquiet.mpr hskipped), visit, if_pos hskipped]
      refine ⟨?_, [], (List.append_nil _).symm, by simp⟩
      rw [getOutRecord_modify hface]
      split
      · rename_i heq
        rw [heq, hrecord]
        rfl
      · rfl
    · have hforward : shouldSuppress suppression now record = false := by
        cases hsuppress : shouldSuppress suppression now record with
        | false => rfl
        | true => exact absurd (by rw [hsuppress, Bool.true_or]) hskipped
      rw [if_neg (mt hquiet.mp hskipped), visit, if_neg hskipped, hforward]
      refine ⟨?_, _, rfl, countP_sent⟩
      change getOutRecord other (modifyOutRecord outFace (incrementInterval suppression) _) = _
      rw [getOutRecord_modify hincrement, getOutRecord_sendInterest, getOutRecord_modify hface,
        getOutRecord_modify hface, hrecord, if_pos rfl]
      split
      · rfl
      · rfl

/-- Toward each upstream the loop does what it does with that upstream alone. -/
theorem forwardToNextHops_spec (nexthops : List Face) (nEligibleNextHops : ℕ) (isSuppressed : Bool) (pitEntry : PitEntry σ) :
    getOutRecord other
        (forwardToNextHops suppression now inFace interest nexthops nEligibleNextHops isSuppressed pitEntry).1 =
        (visits suppression now inFace other interest (nexthops.count other) (getOutRecord other pitEntry)).1 ∧
      ∃ sent, (forwardToNextHops suppression now inFace interest nexthops nEligibleNextHops isSuppressed pitEntry).1.sent =
          pitEntry.sent ++ sent ∧
        sent.countP (isInterestTo other) =
          (visits suppression now inFace other interest (nexthops.count other) (getOutRecord other pitEntry)).2 := by
  induction nexthops generalizing nEligibleNextHops isSuppressed pitEntry with
  | nil => exact ⟨rfl, [], (List.append_nil _).symm, rfl⟩
  | cons outFace nexthops ih =>
    obtain ⟨nEligibleNextHops', isSuppressed', hcons⟩ := @forwardToNextHops_cons _ suppression now inFace outFace interest
      nexthops nEligibleNextHops isSuppressed pitEntry
    obtain ⟨hfirst, sent, hsent, hcount⟩ := @iteration_spec _ suppression now inFace outFace other interest pitEntry
    obtain ⟨hrest, sent', hsent', hcount'⟩ := ih nEligibleNextHops' isSuppressed'
      (iteration suppression now inFace interest outFace pitEntry)
    rw [hcons, hrest]
    by_cases heq : other = outFace
    · subst heq
      rw [if_pos rfl] at hfirst hcount
      rw [List.count_cons_self, visits]
      dsimp only
      rw [← hfirst]
      refine ⟨rfl, sent ++ sent', by rw [hsent', hsent, List.append_assoc], ?_⟩
      rw [List.countP_append, hcount, hcount']
    · rw [if_neg heq] at hfirst hcount
      rw [List.count_cons_of_ne (Ne.symm heq), ← hfirst]
      refine ⟨rfl, sent ++ sent', by rw [hsent', hsent, List.append_assoc], ?_⟩
      rw [List.countP_append, hcount, hcount', Nat.zero_add]

end Records

section Spacing

variable {suppression : RetxSuppressionExponential} {now : ℤ} {inFace outFace : Face} {interest : Interest σ}
variable {record record' record'' : Option OutRecord}

def InRange (suppression : RetxSuppressionExponential) (record : Option OutRecord) : Prop :=
  suppression.m_initialInterval ≤ interval suppression record ∧ interval suppression record ≤ suppression.m_maxInterval

def MaySend (suppression : RetxSuppressionExponential) (record : Option OutRecord) (time : ℤ) : Prop :=
  ∀ outRecord ∈ record, outRecord.m_lastRenewed + intervalOf suppression outRecord * 1000 ≤ time

theorem maySend_some {outRecord : OutRecord} {time : ℤ} : MaySend suppression (some outRecord) time ↔
    outRecord.m_lastRenewed + intervalOf suppression outRecord * 1000 ≤ time := by
  simp only [MaySend, Option.mem_some_iff, forall_eq']

structure Visited (suppression : RetxSuppressionExponential) (now : ℤ) (record record' : Option OutRecord) (isSent : Prop) :
    Prop where
  mono : interval suppression record ≤ interval suppression record'
  within : InRange suppression record'
  kept : ¬ isSent → interval suppression record' = interval suppression record ∧
    ∀ time, MaySend suppression record' time ↔ MaySend suppression record time
  sent : isSent → MaySend suppression record now ∧
    ∀ time, MaySend suppression record' time ↔ now + interval suppression record' * 1000 ≤ time

theorem le_durationCast {duration : ℤ} {multiplier : ℚ} (hduration : 0 ≤ duration) (hmultiplier : 1 ≤ multiplier) :
    duration ≤ durationCast (duration * multiplier) := by
  have hnonneg : (0 : ℚ) ≤ duration := Int.cast_nonneg hduration
  have hle : (duration : ℚ) ≤ duration * multiplier := le_mul_of_one_le_right hnonneg hmultiplier
  have hnum : 0 ≤ (duration * multiplier : ℚ).num := Rat.num_nonneg.mpr (hnonneg.trans hle)
  have hfloor : durationCast (duration * multiplier) = ⌊(duration * multiplier : ℚ)⌋ := by
    rw [durationCast, Int.tdiv_eq_ediv_of_nonneg hnum, Rat.floor_def']
  rw [hfloor]
  exact Int.le_floor.mpr hle

theorem Visited.skip (hrange : InRange suppression record) (hinterval : interval suppression record' = interval suppression record)
    (hkept : ∀ time, MaySend suppression record' time ↔ MaySend suppression record time) :
    Visited suppression now record record' False where
  mono := hinterval.ge
  within := by rwa [InRange, hinterval]
  kept _ := ⟨hinterval, hkept⟩
  sent hsent := absurd hsent id

theorem visit_spec (hrange : InRange suppression record) :
    Visited suppression now record (visit suppression now inFace outFace interest record).1
      ((visit suppression now inFace outFace interest record).2 = true) := by
  cases record with
  | none =>
    rw [visit]
    split
    · simpa using Visited.skip hrange rfl fun _ => Iff.rfl
    · refine ⟨le_rfl, hrange, fun hsent => absurd rfl hsent, fun _ => ⟨?_, fun time => ?_⟩⟩
      · intro outRecord houtRecord
        cases houtRecord
      · exact maySend_some
  | some outRecord =>
    rw [visit]
    split
    · have hkept (time : ℤ) : MaySend suppression (some (insertStrategyInfo suppression outRecord)) time ↔
          MaySend suppression (some outRecord) time := by
        rw [maySend_some, maySend_some]
        exact Iff.rfl
      have hinterval : interval suppression (some (insertStrategyInfo suppression outRecord)) =
          interval suppression (some outRecord) := rfl
      have hskip : Visited suppression now (some outRecord) (some (insertStrategyInfo suppression outRecord)) False :=
        Visited.skip hrange hinterval hkept
      simpa using hskip
    · rename_i hforward
      have hpositive := suppression.initial_pos
      have hgrows : intervalOf suppression outRecord ≤
          durationCast (intervalOf suppression outRecord * suppression.m_multiplier) :=
        le_durationCast (le_trans hpositive.le hrange.1) suppression.one_le_multiplier
      refine ⟨le_min hrange.2 hgrows, ⟨?_, min_le_left _ _⟩, fun hsent => absurd rfl hsent, fun _ => ⟨?_, fun time => ?_⟩⟩
      · exact le_min suppression.initial_le_max (hrange.1.trans hgrows)
      · simp only [Bool.or_eq_true, not_or, shouldSuppress, decide_eq_true_eq, not_lt] at hforward
        intro other hother
        cases hother
        omega
      · exact maySend_some

theorem Visited.sent_once {isSent isSent' : Prop} (h : Visited suppression now record record' isSent) (hsent : isSent)
    (h' : Visited suppression now record' record'' isSent') : ¬ isSent' := by
  intro hsent'
  have hpositive := suppression.initial_pos
  have hrange := h.within.1
  have htime := ((h.sent hsent).2 now).mp (h'.sent hsent').1
  omega

theorem Visited.trans {isSent isSent' : Prop} (h : Visited suppression now record record' isSent)
    (h' : Visited suppression now record' record'' isSent') : Visited suppression now record record'' (isSent ∨ isSent') where
  mono := h.mono.trans h'.mono
  within := h'.within
  kept hnot := by
    obtain ⟨hinterval, hkept⟩ := h.kept fun hsent => hnot (Or.inl hsent)
    obtain ⟨hinterval', hkept'⟩ := h'.kept fun hsent => hnot (Or.inr hsent)
    exact ⟨hinterval'.trans hinterval, fun time => (hkept' time).trans (hkept time)⟩
  sent hany := by
    rcases Classical.em isSent with hsent | hnot
    · obtain ⟨hmay, hnext⟩ := h.sent hsent
      obtain ⟨hinterval, hkept⟩ := h'.kept (h.sent_once hsent h')
      refine ⟨hmay, fun time => ?_⟩
      rw [hkept, hnext, hinterval]
    · obtain ⟨hmay, hnext⟩ := h'.sent (hany.resolve_left hnot)
      exact ⟨((h.kept hnot).2 now).mp hmay, hnext⟩

theorem visits_spec (n : ℕ) (hrange : InRange suppression record) :
    Visited suppression now record (visits suppression now inFace outFace interest n record).1
        ((visits suppression now inFace outFace interest n record).2 ≠ 0) ∧
      (visits suppression now inFace outFace interest n record).2 ≤ 1 := by
  induction n generalizing record with
  | zero =>
    refine ⟨?_, Nat.zero_le 1⟩
    have hskip : Visited suppression now record record False := Visited.skip hrange rfl fun _ => Iff.rfl
    simpa [visits] using hskip
  | succ n ih =>
    have hfirst := @visit_spec _ suppression now inFace outFace interest record hrange
    obtain ⟨hrest, hcount⟩ := ih hfirst.within
    rw [visits]
    dsimp only
    by_cases hsent : (visit suppression now inFace outFace interest record).2 = true
    · have hnone := Classical.not_not.mp (hfirst.sent_once hsent hrest)
      rw [if_pos hsent, hnone]
      refine ⟨?_, le_rfl⟩
      have htrans := hfirst.trans hrest
      rw [hnone] at htrans
      simpa [hsent] using htrans
    · rw [if_neg hsent, Nat.zero_add]
      refine ⟨?_, hcount⟩
      have htrans := hfirst.trans hrest
      simpa [hsent] using htrans

end Spacing

section Runs

variable {suppression : RetxSuppressionExponential} {outFace : Face} {pitEntry pitEntry' : PitEntry σ} {arrival : Arrival σ}

theorem sendNack_spec (inFace : Face) (reason : ℕ) (pitEntry : PitEntry σ) :
    (sendNack inFace reason pitEntry).m_outRecords = pitEntry.m_outRecords ∧
      ∃ sent, (sendNack inFace reason pitEntry).sent = pitEntry.sent ++ sent ∧ sent.countP (isInterestTo outFace) = 0 := by
  unfold sendNack
  split
  · exact ⟨rfl, [], (List.append_nil _).symm, rfl⟩
  · split
    · exact ⟨rfl, [], (List.append_nil _).symm, rfl⟩
    · split
      · exact ⟨rfl, [], (List.append_nil _).symm, rfl⟩
      · exact ⟨rfl, _, rfl, rfl⟩

theorem next_spec (outFace : Face) (pitEntry : PitEntry σ) (arrival : Arrival σ) :
    getOutRecord outFace (next suppression pitEntry arrival) =
        (visits suppression arrival.now arrival.inFace outFace arrival.interest (arrival.nexthops.count outFace)
          (getOutRecord outFace pitEntry)).1 ∧
      ((next suppression pitEntry arrival).sent.drop pitEntry.sent.length).countP (isInterestTo outFace) =
        (visits suppression arrival.now arrival.inFace outFace arrival.interest (arrival.nexthops.count outFace)
          (getOutRecord outFace pitEntry)).2 := by
  obtain ⟨hrecord, sent, hsent, hcount⟩ := @forwardToNextHops_spec _ suppression arrival.now arrival.inFace outFace
    arrival.interest arrival.nexthops 0 false pitEntry
  unfold next afterReceiveInterest
  dsimp only
  split
  · obtain ⟨hrecords, sent', hsent', hcount'⟩ := @sendNack_spec _ outFace arrival.inFace 150
      (forwardToNextHops suppression arrival.now arrival.inFace arrival.interest arrival.nexthops 0 false pitEntry).1
    refine ⟨?_, ?_⟩
    · rw [← hrecord]
      exact congrArg (List.find? _) hrecords
    · rw [← hcount, rejectPendingInterest, hsent', hsent, List.append_assoc, List.drop_left, List.countP_append, hcount',
        Nat.add_zero]
  · exact ⟨hrecord, by rw [hsent, List.drop_left, hcount]⟩

theorem forwardsTo_congr (arrivals : List (Arrival σ)) (h : getOutRecord outFace pitEntry = getOutRecord outFace pitEntry') :
    forwardsTo suppression outFace pitEntry arrivals =
      forwardsTo suppression outFace pitEntry' (arrivals.map (Arrival.alone outFace)) := by
  induction arrivals generalizing pitEntry pitEntry' with
  | nil => rfl
  | cons arrival arrivals ih =>
    obtain ⟨hrecord, hcount⟩ := @next_spec _ suppression outFace pitEntry arrival
    obtain ⟨hrecord', hcount'⟩ := @next_spec _ suppression outFace pitEntry' (arrival.alone outFace)
    have hhops : (arrival.alone outFace).nexthops.count outFace = arrival.nexthops.count outFace := by
      exact List.count_filter (by simp)
    rw [hhops, ← h] at hrecord' hcount'
    have hnext := hrecord.trans hrecord'.symm
    rw [List.map_cons, forwardsTo, forwardsTo, ih hnext, hcount, intervalTo, hnext]
    rw [← intervalTo]
    exact congrArg (· ++ _) (congrArg (List.replicate · _) hcount'.symm)

theorem next_visited (hrange : InRange suppression (getOutRecord outFace pitEntry)) :
    Visited suppression arrival.now (getOutRecord outFace pitEntry)
        (getOutRecord outFace (next suppression pitEntry arrival))
        (((next suppression pitEntry arrival).sent.drop pitEntry.sent.length).countP (isInterestTo outFace) ≠ 0) ∧
      ((next suppression pitEntry arrival).sent.drop pitEntry.sent.length).countP (isInterestTo outFace) ≤ 1 := by
  obtain ⟨hrecord, hcount⟩ := @next_spec _ suppression outFace pitEntry arrival
  rw [hrecord, hcount]
  exact visits_spec _ hrange

theorem intervalsRight (h : Within suppression pitEntry) : IntervalsRight suppression pitEntry arrival where
  mono outFace := (next_visited (h outFace)).1.mono
  within outFace := (next_visited (h outFace)).1.within

theorem maySend_of_forwardsTo (arrivals : List (Arrival σ)) (h : Within suppression pitEntry) {forward : ℤ × ℤ}
    (hforward : forward ∈ forwardsTo suppression outFace pitEntry arrivals) :
    MaySend suppression (getOutRecord outFace pitEntry) forward.1 := by
  induction arrivals generalizing pitEntry with
  | nil => exact absurd hforward List.not_mem_nil
  | cons arrival arrivals ih =>
    have hvisited := (@next_visited _ _ _ _ arrival (h outFace)).1
    have hnext : Within suppression (next suppression pitEntry arrival) := (intervalsRight h).within
    rw [forwardsTo] at hforward
    rcases List.mem_append.mp hforward with hnow | hlater
    · obtain ⟨hsent, rfl⟩ := List.mem_replicate.mp hnow
      exact (hvisited.sent hsent).1
    · have hmay := ih hnext hlater
      rcases Classical.em (((next suppression pitEntry arrival).sent.drop pitEntry.sent.length).countP
        (isInterestTo outFace) ≠ 0) with hsent | hkept
      · -- the later Interest comes after the one that is sent now
        obtain ⟨hfirst, hafter⟩ := hvisited.sent hsent
        have hpositive := suppression.initial_pos
        have hrange := (hnext outFace).1
        rw [intervalTo] at hrange
        have htime := (hafter forward.1).mp hmay
        intro outRecord houtRecord
        have hlast := hfirst outRecord houtRecord
        omega
      · exact ((hvisited.kept hkept).2 forward.1).mp hmay

theorem pairwise_forwardsTo (arrivals : List (Arrival σ)) (h : Within suppression pitEntry) :
    (forwardsTo suppression outFace pitEntry arrivals).Pairwise
      (fun first second => first.1 + first.2 * 1000 ≤ second.1) := by
  induction arrivals generalizing pitEntry with
  | nil => exact List.Pairwise.nil
  | cons arrival arrivals ih =>
    obtain ⟨hvisited, hcount⟩ := @next_visited _ _ _ _ arrival (h outFace)
    have hnext : Within suppression (next suppression pitEntry arrival) := (intervalsRight h).within
    rw [forwardsTo, List.pairwise_append]
    refine ⟨List.pairwise_replicate.mpr (Or.inl hcount), ih hnext, fun first hfirst second hsecond => ?_⟩
    obtain ⟨hsent, rfl⟩ := List.mem_replicate.mp hfirst
    exact ((hvisited.sent hsent).2 second.1).mp (maySend_of_forwardsTo arrivals hnext hsecond)

/-- Over every sequence of Interests, at whatever times they come. -/
theorem suppression_right (suppression : RetxSuppressionExponential) {pitEntry : PitEntry σ} (h : Within suppression pitEntry)
    (arrivals : List (Arrival σ)) :
    EachStep (next suppression) (IntervalsRight suppression) pitEntry arrivals ∧ ∀ outFace,
      (forwardsTo suppression outFace pitEntry arrivals).Pairwise
        (fun first second => first.1 + first.2 * 1000 ≤ second.1) ∧
      forwardsTo suppression outFace pitEntry arrivals =
        forwardsTo suppression outFace (alone outFace pitEntry) (arrivals.map (Arrival.alone outFace)) := by
  refine ⟨?_, fun outFace => ⟨pairwise_forwardsTo arrivals h, forwardsTo_congr arrivals ?_⟩⟩
  · have hkept (pitEntry : PitEntry σ) (arrival : Arrival σ) (_ : arrival ∈ arrivals) (h : Within suppression pitEntry) :
        Within suppression (next suppression pitEntry arrival) := (intervalsRight h).within
    exact EachStep.imp hkept (fun pitEntry arrival _ h _ => intervalsRight h) h (eachStep_true pitEntry arrivals)
  · rw [getOutRecord, getOutRecord, alone, List.find?_filter]
    simp

end Runs

section RetxStrategy

/-- The suppression of both strategies. -/
def retxSuppression : RetxSuppressionExponential where
  m_initialInterval := RETX_SUPPRESSION_INITIAL
  m_multiplier := 2
  m_maxInterval := RETX_SUPPRESSION_MAX
  initial_pos := by decide
  one_le_multiplier := by norm_num
  initial_le_max := by decide

def arrivalAt (now : ℤ) (nonce : ℕ) : Arrival Unit := ⟨now, alice, interestOf nonce, [bob]⟩

/-- The third Interest comes 15 ms after the second one, when the interval is 20 ms. -/
theorem suppression_right_bob :
    Within retxSuppression (⟨[], [], none, []⟩ : PitEntry Unit) ∧
      (forwardsTo retxSuppression bob ⟨[], [], none, []⟩ [arrivalAt 0 1, arrivalAt 10000000 2, arrivalAt 25000000 3]).Pairwise
        (fun first second => first.1 + first.2 * 1000 ≤ second.1) ∧
      forwardsTo retxSuppression bob ⟨[], [], none, []⟩ [arrivalAt 0 1, arrivalAt 10000000 2, arrivalAt 25000000 3] =
        [(0, 10000), (10000000, 20000)] := by
  have hwithin : Within retxSuppression (⟨[], [], none, []⟩ : PitEntry Unit) :=
    fun _ => ⟨le_rfl, retxSuppression.initial_le_max⟩
  exact ⟨hwithin, ((suppression_right retxSuppression hwithin _).2 bob).1, by decide +kernel⟩

end RetxStrategy

end LeoNdn.RetxSuppression
