import LeoNdn.ConsumerSequences

/-!
The satellite consumer, which has one Interest pending at a time: what it reports
of the sequence numbers that it requests.
-/

namespace LeoNdn.SatelliteConsumer

open LeoNdn.Runs
open LeoNdn.ConsumerSequences (SeqTimeoutsContainer uint32 uint32Max HasSeq hasSeq_insert find_isSome)

inductive Trace
  | lastRetransmittedInterestDataDelay (seq : ℕ) (delay : ℤ) (hopCount : ℕ)
  | firstInterestDataDelay (seq : ℕ) (delay : ℤ) (retxCount hopCount : ℕ)
  | lostInterest (seq : ℕ)
  deriving DecidableEq, Repr

inductive Assertion
  | notPendingInResendLastInterest
  | pendingInOnData
  | seqInOnData
  deriving DecidableEq, Repr

/-- With what has been traced, the assertions that have failed, the Interests that have been sent, the numbers that
have been requested for the first time, and the one of them that waits for its Data or for its Nack. -/
structure Consumer where
  now : ℤ
  m_active : Bool
  m_pending : Bool
  m_seq : ℕ
  m_seqMax : ℕ
  m_seqTimeouts : SeqTimeoutsContainer
  m_seqLastDelay : SeqTimeoutsContainer
  m_seqFullDelay : SeqTimeoutsContainer
  m_seqRetxCounts : ℕ → Option ℕ
  m_retxSeqs : Finset ℕ
  traces : List Trace
  failed : List Assertion
  sent : List ℕ
  requested : List ℕ
  outstanding : Option ℕ

/-- `StartSeq` is signed. -/
def Consumer.initial (startSeq : ℤ) (m_seqMax : ℕ) : Consumer where
  now := 0
  m_active := false
  m_pending := false
  m_seq := uint32 startSeq
  m_seqMax := m_seqMax
  m_seqTimeouts := []
  m_seqLastDelay := []
  m_seqFullDelay := []
  m_seqRetxCounts _ := none
  m_retxSeqs := ∅
  traces := []
  failed := []
  sent := []
  requested := []
  outstanding := none

namespace Consumer

variable (s : Consumer)

def StartApplication : Consumer := { s with m_active := true }

/-- `m_seq - 1`. -/
def lastSeq : ℕ := uint32 (s.m_seq - 1)

def lostInterest (seq : ℕ) : Consumer := { s with traces := s.traces ++ [.lostInterest seq] }

/-- The application goes on after an assertion that fails, as it does where they are not compiled. -/
def assert (condition : Bool) (assertion : Assertion) : Consumer :=
  if condition then s else { s with failed := s.failed ++ [assertion] }

def StopApplication : Consumer :=
  if s.m_pending then { s with m_active := false }.lostInterest s.m_seq else { s with m_active := false }

def WillSendOutInterest (sequenceNumber : ℕ) : Consumer :=
  { s with
    m_seqTimeouts := s.m_seqTimeouts.insert ⟨sequenceNumber, s.now⟩
    m_seqFullDelay := s.m_seqFullDelay.insert ⟨sequenceNumber, s.now⟩
    m_seqLastDelay := (s.m_seqLastDelay.erase sequenceNumber).insert ⟨sequenceNumber, s.now⟩
    m_seqRetxCounts :=
      Function.update s.m_seqRetxCounts sequenceNumber (some (uint32 ((s.m_seqRetxCounts sequenceNumber).getD 0 + 1))) }

/-- What comes back for the Interest is scheduled, so that it is not here before the end of the function. -/
def SendInterest (seq : ℕ) : Consumer :=
  let s := s.WillSendOutInterest seq
  { s with m_pending := true, sent := s.sent ++ [seq] }

def isDone : Bool := s.m_seqMax ≠ uint32Max && s.m_seq ≥ s.m_seqMax

def SendNewInterest : Consumer :=
  if s.m_active = false then s
  else if s.isDone then s
  else
    let s := if s.m_pending then s.lostInterest s.m_seq else s
    let seq := s.m_seq
    let s := { s with m_seq := uint32 (s.m_seq + 1), requested := s.requested ++ [seq], outstanding := some seq }
    s.SendInterest seq

def ResendLastInterest : Consumer :=
  if s.m_active = false then s
  else if s.m_seq = 0 then s.assert (!s.m_pending) .notPendingInResendLastInterest
  else if s.m_pending = false then s
  else s.SendInterest s.lastSeq

def traceDelays (seq hopCount : ℕ) : List Trace :=
  ((s.m_seqLastDelay.find seq).map (fun entry =>
    .lastRetransmittedInterestDataDelay seq (s.now - entry.time) hopCount)).toList ++
    ((s.m_seqFullDelay.find seq).map (fun entry =>
      .firstInterestDataDelay seq (s.now - entry.time) ((s.m_seqRetxCounts seq).getD 0) hopCount)).toList

def takeData (seq hopCount : ℕ) : Consumer :=
  { s with
    m_pending := false
    traces := s.traces ++ s.traceDelays seq hopCount
    m_seqRetxCounts := Function.update s.m_seqRetxCounts seq none
    m_seqFullDelay := s.m_seqFullDelay.erase seq
    m_seqLastDelay := s.m_seqLastDelay.erase seq
    m_seqTimeouts := s.m_seqTimeouts.erase seq
    m_retxSeqs := s.m_retxSeqs.erase seq
    outstanding := if s.outstanding = some seq then none else s.outstanding }

/-- The sequence number of the name is cut to 32 bits. -/
def OnData (number hopCount : ℕ) : Consumer :=
  if s.m_active = false then s
  else
    let seq := uint32 number
    ((s.assert s.m_pending .pendingInOnData).assert (seq = s.lastSeq) .seqInOnData).takeData seq hopCount

/-- With the number of the Interest of the Nack, which the function does not read. -/
def OnNack (number : ℕ) : Consumer :=
  let s := { s with m_pending := false, outstanding := if s.outstanding = some number then none else s.outstanding }
  s.lostInterest s.lastSeq

end Consumer

inductive Event
  | advance (duration : ℕ)
  | SendNewInterest
  | ResendLastInterest
  | OnData (number hopCount : ℕ)
  | OnNack (number : ℕ)
  deriving DecidableEq, Repr

def next (s : Consumer) : Event → Consumer
  | .advance duration => { s with now := s.now + duration }
  | .SendNewInterest => s.SendNewInterest
  | .ResendLastInterest => s.ResendLastInterest
  | .OnData number hopCount => s.OnData number hopCount
  | .OnNack number => s.OnNack number

def run (startSeq : ℤ) (m_seqMax : ℕ) (events : List Event) : Consumer :=
  (events.foldl next (Consumer.initial startSeq m_seqMax).StartApplication).StopApplication

/-- Data comes for the request that waits for it. -/
def Driven (s : Consumer) : Event → Prop
  | .OnData number _ => s.outstanding = some number
  | _ => True

/-- The number that the trace reports as answered or as lost. -/
def Trace.reports : Trace → Option ℕ
  | .lastRetransmittedInterestDataDelay _ _ _ => none
  | .firstInterestDataDelay seq _ _ _ => some seq
  | .lostInterest seq => some seq

def Consumer.reported (s : Consumer) : List ℕ := s.traces.filterMap Trace.reports

/-- Each request has its report, with its number, and there are no others. -/
structure Accounted (s : Consumer) : Prop where
  reported : s.reported = s.requested
  pending : .pendingInOnData ∉ s.failed
  seq : .seqInOnData ∉ s.failed

/-- Nothing is pending where a new Interest is sent, and something is pending where Data or a Nack comes. -/
def Expected (s : Consumer) : Event → Prop
  | .SendNewInterest => s.isDone = false → s.m_pending = false
  | .OnData _ _ => s.m_pending = true
  | .OnNack _ => s.m_pending = true
  | _ => True

def Consumer.demanded (s : Consumer) : List ℕ := s.requested ++ [s.m_seq]

section Growth

/-- Nothing that has been reported, requested or asserted is taken back. -/
structure Grows (s s' : Consumer) : Prop where
  reported : s.reported <+: s'.reported
  demanded : s.demanded <+: s'.demanded
  failed : ∀ assertion ∈ s.failed, assertion ∈ s'.failed

variable {s s' s'' : Consumer}

theorem Grows.refl (s : Consumer) : Grows s s := ⟨List.prefix_refl _, List.prefix_refl _, fun _ hmem => hmem⟩

theorem Grows.trans (h : Grows s s') (h' : Grows s' s'') : Grows s s'' :=
  ⟨h.reported.trans h'.reported, h.demanded.trans h'.demanded, fun _ hmem => h'.failed _ (h.failed _ hmem)⟩

theorem reported_lostInterest (s : Consumer) (seq : ℕ) : (s.lostInterest seq).reported = s.reported ++ [seq] := by
  simp [Consumer.reported, Consumer.lostInterest, List.filterMap_append, Trace.reports]

theorem Grows.lostInterest (s : Consumer) (seq : ℕ) : Grows s (s.lostInterest seq) := by
  refine ⟨?_, List.prefix_refl _, fun _ hmem => hmem⟩
  rw [reported_lostInterest]
  exact List.prefix_append _ _

theorem Grows.assert (s : Consumer) (condition : Bool) (assertion : Assertion) : Grows s (s.assert condition assertion) := by
  unfold Consumer.assert
  split
  · exact Grows.refl s
  · exact ⟨List.prefix_refl _, List.prefix_refl _, fun _ hmem => List.mem_append_left _ hmem⟩

theorem Grows.SendNewInterest (s : Consumer) : Grows s s.SendNewInterest := by
  have hlost : Grows s (if s.m_pending then s.lostInterest s.m_seq else s) := by
    split
    · exact Grows.lostInterest s s.m_seq
    · exact Grows.refl s
  unfold Consumer.SendNewInterest
  split
  · exact Grows.refl s
  · split
    · exact Grows.refl s
    · refine hlost.trans ⟨List.prefix_refl _, ?_, fun _ hmem => hmem⟩
      exact List.prefix_append _ _

theorem Grows.ResendLastInterest (s : Consumer) : Grows s s.ResendLastInterest := by
  unfold Consumer.ResendLastInterest
  split
  · exact Grows.refl s
  · split
    · exact Grows.assert s _ _
    · split
      · exact Grows.refl s
      · exact ⟨List.prefix_refl _, List.prefix_refl _, fun _ hmem => hmem⟩

theorem Grows.takeData (s : Consumer) (seq hopCount : ℕ) : Grows s (s.takeData seq hopCount) := by
  refine ⟨?_, List.prefix_refl _, fun _ hmem => hmem⟩
  simp only [Consumer.reported, Consumer.takeData, List.filterMap_append]
  exact List.prefix_append _ _

theorem Grows.OnData (s : Consumer) (number hopCount : ℕ) : Grows s (s.OnData number hopCount) := by
  unfold Consumer.OnData
  split
  · exact Grows.refl s
  · exact ((Grows.assert s _ _).trans (Grows.assert _ _ _)).trans (Grows.takeData _ _ _)

theorem Grows.OnNack (s : Consumer) (number : ℕ) : Grows s (s.OnNack number) :=
  ⟨(Grows.lostInterest s s.lastSeq).reported, List.prefix_refl _, fun _ hmem => hmem⟩

theorem Grows.next (s : Consumer) (event : Event) : Grows s (next s event) := by
  cases event with
  | advance duration => exact ⟨List.prefix_refl _, List.prefix_refl _, fun _ hmem => hmem⟩
  | SendNewInterest => exact Grows.SendNewInterest s
  | ResendLastInterest => exact Grows.ResendLastInterest s
  | OnData number hopCount => exact Grows.OnData s number hopCount
  | OnNack number => exact Grows.OnNack s number

theorem Grows.StopApplication (s : Consumer) : Grows s s.StopApplication := by
  unfold Consumer.StopApplication
  split
  · exact ⟨(Grows.lostInterest s s.m_seq).reported, List.prefix_refl _, fun _ hmem => hmem⟩
  · exact ⟨List.prefix_refl _, List.prefix_refl _, fun _ hmem => hmem⟩

theorem Grows.foldl (events : List Event) (s : Consumer) : Grows s (events.foldl SatelliteConsumer.next s) := by
  induction events generalizing s with
  | nil => exact Grows.refl s
  | cons event events ih => exact (Grows.next s event).trans (ih _)

structure Consistent (s : Consumer) : Prop where
  reported : s.reported <+: s.demanded ∨ s.demanded <+: s.reported
  pending : .pendingInOnData ∉ s.failed
  seq : .seqInOnData ∉ s.failed

theorem consistent_of_accounted (h : Accounted s') (hgrows : Grows s s') : Consistent s where
  reported := by
    have hreported : s.reported <+: s'.demanded := by
      refine hgrows.reported.trans ?_
      rw [h.reported]
      exact List.prefix_append _ _
    exact List.prefix_or_prefix_of_prefix hreported hgrows.demanded
  pending := fun hmem => h.pending (hgrows.failed _ hmem)
  seq := fun hmem => h.seq (hgrows.failed _ hmem)

theorem eachStep_consistent {events : List Event} (h : Accounted s') (hgrows : Grows (events.foldl next s) s') :
    EachStep next (fun s event => Consistent (next s event)) s events := by
  induction events generalizing s with
  | nil => trivial
  | cons event events ih => exact ⟨consistent_of_accounted h ((Grows.foldl events _).trans hgrows), ih hgrows⟩

end Growth

section Steps

structure Balanced (s : Consumer) : Prop where
  active : s.m_active = true
  m_seq_lt : s.m_seq < 4294967296
  reported : s.reported ++ (if s.m_pending then [s.lastSeq] else []) = s.requested
  outstanding : ∀ number, s.outstanding = some number → number = s.lastSeq ∧ HasSeq s.m_seqFullDelay number
  pending : .pendingInOnData ∉ s.failed
  seq : .seqInOnData ∉ s.failed

variable {s : Consumer} {event : Event}

theorem uint32_uint32 (number : ℤ) : uint32 (uint32 number) = uint32 number := by
  unfold uint32
  omega

theorem uint32_succ_sub_one {number : ℕ} (h : number < 4294967296) : uint32 (uint32 (number + 1) - 1) = number := by
  unfold uint32
  omega

theorem uint32_lt (number : ℤ) : uint32 number < 4294967296 := by
  unfold uint32
  omega

theorem Balanced.lastSeq_ne (h : Balanced s) : s.lastSeq ≠ s.m_seq := by
  have hlt := h.m_seq_lt
  unfold Consumer.lastSeq uint32
  omega

theorem reported_takeData {seq : ℕ} (hopCount : ℕ) (h : HasSeq s.m_seqFullDelay seq) :
    (s.takeData seq hopCount).reported = s.reported ++ [seq] := by
  obtain ⟨entry, hentry⟩ := Option.isSome_iff_exists.mp (find_isSome.mpr h)
  have hlast : ((s.m_seqLastDelay.find seq).map (fun entry =>
      Trace.lastRetransmittedInterestDataDelay seq (s.now - entry.time) hopCount)).toList.filterMap Trace.reports = [] := by
    cases s.m_seqLastDelay.find seq <;> rfl
  simp [Consumer.reported, Consumer.takeData, Consumer.traceDelays, List.filterMap_append, hentry, hlast, Trace.reports]

theorem assert_of_true {condition : Bool} (h : condition = true) (assertion : Assertion) :
    s.assert condition assertion = s :=
  if_pos h

theorem Balanced.SendInterest (h : Balanced s) (hpending : s.m_pending = true) : Balanced (s.SendInterest s.lastSeq) where
  active := h.active
  m_seq_lt := h.m_seq_lt
  reported := by
    have hreported := h.reported
    rw [hpending] at hreported
    exact hreported
  outstanding number hnumber := by
    obtain ⟨hlast, hseq⟩ := h.outstanding number hnumber
    exact ⟨hlast, hasSeq_insert.mpr (Or.inr hseq)⟩
  pending := h.pending
  seq := h.seq

theorem Balanced.ResendLastInterest (h : Balanced s) : Balanced s.ResendLastInterest := by
  unfold Consumer.ResendLastInterest
  rw [if_neg (by simp [h.active])]
  split
  · unfold Consumer.assert
    split
    · exact h
    · refine ⟨h.active, h.m_seq_lt, h.reported, h.outstanding, ?_, ?_⟩
      · simp [h.pending]
      · simp [h.seq]
  · split
    · exact h
    · rename_i hpending
      exact h.SendInterest (by simpa using hpending)

structure Sends (s s' : Consumer) : Prop where
  m_active : s'.m_active = s.m_active
  m_seq : s'.m_seq = uint32 (s.m_seq + 1)
  m_pending : s'.m_pending = true
  m_seqFullDelay : s'.m_seqFullDelay = s.m_seqFullDelay.insert ⟨s.m_seq, s.now⟩
  reported : s'.reported = s.reported ++ (if s.m_pending then [s.m_seq] else [])
  failed : s'.failed = s.failed
  requested : s'.requested = s.requested ++ [s.m_seq]
  outstanding : s'.outstanding = some s.m_seq

theorem SendNewInterest_sends (hactive : s.m_active = true) (hdone : s.isDone = false) : Sends s s.SendNewInterest := by
  unfold Consumer.SendNewInterest
  rw [if_neg (by simp [hactive]), if_neg (by simp [hdone])]
  by_cases hpending : s.m_pending = true
  · rw [if_pos hpending]
    refine ⟨rfl, rfl, rfl, rfl, ?_, rfl, rfl, rfl⟩
    rw [if_pos hpending]
    exact reported_lostInterest s s.m_seq
  · rw [if_neg hpending]
    refine ⟨rfl, rfl, rfl, rfl, ?_, rfl, rfl, rfl⟩
    rw [if_neg hpending]
    exact (List.append_nil _).symm

theorem Sends.lastSeq {s' : Consumer} (h : Sends s s') (hlt : s.m_seq < 4294967296) : s'.lastSeq = s.m_seq := by
  rw [Consumer.lastSeq, h.m_seq, uint32_succ_sub_one hlt]

theorem Balanced.SendNewInterest (h : Balanced s) (hexpected : s.isDone = false → s.m_pending = false) :
    Balanced s.SendNewInterest := by
  by_cases hdone : s.isDone = true
  · rw [Consumer.SendNewInterest, if_neg (by simp [h.active]), if_pos hdone]
    exact h
  · have hsends := SendNewInterest_sends h.active (by simpa using hdone)
    have hlast := hsends.lastSeq h.m_seq_lt
    have hpending := hexpected (by simpa using hdone)
    have hreported := h.reported
    rw [hpending, if_neg (by simp), List.append_nil] at hreported
    exact
      { active := by rw [hsends.m_active, h.active]
        m_seq_lt := by
          rw [hsends.m_seq]
          exact uint32_lt _
        reported := by
          rw [hsends.m_pending, if_pos rfl, hsends.reported, hpending, if_neg (by simp), List.append_nil, hlast,
            hsends.requested, hreported]
        outstanding := by
          intro number hnumber
          rw [hsends.outstanding] at hnumber
          cases hnumber
          refine ⟨hlast.symm, ?_⟩
          rw [hsends.m_seqFullDelay]
          exact hasSeq_insert.mpr (Or.inl rfl)
        pending := by
          rw [hsends.failed]
          exact h.pending
        seq := by
          rw [hsends.failed]
          exact h.seq }

theorem Balanced.OnData (h : Balanced s) {number : ℕ} (hopCount : ℕ) (hnumber : s.outstanding = some number)
    (hpending : s.m_pending = true) : Balanced (s.OnData number hopCount) := by
  obtain ⟨rfl, hseq⟩ := h.outstanding number hnumber
  have hlast : uint32 s.lastSeq = s.lastSeq := uint32_uint32 _
  have hreported := h.reported
  rw [hpending, if_pos rfl] at hreported
  unfold Consumer.OnData
  rw [if_neg (by simp [h.active]), assert_of_true hpending, hlast]
  dsimp only
  rw [assert_of_true (by simp)]
  refine ⟨h.active, h.m_seq_lt, ?_, ?_, h.pending, h.seq⟩
  · rw [reported_takeData hopCount hseq]
    exact (List.append_nil _).trans hreported
  · intro other hother
    simp [Consumer.takeData, hnumber] at hother

theorem Balanced.OnNack (h : Balanced s) (number : ℕ) (hpending : s.m_pending = true) : Balanced (s.OnNack number) := by
  have hreported := h.reported
  rw [hpending, if_pos rfl] at hreported
  refine ⟨h.active, h.m_seq_lt, ?_, ?_, h.pending, h.seq⟩
  · rw [Consumer.OnNack, reported_lostInterest]
    exact (List.append_nil _).trans hreported
  · intro other hother
    simp only [Consumer.OnNack, Consumer.lostInterest] at hother
    split at hother
    · cases hother
    · exact h.outstanding other hother

theorem Balanced.next (h : Balanced s) (hdriven : Driven s event) (hexpected : Expected s event) :
    Balanced (next s event) := by
  cases event with
  | advance duration => exact ⟨h.active, h.m_seq_lt, h.reported, h.outstanding, h.pending, h.seq⟩
  | SendNewInterest => exact h.SendNewInterest hexpected
  | ResendLastInterest => exact h.ResendLastInterest
  | OnData number hopCount => exact h.OnData hopCount hdriven hexpected
  | OnNack number => exact h.OnNack number hexpected

theorem Balanced.consistent (h : Balanced s) : Consistent s where
  reported := by
    refine Or.inl ?_
    rw [Consumer.demanded, ← h.reported, List.append_assoc]
    exact List.prefix_append _ _
  pending := h.pending
  seq := h.seq

theorem append_singleton_ne {l m : List ℕ} {a b : ℕ} (hne : a ≠ b) : ¬ (l ++ [a] <+: l ++ b :: m ∨ l ++ b :: m <+: l ++ [a]) := by
  simp only [List.prefix_append_right_inj]
  rintro (hleft | hright)
  · exact hne (List.cons_prefix_cons.mp hleft).1
  · exact hne (List.cons_prefix_cons.mp hright).1.symm

theorem SendNewInterest_pending (h : Balanced s) (hdone : s.isDone = false) (hpending : s.m_pending = true) :
    ¬ Consistent s.SendNewInterest := by
  intro hconsistent
  have hsends := SendNewInterest_sends h.active hdone
  have hreported := h.reported
  rw [hpending, if_pos rfl] at hreported
  have hboth := hconsistent.reported
  rw [Consumer.demanded, hsends.reported, hpending, if_pos rfl, hsends.requested, ← hreported, List.append_assoc,
    List.append_assoc] at hboth
  exact append_singleton_ne h.lastSeq_ne.symm hboth

theorem reported_OnNack (s : Consumer) (number : ℕ) : (s.OnNack number).reported = s.reported ++ [s.lastSeq] :=
  reported_lostInterest _ _

theorem OnNack_notPending (h : Balanced s) (number : ℕ) (hpending : s.m_pending = false) : ¬ Consistent (s.OnNack number) := by
  intro hconsistent
  have hreported := h.reported
  rw [hpending, if_neg (by simp), List.append_nil] at hreported
  have hdemanded : (s.OnNack number).demanded = s.reported ++ [s.m_seq] := by
    rw [hreported]
    rfl
  have hboth := hconsistent.reported
  rw [reported_OnNack, hdemanded] at hboth
  exact append_singleton_ne h.lastSeq_ne hboth

theorem OnData_notPending (h : Balanced s) (number hopCount : ℕ) (hpending : s.m_pending = false) :
    ¬ Consistent (s.OnData number hopCount) := by
  intro hconsistent
  have hfailed : .pendingInOnData ∈ (s.assert s.m_pending .pendingInOnData).failed := by
    simp [Consumer.assert, hpending]
  refine hconsistent.pending ?_
  rw [Consumer.OnData, if_neg (by simp [h.active])]
  exact (Grows.takeData _ _ _).failed _ ((Grows.assert _ _ _).failed _ hfailed)

theorem consistent_iff (h : Balanced s) (hdriven : Driven s event) :
    Consistent (SatelliteConsumer.next s event) ↔ Expected s event := by
  constructor
  · intro hconsistent
    cases event with
    | advance duration => trivial
    | SendNewInterest =>
      intro hdone
      by_contra hpending
      exact SendNewInterest_pending h hdone (Bool.not_eq_false _ ▸ hpending) hconsistent
    | ResendLastInterest => trivial
    | OnData number hopCount =>
      by_contra hpending
      exact OnData_notPending h number hopCount (Bool.eq_false_iff.mpr hpending) hconsistent
    | OnNack number =>
      by_contra hpending
      exact OnNack_notPending h number (Bool.eq_false_iff.mpr hpending) hconsistent
  · exact fun hexpected => (h.next hdriven hexpected).consistent

theorem accounted_stop_iff (h : Balanced s) : Accounted s.StopApplication ↔ s.m_pending = false := by
  have hreported := h.reported
  constructor
  · intro haccounted
    by_contra hnot
    have hpending : s.m_pending = true := by simpa using hnot
    rw [hpending, if_pos rfl] at hreported
    have hafter : s.StopApplication.reported = s.reported ++ [s.m_seq] := by
      rw [Consumer.StopApplication, if_pos hpending]
      exact reported_lostInterest _ _
    have hrequested : s.StopApplication.requested = s.reported ++ [s.lastSeq] := by
      rw [Consumer.StopApplication, if_pos hpending, hreported]
      rfl
    have hsame := haccounted.reported
    rw [hafter, hrequested] at hsame
    exact h.lastSeq_ne.symm (List.singleton_inj.mp (List.append_cancel_left hsame))
  · intro hpending
    rw [hpending, if_neg (by simp), List.append_nil] at hreported
    rw [Consumer.StopApplication, if_neg (by simp [hpending])]
    exact ⟨hreported, h.pending, h.seq⟩

end Steps

section Runs

variable {s : Consumer} {events : List Event}

theorem balanced_foldl (h : Balanced s) (hdriven : EachStep next Driven s events)
    (hexpected : EachStep next Expected s events) : Balanced (events.foldl next s) := by
  induction events generalizing s with
  | nil => exact h
  | cons event events ih => exact ih (h.next hdriven.1 hexpected.1) hdriven.2 hexpected.2

theorem accounted_foldl_iff (h : Balanced s) (hdriven : EachStep next Driven s events) :
    Accounted (events.foldl next s).StopApplication ↔
      EachStep next Expected s events ∧ (events.foldl next s).m_pending = false := by
  have hstep (s : Consumer) (event : Event) (hbalanced : Balanced s) (hdriven : Driven s event)
      (hconsistent : Consistent (next s event)) : Balanced (next s event) :=
    hbalanced.next hdriven ((consistent_iff hbalanced hdriven).mp hconsistent)
  have hiff := eachStep_iff hstep (fun s event hbalanced hdriven => consistent_iff hbalanced hdriven) h hdriven
  constructor
  · intro haccounted
    have hexpected := hiff.mp (eachStep_consistent haccounted (Grows.StopApplication _))
    exact ⟨hexpected, (accounted_stop_iff (balanced_foldl h hdriven hexpected)).mp haccounted⟩
  · rintro ⟨hexpected, hpending⟩
    exact (accounted_stop_iff (balanced_foldl h hdriven hexpected)).mpr hpending

theorem initial_balanced (startSeq : ℤ) (m_seqMax : ℕ) :
    Balanced (Consumer.initial startSeq m_seqMax).StartApplication where
  active := rfl
  m_seq_lt := uint32_lt startSeq
  reported := rfl
  outstanding number hnumber := by cases hnumber
  pending := List.not_mem_nil
  seq := List.not_mem_nil

/-- The numbers are requested one after the other, and after the greatest again from 0. -/
structure Numbered (startSeq : ℤ) (s : Consumer) : Prop where
  requested : s.requested = (List.range s.requested.length).map (fun k : ℕ => uint32 (startSeq + k))
  m_seq : s.m_seq = uint32 (startSeq + s.requested.length)

variable {startSeq : ℤ}

theorem Numbered.of_same {s' : Consumer} (h : Numbered startSeq s) (hrequested : s'.requested = s.requested)
    (hseq : s'.m_seq = s.m_seq) : Numbered startSeq s' := by
  refine ⟨?_, ?_⟩
  · rw [hrequested]
    exact h.requested
  · rw [hseq, hrequested]
    exact h.m_seq

theorem Numbered.of_sends {s' : Consumer} (h : Numbered startSeq s) (hsends : Sends s s') : Numbered startSeq s' := by
  have hlength : s'.requested.length = s.requested.length + 1 := by rw [hsends.requested, List.length_append, List.length_singleton]
  refine ⟨?_, ?_⟩
  · rw [hlength, List.range_succ, List.map_append, ← h.requested, hsends.requested, h.m_seq]
    rfl
  · rw [hsends.m_seq, hlength, h.m_seq]
    unfold uint32
    omega

theorem assert_same (s : Consumer) (condition : Bool) (assertion : Assertion) :
    (s.assert condition assertion).requested = s.requested ∧ (s.assert condition assertion).m_seq = s.m_seq := by
  unfold Consumer.assert
  split <;> exact ⟨rfl, rfl⟩

theorem Numbered.next (h : Numbered startSeq s) (event : Event) : Numbered startSeq (next s event) := by
  cases event with
  | advance duration => exact h.of_same rfl rfl
  | SendNewInterest =>
    by_cases hactive : s.m_active = true
    · by_cases hdone : s.isDone = true
      · rw [SatelliteConsumer.next, Consumer.SendNewInterest, if_neg (by simp [hactive]), if_pos hdone]
        exact h
      · exact h.of_sends (SendNewInterest_sends hactive (by simpa using hdone))
    · rw [SatelliteConsumer.next, Consumer.SendNewInterest, if_pos (by simpa using hactive)]
      exact h
  | ResendLastInterest =>
    have hsame := assert_same s (!s.m_pending) .notPendingInResendLastInterest
    simp only [SatelliteConsumer.next, Consumer.ResendLastInterest]
    split
    · exact h
    · split
      · exact h.of_same hsame.1 hsame.2
      · split
        · exact h
        · exact h.of_same rfl rfl
  | OnData number hopCount =>
    simp only [SatelliteConsumer.next, Consumer.OnData]
    split
    · exact h
    · refine h.of_same ?_ ?_
      · exact (assert_same _ _ _).1.trans (assert_same _ _ _).1
      · exact (assert_same _ _ _).2.trans (assert_same _ _ _).2
  | OnNack number => exact h.of_same rfl rfl

theorem Numbered.foldl (h : Numbered startSeq s) (events : List Event) :
    Numbered startSeq (events.foldl SatelliteConsumer.next s) := by
  induction events generalizing s with
  | nil => exact h
  | cons event events ih => exact ih (h.next event)

theorem Numbered.nodup (h : Numbered startSeq s) (hlength : s.requested.length ≤ 4294967296) : s.requested.Nodup := by
  rw [h.requested]
  refine List.Nodup.map_on ?_ List.nodup_range
  intro k hk k' hk' heq
  rw [List.mem_range] at hk hk'
  unfold uint32 at heq
  omega

theorem run_numbered (startSeq : ℤ) (m_seqMax : ℕ) (events : List Event) : Numbered startSeq (run startSeq m_seqMax events) := by
  have hinitial : Numbered startSeq (Consumer.initial startSeq m_seqMax).StartApplication :=
    ⟨rfl, congrArg uint32 (add_zero startSeq).symm⟩
  have hlast := hinitial.foldl events
  unfold run Consumer.StopApplication
  split
  · exact hlast.of_same rfl rfl
  · exact hlast.of_same rfl rfl

theorem Accounted.count {m_seqMax : ℕ} (h : Accounted (run startSeq m_seqMax events))
    (hlength : (run startSeq m_seqMax events).requested.length ≤ 4294967296) :
    ∀ number ∈ (run startSeq m_seqMax events).requested, (run startSeq m_seqMax events).reported.count number = 1 := by
  intro number hnumber
  rw [h.reported]
  exact List.count_eq_one_of_mem ((run_numbered startSeq m_seqMax events).nodup hlength) hnumber

end Runs

/-- Each request is reported once, with its number, and no assertion of `OnData` fails, if and only if no new Interest
is sent and the application does not end while a request is pending, and no Nack and no Data comes while none is. -/
theorem requests_reported_iff (startSeq : ℤ) (m_seqMax : ℕ) (events : List Event)
    (hdriven : EachStep next Driven (Consumer.initial startSeq m_seqMax).StartApplication events) :
    Accounted (run startSeq m_seqMax events) ↔
      EachStep next Expected (Consumer.initial startSeq m_seqMax).StartApplication events ∧
        (events.foldl next (Consumer.initial startSeq m_seqMax).StartApplication).m_pending = false :=
  accounted_foldl_iff (initial_balanced startSeq m_seqMax) hdriven

def aliceEvents : List Event := [.SendNewInterest, .advance 30, .OnData 4294967295 4, .SendNewInterest, .OnNack 0]

/-- The first request is answered; the second, whose number is 0 again, gets a Nack. -/
theorem requests_reported_iff_alice : (run 4294967295 uint32Max aliceEvents).requested = [4294967295, 0] ∧
    (run 4294967295 uint32Max aliceEvents).reported = [4294967295, 0] ∧ Accounted (run 4294967295 uint32Max aliceEvents) := by
  refine ⟨by decide, by decide, (requests_reported_iff 4294967295 uint32Max aliceEvents ?_).mpr ⟨?_, rfl⟩⟩
  · exact ⟨trivial, trivial, rfl, trivial, trivial, trivial⟩
  · exact ⟨fun _ => rfl, trivial, rfl, fun _ => rfl, rfl, trivial⟩

/-- The second Interest is sent and the application ends without any Data. -/
theorem not_accounted_carol :
    EachStep next Driven (Consumer.initial 0 uint32Max).StartApplication [.SendNewInterest, .SendNewInterest] ∧
    (run 0 uint32Max [.SendNewInterest, .SendNewInterest]).requested = [0, 1] ∧
    (run 0 uint32Max [.SendNewInterest, .SendNewInterest]).traces = [.lostInterest 1, .lostInterest 2] ∧
    ¬ Accounted (run 0 uint32Max [.SendNewInterest, .SendNewInterest]) := by
  refine ⟨⟨trivial, trivial, trivial⟩, by decide, by decide, ?_⟩
  intro haccounted
  exact absurd haccounted.reported (by decide)

end LeoNdn.SatelliteConsumer
