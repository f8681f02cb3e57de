import LeoNdn.ConsumerSequences
import LeoNdn.Schedulers

/-!
The consumer that sends Interests at a fixed rate while it is not paused: its
send events in the queue of the simulator, and the Interests between them.
-/

namespace LeoNdn.CbrConsumer

open LeoNdn.Runs LeoNdn.Schedulers
open LeoNdn.ConsumerSequences (Consumer)

inductive Entry
  | paused
  | resumed
  | sent (time : ℤ)
  deriving DecidableEq, Repr

/-- With the send events that are pending in the simulator, and a log of the calls
of `Pause` and `Resume` and of the Interests that are sent. -/
structure ConsumerCbr where
  consumer : Consumer
  m_firstTime : Bool
  m_pause : Bool
  m_sendEvent : Option ℕ
  simulator : Scheduler Unit
  log : List Entry

namespace ConsumerCbr

def initial (startSeq : ℤ) (m_seqMax : ℕ) : ConsumerCbr :=
  ⟨Consumer.initial startSeq m_seqMax, true, true, none, Scheduler.empty, []⟩

variable (period : ℕ) (s : ConsumerCbr)

/-- `m_sendEvent.IsRunning()`: an event that is executed is no longer pending. -/
def isRunning : Bool := s.simulator.m_queue.any (fun info => s.m_sendEvent = some info.id)

def schedule (after : ℤ) : ConsumerCbr :=
  { s with
    simulator := s.simulator.scheduleEvent s.consumer.now after ()
    m_sendEvent := some s.simulator.nextId }

/-- The period is that of the frequency, and there is no randomization. -/
def ScheduleNextPacket : ConsumerCbr :=
  if s.m_pause then s
  else if s.m_firstTime then { s.schedule 0 with m_firstTime := false }
  else if s.isRunning then s
  else s.schedule period

/-- It returns early where no Interest is sent. -/
def SendPacket : ConsumerCbr :=
  let consumer := s.consumer.sendPacket
  if consumer.sent = s.consumer.sent then { s with consumer := consumer }
  else ScheduleNextPacket period { s with consumer := consumer, log := s.log ++ [.sent s.consumer.now] }

def Pause : ConsumerCbr := { s with m_pause := true, log := s.log ++ [.paused] }

def Resume : ConsumerCbr := ScheduleNextPacket period { s with m_pause := false, log := s.log ++ [.resumed] }

def StartApplication : ConsumerCbr :=
  ScheduleNextPacket period { s with consumer := { s.consumer with m_active := true } }

def StopApplication : ConsumerCbr :=
  { s with
    consumer := { s.consumer with m_active := false }
    simulator := s.simulator.cancel s.m_sendEvent }

/-- `OnTimeout` for each number that has timed out. -/
def CheckRetxTimeout (rto : ℤ) : ConsumerCbr :=
  let consumer := s.consumer.checkRetxTimeout rto
  (ScheduleNextPacket period)^[s.consumer.m_seqTimeouts.length - consumer.m_seqTimeouts.length]
    { s with consumer := consumer }

end ConsumerCbr

inductive Event
  | advance (duration : ℕ)
  | startApplication
  | stopApplication
  | pause
  | resume
  | fire
  | onData (number hopCount : ℕ)
  | checkRetxTimeout (rto : ℤ)
  deriving DecidableEq, Repr

/-- Time does not pass an event that is pending. -/
def step (period : ℕ) (s : ConsumerCbr) : Event → Option ConsumerCbr
  | .advance duration =>
    if ∀ info ∈ s.simulator.m_queue, s.consumer.now + duration ≤ info.expireTime then
      some { s with consumer := { s.consumer with now := s.consumer.now + duration } }
    else none
  | .startApplication => some (s.StartApplication period)
  | .stopApplication => some s.StopApplication
  | .pause => some s.Pause
  | .resume => some (s.Resume period)
  | .fire =>
    (s.simulator.popExpired s.consumer.now).map fun popped =>
      ConsumerCbr.SendPacket period { s with simulator := popped.2 }
  | .onData number hopCount => some { s with consumer := s.consumer.onData number hopCount }
  | .checkRetxTimeout rto => some (s.CheckRetxTimeout period rto)

def sendTimes (log : List Entry) : List ℤ :=
  log.filterMap fun entry => match entry with
    | .sent time => some time
    | _ => none

/-- At most one Interest between a call of `Pause` and the next one of `Resume`. -/
def AtMostOnePaused (log : List Entry) : Prop :=
  ∀ before mid after, log = before ++ .paused :: (mid ++ after) → .resumed ∉ mid → (sendTimes mid).length ≤ 1

section Logs

variable {log before mid : List Entry} {entry : Entry}

theorem sendTimes_sent (log : List Entry) (time : ℤ) : sendTimes (log ++ [.sent time]) = sendTimes log ++ [time] :=
  List.filterMap_append

theorem sendTimes_paused (log : List Entry) : sendTimes (log ++ [.paused]) = sendTimes log := by
  rw [sendTimes, List.filterMap_append]
  exact List.append_nil _

theorem sendTimes_resumed (log : List Entry) : sendTimes (log ++ [.resumed]) = sendTimes log := by
  rw [sendTimes, List.filterMap_append]
  exact List.append_nil _

theorem concat_eq (h : log ++ [entry] = before ++ .paused :: mid) :
    (mid = [] ∧ entry = .paused ∧ log = before) ∨ ∃ mid', mid = mid' ++ [entry] ∧ log = before ++ .paused :: mid' := by
  rcases List.eq_nil_or_concat mid with rfl | ⟨mid', last, rfl⟩
  · obtain ⟨hlog, hentry⟩ := List.append_inj' h rfl
    exact Or.inl ⟨rfl, (List.cons.inj hentry).1, hlog⟩
  · rw [List.concat_eq_append, ← List.cons_append, ← List.append_assoc] at h
    obtain ⟨hlog, hentry⟩ := List.append_inj' h rfl
    obtain rfl := (List.cons.inj hentry).1
    exact Or.inr ⟨mid', List.concat_eq_append, hlog⟩

theorem AtMostOnePaused.concat (h : AtMostOnePaused log)
    (hlast : ∀ before mid, log ++ [entry] = before ++ .paused :: mid → .resumed ∉ mid → (sendTimes mid).length ≤ 1) :
    AtMostOnePaused (log ++ [entry]) := by
  intro before mid after heq hmid
  rcases List.eq_nil_or_concat after with rfl | ⟨after', last, rfl⟩
  · rw [List.append_nil] at heq
    exact hlast before mid heq hmid
  · rw [List.concat_eq_append, ← List.append_assoc, ← List.cons_append, ← List.append_assoc] at heq
    exact h before mid after' (List.append_inj' heq rfl).1 hmid

end Logs

structure Paced (period : ℕ) (s : ConsumerCbr) : Prop where
  wellFormed : s.simulator.WellFormed
  pending : s.simulator.m_queue = [] ∨ ∃ info, s.simulator.m_queue = [info] ∧ s.m_sendEvent = some info.id ∧
    s.m_firstTime = false ∧ s.consumer.now ≤ info.expireTime ∧ ∀ time ∈ sendTimes s.log, time + period ≤ info.expireTime
  first : s.m_firstTime = true → sendTimes s.log = []
  past : ∀ time ∈ sendTimes s.log, time ≤ s.consumer.now
  spaced : (sendTimes s.log).Pairwise (fun time time' : ℤ => time + period ≤ time')
  once : AtMostOnePaused s.log
  /-- Since the last call of `Pause`, where none of `Resume` has followed it. -/
  since : ∀ before mid, s.log = before ++ .paused :: mid → .resumed ∉ mid →
    s.m_pause = true ∧ (sendTimes mid).length + s.simulator.m_queue.length ≤ 1

section Steps

variable {period : ℕ} {s s' : ConsumerCbr}

theorem Paced.initial (startSeq : ℤ) (m_seqMax : ℕ) : Paced period (ConsumerCbr.initial startSeq m_seqMax) := by
  have hempty : ∀ (before mid : List Entry), [] ≠ before ++ .paused :: mid :=
    fun before mid h => List.cons_ne_nil _ _ (List.append_eq_nil_iff.mp h.symm).2
  refine ⟨Scheduler.WellFormed.empty, Or.inl rfl, fun _ => rfl, fun _ hmem => (nomatch hmem), List.Pairwise.nil, ?_, ?_⟩
  · exact fun before mid after h => absurd h (hempty before (mid ++ after))
  · exact fun before mid h => absurd h (hempty before mid)

theorem Paced.withConsumer (h : Paced period s) {consumer : Consumer} (hnow : consumer.now = s.consumer.now) :
    Paced period { s with consumer := consumer } := by
  refine ⟨h.wellFormed, ?_, h.first, ?_, h.spaced, h.once, h.since⟩
  · rw [hnow]
    exact h.pending
  · rw [hnow]
    exact h.past

theorem Paced.isRunning (h : Paced period s) (hidle : s.isRunning = false) : s.simulator.m_queue = [] := by
  rcases h.pending with hnil | ⟨info, hqueue, hid, -⟩
  · exact hnil
  · rw [ConsumerCbr.isRunning, hqueue, List.any_cons, hid] at hidle
    simp at hidle

theorem Paced.schedule (h : Paced period s) (hqueue : s.simulator.m_queue = []) (hpause : s.m_pause = false)
    {after : ℤ} (hafter : 0 ≤ after) (hsends : ∀ time ∈ sendTimes s.log, time + period ≤ s.consumer.now + after) :
    Paced period { s.schedule after with m_firstTime := false } := by
  refine ⟨h.wellFormed.scheduleEvent _ _ _, Or.inr ?_, fun hfirst => (nomatch hfirst), h.past, h.spaced, h.once, ?_⟩
  · refine ⟨⟨s.simulator.nextId, s.consumer.now + after, ()⟩, ?_, rfl, rfl, ?_, hsends⟩
    · simp only [ConsumerCbr.schedule, Scheduler.scheduleEvent, hqueue, insertEvent]
    · show s.consumer.now ≤ s.consumer.now + after
      omega
  · intro before mid hlog hmid
    have hpaused := (h.since before mid hlog hmid).1
    rw [hpause] at hpaused
    cases hpaused

theorem Paced.scheduleNextPacket (h : Paced period s) : Paced period (s.ScheduleNextPacket period) := by
  rw [ConsumerCbr.ScheduleNextPacket]
  split
  · exact h
  · rename_i hpause
    rw [Bool.not_eq_true] at hpause
    split
    · rename_i hfirst
      have hnone := h.first hfirst
      have hqueue : s.simulator.m_queue = [] := by
        refine h.pending.resolve_right ?_
        rintro ⟨info, -, -, hfirst', -⟩
        rw [hfirst] at hfirst'
        cases hfirst'
      exact h.schedule hqueue hpause le_rfl fun time hmem => by rw [hnone] at hmem; cases hmem
    · split
      · exact h
      · rename_i hfirst hidle
        rw [Bool.not_eq_true] at hfirst hidle
        have hscheduled := h.schedule (h.isRunning hidle) hpause (Int.natCast_nonneg period)
          fun time hmem => by have := h.past time hmem; omega
        have heq : { s.schedule period with m_firstTime := false } = s.schedule period := by
          rw [← hfirst]
          rfl
        rwa [heq] at hscheduled

theorem Paced.iterate (h : Paced period s) (n : ℕ) : Paced period ((ConsumerCbr.ScheduleNextPacket period)^[n] s) := by
  induction n generalizing s with
  | zero => exact h
  | succ n ih => exact ih h.scheduleNextPacket

theorem Paced.queue_le (h : Paced period s) : s.simulator.m_queue.length ≤ 1 := by
  rcases h.pending with hnil | ⟨info, hone, -⟩
  · rw [hnil]
    exact Nat.zero_le 1
  · rw [hone]
    exact Nat.le_refl 1

theorem Paced.pause (h : Paced period s) : Paced period s.Pause := by
  have hsends := sendTimes_paused s.log
  have hsince : ∀ before mid, s.log ++ [.paused] = before ++ .paused :: mid → .resumed ∉ mid →
      (sendTimes mid).length + s.simulator.m_queue.length ≤ 1 := by
    intro before mid hlog hmid
    rcases concat_eq hlog with ⟨rfl, -, -⟩ | ⟨mid', rfl, hlog'⟩
    · exact (Nat.zero_add _).trans_le h.queue_le
    · rw [sendTimes_paused]
      exact (h.since before mid' hlog' fun hmem => hmid (List.mem_append_left _ hmem)).2
  refine ⟨h.wellFormed, ?_, ?_, ?_, ?_, h.once.concat ?_, fun before mid hlog hmid =>
    ⟨rfl, hsince before mid hlog hmid⟩⟩
  · simp only [ConsumerCbr.Pause, hsends]
    exact h.pending
  · simp only [ConsumerCbr.Pause, hsends]
    exact h.first
  · simp only [ConsumerCbr.Pause, hsends]
    exact h.past
  · simp only [ConsumerCbr.Pause, hsends]
    exact h.spaced
  · intro before mid hlog hmid
    have hboth := hsince before mid hlog hmid
    omega

theorem Paced.resume (h : Paced period s) : Paced period (s.Resume period) := by
  have hsends := sendTimes_resumed s.log
  have hnone : ∀ before mid, s.log ++ [.resumed] = before ++ .paused :: mid → .resumed ∈ mid := by
    intro before mid hlog
    rcases concat_eq hlog with ⟨-, hentry, -⟩ | ⟨mid', rfl, -⟩
    · cases hentry
    · exact List.mem_append_right _ List.mem_cons_self
  refine Paced.scheduleNextPacket ⟨h.wellFormed, ?_, ?_, ?_, ?_, h.once.concat ?_, ?_⟩
  · simp only [hsends]
    exact h.pending
  · simp only [hsends]
    exact h.first
  · simp only [hsends]
    exact h.past
  · simp only [hsends]
    exact h.spaced
  · exact fun before mid hlog hmid => absurd (hnone before mid hlog) hmid
  · exact fun before mid hlog hmid => absurd (hnone before mid hlog) hmid

theorem Paced.stopApplication (h : Paced period s) : Paced period s.StopApplication := by
  have hqueue : (s.simulator.cancel s.m_sendEvent).m_queue = [] := by
    rcases h.pending with hnil | ⟨info, hone, hid, -⟩
    · rw [Scheduler.cancel, hnil]
      rfl
    · rw [Scheduler.cancel, hone, hid]
      simp
  refine ⟨h.wellFormed.cancel _, Or.inl hqueue, h.first, h.past, h.spaced, h.once, fun before mid hlog hmid => ?_⟩
  obtain ⟨hpaused, hsends⟩ := h.since before mid hlog hmid
  refine ⟨hpaused, ?_⟩
  simp only [ConsumerCbr.StopApplication, hqueue, List.length_nil]
  omega

theorem sendPacket_now (consumer : Consumer) : consumer.sendPacket.now = consumer.now := by
  unfold Consumer.sendPacket
  split
  · rfl
  · split
    · unfold Consumer.sendNew
      split <;> rfl
    · dsimp only
      split
      · unfold Consumer.sendNew
        split <;> rfl
      · rfl

theorem onData_now (consumer : Consumer) (number hopCount : ℕ) :
    (consumer.onData number hopCount).now = consumer.now := by
  unfold Consumer.onData
  split <;> rfl

theorem Paced.popped (h : Paced period s) {info : EventInfo Unit} {rest : Scheduler Unit}
    (hpop : s.simulator.popExpired s.consumer.now = some (info, rest)) :
    rest.m_queue = [] ∧ s.m_firstTime = false ∧ (∀ time ∈ sendTimes s.log, time + period ≤ s.consumer.now) ∧
      ∀ before mid, s.log = before ++ .paused :: mid → .resumed ∉ mid →
        s.m_pause = true ∧ (sendTimes mid).length = 0 := by
  obtain ⟨hqueue, -, hexpired⟩ := Scheduler.popExpired_eq hpop
  rcases h.pending with hnone | ⟨info', hone, -, hfirst, hlate, hsends⟩
  · rw [hqueue] at hnone
    cases hnone
  · rw [hqueue] at hone
    obtain ⟨rfl, hnil⟩ := List.cons.inj hone
    refine ⟨hnil, hfirst, fun time hmem => (hsends time hmem).trans hexpired, fun before mid hlog hmid => ?_⟩
    obtain ⟨hpaused, hcount⟩ := h.since before mid hlog hmid
    rw [hqueue, List.length_cons] at hcount
    exact ⟨hpaused, by omega⟩

theorem Paced.fire (h : Paced period s) {info : EventInfo Unit} {rest : Scheduler Unit}
    (hpop : s.simulator.popExpired s.consumer.now = some (info, rest)) :
    Paced period (ConsumerCbr.SendPacket period { s with simulator := rest }) := by
  obtain ⟨hnil, hfirst, hsends, hsince⟩ := h.popped hpop
  have hnow := sendPacket_now s.consumer
  rw [ConsumerCbr.SendPacket]
  dsimp only
  split
  · refine ⟨h.wellFormed.popExpired hpop, Or.inl hnil, h.first, ?_, h.spaced, h.once, fun before mid hlog hmid => ?_⟩
    · rw [hnow]
      exact h.past
    · obtain ⟨hpaused, hcount⟩ := hsince before mid hlog hmid
      refine ⟨hpaused, ?_⟩
      simp only [hnil, hcount, List.length_nil]
      omega
  · have hlast : ∀ before mid, s.log ++ [.sent s.consumer.now] = before ++ .paused :: mid → .resumed ∉ mid →
        s.m_pause = true ∧ (sendTimes mid).length ≤ 1 := by
      intro before mid hlog hmid
      rcases concat_eq hlog with ⟨-, hentry, -⟩ | ⟨mid', rfl, hlog'⟩
      · cases hentry
      · obtain ⟨hpaused, hcount⟩ := hsince before mid' hlog' fun hmem => hmid (List.mem_append_left _ hmem)
        rw [sendTimes_sent, List.length_append, hcount]
        exact ⟨hpaused, Nat.le_refl 1⟩
    refine Paced.scheduleNextPacket ⟨h.wellFormed.popExpired hpop, Or.inl hnil, ?_, ?_, ?_, h.once.concat ?_, ?_⟩
    · intro hfirst'
      rw [hfirst] at hfirst'
      cases hfirst'
    · intro time hmem
      rw [sendTimes_sent, List.mem_append, List.mem_singleton] at hmem
      rw [hnow]
      rcases hmem with hold | rfl
      · exact h.past time hold
      · exact le_rfl
    · rw [sendTimes_sent]
      refine List.pairwise_append.mpr ⟨h.spaced, List.pairwise_singleton _ _, fun time hmem time' hmem' => ?_⟩
      obtain rfl := List.mem_singleton.mp hmem'
      exact hsends time hmem
    · exact fun before mid hlog hmid => (hlast before mid hlog hmid).2
    · intro before mid hlog hmid
      obtain ⟨hpaused, hcount⟩ := hlast before mid hlog hmid
      refine ⟨hpaused, ?_⟩
      simp only [hnil, List.length_nil]
      omega

theorem Paced.step (h : Paced period s) {event : Event} (hstep : step period s event = some s') : Paced period s' := by
  cases event with
  | advance duration =>
    obtain ⟨hpasses, heq⟩ := Option.ite_none_right_eq_some.mp hstep
    cases heq
    refine ⟨h.wellFormed, ?_, h.first, fun time hmem => ?_, h.spaced, h.once, h.since⟩
    · rcases h.pending with hnil | ⟨info, hone, hid, hfirst, -, hsends⟩
      · exact Or.inl hnil
      · exact Or.inr ⟨info, hone, hid, hfirst, hpasses info (by rw [hone]; exact List.mem_cons_self), hsends⟩
    · exact (h.past time hmem).trans (by show s.consumer.now ≤ s.consumer.now + duration; omega)
  | startApplication =>
    cases hstep
    exact Paced.scheduleNextPacket (h.withConsumer rfl)
  | stopApplication =>
    cases hstep
    exact h.stopApplication
  | pause =>
    cases hstep
    exact h.pause
  | resume =>
    cases hstep
    exact h.resume
  | fire =>
    obtain ⟨⟨info, rest⟩, hpop, rfl⟩ := Option.map_eq_some_iff.mp hstep
    exact h.fire hpop
  | onData number hopCount =>
    cases hstep
    exact h.withConsumer (onData_now s.consumer number hopCount)
  | checkRetxTimeout rto =>
    cases hstep
    have hconsumer : (s.consumer.checkRetxTimeout rto).now = s.consumer.now := rfl
    exact (h.withConsumer hconsumer).iterate _

end Steps

section Runs

variable {period : ℕ} {startSeq : ℤ} {m_seqMax : ℕ} {s : ConsumerCbr}

theorem cbr_paced (hrun : Run (step period) (fun _ _ => True) (ConsumerCbr.initial startSeq m_seqMax) s) :
    s.simulator.m_queue.length ≤ 1 ∧ AtMostOnePaused s.log ∧
      (sendTimes s.log).Pairwise (fun time time' : ℤ => time + period ≤ time') := by
  have h : Paced period s :=
    hrun.invariant (fun _ _ _ hpaced _ hstep => hpaced.step hstep) (Paced.initial startSeq m_seqMax)
  exact ⟨h.queue_le, h.once, h.spaced⟩

def pausedEvents : List Event :=
  [.startApplication, .resume, .fire, .checkRetxTimeout 0, .advance 4, .pause, .advance 6, .fire, .resume, .resume]

/-- The event that is pending when the consumer is paused still sends its Interest. -/
theorem cbr_paced_two : ∃ s, Run (step 10) (fun _ _ => True) (ConsumerCbr.initial 0 ConsumerSequences.uint32Max) s ∧
    s.log = [.resumed, .sent 0, .paused, .sent 10, .resumed, .resumed] ∧ s.simulator.m_queue.length ≤ 1 ∧
      AtMostOnePaused s.log ∧ (sendTimes s.log).Pairwise (fun time time' : ℤ => time + (10 : ℕ) ≤ time') := by
  have hrun : (runOf (step 10) (fun _ _ => True) (ConsumerCbr.initial 0 ConsumerSequences.uint32Max) pausedEvents).map
      ConsumerCbr.log = some [.resumed, .sent 0, .paused, .sent 10, .resumed, .resumed] := by decide
  obtain ⟨s, hs, hlog⟩ := Option.map_eq_some_iff.mp hrun
  exact ⟨s, Run.of_runOf hs, hlog, cbr_paced (Run.of_runOf hs)⟩

end Runs

end LeoNdn.CbrConsumer
