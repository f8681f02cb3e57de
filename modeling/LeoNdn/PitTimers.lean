import LeoNdn.PitPipelines
import LeoNdn.Runs

/-!
The life cycle of a PIT entry: it has exactly one armed expiry timer until it is
finalized, which happens once.
-/

namespace LeoNdn.PitTimers

open LeoNdn.NdnPacket LeoNdn.Schedulers LeoNdn.PitPipelines LeoNdn.Runs
open LeoNdn.Forwarder (Face)

variable {σ κ δ : Type}

def timers (s : State σ κ δ) (i : ℕ) : List (EventInfo Callback) := s.scheduler.m_queue.filter (holds i)

/-- What holds between the steps of a pipeline, at which some entries may be
without a timer. -/
structure Lifecycle (unarmed : List ℕ) (s : State σ κ δ) : Prop where
  wellFormed : s.scheduler.WellFormed
  nodup : s.m_pit.Nodup
  lt_length : ∀ i ∈ s.m_pit, i < s.entries.length
  timer_iff : ∀ i, ∀ info ∈ s.scheduler.m_queue, info.callback = .onInterestFinalize i ↔ s.timerOf i = some info.id
  timer_lt : ∀ i id, s.timerOf i = some id → id < s.scheduler.nextId
  armed : ∀ i ∈ s.m_pit, i ∉ unarmed → ∃ info ∈ s.scheduler.m_queue, info.callback = .onInterestFinalize i
  held : ∀ info ∈ s.scheduler.m_queue, ∀ i, info.callback = .onInterestFinalize i → i ∈ s.m_pit
  finalized_nodup : s.finalized.Nodup
  mem_finalized : ∀ i, i ∈ s.finalized ↔ i < s.entries.length ∧ i ∉ s.m_pit
  counted : s.nSatisfiedInterests + s.nUnsatisfiedInterests = s.finalized.length

/-- The steps that change no timer, and neither the PIT. -/
structure SameTimers (s s' : State σ κ δ) : Prop where
  scheduler : s'.scheduler = s.scheduler
  m_pit : s'.m_pit = s.m_pit
  length : s'.entries.length = s.entries.length
  timerOf : ∀ i, s'.timerOf i = s.timerOf i
  finalized : s'.finalized = s.finalized
  counted : s'.nSatisfiedInterests + s'.nUnsatisfiedInterests = s.nSatisfiedInterests + s.nUnsatisfiedInterests

/-- The state after a pipeline that neither adds an entry nor ends one. -/
def Kept (pit : List ℕ) (s : State σ κ δ) : Prop := Lifecycle [] s ∧ s.m_pit = pit

section Frame

variable {unarmed pit : List ℕ} {s s' : State σ κ δ} {i : ℕ}

theorem timerOf_modifyEntry (s : State σ κ δ) (i j : ℕ) {f : PitEntry σ → PitEntry σ}
    (hf : ∀ entry, (f entry).expiryTimer = entry.expiryTimer) : (s.modifyEntry i f).timerOf j = s.timerOf j := by
  unfold State.modifyEntry State.timerOf
  dsimp only
  rw [List.getElem?_modify]
  cases s.entries[j]? with
  | none => rfl
  | some entry =>
    by_cases hij : i = j
    · simp [hij, hf]
    · simp [hij]

theorem SameTimers.refl (s : State σ κ δ) : SameTimers s s := ⟨rfl, rfl, rfl, fun _ => rfl, rfl, rfl⟩

theorem SameTimers.trans {s'' : State σ κ δ} (h : SameTimers s s') (h' : SameTimers s' s'') : SameTimers s s'' where
  scheduler := h'.scheduler.trans h.scheduler
  m_pit := h'.m_pit.trans h.m_pit
  length := h'.length.trans h.length
  timerOf i := (h'.timerOf i).trans (h.timerOf i)
  finalized := h'.finalized.trans h.finalized
  counted := h'.counted.trans h.counted

theorem SameTimers.modifyEntry (s : State σ κ δ) (i : ℕ) {f : PitEntry σ → PitEntry σ}
    (hf : ∀ entry, (f entry).expiryTimer = entry.expiryTimer) : SameTimers s (s.modifyEntry i f) where
  scheduler := rfl
  m_pit := rfl
  length := List.length_modify f s.entries i
  timerOf j := timerOf_modifyEntry s i j hf
  finalized := rfl
  counted := rfl

theorem SameTimers.send (s : State σ κ δ) (outFace : Face) (packet : Packet σ) : SameTimers s (s.send outFace packet) :=
  ⟨rfl, rfl, rfl, fun _ => rfl, rfl, rfl⟩

theorem Lifecycle.frame (h : Lifecycle unarmed s) (hsame : SameTimers s s') : Lifecycle unarmed s' where
  wellFormed := by rw [hsame.scheduler]; exact h.wellFormed
  nodup := by rw [hsame.m_pit]; exact h.nodup
  lt_length := by rw [hsame.m_pit, hsame.length]; exact h.lt_length
  timer_iff i := by rw [hsame.scheduler, hsame.timerOf]; exact h.timer_iff i
  timer_lt i := by rw [hsame.scheduler, hsame.timerOf]; exact h.timer_lt i
  armed := by rw [hsame.scheduler, hsame.m_pit]; exact h.armed
  held := by rw [hsame.scheduler, hsame.m_pit]; exact h.held
  finalized_nodup := by rw [hsame.finalized]; exact h.finalized_nodup
  mem_finalized := by rw [hsame.finalized, hsame.length, hsame.m_pit]; exact h.mem_finalized
  counted := by rw [hsame.finalized, hsame.counted]; exact h.counted

theorem Kept.frame (h : Kept pit s) (hsame : SameTimers s s') : Kept pit s' :=
  ⟨h.1.frame hsame, hsame.m_pit.trans h.2⟩

end Frame

section Scheduler

variable {unarmed pit : List ℕ} {s : State σ κ δ} {i : ℕ}

theorem Lifecycle.schedule (h : Lifecycle unarmed s) (after : ℤ) {callback : Callback}
    (hcallback : ∀ i, callback ≠ .onInterestFinalize i) : Lifecycle unarmed (s.schedule after callback) where
  wellFormed := h.wellFormed.scheduleEvent s.now after callback
  nodup := h.nodup
  lt_length := h.lt_length
  timer_iff i info hinfo := by
    rcases mem_insertEvent.mp hinfo with rfl | hold
    · constructor
      · exact fun hfinalize => absurd hfinalize (hcallback i)
      · exact fun htimer => absurd (h.timer_lt i _ htimer) (Nat.lt_irrefl _)
    · exact h.timer_iff i info hold
  timer_lt i id htimer := Nat.lt_succ_of_lt (h.timer_lt i id htimer)
  armed i hi hunarmed := by
    obtain ⟨info, hinfo, hfinalize⟩ := h.armed i hi hunarmed
    exact ⟨info, mem_insertEvent.mpr (Or.inr hinfo), hfinalize⟩
  held info hinfo i hfinalize := by
    rcases mem_insertEvent.mp hinfo with rfl | hold
    · exact absurd hfinalize (hcallback i)
    · exact h.held info hold i hfinalize
  finalized_nodup := h.finalized_nodup
  mem_finalized := h.mem_finalized
  counted := h.counted

theorem mem_cancel {info : EventInfo Callback} {id : Option ℕ} :
    info ∈ (s.cancel id).scheduler.m_queue ↔ info ∈ s.scheduler.m_queue ∧ id ≠ some info.id := by
  unfold State.cancel Scheduler.cancel
  rw [List.mem_filter, decide_eq_true_iff]

theorem Lifecycle.cancel (h : Lifecycle unarmed s) {id : Option ℕ} {unarmed' : List ℕ}
    (hunarmed : ∀ j ∈ unarmed, j ∈ unarmed')
    (hid : ∀ info ∈ s.scheduler.m_queue, id = some info.id → ∀ i, info.callback = .onInterestFinalize i → i ∈ unarmed') :
    Lifecycle unarmed' (s.cancel id) where
  wellFormed := h.wellFormed.cancel id
  nodup := h.nodup
  lt_length := h.lt_length
  timer_iff i info hinfo := h.timer_iff i info (mem_cancel.mp hinfo).1
  timer_lt := h.timer_lt
  armed i hi hnot := by
    obtain ⟨info, hinfo, hfinalize⟩ := h.armed i hi fun hmem => hnot (hunarmed i hmem)
    exact ⟨info, mem_cancel.mpr ⟨hinfo, fun heq => hnot (hid info hinfo heq i hfinalize)⟩, hfinalize⟩
  held info hinfo := h.held info (mem_cancel.mp hinfo).1
  finalized_nodup := h.finalized_nodup
  mem_finalized := h.mem_finalized
  counted := h.counted

theorem Lifecycle.cancel_timerOf (h : Lifecycle unarmed s) (hunarmed : ∀ j ∈ unarmed, j = i) :
    Lifecycle [i] (s.cancel (s.timerOf i)) ∧
      ∀ info ∈ (s.cancel (s.timerOf i)).scheduler.m_queue, info.callback ≠ .onInterestFinalize i := by
  constructor
  · apply h.cancel
    · exact fun j hj => List.mem_singleton.mpr (hunarmed j hj)
    · intro info hinfo hid j hfinalize
      have hi := (h.timer_iff i info hinfo).mpr hid
      rw [hfinalize, Callback.onInterestFinalize.injEq] at hi
      exact List.mem_singleton.mpr hi
  · intro info hinfo hfinalize
    obtain ⟨hold, hid⟩ := mem_cancel.mp hinfo
    exact hid ((h.timer_iff i info hold).mp hfinalize)

theorem timerOf_setExpiryTimer (duration : ℤ) (j : ℕ) (hi : i < s.entries.length) :
    (s.setExpiryTimer i duration).timerOf j = if i = j then some s.scheduler.nextId else s.timerOf j := by
  unfold State.setExpiryTimer State.modifyEntry State.timerOf State.schedule State.cancel
  dsimp only
  rw [List.getElem?_modify]
  by_cases hij : i = j
  · subst hij
    rw [if_pos rfl, List.getElem?_eq_getElem hi]
    simp [Scheduler.cancel]
  · rw [if_neg hij]
    simp [hij]

theorem mem_setExpiryTimer {info : EventInfo Callback} {duration : ℤ} :
    info ∈ (s.setExpiryTimer i duration).scheduler.m_queue ↔
      info = ⟨s.scheduler.nextId, s.now + duration * 1000000, .onInterestFinalize i⟩ ∨
        info ∈ (s.cancel (s.timerOf i)).scheduler.m_queue :=
  mem_insertEvent

theorem Lifecycle.setExpiryTimer (h : Lifecycle unarmed s) (hunarmed : ∀ j ∈ unarmed, j = i) (hi : i ∈ s.m_pit)
    (duration : ℤ) : Lifecycle [] (s.setExpiryTimer i duration) := by
  obtain ⟨hcancel, hnone⟩ := h.cancel_timerOf hunarmed
  have hlength := h.lt_length i hi
  refine ⟨?_, h.nodup, ?_, ?_, ?_, ?_, ?_, h.finalized_nodup, ?_, h.counted⟩
  · exact hcancel.wellFormed.scheduleEvent s.now _ _
  · intro j hj
    rw [State.setExpiryTimer, State.modifyEntry, List.length_modify]
    exact h.lt_length j hj
  · intro j info hinfo
    rw [timerOf_setExpiryTimer duration j hlength]
    rcases mem_setExpiryTimer.mp hinfo with rfl | hold
    · dsimp only
      split
      · rename_i hij
        rw [hij]
        exact iff_of_true rfl rfl
      · rename_i hij
        refine iff_of_false (fun heq => hij (Callback.onInterestFinalize.inj heq)) fun htimer => ?_
        exact absurd (h.timer_lt j _ htimer) (Nat.lt_irrefl _)
    · split
      · rename_i hij
        subst hij
        refine iff_of_false (hnone info hold) fun heq => ?_
        have hlt := hcancel.wellFormed.lt_nextId info hold
        rw [← Option.some_inj.mp heq] at hlt
        exact absurd hlt (Nat.lt_irrefl _)
      · exact hcancel.timer_iff j info hold
  · intro j id htimer
    rw [timerOf_setExpiryTimer duration j hlength] at htimer
    split at htimer
    · cases htimer
      exact Nat.lt_succ_self _
    · exact Nat.lt_succ_of_lt (h.timer_lt j id htimer)
  · intro j hj _
    by_cases hij : i = j
    · exact ⟨_, mem_setExpiryTimer.mpr (Or.inl rfl), by rw [hij]⟩
    · obtain ⟨info, hinfo, hfinalize⟩ := hcancel.armed j hj fun hmem => hij (List.mem_singleton.mp hmem).symm
      exact ⟨info, mem_setExpiryTimer.mpr (Or.inr hinfo), hfinalize⟩
  · intro info hinfo j hfinalize
    rcases mem_setExpiryTimer.mp hinfo with rfl | hold
    · rw [← Callback.onInterestFinalize.inj hfinalize]
      exact hi
    · exact hcancel.held info hold j hfinalize
  · intro j
    rw [State.setExpiryTimer, State.modifyEntry, List.length_modify]
    exact h.mem_finalized j

end Scheduler

section Actions

variable {pit : List ℕ} {s : State σ κ δ} {i : ℕ}

theorem Kept.setExpiryTimer (h : Kept pit s) (hi : i ∈ pit) (duration : ℤ) :
    Kept pit (s.setExpiryTimer i duration) := by
  obtain ⟨hlife, rfl⟩ := h
  exact ⟨hlife.setExpiryTimer (fun j hj => absurd hj List.not_mem_nil) hi duration, rfl⟩

theorem Kept.schedule (h : Kept pit s) (after : ℤ) {callback : Callback}
    (hcallback : ∀ i, callback ≠ .onInterestFinalize i) : Kept pit (s.schedule after callback) :=
  ⟨h.1.schedule after hcallback, h.2⟩

theorem Kept.cancel (h : Kept pit s) {info : EventInfo Callback} (hinfo : info ∈ s.scheduler.m_queue)
    (hcallback : ∀ i, info.callback ≠ .onInterestFinalize i) : Kept pit (s.cancel (some info.id)) := by
  refine ⟨h.1.cancel (fun j hj => hj) ?_, h.2⟩
  intro other hother hid i hfinalize
  rw [← h.1.wellFormed.eq_of_id hinfo hother (Option.some_inj.mp hid)] at hfinalize
  exact absurd hfinalize (hcallback i)

theorem Kept.modifyEntry (h : Kept pit s) (i : ℕ) {f : PitEntry σ → PitEntry σ}
    (hf : ∀ entry, (f entry).expiryTimer = entry.expiryTimer) : Kept pit (s.modifyEntry i f) :=
  h.frame (SameTimers.modifyEntry s i hf)

theorem Kept.send (h : Kept pit s) (outFace : Face) (packet : Packet σ) : Kept pit (s.send outFace packet) :=
  h.frame (SameTimers.send s outFace packet)

theorem Kept.onOutgoingInterest (h : Kept pit s) (i : ℕ) (outFace : Face) (interest : Interest σ) :
    Kept pit (onOutgoingInterest s i outFace interest) :=
  (h.modifyEntry i (f := insertOrUpdateOutRecord s.now outFace interest) fun _ => rfl).send outFace _

theorem Kept.onOutgoingData (h : Kept pit s) (data : Data) (outFace : Face) :
    Kept pit (onOutgoingData s data outFace) := by
  unfold PitPipelines.onOutgoingData
  split
  · exact h
  · split
    · exact h
    · exact h.send outFace _

theorem Kept.onOutgoingNack (h : Kept pit s) (i : ℕ) (outFace : Face) (reason : ℕ) :
    Kept pit (onOutgoingNack s i outFace reason) := by
  unfold PitPipelines.onOutgoingNack
  split
  · exact h
  · split
    · exact h
    · split
      · exact h
      · exact (h.modifyEntry i (f := deleteInRecord outFace) fun _ => rfl).send outFace _

theorem Kept.takeAction (h : Kept pit s) (hi : i ∈ pit) (action : Action σ) : Kept pit (takeAction s i action) := by
  cases action with
  | sendInterest outFace interest => exact h.onOutgoingInterest i outFace interest
  | sendData data outFace => exact (h.modifyEntry i (f := deleteInRecord outFace) fun _ => rfl).onOutgoingData data outFace
  | sendNack outFace reason => exact h.onOutgoingNack i outFace reason
  | setExpiryTimer duration => exact h.setExpiryTimer hi duration
  | schedule after => exact h.schedule after fun j hj => by cases hj
  | cancel id =>
    simp only [PitPipelines.takeAction]
    split
    · rename_i hown
      obtain ⟨info, hinfo, hid⟩ := List.any_eq_true.mp hown
      rw [isOwnEvent, Bool.and_eq_true, decide_eq_true_iff] at hid
      rw [← hid.1]
      apply h.cancel hinfo
      intro j hj
      rw [hj] at hid
      exact absurd hid.2 Bool.false_ne_true
    · exact h

theorem Kept.dispatchToStrategy (h : Kept pit s) (hi : i ∈ pit) (actions : List (Action σ)) :
    Kept pit (dispatchToStrategy i actions s) := by
  induction actions generalizing s with
  | nil => exact h
  | cons action actions ih => exact ih (h.takeAction hi action)

theorem SameTimers.insertDeadNonceList (ctx : Context σ κ δ) (s : State σ κ δ) (i : ℕ) (upstream : Option Face) :
    SameTimers s (insertDeadNonceList ctx s i upstream) := by
  unfold PitPipelines.insertDeadNonceList
  split
  · exact SameTimers.refl s
  · split
    · exact SameTimers.refl s
    · exact ⟨rfl, rfl, rfl, fun _ => rfl, rfl, rfl⟩

end Actions

section Interests

variable (ctx : Context σ κ δ) {pit unarmed : List ℕ} {s : State σ κ δ} {i : ℕ} {inFace : Face} {interest : Interest σ}

theorem Kept.onInterestLoop (h : Kept pit s) (inFace : Face) (interest : Interest σ) :
    Kept pit (onInterestLoop s inFace interest) := by
  unfold PitPipelines.onInterestLoop
  split
  · exact h
  · exact h.send inFace _

theorem kept_onContentStoreMiss (h : Lifecycle unarmed s) (hunarmed : ∀ j ∈ unarmed, j = i) (hi : i ∈ s.m_pit)
    (inFace : Face) (interest : Interest σ) (actions : List (Action σ)) :
    Kept s.m_pit (onContentStoreMiss s inFace i interest actions) := by
  have hrecord := h.frame (SameTimers.modifyEntry s i
    (f := PitPipelines.insertOrUpdateInRecord s.now inFace interest) fun _ => rfl)
  have htimer : Kept s.m_pit ((s.modifyEntry i (PitPipelines.insertOrUpdateInRecord s.now inFace interest)).setExpiryTimer i
      (lastExpiryFromNow (s.modifyEntry i (PitPipelines.insertOrUpdateInRecord s.now inFace interest)) i)) :=
    ⟨hrecord.setExpiryTimer hunarmed hi _, rfl⟩
  unfold onContentStoreMiss
  dsimp only
  split
  · split
    · exact htimer.onOutgoingInterest i _ interest
    · exact htimer
  · exact htimer.dispatchToStrategy hi actions

theorem kept_onContentStoreHit (h : Lifecycle unarmed s) (hunarmed : ∀ j ∈ unarmed, j = i) (hi : i ∈ s.m_pit)
    (data : Data) (actions : List (Action σ)) : Kept s.m_pit (onContentStoreHit s i data actions) := by
  have hsatisfied := h.frame (SameTimers.modifyEntry s i (f := markSatisfied data) fun _ => rfl)
  have htimer : Kept s.m_pit ((s.modifyEntry i (markSatisfied data)).setExpiryTimer i 0) :=
    ⟨hsatisfied.setExpiryTimer hunarmed hi 0, rfl⟩
  exact htimer.dispatchToStrategy hi actions

theorem find_mem [DecidableEq σ] (h : PitPipelines.find s interest = some i) :
    i ∈ s.m_pit := List.mem_of_find?_eq_some h

theorem insert_spec [DecidableEq σ] (h : Lifecycle [] s) (interest : Interest σ) :
    (PitPipelines.insert s interest).2 ∈ (PitPipelines.insert s interest).1.m_pit ∧
      (Lifecycle [] (PitPipelines.insert s interest).1 ∨
        Lifecycle [(PitPipelines.insert s interest).2] (PitPipelines.insert s interest).1 ∧
          (PitPipelines.insert s interest).1.entries[(PitPipelines.insert s interest).2]? =
            some ⟨interest, [], [], false, 0, none⟩) := by
  unfold PitPipelines.insert
  cases hfind : PitPipelines.find s interest with
  | some i => exact ⟨find_mem hfind, Or.inl h⟩
  | none =>
    dsimp only
    have hnot : s.entries.length ∉ s.m_pit := fun hmem => absurd (h.lt_length _ hmem) (Nat.lt_irrefl _)
    have htimerOf : ∀ j, State.timerOf { s with
        entries := s.entries ++ [⟨interest, [], [], false, 0, none⟩], m_pit := s.m_pit ++ [s.entries.length] } j =
        s.timerOf j := by
      intro j
      unfold State.timerOf
      dsimp only
      rcases Nat.lt_trichotomy j s.entries.length with hlt | rfl | hgt
      · rw [List.getElem?_append_left hlt]
      · simp
      · rw [List.getElem?_eq_none (by rw [List.length_append, List.length_singleton]; omega),
          List.getElem?_eq_none (by omega)]
    refine ⟨List.mem_append_right _ (List.mem_singleton_self _), Or.inr ⟨?_, ?_⟩⟩
    · refine ⟨h.wellFormed, ?_, ?_, ?_, ?_, ?_, ?_, h.finalized_nodup, ?_, h.counted⟩
      · exact h.nodup.append (List.nodup_singleton _) (List.disjoint_singleton.mpr hnot)
      · intro j hj
        rw [List.length_append, List.length_singleton]
        rcases List.mem_append.mp hj with hold | hnew
        · exact Nat.lt_succ_of_lt (h.lt_length j hold)
        · rw [List.mem_singleton.mp hnew]
          exact Nat.lt_succ_self _
      · intro j
        rw [htimerOf]
        exact h.timer_iff j
      · intro j
        rw [htimerOf]
        exact h.timer_lt j
      · intro j hj hne
        rcases List.mem_append.mp hj with hold | hnew
        · exact h.armed j hold List.not_mem_nil
        · exact absurd hnew hne
      · exact fun info hinfo j hfinalize => List.mem_append_left _ (h.held info hinfo j hfinalize)
      · intro j
        rw [h.mem_finalized, List.length_append, List.length_singleton, List.mem_append, List.mem_singleton]
        constructor
        · rintro ⟨hlt, hpit⟩
          exact ⟨Nat.lt_succ_of_lt hlt, not_or.mpr ⟨hpit, Nat.ne_of_lt hlt⟩⟩
        · rintro ⟨hlt, hpit⟩
          obtain ⟨hpit, hne⟩ := not_or.mp hpit
          exact ⟨by omega, hpit⟩
    · rw [List.getElem?_append_right (Nat.le_refl _), Nat.sub_self]
      rfl

theorem hasDuplicateNonce_new (interest : Interest σ) (nonce : ℕ) (inFace : Face) :
    hasDuplicateNonce (⟨interest, [], [], false, 0, none⟩ : PitEntry σ) nonce inFace = false := rfl

theorem lifecycle_onIncomingInterest [DecidableEq σ] (h : Lifecycle [] s) (inFace : Face) (interest : Interest σ)
    (actions : List (Action σ)) : Lifecycle [] (onIncomingInterest ctx s inFace interest actions) := by
  have hkept : Kept s.m_pit s := ⟨h, rfl⟩
  unfold onIncomingInterest
  split
  · exact h
  · split
    · exact (hkept.onInterestLoop inFace interest).1
    · obtain ⟨hmem, hcases⟩ := insert_spec h (stripForwardingHint ctx interest)
      dsimp only
      rcases hcases with hold | ⟨hnew, hentry⟩
      · split
        · exact hold
        · unfold onPitEntry
          have hinserted : Kept (PitPipelines.insert s (stripForwardingHint ctx interest)).1.m_pit
              (PitPipelines.insert s (stripForwardingHint ctx interest)).1 := ⟨hold, rfl⟩
          have hunarmed : ∀ j ∈ ([] : List ℕ), j = (PitPipelines.insert s (stripForwardingHint ctx interest)).2 :=
            fun j hj => absurd hj List.not_mem_nil
          split
          · exact (hinserted.onInterestLoop inFace _).1
          · split
            · split
              · exact (kept_onContentStoreHit hold hunarmed hmem _ actions).1
              · exact (kept_onContentStoreMiss hold hunarmed hmem inFace _ actions).1
            · exact (kept_onContentStoreMiss hold hunarmed hmem inFace _ actions).1
      · rw [hentry]
        have hunarmed : ∀ j ∈ [(PitPipelines.insert s (stripForwardingHint ctx interest)).2],
            j = (PitPipelines.insert s (stripForwardingHint ctx interest)).2 := fun j hj => List.mem_singleton.mp hj
        dsimp only
        rw [onPitEntry, hasDuplicateNonce_new, if_neg Bool.false_ne_true, if_pos rfl]
        split
        · exact (kept_onContentStoreHit hnew hunarmed hmem _ actions).1
        · exact (kept_onContentStoreMiss hnew hunarmed hmem inFace _ actions).1

end Interests

section Satisfying

variable (ctx : Context σ κ δ) {pit : List ℕ} {s : State σ κ δ} {i : ℕ}

theorem Kept.insertDeadNonceList (h : Kept pit s) (i : ℕ) (upstream : Option Face) :
    Kept pit (insertDeadNonceList ctx s i upstream) :=
  h.frame (SameTimers.insertDeadNonceList ctx s i upstream)

theorem Kept.satisfyOnlyEntry (h : Kept pit s) (hi : i ∈ pit) (inFace : Face) (data : Data)
    (actions : List (Action σ)) :
    Kept pit (satisfyOnlyEntry ctx s inFace data i actions) := by
  apply Kept.modifyEntry (f := deleteOutRecord inFace) _ i fun _ => rfl
  apply Kept.insertDeadNonceList
  apply Kept.modifyEntry (f := markSatisfied data) _ i fun _ => rfl
  exact (h.setExpiryTimer hi 0).dispatchToStrategy hi actions

theorem Kept.satisfyEntry (h : Kept pit s) (hi : i ∈ pit) (inFace : Face) (data : Data) (actions : List (Action σ)) :
    Kept pit (satisfyEntry ctx s inFace data i actions) := by
  apply Kept.modifyEntry (f := deleteOutRecord inFace) _ i fun _ => rfl
  apply Kept.modifyEntry (f := clearInRecords) _ i fun _ => rfl
  apply Kept.insertDeadNonceList
  apply Kept.modifyEntry (f := markSatisfied data) _ i fun _ => rfl
  exact (h.setExpiryTimer hi 0).dispatchToStrategy hi actions

theorem Kept.satisfyEntries (h : Kept pit s) (inFace : Face) (data : Data) (actions : ℕ → List (Action σ))
    (pitMatches : List ℕ) (hmatches : ∀ i ∈ pitMatches, i ∈ pit) (pending : List Face) :
    Kept pit (satisfyEntries ctx inFace data actions pitMatches pending s).2 := by
  induction pitMatches generalizing s pending with
  | nil => exact h
  | cons i pitMatches ih =>
    apply ih
    · exact h.satisfyEntry ctx (hmatches i List.mem_cons_self) inFace data (actions i)
    · exact fun j hj => hmatches j (List.mem_cons_of_mem i hj)

theorem Kept.sendToDownstreams (h : Kept pit s) (inFace : Face) (data : Data) (faces : List Face) :
    Kept pit (sendToDownstreams inFace data faces s) := by
  induction faces generalizing s with
  | nil => exact h
  | cons face faces ih =>
    apply ih
    split
    · exact h
    · exact h.onOutgoingData data face

theorem Kept.satisfyMatches (h : Kept pit s) (inFace : Face) (data : Data) (actions : ℕ → List (Action σ))
    {pitMatches : List ℕ} (hmatches : ∀ i ∈ pitMatches, i ∈ pit) :
    Kept pit (satisfyMatches ctx s inFace data actions pitMatches) := by
  have hcached : Kept pit { s with m_cs := ctx.insertCs data false s.m_cs } :=
    h.frame ⟨rfl, rfl, rfl, fun _ => rfl, rfl, rfl⟩
  unfold PitPipelines.satisfyMatches
  dsimp only
  split
  · exact hcached.satisfyOnlyEntry ctx (hmatches _ (List.mem_singleton_self _)) inFace data _
  · exact (hcached.satisfyEntries ctx inFace data actions _ hmatches []).sendToDownstreams inFace data _

theorem Kept.postAnnouncements (h : Kept pit s) (records : List (InRecord σ)) :
    Kept pit (postAnnouncements records s) := by
  induction records generalizing s with
  | nil => exact h
  | cons record records ih =>
    apply ih
    split
    · exact h.schedule 0 fun j hj => by cases hj
    · exact h

theorem Kept.onIncomingKiteAck (h : Kept pit s) (pitMatches : List ℕ) : Kept pit (onIncomingKiteAck pitMatches s) := by
  induction pitMatches generalizing s with
  | nil => exact h
  | cons i pitMatches ih => exact ih (h.postAnnouncements _)

theorem Kept.onIncomingData (h : Kept pit s) (inFace : Face) (data : Data) (actions : ℕ → List (Action σ)) :
    Kept pit (onIncomingData ctx s inFace data actions) := by
  unfold PitPipelines.onIncomingData
  split
  · exact h
  · split
    · unfold onDataUnsolicited
      split
      · exact h.frame ⟨rfl, rfl, rfl, fun _ => rfl, rfl, rfl⟩
      · exact h
    · rename_i i pitMatches hfound
      have hmatches : ∀ j ∈ i :: pitMatches, j ∈ pit := by
        intro j hj
        rw [← hfound, findAllDataMatches] at hj
        rw [← h.2]
        exact (List.mem_filter.mp hj).1
      split
      · split
        · exact h
        · exact (h.onIncomingKiteAck _).satisfyMatches ctx inFace data actions hmatches
      · exact h.satisfyMatches ctx inFace data actions hmatches

end Satisfying

section Others

variable {pit : List ℕ} {s : State σ κ δ}

theorem Kept.onIncomingNack [DecidableEq σ] (h : Kept pit s) (inFace : Face) (reason : ℕ) (interest : Interest σ)
    (actions : List (Action σ)) : Kept pit (onIncomingNack s inFace reason interest actions) := by
  unfold PitPipelines.onIncomingNack
  split
  · exact h
  · split
    · exact h
    · rename_i i hfound
      have hi : i ∈ pit := by
        rw [← h.2]
        exact find_mem hfound
      split
      · exact h
      · split
        · exact h
        · have hrecord := h.modifyEntry i (f := setIncomingNack inFace reason) fun _ => rfl
          apply Kept.dispatchToStrategy _ hi
          split
          · exact hrecord
          · exact hrecord.setExpiryTimer hi 0

theorem Kept.onNewNextHop (h : Kept pit s) (affected : List (ℕ × List (Action σ))) :
    Kept pit (onNewNextHop affected s) := by
  induction affected generalizing s with
  | nil => exact h
  | cons entry affected ih =>
    apply ih
    split
    · rename_i hi
      rw [h.2] at hi
      exact h.dispatchToStrategy hi entry.2
    · exact h

theorem Kept.cleanupOnFaceRemoval (h : Kept pit s) (face : Face) (entries : List ℕ) :
    Kept pit (cleanupOnFaceRemoval face entries s) := by
  induction entries generalizing s with
  | nil => exact h
  | cons i entries ih => exact ih (h.modifyEntry i (f := deleteInOutRecords face) fun _ => rfl)

theorem lifecycle_pop {info : EventInfo Callback} {rest : Scheduler Callback} {unarmed : List ℕ} (h : Lifecycle [] s)
    (hpop : s.scheduler.popExpired s.now = some (info, rest))
    (hunarmed : ∀ i, info.callback = .onInterestFinalize i → i ∈ unarmed) :
    Lifecycle unarmed { s with scheduler := rest } := by
  obtain ⟨hqueue, hnext, -⟩ := Scheduler.popExpired_eq hpop
  have hold : ∀ other ∈ rest.m_queue, other ∈ s.scheduler.m_queue := by
    intro other hother
    rw [hqueue]
    exact List.mem_cons_of_mem info hother
  refine ⟨h.wellFormed.popExpired hpop, h.nodup, h.lt_length, fun i other hother => h.timer_iff i other (hold other hother),
    ?_, ?_, fun other hother => h.held other (hold other hother), h.finalized_nodup, h.mem_finalized, h.counted⟩
  · intro i id htimer
    rw [hnext]
    exact h.timer_lt i id htimer
  · intro i hi hnot
    obtain ⟨other, hother, hfinalize⟩ := h.armed i hi List.not_mem_nil
    rw [hqueue] at hother
    rcases List.mem_cons.mp hother with rfl | hrest
    · exact absurd (hunarmed i hfinalize) hnot
    · exact ⟨other, hrest, hfinalize⟩

theorem lifecycle_onInterestFinalize (ctx : Context σ κ δ) {i : ℕ} (h : Lifecycle [i] s) (hi : i ∈ s.m_pit) :
    Lifecycle [] (onInterestFinalize ctx s i) := by
  have hsame := SameTimers.insertDeadNonceList ctx s i none
  have hdead := h.frame hsame
  have hpit : i ∈ (PitPipelines.insertDeadNonceList ctx s i none).m_pit := by
    rw [hsame.m_pit]
    exact hi
  revert hdead hpit
  unfold onInterestFinalize
  generalize PitPipelines.insertDeadNonceList ctx s i none = dead
  intro hdead hpit
  obtain ⟨hcancel, hnone⟩ := hdead.cancel_timerOf fun j hj => List.mem_singleton.mp hj
  have hnot : i ∉ dead.finalized := fun hmem => ((hdead.mem_finalized i).mp hmem).2 hpit
  have herase : ∀ j, j ∈ dead.m_pit.erase i ↔ j ≠ i ∧ j ∈ dead.m_pit := fun j => hdead.nodup.mem_erase_iff
  refine ⟨hcancel.wellFormed, hdead.nodup.erase i, ?_, hcancel.timer_iff, hcancel.timer_lt, ?_, ?_, ?_, ?_, ?_⟩
  · exact fun j hj => hdead.lt_length j ((herase j).mp hj).2
  · intro j hj _
    obtain ⟨hne, hold⟩ := (herase j).mp hj
    exact hcancel.armed j hold fun hmem => hne (List.mem_singleton.mp hmem)
  · intro info hinfo j hfinalize
    apply (herase j).mpr
    refine ⟨?_, hcancel.held info hinfo j hfinalize⟩
    intro hij
    rw [hij] at hfinalize
    exact hnone info hinfo hfinalize
  · exact hdead.finalized_nodup.append (List.nodup_singleton i) (List.disjoint_singleton.mpr hnot)
  · intro j
    dsimp only [State.cancel]
    rw [List.mem_append, List.mem_singleton, hdead.mem_finalized, herase]
    constructor
    · rintro (⟨hlt, hold⟩ | rfl)
      · exact ⟨hlt, fun hmem => hold hmem.2⟩
      · exact ⟨hdead.lt_length j hpit, fun hmem => hmem.1 rfl⟩
    · rintro ⟨hlt, hold⟩
      by_cases hij : j = i
      · exact Or.inr hij
      · exact Or.inl ⟨hlt, fun hmem => hold ⟨hij, hmem⟩⟩
  · dsimp only [State.cancel]
    rw [List.length_append, List.length_singleton, ← hdead.counted]
    split <;> omega

theorem isAlive_iff (h : Lifecycle [] s) {i : ℕ} : isAlive s i = true ↔ i ∈ s.m_pit := by
  unfold isAlive
  rw [Bool.or_eq_true, decide_eq_true_iff, List.any_eq_true]
  constructor
  · rintro (hpit | ⟨info, hinfo, hholds⟩)
    · exact hpit
    · exact h.held info hinfo i (of_decide_eq_true hholds)
  · exact Or.inl

theorem lifecycle_executeEvent (ctx : Context σ κ δ) (h : Lifecycle [] s) (actions : List (Action σ))
    {info : EventInfo Callback} {rest : Scheduler Callback} (hpop : s.scheduler.popExpired s.now = some (info, rest)) :
    Lifecycle [] (runCallback ctx { s with scheduler := rest } actions info.callback) := by
  cases hcallback : info.callback with
  | onInterestFinalize i =>
    apply lifecycle_onInterestFinalize
    · apply lifecycle_pop h hpop
      intro j hj
      rw [hcallback] at hj
      exact List.mem_singleton.mpr (Callback.onInterestFinalize.inj hj).symm
    · obtain ⟨hqueue, -, -⟩ := Scheduler.popExpired_eq hpop
      have hinfo : info ∈ s.scheduler.m_queue := by
        rw [hqueue]
        exact List.mem_cons_self
      exact h.held info hinfo i hcallback
  | strategy i =>
    have hpopped : Lifecycle [] { s with scheduler := rest } := by
      apply lifecycle_pop h hpop
      intro j hj
      rw [hcallback] at hj
      cases hj
    dsimp only [runCallback]
    split
    · rename_i halive
      exact (Kept.dispatchToStrategy ⟨hpopped, rfl⟩ ((isAlive_iff hpopped).mp halive) actions).1
    · exact hpopped
  | other =>
    apply lifecycle_pop h hpop
    intro j hj
    rw [hcallback] at hj
    cases hj

theorem lifecycle_step [DecidableEq σ] (ctx : Context σ κ δ) {s' : State σ κ δ} (h : Lifecycle [] s)
    (event : Event σ κ δ)
    (hstep : step ctx s event = some s') : Lifecycle [] s' := by
  have hkept : Kept s.m_pit s := ⟨h, rfl⟩
  cases event with
  | advance duration =>
    cases hstep
    exact h.frame ⟨rfl, rfl, rfl, fun _ => rfl, rfl, rfl⟩
  | addFace face =>
    cases hstep
    exact h.frame ⟨rfl, rfl, rfl, fun _ => rfl, rfl, rfl⟩
  | removeFace id =>
    obtain ⟨face, -, rfl⟩ := Option.map_eq_some_iff.mp hstep
    exact (hkept.cleanupOnFaceRemoval face s.m_pit).1.frame ⟨rfl, rfl, rfl, fun _ => rfl, rfl, rfl⟩
  | incomingInterest inFace interest actions =>
    cases hstep
    exact lifecycle_onIncomingInterest ctx h inFace interest actions
  | incomingData inFace data actions =>
    cases hstep
    exact (hkept.onIncomingData ctx inFace data actions).1
  | incomingNack inFace reason interest actions =>
    cases hstep
    exact (hkept.onIncomingNack inFace reason interest actions).1
  | newNextHop affected =>
    cases hstep
    exact (hkept.onNewNextHop affected).1
  | executeEvent actions =>
    obtain ⟨popped, hpop, rfl⟩ := Option.map_eq_some_iff.mp hstep
    exact lifecycle_executeEvent ctx h actions hpop
  | scheduleOther after =>
    cases hstep
    exact h.schedule after fun j hj => by cases hj
  | cancelOther id =>
    simp only [step] at hstep
    split at hstep
    · rename_i hother
      obtain ⟨info, hinfo, hid⟩ := List.any_eq_true.mp hother
      rw [Bool.and_eq_true, decide_eq_true_iff, decide_eq_true_iff] at hid
      cases hstep
      rw [← hid.1]
      apply (hkept.cancel hinfo _).1
      intro j hj
      rw [hid.2] at hj
      cases hj
    · cases hstep
  | changeTables m_cs m_deadNonceList =>
    cases hstep
    exact h.frame ⟨rfl, rfl, rfl, fun _ => rfl, rfl, rfl⟩

end Others

section Timers

variable {s : State σ κ δ}

theorem lifecycle_initial (m_cs : κ) (m_deadNonceList : δ) :
    Lifecycle [] (State.initial m_cs m_deadNonceList : State σ κ δ) where
  wellFormed := Scheduler.WellFormed.empty
  nodup := List.nodup_nil
  lt_length i hi := absurd hi List.not_mem_nil
  timer_iff i info hinfo := absurd hinfo List.not_mem_nil
  timer_lt i id htimer := by cases htimer
  armed i hi := absurd hi List.not_mem_nil
  held info hinfo := absurd hinfo List.not_mem_nil
  finalized_nodup := List.nodup_nil
  mem_finalized i := iff_of_false List.not_mem_nil fun hi => absurd hi.1 (Nat.not_lt_zero i)
  counted := rfl

theorem timers_eq_singleton (h : Lifecycle [] s) {i : ℕ} (hi : i ∈ s.m_pit) :
    ∃ info, timers s i = [info] ∧ s.timerOf i = some info.id := by
  obtain ⟨info, hinfo, hfinalize⟩ := h.armed i hi List.not_mem_nil
  refine ⟨info, ?_, (h.timer_iff i info hinfo).mp hfinalize⟩
  have hnodup : (timers s i).Nodup := (List.Nodup.of_map EventInfo.id h.wellFormed.nodup).filter _
  rw [← List.perm_singleton, List.perm_ext_iff_of_nodup hnodup (List.nodup_singleton info)]
  intro other
  rw [timers, List.mem_filter, List.mem_singleton, holds, decide_eq_true_iff]
  constructor
  · rintro ⟨hother, hholds⟩
    have hid := ((h.timer_iff i other hother).mp hholds).symm.trans ((h.timer_iff i info hinfo).mp hfinalize)
    exact h.wellFormed.eq_of_id hother hinfo (Option.some_inj.mp hid)
  · rintro rfl
    exact ⟨hinfo, hfinalize⟩

theorem timers_eq_nil (h : Lifecycle [] s) {i : ℕ} (hi : i ∉ s.m_pit) : timers s i = [] := by
  rw [timers, List.filter_eq_nil_iff]
  intro info hinfo hholds
  exact hi (h.held info hinfo i (of_decide_eq_true hholds))

theorem count_finalized (h : Lifecycle [] s) {i : ℕ} (hi : i < s.entries.length) :
    s.finalized.count i = if i ∈ s.m_pit then 0 else 1 := by
  split
  · rename_i hpit
    exact List.count_eq_zero_of_not_mem fun hmem => ((h.mem_finalized i).mp hmem).2 hpit
  · rename_i hpit
    exact List.count_eq_one_of_mem h.finalized_nodup ((h.mem_finalized i).mpr ⟨hi, hpit⟩)

theorem runCallback_quiet (ctx : Context σ κ δ) (s : State σ κ δ) (callback : Callback) :
    (runCallback ctx s [] callback).entries.length = s.entries.length ∧
      (runCallback ctx s [] callback).scheduler.m_queue.length ≤ s.scheduler.m_queue.length := by
  cases callback with
  | onInterestFinalize i =>
    have hsame := SameTimers.insertDeadNonceList ctx s i none
    refine ⟨hsame.length, ?_⟩
    rw [← hsame.scheduler]
    exact List.length_filter_le _ _
  | strategy i =>
    dsimp only [runCallback]
    split
    · exact ⟨rfl, Nat.le_refl _⟩
    · exact ⟨rfl, Nat.le_refl _⟩
  | other => exact ⟨rfl, Nat.le_refl _⟩

end Timers

section Runs

variable [DecidableEq σ] (ctx : Context σ κ δ) {s : State σ κ δ}

def Reachable (s : State σ κ δ) : Prop :=
  ∃ m_cs m_deadNonceList, Run (step ctx) (fun _ _ => True) (State.initial m_cs m_deadNonceList) s

/-- The clock goes on to the next event, whose callback runs; a strategy that is
called back does nothing. -/
def fireNext (s : State σ κ δ) : State σ κ δ :=
  match s.scheduler.m_queue with
  | [] => s
  | head :: _ =>
    let s := { s with now := max s.now head.expireTime }
    (step ctx s (.executeEvent [])).getD s

variable {ctx}

theorem Reachable.lifecycle (h : Reachable ctx s) : Lifecycle [] s := by
  obtain ⟨m_cs, m_deadNonceList, hrun⟩ := h
  exact hrun.invariant (fun _ event _ hlife _ hstep => lifecycle_step ctx hlife event hstep)
    (lifecycle_initial m_cs m_deadNonceList)

theorem fireNext_spec (h : Lifecycle [] s) : Lifecycle [] (fireNext ctx s) ∧
    (fireNext ctx s).entries.length = s.entries.length ∧
      (fireNext ctx s).scheduler.m_queue.length ≤ s.scheduler.m_queue.length - 1 := by
  unfold fireNext
  cases hqueue : s.scheduler.m_queue with
  | nil => exact ⟨h, rfl, by rw [hqueue]; exact Nat.zero_le _⟩
  | cons head queue =>
    have hlater : Lifecycle [] { s with now := max s.now head.expireTime } := h.frame ⟨rfl, rfl, rfl, fun _ => rfl, rfl, rfl⟩
    have hpop : s.scheduler.popExpired (max s.now head.expireTime) =
        some (head, { s.scheduler with m_queue := queue }) := by
      unfold Scheduler.popExpired
      rw [hqueue]
      exact if_neg (not_lt.mpr (le_max_right _ _))
    dsimp only [step]
    rw [hpop]
    have hquiet := runCallback_quiet ctx
      { s with now := max s.now head.expireTime, scheduler := { s.scheduler with m_queue := queue } } head.callback
    exact ⟨lifecycle_executeEvent ctx hlater [] hpop, hquiet⟩

/-- Once every event of the queue has fired, the PIT is empty. -/
theorem iterate_fireNext (h : Lifecycle [] s) (n : ℕ) (hn : s.scheduler.m_queue.length ≤ n) :
    Lifecycle [] ((fireNext ctx)^[n] s) ∧ ((fireNext ctx)^[n] s).entries.length = s.entries.length ∧
      ((fireNext ctx)^[n] s).m_pit = [] := by
  induction n generalizing s with
  | zero =>
    refine ⟨h, rfl, List.eq_nil_iff_forall_not_mem.mpr ?_⟩
    intro i hi
    obtain ⟨info, hinfo, -⟩ := h.armed i hi List.not_mem_nil
    rw [List.length_eq_zero_iff.mp (Nat.le_zero.mp hn)] at hinfo
    cases hinfo
  | succ n ih =>
    have hfired : _ ∧ (fireNext ctx s).entries.length = _ ∧ _ := fireNext_spec h
    obtain ⟨hnext, hlength, hqueue⟩ := hfired
    obtain ⟨hlife, hentries, hpit⟩ := ih hnext (by omega)
    rw [Function.iterate_succ_apply]
    exact ⟨hlife, hentries.trans hlength, hpit⟩

/-- Every entry of the PIT has exactly one armed timer, which is the one that it
keeps, and no other entry has any; every entry that was inserted is in the PIT or
has been finalized once, and is finalized once when the timers have fired. -/
theorem reachable_lifecycle (h : Reachable ctx s) :
    (∀ i ∈ s.m_pit, ∃ info, timers s i = [info] ∧ s.timerOf i = some info.id) ∧
      (∀ i, i ∉ s.m_pit → timers s i = []) ∧ s.m_pit.Nodup ∧
        (∀ i, i ∈ s.m_pit ∨ i ∈ s.finalized ↔ i < s.entries.length) ∧
          (∀ i < s.entries.length, s.finalized.count i = if i ∈ s.m_pit then 0 else 1) ∧
            ∀ i < s.entries.length, ((fireNext ctx)^[s.scheduler.m_queue.length] s).finalized.count i = 1 := by
  have hlife := h.lifecycle
  refine ⟨fun i hi => timers_eq_singleton hlife hi, fun i hi => timers_eq_nil hlife hi, hlife.nodup, ?_,
    fun i hi => count_finalized hlife hi, ?_⟩
  · intro i
    rw [hlife.mem_finalized]
    constructor
    · rintro (hpit | hfinalized)
      · exact hlife.lt_length i hpit
      · exact hfinalized.1
    · intro hi
      by_cases hpit : i ∈ s.m_pit
      · exact Or.inl hpit
      · exact Or.inr ⟨hi, hpit⟩
  · intro i hi
    have hall : _ ∧ _ ∧ ((fireNext ctx)^[s.scheduler.m_queue.length] s).m_pit = [] := iterate_fireNext hlife _ (Nat.le_refl _)
    obtain ⟨hfired, hlength, hpit⟩ := hall
    rw [count_finalized hfired (by omega), hpit]
    rfl

end Runs

section Example

def plainContext : Context Unit Unit (List (Name × ℕ)) where
  getMustBeFresh _ := false
  matchesData interest data := interest.m_name = data.m_name
  lookup _ _ := none
  insertCs _ _ m_cs := m_cs
  cachesUnsolicited _ _ := false
  hasNonce dnl name nonce := (name, nonce) ∈ dnl
  addNonce name nonce dnl := dnl ++ [(name, nonce)]
  deadNonceListLifetime := 6000000000
  fromIsoString _ := .ok 0
  m_networkRegionTable := []

def faceOf (id : ℕ) : Face := ⟨id, .scopeNonLocal, .pointToPoint⟩

def interestOf (nonce : ℕ) : Interest Unit := ⟨[⟨8, [97]⟩], (), nonce, 4000, [], none⟩

def reuseEvents : List (Event Unit Unit (List (Name × ℕ))) :=
  [.incomingInterest (faceOf 256) (interestOf 1) [.sendInterest (faceOf 257) (interestOf 1)],
    .incomingInterest (faceOf 257) (interestOf 1) [],
    .incomingData (faceOf 257) ⟨[⟨8, [97]⟩], ⟨0, 0, none, []⟩, ⟨21, []⟩, none, none⟩ fun _ => [],
    .incomingInterest (faceOf 256) (interestOf 2) [.sendInterest (faceOf 257) (interestOf 2)]]

/-- The entry that is used again has the timer of the last Interest only. -/
theorem reachable_lifecycle_reuse :
    ∃ s, runOf (step plainContext) (fun _ _ => True) (State.initial () []) reuseEvents = some s ∧
    s.entries.length = 1 ∧ s.m_pit = [0] ∧ ∃ info, timers s 0 = [info] ∧ s.timerOf 0 = some info.id := by
  have hrun : (runOf (step plainContext) (fun _ _ => True) (State.initial () []) reuseEvents).map
      (fun s => (s.entries.length, s.m_pit)) = some (1, [0]) := by decide
  obtain ⟨s, hs, heq⟩ := Option.map_eq_some_iff.mp hrun
  obtain ⟨hlength, hpit⟩ := Prod.mk.inj heq
  have hreachable : Reachable plainContext s := ⟨(), [], Run.of_runOf hs⟩
  refine ⟨s, hs, hlength, hpit, (reachable_lifecycle hreachable).1 0 ?_⟩
  rw [hpit]
  exact List.mem_singleton_self 0

end Example

end LeoNdn.PitTimers
