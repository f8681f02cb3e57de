import LeoNdn.FaceCallbacks

/-!
Each Interest that an application expresses comes to one end: Data, a Nack, the timeout,
or its removal.
-/

namespace LeoNdn.FaceCallbacks

open LeoNdn.NdnPacket LeoNdn.Schedulers
open LeoNdn.PitPipelines (Interest)
open LeoNdn.ContentStoreTable (toNanoseconds)

variable {σ φ : Type} [DecidableEq σ]

/-- The Interest whose record has left the table with this callback. -/
def Call.outcomeOf : Call σ → Option ℕ
  | .onData id _ => some id
  | .onNack id _ => some id
  | .onTimeout id => some id
  | .onInterest _ _ => none

namespace Face

def pendingIds (s : Face σ φ) : List ℕ := s.m_pendingInterestTable.map PendingInterest.id

def outcomes (s : Face σ φ) : List ℕ := s.calls.filterMap Call.outcomeOf

end Face

/-- What a callback says is right for an Interest, and for the time since this has been expressed. -/
def Suits (ctx : Context σ φ) (now : ℤ) (interest : Interest σ) (created : ℤ) : Call σ → Prop
  | .onData _ data => ctx.matchesData interest data = true
  | .onNack _ nack => matchesInterest nack.m_interest interest = true
  | .onTimeout _ => created + toNanoseconds interest.m_interestLifetime ≤ now
  | .onInterest _ _ => True

/-- A callback that ends an Interest is for one that the application has expressed, and comes for a reason. -/
def Justified (ctx : Context σ φ) (now : ℤ) (history : History σ) (call : Call σ) : Prop :=
  ∀ id, call.outcomeOf = some id → ∃ interest created, (id, interest, created) ∈ history.expressed ∧ Suits ctx now interest created call

/-- The table, the timers and the callbacks agree with what the application has done. -/
structure Consistent (ctx : Context σ φ) (s : Face σ φ) (history : History σ) : Prop where
  scheduler : s.m_scheduler.WellFormed
  lt_newId : ∀ entry ∈ s.m_pendingInterestTable, entry.id < s.newId
  nodup : s.pendingIds.Nodup
  timer : ∀ entry ∈ s.m_pendingInterestTable, ∃ event ∈ s.m_scheduler.m_queue, event.id = entry.m_timeoutEvent ∧
    event.callback = entry.id
  owner : ∀ event ∈ s.m_scheduler.m_queue, ∃ entry ∈ s.m_pendingInterestTable, entry.id = event.callback ∧
    entry.m_timeoutEvent = event.id
  expressed_lt : ∀ record ∈ history.expressed, record.1 < s.newId
  expressed_nodup : (history.expressed.map Prod.fst).Nodup
  app_iff : ∀ entry ∈ s.m_pendingInterestTable, entry.m_origin = .app ↔ entry.id ∈ history.expressed.map Prod.fst
  deadline : ∀ record ∈ history.expressed, ∀ entry ∈ s.m_pendingInterestTable, entry.id = record.1 →
    entry.m_interest = record.2.1 ∧ s.now ≤ max record.2.2 (record.2.2 + toNanoseconds record.2.1.m_interestLifetime) ∧
    ∀ event ∈ s.m_scheduler.m_queue, event.id = entry.m_timeoutEvent →
      event.expireTime = record.2.2 + toNanoseconds record.2.1.m_interestLifetime
  fresh : ∀ id, s.newId ≤ id → s.outcomes.count id = 0 ∧ history.removed.count id = 0
  once : ∀ record ∈ history.expressed,
    s.outcomes.count record.1 + s.pendingIds.count record.1 + history.removed.count record.1 = 1
  justified : ∀ call ∈ s.calls, Justified ctx s.now history call
  nacked : ∀ entry ∈ s.m_pendingInterestTable, ∀ nack ∈ entry.m_leastSevereNack,
    matchesInterest nack.m_interest entry.m_interest = true

/-- Each Interest of the application that is pending waits for a destination. -/
def Waiting (s : Face σ φ) : Prop := ∀ entry ∈ s.m_pendingInterestTable, entry.m_origin = .app → 1 ≤ entry.m_nNotNacked

section Initial

theorem consistent_initial (ctx : Context σ φ) : Consistent ctx (Face.initial : Face σ φ) ⟨[], []⟩ := by
  refine ⟨Scheduler.WellFormed.empty, ?_, List.nodup_nil, ?_, ?_, ?_, List.nodup_nil, ?_, ?_, ?_, ?_, ?_, ?_⟩ <;>
    simp [Face.initial, Face.outcomes, Scheduler.empty]

omit [DecidableEq σ] in
theorem waiting_initial : Waiting (Face.initial : Face σ φ) := fun _ hentry => absurd hentry List.not_mem_nil

end Initial

section Changes

variable {ctx : Context σ φ} {s : Face σ φ} {history : History σ}

/-- What a change keeps of a record; the Nack that is kept is for its Interest. -/
structure Same (entry entry' : PendingInterest σ) : Prop where
  id : entry'.id = entry.id
  interest : entry'.m_interest = entry.m_interest
  origin : entry'.m_origin = entry.m_origin
  timeoutEvent : entry'.m_timeoutEvent = entry.m_timeoutEvent
  nacked : ∀ nack ∈ entry'.m_leastSevereNack, nack ∈ entry.m_leastSevereNack ∨
    matchesInterest nack.m_interest entry.m_interest = true

theorem Same.refl (entry : PendingInterest σ) : Same entry entry := ⟨rfl, rfl, rfl, rfl, fun _ hnack => Or.inl hnack⟩

theorem same_recordForwarding (entry : PendingInterest σ) : Same entry entry.recordForwarding :=
  ⟨rfl, rfl, rfl, rfl, fun _ hnack => Or.inl hnack⟩

theorem same_recordNack {nack : Nack σ} {entry : PendingInterest σ}
    (hmatch : matchesInterest nack.m_interest entry.m_interest = true) : Same entry (entry.recordNack nack) := by
  refine ⟨rfl, rfl, rfl, rfl, fun kept hkept => ?_⟩
  dsimp only [PendingInterest.recordNack] at hkept
  split at hkept
  · cases hkept
    exact Or.inr hmatch
  · rename_i least hleast
    split at hkept
    · cases hkept
      exact Or.inr hmatch
    · cases hkept
      exact Or.inl hleast

theorem Consistent.change (h : Consistent ctx s history) {f : PendingInterest σ → PendingInterest σ}
    (hf : ∀ entry ∈ s.m_pendingInterestTable, Same entry (f entry)) (filters : List (InterestFilterRecord φ))
    (sent : List (Packet σ)) {calls : List (Call σ)} (hcalls : ∀ call ∈ calls, call.outcomeOf = none) :
    Consistent ctx { s with
      m_pendingInterestTable := s.m_pendingInterestTable.map f
      m_interestFilterTable := filters
      sent := sent
      calls := s.calls ++ calls } history := by
  have hids : (s.m_pendingInterestTable.map f).map PendingInterest.id = s.pendingIds := by
    rw [List.map_map]
    exact List.map_congr_left fun entry hentry => (hf entry hentry).id
  have houtcomes : (s.calls ++ calls).filterMap Call.outcomeOf = s.outcomes := by
    rw [List.filterMap_append, List.filterMap_eq_nil_iff.mpr hcalls, List.append_nil]
    rfl
  refine ⟨h.scheduler, ?_, ?_, ?_, ?_, h.expressed_lt, h.expressed_nodup, ?_, ?_, ?_, ?_, ?_, ?_⟩
  · intro changed hchanged
    obtain ⟨entry, hentry, rfl⟩ := List.mem_map.mp hchanged
    rw [(hf entry hentry).id]
    exact h.lt_newId entry hentry
  · change (List.map _ _).Nodup
    rw [hids]
    exact h.nodup
  · intro changed hchanged
    obtain ⟨entry, hentry, rfl⟩ := List.mem_map.mp hchanged
    rw [(hf entry hentry).id, (hf entry hentry).timeoutEvent]
    exact h.timer entry hentry
  · intro event hevent
    obtain ⟨entry, hentry, hid, htimer⟩ := h.owner event hevent
    exact ⟨f entry, List.mem_map_of_mem hentry, (hf entry hentry).id.trans hid, (hf entry hentry).timeoutEvent.trans htimer⟩
  · intro changed hchanged
    obtain ⟨entry, hentry, rfl⟩ := List.mem_map.mp hchanged
    rw [(hf entry hentry).id, (hf entry hentry).origin]
    exact h.app_iff entry hentry
  · intro record hrecord changed hchanged hid
    obtain ⟨entry, hentry, rfl⟩ := List.mem_map.mp hchanged
    rw [(hf entry hentry).id] at hid
    rw [(hf entry hentry).interest, (hf entry hentry).timeoutEvent]
    exact h.deadline record hrecord entry hentry hid
  · intro id hid
    rw [Face.outcomes, houtcomes]
    exact h.fresh id hid
  · intro record hrecord
    rw [Face.outcomes, Face.pendingIds, houtcomes, hids]
    exact h.once record hrecord
  · intro call hcall
    rcases List.mem_append.mp hcall with hold | hnew
    · exact h.justified call hold
    · intro id hid
      rw [hcalls call hnew] at hid
      cases hid
  · intro changed hchanged nack hnack
    obtain ⟨entry, hentry, rfl⟩ := List.mem_map.mp hchanged
    rw [(hf entry hentry).interest]
    exact ((hf entry hentry).nacked nack hnack).elim (h.nacked entry hentry nack) id

theorem Consistent.unchanged (h : Consistent ctx s history) (filters : List (InterestFilterRecord φ)) (sent : List (Packet σ)) :
    Consistent ctx { s with m_interestFilterTable := filters, sent := sent } history := by
  have hchange := h.change (fun entry _ => Same.refl entry) filters sent (List.forall_mem_nil _)
  rw [List.append_nil, List.map_id'] at hchange
  exact hchange

theorem consistent_dispatchInterest (h : Consistent ctx s history) (id : ℕ) (origin : PendingInterestOrigin) (interest : Interest σ) :
    Consistent ctx (s.dispatchInterest ctx id origin interest) history := by
  unfold Face.dispatchInterest
  generalize s.m_interestFilterTable.filter (Face.filterMatches ctx origin interest) = filters
  induction filters generalizing s with
  | nil => exact h
  | cons filter filters ih =>
    refine ih (h.change (fun entry _ => ?_) _ _ fun call hcall => ?_)
    · split
      · exact same_recordForwarding entry
      · exact Same.refl entry
    · rw [List.mem_singleton.mp hcall]
      rfl

end Changes

section Removals

variable {ctx : Context σ φ} {s : Face σ φ} {history : History σ} {p : PendingInterest σ → Bool}

omit [DecidableEq σ] in
theorem mem_cancelAll {entries : List (PendingInterest σ)} {scheduler : Scheduler ℕ} {event : EventInfo ℕ} :
    event ∈ (entries.foldl (fun scheduler entry => scheduler.cancel (some entry.m_timeoutEvent)) scheduler).m_queue ↔
      event ∈ scheduler.m_queue ∧ ∀ entry ∈ entries, entry.m_timeoutEvent ≠ event.id := by
  induction entries generalizing scheduler with
  | nil => simp
  | cons entry entries ih =>
    rw [List.foldl_cons, ih, Scheduler.cancel, List.mem_filter, decide_eq_true_eq, List.forall_mem_cons, and_assoc]
    exact and_congr_right fun _ => and_congr_left fun _ => not_congr Option.some_inj

omit [DecidableEq σ] in
theorem wellFormed_cancelAll {entries : List (PendingInterest σ)} {scheduler : Scheduler ℕ} (h : scheduler.WellFormed) :
    (entries.foldl (fun scheduler entry => scheduler.cancel (some entry.m_timeoutEvent)) scheduler).WellFormed := by
  induction entries generalizing scheduler with
  | nil => exact h
  | cons entry entries ih => exact ih (h.cancel _)

theorem Consistent.entry_eq (h : Consistent ctx s history) {entry other : PendingInterest σ}
    (hentry : entry ∈ s.m_pendingInterestTable) (hother : other ∈ s.m_pendingInterestTable) (hid : entry.id = other.id) :
    entry = other :=
  List.inj_on_of_nodup_map h.nodup hentry hother hid

theorem Consistent.entry_eq_of_timer (h : Consistent ctx s history) {entry other : PendingInterest σ}
    (hentry : entry ∈ s.m_pendingInterestTable) (hother : other ∈ s.m_pendingInterestTable)
    (htimer : entry.m_timeoutEvent = other.m_timeoutEvent) : entry = other := by
  obtain ⟨event, hevent, hid, hcallback⟩ := h.timer entry hentry
  obtain ⟨event', hevent', hid', hcallback'⟩ := h.timer other hother
  have heq : event = event' := h.scheduler.eq_of_id hevent hevent' (by rw [hid, hid', htimer])
  exact h.entry_eq hentry hother (by rw [← hcallback, ← hcallback', heq])

omit [DecidableEq σ] in
theorem count_pendingIds (p : PendingInterest σ → Bool) (entries : List (PendingInterest σ)) (id : ℕ) :
    (entries.map PendingInterest.id).count id = ((entries.filter (fun entry => ! p entry)).map PendingInterest.id).count id +
      ((entries.filter p).map PendingInterest.id).count id := by
  induction entries with
  | nil => rfl
  | cons entry entries ih =>
    cases hp : p entry <;> simp [hp, List.count_cons, ih] <;> omega

/-- Records leave the table with their timers: each is accounted for by a callback or the application itself. -/
theorem Consistent.remove (h : Consistent ctx s history) (p : PendingInterest σ → Bool) {scheduler : Scheduler ℕ}
    (hscheduler : scheduler.WellFormed) (hevents : ∀ event, event ∈ scheduler.m_queue ↔ event ∈ s.m_scheduler.m_queue ∧
      ∀ entry ∈ s.m_pendingInterestTable.filter p, entry.m_timeoutEvent ≠ event.id)
    (calls : List (Call σ)) (removed : List ℕ) (hjustified : ∀ call ∈ calls, Justified ctx s.now history call)
    (hcount : ∀ id, id ∈ history.expressed.map Prod.fst → (calls.filterMap Call.outcomeOf).count id + removed.count id =
      ((s.m_pendingInterestTable.filter p).map PendingInterest.id).count id)
    (hold : ∀ id, id ∈ calls.filterMap Call.outcomeOf ∨ id ∈ removed → id ∈ s.pendingIds) :
    Consistent ctx { s with
      m_scheduler := scheduler
      calls := s.calls ++ calls
      m_pendingInterestTable := s.m_pendingInterestTable.filter (fun entry => ! p entry) }
      { history with removed := history.removed ++ removed } := by
  have hkept : ∀ {entry}, entry ∈ s.m_pendingInterestTable.filter (fun entry => ! p entry) →
      entry ∈ s.m_pendingInterestTable ∧ p entry = false := by
    intro entry hentry
    obtain ⟨hmem, hp⟩ := List.mem_filter.mp hentry
    exact ⟨hmem, by simpa using hp⟩
  have hevent : ∀ {event}, event ∈ scheduler.m_queue → event ∈ s.m_scheduler.m_queue := fun hevent => ((hevents _).mp hevent).1
  have hpending : ∀ id ∈ s.pendingIds, id < s.newId := by
    intro id hid
    obtain ⟨entry, hentry, rfl⟩ := List.mem_map.mp hid
    exact h.lt_newId entry hentry
  refine ⟨hscheduler, fun entry hentry => h.lt_newId entry (hkept hentry).1,
    h.nodup.sublist (List.filter_sublist.map PendingInterest.id), ?_, ?_, h.expressed_lt, h.expressed_nodup,
    fun entry hentry => h.app_iff entry (hkept hentry).1, ?_, ?_, ?_, ?_, fun entry hentry => h.nacked entry (hkept hentry).1⟩
  · intro entry hentry
    obtain ⟨hmem, hp⟩ := hkept hentry
    obtain ⟨event, hevent, hid, hcallback⟩ := h.timer entry hmem
    refine ⟨event, (hevents event).mpr ⟨hevent, fun other hother htimer => ?_⟩, hid, hcallback⟩
    obtain ⟨hother, hp'⟩ := List.mem_filter.mp hother
    rw [h.entry_eq_of_timer hother hmem (htimer.trans hid), hp] at hp'
    cases hp'
  · intro event hevent
    obtain ⟨hevent, hkeep⟩ := (hevents event).mp hevent
    obtain ⟨entry, hentry, hid, htimer⟩ := h.owner event hevent
    refine ⟨entry, List.mem_filter.mpr ⟨hentry, ?_⟩, hid, htimer⟩
    cases hp : p entry with
    | false => rfl
    | true => exact absurd htimer (hkeep entry (List.mem_filter.mpr ⟨hentry, hp⟩))
  · intro record hrecord entry hentry hid
    obtain ⟨hinterest, hnow, htime⟩ := h.deadline record hrecord entry (hkept hentry).1 hid
    exact ⟨hinterest, hnow, fun event hmem => htime event (hevent hmem)⟩
  · intro id hid
    have hfresh := h.fresh id hid
    have hnot : id ∉ s.pendingIds := fun hmem => absurd (hpending id hmem) (Nat.not_lt.mpr hid)
    have hcalls : (calls.filterMap Call.outcomeOf).count id = 0 := List.count_eq_zero.mpr fun hmem => hnot (hold id (Or.inl hmem))
    have hremoved : removed.count id = 0 := List.count_eq_zero.mpr fun hmem => hnot (hold id (Or.inr hmem))
    dsimp only [Face.outcomes]
    rw [List.filterMap_append, List.count_append, List.count_append, hcalls, hremoved]
    exact hfresh
  · intro record hrecord
    have honce := h.once record hrecord
    have hsplit := count_pendingIds p s.m_pendingInterestTable record.1
    have hcount := hcount record.1 (List.mem_map_of_mem hrecord)
    dsimp only [Face.outcomes, Face.pendingIds] at honce ⊢
    rw [List.filterMap_append, List.count_append, List.count_append]
    omega
  · intro call hcall
    exact (List.mem_append.mp hcall).elim (h.justified call) (hjustified call)

theorem Consistent.removeIf (h : Consistent ctx s history) (p : PendingInterest σ → Bool) :
    Consistent ctx (s.removeIf p)
      { history with removed := history.removed ++ (s.m_pendingInterestTable.filter p).map PendingInterest.id } := by
  have hremove := h.remove p (wellFormed_cancelAll h.scheduler) (fun _ => mem_cancelAll) []
    ((s.m_pendingInterestTable.filter p).map PendingInterest.id) (List.forall_mem_nil _) (fun id _ => Nat.zero_add _) ?_
  · rw [List.append_nil] at hremove
    exact hremove
  · rintro id (hnil | hmem)
    · cases hnil
    · exact (List.filter_sublist.map PendingInterest.id).subset hmem

theorem Consistent.callBack (h : Consistent ctx s history) (p : PendingInterest σ → Bool) {scheduler : Scheduler ℕ}
    (hscheduler : scheduler.WellFormed) (hevents : ∀ event, event ∈ scheduler.m_queue ↔ event ∈ s.m_scheduler.m_queue ∧
      ∀ entry ∈ s.m_pendingInterestTable.filter p, entry.m_timeoutEvent ≠ event.id)
    {call : PendingInterest σ → Call σ} (hcall : ∀ entry, (call entry).outcomeOf = some entry.id)
    (hsuits : ∀ entry ∈ s.m_pendingInterestTable, p entry = true → ∀ created, (∀ event ∈ s.m_scheduler.m_queue,
      event.id = entry.m_timeoutEvent → event.expireTime = created + toNanoseconds entry.m_interest.m_interestLifetime) →
        Suits ctx s.now entry.m_interest created (call entry)) :
    Consistent ctx { s with
      m_scheduler := scheduler
      calls := s.calls ++ Face.callsOf call (s.m_pendingInterestTable.filter p)
      m_pendingInterestTable := s.m_pendingInterestTable.filter (fun entry => ! p entry) } history := by
  have houtcomes : (Face.callsOf call (s.m_pendingInterestTable.filter p)).filterMap Call.outcomeOf =
      ((s.m_pendingInterestTable.filter p).filter (fun entry => entry.m_origin = .app)).map PendingInterest.id := by
    rw [Face.callsOf, List.filterMap_map, ← List.filterMap_eq_map]
    exact List.filterMap_congr fun entry _ => hcall entry
  have hremove := h.remove p hscheduler hevents (Face.callsOf call (s.m_pendingInterestTable.filter p)) [] ?_ ?_ ?_
  · rw [List.append_nil] at hremove
    exact hremove
  · intro made hmade
    obtain ⟨entry, hentry, rfl⟩ := List.mem_map.mp hmade
    obtain ⟨hentry, happ⟩ := List.mem_filter.mp hentry
    obtain ⟨hmem, hp⟩ := List.mem_filter.mp hentry
    intro id hid
    rw [hcall, Option.some.injEq] at hid
    obtain ⟨⟨number, interest, created⟩, hrecord, hnumber⟩ := List.mem_map.mp ((h.app_iff entry hmem).mp (of_decide_eq_true happ))
    obtain ⟨hinterest, -, htime⟩ := h.deadline _ hrecord entry hmem hnumber.symm
    dsimp only at hnumber hinterest htime
    rw [hnumber, hid, ← hinterest] at hrecord
    rw [← hinterest] at htime
    exact ⟨entry.m_interest, created, hrecord, hsuits entry hmem hp created htime⟩
  · intro id hid
    have hsplit := count_pendingIds (fun entry => decide (entry.m_origin = .app)) (s.m_pendingInterestTable.filter p) id
    have hforwarder : (((s.m_pendingInterestTable.filter p).filter (fun entry => ! decide (entry.m_origin = .app))).map
        PendingInterest.id).count id = 0 := by
      refine List.count_eq_zero.mpr fun hmem => ?_
      obtain ⟨entry, hentry, rfl⟩ := List.mem_map.mp hmem
      obtain ⟨hentry, horigin⟩ := List.mem_filter.mp hentry
      rw [decide_eq_true ((h.app_iff entry (List.mem_filter.mp hentry).1).mpr hid)] at horigin
      cases horigin
    rw [houtcomes, List.count_nil, Nat.add_zero, hsplit, hforwarder, Nat.zero_add]
  · rw [houtcomes]
    rintro id (hmem | hnil)
    · exact ((List.filter_sublist.trans List.filter_sublist).map PendingInterest.id).subset hmem
    · cases hnil

theorem consistent_satisfyPendingInterests (h : Consistent ctx s history) (data : Data) :
    Consistent ctx (s.satisfyPendingInterests ctx data).1 history :=
  h.callBack (fun entry => ctx.matchesData entry.m_interest data) (wellFormed_cancelAll h.scheduler)
    (fun _ => mem_cancelAll) (fun _ => rfl) fun _ _ hmatch _ _ => hmatch

theorem consistent_noteNack (h : Consistent ctx s history) (nack : Nack σ) : Consistent ctx (s.noteNack nack) history := by
  have hchange := h.change (f := fun entry => if matchesInterest nack.m_interest entry.m_interest then entry.recordNack nack else entry)
    (fun entry _ => ?_) s.m_interestFilterTable s.sent (List.forall_mem_nil _)
  · rw [List.append_nil] at hchange
    exact hchange
  · split
    · rename_i hmatch
      exact same_recordNack hmatch
    · exact Same.refl entry

theorem consistent_nackPendingInterests (h : Consistent ctx s history) (nack : Nack σ) :
    Consistent ctx (s.nackPendingInterests nack).1 history := by
  have hnoted := consistent_noteNack h nack
  refine hnoted.callBack (Face.allNacked nack) (wellFormed_cancelAll hnoted.scheduler) (fun _ => mem_cancelAll)
    (fun _ => rfl) fun entry hentry hnacked _ _ => ?_
  change matchesInterest (entry.m_leastSevereNack.getD nack).m_interest entry.m_interest = true
  cases hleast : entry.m_leastSevereNack with
  | none => exact (Bool.and_eq_true_iff.mp hnacked).1
  | some least => exact hnoted.nacked entry hentry least hleast

theorem consistent_invokeTimeoutCallback (h : Consistent ctx s history) {s' : Face σ φ}
    (hexpire : s.invokeTimeoutCallback = some s') : Consistent ctx s' history := by
  obtain ⟨⟨info, scheduler⟩, hpop, rfl⟩ := Option.map_eq_some_iff.mp hexpire
  obtain ⟨hqueue, -, htime⟩ := Scheduler.popExpired_eq hpop
  have hinfo : info ∈ s.m_scheduler.m_queue := hqueue ▸ List.mem_cons_self
  obtain ⟨owner, howner, hid, htimer⟩ := h.owner info hinfo
  refine h.callBack (fun entry => decide (entry.id = info.callback)) (h.scheduler.popExpired hpop) (fun event => ?_)
    (fun _ => rfl) fun entry hentry hp created hdeadline => ?_
  · have hnodup := h.scheduler.nodup
    rw [hqueue, List.map_cons, List.nodup_cons] at hnodup
    have hremoved : ∀ entry, entry ∈ s.m_pendingInterestTable.filter (fun entry => decide (entry.id = info.callback)) ↔ entry = owner := by
      intro entry
      rw [List.mem_filter, decide_eq_true_eq]
      constructor
      · rintro ⟨hentry, hcallback⟩
        exact h.entry_eq hentry howner (hcallback.trans hid.symm)
      · rintro rfl
        exact ⟨howner, hid⟩
    rw [hqueue, List.mem_cons]
    constructor
    · intro hrest
      refine ⟨Or.inr hrest, fun entry hentry hevent => ?_⟩
      rw [(hremoved entry).mp hentry, htimer] at hevent
      exact hnodup.1 (hevent ▸ List.mem_map_of_mem hrest)
    · rintro ⟨rfl | hrest, hkeep⟩
      · exact absurd htimer (hkeep owner ((hremoved owner).mpr rfl))
      · exact hrest
  · rw [decide_eq_true_eq] at hp
    obtain rfl := h.entry_eq hentry howner (hp.trans hid.symm)
    exact (hdeadline info hinfo htimer.symm).ge.trans htime

end Removals

section Steps

variable {ctx : Context σ φ} {s s' : Face σ φ} {history : History σ}

theorem Justified.mono {now now' : ℤ} {expressed : List (ℕ × Interest σ × ℤ)} (hnow : now ≤ now')
    (hexpressed : ∀ record ∈ history.expressed, record ∈ expressed) {call : Call σ} (h : Justified ctx now history call) :
    Justified ctx now' { history with expressed := expressed } call := by
  intro id hid
  obtain ⟨interest, created, hrecord, hsuits⟩ := h id hid
  refine ⟨interest, created, hexpressed _ hrecord, ?_⟩
  cases call with
  | onTimeout => exact le_trans hsuits hnow
  | _ => exact hsuits

/-- A new record takes an id that nothing has had; it is in the history where the application has asked for it. -/
theorem Consistent.insertPending (h : Consistent ctx s history) (interest : Interest σ) (origin : PendingInterestOrigin) :
    Consistent ctx (s.insertPending interest origin)
      { history with expressed := history.expressed ++ if origin = .app then [(s.newId, interest, s.now)] else [] } := by
  have hrecord : ∀ {record}, record ∈ history.expressed ++ (if origin = .app then [(s.newId, interest, s.now)] else []) ↔
      record ∈ history.expressed ∨ origin = .app ∧ record = (s.newId, interest, s.now) := by
    intro record
    split <;> rename_i horigin <;> simp [horigin]
  have hpending : s.newId ∉ s.pendingIds := by
    intro hmem
    obtain ⟨entry, hentry, hid⟩ := List.mem_map.mp hmem
    exact absurd hid (Nat.ne_of_lt (h.lt_newId entry hentry))
  have hevent : ∀ {event}, event ∈ (s.insertPending interest origin).m_scheduler.m_queue ↔
      event = ⟨s.m_scheduler.nextId, s.now + toNanoseconds interest.m_interestLifetime, s.newId⟩ ∨
        event ∈ s.m_scheduler.m_queue := mem_insertEvent
  have hentry : ∀ {entry}, entry ∈ (s.insertPending interest origin).m_pendingInterestTable ↔
      entry ∈ s.m_pendingInterestTable ∨ entry = ⟨s.newId, interest, origin, s.m_scheduler.nextId, 0, none⟩ := by
    intro entry
    rw [← List.mem_singleton, ← List.mem_append]
    rfl
  refine ⟨h.scheduler.scheduleEvent _ _ _, ?_, ?_, ?_, ?_, ?_, ?_, ?_, ?_, ?_, ?_, ?_, ?_⟩
  · intro entry hmem
    rcases hentry.mp hmem with hold | rfl
    · exact Nat.lt_succ_of_lt (h.lt_newId entry hold)
    · exact Nat.lt_succ_self _
  · dsimp only [Face.pendingIds, Face.insertPending]
    rw [List.map_append, List.nodup_append]
    refine ⟨h.nodup, List.nodup_singleton _, fun id hid other hother heq => hpending ?_⟩
    rw [heq, List.mem_singleton.mp hother] at hid
    exact hid
  · intro entry hmem
    rcases hentry.mp hmem with hold | rfl
    · obtain ⟨event, hmem, hrest⟩ := h.timer entry hold
      exact ⟨event, hevent.mpr (Or.inr hmem), hrest⟩
    · exact ⟨_, hevent.mpr (Or.inl rfl), rfl, rfl⟩
  · intro event hmem
    rcases hevent.mp hmem with rfl | hold
    · exact ⟨_, hentry.mpr (Or.inr rfl), rfl, rfl⟩
    · obtain ⟨entry, hmem, hrest⟩ := h.owner event hold
      exact ⟨entry, hentry.mpr (Or.inl hmem), hrest⟩
  · intro record hmem
    rcases hrecord.mp hmem with hold | ⟨-, rfl⟩
    · exact Nat.lt_succ_of_lt (h.expressed_lt record hold)
    · exact Nat.lt_succ_self _
  · rw [List.map_append, List.nodup_append]
    refine ⟨h.expressed_nodup, ?_, ?_⟩
    · split
      · exact List.nodup_singleton _
      · exact List.nodup_nil
    · rintro id hid other hother rfl
      obtain ⟨record, hold, rfl⟩ := List.mem_map.mp hid
      split at hother
      · exact absurd (List.mem_singleton.mp hother) (Nat.ne_of_lt (h.expressed_lt record hold))
      · cases hother
  · intro entry hmem
    have hids : ∀ {id}, id ∈ (history.expressed ++ (if origin = .app then [(s.newId, interest, s.now)] else [])).map Prod.fst ↔
        id ∈ history.expressed.map Prod.fst ∨ origin = .app ∧ id = s.newId := by
      intro id
      split <;> rename_i horigin <;> simp [horigin]
    rw [hids]
    rcases hentry.mp hmem with hold | rfl
    · rw [h.app_iff entry hold]
      exact (or_iff_left fun hnew => absurd hnew.2 (Nat.ne_of_lt (h.lt_newId entry hold))).symm
    · refine ⟨fun happ => Or.inr ⟨happ, rfl⟩, fun hid => hid.elim (fun hold => ?_) And.left⟩
      obtain ⟨record, hold, hid⟩ := List.mem_map.mp hold
      exact absurd hid (Nat.ne_of_lt (h.expressed_lt record hold))
  · intro record hmem entry hmem' hid
    rcases hrecord.mp hmem with hold | ⟨-, rfl⟩ <;> rcases hentry.mp hmem' with hold' | rfl
    · obtain ⟨hinterest, hnow, htime⟩ := h.deadline record hold entry hold' hid
      refine ⟨hinterest, hnow, fun event hmem heq => ?_⟩
      rcases hevent.mp hmem with rfl | hevent
      · obtain ⟨timer, htimer, htimerId, -⟩ := h.timer entry hold'
        exact absurd (htimerId.trans heq.symm) (Nat.ne_of_lt (h.scheduler.lt_nextId timer htimer))
      · exact htime event hevent heq
    · exact absurd hid.symm (Nat.ne_of_lt (h.expressed_lt record hold))
    · exact absurd hid (Nat.ne_of_lt (h.lt_newId entry hold'))
    · refine ⟨rfl, le_max_left _ _, fun event hmem heq => ?_⟩
      rcases hevent.mp hmem with rfl | hevent
      · rfl
      · exact absurd heq (Nat.ne_of_lt (h.scheduler.lt_nextId event hevent))
  · intro id hid
    exact h.fresh id (Nat.le_of_succ_le hid)
  · intro record hmem
    dsimp only [Face.outcomes, Face.pendingIds, Face.insertPending]
    rw [List.map_append, List.count_append]
    rcases hrecord.mp hmem with hold | ⟨-, rfl⟩
    · have hne : ([⟨s.newId, interest, origin, s.m_scheduler.nextId, 0, none⟩].map PendingInterest.id).count record.1 = 0 := by
        refine List.count_eq_zero.mpr fun hmem => ?_
        exact absurd (List.mem_singleton.mp hmem) (Nat.ne_of_lt (h.expressed_lt record hold))
      rw [hne, Nat.add_zero]
      exact h.once record hold
    · obtain ⟨houtcomes, hremoved⟩ := h.fresh s.newId (Nat.le_refl _)
      have hnone : s.pendingIds.count s.newId = 0 := List.count_eq_zero.mpr hpending
      dsimp only [Face.outcomes, Face.pendingIds] at houtcomes hnone ⊢
      rw [houtcomes, hremoved, hnone]
      simp
  · intro call hcall
    exact (h.justified call hcall).mono (le_refl _) fun record hmem => hrecord.mpr (Or.inl hmem)
  · intro entry hmem
    rcases hentry.mp hmem with hold | rfl
    · exact h.nacked entry hold
    · intro nack hnack
      cases hnack

theorem Consistent.elapse (h : Consistent ctx s history) {duration : ℕ}
    (hdue : ∀ info ∈ s.m_scheduler.m_queue, s.now + duration ≤ info.expireTime) :
    Consistent ctx { s with now := s.now + duration } history := by
  refine ⟨h.scheduler, h.lt_newId, h.nodup, h.timer, h.owner, h.expressed_lt, h.expressed_nodup, h.app_iff, ?_, h.fresh, h.once,
    ?_, h.nacked⟩
  · intro record hrecord entry hentry hid
    obtain ⟨hinterest, -, htime⟩ := h.deadline record hrecord entry hentry hid
    obtain ⟨event, hevent, htimer, -⟩ := h.timer entry hentry
    refine ⟨hinterest, ?_, htime⟩
    rw [← htime event hevent htimer]
    exact (hdue event hevent).trans (le_max_right _ _)
  · intro call hcall
    exact (h.justified call hcall).mono (Int.le_add_of_nonneg_right (Int.natCast_nonneg duration)) fun record hmem => hmem

omit [DecidableEq σ] in
theorem send_eq {packet : Packet σ} (hsend : s.send ctx packet = some s') : s' = { s with sent := s.sent ++ [packet] } := by
  unfold Face.send at hsend
  split at hsend
  · exact (Option.some.inj hsend).symm
  · cases hsend

theorem consistent_send (h : Consistent ctx s history) {packet : Packet σ} (hsend : s.send ctx packet = some s') :
    Consistent ctx s' history := by
  rw [send_eq hsend]
  exact h.unchanged s.m_interestFilterTable _

theorem consistent_step (h : Consistent ctx s history) {op : Op σ φ} (hstep : step ctx s op = some s') :
    Consistent ctx s' (note s history op) := by
  cases op with
  | expressInterest interest =>
    obtain ⟨sent, hsend, rfl⟩ := Option.map_eq_some_iff.mp hstep
    have hinserted := h.insertPending interest .app
    rw [if_pos rfl] at hinserted
    refine consistent_dispatchInterest (consistent_send ?_ hsend) _ _ _
    have hchange := hinserted.change (f := fun entry => if entry.id = s.newId then entry.recordForwarding else entry)
      (fun entry _ => ?_) s.m_interestFilterTable s.sent (List.forall_mem_nil _)
    · rw [List.append_nil] at hchange
      exact hchange
    · split
      · exact same_recordForwarding entry
      · exact Same.refl entry
  | removePendingInterest id =>
    cases hstep
    exact h.removeIf _
  | removeAllPendingInterests =>
    cases hstep
    have hremove := h.removeIf (fun _ => true)
    rw [List.filter_true] at hremove
    exact hremove
  | putData data =>
    have hsatisfied := consistent_satisfyPendingInterests h data
    change (if (s.satisfyPendingInterests ctx data).2 = true then _ else _) = _ at hstep
    split at hstep
    · exact consistent_send hsatisfied hstep
    · cases hstep
      exact hsatisfied
  | putNack nack =>
    have hnacked := consistent_nackPendingInterests h nack
    dsimp only [step, Face.asyncPutNack] at hstep
    split at hstep
    · cases hstep
      exact hnacked
    · exact consistent_send hnacked hstep
  | setInterestFilter filter =>
    cases hstep
    exact h.unchanged _ s.sent
  | unsetInterestFilter id =>
    cases hstep
    exact h.unchanged _ s.sent
  | receiveInterest interest =>
    cases hstep
    have hinserted := h.insertPending interest .forwarder
    rw [if_neg (by decide), List.append_nil] at hinserted
    exact consistent_dispatchInterest hinserted _ _ _
  | receiveData data =>
    cases hstep
    exact consistent_satisfyPendingInterests h data
  | receiveNack nack =>
    cases hstep
    exact consistent_nackPendingInterests h nack
  | elapse duration =>
    rw [step] at hstep
    split at hstep
    · rename_i hdue
      cases hstep
      exact h.elapse fun info hinfo => of_decide_eq_true (List.all_eq_true.mp hdue info hinfo)
    · cases hstep
  | expire => exact consistent_invokeTimeoutCallback h hstep

omit [DecidableEq σ] in
theorem Waiting.of_forall (h : Waiting s) (hsince : ∀ entry ∈ s'.m_pendingInterestTable, entry.m_origin = .app →
    1 ≤ entry.m_nNotNacked ∨ ∃ old ∈ s.m_pendingInterestTable, old.m_origin = .app ∧ old.m_nNotNacked ≤ entry.m_nNotNacked) :
    Waiting s' := by
  intro entry hentry happ
  rcases hsince entry hentry happ with hwaits | ⟨old, hold, horigin, hle⟩
  · exact hwaits
  · exact (h old hold horigin).trans hle

omit [DecidableEq σ] in
theorem Waiting.removeIf (h : Waiting s) (p : PendingInterest σ → Bool) : Waiting (s.removeIf p) :=
  h.of_forall fun entry hentry happ => Or.inr ⟨entry, (List.mem_filter.mp hentry).1, happ, Int.le_refl _⟩

omit [DecidableEq σ] in
theorem Waiting.modifyPending (h : Waiting s) (id : ℕ) : Waiting (s.modifyPending id PendingInterest.recordForwarding) := by
  refine h.of_forall fun changed hchanged happ => Or.inr ?_
  obtain ⟨entry, hentry, rfl⟩ := List.mem_map.mp hchanged
  split at happ <;> rename_i hid
  · rw [if_pos hid]
    exact ⟨entry, hentry, happ, Int.le_add_of_nonneg_right (by decide)⟩
  · rw [if_neg hid]
    exact ⟨entry, hentry, happ, Int.le_refl _⟩

omit [DecidableEq σ] in
theorem waiting_dispatchInterest (h : Waiting s) (id : ℕ) (origin : PendingInterestOrigin) (interest : Interest σ) :
    Waiting (s.dispatchInterest ctx id origin interest) := by
  unfold Face.dispatchInterest
  generalize s.m_interestFilterTable.filter (Face.filterMatches ctx origin interest) = filters
  induction filters generalizing s with
  | nil => exact h
  | cons filter filters ih => exact ih (h.modifyPending id)

theorem waiting_nackPendingInterests (h : Waiting s) (nack : Nack σ) : Waiting (s.nackPendingInterests nack).1 := by
  refine h.of_forall fun changed hchanged happ => ?_
  obtain ⟨hchanged, hkept⟩ := List.mem_filter.mp hchanged
  obtain ⟨entry, hentry, rfl⟩ := List.mem_map.mp hchanged
  split at hkept <;> rename_i hmatch
  · refine Or.inl ?_
    rw [if_pos hmatch]
    rw [Face.allNacked, Bool.not_eq_true', Bool.and_eq_false_iff] at hkept
    rcases hkept with hfalse | hmore
    · exact absurd (hmatch.symm.trans hfalse) (by decide)
    · exact Int.add_one_le_of_lt (Int.not_le.mp (of_decide_eq_false hmore))
  · rw [if_neg hmatch] at happ ⊢
    exact Or.inr ⟨entry, hentry, happ, Int.le_refl _⟩

omit [DecidableEq σ] in
theorem waiting_send (h : Waiting s) {packet : Packet σ} (hsend : s.send ctx packet = some s') : Waiting s' := by
  rw [send_eq hsend]
  exact h

theorem waiting_step (hconsistent : Consistent ctx s history) (h : Waiting s) {op : Op σ φ} (hstep : step ctx s op = some s') :
    Waiting s' := by
  cases op with
  | expressInterest interest =>
    obtain ⟨sent, hsend, rfl⟩ := Option.map_eq_some_iff.mp hstep
    refine waiting_dispatchInterest (waiting_send ?_ hsend) _ _ _
    refine h.of_forall fun changed hchanged happ => ?_
    obtain ⟨entry, hentry, rfl⟩ := List.mem_map.mp hchanged
    rcases List.mem_append.mp hentry with hold | hnew
    · rw [if_neg (Nat.ne_of_lt (hconsistent.lt_newId entry hold))] at happ ⊢
      exact Or.inr ⟨entry, hold, happ, Int.le_refl _⟩
    · rw [List.mem_singleton.mp hnew, if_pos rfl]
      exact Or.inl (Int.le_refl 1)
  | removePendingInterest id =>
    cases hstep
    exact h.removeIf _
  | removeAllPendingInterests =>
    cases hstep
    exact h.removeIf _
  | putData data =>
    have hsatisfied : Waiting (s.satisfyPendingInterests ctx data).1 := h.removeIf _
    change (if (s.satisfyPendingInterests ctx data).2 = true then _ else _) = _ at hstep
    split at hstep
    · exact waiting_send hsatisfied hstep
    · cases hstep
      exact hsatisfied
  | putNack nack =>
    have hnacked := waiting_nackPendingInterests h nack
    dsimp only [step, Face.asyncPutNack] at hstep
    split at hstep
    · cases hstep
      exact hnacked
    · exact waiting_send hnacked hstep
  | setInterestFilter filter =>
    cases hstep
    exact h
  | unsetInterestFilter id =>
    cases hstep
    exact h
  | receiveInterest interest =>
    cases hstep
    refine waiting_dispatchInterest (h.of_forall fun entry hentry happ => ?_) _ _ _
    rcases List.mem_append.mp hentry with hold | hnew
    · exact Or.inr ⟨entry, hold, happ, Int.le_refl _⟩
    · rw [List.mem_singleton.mp hnew] at happ
      cases happ
  | receiveData data =>
    cases hstep
    exact h.removeIf _
  | receiveNack nack =>
    cases hstep
    exact waiting_nackPendingInterests h nack
  | elapse duration =>
    rw [step] at hstep
    split at hstep
    · cases hstep
      exact h
    · cases hstep
  | expire =>
    obtain ⟨⟨info, scheduler⟩, -, rfl⟩ := Option.map_eq_some_iff.mp hstep
    exact h.of_forall fun entry hentry happ => Or.inr ⟨entry, (List.mem_filter.mp hentry).1, happ, Int.le_refl _⟩

end Steps

section Runs

variable {ctx : Context σ φ} {s : Face σ φ} {history : History σ}

theorem consistent_run {ops : List (Op σ φ)} (h : run ctx ops = some (s, history)) : Consistent ctx s history ∧ Waiting s := by
  induction ops using List.reverseRecOn generalizing s history with
  | nil =>
    cases h
    exact ⟨consistent_initial ctx, waiting_initial⟩
  | append_singleton ops op ih =>
    rw [run, List.foldlM_append] at h
    obtain ⟨⟨before, noted⟩, hbefore, hlast⟩ := Option.bind_eq_some_iff.mp h
    obtain ⟨hconsistent, hwaiting⟩ := ih hbefore
    rw [List.foldlM_cons] at hlast
    obtain ⟨observed, hop, hnil⟩ := Option.bind_eq_some_iff.mp hlast
    cases hnil
    obtain ⟨next, hstep, heq⟩ := Option.map_eq_some_iff.mp hop
    cases heq
    exact ⟨consistent_step hconsistent hstep, waiting_step hconsistent hwaiting hstep⟩

/-- Whatever comes in between, an Interest that the application has expressed is pending, or has been answered, nacked, timed
out or removed, once; while it is pending its time is not over, and a callback comes for a reason. -/
theorem expressed_interest_ends_once {ops : List (Op σ φ)} (h : run ctx ops = some (s, history)) {id : ℕ} {interest : Interest σ}
    {created : ℤ} (hexpressed : (id, interest, created) ∈ history.expressed) :
    s.outcomes.count id + s.pendingIds.count id + history.removed.count id = 1 ∧
      (∀ entry ∈ s.m_pendingInterestTable, entry.id = id → entry.m_interest = interest ∧ 1 ≤ entry.m_nNotNacked ∧
        s.now ≤ max created (created + toNanoseconds interest.m_interestLifetime)) ∧
      (∀ data, Call.onData id data ∈ s.calls → ctx.matchesData interest data = true) ∧
      (∀ nack, Call.onNack id nack ∈ s.calls → matchesInterest nack.m_interest interest = true) ∧
      (Call.onTimeout id ∈ s.calls → created + toNanoseconds interest.m_interestLifetime ≤ s.now) := by
  obtain ⟨hconsistent, hwaiting⟩ := consistent_run h
  have hsuits : ∀ call ∈ s.calls, call.outcomeOf = some id → Suits ctx s.now interest created call := by
    intro call hcall hid
    obtain ⟨interest', created', hrecord, hsuits⟩ := hconsistent.justified call hcall id hid
    cases List.inj_on_of_nodup_map hconsistent.expressed_nodup hrecord hexpressed rfl
    exact hsuits
  refine ⟨hconsistent.once _ hexpressed, fun entry hentry hid => ?_, fun data hcall => hsuits _ hcall rfl,
    fun nack hcall => hsuits _ hcall rfl, fun hcall => hsuits _ hcall rfl⟩
  obtain ⟨hinterest, hnow, -⟩ := hconsistent.deadline _ hexpressed entry hentry hid
  refine ⟨hinterest, hwaiting entry hentry ((hconsistent.app_iff entry hentry).mpr ?_), hnow⟩
  rw [hid]
  exact List.mem_map_of_mem hexpressed

end Runs

section Example

def prefixContext : Context Unit Name :=
  ⟨fun interest data => interest.m_name.isPrefixOf data.m_name, fun filter name => filter.isPrefixOf name, fun _ => true, fun _ => true⟩

def nameOf (octet : UInt8) : Name := [⟨8, [octet]⟩]

def interestOf (octet : UInt8) : Interest Unit := ⟨nameOf octet, (), 1, 4, [], none⟩

def dataOf (octet : UInt8) : Data := ⟨nameOf octet, ⟨0, 0, none, []⟩, ⟨21, []⟩, none, none⟩

/-- The first Interest also goes to the application itself, so that one Nack is not the end; then the second one is
answered, and the first one times out. -/
def nackedAndAnswered : List (Op Unit Name) :=
  [.setInterestFilter ⟨7, nameOf 97⟩, .expressInterest (interestOf 97), .elapse 1000000, .expressInterest (interestOf 98),
    .receiveNack ⟨interestOf 97, 150⟩, .receiveData (dataOf 98), .elapse 3000000, .expire]

theorem calls_nackedAndAnswered : (run prefixContext nackedAndAnswered).map (fun observed => (observed.1.calls, observed.2.expressed)) =
    some ([.onInterest 7 (interestOf 97), .onData 1 (dataOf 98), .onTimeout 0],
      [(0, interestOf 97, 0), (1, interestOf 98, 1000000)]) := by decide +kernel

theorem expressed_interest_ends_once_timeout : ∃ s history, run prefixContext nackedAndAnswered = some (s, history) ∧
    s.outcomes.count 0 + s.pendingIds.count 0 + history.removed.count 0 = 1 ∧ 4000000 ≤ s.now := by
  obtain ⟨⟨s, history⟩, hrun, hcalls⟩ := Option.map_eq_some_iff.mp calls_nackedAndAnswered
  obtain ⟨hcalls, hexpressed⟩ := Prod.mk.inj hcalls
  have hmem : (0, interestOf 97, 0) ∈ history.expressed := by
    rw [hexpressed]
    exact List.mem_cons_self
  obtain ⟨honce, -, -, -, htimeout⟩ := expressed_interest_ends_once hrun hmem
  refine ⟨s, history, hrun, honce, ?_⟩
  have htime : 0 + toNanoseconds (interestOf 97).m_interestLifetime = 4000000 := by decide
  rw [← htime]
  refine htimeout ?_
  rw [hcalls]
  decide

end Example

end LeoNdn.FaceCallbacks
