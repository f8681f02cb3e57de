import LeoNdn.FibCommands

/-!
A batch of FIB updates until it succeeds or fails: which commands the FIB
receives for it when some of them time out.
-/

namespace LeoNdn.CommandRetries

open LeoNdn.NdnPacket LeoNdn.RibTable LeoNdn.FibUpdater LeoNdn.FibChanges LeoNdn.ComputedUpdates LeoNdn.FibCommands
open LeoNdn.Runs

section Batches

/-- A batch that is being applied, and the callbacks that were called for it. -/
structure Batch (κ : Type) where
  sender : Sender κ
  called : List (Callback κ)

variable {κ : Type}

def begin (leftover : Updates) (rib : Rib) (update : RibUpdate) (callbacks : κ) : Option (Batch κ) :=
  (Sender.computeAndSendFibUpdates ⟨leftover, [], [], []⟩ rib update callbacks).map (fun sent =>
    ⟨sent.1, sent.2.toList⟩)

def step (s : Batch κ) (event : ℕ × Response) : Option (Batch κ) :=
  (s.sender.respond event.1 event.2).map (fun responded => ⟨responded.1, s.called ++ responded.2.toList⟩)

def Succeeded (s : Batch κ) :
    Prop := ∃ callbacks inheritedRoutes, Callback.onSuccess callbacks inheritedRoutes ∈ s.called

def TimedOut (s : Sender κ) (command : Command κ) : Prop := (command, .error ERROR_TIMEOUT) ∈ s.responses

/-- The FIB is sent the computed actions only, and once the batch has succeeded
each of them was answered. -/
structure Faithful (computed : List FibUpdate) (s : Batch κ) : Prop where
  reissued : ∀ command ∈ s.sender.sent, command.update ∈ computed ∧ command.action = command.update.action
  complete : Succeeded s → ∀ update ∈ computed,
    (∃ command response, (command, response) ∈ s.sender.responses ∧ response ≠ .error ERROR_TIMEOUT ∧
      command.update = update ∧ command.action = update.action) ∧
    ∀ command ∈ s.sender.sent, key command.update = key update → command.action = update.action

end Batches

section Steps

variable {κ : Type} {s s' : Batch κ} {sender sender' : Sender κ} {command : Command κ} {response : Response}
  {callback : Option (Callback κ)} {computed : List FibUpdate} {i : ℕ}

theorem step_responded {event : ℕ × Response} (h : step s event = some s') :
    ∃ command callback, s.sender.inFlight[event.1]? = some command ∧
      Responded command (s.sender.received event.1 command event.2) event.2 s'.sender callback ∧
      s'.called = s.called ++ callback.toList := by
  obtain ⟨responded, hresponded, rfl⟩ := Option.map_eq_some_iff.mp h
  obtain ⟨command, hcommand, hresponded⟩ := respond_responded hresponded
  exact ⟨command, responded.2, hcommand, hresponded, rfl⟩

structure InFlight (sender : Sender κ) : Prop where
  wellFormed : WellFormed sender.updates
  nodup : (sender.inFlight.map Command.update).Nodup
  pending : ∀ command ∈ sender.inFlight, command.update ∈ FibCommands.pending sender.updates

theorem InFlight.rest (h : InFlight sender) (hcommand : sender.inFlight[i]? = some command) :
    command.update ∈ FibCommands.pending sender.updates ∧
      ((sender.inFlight.eraseIdx i).map Command.update).Nodup ∧
      ∀ other ∈ sender.inFlight.eraseIdx i,
        other.update ∈ removeUpdate command.update (FibCommands.pending sender.updates) := by
  have hperm := flight_perm hcommand
  have hnodup : (command.update :: (sender.inFlight.eraseIdx i).map Command.update).Nodup :=
    (hperm.map Command.update).nodup_iff.mpr h.nodup
  obtain ⟨hnew, hnodup⟩ := List.nodup_cons.mp hnodup
  refine ⟨h.pending command (hperm.subset List.mem_cons_self), hnodup, ?_⟩
  intro other hother
  apply mem_removeUpdate.mpr
  constructor
  · exact h.pending other (hperm.subset (List.mem_cons_of_mem _ hother))
  · intro heq
    rw [← heq] at hnew
    exact hnew (List.mem_map_of_mem hother)

theorem InFlight.settled (h : InFlight sender) (hcommand : sender.inFlight[i]? = some command)
    {more : List FibUpdate} (hsettled : Settled command (sender.received i command response) sender' callback more) :
    InFlight sender' := by
  obtain ⟨-, hnodup, hrest⟩ := h.rest hcommand
  have hpendingEq : FibCommands.pending sender'.updates =
      removeUpdate command.update (FibCommands.pending sender.updates) ++ more := hsettled.pending_eq
  have hpendingNodup := pending_nodup hsettled.wellFormed
  rw [hpendingEq] at hpendingNodup
  obtain ⟨-, hmore, hdisjoint⟩ := List.nodup_append.mp hpendingNodup
  constructor
  · exact hsettled.wellFormed
  · rw [hsettled.sends, List.map_append, map_firstCommand]
    refine List.nodup_append.mpr ⟨hnodup, hmore, ?_⟩
    intro update hupdate other hother
    obtain ⟨rest, hmem, rfl⟩ := List.mem_map.mp hupdate
    exact hdisjoint rest.update (hrest rest hmem) other hother
  · intro other hother
    rw [hpendingEq]
    rw [hsettled.sends] at hother
    rcases List.mem_append.mp hother with hmem | hmem
    · exact List.mem_append_left _ (hrest other hmem)
    · obtain ⟨update, hupdate, rfl⟩ := List.mem_map.mp hmem
      exact List.mem_append_right _ hupdate

theorem InFlight.retried (h : InFlight sender) (hcommand : sender.inFlight[i]? = some command) :
    InFlight ((sender.received i command response).sendAddNextHopUpdate command.update command.callbacks
      (command.nTimeouts + 1)) := by
  have hperm : ((sender.inFlight.eraseIdx i ++
      [(⟨command.update, .ADD_NEXTHOP, command.callbacks, command.nTimeouts + 1⟩ : Command κ)]).map
      Command.update).Perm (sender.inFlight.map Command.update) := by
    rw [List.map_append]
    exact List.perm_append_comm.trans ((flight_perm hcommand).map Command.update)
  constructor
  · exact h.wellFormed
  · exact hperm.nodup_iff.mpr h.nodup
  · intro other hother
    obtain ⟨old, hold, heq⟩ := List.mem_map.mp (hperm.subset (List.mem_map_of_mem hother))
    rw [← heq]
    exact h.pending old hold

theorem InFlight.failed (h : InFlight sender) (hcommand : sender.inFlight[i]? = some command) :
    InFlight (sender.received i command response) where
  wellFormed := h.wellFormed
  nodup := (h.rest hcommand).2.1
  pending other hother := (mem_removeUpdate.mp ((h.rest hcommand).2.2 other hother)).1

structure Tracked (computed : List FibUpdate) (s : Batch κ) : Prop where
  inFlight : InFlight s.sender
  listed : ∀ update ∈ allUpdates s.sender.updates, update ∈ computed
  answered : ∀ update ∈ computed, update ∈ allUpdates s.sender.updates ∨ Answered s.sender update
  succeeded : Succeeded s → pending s.sender.updates = []

theorem Tracked.command_listed (h : Tracked computed s) (hcommand : command ∈ s.sender.inFlight) :
    command.update ∈ computed :=
  h.listed command.update (pending_subset (h.inFlight.pending command hcommand))

theorem Tracked.settled (h : Tracked computed s) (hcommand : s.sender.inFlight[i]? = some command)
    (htimeout : response ≠ .error ERROR_TIMEOUT) {more : List FibUpdate}
    (hsettled : Settled command (s.sender.received i command response) s'.sender callback more)
    (hcalled : s'.called = s.called ++ callback.toList) : Tracked computed s' := by
  have hresponses : s'.sender.responses = s.sender.responses ++ [(command, response)] := by
    rw [hsettled.sends]
    rfl
  constructor
  · exact h.inFlight.settled hcommand hsettled
  · intro update hupdate
    exact h.listed update (hsettled.subset update hupdate)
  · intro update hupdate
    rcases h.answered update hupdate with hleft | ⟨old, oldResponse, hmem, hanswer⟩
    · rcases hsettled.left update hleft with hleft | rfl
      · exact Or.inl hleft
      · refine Or.inr ⟨command, response, ?_, htimeout, rfl⟩
        rw [hresponses]
        exact List.mem_append_right _ List.mem_cons_self
    · refine Or.inr ⟨old, oldResponse, ?_, hanswer⟩
      rw [hresponses]
      exact List.mem_append_left _ hmem
  · rintro ⟨callbacks, inheritedRoutes, hmem⟩
    rw [hcalled, hsettled.callback_eq] at hmem
    rcases List.mem_append.mp hmem with hmem | hmem
    · have hnil := h.succeeded ⟨callbacks, inheritedRoutes, hmem⟩
      have hpending := (h.inFlight.rest hcommand).1
      rw [hnil] at hpending
      exact absurd hpending List.not_mem_nil
    · by_cases hnil : pending s'.sender.updates = []
      · exact hnil
      · rw [if_neg hnil] at hmem
        exact absurd hmem List.not_mem_nil

theorem Tracked.step (h : Tracked computed s) {event : ℕ × Response} (hstep : CommandRetries.step s event = some s') :
    Tracked computed s' := by
  obtain ⟨command, callback, hcommand, hresponded, hcalled⟩ := step_responded hstep
  have hpending := (h.inFlight.rest hcommand).1
  have hresponses : s.sender.responses ⊆ (s.sender.received event.1 command event.2).responses :=
    List.subset_append_left _ _
  rcases hresponded.kinds with ⟨-, hsender, rfl⟩ | ⟨-, -, hsender, rfl⟩ | ⟨htimeout, hfailed⟩
  · rw [Option.toList_none, List.append_nil] at hcalled
    constructor
    · rw [hsender]
      exact h.inFlight.retried hcommand
    · rw [hsender]
      exact h.listed
    · rw [hsender]
      exact fun update hupdate => (h.answered update hupdate).imp_right fun hanswer => hanswer.mono hresponses
    · rw [Succeeded, hcalled, hsender]
      exact h.succeeded
  · constructor
    · rw [hsender]
      exact h.inFlight.failed hcommand
    · rw [hsender]
      exact h.listed
    · rw [hsender]
      exact fun update hupdate => (h.answered update hupdate).imp_right fun hanswer => hanswer.mono hresponses
    · rintro ⟨callbacks, inheritedRoutes, hmem⟩
      rw [hcalled] at hmem
      rw [hsender]
      rcases List.mem_append.mp hmem with hmem | hmem
      · exact h.succeeded ⟨callbacks, inheritedRoutes, hmem⟩
      · cases List.mem_singleton.mp hmem
  · obtain ⟨more, hsettled⟩ := hresponded.settled h.inFlight.wellFormed hpending htimeout hfailed
    exact h.settled hcommand htimeout hsettled hcalled

structure Sends (computed : List FibUpdate) (sender : Sender κ) : Prop where
  inFlight : ∀ command ∈ sender.inFlight, command ∈ sender.sent
  responses : ∀ command response, (command, response) ∈ sender.responses → command ∈ sender.sent
  listed : ∀ command ∈ sender.sent, command.update ∈ computed
  actions : ∀ command ∈ sender.sent, command.action = command.update.action ∨
    command.action = .ADD_NEXTHOP ∧ ∃ other, TimedOut sender other ∧ other.update = command.update
  retried : ∀ command, TimedOut sender command →
    ∃ other ∈ sender.sent, other.update = command.update ∧ other.action = .ADD_NEXTHOP

theorem Sends.extend (h : Sends computed sender) (hcommand : sender.inFlight[i]? = some command)
    {more : List (Command κ)} (hinFlight : sender'.inFlight = sender.inFlight.eraseIdx i ++ more)
    (hsent : sender'.sent = sender.sent ++ more) (hresponses : sender'.responses = sender.responses ++ [(command, response)])
    (hlisted : ∀ new ∈ more, new.update ∈ computed)
    (hactions : ∀ new ∈ more, new.action = new.update.action ∨
      new.action = .ADD_NEXTHOP ∧ response = .error ERROR_TIMEOUT ∧ command.update = new.update)
    (hretried : response = .error ERROR_TIMEOUT →
      ∃ new ∈ more, new.update = command.update ∧ new.action = .ADD_NEXTHOP) : Sends computed sender' := by
  have htimedOut : ∀ {other}, TimedOut sender other → TimedOut sender' other := by
    intro other hother
    rw [TimedOut, hresponses]
    exact List.mem_append_left _ hother
  constructor
  · intro other hother
    rw [hinFlight] at hother
    rw [hsent]
    rcases List.mem_append.mp hother with hmem | hmem
    · exact List.mem_append_left _ (h.inFlight other (List.mem_of_mem_eraseIdx hmem))
    · exact List.mem_append_right _ hmem
  · intro other otherResponse hother
    rw [hresponses] at hother
    rw [hsent]
    rcases List.mem_append.mp hother with hmem | hmem
    · exact List.mem_append_left _ (h.responses other otherResponse hmem)
    · cases List.mem_singleton.mp hmem
      exact List.mem_append_left _ (h.inFlight command (List.mem_of_getElem? hcommand))
  · intro other hother
    rw [hsent] at hother
    rcases List.mem_append.mp hother with hmem | hmem
    · exact h.listed other hmem
    · exact hlisted other hmem
  · intro other hother
    rw [hsent] at hother
    rcases List.mem_append.mp hother with hmem | hmem
    · rcases h.actions other hmem with haction | ⟨haction, old, hold, heq⟩
      · exact Or.inl haction
      · exact Or.inr ⟨haction, old, htimedOut hold, heq⟩
    · rcases hactions other hmem with haction | ⟨haction, rfl, heq⟩
      · exact Or.inl haction
      · refine Or.inr ⟨haction, command, ?_, heq⟩
        rw [TimedOut, hresponses]
        exact List.mem_append_right _ List.mem_cons_self
  · intro other hother
    rw [TimedOut, hresponses] at hother
    rw [hsent]
    rcases List.mem_append.mp hother with hmem | hmem
    · obtain ⟨new, hnew, heq⟩ := h.retried other hmem
      exact ⟨new, List.mem_append_left _ hnew, heq⟩
    · obtain ⟨rfl, hresponse⟩ := Prod.mk.inj (List.mem_singleton.mp hmem)
      obtain ⟨new, hnew, heq⟩ := hretried hresponse.symm
      exact ⟨new, List.mem_append_right _ hnew, heq⟩

theorem Sends.step (h : Sends computed s.sender) (htracked : Tracked computed s) {event : ℕ × Response}
    (hstep : CommandRetries.step s event = some s') : Sends computed s'.sender := by
  have htracked' := htracked.step hstep
  obtain ⟨command, callback, hcommand, hresponded, -⟩ := step_responded hstep
  have hlisted := htracked.command_listed (List.mem_of_getElem? hcommand)
  rcases hresponded.kinds with ⟨htimeout, hsender, -⟩ | ⟨hfailed, -, hsender, -⟩ | ⟨htimeout, hfailed⟩
  · rw [hsender]
    refine h.extend hcommand rfl rfl rfl ?_ ?_ ?_
    · intro new hnew
      rw [List.mem_singleton.mp hnew]
      exact hlisted
    · intro new hnew
      rw [List.mem_singleton.mp hnew]
      exact Or.inr ⟨rfl, htimeout, rfl⟩
    · exact fun _ => ⟨_, List.mem_cons_self, rfl, rfl⟩
  · rw [hsender]
    refine h.extend hcommand (List.append_nil _).symm (List.append_nil _).symm rfl ?_ ?_ ?_
    · exact fun new hnew => absurd hnew List.not_mem_nil
    · exact fun new hnew => absurd hnew List.not_mem_nil
    · rw [hfailed]
      exact fun heq => absurd heq (by decide)
  · obtain ⟨more, hsettled⟩ := hresponded.settled htracked.inFlight.wellFormed (htracked.inFlight.rest hcommand).1
      htimeout hfailed
    have hinFlight : s'.sender.inFlight =
        s.sender.inFlight.eraseIdx event.1 ++ more.map (firstCommand command.callbacks) := by
      rw [hsettled.sends]
      rfl
    have hsent : s'.sender.sent = s.sender.sent ++ more.map (firstCommand command.callbacks) := by
      rw [hsettled.sends]
      rfl
    have hresponses : s'.sender.responses = s.sender.responses ++ [(command, event.2)] := by
      rw [hsettled.sends]
      rfl
    refine h.extend hcommand hinFlight hsent hresponses ?_ ?_ ?_
    · intro new hnew
      obtain ⟨update, hupdate, rfl⟩ := List.mem_map.mp hnew
      apply htracked'.listed
      apply pending_subset
      rw [hsettled.pending_eq]
      exact List.mem_append_right _ hupdate
    · intro new hnew
      obtain ⟨update, hupdate, rfl⟩ := List.mem_map.mp hnew
      exact Or.inl rfl
    · exact fun heq => absurd heq htimeout

end Steps

section Runs

variable {κ : Type} {s start : Batch κ} {leftover : Updates} {rib : Rib} {update : RibUpdate} {callbacks : κ}

theorem begin_eq (h : begin leftover rib update callbacks = some start) :
    ∃ updates, WellFormed updates ∧ start = ⟨⟨updates, (pending updates).map (firstCommand callbacks),
      (pending updates).map (firstCommand callbacks), []⟩,
      (if pending updates = [] then some (.onSuccess callbacks updates.m_inheritedRoutes) else none).toList⟩ := by
  obtain ⟨sent, hsent, rfl⟩ := Option.map_eq_some_iff.mp h
  obtain ⟨updates, hupdates, rfl⟩ := Option.map_eq_some_iff.mp hsent
  rw [sendUpdatesForBatchFaceId_eq]
  exact ⟨updates, computeUpdates_wellFormed rib hupdates, rfl⟩

theorem begin_tracked (h : begin leftover rib update callbacks = some start) :
    Tracked (allUpdates start.sender.updates) start := by
  obtain ⟨updates, hwell, rfl⟩ := begin_eq h
  constructor
  · constructor
    · exact hwell
    · rw [map_firstCommand]
      exact pending_nodup hwell
    · intro command hcommand
      obtain ⟨update, hupdate, rfl⟩ := List.mem_map.mp hcommand
      exact hupdate
  · exact fun update hupdate => hupdate
  · exact fun update hupdate => Or.inl hupdate
  · rintro ⟨callbacks, inheritedRoutes, hmem⟩
    dsimp only at hmem ⊢
    by_cases hnil : pending updates = []
    · exact hnil
    · rw [if_neg hnil] at hmem
      exact absurd hmem List.not_mem_nil

theorem begin_sends (h : begin leftover rib update callbacks = some start) :
    Sends (allUpdates start.sender.updates) start.sender := by
  obtain ⟨updates, hwell, rfl⟩ := begin_eq h
  constructor
  · exact fun command hcommand => hcommand
  · exact fun _ _ hmem => absurd hmem List.not_mem_nil
  · intro command hcommand
    obtain ⟨update, hupdate, rfl⟩ := List.mem_map.mp hcommand
    exact pending_subset hupdate
  · intro command hcommand
    obtain ⟨update, hupdate, rfl⟩ := List.mem_map.mp hcommand
    exact Or.inl rfl
  · exact fun _ hmem => absurd hmem List.not_mem_nil

theorem allUpdates_keys {updates : Updates} (h : WellFormed updates) {update other : FibUpdate}
    (hupdate : update ∈ allUpdates updates) (hother : other ∈ allUpdates updates) (hkey : key update = key other) :
    update = other := by
  have hface : update.faceId = other.faceId := congrArg Prod.snd hkey
  rcases List.mem_append.mp hupdate with hupdate | hupdate <;> rcases List.mem_append.mp hother with hother | hother
  · exact List.inj_on_of_nodup_map h.batchKeys hupdate hother hkey
  · exact absurd (hface.symm.trans (h.batch update hupdate)) (h.nonBatch other hother)
  · exact absurd (hface.trans (h.batch other hother)) (h.nonBatch update hupdate)
  · exact List.inj_on_of_nodup_map h.nonBatchKeys hupdate hother hkey

/-- In every run of a batch the FIB is sent the computed actions only, and all of
them, exactly if no command for an update that removes a next hop times out. -/
theorem reissued_with_action_iff (hbegin : begin leftover rib update callbacks = some start)
    (hrun : Run step (fun _ _ => True) start s) :
    Faithful (allUpdates start.sender.updates) s ↔
      ∀ command, TimedOut s.sender command → command.update.action = .ADD_NEXTHOP := by
  obtain ⟨htracked, hsends⟩ : Tracked (allUpdates start.sender.updates) s ∧
      Sends (allUpdates start.sender.updates) s.sender := by
    apply hrun.invariant (P := fun s =>
      Tracked (allUpdates start.sender.updates) s ∧ Sends (allUpdates start.sender.updates) s.sender)
    · exact fun s event s' h _ hstep => ⟨h.1.step hstep, h.2.step h.1 hstep⟩
    · exact ⟨begin_tracked hbegin, begin_sends hbegin⟩
  constructor
  · intro hfaithful command htimedOut
    obtain ⟨other, hother, heq, haction⟩ := hsends.retried command htimedOut
    rw [← heq, ← (hfaithful.reissued other hother).2]
    exact haction
  · intro htimedOut
    have hreissued : ∀ command ∈ s.sender.sent, command.action = command.update.action := by
      intro command hcommand
      rcases hsends.actions command hcommand with haction | ⟨haction, other, hother, heq⟩
      · exact haction
      · rw [haction, ← heq]
        exact (htimedOut other hother).symm
    constructor
    · exact fun command hcommand => ⟨hsends.listed command hcommand, hreissued command hcommand⟩
    · intro hsucceeded update hupdate
      have hnil : allUpdates s.sender.updates = [] := allUpdates_eq_nil (htracked.succeeded hsucceeded)
      rcases htracked.answered update hupdate with hleft | ⟨command, response, hmem, hresponse, rfl⟩
      · rw [hnil] at hleft
        exact absurd hleft List.not_mem_nil
      · refine ⟨⟨command, response, hmem, hresponse, rfl, ?_⟩, ?_⟩
        · exact hreissued command (hsends.responses command response hmem)
        · intro other hother hkey
          obtain ⟨updates, hwell, rfl⟩ := begin_eq hbegin
          rw [hreissued other hother, allUpdates_keys hwell (hsends.listed other hother) hupdate hkey]

end Runs

section Examples

def nameA : Name := [⟨8, [97]⟩]

def routeOf (faceId cost : ℕ) : Route := ⟨faceId, 0, cost, 0, none, none, 0, none⟩

def emptyRib : Rib := ⟨[], 0, fun _ => []⟩

def retriedOnce : List (ℕ × Response) := [(0, .error ERROR_TIMEOUT), (0, .success)]

theorem reissued_registration : ∃ start s : Batch Unit,
    begin ⟨0, [], [], []⟩ emptyRib ⟨.REGISTER, nameA, routeOf 1 10⟩ () = some start ∧
    Run step (fun _ _ => True) start s ∧ Succeeded s ∧ Faithful (allUpdates start.sender.updates) s := by
  have hvalue : ((begin ⟨0, [], [], []⟩ emptyRib ⟨.REGISTER, nameA, routeOf 1 10⟩ ()).bind (fun start =>
      runOf step (fun _ _ => True) start retriedOnce)).map (fun s =>
        (s.sender.responses.map (fun response => response.1.update.action), s.called)) =
      some ([.ADD_NEXTHOP, .ADD_NEXTHOP], [.onSuccess () []]) := by
    decide
  obtain ⟨s, hs, hvalue⟩ := Option.map_eq_some_iff.mp hvalue
  obtain ⟨start, hbegin, hrun⟩ := Option.bind_eq_some_iff.mp hs
  obtain ⟨hactions, hcalled⟩ := Prod.mk.inj hvalue
  refine ⟨start, s, hbegin, Run.of_runOf hrun, ⟨(), [], ?_⟩, ?_⟩
  · rw [hcalled]
    exact List.mem_cons_self
  · apply (reissued_with_action_iff hbegin (Run.of_runOf hrun)).mpr
    intro command htimedOut
    have haction : command.update.action ∈ s.sender.responses.map (fun response => response.1.update.action) :=
      List.mem_map_of_mem htimedOut
    rw [hactions] at haction
    simpa using haction

/-- The command that removes a next hop is retried as one that adds it. -/
theorem removal_retried_as_add : ¬ ∀ (leftover : Updates) (rib : Rib) (update : RibUpdate) (start s : Batch Unit),
    begin leftover rib update () = some start → Run step (fun _ _ => True) start s →
      Faithful (allUpdates start.sender.updates) s := by
  intro hfaithful
  have hvalue : ((begin ⟨0, [], [], []⟩ (emptyRib.insert nameA (routeOf 1 10))
      ⟨.UNREGISTER, nameA, routeOf 1 10⟩ ()).bind (fun start =>
        runOf step (fun _ _ => True) start retriedOnce)).map (fun s =>
          (s.sender.sent.map (fun command => (command.update.action, command.action)), s.called.length)) =
      some ([(.REMOVE_NEXTHOP, .REMOVE_NEXTHOP), (.REMOVE_NEXTHOP, .ADD_NEXTHOP)], 1) := by
    decide
  obtain ⟨s, hs, hvalue⟩ := Option.map_eq_some_iff.mp hvalue
  obtain ⟨start, hbegin, hrun⟩ := Option.bind_eq_some_iff.mp hs
  obtain ⟨hactions, -⟩ := Prod.mk.inj hvalue
  have hmem : (FibAction.REMOVE_NEXTHOP, FibAction.ADD_NEXTHOP) ∈
      s.sender.sent.map (fun command => (command.update.action, command.action)) := by
    rw [hactions]
    exact List.mem_cons_of_mem _ List.mem_cons_self
  obtain ⟨command, hcommand, heq⟩ := List.mem_map.mp hmem
  obtain ⟨hcomputed, hsent⟩ := Prod.mk.inj heq
  have haction := ((hfaithful _ _ _ start s hbegin (Run.of_runOf hrun)).reissued command hcommand).2
  rw [hcomputed, hsent] at haction
  cases haction

end Examples

end LeoNdn.CommandRetries
