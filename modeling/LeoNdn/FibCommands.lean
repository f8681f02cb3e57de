import LeoNdn.ComputedUpdates
import LeoNdn.Runs
import Mathlib.Data.List.Perm.Basic

/-!
The FIB commands of a batch of updates: how they are sent, what their responses
do, and which actions the FIB receives.
-/

namespace LeoNdn.FibCommands

open LeoNdn.NdnPacket LeoNdn.RibTable LeoNdn.FibUpdater LeoNdn.FibChanges LeoNdn.ComputedUpdates LeoNdn.Runs

def MAX_NUM_TIMEOUTS : ℕ := 10

def ERROR_FACE_NOT_FOUND : ℕ := 410

def ERROR_TIMEOUT : ℕ := 10060

/-- A command, and what is bound to its response. -/
structure Command (κ : Type) where
  update : FibUpdate
  action : FibAction
  callbacks : κ
  nTimeouts : ℕ
  deriving DecidableEq, Repr

inductive Response
  | success
  | error (code : ℕ)
  deriving DecidableEq, Repr

inductive Callback (κ : Type)
  | onSuccess (callbacks : κ) (inheritedRoutes : List RibUpdate)
  | onFailure (callbacks : κ) (code : ℕ)
  deriving DecidableEq, Repr

def Callback.callbacks {κ : Type} : Callback κ → κ
  | .onSuccess callbacks _ => callbacks
  | .onFailure callbacks _ => callbacks

/-- The updater. All commands and all responses are kept for the proofs. -/
structure Sender (κ : Type) where
  updates : Updates
  inFlight : List (Command κ)
  sent : List (Command κ)
  responses : List (Command κ × Response)

def removeUpdate (update : FibUpdate) (updates : List FibUpdate) : List FibUpdate :=
  updates.filter (fun other => other ≠ update)

variable {κ : Type}

namespace Sender

variable (s : Sender κ)

def start (command : Command κ) : Sender κ :=
  { s with inFlight := s.inFlight ++ [command], sent := s.sent ++ [command] }

def sendAddNextHopUpdate (update : FibUpdate) (callbacks : κ) (nTimeouts : ℕ) : Sender κ :=
  s.start ⟨update, .ADD_NEXTHOP, callbacks, nTimeouts⟩

def sendRemoveNextHopUpdate (update : FibUpdate) (callbacks : κ) (nTimeouts : ℕ) : Sender κ :=
  s.start ⟨update, .REMOVE_NEXTHOP, callbacks, nTimeouts⟩

def sendUpdates (updates : List FibUpdate) (callbacks : κ) : Sender κ :=
  updates.foldl (fun s update =>
    match update.action with
    | .ADD_NEXTHOP => s.sendAddNextHopUpdate update callbacks 0
    | .REMOVE_NEXTHOP => s.sendRemoveNextHopUpdate update callbacks 0) s

def sendUpdatesForNonBatchFaceId (callbacks : κ) : Sender κ × Option (Callback κ) :=
  if s.updates.m_updatesForNonBatchFaceId.isEmpty then
    (s, some (.onSuccess callbacks s.updates.m_inheritedRoutes))
  else (s.sendUpdates s.updates.m_updatesForNonBatchFaceId callbacks, none)

def sendUpdatesForBatchFaceId (callbacks : κ) : Sender κ × Option (Callback κ) :=
  if s.updates.m_updatesForBatchFaceId.isEmpty then s.sendUpdatesForNonBatchFaceId callbacks
  else (s.sendUpdates s.updates.m_updatesForBatchFaceId callbacks, none)

def computeAndSendFibUpdates (rib : Rib) (update : RibUpdate) (callbacks : κ) :
    Option (Sender κ × Option (Callback κ)) :=
  (computeUpdates rib update).map (fun updates => sendUpdatesForBatchFaceId { s with updates := updates } callbacks)

def removeForBatchFaceId (update : FibUpdate) : Sender κ :=
  { s with
    updates.m_updatesForBatchFaceId := removeUpdate update s.updates.m_updatesForBatchFaceId }

def removeForNonBatchFaceId (update : FibUpdate) : Sender κ :=
  { s with
    updates.m_updatesForNonBatchFaceId := removeUpdate update s.updates.m_updatesForNonBatchFaceId }

/-- An update of another face than that of the batch is done with. -/
def settleNonBatchFaceId (command : Command κ) : Sender κ × Option (Callback κ) :=
  let s := s.removeForNonBatchFaceId command.update
  if s.updates.m_updatesForNonBatchFaceId.isEmpty then
    (s, some (.onSuccess command.callbacks s.updates.m_inheritedRoutes))
  else (s, none)

def onUpdateSuccess (command : Command κ) : Sender κ × Option (Callback κ) :=
  if command.update.faceId = s.updates.m_batchFaceId then
    let s := s.removeForBatchFaceId command.update
    if s.updates.m_updatesForBatchFaceId.isEmpty then s.sendUpdatesForNonBatchFaceId command.callbacks else (s, none)
  else s.settleNonBatchFaceId command

/-- Nothing where an exception is thrown. -/
def onUpdateError (command : Command κ) (code : ℕ) : Option (Sender κ × Option (Callback κ)) :=
  if code = ERROR_TIMEOUT ∧ command.nTimeouts < MAX_NUM_TIMEOUTS then
    some (s.sendAddNextHopUpdate command.update command.callbacks (command.nTimeouts + 1), none)
  else if code = ERROR_FACE_NOT_FOUND then
    if command.update.faceId = s.updates.m_batchFaceId then some (s, some (.onFailure command.callbacks code))
    else some (s.settleNonBatchFaceId command)
  else none

def received (i : ℕ) (command : Command κ) (response : Response) : Sender κ :=
  { s with inFlight := s.inFlight.eraseIdx i, responses := s.responses ++ [(command, response)] }

def respond (i : ℕ) (response : Response) : Option (Sender κ × Option (Callback κ)) := do
  let command ← s.inFlight[i]?
  match response with
  | .success => some ((s.received i command .success).onUpdateSuccess command)
  | .error code => (s.received i command (.error code)).onUpdateError command code

end Sender

section Responses

/-- What the response of a command does to the sender that has received it. -/
inductive Responded (command : Command κ) (s : Sender κ) : Response → Sender κ → Option (Callback κ) → Prop
  | retried (htimeouts : command.nTimeouts < MAX_NUM_TIMEOUTS) :
    Responded command s (.error ERROR_TIMEOUT)
      (s.sendAddNextHopUpdate command.update command.callbacks (command.nTimeouts + 1)) none
  | failed (hface : command.update.faceId = s.updates.m_batchFaceId) :
    Responded command s (.error ERROR_FACE_NOT_FOUND) s (some (.onFailure command.callbacks ERROR_FACE_NOT_FOUND))
  | batchLeft (hface : command.update.faceId = s.updates.m_batchFaceId)
    (hleft : removeUpdate command.update s.updates.m_updatesForBatchFaceId ≠ []) :
    Responded command s .success (s.removeForBatchFaceId command.update) none
  | nonBatchSent (hface : command.update.faceId = s.updates.m_batchFaceId)
    (hleft : removeUpdate command.update s.updates.m_updatesForBatchFaceId = [])
    (hsend : s.updates.m_updatesForNonBatchFaceId ≠ []) :
    Responded command s .success ((s.removeForBatchFaceId command.update).sendUpdates
      s.updates.m_updatesForNonBatchFaceId command.callbacks) none
  | batchDone (hface : command.update.faceId = s.updates.m_batchFaceId)
    (hleft : removeUpdate command.update s.updates.m_updatesForBatchFaceId = [])
    (hsend : s.updates.m_updatesForNonBatchFaceId = []) :
    Responded command s .success (s.removeForBatchFaceId command.update)
      (some (.onSuccess command.callbacks s.updates.m_inheritedRoutes))
  | nonBatchLeft {response : Response} (hresponse : response = .success ∨ response = .error ERROR_FACE_NOT_FOUND)
    (hface : command.update.faceId ≠ s.updates.m_batchFaceId)
    (hleft : removeUpdate command.update s.updates.m_updatesForNonBatchFaceId ≠ []) :
    Responded command s response (s.removeForNonBatchFaceId command.update) none
  | nonBatchDone {response : Response} (hresponse : response = .success ∨ response = .error ERROR_FACE_NOT_FOUND)
    (hface : command.update.faceId ≠ s.updates.m_batchFaceId)
    (hleft : removeUpdate command.update s.updates.m_updatesForNonBatchFaceId = []) :
    Responded command s response (s.removeForNonBatchFaceId command.update)
      (some (.onSuccess command.callbacks s.updates.m_inheritedRoutes))

variable {s s' : Sender κ} {command : Command κ} {response : Response} {callback : Option (Callback κ)}

theorem settleNonBatchFaceId_responded (hresponse : response = .success ∨ response = .error ERROR_FACE_NOT_FOUND)
    (hface : command.update.faceId ≠ s.updates.m_batchFaceId) :
    Responded command s response (s.settleNonBatchFaceId command).1 (s.settleNonBatchFaceId command).2 := by
  unfold Sender.settleNonBatchFaceId
  dsimp only
  split
  · rename_i hempty
    exact Responded.nonBatchDone hresponse hface (List.isEmpty_iff.mp hempty)
  · rename_i hempty
    exact Responded.nonBatchLeft hresponse hface (mt List.isEmpty_iff.mpr hempty)

theorem onUpdateSuccess_responded :
    Responded command s .success (s.onUpdateSuccess command).1 (s.onUpdateSuccess command).2 := by
  unfold Sender.onUpdateSuccess
  split
  · rename_i hface
    dsimp only
    split
    · rename_i hempty
      unfold Sender.sendUpdatesForNonBatchFaceId
      split
      · rename_i hsend
        exact Responded.batchDone hface (List.isEmpty_iff.mp hempty) (List.isEmpty_iff.mp hsend)
      · rename_i hsend
        exact Responded.nonBatchSent hface (List.isEmpty_iff.mp hempty) (mt List.isEmpty_iff.mpr hsend)
    · rename_i hempty
      exact Responded.batchLeft hface (mt List.isEmpty_iff.mpr hempty)
  · rename_i hface
    exact settleNonBatchFaceId_responded (Or.inl rfl) hface

theorem onUpdateError_responded {code : ℕ} (h : s.onUpdateError command code = some (s', callback)) :
    Responded command s (.error code) s' callback := by
  unfold Sender.onUpdateError at h
  split at h
  · rename_i htimeout
    cases h
    rw [htimeout.1]
    exact Responded.retried htimeout.2
  · split at h
    · rename_i hcode
      rw [hcode] at h ⊢
      split at h
      · rename_i hface
        cases h
        exact Responded.failed hface
      · rename_i hface
        have hsettled := Option.some.inj h
        have hresponded := settleNonBatchFaceId_responded (Or.inr rfl : Response.error ERROR_FACE_NOT_FOUND = .success ∨ _) hface
        rw [hsettled] at hresponded
        exact hresponded
    · cases h

theorem respond_responded {i : ℕ} (h : s.respond i response = some (s', callback)) :
    ∃ command, s.inFlight[i]? = some command ∧ Responded command (s.received i command response) response s' callback := by
  obtain ⟨command, hcommand, h⟩ := Option.bind_eq_some_iff.mp h
  refine ⟨command, hcommand, ?_⟩
  cases response with
  | success =>
    have hresponded : Responded command (s.received i command .success) .success
        ((s.received i command .success).onUpdateSuccess command).1
        ((s.received i command .success).onUpdateSuccess command).2 := onUpdateSuccess_responded
    rw [Option.some.inj h] at hresponded
    exact hresponded
  | error code => exact onUpdateError_responded h

theorem Responded.kinds (h : Responded command s response s' callback) :
    (response = .error ERROR_TIMEOUT ∧
      s' = s.sendAddNextHopUpdate command.update command.callbacks (command.nTimeouts + 1) ∧ callback = none) ∨
    (response = .error ERROR_FACE_NOT_FOUND ∧ command.update.faceId = s.updates.m_batchFaceId ∧ s' = s ∧
      callback = some (.onFailure command.callbacks ERROR_FACE_NOT_FOUND)) ∨
    (response ≠ .error ERROR_TIMEOUT ∧
      (response = .error ERROR_FACE_NOT_FOUND → command.update.faceId ≠ s.updates.m_batchFaceId)) := by
  have hanswer : ∀ {response : Response}, response = .success ∨ response = .error ERROR_FACE_NOT_FOUND →
      response ≠ .error ERROR_TIMEOUT := by
    rintro response (rfl | rfl)
    · exact Response.noConfusion
    · decide
  cases h with
  | retried => exact Or.inl ⟨rfl, rfl, rfl⟩
  | failed hface => exact Or.inr (Or.inl ⟨rfl, hface, rfl, rfl⟩)
  | batchLeft => exact Or.inr (Or.inr ⟨hanswer (Or.inl rfl), Response.noConfusion⟩)
  | nonBatchSent => exact Or.inr (Or.inr ⟨hanswer (Or.inl rfl), Response.noConfusion⟩)
  | batchDone => exact Or.inr (Or.inr ⟨hanswer (Or.inl rfl), Response.noConfusion⟩)
  | nonBatchLeft hresponse hface => exact Or.inr (Or.inr ⟨hanswer hresponse, fun _ => hface⟩)
  | nonBatchDone hresponse hface => exact Or.inr (Or.inr ⟨hanswer hresponse, fun _ => hface⟩)

def listOf (updates : Updates) (update : FibUpdate) : List FibUpdate :=
  if update.faceId = updates.m_batchFaceId then updates.m_updatesForBatchFaceId
  else updates.m_updatesForNonBatchFaceId

theorem responded_late (h : Responded command s response s' callback)
    (hleft : removeUpdate command.update (listOf s.updates command.update) ≠ [])
    (htimeout : response ≠ .error ERROR_TIMEOUT)
    (hfailed : response = .error ERROR_FACE_NOT_FOUND → command.update.faceId ≠ s.updates.m_batchFaceId) :
    callback = none ∧ s'.inFlight = s.inFlight ∧ s'.responses = s.responses ∧
      (command.update ∉ listOf s.updates command.update → s'.updates = s.updates) := by
  have hsame : ∀ {fibUpdates : List FibUpdate}, command.update ∉ fibUpdates →
      removeUpdate command.update fibUpdates = fibUpdates := by
    intro fibUpdates hnew
    apply List.filter_eq_self.mpr
    intro other hother
    rw [decide_eq_true_eq]
    rintro rfl
    exact hnew hother
  unfold listOf at hleft ⊢
  cases h with
  | retried => exact absurd rfl htimeout
  | failed hface => exact absurd hface (hfailed rfl)
  | batchLeft hface =>
    rw [if_pos hface]
    refine ⟨rfl, rfl, rfl, fun hnew => ?_⟩
    rw [Sender.removeForBatchFaceId, hsame hnew]
  | nonBatchSent hface hnil =>
    rw [if_pos hface] at hleft
    exact absurd hnil hleft
  | batchDone hface hnil =>
    rw [if_pos hface] at hleft
    exact absurd hnil hleft
  | nonBatchLeft _ hface =>
    rw [if_neg hface]
    refine ⟨rfl, rfl, rfl, fun hnew => ?_⟩
    rw [Sender.removeForNonBatchFaceId, hsame hnew]
  | nonBatchDone _ hface hnil =>
    rw [if_neg hface] at hleft
    exact absurd hnil hleft

theorem flight_perm {i : ℕ} (h : s.inFlight[i]? = some command) :
    (command :: s.inFlight.eraseIdx i).Perm s.inFlight := by
  obtain ⟨hi, rfl⟩ := List.getElem?_eq_some_iff.mp h
  exact List.getElem_cons_eraseIdx_perm hi

def Answered (s : Sender κ) (update : FibUpdate) : Prop :=
  ∃ command response, (command, response) ∈ s.responses ∧ response ≠ .error ERROR_TIMEOUT ∧ command.update = update

theorem Answered.mono {update : FibUpdate} (h : Answered s update) (hresponses : s.responses ⊆ s'.responses) :
    Answered s' update := by
  obtain ⟨command, response, hmem, hanswer⟩ := h
  exact ⟨command, response, hresponses hmem, hanswer⟩

end Responses

section Pending

variable {s s' : Sender κ} {updates : Updates} {command : Command κ} {response : Response}
  {callback : Option (Callback κ)} {update other : FibUpdate}

def firstCommand (callbacks : κ) (update : FibUpdate) : Command κ := ⟨update, update.action, callbacks, 0⟩

theorem sendUpdates_eq (fibUpdates : List FibUpdate) (callbacks : κ) (s : Sender κ) :
    s.sendUpdates fibUpdates callbacks =
      { s with
        inFlight := s.inFlight ++ fibUpdates.map (firstCommand callbacks),
        sent := s.sent ++ fibUpdates.map (firstCommand callbacks) } := by
  induction fibUpdates generalizing s with
  | nil => simp only [List.map_nil, List.append_nil, Sender.sendUpdates, List.foldl_nil]
  | cons update fibUpdates ih =>
    have hstart : s.sendUpdates (update :: fibUpdates) callbacks =
        (s.start (firstCommand callbacks update)).sendUpdates fibUpdates callbacks := by
      rw [Sender.sendUpdates, List.foldl_cons, firstCommand]
      cases update.action <;> rfl
    rw [hstart, ih]
    simp only [Sender.start, List.map_cons, List.append_assoc, List.singleton_append]

theorem map_firstCommand (callbacks : κ) (more : List FibUpdate) :
    (more.map (firstCommand callbacks)).map Command.update = more := by
  rw [List.map_map]
  exact List.map_id more

theorem mem_removeUpdate {fibUpdates : List FibUpdate} :
    other ∈ removeUpdate update fibUpdates ↔ other ∈ fibUpdates ∧ other ≠ update := by
  rw [removeUpdate, List.mem_filter, decide_eq_true_eq]

def allUpdates (updates : Updates) : List FibUpdate :=
  updates.m_updatesForBatchFaceId ++ updates.m_updatesForNonBatchFaceId

/-- The updates that were sent and have not been answered: those for the face of
the batch come first. -/
def pending (updates : Updates) : List FibUpdate :=
  if updates.m_updatesForBatchFaceId = [] then updates.m_updatesForNonBatchFaceId
  else updates.m_updatesForBatchFaceId

theorem sendUpdatesForBatchFaceId_eq (s : Sender κ) (callbacks : κ) :
    s.sendUpdatesForBatchFaceId callbacks =
      ({ s with
          inFlight := s.inFlight ++ (pending s.updates).map (firstCommand callbacks),
          sent := s.sent ++ (pending s.updates).map (firstCommand callbacks) },
        if pending s.updates = [] then some (.onSuccess callbacks s.updates.m_inheritedRoutes) else none) := by
  unfold Sender.sendUpdatesForBatchFaceId pending
  simp only [List.isEmpty_iff]
  split
  · unfold Sender.sendUpdatesForNonBatchFaceId
    simp only [List.isEmpty_iff]
    split
    · rename_i hnil
      rw [hnil, List.map_nil, List.append_nil, List.append_nil]
    · rw [sendUpdates_eq]
  · rw [sendUpdates_eq]

theorem computeAndSendFibUpdates_eq {rib : Rib} {ribUpdate : RibUpdate} {callbacks : κ}
    (h : s.computeAndSendFibUpdates rib ribUpdate callbacks = some (s', callback)) :
    ∃ updates, computeUpdates rib ribUpdate = some updates ∧
      s' = ⟨updates, s.inFlight ++ (pending updates).map (firstCommand callbacks),
        s.sent ++ (pending updates).map (firstCommand callbacks), s.responses⟩ ∧
      callback = if pending updates = [] then some (.onSuccess callbacks updates.m_inheritedRoutes) else none := by
  obtain ⟨updates, hupdates, hsend⟩ := Option.map_eq_some_iff.mp h
  rw [sendUpdatesForBatchFaceId_eq] at hsend
  obtain ⟨rfl, rfl⟩ := Prod.mk.inj hsend
  exact ⟨updates, hupdates, rfl, rfl⟩

theorem mem_sent {commands : List (Command κ)} {callbacks : κ} {more : List FibUpdate}
    (h : command ∈ commands ++ more.map (firstCommand callbacks)) :
    command ∈ commands ∨ command.callbacks = callbacks := by
  refine (List.mem_append.mp h).imp_right fun hnew => ?_
  obtain ⟨update, -, rfl⟩ := List.mem_map.mp hnew
  rfl

/-- The commands that a response makes the updater send, and the callback that it
calls, are of the batch of the command. -/
theorem Responded.sameBatch (h : Responded command s response s' callback) :
    (∀ other ∈ s'.inFlight, other ∈ s.inFlight ∨ other.callbacks = command.callbacks) ∧
      ∀ called ∈ callback, called.callbacks = command.callbacks := by
  cases h with
  | retried =>
    refine ⟨fun other hother => ?_, nofun⟩
    refine (List.mem_append.mp hother).imp_right fun hnew => ?_
    rw [List.mem_singleton.mp hnew]
  | failed => exact ⟨fun other hother => Or.inl hother, fun called hcalled => Option.some.inj hcalled ▸ rfl⟩
  | batchLeft => exact ⟨fun other hother => Or.inl hother, nofun⟩
  | nonBatchSent =>
    rw [sendUpdates_eq]
    exact ⟨fun other hother => mem_sent hother, nofun⟩
  | batchDone => exact ⟨fun other hother => Or.inl hother, fun called hcalled => Option.some.inj hcalled ▸ rfl⟩
  | nonBatchLeft => exact ⟨fun other hother => Or.inl hother, nofun⟩
  | nonBatchDone => exact ⟨fun other hother => Or.inl hother, fun called hcalled => Option.some.inj hcalled ▸ rfl⟩

theorem pending_subset (h : update ∈ pending updates) : update ∈ allUpdates updates := by
  unfold pending at h
  split at h
  · exact List.mem_append_right _ h
  · exact List.mem_append_left _ h

theorem allUpdates_eq_nil (h : pending updates = []) : allUpdates updates = [] := by
  unfold pending at h
  split at h
  · rename_i hbatch
    rw [allUpdates, hbatch, h]
    rfl
  · rename_i hbatch
    exact absurd h hbatch

theorem pending_nodup (h : WellFormed updates) : (pending updates).Nodup := by
  unfold pending
  split
  · exact h.nonBatchKeys.of_map
  · exact h.batchKeys.of_map

theorem pending_of_batch (h : WellFormed updates) (hface : update.faceId = updates.m_batchFaceId)
    (hpending : update ∈ pending updates) : pending updates = updates.m_updatesForBatchFaceId := by
  unfold pending at hpending ⊢
  split at hpending
  · exact absurd hface (h.nonBatch update hpending)
  · rename_i hbatch
    exact if_neg hbatch

theorem batch_nil_of_nonBatch (h : WellFormed updates) (hface : update.faceId ≠ updates.m_batchFaceId)
    (hpending : update ∈ pending updates) : updates.m_updatesForBatchFaceId = [] := by
  unfold pending at hpending
  split at hpending
  · assumption
  · exact absurd (h.batch update hpending) hface

theorem wellFormed_removeForBatchFaceId (h : WellFormed s.updates) (update : FibUpdate) :
    WellFormed (s.removeForBatchFaceId update).updates where
  batch other hother := h.batch other (mem_removeUpdate.mp hother).1
  nonBatch := h.nonBatch
  batchKeys := h.batchKeys.sublist (List.filter_sublist.map key)
  nonBatchKeys := h.nonBatchKeys

theorem wellFormed_removeForNonBatchFaceId (h : WellFormed s.updates) (update : FibUpdate) :
    WellFormed (s.removeForNonBatchFaceId update).updates where
  batch := h.batch
  nonBatch other hother := h.nonBatch other (mem_removeUpdate.mp hother).1
  batchKeys := h.batchKeys
  nonBatchKeys := h.nonBatchKeys.sublist (List.filter_sublist.map key)

/-- What an answer to a pending update does: the update is no longer there, more
are sent once nothing is pending, and a success is called once nothing is left. -/
structure Settled (command : Command κ) (s s' : Sender κ) (callback : Option (Callback κ))
    (more : List FibUpdate) : Prop where
  wellFormed : WellFormed s'.updates
  left : ∀ update ∈ allUpdates s.updates, update ∈ allUpdates s'.updates ∨ update = command.update
  subset : ∀ update ∈ allUpdates s'.updates, update ∈ allUpdates s.updates
  pending_eq : pending s'.updates = removeUpdate command.update (pending s.updates) ++ more
  sends : s' = { s with
    updates := s'.updates, inFlight := s.inFlight ++ more.map (firstCommand command.callbacks),
    sent := s.sent ++ more.map (firstCommand command.callbacks) }
  callback_eq : callback =
    if pending s'.updates = [] then some (.onSuccess command.callbacks s.updates.m_inheritedRoutes) else none

theorem left_of_removed {fibUpdates rest : List FibUpdate} (h : other ∈ fibUpdates ++ rest) :
    other ∈ removeUpdate update fibUpdates ++ rest ∨ other = update := by
  by_cases heq : other = update
  · exact Or.inr heq
  · refine Or.inl ?_
    rcases List.mem_append.mp h with hmem | hmem
    · exact List.mem_append_left _ (mem_removeUpdate.mpr ⟨hmem, heq⟩)
    · exact List.mem_append_right _ hmem

theorem removed_subset {fibUpdates rest : List FibUpdate} (h : other ∈ removeUpdate update fibUpdates ++ rest) :
    other ∈ fibUpdates ++ rest := by
  rcases List.mem_append.mp h with hmem | hmem
  · exact List.mem_append_left _ (mem_removeUpdate.mp hmem).1
  · exact List.mem_append_right _ hmem

theorem settled_batch (h : WellFormed s.updates) (hpending : command.update ∈ pending s.updates)
    (hface : command.update.faceId = s.updates.m_batchFaceId) {more : List FibUpdate}
    (hsends : s' = { s.removeForBatchFaceId command.update with
      inFlight := s.inFlight ++ more.map (firstCommand command.callbacks),
      sent := s.sent ++ more.map (firstCommand command.callbacks) })
    (heq : pending s'.updates = removeUpdate command.update s.updates.m_updatesForBatchFaceId ++ more)
    (hcallback : callback =
      if pending s'.updates = [] then some (.onSuccess command.callbacks s.updates.m_inheritedRoutes) else none) :
    Settled command s s' callback more := by
  constructor
  · rw [hsends]
    exact wellFormed_removeForBatchFaceId h command.update
  · intro other hother
    rw [hsends]
    exact left_of_removed hother
  · intro other hother
    rw [hsends] at hother
    exact removed_subset hother
  · rw [pending_of_batch h hface hpending]
    exact heq
  · rw [hsends]
    rfl
  · exact hcallback

theorem settled_nonBatch (h : WellFormed s.updates) (hpending : command.update ∈ pending s.updates)
    (hface : command.update.faceId ≠ s.updates.m_batchFaceId)
    (hcallback : callback =
      if removeUpdate command.update s.updates.m_updatesForNonBatchFaceId = [] then
        some (.onSuccess command.callbacks s.updates.m_inheritedRoutes)
      else none) :
    Settled command s (s.removeForNonBatchFaceId command.update) callback [] := by
  have hbatch := batch_nil_of_nonBatch h hface hpending
  have heq : pending (s.removeForNonBatchFaceId command.update).updates =
      removeUpdate command.update s.updates.m_updatesForNonBatchFaceId := if_pos hbatch
  have hall : allUpdates s.updates = s.updates.m_updatesForNonBatchFaceId ++ [] := by
    rw [allUpdates, hbatch, List.nil_append, List.append_nil]
  have hall' : allUpdates (s.removeForNonBatchFaceId command.update).updates =
      removeUpdate command.update s.updates.m_updatesForNonBatchFaceId ++ [] := by
    rw [List.append_nil, allUpdates]
    exact congrArg (· ++ removeUpdate command.update s.updates.m_updatesForNonBatchFaceId) hbatch
  constructor
  · exact wellFormed_removeForNonBatchFaceId h command.update
  · intro other hother
    rw [hall']
    rw [hall] at hother
    exact left_of_removed hother
  · intro other hother
    rw [hall'] at hother
    rw [hall]
    exact removed_subset hother
  · rw [heq, pending, if_pos hbatch, List.append_nil]
  · rw [List.map_nil, List.append_nil, List.append_nil]
    rfl
  · rw [heq]
    exact hcallback

/-- A pending update that is answered is settled, unless the batch fails. -/
theorem Responded.settled (h : Responded command s response s' callback) (hwell : WellFormed s.updates)
    (hpending : command.update ∈ pending s.updates) (htimeout : response ≠ .error ERROR_TIMEOUT)
    (hfailed : response = .error ERROR_FACE_NOT_FOUND → command.update.faceId ≠ s.updates.m_batchFaceId) :
    ∃ more, Settled command s s' callback more := by
  cases h with
  | retried => exact absurd rfl htimeout
  | failed hface => exact absurd hface (hfailed rfl)
  | batchLeft hface hleft =>
    have heq : pending (s.removeForBatchFaceId command.update).updates =
        removeUpdate command.update s.updates.m_updatesForBatchFaceId := if_neg hleft
    refine ⟨[], settled_batch hwell hpending hface ?_ ?_ ?_⟩
    · rw [List.map_nil, List.append_nil, List.append_nil]
      rfl
    · rw [heq, List.append_nil]
    · rw [heq, if_neg hleft]
  | nonBatchSent hface hleft hsend =>
    rw [sendUpdates_eq]
    have heq : pending (s.removeForBatchFaceId command.update).updates = s.updates.m_updatesForNonBatchFaceId :=
      if_pos hleft
    refine ⟨s.updates.m_updatesForNonBatchFaceId, settled_batch hwell hpending hface rfl ?_ ?_⟩
    · rw [hleft]
      exact heq
    · exact (if_neg fun hnil => hsend (heq.symm.trans hnil)).symm
  | batchDone hface hleft hsend =>
    have heq : pending (s.removeForBatchFaceId command.update).updates = [] := (if_pos hleft).trans hsend
    refine ⟨[], settled_batch hwell hpending hface ?_ ?_ ?_⟩
    · rw [List.map_nil, List.append_nil, List.append_nil]
      rfl
    · rw [heq, hleft]
      rfl
    · rw [if_pos heq]
  | nonBatchLeft _ hface hleft => exact ⟨[], settled_nonBatch hwell hpending hface (if_neg hleft).symm⟩
  | nonBatchDone _ hface hleft => exact ⟨[], settled_nonBatch hwell hpending hface (if_pos hleft).symm⟩

end Pending

end LeoNdn.FibCommands
