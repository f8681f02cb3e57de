import LeoNdn.FibCommands
import Mathlib.Algebra.BigOperators.Group.List.Basic
import Mathlib.Algebra.Ring.Nat

/-!
The queue of the RIB: its updates are applied one at a time, and the responses
of the FIB may come in any order and late.
-/

namespace LeoNdn.UpdateQueue

open LeoNdn.RibTable LeoNdn.FibUpdater LeoNdn.ComputedUpdates LeoNdn.FibCommands LeoNdn.Runs

section Queue

/-- An update and the callbacks that are bound to it, which its number stands for. -/
structure UpdateQueueItem where
  id : ℕ
  update : RibUpdate
  deriving DecidableEq, Repr

inductive Result
  | success
  | failure (code : ℕ)
  deriving DecidableEq, Repr

/-- The batches that were started, with the FIB updates computed for each, and
the callbacks that were called are kept for the proofs. -/
structure State where
  m_rib : Rib
  m_updateBatches : List UpdateQueueItem
  m_isUpdateInProgress : Bool
  m_fibUpdater : Sender UpdateQueueItem
  nextId : ℕ
  started : List (UpdateQueueItem × List FibUpdate)
  completions : List (UpdateQueueItem × Result)

def initial : State := ⟨⟨[], 0, fun _ => []⟩, [], false, ⟨⟨0, [], [], []⟩, [], [], []⟩, 0, [], []⟩

/-- `onFibUpdateSuccess`, without advancing the queue. -/
def onFibUpdateSuccess (item : UpdateQueueItem) (inheritedRoutes : List RibUpdate) (s : State) : State :=
  { s with
    m_rib := modifyInheritedRoutes inheritedRoutes (updateRib item.update s.m_rib),
    m_isUpdateInProgress := false, completions := s.completions ++ [(item, .success)] }

/-- `onFibUpdateFailure`, without advancing the queue. -/
def onFibUpdateFailure (item : UpdateQueueItem) (code : ℕ) (s : State) : State :=
  { s with m_isUpdateInProgress := false, completions := s.completions ++ [(item, .failure code)] }

def call (callback : Callback UpdateQueueItem) (s : State) : State :=
  match callback with
  | .onSuccess item inheritedRoutes => onFibUpdateSuccess item inheritedRoutes s
  | .onFailure item code => onFibUpdateFailure item code s

def start (item : UpdateQueueItem) (batches : List UpdateQueueItem) (sender : Sender UpdateQueueItem) (s : State) :
    State :=
  { s with
    m_updateBatches := batches, m_isUpdateInProgress := true, m_fibUpdater := sender,
    started := s.started ++ [(item, allUpdates sender.updates)] }

/-- `sendBatchFromQueue` while no update is in progress: a batch without FIB
updates calls back at once. -/
def sendBatches : List UpdateQueueItem → State → Option State
  | [], s => some { s with m_updateBatches := [] }
  | item :: batches, s =>
    match s.m_fibUpdater.computeAndSendFibUpdates s.m_rib item.update item with
    | none => none
    | some (sender, none) => some (start item batches sender s)
    | some (sender, some callback) => sendBatches batches (call callback (start item batches sender s))

def sendBatchFromQueue (s : State) : Option State :=
  if s.m_isUpdateInProgress then some s else sendBatches s.m_updateBatches s

def addUpdateToQueue (update : RibUpdate) (s : State) : State :=
  { s with m_updateBatches := s.m_updateBatches ++ [⟨s.nextId, update⟩], nextId := s.nextId + 1 }

def beginApplyUpdate (update : RibUpdate) (s : State) : Option State := sendBatchFromQueue (addUpdateToQueue update s)

def beginRemoveFace (faceId : ℕ) (s : State) : Option State :=
  sendBatchFromQueue ((s.m_rib.findRoutesWithFaceId faceId).foldl (fun s nameAndRoute =>
    addUpdateToQueue ⟨.REMOVE_FACE, nameAndRoute.1, nameAndRoute.2⟩ s) s)

def respond (i : ℕ) (response : Response) (s : State) : Option State :=
  match s.m_fibUpdater.respond i response with
  | none => none
  | some (sender, none) => some { s with m_fibUpdater := sender }
  | some (sender, some callback) => sendBatchFromQueue (call callback { s with m_fibUpdater := sender })

inductive Event
  | beginApplyUpdate (update : RibUpdate)
  | beginRemoveFace (faceId : ℕ)
  | respond (i : ℕ) (response : Response)

/-- One event; nothing where it cannot happen, and where an exception is thrown. -/
def step (s : State) : Event → Option State
  | .beginApplyUpdate update => UpdateQueue.beginApplyUpdate update s
  | .beginRemoveFace faceId => UpdateQueue.beginRemoveFace faceId s
  | .respond i response => UpdateQueue.respond i response s

end Queue

section Order

def completed (s : State) : List ℕ := s.completions.map (fun completion => completion.1.id)

/-- The updates that were sent and whose callbacks were not called. -/
def applying (s : State) : List ℕ :=
  (s.started.map (fun batch => batch.1.id)).filter (fun id => id ∉ completed s)

def queued (s : State) : List ℕ := s.m_updateBatches.map UpdateQueueItem.id

/-- A command of the item for the update has been answered. -/
def AnsweredFor (sender : Sender UpdateQueueItem) (item : UpdateQueueItem) (update : FibUpdate) : Prop :=
  ∃ command response, (command, response) ∈ sender.responses ∧ response ≠ .error ERROR_TIMEOUT ∧
    command.callbacks = item ∧ command.update = update

/-- The updates are applied one at a time, and each is waiting, being applied or
called back once; a success comes after all answers, and once no command is in
flight all have been called back. -/
structure Orderly (s : State) : Prop where
  oneAtATime : (applying s).length ≤ 1
  exactlyOnce : (completed s ++ applying s ++ queued s).Perm (List.range s.nextId)
  answered : ∀ item updates, (item, updates) ∈ s.started → (item, .success) ∈ s.completions →
    ∀ update ∈ updates, AnsweredFor s.m_fibUpdater item update
  settled : s.m_fibUpdater.inFlight = [] → (completed s).Perm (List.range s.nextId)

/-- The removal of the update leaves something in its list, and it takes nothing
from a batch that is being applied. -/
def Unaffected (s : State) (update : FibUpdate) : Prop :=
  (s.m_isUpdateInProgress = true → update ∉ listOf s.m_fibUpdater.updates update) ∧
    ∃ other ∈ listOf s.m_fibUpdater.updates update, other ≠ update

/-- No answer comes after the callback of its batch, except one that changes nothing. -/
def InTime (s : State) : Event → Prop
  | .respond i response => ∀ command ∈ s.m_fibUpdater.inFlight[i]?, command.callbacks.id ∈ completed s →
    response ≠ .error ERROR_TIMEOUT → Unaffected s command.update ∧
      (response = .error ERROR_FACE_NOT_FOUND → command.update.faceId ≠ s.m_fibUpdater.updates.m_batchFaceId)
  | _ => True

end Order

section Books

variable {s s' : State} {current : Option UpdateQueueItem} {item : UpdateQueueItem}
  {batches : List UpdateQueueItem} {sender : Sender UpdateQueueItem}

def currentId (current : Option UpdateQueueItem) : List ℕ := (current.map UpdateQueueItem.id).toList

/-- What the histories say while one batch, or none, is being applied. -/
structure Books (s : State) (current : Option UpdateQueueItem) : Prop where
  ids : (completed s ++ currentId current ++ queued s).Perm (List.range s.nextId)
  started : (s.started.map (fun batch => batch.1.id)).Perm (completed s ++ currentId current)
  late : ∀ command ∈ s.m_fibUpdater.inFlight, some command.callbacks = current ∨ command.callbacks.id ∈ completed s
  answered : ∀ item updates, (item, updates) ∈ s.started → (item, .success) ∈ s.completions →
    ∀ update ∈ updates, AnsweredFor s.m_fibUpdater item update

theorem AnsweredFor.mono {sender' : Sender UpdateQueueItem} {update : FibUpdate} (h : AnsweredFor sender item update)
    (hresponses : sender.responses ⊆ sender'.responses) : AnsweredFor sender' item update := by
  obtain ⟨command, response, hmem, hanswer⟩ := h
  exact ⟨command, response, hresponses hmem, hanswer⟩

theorem Books.nodup (h : Books s current) : (completed s ++ currentId current ++ queued s).Nodup :=
  h.ids.nodup_iff.mpr List.nodup_range

theorem Books.current_not_completed (h : Books s current) : ∀ id ∈ currentId current, id ∉ completed s := by
  obtain ⟨hnodup, -, -⟩ := List.nodup_append.mp h.nodup
  obtain ⟨-, -, hdisjoint⟩ := List.nodup_append.mp hnodup
  exact fun id hid hmem => hdisjoint id hmem id hid rfl

theorem Books.next_not_completed (h : Books s none) (hqueue : s.m_updateBatches = item :: batches) :
    item.id ∉ completed s := by
  have hnodup := h.nodup
  rw [queued, hqueue] at hnodup
  obtain ⟨-, -, hdisjoint⟩ := List.nodup_append.mp hnodup
  exact fun hmem => hdisjoint item.id (List.mem_append_left _ hmem) item.id List.mem_cons_self rfl

theorem Books.applying_perm (h : Books s current) : (applying s).Perm (currentId current) := by
  have hcompleted : (completed s).filter (fun id => id ∉ completed s) = [] := by
    apply List.filter_eq_nil_iff.mpr
    intro id hid
    rw [decide_eq_true_eq, not_not]
    exact hid
  have hcurrent : (currentId current).filter (fun id => id ∉ completed s) = currentId current := by
    apply List.filter_eq_self.mpr
    intro id hid
    rw [decide_eq_true_eq]
    exact h.current_not_completed id hid
  have hperm := h.started.filter (fun id => id ∉ completed s)
  rw [List.filter_append, hcompleted, hcurrent, List.nil_append] at hperm
  exact hperm

theorem Books.enqueue (h : Books s current) (update : RibUpdate) : Books (addUpdateToQueue update s) current where
  ids := by
    have hqueued : queued (addUpdateToQueue update s) = queued s ++ [s.nextId] := List.map_append
    rw [hqueued, ← List.append_assoc]
    change (_ ++ [s.nextId]).Perm (List.range (s.nextId + 1))
    rw [List.range_succ]
    exact h.ids.append_right [s.nextId]
  started := h.started
  late := h.late
  answered := h.answered

theorem Books.respond (h : Books s current) (hresponses : s.m_fibUpdater.responses ⊆ sender.responses)
    (hflight : ∀ command ∈ sender.inFlight, some command.callbacks = current ∨ command.callbacks.id ∈ completed s) :
    Books { s with m_fibUpdater := sender } current where
  ids := h.ids
  started := h.started
  late := hflight
  answered item updates hstarted hsuccess update hupdate :=
    (h.answered item updates hstarted hsuccess update hupdate).mono hresponses

theorem Books.start (h : Books s none) (hqueue : s.m_updateBatches = item :: batches)
    (hresponses : sender.responses = s.m_fibUpdater.responses)
    (hflight : ∀ command ∈ sender.inFlight, command ∈ s.m_fibUpdater.inFlight ∨ command.callbacks = item) :
    Books (UpdateQueue.start item batches sender s) (some item) where
  ids := by
    have hids := h.ids
    rw [queued, hqueue, List.map_cons] at hids
    rw [List.append_assoc]
    rw [List.append_assoc] at hids
    exact hids
  started := by
    have hstarted := h.started.append_right [item.id]
    rw [List.append_assoc] at hstarted
    change ((s.started ++ [(item, allUpdates sender.updates)]).map _).Perm _
    rw [List.map_append]
    exact hstarted
  late command hcommand := by
    rcases hflight command hcommand with hold | heq
    · rcases h.late command hold with hnone | hlate
      · cases hnone
      · exact Or.inr hlate
    · exact Or.inl (congrArg some heq)
  answered other updates hstarted hsuccess update hupdate := by
    rcases List.mem_append.mp hstarted with hold | hnew
    · refine (h.answered other updates hold hsuccess update hupdate).mono ?_
      rw [← hresponses]
      exact List.Subset.refl _
    · obtain ⟨rfl, -⟩ := Prod.mk.inj (List.mem_singleton.mp hnew)
      exact absurd (List.mem_map_of_mem hsuccess) (h.next_not_completed hqueue)

theorem Books.complete (h : Books s (some item)) {result : Result} {rib : Rib}
    (hanswered : result = .success → ∀ updates, (item, updates) ∈ s.started → ∀ update ∈ updates,
      AnsweredFor s.m_fibUpdater item update) :
    Books { s with
      m_rib := rib, m_isUpdateInProgress := false, completions := s.completions ++ [(item, result)] } none := by
  have hcompleted : completed { s with
      m_rib := rib, m_isUpdateInProgress := false, completions := s.completions ++ [(item, result)] } =
      completed s ++ [item.id] := List.map_append
  constructor
  · rw [hcompleted]
    have hids := h.ids
    rw [List.append_assoc] at hids ⊢
    rw [List.append_assoc]
    exact hids
  · rw [hcompleted, currentId, Option.map_none, Option.toList_none, List.append_nil]
    exact h.started
  · intro command hcommand
    rw [hcompleted]
    rcases h.late command hcommand with heq | hlate
    · cases heq
      exact Or.inr (List.mem_append_right _ List.mem_cons_self)
    · exact Or.inr (List.mem_append_left _ hlate)
  · intro other updates hstarted hsuccess update hupdate
    rcases List.mem_append.mp hsuccess with hold | hnew
    · exact h.answered other updates hstarted hold update hupdate
    · obtain ⟨rfl, hresult⟩ := Prod.mk.inj (List.mem_singleton.mp hnew)
      exact hanswered hresult.symm updates hstarted update hupdate

end Books

section Invariant

variable {s s' : State} {item : UpdateQueueItem} {sender : Sender UpdateQueueItem} {command : Command UpdateQueueItem}
  {response : Response} {callback : Option (Callback UpdateQueueItem)} {i : ℕ}

def updatesOf (item : UpdateQueueItem) (commands : List (Command UpdateQueueItem)) : List FibUpdate :=
  (commands.filter (fun command => command.callbacks = item)).map Command.update

theorem updatesOf_append (item : UpdateQueueItem) (commands more : List (Command UpdateQueueItem)) :
    updatesOf item (commands ++ more) = updatesOf item commands ++ updatesOf item more := by
  rw [updatesOf, List.filter_append, List.map_append]
  rfl

theorem updatesOf_firstCommand (item : UpdateQueueItem) (more : List FibUpdate) :
    updatesOf item (more.map (firstCommand item)) = more := by
  have hall : (more.map (firstCommand item)).filter (fun command => command.callbacks = item) =
      more.map (firstCommand item) := by
    apply List.filter_eq_self.mpr
    intro command hcommand
    obtain ⟨update, -, rfl⟩ := List.mem_map.mp hcommand
    exact decide_eq_true rfl
  rw [updatesOf, hall, map_firstCommand]

theorem updatesOf_eq_nil {commands : List (Command UpdateQueueItem)}
    (h : ∀ command ∈ commands, command.callbacks ≠ item) : updatesOf item commands = [] := by
  have hnone : commands.filter (fun command => command.callbacks = item) = [] := by
    apply List.filter_eq_nil_iff.mpr
    intro command hcommand
    rw [decide_eq_true_eq]
    exact h command hcommand
  rw [updatesOf, hnone]
  rfl

theorem updatesOf_perm (hcommand : sender.inFlight[i]? = some command) (hitem : command.callbacks = item) :
    (command.update :: updatesOf item (sender.inFlight.eraseIdx i)).Perm (updatesOf item sender.inFlight) := by
  have hperm := ((flight_perm hcommand).filter (fun command => command.callbacks = item)).map Command.update
  rw [List.filter_cons, if_pos (decide_eq_true hitem)] at hperm
  exact hperm

theorem updatesOf_late (hcommand : sender.inFlight[i]? = some command) (hitem : command.callbacks ≠ item) :
    (updatesOf item (sender.inFlight.eraseIdx i)).Perm (updatesOf item sender.inFlight) := by
  have hperm := ((flight_perm hcommand).filter (fun command => command.callbacks = item)).map Command.update
  rw [List.filter_cons, if_neg (mt of_decide_eq_true hitem)] at hperm
  exact hperm

structure Busy (s : State) (item : UpdateQueueItem) : Prop where
  inProgress : s.m_isUpdateInProgress = true
  wellFormed : WellFormed s.m_fibUpdater.updates
  perm : (updatesOf item s.m_fibUpdater.inFlight).Perm (pending s.m_fibUpdater.updates)
  left : pending s.m_fibUpdater.updates ≠ []
  computed : ∀ updates, (item, updates) ∈ s.started → ∀ update ∈ updates,
    update ∈ allUpdates s.m_fibUpdater.updates ∨ AnsweredFor s.m_fibUpdater item update

theorem Books.start_computed (h : Books s none) {batches : List UpdateQueueItem}
    (hqueue : s.m_updateBatches = item :: batches) {updates : List FibUpdate}
    (hstarted : (item, updates) ∈ (UpdateQueue.start item batches sender s).started) :
    updates = allUpdates sender.updates := by
  rcases List.mem_append.mp hstarted with hold | hnew
  · have hmem : item.id ∈ completed s ++ currentId none := h.started.subset (List.mem_map_of_mem hold)
    rw [currentId, Option.map_none, Option.toList_none, List.append_nil] at hmem
    exact absurd hmem (h.next_not_completed hqueue)
  · exact (Prod.mk.inj (List.mem_singleton.mp hnew)).2

theorem Busy.start (h : Books s none) {batches : List UpdateQueueItem} (hqueue : s.m_updateBatches = item :: batches)
    (hwell : WellFormed sender.updates)
    (hflight : sender.inFlight = s.m_fibUpdater.inFlight ++ (pending sender.updates).map (firstCommand item))
    (hleft : pending sender.updates ≠ []) : Busy (UpdateQueue.start item batches sender s) item where
  inProgress := rfl
  wellFormed := hwell
  perm := by
    have hothers : ∀ command ∈ s.m_fibUpdater.inFlight, command.callbacks ≠ item := by
      rintro command hcommand rfl
      rcases h.late command hcommand with hnone | hlate
      · cases hnone
      · exact h.next_not_completed hqueue hlate
    change (updatesOf item sender.inFlight).Perm (pending sender.updates)
    rw [hflight, updatesOf_append, updatesOf_eq_nil hothers, updatesOf_firstCommand]
    exact List.Perm.refl _
  left := hleft
  computed updates hstarted update hupdate := by
    rw [h.start_computed hqueue hstarted] at hupdate
    exact Or.inl hupdate

/-- Nothing is being applied and nothing waits, or a batch is being applied. -/
def Consistent (s : State) : Prop :=
  Books s none ∧ s.m_isUpdateInProgress = false ∧ s.m_updateBatches = [] ∨ ∃ item, Books s (some item) ∧ Busy s item

theorem sendBatches_consistent {batches : List UpdateQueueItem} (h : Books s none)
    (hidle : s.m_isUpdateInProgress = false) (hqueue : s.m_updateBatches = batches)
    (hsend : sendBatches batches s = some s') : Consistent s' := by
  induction batches generalizing s with
  | nil =>
    cases hsend
    rw [← hqueue]
    exact Or.inl ⟨h, hidle, hqueue⟩
  | cons item batches ih =>
    rw [sendBatches, Sender.computeAndSendFibUpdates] at hsend
    cases hupdates : computeUpdates s.m_rib item.update with
    | none =>
      rw [hupdates] at hsend
      cases hsend
    | some updates =>
      rw [hupdates, Option.map_some, sendUpdatesForBatchFaceId_eq] at hsend
      have hbooks : Books (UpdateQueue.start item batches
          ⟨updates, s.m_fibUpdater.inFlight ++ (pending updates).map (firstCommand item),
            s.m_fibUpdater.sent ++ (pending updates).map (firstCommand item), s.m_fibUpdater.responses⟩ s)
          (some item) := h.start hqueue rfl fun command hcommand => mem_sent hcommand
      dsimp only at hsend
      by_cases hnil : pending updates = []
      · rw [if_pos hnil] at hsend
        refine ih (hbooks.complete ?_) rfl rfl hsend
        intro _ computed hstarted update hupdate
        rw [h.start_computed hqueue hstarted] at hupdate
        change update ∈ allUpdates updates at hupdate
        rw [allUpdates_eq_nil hnil] at hupdate
        exact absurd hupdate List.not_mem_nil
      · rw [if_neg hnil] at hsend
        cases hsend
        exact Or.inr ⟨item, hbooks, Busy.start h hqueue (computeUpdates_wellFormed _ hupdates) rfl hnil⟩

def Ready (s : State) : Prop :=
  Books s none ∧ s.m_isUpdateInProgress = false ∨ ∃ item, Books s (some item) ∧ Busy s item

theorem Consistent.ready (h : Consistent s) : Ready s := by
  rcases h with ⟨hbooks, hidle, -⟩ | hbusy
  · exact Or.inl ⟨hbooks, hidle⟩
  · exact Or.inr hbusy

theorem sendBatchFromQueue_consistent (h : Ready s) (hsend : sendBatchFromQueue s = some s') : Consistent s' := by
  unfold sendBatchFromQueue at hsend
  rcases h with ⟨hbooks, hidle⟩ | ⟨item, hbooks, hbusy⟩
  · rw [hidle] at hsend
    exact sendBatches_consistent hbooks hidle rfl hsend
  · rw [hbusy.inProgress] at hsend
    cases hsend
    exact Or.inr ⟨item, hbooks, hbusy⟩

theorem addUpdateToQueue_ready (h : Ready s) (update : RibUpdate) : Ready (addUpdateToQueue update s) := by
  rcases h with ⟨hbooks, hidle⟩ | ⟨item, hbooks, hbusy⟩
  · exact Or.inl ⟨hbooks.enqueue update, hidle⟩
  · refine Or.inr ⟨item, hbooks.enqueue update, ?_⟩
    exact ⟨hbusy.inProgress, hbusy.wellFormed, hbusy.perm, hbusy.left, hbusy.computed⟩

theorem beginRemoveFace_ready (h : Ready s) (routes : List (NdnPacket.Name × Route)) :
    Ready (routes.foldl (fun s nameAndRoute =>
      addUpdateToQueue ⟨.REMOVE_FACE, nameAndRoute.1, nameAndRoute.2⟩ s) s) := by
  induction routes generalizing s with
  | nil => exact h
  | cons nameAndRoute routes ih => exact ih (addUpdateToQueue_ready h _)

section Responses

def Called (callback : Option (Callback UpdateQueueItem)) (s : State) : Prop :=
  match callback with
  | none => Consistent s
  | some callback => Ready (call callback s)

theorem Books.retried {current : Option UpdateQueueItem} (h : Books s current)
    (hcommand : s.m_fibUpdater.inFlight[i]? = some command)
    (hsender : sender = (s.m_fibUpdater.received i command response).sendAddNextHopUpdate command.update
      command.callbacks (command.nTimeouts + 1)) : Books { s with m_fibUpdater := sender } current := by
  subst hsender
  apply h.respond
  · exact List.subset_append_left _ _
  · intro other hother
    rcases List.mem_append.mp hother with hold | hnew
    · exact h.late other (List.mem_of_mem_eraseIdx hold)
    · rw [List.mem_singleton.mp hnew]
      exact h.late command (List.mem_of_getElem? hcommand)

theorem Busy.retried (h : Busy s item) (hcommand : s.m_fibUpdater.inFlight[i]? = some command)
    (hsender : sender = (s.m_fibUpdater.received i command response).sendAddNextHopUpdate command.update
      command.callbacks (command.nTimeouts + 1)) : Busy { s with m_fibUpdater := sender } item := by
  subst hsender
  constructor
  · exact h.inProgress
  · exact h.wellFormed
  · refine List.Perm.trans ?_ h.perm
    change (updatesOf item (s.m_fibUpdater.inFlight.eraseIdx i ++
      [⟨command.update, .ADD_NEXTHOP, command.callbacks, command.nTimeouts + 1⟩])).Perm _
    rw [updatesOf_append]
    by_cases hitem : command.callbacks = item
    · have hnew : updatesOf item [(⟨command.update, .ADD_NEXTHOP, command.callbacks, command.nTimeouts + 1⟩ :
          Command UpdateQueueItem)] = [command.update] := by
        rw [updatesOf, List.filter_cons, if_pos (decide_eq_true hitem)]
        rfl
      rw [hnew]
      exact List.perm_append_comm.trans (updatesOf_perm hcommand hitem)
    · have hnew : updatesOf item [(⟨command.update, .ADD_NEXTHOP, command.callbacks, command.nTimeouts + 1⟩ :
          Command UpdateQueueItem)] = [] := by
        apply updatesOf_eq_nil
        intro other hother
        rw [List.mem_singleton.mp hother]
        exact hitem
      rw [hnew, List.append_nil]
      exact updatesOf_late hcommand hitem
  · exact h.left
  · intro updates hstarted update hupdate
    refine (h.computed updates hstarted update hupdate).imp_right fun hanswer => ?_
    exact hanswer.mono (List.subset_append_left _ _)

theorem removeUpdate_perm {update : FibUpdate} {rest fibUpdates : List FibUpdate}
    (h : (update :: rest).Perm fibUpdates) (hnodup : fibUpdates.Nodup) : rest.Perm (removeUpdate update fibUpdates) := by
  have hnew : update ∉ rest := (List.nodup_cons.mp (h.nodup_iff.mpr hnodup)).1
  have hperm := h.filter (fun other => other ≠ update)
  rw [List.filter_cons, if_neg (by rw [decide_eq_true_eq, not_not])] at hperm
  rw [List.filter_eq_self.mpr] at hperm
  · exact hperm
  · intro other hother
    rw [decide_eq_true_eq]
    rintro rfl
    exact hnew hother

theorem Books.settled (h : Books s (some item)) (hitem : command.callbacks = item) {more : List FibUpdate}
    (hsettled : Settled command (s.m_fibUpdater.received i command response) sender callback more) :
    Books { s with m_fibUpdater := sender } (some item) := by
  apply h.respond
  · rw [hsettled.sends]
    exact List.subset_append_left _ _
  · intro other hother
    rw [hsettled.sends] at hother
    rcases List.mem_append.mp hother with hold | hnew
    · exact h.late other (List.mem_of_mem_eraseIdx hold)
    · obtain ⟨update, -, rfl⟩ := List.mem_map.mp hnew
      exact Or.inl (congrArg some hitem)

theorem Busy.settled_perm (h : Busy s item) (hcommand : s.m_fibUpdater.inFlight[i]? = some command)
    (hitem : command.callbacks = item) {more : List FibUpdate}
    (hsettled : Settled command (s.m_fibUpdater.received i command response) sender callback more) :
    (updatesOf item sender.inFlight).Perm (pending sender.updates) := by
  have hrest : (updatesOf item (s.m_fibUpdater.inFlight.eraseIdx i)).Perm
      (removeUpdate command.update (pending s.m_fibUpdater.updates)) :=
    removeUpdate_perm ((updatesOf_perm hcommand hitem).trans h.perm) (pending_nodup h.wellFormed)
  have hflight : updatesOf item sender.inFlight = updatesOf item (s.m_fibUpdater.inFlight.eraseIdx i) ++ more := by
    rw [hsettled.sends, updatesOf_append, hitem, updatesOf_firstCommand]
    rfl
  rw [hflight, hsettled.pending_eq]
  exact hrest.append_right more

theorem Busy.settled_computed (h : Busy s item) (hitem : command.callbacks = item) {more : List FibUpdate}
    (hsettled : Settled command (s.m_fibUpdater.received i command response) sender callback more)
    (htimeout : response ≠ .error ERROR_TIMEOUT) :
    ∀ updates, (item, updates) ∈ s.started → ∀ update ∈ updates,
      update ∈ allUpdates sender.updates ∨ AnsweredFor sender item update := by
  have hresponses : sender.responses = s.m_fibUpdater.responses ++ [(command, response)] := by
    rw [hsettled.sends]
    rfl
  intro updates hstarted update hupdate
  rcases h.computed updates hstarted update hupdate with hleft | hanswer
  · rcases hsettled.left update hleft with hleft | rfl
    · exact Or.inl hleft
    · refine Or.inr ⟨command, response, ?_, htimeout, hitem, rfl⟩
      rw [hresponses]
      exact List.mem_append_right _ List.mem_cons_self
  · refine Or.inr (hanswer.mono ?_)
    rw [hresponses]
    exact List.subset_append_left _ _

theorem Busy.settled (h : Busy s item) (hbooks : Books s (some item))
    (hcommand : s.m_fibUpdater.inFlight[i]? = some command) (hitem : command.callbacks = item) {more : List FibUpdate}
    (hsettled : Settled command (s.m_fibUpdater.received i command response) sender callback more)
    (htimeout : response ≠ .error ERROR_TIMEOUT) :
    Called callback { s with m_fibUpdater := sender } := by
  have hbooks' := hbooks.settled hitem hsettled
  have hcomputed := h.settled_computed hitem hsettled htimeout
  rw [hsettled.callback_eq]
  by_cases hnil : pending sender.updates = []
  · rw [if_pos hnil]
    refine Or.inl ⟨?_, rfl⟩
    rw [hitem]
    apply hbooks'.complete
    intro _ updates hstarted update hupdate
    rcases hcomputed updates hstarted update hupdate with hleft | hanswer
    · rw [allUpdates_eq_nil hnil] at hleft
      exact absurd hleft List.not_mem_nil
    · exact hanswer
  · rw [if_neg hnil]
    refine Or.inr ⟨item, hbooks', ?_⟩
    exact ⟨h.inProgress, hsettled.wellFormed, h.settled_perm hcommand hitem hsettled, hnil, hcomputed⟩

theorem late_consistent (h : Consistent s) (hcommand : s.m_fibUpdater.inFlight[i]? = some command)
    (hlate : command.callbacks.id ∈ completed s) (hunaffected : Unaffected s command.update)
    (hresponded : Responded command (s.m_fibUpdater.received i command response) response sender callback)
    (htimeout : response ≠ .error ERROR_TIMEOUT)
    (hfailed : response = .error ERROR_FACE_NOT_FOUND →
      command.update.faceId ≠ s.m_fibUpdater.updates.m_batchFaceId) :
    Called callback { s with m_fibUpdater := sender } := by
  obtain ⟨hlist, other, hother, hne⟩ := hunaffected
  have hleft : removeUpdate command.update (listOf s.m_fibUpdater.updates command.update) ≠ [] :=
    List.ne_nil_of_mem (mem_removeUpdate.mpr ⟨hother, hne⟩)
  obtain ⟨hcallback, hflight, hresponses, hupdates⟩ := responded_late hresponded hleft htimeout hfailed
  have hsubset : s.m_fibUpdater.responses ⊆ sender.responses := by
    rw [hresponses]
    exact List.subset_append_left _ _
  have hlates : ∀ {current : Option UpdateQueueItem}, Books s current →
      Books { s with m_fibUpdater := sender } current := by
    intro current hbooks
    apply hbooks.respond hsubset
    intro other hother
    rw [hflight] at hother
    exact hbooks.late other (List.mem_of_mem_eraseIdx hother)
  rw [hcallback]
  rcases h with ⟨hbooks, hidle, hqueue⟩ | ⟨item, hbooks, hbusy⟩
  · exact Or.inl ⟨hlates hbooks, hidle, hqueue⟩
  · have hitem : command.callbacks ≠ item := by
      rintro rfl
      exact hbooks.current_not_completed _ List.mem_cons_self hlate
    have hsame : sender.updates = s.m_fibUpdater.updates := hupdates (hlist hbusy.inProgress)
    refine Or.inr ⟨item, hlates hbooks, hbusy.inProgress, ?_, ?_, ?_, ?_⟩
    · rw [hsame]
      exact hbusy.wellFormed
    · rw [hsame, hflight]
      exact (updatesOf_late hcommand hitem).trans hbusy.perm
    · rw [hsame]
      exact hbusy.left
    · rw [hsame]
      intro updates hstarted update hupdate
      exact (hbusy.computed updates hstarted update hupdate).imp_right fun hanswer => hanswer.mono hsubset

theorem retried_consistent (h : Consistent s) (hcommand : s.m_fibUpdater.inFlight[i]? = some command)
    (hsender : sender = (s.m_fibUpdater.received i command response).sendAddNextHopUpdate command.update
      command.callbacks (command.nTimeouts + 1)) : Consistent { s with m_fibUpdater := sender } := by
  rcases h with ⟨hbooks, hidle, hqueue⟩ | ⟨item, hbooks, hbusy⟩
  · exact Or.inl ⟨hbooks.retried hcommand hsender, hidle, hqueue⟩
  · exact Or.inr ⟨item, hbooks.retried hcommand hsender, hbusy.retried hcommand hsender⟩

theorem failed_ready (hbooks : Books s (some item)) (code : ℕ) :
    Ready (onFibUpdateFailure item code { s with
      m_fibUpdater := s.m_fibUpdater.received i command response }) := by
  have hreceived : Books { s with m_fibUpdater := s.m_fibUpdater.received i command response } (some item) :=
    hbooks.respond (List.subset_append_left _ _) fun other hother => hbooks.late other (List.mem_of_mem_eraseIdx hother)
  exact Or.inl ⟨hreceived.complete (fun hresult => by cases hresult), rfl⟩

theorem Consistent.own (h : Consistent s) (hcommand : s.m_fibUpdater.inFlight[i]? = some command)
    (hlate : command.callbacks.id ∉ completed s) :
    Books s (some command.callbacks) ∧ Busy s command.callbacks ∧
      command.update ∈ pending s.m_fibUpdater.updates := by
  have hflight := List.mem_of_getElem? hcommand
  rcases h with ⟨hbooks, -, -⟩ | ⟨item, hbooks, hbusy⟩
  · rcases hbooks.late command hflight with hnone | hcompleted
    · cases hnone
    · exact absurd hcompleted hlate
  · rcases hbooks.late command hflight with hitem | hcompleted
    · obtain rfl := Option.some.inj hitem
      exact ⟨hbooks, hbusy, hbusy.perm.subset ((updatesOf_perm hcommand rfl).subset List.mem_cons_self)⟩
    · exact absurd hcompleted hlate

theorem responded_called (h : Consistent s) (hintime : InTime s (.respond i response))
    (hcommand : s.m_fibUpdater.inFlight[i]? = some command)
    (hresponded : Responded command (s.m_fibUpdater.received i command response) response sender callback) :
    Called callback { s with m_fibUpdater := sender } := by
  by_cases hlate : command.callbacks.id ∈ completed s
  · by_cases htimeout : response = .error ERROR_TIMEOUT
    · rcases hresponded.kinds with ⟨-, hsender, rfl⟩ | ⟨hfailed, -⟩ | ⟨hanswer, -⟩
      · exact retried_consistent h hcommand hsender
      · rw [hfailed] at htimeout
        exact absurd htimeout (by decide)
      · exact absurd htimeout hanswer
    · obtain ⟨hunaffected, hfailed⟩ := hintime command hcommand hlate htimeout
      exact late_consistent h hcommand hlate hunaffected hresponded htimeout hfailed
  · obtain ⟨hbooks, hbusy, hpending⟩ := h.own hcommand hlate
    rcases hresponded.kinds with ⟨-, hsender, rfl⟩ | ⟨-, -, rfl, rfl⟩ | ⟨htimeout, hfailed⟩
    · exact retried_consistent h hcommand hsender
    · exact failed_ready hbooks ERROR_FACE_NOT_FOUND
    · obtain ⟨more, hsettled⟩ := hresponded.settled hbusy.wellFormed hpending htimeout hfailed
      exact hbusy.settled hbooks hcommand rfl hsettled htimeout

theorem respond_consistent (h : Consistent s) (hintime : InTime s (.respond i response))
    (hstep : respond i response s = some s') : Consistent s' := by
  unfold respond at hstep
  split at hstep
  · cases hstep
  · rename_i sender hresponse
    cases hstep
    obtain ⟨command, hcommand, hresponded⟩ := respond_responded hresponse
    exact responded_called h hintime hcommand hresponded
  · rename_i sender callback hresponse
    obtain ⟨command, hcommand, hresponded⟩ := respond_responded hresponse
    exact sendBatchFromQueue_consistent (responded_called h hintime hcommand hresponded) hstep

end Responses

theorem step_consistent {event : Event} (h : Consistent s) (hintime : InTime s event) (hstep : step s event = some s') :
    Consistent s' := by
  cases event with
  | beginApplyUpdate update => exact sendBatchFromQueue_consistent (addUpdateToQueue_ready h.ready update) hstep
  | beginRemoveFace faceId => exact sendBatchFromQueue_consistent (beginRemoveFace_ready h.ready _) hstep
  | respond i response => exact respond_consistent h hintime hstep

theorem initial_consistent : Consistent initial := by
  refine Or.inl ⟨?_, rfl, rfl⟩
  constructor
  · exact List.Perm.refl _
  · exact List.Perm.refl _
  · exact fun _ hmem => absurd hmem List.not_mem_nil
  · exact fun _ _ hmem => absurd hmem List.not_mem_nil

theorem Books.orderly {current : Option UpdateQueueItem} (h : Books s current)
    (hsettled : s.m_fibUpdater.inFlight = [] → current = none ∧ s.m_updateBatches = []) : Orderly s := by
  have hperm := h.applying_perm
  constructor
  · rw [hperm.length_eq]
    cases current with
    | none => exact Nat.zero_le 1
    | some item => exact Nat.le_refl 1
  · exact ((hperm.append_left _).append_right _).trans h.ids
  · exact h.answered
  · intro hflight
    obtain ⟨rfl, hqueue⟩ := hsettled hflight
    have hids := h.ids
    rw [queued, hqueue, currentId, Option.map_none, Option.toList_none, List.map_nil, List.append_nil,
      List.append_nil] at hids
    exact hids

theorem Consistent.orderly (h : Consistent s) : Orderly s := by
  rcases h with ⟨hbooks, -, hqueue⟩ | ⟨item, hbooks, hbusy⟩
  · exact hbooks.orderly fun _ => ⟨rfl, hqueue⟩
  · apply hbooks.orderly
    intro hflight
    have hperm := hbusy.perm
    rw [hflight] at hperm
    exact absurd (List.Perm.nil_eq hperm).symm hbusy.left

end Invariant

section Termination

variable {s s' : State} {sender sender' : Sender UpdateQueueItem} {command : Command UpdateQueueItem}
  {response : Response} {callback : Option (Callback UpdateQueueItem)} {i : ℕ}

def weight (command : Command UpdateQueueItem) : ℕ := 1 + (MAX_NUM_TIMEOUTS - command.nTimeouts)

def work (commands : List (Command UpdateQueueItem)) : ℕ := (commands.map weight).sum

def phase (updates : Updates) : ℕ := if updates.m_updatesForBatchFaceId = [] then 0 else 1

def toCome (s : State) : ℕ := s.m_updateBatches.length + if s.m_isUpdateInProgress then 1 else 0

def rank (s : State) : ℕ × ℕ × ℕ := (toCome s, phase s.m_fibUpdater.updates, work s.m_fibUpdater.inFlight)

def Less : ℕ × ℕ × ℕ → ℕ × ℕ × ℕ → Prop := Prod.Lex (· < ·) (Prod.Lex (· < ·) (· < ·))

/-- A response that does not come late takes the one state into the other. -/
def Follows (s' s : State) : Prop := ∃ i response, InTime s (.respond i response) ∧ respond i response s = some s'

theorem work_received (hcommand : sender.inFlight[i]? = some command) :
    work sender.inFlight = weight command + work (sender.inFlight.eraseIdx i) := by
  have hperm := (flight_perm hcommand).map weight
  exact hperm.sum_eq.symm

theorem responded_rank (h : Responded command (sender.received i command response) response sender' none)
    (hcommand : sender.inFlight[i]? = some command)
    (hbatch : response ≠ .error ERROR_TIMEOUT → command.update.faceId = sender.updates.m_batchFaceId →
      sender.updates.m_updatesForBatchFaceId ≠ []) :
    Prod.Lex (· < ·) (· < ·) (phase sender'.updates, work sender'.inFlight)
      (phase sender.updates, work sender.inFlight) := by
  have hwork := work_received hcommand
  have hless : work (sender.inFlight.eraseIdx i) < work sender.inFlight := by
    rw [hwork, weight]
    omega
  cases h with
  | retried htimeouts =>
    have hretry : weight (⟨command.update, .ADD_NEXTHOP, command.callbacks, command.nTimeouts + 1⟩ :
        Command UpdateQueueItem) < weight command := by
      unfold weight
      dsimp only
      omega
    apply Prod.Lex.right
    change work (sender.inFlight.eraseIdx i ++ [_]) < _
    rw [hwork, work, List.map_append, List.sum_append, List.map_singleton, List.sum_singleton, Nat.add_comm]
    exact Nat.add_lt_add_right hretry _
  | batchLeft hface hleft =>
    have hphase : phase ((sender.received i command .success).removeForBatchFaceId command.update).updates =
        phase sender.updates := (if_neg hleft).trans (if_neg (hbatch Response.noConfusion hface)).symm
    rw [hphase]
    exact Prod.Lex.right _ hless
  | nonBatchSent hface hleft =>
    apply Prod.Lex.left
    rw [sendUpdates_eq]
    have hphase : phase ((sender.received i command .success).removeForBatchFaceId command.update).updates = 0 :=
      if_pos hleft
    have hphase' : phase sender.updates = 1 := if_neg (hbatch Response.noConfusion hface)
    rw [hphase']
    exact Nat.lt_of_le_of_lt (Nat.le_of_eq hphase) Nat.one_pos
  | nonBatchLeft _ _ _ => exact Prod.Lex.right _ hless

theorem sendBatches_toCome {batches : List UpdateQueueItem} (hsend : sendBatches batches s = some s')
    (hidle : s.m_isUpdateInProgress = false) : toCome s' ≤ batches.length := by
  induction batches generalizing s with
  | nil =>
    cases hsend
    rw [toCome, hidle]
    exact Nat.le_refl 0
  | cons item batches ih =>
    rw [sendBatches] at hsend
    split at hsend
    · cases hsend
    · cases hsend
      exact Nat.le_refl _
    · rename_i sender callback _
      refine Nat.le_succ_of_le (ih hsend ?_)
      cases callback <;> rfl

theorem batch_ne_nil (h : Consistent s) (hintime : InTime s (.respond i response))
    (hcommand : s.m_fibUpdater.inFlight[i]? = some command) (htimeout : response ≠ .error ERROR_TIMEOUT)
    (hface : command.update.faceId = s.m_fibUpdater.updates.m_batchFaceId) :
    s.m_fibUpdater.updates.m_updatesForBatchFaceId ≠ [] := by
  by_cases hlate : command.callbacks.id ∈ completed s
  · obtain ⟨⟨-, other, hother, -⟩, -⟩ := hintime command hcommand hlate htimeout
    rw [listOf, if_pos hface] at hother
    exact List.ne_nil_of_mem hother
  · obtain ⟨-, hbusy, hpending⟩ := h.own hcommand hlate
    rw [← pending_of_batch hbusy.wellFormed hface hpending]
    exact List.ne_nil_of_mem hpending

theorem inProgress_of_callback (h : Consistent s) (hintime : InTime s (.respond i response))
    (hcommand : s.m_fibUpdater.inFlight[i]? = some command) {called : Callback UpdateQueueItem}
    (hresponded : Responded command (s.m_fibUpdater.received i command response) response sender (some called)) :
    s.m_isUpdateInProgress = true := by
  by_cases hlate : command.callbacks.id ∈ completed s
  · have htimeout : response ≠ .error ERROR_TIMEOUT := by
      rintro rfl
      cases hresponded with
      | nonBatchDone hresponse => rcases hresponse with hresponse | hresponse <;> cases hresponse
    obtain ⟨⟨-, other, hother, hne⟩, hfailed⟩ := hintime command hcommand hlate htimeout
    have hleft : removeUpdate command.update (listOf s.m_fibUpdater.updates command.update) ≠ [] :=
      List.ne_nil_of_mem (mem_removeUpdate.mpr ⟨hother, hne⟩)
    cases (responded_late hresponded hleft htimeout hfailed).1
  · exact (h.own hcommand hlate).2.1.inProgress

/-- Each response leaves fewer batches, or fewer lists to send, or fewer responses to come. -/
theorem follows_less (h : Consistent s) (hfollows : Follows s' s) : Less (rank s') (rank s) := by
  obtain ⟨i, response, hintime, hrespond⟩ := hfollows
  unfold respond at hrespond
  split at hrespond
  · cases hrespond
  · rename_i sender hresponse
    cases hrespond
    obtain ⟨command, hcommand, hresponded⟩ := respond_responded hresponse
    apply Prod.Lex.right
    exact responded_rank hresponded hcommand (batch_ne_nil h hintime hcommand)
  · rename_i sender callback hresponse
    obtain ⟨command, hcommand, hresponded⟩ := respond_responded hresponse
    have hbusy := inProgress_of_callback h hintime hcommand hresponded
    have hidle : (call callback { s with m_fibUpdater := sender }).m_isUpdateInProgress = false := by
      cases callback <;> rfl
    have hqueue : (call callback { s with m_fibUpdater := sender }).m_updateBatches = s.m_updateBatches := by
      cases callback <;> rfl
    rw [sendBatchFromQueue, hidle, hqueue] at hrespond
    apply Prod.Lex.left
    have hcome : toCome s = s.m_updateBatches.length + 1 := by
      rw [toCome, hbusy]
      rfl
    rw [hcome]
    exact Nat.lt_succ_of_le (sendBatches_toCome hrespond hidle)

theorem less_wellFounded : WellFounded Less :=
  WellFounded.prod_lex Nat.lt_wfRel.wf (WellFounded.prod_lex Nat.lt_wfRel.wf Nat.lt_wfRel.wf)

theorem Consistent.acc (h : Consistent s) : Acc Follows s := by
  generalize hrank : rank s = r
  induction r using less_wellFounded.induction generalizing s with
  | h r ih =>
    constructor
    intro s' hfollows
    have hless := follows_less h hfollows
    rw [hrank] at hless
    obtain ⟨i, response, hintime, hrespond⟩ := hfollows
    exact ih (rank s') hless (respond_consistent h hintime hrespond) rfl

/-- In every run without late answers that change something, the updates are
applied one at a time, each is called back once, and the responses come to an end. -/
theorem orderly_in_time (hrun : Run step InTime initial s) : Orderly s ∧ Acc Follows s := by
  have hconsistent : Consistent s :=
    hrun.invariant (fun _ _ _ h hintime hstep => step_consistent h hintime hstep) initial_consistent
  exact ⟨hconsistent.orderly, hconsistent.acc⟩

end Termination

section Examples

instance (s : State) (update : FibUpdate) : Decidable (Unaffected s update) := inferInstanceAs (Decidable (_ ∧ _))

instance (s : State) (event : Event) : Decidable (InTime s event) :=
  match event with
  | .beginApplyUpdate _ => inferInstanceAs (Decidable True)
  | .beginRemoveFace _ => inferInstanceAs (Decidable True)
  | .respond i response => inferInstanceAs (Decidable (∀ command ∈ s.m_fibUpdater.inFlight[i]?,
      command.callbacks.id ∈ completed s → response ≠ .error ERROR_TIMEOUT → Unaffected s command.update ∧
        (response = .error ERROR_FACE_NOT_FOUND → command.update.faceId ≠ s.m_fibUpdater.updates.m_batchFaceId)))

def nameA : NdnPacket.Name := [⟨8, [97]⟩]

def nameAB : NdnPacket.Name := [⟨8, [97]⟩, ⟨8, [98]⟩]

def registration (name : NdnPacket.Name) (faceId : ℕ) : Event :=
  .beginApplyUpdate ⟨.REGISTER, name, ⟨faceId, 0, 10, 1, none, none, 0, none⟩⟩

def failingBatch : List Event :=
  [registration nameAB 2, .respond 0 .success, registration nameA 1, .respond 0 (.error ERROR_FACE_NOT_FOUND)]

/-- A command times out, and a success comes late. -/
theorem orderly_late_success : ∃ s, Run step InTime initial s ∧ (Orderly s ∧ Acc Follows s) ∧
    s.completions.map (fun completion => (completion.1.id, completion.2)) =
      [(0, .success), (1, .failure ERROR_FACE_NOT_FOUND)] := by
  have hvalue : (runOf step InTime initial (failingBatch ++ [.respond 0 (.error ERROR_TIMEOUT), .respond 0 .success])).map
      (fun s => s.completions.map (fun completion => (completion.1.id, completion.2))) =
      some [(0, .success), (1, .failure ERROR_FACE_NOT_FOUND)] := by
    decide
  obtain ⟨s, hrun, hcompletions⟩ := Option.map_eq_some_iff.mp hvalue
  exact ⟨s, Run.of_runOf hrun, orderly_in_time (Run.of_runOf hrun), hcompletions⟩

/-- The second failure of a batch starts another batch beside the next one. -/
theorem second_failure_starts_batch : ¬ ∀ s, Run step (fun _ _ => True) initial s → Orderly s := by
  intro horderly
  have hvalue : (runOf step (fun _ _ => True) initial ([registration nameAB 2, .respond 0 .success, registration nameA 1,
      registration [] 1, registration nameAB 1] ++ List.replicate 2 (.respond 0 (.error ERROR_FACE_NOT_FOUND)))).map
      (fun s => (completed s, applying s)) = some ([0, 1, 1], [2, 3]) := by
    decide
  obtain ⟨s, hrun, hvalue⟩ := Option.map_eq_some_iff.mp hvalue
  obtain ⟨-, happlying⟩ := Prod.mk.inj hvalue
  have hone := (horderly s (Run.of_runOf hrun)).oneAtATime
  rw [happlying] at hone
  exact absurd hone (by decide)

end Examples

end LeoNdn.UpdateQueue
