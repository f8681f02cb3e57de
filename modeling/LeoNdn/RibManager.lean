import LeoNdn.FibCommands

/-!
The manager of the RIB: routes that expire, the queue of updates, and what each
response of the FIB does. A callback of a command is kept as a value.
-/

namespace LeoNdn.RibManager

open LeoNdn.NdnPacket LeoNdn.KiteProtocol LeoNdn.RibTable LeoNdn.FibUpdater
open LeoNdn.FibCommands (Sender Callback Response computeAndSendFibUpdates_eq mem_sent)

inductive RibUpdateResult
  | OK
  | ERROR
  | EXPIRED
  deriving DecidableEq, Repr

inductive SlAnnounceResult
  | OK
  | ERROR
  | VALIDATION_FAILURE
  | EXPIRED
  | NOT_FOUND
  deriving DecidableEq, Repr

def getSlAnnounceResultFromRibUpdateResult : RibUpdateResult → SlAnnounceResult
  | .OK => .OK
  | .ERROR => .ERROR
  | .EXPIRED => .EXPIRED

def toInt64 (n : ℤ) : ℤ := (n + 9223372036854775808) % 18446744073709551616 - 9223372036854775808

def nanoseconds (milliseconds : ℤ) : ℤ := toInt64 (milliseconds * 1000000)

section Routes

variable (system_clock : ℤ → ℤ)

/-- The end of the validity period is given in seconds of the system clock. -/
def computeExpiration (now : ℤ) (ann : PrefixAnnouncement) : ℤ :=
  let validityEnd :=
    match ann.m_validity with
    | none => 9223372036854775807
    | some validity =>
      if validity.m_notBefore * 1000000000 ≤ system_clock now ∧
          system_clock now ≤ validity.m_notAfter * 1000000000 then
        toInt64 (validity.m_notAfter * 1000000000 - system_clock now)
      else 0
  toInt64 (now + min validityEnd (nanoseconds ann.m_expiration))

def PA_ROUTE_COST : ℕ := 2048

def ROUTE_ORIGIN_PREFIXANN : ℕ := 129

/-- The constructor of `Route` from a prefix announcement. -/
def routeOfAnnouncement (now : ℤ) (ann : PrefixAnnouncement) (faceId : ℕ) : Route :=
  let expires := computeExpiration system_clock now ann
  ⟨faceId, ROUTE_ORIGIN_PREFIXANN, PA_ROUTE_COST, ROUTE_FLAG_CHILD_INHERIT, some expires, some ann, expires, none⟩

def limitLifetime (now : ℤ) (route : Route) (maxLifetime : ℤ) : Route :=
  { route with expires := some (min route.annExpires (toInt64 (now + nanoseconds maxLifetime))) }

end Routes

/-- An expiration event that is scheduled, and what it has captured. -/
structure Timer where
  event : EventId
  name : Name
  route : Route
  deriving DecidableEq, Repr

/-- An update and the callback that is bound to it. The expiration event that has put
it into the queue and the time of that are kept for the proofs. -/
structure UpdateQueueItem (γ : Type) where
  id : ℕ
  update : RibUpdate
  callback : Option γ
  cause : Option EventId
  queuedAt : ℤ
  deriving DecidableEq

structure Validation (γ : Type) where
  pa : PrefixAnnouncement
  faceId : ℕ
  maxLifetime : ℤ
  callback : γ

/-- A route that an expiration event has removed, and the registrations of the
same route that were pending then. -/
structure Removal (γ : Type) where
  time : ℤ
  name : Name
  route : Route
  cause : EventId
  renewals : List (UpdateQueueItem γ)

/-- What the update in progress is, and the routes that have been removed, are kept
for the proofs. -/
structure State (γ : Type) where
  now : ℤ
  nextUid : ℕ
  m_isLocalhopEnabled : Bool
  m_rib : Rib
  timers : List Timer
  inProgress : Option (UpdateQueueItem γ)
  m_fibUpdater : Sender (UpdateQueueItem γ)
  m_updateBatches : List (UpdateQueueItem γ)
  validations : List (Validation γ)
  completions : List (γ × SlAnnounceResult)
  removed : List (Removal γ)

variable {γ : Type}

namespace State

variable (s : State γ)

def cancel (event : Option EventId) : State γ :=
  match event with
  | none => s
  | some event => { s with timers := s.timers.filter (fun timer => timer.event ≠ event) }

def complete (callback : Option γ) (res : SlAnnounceResult) : State γ :=
  { s with completions := s.completions ++ (callback.map (fun callback => (callback, res))).toList }

def expirationEvent (name : Name) (route : Route) : Option EventId :=
  (s.m_rib.findRoute name route).bind Route.m_expirationEvent

def isRegistration (name : Name) (route : Route) (item : UpdateQueueItem γ) : Bool :=
  item.update.action = .REGISTER && item.update.name = name && compareFaceIdAndOrigin item.update.route route

def recordRemoval (item : UpdateQueueItem γ) : State γ :=
  match item.cause, s.m_rib.findRoute item.update.name item.update.route with
  | some cause, some route =>
    { s with removed := s.removed ++ [⟨s.now, item.update.name, route, cause,
        s.m_updateBatches.filter (isRegistration item.update.name item.update.route)⟩] }
  | _, _ => s

end State

def pending (s : State γ) : List (UpdateQueueItem γ) := s.inProgress.toList ++ s.m_updateBatches

/-- What a RIB update does to the RIB and to the event of the route that it finds there. -/
def applyUpdate (item : UpdateQueueItem γ) (s : State γ) : State γ :=
  let event := s.expirationEvent item.update.name item.update.route
  match item.update.action with
  | .REGISTER => { s.cancel event with m_rib := s.m_rib.insert item.update.name item.update.route }
  | _ => { (s.recordRemoval item).cancel event with m_rib := s.m_rib.erase item.update.name item.update.route }

/-- `onFibUpdateSuccess`, without advancing the queue. -/
def onFibUpdateSuccess (item : UpdateQueueItem γ) (inheritedRoutes : List RibUpdate) (s : State γ) : State γ :=
  let s := applyUpdate item s
  { s with m_rib := modifyInheritedRoutes inheritedRoutes s.m_rib, inProgress := none }.complete item.callback .OK

/-- `onFibUpdateFailure`, without advancing the queue. -/
def onFibUpdateFailure (item : UpdateQueueItem γ) (s : State γ) : State γ :=
  { s with inProgress := none }.complete item.callback .ERROR

def call (callback : Callback (UpdateQueueItem γ)) (s : State γ) : State γ :=
  match callback with
  | .onSuccess item inheritedRoutes => onFibUpdateSuccess item inheritedRoutes s
  | .onFailure item _ => onFibUpdateFailure item s

/-- The copy of an entry that a route is erased from cancels the event of the route. -/
def cancelErased (item : UpdateQueueItem γ) (s : State γ) : State γ :=
  match item.update.action with
  | .REGISTER => s
  | _ => s.cancel (s.expirationEvent item.update.name item.update.route)

def start (item : UpdateQueueItem γ) (batches : List (UpdateQueueItem γ)) (sender : Sender (UpdateQueueItem γ))
    (s : State γ) : State γ :=
  { cancelErased item s with m_updateBatches := batches, inProgress := some item, m_fibUpdater := sender }

/-- `sendBatchFromQueue` while no update is in progress: an update that needs
nothing of the FIB succeeds at once. -/
def sendBatches : List (UpdateQueueItem γ) → State γ → Option (State γ)
  | [], s => some { s with m_updateBatches := [] }
  | item :: batches, s =>
    match s.m_fibUpdater.computeAndSendFibUpdates s.m_rib item.update item with
    | none => none
    | some (sender, none) => some (start item batches sender s)
    | some (sender, some callback) => sendBatches batches (call callback (start item batches sender s))

def sendBatchFromQueue (s : State γ) : Option (State γ) :=
  if s.inProgress.isSome then some s else sendBatches s.m_updateBatches s

def addUpdateToQueue (update : RibUpdate) (callback : Option γ) (cause : Option EventId) (s : State γ) : State γ :=
  { s with
    nextUid := s.nextUid + 1,
    m_updateBatches := s.m_updateBatches ++ [⟨s.nextUid, update, callback, cause, s.now⟩] }

def beginApplyUpdate (update : RibUpdate) (callback : Option γ) (cause : Option EventId) (s : State γ) :
    Option (State γ) :=
  sendBatchFromQueue (addUpdateToQueue update callback cause s)

def onRouteExpiration (cause : Option EventId) (name : Name) (route : Route) (s : State γ) : Option (State γ) :=
  beginApplyUpdate ⟨.UNREGISTER, name, route⟩ none cause s

/-- The expiry of a route in a registration: what is asked for, or else what the route has. -/
def setExpires (now : ℤ) (route : Route) (expires : Option ℤ) : Route × Option ℤ :=
  match expires with
  | some expires => ({ route with expires := some (toInt64 (now + expires)) }, some expires)
  | none => (route, route.expires.map (fun time => toInt64 (time - now)))

def beginAddRoute (name : Name) (route : Route) (expires : Option ℤ) (callback : Option γ) (s : State γ) :
    Option (State γ) :=
  let (route, expires) := setExpires s.now route expires
  match expires with
  | none => beginApplyUpdate ⟨.REGISTER, name, route⟩ callback none s
  | some expires =>
    if expires ≤ 0 then (onRouteExpiration none name route s).map (fun s => s.complete callback .EXPIRED)
    else
      let event : EventId := ⟨s.nextUid, s.now + expires⟩
      beginApplyUpdate ⟨.REGISTER, name, { route with m_expirationEvent := some event }⟩ callback none
        { s with nextUid := s.nextUid + 1, timers := s.timers ++ [⟨event, name, route⟩] }

def beginRemoveRoute (name : Name) (route : Route) (s : State γ) : Option (State γ) :=
  beginApplyUpdate ⟨.UNREGISTER, name, route⟩ none none s

def beginRemoveFace (faceId : ℕ) (s : State γ) : Option (State γ) :=
  sendBatchFromQueue ((s.m_rib.findRoutesWithFaceId faceId).foldl (fun s nameAndRoute =>
    addUpdateToQueue ⟨.REMOVE_FACE, nameAndRoute.1, nameAndRoute.2⟩ none none s) s)

def fibResponse (i : ℕ) (response : Response) (s : State γ) : Option (State γ) :=
  match s.m_fibUpdater.respond i response with
  | none => none
  | some (sender, none) => some { s with m_fibUpdater := sender }
  | some (sender, some callback) => sendBatchFromQueue (call callback { s with m_fibUpdater := sender })

section Fields

variable (s : State γ) (event : Option EventId) (item : UpdateQueueItem γ)

@[simp]
theorem cancel_removed : (s.cancel event).removed = s.removed := by
  cases event <;> rfl

theorem recordRemoval_eq : ∃ removed, s.recordRemoval item = { s with removed := removed } := by
  unfold State.recordRemoval
  split
  · exact ⟨_, rfl⟩
  · exact ⟨s.removed, rfl⟩

theorem onFibUpdateSuccess_eq (inheritedRoutes : List RibUpdate) :
    ∃ timers removed, onFibUpdateSuccess item inheritedRoutes s =
      { s with
        timers := timers, inProgress := none, removed := removed,
        m_rib := modifyInheritedRoutes inheritedRoutes (updateRib item.update s.m_rib),
        completions := s.completions ++ (item.callback.map (fun callback => (callback, SlAnnounceResult.OK))).toList } := by
  obtain ⟨removed, hrecord⟩ := recordRemoval_eq s item
  unfold onFibUpdateSuccess applyUpdate updateRib
  rw [hrecord]
  cases item.update.action <;> cases s.expirationEvent item.update.name item.update.route <;> exact ⟨_, _, rfl⟩

theorem cancelErased_eq : ∃ timers, cancelErased item s = { s with timers := timers } := by
  unfold cancelErased
  cases item.update.action <;> cases s.expirationEvent item.update.name item.update.route <;> exact ⟨_, rfl⟩

variable {s item}

/-- A round of the queue: the update is sent, and succeeds at once or waits for the FIB. -/
theorem sendBatches_cons {batches : List (UpdateQueueItem γ)} {s' : State γ}
    (hsend : sendBatches (item :: batches) s = some s') :
    ∃ timers sender, (∀ command ∈ sender.inFlight, command ∈ s.m_fibUpdater.inFlight ∨ command.callbacks = item) ∧
      (s' = { s with
        timers := timers, m_updateBatches := batches, inProgress := some item, m_fibUpdater := sender } ∨
      ∃ inheritedRoutes, sendBatches batches (onFibUpdateSuccess item inheritedRoutes { s with
        timers := timers, m_updateBatches := batches, inProgress := some item, m_fibUpdater := sender }) = some s') := by
  obtain ⟨timers, hcancel⟩ := cancelErased_eq s item
  rw [sendBatches] at hsend
  split at hsend
  · cases hsend
  · rename_i sender hcompute
    obtain ⟨updates, -, rfl, -⟩ := computeAndSendFibUpdates_eq hcompute
    rw [start, hcancel] at hsend
    exact ⟨timers, _, fun command hcommand => mem_sent hcommand, Or.inl (Option.some.inj hsend).symm⟩
  · rename_i sender callback hcompute
    obtain ⟨updates, -, rfl, hcallback⟩ := computeAndSendFibUpdates_eq hcompute
    split at hcallback
    · rw [Option.some.inj hcallback, start, hcancel] at hsend
      exact ⟨timers, _, fun command hcommand => mem_sent hcommand, Or.inr ⟨_, hsend⟩⟩
    · cases hcallback

theorem sendBatchFromQueue_cases {s' : State γ} (hsend : sendBatchFromQueue s = some s') :
    s' = s ∨ s.inProgress = none ∧ sendBatches s.m_updateBatches s = some s' := by
  unfold sendBatchFromQueue at hsend
  split at hsend
  · exact Or.inl (Option.some.inj hsend).symm
  · rename_i hidle
    rw [Option.isSome_iff_ne_none, not_not] at hidle
    exact Or.inr ⟨hidle, hsend⟩

end Fields

section SelfLearning

variable (system_clock : ℤ → ℤ)

/-- `slAnnounce` until the Data of the announcement is validated. -/
def slAnnounce (pa : PrefixAnnouncement) (faceId : ℕ) (maxLifetime : ℤ) (callback : γ) (s : State γ) : State γ :=
  if s.m_isLocalhopEnabled then { s with validations := s.validations ++ [⟨pa, faceId, maxLifetime, callback⟩] }
  else s.complete (some callback) .VALIDATION_FAILURE

def announcedRoute (now : ℤ) (validation : Validation γ) : Route :=
  limitLifetime now (routeOfAnnouncement system_clock now validation.pa validation.faceId) validation.maxLifetime

/-- What `slAnnounce` does when the Data has been validated, or has failed to. -/
def afterValidation (validation : Validation γ) (success : Bool) (s : State γ) : Option (State γ) :=
  if success then
    beginAddRoute validation.pa.m_announcedName (announcedRoute system_clock s.now validation) none
      (some validation.callback) s
  else some (s.complete (some validation.callback) .VALIDATION_FAILURE)

/-- The route that `slRenew` renews, and the name of its announcement. -/
def findRenewed (name : Name) (faceId : ℕ) (s : State γ) : Option (Name × Route) :=
  match s.m_rib.findLongestPrefix name ⟨faceId, ROUTE_ORIGIN_PREFIXANN, 0, 0, none, none, 0, none⟩ with
  | none => none
  | some oldRoute => oldRoute.announcement.map (fun announcement => (announcement.m_announcedName, oldRoute))

def slRenew (name : Name) (faceId : ℕ) (maxLifetime : ℤ) (callback : γ) (s : State γ) : Option (State γ) :=
  match findRenewed name faceId s with
  | none => some (s.complete (some callback) .NOT_FOUND)
  | some (routeName, oldRoute) =>
    beginAddRoute routeName (limitLifetime s.now oldRoute maxLifetime) none (some callback) s

inductive Event (γ : Type)
  | slAnnounce (pa : PrefixAnnouncement) (faceId : ℕ) (maxLifetime : ℤ) (callback : γ)
  | validation (i : ℕ) (success : Bool)
  | slRenew (name : Name) (faceId : ℕ) (maxLifetime : ℤ) (callback : γ)
  | registerEntry (name : Name) (route : Route) (expires : Option ℤ)
  | unregisterEntry (name : Name) (route : Route)
  | onFaceDestroyedEvent (faceId : ℕ)
  | expiration (event : EventId)
  | fibResponse (i : ℕ) (response : Response)
  | advance (time : ℤ)

/-- One event; nothing where it cannot happen, and where the updater fails. Time
does not pass an event that is scheduled. -/
def step (s : State γ) : Event γ → Option (State γ)
  | .slAnnounce pa faceId maxLifetime callback => some (RibManager.slAnnounce pa faceId maxLifetime callback s)
  | .validation i success => do
    let validation ← s.validations[i]?
    afterValidation system_clock validation success { s with validations := s.validations.eraseIdx i }
  | .slRenew name faceId maxLifetime callback => RibManager.slRenew name faceId maxLifetime callback s
  | .registerEntry name route expires => beginAddRoute name route expires none s
  | .unregisterEntry name route => beginRemoveRoute name route s
  | .onFaceDestroyedEvent faceId => beginRemoveFace faceId s
  | .expiration event => do
    let timer ← s.timers.find? (fun timer => timer.event = event)
    if event.time ≤ s.now then onRouteExpiration (some event) timer.name timer.route (s.cancel (some event))
    else none
  | .fibResponse i response => RibManager.fibResponse i response s
  | .advance time =>
    if s.now ≤ time ∧ ∀ timer ∈ s.timers, time ≤ timer.event.time then some { s with now := time } else none

end SelfLearning

end LeoNdn.RibManager
