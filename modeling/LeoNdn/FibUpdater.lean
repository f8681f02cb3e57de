import LeoNdn.RibTable

/-!
The FIB updates that are computed from the RIB for one RIB update, and the
inherited routes that come with them.
-/

namespace LeoNdn.FibUpdater

open LeoNdn.NdnPacket LeoNdn.RibTable

inductive RibAction
  | REGISTER
  | UNREGISTER
  | REMOVE_FACE
  deriving DecidableEq, Repr

structure RibUpdate where
  action : RibAction
  name : Name
  route : Route
  deriving DecidableEq, Repr

inductive FibAction
  | ADD_NEXTHOP
  | REMOVE_NEXTHOP
  deriving DecidableEq, Repr

structure FibUpdate where
  name : Name
  faceId : ℕ
  cost : ℕ
  action : FibAction
  deriving DecidableEq, Repr

def FibUpdate.createAddUpdate (name : Name) (faceId cost : ℕ) : FibUpdate := ⟨name, faceId, cost, .ADD_NEXTHOP⟩

def FibUpdate.createRemoveUpdate (name : Name) (faceId : ℕ) : FibUpdate := ⟨name, faceId, 0, .REMOVE_NEXTHOP⟩

structure Updates where
  m_batchFaceId : ℕ
  m_inheritedRoutes : List RibUpdate
  m_updatesForBatchFaceId : List FibUpdate
  m_updatesForNonBatchFaceId : List FibUpdate
  deriving DecidableEq, Repr

/-- The update of the name and the face is replaced, or else the update is put
at the end. -/
def replaceOrPush (update : FibUpdate) : List FibUpdate → List FibUpdate
  | [] => [update]
  | other :: updates =>
    if update.name = other.name ∧ update.faceId = other.faceId then
      { other with action := update.action, cost := update.cost } :: updates
    else other :: replaceOrPush update updates

namespace Updates

variable (updates : Updates)

def addFibUpdate (update : FibUpdate) : Updates :=
  if update.faceId = updates.m_batchFaceId then
    { updates with m_updatesForBatchFaceId := replaceOrPush update updates.m_updatesForBatchFaceId }
  else { updates with m_updatesForNonBatchFaceId := replaceOrPush update updates.m_updatesForNonBatchFaceId }

def addInheritedRoute (name : Name) (route : Route) : Updates :=
  { updates with m_inheritedRoutes := updates.m_inheritedRoutes ++ [⟨.REGISTER, name, route⟩] }

def removeInheritedRoute (name : Name) (route : Route) : Updates :=
  { updates with m_inheritedRoutes := updates.m_inheritedRoutes ++ [⟨.UNREGISTER, name, route⟩] }

def inherit (name : Name) (route : Route) : Updates :=
  (updates.addInheritedRoute name route).addFibUpdate (.createAddUpdate name route.faceId route.cost)

/-- A route is no longer an inherited route of the name nor a next hop. -/
def disinherit (name : Name) (route : Route) : Updates :=
  (updates.removeInheritedRoute name route).addFibUpdate (.createRemoveUpdate name route.faceId)

def addInheritedRoutes (entry : RibEntry) (routesToAdd : List Route) : Updates :=
  routesToAdd.foldl (fun updates route =>
    if entry.hasFaceId route.faceId then updates else updates.inherit entry.m_name route) updates

/-- `addInheritedRoutes` of a name, but for the face of a route. -/
def addInheritedRoutesExcept (name : Name) (routesToAdd : List Route) (ignore : Route) : Updates :=
  routesToAdd.foldl (fun updates route =>
    if route.faceId = ignore.faceId then updates else updates.inherit name route) updates

def removeInheritedRoutes (entry : RibEntry) (routesToRemove : List Route) : Updates :=
  routesToRemove.foldl (fun updates route =>
    if entry.hasInheritedRoute route then updates.disinherit entry.m_name route else updates) updates

end Updates

section Inheritance

variable (rib : Rib)

/-- The routes that the loops of `traverseSubTree` leave, of those to add or to remove. -/
def notOverridden (entry : RibEntry) (routes : List Route) : List Route :=
  routes.filter (fun route => ! entry.hasChildInheritOnFaceId route.faceId)

/-- `traverseSubTree`, with a bound on the depth. -/
def traverseSubTree : ℕ → List Route → List Route → Name → Updates → Updates
  | 0, _, _, _, updates => updates
  | depth + 1, routesToAdd, routesToRemove, name, updates =>
    match rib.find name with
    | none => updates
    | some entry =>
      if entry.hasCapture then updates
      else
        let routesToRemove := notOverridden entry routesToRemove
        let updates := updates.removeInheritedRoutes entry routesToRemove
        let routesToAdd := notOverridden entry routesToAdd
        let updates := updates.addInheritedRoutes entry routesToAdd
        entry.m_children.foldl (fun updates child => traverseSubTree depth routesToAdd routesToRemove child updates)
          updates

def modifyChildrensInheritedRoutes (children : List Name) (routesToAdd routesToRemove : List Route)
    (updates : Updates) : Updates :=
  children.foldl (fun updates child => traverseSubTree rib rib.m_rib.length routesToAdd routesToRemove child updates)
    updates

end Inheritance

section Creation

variable (rib : Rib)

def createFibUpdatesForNewRibEntry (name : Name) (route : Route) (children : List Name) (updates : Updates) :
    Updates :=
  let updates := updates.addFibUpdate (.createAddUpdate name route.faceId route.cost)
  let ancestorRoutes := rib.getAncestorRoutesOfName name
  if ! route.isChildInherit && ! route.isRibCapture then updates.addInheritedRoutesExcept name ancestorRoutes route
  else if route.isChildInherit && route.isRibCapture then
    modifyChildrensInheritedRoutes rib children [route] ancestorRoutes updates
  else if route.isChildInherit then
    let updates := updates.addInheritedRoutesExcept name ancestorRoutes route
    let routesToAdd := RouteSet.insert route (RouteSet.erase ancestorRoutes route.faceId)
    modifyChildrensInheritedRoutes rib children routesToAdd [] updates
  else modifyChildrensInheritedRoutes rib children [] ancestorRoutes updates

/-- The route is not more expensive than the other, if there is one. -/
def isLowest (route : Route) (other : Option Route) : Bool := other.all (fun other => route.cost ≤ other.cost)

def createFibUpdatesForNewRoute (entry : RibEntry) (route : Route) (captureWasTurnedOn : Bool) (updates : Updates) :
    Updates :=
  let prevRoute := entry.getRouteWithLowestCostAndChildInheritByFaceId route.faceId
  let routesToAdd := if route.isChildInherit && isLowest route prevRoute then [route] else []
  let routesToRemove := if captureWasTurnedOn then rib.getAncestorRoutes entry else []
  let updates := if captureWasTurnedOn then updates.removeInheritedRoutes entry routesToRemove else updates
  let updates := modifyChildrensInheritedRoutes rib entry.m_children routesToAdd routesToRemove updates
  if isLowest route (entry.getRouteWithLowestCostByFaceId route.faceId) then
    updates.addFibUpdate (.createAddUpdate entry.m_name route.faceId route.cost)
  else updates

/-- The update of the entry itself when the cost of a route has changed; nothing
where a null pointer is dereferenced. -/
def updateCost (entry : RibEntry) (route existingRoute : Route) (updates : Updates) : Option Updates :=
  match entry.getRouteWithLowestCostByFaceId route.faceId with
  | none => none
  | some lowest =>
    if route.cost ≤ lowest.cost then
      some (updates.addFibUpdate (.createAddUpdate entry.m_name route.faceId route.cost))
    else if existingRoute.cost < lowest.cost then
      (entry.getRouteWithLowestCostAndChildInheritByFaceId route.faceId).map (fun prevRoute =>
        updates.addFibUpdate (.createAddUpdate entry.m_name prevRoute.faceId prevRoute.cost))
    else some updates

theorem updateCost_cases {entry : RibEntry} {route existingRoute : Route} {updates updates' : Updates}
    (h : updateCost entry route existingRoute updates = some updates') :
    ∃ lowest, entry.getRouteWithLowestCostByFaceId route.faceId = some lowest ∧
      ((route.cost ≤ lowest.cost ∧
          updates' = updates.addFibUpdate (.createAddUpdate entry.m_name route.faceId route.cost)) ∨
        (lowest.cost < route.cost ∧ existingRoute.cost < lowest.cost ∧
          ∃ prevRoute, entry.getRouteWithLowestCostAndChildInheritByFaceId route.faceId = some prevRoute ∧
            updates' = updates.addFibUpdate (.createAddUpdate entry.m_name prevRoute.faceId prevRoute.cost)) ∨
        (lowest.cost < route.cost ∧ lowest.cost ≤ existingRoute.cost ∧ updates' = updates)) := by
  unfold updateCost at h
  split at h
  · cases h
  · rename_i lowest hlowest
    refine ⟨lowest, hlowest, ?_⟩
    split at h
    · rename_i hle
      exact Or.inl ⟨hle, (Option.some.inj h).symm⟩
    · rename_i hle
      split at h
      · rename_i hlt
        obtain ⟨prevRoute, hprev, heq⟩ := Option.map_eq_some_iff.mp h
        exact Or.inr (Or.inl ⟨Nat.lt_of_not_le hle, hlt, prevRoute, hprev, heq.symm⟩)
      · rename_i hlt
        exact Or.inr (Or.inr ⟨Nat.lt_of_not_le hle, Nat.le_of_not_lt hlt, (Option.some.inj h).symm⟩)

def updateChildInherit (entry : RibEntry) (route existingRoute : Route) (updates : Updates) : Updates :=
  let prevRoute := entry.getRouteWithLowestCostAndChildInheritByFaceId route.faceId
  if ! existingRoute.isChildInherit && route.isChildInherit then
    if isLowest route prevRoute then modifyChildrensInheritedRoutes rib entry.m_children [route] [] updates
    else updates
  else if existingRoute.isChildInherit && ! route.isChildInherit then
    let routesToAdd :=
      match prevRoute with
      | some prevRoute => [prevRoute]
      | none => (RouteSet.find (rib.getAncestorRoutes entry) route).toList
    modifyChildrensInheritedRoutes rib entry.m_children routesToAdd [route] updates
  else updates

def updateCapture (entry : RibEntry) (route existingRoute : Route) (updates : Updates) : Updates :=
  let ancestorRoutes := rib.getAncestorRoutes entry
  if ! existingRoute.isRibCapture && route.isRibCapture then
    modifyChildrensInheritedRoutes rib entry.m_children [] ancestorRoutes
      (updates.removeInheritedRoutes entry ancestorRoutes)
  else if existingRoute.isRibCapture && ! route.isRibCapture then
    modifyChildrensInheritedRoutes rib entry.m_children ancestorRoutes []
      (updates.addInheritedRoutes entry ancestorRoutes)
  else updates

def createFibUpdatesForUpdatedRoute (entry : RibEntry) (route existingRoute : Route) (updates : Updates) :
    Option Updates :=
  let costDidChange := route.cost ≠ existingRoute.cost
  let prevRoute := entry.getRouteWithLowestCostAndChildInheritByFaceId route.faceId
  if route.flags = existingRoute.flags ∧ ¬ costDidChange then some updates
  else do
    let updates ← if costDidChange then updateCost entry route existingRoute updates else some updates
    if costDidChange ∧ isLowest route prevRoute ∧ route.flags = existingRoute.flags ∧ route.isChildInherit then
      some (modifyChildrensInheritedRoutes rib entry.m_children [route] [] updates)
    else some (updateCapture rib entry route existingRoute (updateChildInherit rib entry route existingRoute updates))

def createFibUpdatesForErasedRoute (entry : RibEntry) (route : Route) (captureWasTurnedOff : Bool)
    (updates : Updates) : Updates :=
  let updates := updates.addFibUpdate (.createRemoveUpdate entry.m_name route.faceId)
  let ancestorRoutes := rib.getAncestorRoutes entry
  let unblocked := captureWasTurnedOff && ! entry.m_routes.isEmpty
  let updates :=
    if route.isRibCapture then
      let updates := if unblocked then updates.addInheritedRoutes entry ancestorRoutes else updates
      modifyChildrensInheritedRoutes rib entry.m_children (if unblocked then ancestorRoutes else [])
        (if route.isChildInherit then [route] else []) updates
    else if route.isChildInherit then
      modifyChildrensInheritedRoutes rib entry.m_children (if entry.hasCapture then [] else ancestorRoutes) [route]
        updates
    else updates
  if ! entry.hasCapture && ! entry.m_routes.isEmpty then
    match RouteSet.find ancestorRoutes route with
    | some ancestorRoute => updates.inherit entry.m_name ancestorRoute
    | none => updates
  else updates

def createFibUpdatesForErasedRibEntry (entry : RibEntry) (updates : Updates) : Updates :=
  entry.m_inheritedRoutes.foldl (fun updates route =>
    updates.addFibUpdate (.createRemoveUpdate entry.m_name route.faceId)) updates

end Creation

section Computation

variable (rib : Rib)

def computeUpdatesForRegistration (update : RibUpdate) (updates : Updates) : Option Updates :=
  match rib.find update.name with
  | some entry =>
    match entry.findRoute update.route with
    | none =>
      some (createFibUpdatesForNewRoute rib entry update.route (! entry.hasCapture && update.route.isRibCapture) updates)
    | some existingRoute =>
      let routeToUpdate := { existingRoute with
        flags := update.route.flags, cost := update.route.cost, expires := update.route.expires }
      createFibUpdatesForUpdatedRoute rib (entry.assignRoute routeToUpdate) update.route existingRoute updates
  | none =>
    let parent := (rib.findParent update.name).map RibEntry.m_name
    let children := (rib.findDescendantsForNonInsertedName update.name).filter (fun child => child.m_parent = parent)
    some (createFibUpdatesForNewRibEntry rib update.name update.route (children.map RibEntry.m_name) updates)

def computeUpdatesForUnregistration (update : RibUpdate) (updates : Updates) : Updates :=
  match rib.find update.name with
  | none => updates
  | some entry =>
    match entry.findRoute update.route with
    | none => updates
    | some existing =>
      let temp := entry.eraseRoute update.route
      let captureWasTurnedOff := entry.hasCapture && ! temp.hasCapture
      let updates := createFibUpdatesForErasedRoute rib temp existing captureWasTurnedOff updates
      let updates :=
        match entry.getRouteWithSecondLowestCostByFaceId update.route.faceId with
        | some next => createFibUpdatesForNewRoute rib temp next false updates
        | none => updates
      if entry.m_routes.length = 1 then createFibUpdatesForErasedRibEntry entry updates else updates

/-- The updates for a batch, which is of one RIB update. -/
def computeUpdates (update : RibUpdate) : Option Updates :=
  let updates : Updates := ⟨update.route.faceId, [], [], []⟩
  match update.action with
  | .REGISTER => computeUpdatesForRegistration rib update updates
  | .UNREGISTER => some (computeUpdatesForUnregistration rib update updates)
  | .REMOVE_FACE =>
    some { computeUpdatesForUnregistration rib update updates with m_updatesForBatchFaceId := [] }

end Computation

section Application

def modifyInheritedRoutes (inheritedRoutes : List RibUpdate) (rib : Rib) : Rib :=
  inheritedRoutes.foldl (fun rib update =>
    match update.action with
    | .REGISTER => rib.modifyEntry update.name (fun entry => entry.addInheritedRoute update.route)
    | .UNREGISTER => rib.modifyEntry update.name (fun entry => entry.removeInheritedRoute update.route)
    | .REMOVE_FACE => rib) rib

theorem SameRoutes.modifyInheritedRoutes (inheritedRoutes : List RibUpdate) (rib : Rib) :
    SameRoutes rib (FibUpdater.modifyInheritedRoutes inheritedRoutes rib) := by
  induction inheritedRoutes generalizing rib with
  | nil => exact SameBy.refl rib
  | cons update inheritedRoutes ih =>
    refine SameBy.trans ?_ (ih _)
    dsimp only
    split
    · exact SameBy.modifyEntry (fun _ => by rfl) (fun _ => by rfl) update.name
    · exact SameBy.modifyEntry (fun _ => by rfl) (fun _ => by rfl) update.name
    · exact SameBy.refl rib

def updateRib (update : RibUpdate) (rib : Rib) : Rib :=
  match update.action with
  | .REGISTER => rib.insert update.name update.route
  | _ => rib.erase update.name update.route

end Application

end LeoNdn.FibUpdater
