import LeoNdn.FibChanges

/-!
What holds of the FIB updates that are computed for any RIB update.
-/

namespace LeoNdn.ComputedUpdates

open LeoNdn.NdnPacket LeoNdn.RibTable LeoNdn.FibUpdater LeoNdn.FibChanges

structure Kept (P : Updates → Prop) : Prop where
  addFibUpdate : ∀ updates update, P updates → P (updates.addFibUpdate update)
  inheritedRoutes : ∀ updates inheritedRoutes, P updates → P { updates with m_inheritedRoutes := inheritedRoutes }

variable {P : Updates → Prop} {updates updates' : Updates} (rib : Rib) (entry : RibEntry)

theorem Kept.inherit (h : Kept P) (name : Name) (route : Route) (hP : P updates) : P (updates.inherit name route) :=
  h.addFibUpdate _ _ (h.inheritedRoutes _ _ hP)

theorem Kept.disinherit (h : Kept P) (name : Name) (route : Route) (hP : P updates) :
    P (updates.disinherit name route) :=
  h.addFibUpdate _ _ (h.inheritedRoutes _ _ hP)

theorem Kept.foldl {α : Type} {change : Updates → α → Updates} (hchange : ∀ updates x, P updates → P (change updates x))
    (xs : List α) (hP : P updates) : P (xs.foldl change updates) := by
  induction xs generalizing updates with
  | nil => exact hP
  | cons x xs ih => exact ih (hchange updates x hP)

theorem Kept.addInheritedRoutes (h : Kept P) (routes : List Route) (hP : P updates) :
    P (updates.addInheritedRoutes entry routes) := by
  apply Kept.foldl _ routes hP
  intro updates route hP
  split
  · exact hP
  · exact h.inherit _ _ hP

theorem Kept.addInheritedRoutesExcept (h : Kept P) (name : Name) (routes : List Route) (ignore : Route)
    (hP : P updates) : P (updates.addInheritedRoutesExcept name routes ignore) := by
  apply Kept.foldl _ routes hP
  intro updates route hP
  split
  · exact hP
  · exact h.inherit _ _ hP

theorem Kept.removeInheritedRoutes (h : Kept P) (routes : List Route) (hP : P updates) :
    P (updates.removeInheritedRoutes entry routes) := by
  apply Kept.foldl _ routes hP
  intro updates route hP
  split
  · exact h.disinherit _ _ hP
  · exact hP

theorem Kept.traverseSubTree (h : Kept P) (depth : ℕ) (routesToAdd routesToRemove : List Route) (name : Name)
    (hP : P updates) : P (traverseSubTree rib depth routesToAdd routesToRemove name updates) := by
  induction depth generalizing routesToAdd routesToRemove name updates with
  | zero => exact hP
  | succ depth ih =>
    rw [FibUpdater.traverseSubTree]
    split
    · exact hP
    · split
      · exact hP
      · apply Kept.foldl
        · exact fun updates child hP => ih _ _ _ hP
        · apply h.addInheritedRoutes
          exact h.removeInheritedRoutes _ _ hP

theorem Kept.modifyChildrensInheritedRoutes (h : Kept P) (children : List Name)
    (routesToAdd routesToRemove : List Route)
    (hP : P updates) : P (modifyChildrensInheritedRoutes rib children routesToAdd routesToRemove updates) :=
  Kept.foldl (fun _ _ hP => h.traverseSubTree rib _ _ _ _ hP) children hP

theorem Kept.createFibUpdatesForNewRibEntry (h : Kept P) (name : Name) (route : Route) (children : List Name)
    (hP : P updates) : P (createFibUpdatesForNewRibEntry rib name route children updates) := by
  have hadd : P (updates.addFibUpdate (.createAddUpdate name route.faceId route.cost)) := h.addFibUpdate _ _ hP
  unfold FibUpdater.createFibUpdatesForNewRibEntry
  dsimp only
  split
  · exact h.addInheritedRoutesExcept _ _ _ hadd
  · split
    · exact h.modifyChildrensInheritedRoutes rib _ _ _ hadd
    · split
      · apply h.modifyChildrensInheritedRoutes
        exact h.addInheritedRoutesExcept _ _ _ hadd
      · exact h.modifyChildrensInheritedRoutes rib _ _ _ hadd

theorem Kept.createFibUpdatesForNewRoute (h : Kept P) (route : Route) (captureWasTurnedOn : Bool) (hP : P updates) :
    P (createFibUpdatesForNewRoute rib entry route captureWasTurnedOn updates) := by
  have hremoved : P (if captureWasTurnedOn then
      updates.removeInheritedRoutes entry (if captureWasTurnedOn then rib.getAncestorRoutes entry else [])
      else updates) := by
    split
    · exact h.removeInheritedRoutes _ _ hP
    · exact hP
  unfold FibUpdater.createFibUpdatesForNewRoute
  dsimp only
  split
  · apply h.addFibUpdate
    exact h.modifyChildrensInheritedRoutes rib _ _ _ hremoved
  · exact h.modifyChildrensInheritedRoutes rib _ _ _ hremoved

theorem Kept.updateCost (h : Kept P) (route existingRoute : Route) (hP : P updates)
    (hupdates : updateCost entry route existingRoute updates = some updates') : P updates' := by
  obtain ⟨-, -, ⟨-, rfl⟩ | ⟨-, -, prevRoute, -, rfl⟩ | ⟨-, -, rfl⟩⟩ := updateCost_cases hupdates
  · exact h.addFibUpdate _ _ hP
  · exact h.addFibUpdate _ _ hP
  · exact hP

theorem Kept.updateChildInherit (h : Kept P) (route existingRoute : Route) (hP : P updates) :
    P (updateChildInherit rib entry route existingRoute updates) := by
  unfold FibUpdater.updateChildInherit
  dsimp only
  split
  · split
    · exact h.modifyChildrensInheritedRoutes rib _ _ _ hP
    · exact hP
  · split
    · exact h.modifyChildrensInheritedRoutes rib _ _ _ hP
    · exact hP

theorem Kept.updateCapture (h : Kept P) (route existingRoute : Route) (hP : P updates) :
    P (updateCapture rib entry route existingRoute updates) := by
  unfold FibUpdater.updateCapture
  dsimp only
  split
  · apply h.modifyChildrensInheritedRoutes
    exact h.removeInheritedRoutes _ _ hP
  · split
    · apply h.modifyChildrensInheritedRoutes
      exact h.addInheritedRoutes _ _ hP
    · exact hP

theorem Kept.createFibUpdatesForUpdatedRoute (h : Kept P) (route existingRoute : Route) (hP : P updates)
    (hupdates : createFibUpdatesForUpdatedRoute rib entry route existingRoute updates = some updates') : P updates' := by
  unfold FibUpdater.createFibUpdatesForUpdatedRoute at hupdates
  dsimp only at hupdates
  split at hupdates
  · cases hupdates
    exact hP
  · have hrest : ∀ costUpdates, P costUpdates → (if route.cost ≠ existingRoute.cost ∧
        isLowest route (entry.getRouteWithLowestCostAndChildInheritByFaceId route.faceId) ∧
        route.flags = existingRoute.flags ∧ route.isChildInherit then
          some (FibUpdater.modifyChildrensInheritedRoutes rib entry.m_children [route] [] costUpdates)
        else some (FibUpdater.updateCapture rib entry route existingRoute
          (FibUpdater.updateChildInherit rib entry route existingRoute costUpdates))) = some updates' → P updates' := by
      intro costUpdates hcostP hrest
      split at hrest
      · cases hrest
        exact h.modifyChildrensInheritedRoutes rib _ _ _ hcostP
      · cases hrest
        apply h.updateCapture
        exact h.updateChildInherit rib _ _ _ hcostP
    split at hupdates
    · obtain ⟨costUpdates, hcost, hupdates⟩ := Option.bind_eq_some_iff.mp hupdates
      exact hrest costUpdates (h.updateCost entry _ _ hP hcost) hupdates
    · exact hrest updates hP hupdates

theorem Kept.createFibUpdatesForErasedRoute (h : Kept P) (route : Route) (captureWasTurnedOff : Bool) (hP : P updates) :
    P (createFibUpdatesForErasedRoute rib entry route captureWasTurnedOff updates) := by
  have hremoved : P (updates.addFibUpdate (.createRemoveUpdate entry.m_name route.faceId)) := h.addFibUpdate _ _ hP
  have hunblocked : ∀ unblocked : Bool, P (if unblocked then
      (updates.addFibUpdate (.createRemoveUpdate entry.m_name route.faceId)).addInheritedRoutes entry
        (rib.getAncestorRoutes entry)
      else updates.addFibUpdate (.createRemoveUpdate entry.m_name route.faceId)) := by
    intro unblocked
    split
    · exact h.addInheritedRoutes _ _ hremoved
    · exact hremoved
  have hchildren : ∀ (unblocked : Bool) (toAdd toAdd' toRemove toRemove' : List Route),
      P (if route.isRibCapture then
          FibUpdater.modifyChildrensInheritedRoutes rib entry.m_children toAdd toRemove
            (if unblocked then
              (updates.addFibUpdate (.createRemoveUpdate entry.m_name route.faceId)).addInheritedRoutes entry
                (rib.getAncestorRoutes entry)
            else updates.addFibUpdate (.createRemoveUpdate entry.m_name route.faceId))
        else if route.isChildInherit then
          FibUpdater.modifyChildrensInheritedRoutes rib entry.m_children toAdd' toRemove'
            (updates.addFibUpdate (.createRemoveUpdate entry.m_name route.faceId))
        else updates.addFibUpdate (.createRemoveUpdate entry.m_name route.faceId)) := by
    intro unblocked toAdd toAdd' toRemove toRemove'
    split
    · exact h.modifyChildrensInheritedRoutes rib _ _ _ (hunblocked unblocked)
    · split
      · exact h.modifyChildrensInheritedRoutes rib _ _ _ hremoved
      · exact hremoved
  unfold FibUpdater.createFibUpdatesForErasedRoute
  dsimp only
  split
  · split
    · exact h.inherit _ _ (hchildren _ _ _ _ _)
    · exact hchildren _ _ _ _ _
  · exact hchildren _ _ _ _ _

theorem Kept.createFibUpdatesForErasedRibEntry (h : Kept P) (hP : P updates) :
    P (createFibUpdatesForErasedRibEntry entry updates) :=
  Kept.foldl (fun _ _ hP => h.addFibUpdate _ _ hP) entry.m_inheritedRoutes hP

theorem Kept.computeUpdatesForRegistration (h : Kept P) (update : RibUpdate) (hP : P updates)
    (hupdates : computeUpdatesForRegistration rib update updates = some updates') : P updates' := by
  unfold FibUpdater.computeUpdatesForRegistration at hupdates
  split at hupdates
  · split at hupdates
    · cases hupdates
      exact h.createFibUpdatesForNewRoute rib _ _ _ hP
    · exact h.createFibUpdatesForUpdatedRoute rib _ _ _ hP hupdates
  · cases hupdates
    exact h.createFibUpdatesForNewRibEntry rib _ _ _ hP

theorem Kept.computeUpdatesForUnregistration (h : Kept P) (update : RibUpdate) (hP : P updates) :
    P (computeUpdatesForUnregistration rib update updates) := by
  unfold FibUpdater.computeUpdatesForUnregistration
  split
  · exact hP
  · split
    · exact hP
    · rename_i entry _ _ existing _
      have herased : P (FibUpdater.createFibUpdatesForErasedRoute rib (entry.eraseRoute update.route) existing
          (entry.hasCapture && ! (entry.eraseRoute update.route).hasCapture) updates) :=
        h.createFibUpdatesForErasedRoute rib _ _ _ hP
      dsimp only
      split
      · apply h.createFibUpdatesForErasedRibEntry
        split
        · exact h.createFibUpdatesForNewRoute rib _ _ _ herased
        · exact herased
      · split
        · exact h.createFibUpdatesForNewRoute rib _ _ _ herased
        · exact herased

/-- There is one update for each name and face, in the list of its face. -/
structure WellFormed (updates : Updates) : Prop where
  batch : ∀ update ∈ updates.m_updatesForBatchFaceId, update.faceId = updates.m_batchFaceId
  nonBatch : ∀ update ∈ updates.m_updatesForNonBatchFaceId, update.faceId ≠ updates.m_batchFaceId
  batchKeys : (updates.m_updatesForBatchFaceId.map key).Nodup
  nonBatchKeys : (updates.m_updatesForNonBatchFaceId.map key).Nodup

theorem wellFormed_kept : Kept WellFormed where
  addFibUpdate updates update h := by
    unfold Updates.addFibUpdate
    split
    · rename_i hface
      refine ⟨?_, h.nonBatch, nodup_replaceOrPush h.batchKeys update, h.nonBatchKeys⟩
      intro other hother
      rcases mem_replaceOrPush hother with heq | ⟨old, hold, heq⟩
      · exact heq.trans hface
      · exact heq.trans (h.batch old hold)
    · rename_i hface
      refine ⟨h.batch, ?_, h.batchKeys, nodup_replaceOrPush h.nonBatchKeys update⟩
      intro other hother
      rcases mem_replaceOrPush hother with heq | ⟨old, hold, heq⟩
      · rw [heq]
        exact hface
      · rw [heq]
        exact h.nonBatch old hold
  inheritedRoutes updates inheritedRoutes h := ⟨h.batch, h.nonBatch, h.batchKeys, h.nonBatchKeys⟩

theorem computeUpdates_wellFormed {update : RibUpdate} (h : computeUpdates rib update = some updates) :
    WellFormed updates := by
  have hnone : WellFormed ⟨update.route.faceId, [], [], []⟩ := by
    constructor
    · exact fun _ hmem => absurd hmem List.not_mem_nil
    · exact fun _ hmem => absurd hmem List.not_mem_nil
    · exact List.nodup_nil
    · exact List.nodup_nil
  unfold computeUpdates at h
  cases haction : update.action with
  | REGISTER =>
    rw [haction] at h
    exact wellFormed_kept.computeUpdatesForRegistration rib update hnone h
  | UNREGISTER =>
    rw [haction] at h
    cases h
    exact wellFormed_kept.computeUpdatesForUnregistration rib update hnone
  | REMOVE_FACE =>
    rw [haction] at h
    cases h
    have hcomputed := wellFormed_kept.computeUpdatesForUnregistration rib update hnone
    constructor
    · exact fun _ hmem => absurd hmem List.not_mem_nil
    · exact hcomputed.nonBatch
    · exact List.nodup_nil
    · exact hcomputed.nonBatchKeys

end LeoNdn.ComputedUpdates
