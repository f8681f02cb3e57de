import LeoNdn.RibManager
import LeoNdn.Runs

/-!
Self-learned routes and their expiration events: which versions of a route an
expiration event can remove from the RIB.
-/

namespace LeoNdn.RouteRenewal

open LeoNdn.NdnPacket LeoNdn.KiteProtocol LeoNdn.RibTable LeoNdn.FibUpdater LeoNdn.RibManager LeoNdn.Runs
open LeoNdn.FibCommands (Response ERROR_TIMEOUT ERROR_FACE_NOT_FOUND listOf mem_removeUpdate respond_responded responded_late)

variable {γ : Type}

/-- A route has been removed by its own expiration event, and after it expired;
the registrations of it that were pending then are from after the expiry. -/
structure Due (removal : Removal γ) : Prop where
  own : removal.route.m_expirationEvent = some removal.cause
  expired : ∃ time, removal.route.expires = some time ∧ time ≤ removal.cause.time
  after : removal.cause.time ≤ removal.time
  renewals : ∀ item ∈ removal.renewals, removal.cause.time ≤ item.queuedAt

/-- The expiration event of a route is not before its expiry. -/
def EventAfterExpiry (route : Route) : Prop :=
  ∀ event, route.m_expirationEvent = some event → ∃ time, route.expires = some time ∧ time ≤ event.time

/-- The RIB and the registrations in a list have no other version of a route
than that of an expiration event. -/
structure OwnVersion (event : EventId) (name : Name) (route : Route) (rib : Rib)
    (items : List (UpdateQueueItem γ)) : Prop where
  rib : ∀ existing ∈ rib.findRoute name route, existing.m_expirationEvent = some event
  items : ∀ item ∈ items, State.isRegistration name route item = true →
    item.update.route.m_expirationEvent = some event

section Conditions

variable (system_clock : ℤ → ℤ)

def Unexpired (now : ℤ) (route : Route) : Prop := ∃ time ∈ route.expires, now < time

instance (now : ℤ) (route : Route) : Decidable (Unexpired now route) := inferInstanceAs (Decidable (∃ time ∈ _, _))

/-- What happens to self-learned routes; those that are announced and renewed
have not expired. -/
def SelfLearning (s : State γ) : Event γ → Prop
  | .slAnnounce _ _ _ _ => True
  | .validation i success => ∀ validation ∈ s.validations[i]?, success = true →
      Unexpired s.now (announcedRoute system_clock s.now validation)
  | .slRenew name faceId maxLifetime _ => ∀ nameAndRoute ∈ findRenewed name faceId s,
      Unexpired s.now (limitLifetime s.now nameAndRoute.2 maxLifetime)
  | .expiration _ => True
  | .fibResponse _ _ => True
  | .advance _ => True
  | _ => False

/-- Where an expiration event fires, there is no other version of its route. Where the
FIB answers for another update than the one in progress, the answer fails the batch that
was computed last while nothing is in progress, or else leaves something in its list. -/
def InOrder (s : State γ) : Event γ → Prop
  | .expiration event => ∀ timer ∈ s.timers, timer.event = event →
      OwnVersion event timer.name timer.route s.m_rib (pending s)
  | .fibResponse i response => ∀ command ∈ s.m_fibUpdater.inFlight[i]?, s.inProgress ≠ some command.callbacks →
      response ≠ .error ERROR_TIMEOUT →
        if response = .error ERROR_FACE_NOT_FOUND ∧
            command.update.faceId = s.m_fibUpdater.updates.m_batchFaceId then s.inProgress = none
        else ∃ other ∈ listOf s.m_fibUpdater.updates command.update, other ≠ command.update
  | _ => True

instance (s : State γ) : (event : Event γ) → Decidable (SelfLearning system_clock s event)
  | .slAnnounce _ _ _ _ => inferInstanceAs (Decidable True)
  | .validation i success => inferInstanceAs (Decidable (∀ validation ∈ s.validations[i]?, success = true → _))
  | .slRenew name faceId _ _ => inferInstanceAs (Decidable (∀ nameAndRoute ∈ findRenewed name faceId s, _))
  | .registerEntry _ _ _ => inferInstanceAs (Decidable False)
  | .unregisterEntry _ _ => inferInstanceAs (Decidable False)
  | .onFaceDestroyedEvent _ => inferInstanceAs (Decidable False)
  | .expiration _ => inferInstanceAs (Decidable True)
  | .fibResponse _ _ => inferInstanceAs (Decidable True)
  | .advance _ => inferInstanceAs (Decidable True)

instance (event : EventId) (name : Name) (route : Route) (rib : Rib) (items : List (UpdateQueueItem γ)) :
    Decidable (OwnVersion event name route rib items) :=
  decidable_of_iff ((∀ existing ∈ rib.findRoute name route, existing.m_expirationEvent = some event) ∧
      ∀ item ∈ items, State.isRegistration name route item = true → item.update.route.m_expirationEvent = some event)
    ⟨fun h => ⟨h.1, h.2⟩, fun h => ⟨h.rib, h.items⟩⟩

instance [DecidableEq γ] (s : State γ) : (event : Event γ) → Decidable (InOrder s event)
  | .slAnnounce _ _ _ _ => inferInstanceAs (Decidable True)
  | .validation _ _ => inferInstanceAs (Decidable True)
  | .slRenew _ _ _ _ => inferInstanceAs (Decidable True)
  | .registerEntry _ _ _ => inferInstanceAs (Decidable True)
  | .unregisterEntry _ _ => inferInstanceAs (Decidable True)
  | .onFaceDestroyedEvent _ => inferInstanceAs (Decidable True)
  | .expiration event => inferInstanceAs (Decidable (∀ timer ∈ s.timers, timer.event = event → _))
  | .fibResponse i _ => inferInstanceAs (Decidable (∀ command ∈ s.m_fibUpdater.inFlight[i]?,
      s.inProgress ≠ some command.callbacks → _))
  | .advance _ => inferInstanceAs (Decidable True)

end Conditions

structure Initial (s : State γ) : Prop where
  now_nonneg : 0 ≤ s.now
  idle : pending s = []
  noTimer : s.timers = []
  noRemoval : s.removed = []
  unique : UniqueKeys s.m_rib
  noEvent : ∀ name query route, s.m_rib.findRoute name query = some route → route.m_expirationEvent = none

/-- What holds in every run, of the time, the pending updates, the RIB and the
removals. -/
structure Good (now : ℤ) (items : List (UpdateQueueItem γ)) (rib : Rib) (removed : List (Removal γ)) : Prop where
  now_nonneg : 0 ≤ now
  unique : UniqueKeys rib
  sorted : items.Pairwise (fun item later => item.queuedAt ≤ later.queuedAt)
  past : ∀ item ∈ items, item.queuedAt ≤ now
  hasCause : ∀ item ∈ items, item.update.action ≠ .REGISTER → item.cause ≠ none
  caused : ∀ item ∈ items, ∀ event, item.cause = some event → event.time ≤ item.queuedAt
  registered : ∀ item ∈ items, item.update.action = .REGISTER → EventAfterExpiry item.update.route
  routes : ∀ name query route, rib.findRoute name query = some route → EventAfterExpiry route
  own : ∀ before item after event, items = before ++ item :: after → item.cause = some event →
    OwnVersion event item.update.name item.update.route rib before
  due : ∀ removal ∈ removed, Due removal

/-- A route that is in the RIB before and not after has been recorded as removed. -/
def GoneRecorded (rib : Rib) (s' : State γ) : Prop :=
  ∀ name query route, rib.findRoute name query = some route → s'.m_rib.findRoute name query = none →
    ∃ removal ∈ s'.removed, removal.name = name ∧ compareFaceIdAndOrigin removal.route query = true ∧
      removal.time = s'.now

structure Recorded (now : ℤ) (rib : Rib) (removed : List (Removal γ)) (s' : State γ) : Prop where
  now : s'.now = now
  older : ∀ removal ∈ removed, removal ∈ s'.removed
  gone : GoneRecorded rib s'

section Good

variable {now : ℤ} {item : UpdateQueueItem γ} {items : List (UpdateQueueItem γ)} {rib rib' : Rib}
  {removed : List (Removal γ)}

theorem Good.advance (h : Good now items rib removed) {time : ℤ} (htime : now ≤ time) :
    Good time items rib removed :=
  { h with
    now_nonneg := h.now_nonneg.trans htime
    past := fun item hitem => (h.past item hitem).trans htime }

theorem Good.tail (h : Good now (item :: items) rib removed) : Good now items rib removed where
  now_nonneg := h.now_nonneg
  unique := h.unique
  sorted := (List.pairwise_cons.mp h.sorted).2
  past := fun item hitem => h.past item (List.mem_cons_of_mem _ hitem)
  hasCause := fun item hitem => h.hasCause item (List.mem_cons_of_mem _ hitem)
  caused := fun item hitem => h.caused item (List.mem_cons_of_mem _ hitem)
  registered := fun item hitem => h.registered item (List.mem_cons_of_mem _ hitem)
  routes := h.routes
  own := by
    intro before later after event hitems hcause
    have hown := h.own (item :: before) later after event (by rw [hitems, List.cons_append]) hcause
    exact ⟨hown.rib, fun other hother => hown.items other (List.mem_cons_of_mem _ hother)⟩
  due := h.due

/-- The RIB has been changed by the first update so that each route is an earlier
one or one that the update registers. -/
theorem Good.changed (h : Good now (item :: items) rib removed) (hunique : UniqueKeys rib')
    (hroutes : ∀ name query route, rib'.findRoute name query = some route →
      rib.findRoute name query = some route ∨
        State.isRegistration name query item = true ∧ item.update.route = route) :
    Good now items rib' removed :=
  { h.tail with
    unique := hunique
    routes := by
      intro name query route hroute
      rcases hroutes name query route hroute with hold | ⟨hregistration, rfl⟩
      · exact h.routes name query route hold
      · refine h.registered item List.mem_cons_self ?_
        simp only [State.isRegistration, Bool.and_eq_true, decide_eq_true_eq] at hregistration
        exact hregistration.1.1
    own := by
      intro before later after event hitems hcause
      have hown := h.own (item :: before) later after event (by rw [hitems, List.cons_append]) hcause
      refine ⟨?_, fun other hother => hown.items other (List.mem_cons_of_mem _ hother)⟩
      intro existing hexisting
      rcases hroutes _ _ existing hexisting with hold | ⟨hregistration, rfl⟩
      · exact hown.rib existing hold
      · exact hown.items item List.mem_cons_self hregistration }

theorem Good.removal (h : Good now (item :: items) rib removed) {event : EventId} {route : Route}
    (hcause : item.cause = some event) (hroute : rib.findRoute item.update.name item.update.route = some route) :
    Due (⟨now, item.update.name, route, event,
      items.filter (State.isRegistration item.update.name item.update.route)⟩ : Removal γ) := by
  have hown := (h.own [] item items event rfl hcause).rib route hroute
  have htime := h.caused item List.mem_cons_self event hcause
  refine ⟨hown, h.routes _ _ route hroute event hown, htime.trans (h.past item List.mem_cons_self), ?_⟩
  intro later hlater
  exact htime.trans ((List.pairwise_cons.mp h.sorted).1 later (List.mem_filter.mp hlater).1)

theorem Good.record (h : Good now items rib removed) {removal : Removal γ} (hdue : Due removal) :
    Good now items rib (removed ++ [removal]) :=
  { h with
    due := by
      intro other hother
      rcases List.mem_append.mp hother with hold | hnew
      · exact h.due other hold
      · rw [List.mem_singleton.mp hnew]
        exact hdue }

theorem Good.push (h : Good now items rib removed) (hqueued : item.queuedAt = now)
    (hregistered : item.update.action = .REGISTER → EventAfterExpiry item.update.route)
    (hcause : item.update.action ≠ .REGISTER → item.cause ≠ none)
    (hcaused : ∀ event, item.cause = some event → event.time ≤ now ∧
      OwnVersion event item.update.name item.update.route rib items) :
    Good now (items ++ [item]) rib removed where
  now_nonneg := h.now_nonneg
  unique := h.unique
  sorted := by
    refine List.pairwise_append.mpr ⟨h.sorted, List.pairwise_singleton _ _, ?_⟩
    intro earlier hearlier later hlater
    rw [List.mem_singleton.mp hlater, hqueued]
    exact h.past earlier hearlier
  past := by
    intro other hother
    rcases List.mem_append.mp hother with hold | hnew
    · exact h.past other hold
    · rw [List.mem_singleton.mp hnew, hqueued]
  hasCause := by
    intro other hother
    rcases List.mem_append.mp hother with hold | hnew
    · exact h.hasCause other hold
    · rw [List.mem_singleton.mp hnew]
      exact hcause
  caused := by
    intro other hother event hcause
    rcases List.mem_append.mp hother with hold | hnew
    · exact h.caused other hold event hcause
    · rw [List.mem_singleton.mp hnew] at hcause ⊢
      rw [hqueued]
      exact (hcaused event hcause).1
  registered := by
    intro other hother haction
    rcases List.mem_append.mp hother with hold | hnew
    · exact h.registered other hold haction
    · rw [List.mem_singleton.mp hnew] at haction ⊢
      exact hregistered haction
  routes := h.routes
  own := by
    intro before other after event hitems hcause
    rcases List.eq_nil_or_concat after with rfl | ⟨after', last, rfl⟩
    · obtain ⟨rfl, hlast⟩ := List.append_inj' hitems rfl
      rw [← List.cons.inj hlast |>.1] at hcause ⊢
      exact (hcaused event hcause).2
    · have hassoc : items ++ [item] = (before ++ other :: after') ++ [last] := by
        rw [hitems]
        simp only [List.append_assoc, List.cons_append, List.concat_eq_append]
      exact h.own before other after' event (List.append_inj' hassoc rfl).1 hcause
  due := h.due

end Good

section Queue

variable {s s' : State γ} {item : UpdateQueueItem γ}

theorem Good.recorded (h : Good s.now (item :: s.m_updateBatches) s.m_rib s.removed) :
    Good s.now (item :: s.m_updateBatches) s.m_rib (s.recordRemoval item).removed := by
  unfold State.recordRemoval
  split
  · rename_i cause route hcause hroute
    exact h.record (h.removal hcause hroute)
  · exact h

theorem updateRib_findRoute {rib : Rib} (hunique : UniqueKeys rib) (name : Name) (query route : Route)
    (hroute : (updateRib item.update rib).findRoute name query = some route) :
    rib.findRoute name query = some route ∨
      State.isRegistration name query item = true ∧ item.update.route = route := by
  unfold updateRib at hroute
  split at hroute
  · rename_i haction
    rw [findRoute_insert] at hroute
    split at hroute
    · rename_i hkey
      refine Or.inr ⟨?_, Option.some.inj hroute⟩
      simp only [State.isRegistration, haction, hkey.1, hkey.2, decide_true, Bool.and_self]
    · exact Or.inl hroute
  · rw [findRoute_erase hunique] at hroute
    split at hroute
    · cases hroute
    · exact Or.inl hroute

theorem updateRib_unique {rib : Rib} (hunique : UniqueKeys rib) (update : RibUpdate) :
    UniqueKeys (updateRib update rib) := by
  unfold updateRib
  split
  · exact hunique.insert update.name update.route
  · exact hunique.erase update.name update.route

theorem Good.succeed (h : Good s.now (item :: s.m_updateBatches) s.m_rib s.removed)
    (inheritedRoutes : List RibUpdate) :
    Good s.now s.m_updateBatches (onFibUpdateSuccess item inheritedRoutes s).m_rib
      (onFibUpdateSuccess item inheritedRoutes s).removed := by
  have hremoved : Good s.now (item :: s.m_updateBatches) s.m_rib (onFibUpdateSuccess item inheritedRoutes s).removed := by
    have hcases : (onFibUpdateSuccess item inheritedRoutes s).removed = s.removed ∨
        (onFibUpdateSuccess item inheritedRoutes s).removed = (s.recordRemoval item).removed := by
      unfold onFibUpdateSuccess applyUpdate State.complete
      cases item.update.action with
      | REGISTER => exact Or.inl (cancel_removed _ _)
      | UNREGISTER => exact Or.inr (cancel_removed _ _)
      | REMOVE_FACE => exact Or.inr (cancel_removed _ _)
    rcases hcases with heq | heq
    · rw [heq]
      exact h
    · rw [heq]
      exact h.recorded
  have hrib : (onFibUpdateSuccess item inheritedRoutes s).m_rib =
      modifyInheritedRoutes inheritedRoutes (updateRib item.update s.m_rib) := by
    obtain ⟨timers, removed, heq⟩ := onFibUpdateSuccess_eq s item inheritedRoutes
    rw [heq]
  have hsame := SameRoutes.modifyInheritedRoutes inheritedRoutes (updateRib item.update s.m_rib)
  rw [hrib]
  refine hremoved.changed ?_ ?_
  · intro name
    rw [hsame.routesOf]
    exact updateRib_unique h.unique item.update name
  · intro name query route hroute
    rw [findRoute_routeOfKey, hsame.routesOf, ← findRoute_routeOfKey] at hroute
    exact updateRib_findRoute h.unique name query route hroute

theorem updateRib_gone {rib : Rib} (hunique : UniqueKeys rib) {name : Name} {query route : Route}
    (hbefore : rib.findRoute name query = some route)
    (hafter : (updateRib item.update rib).findRoute name query = none) :
    item.update.action ≠ .REGISTER ∧ name = item.update.name ∧
      compareFaceIdAndOrigin item.update.route query = true := by
  unfold updateRib at hafter
  split at hafter
  · rw [findRoute_insert] at hafter
    split at hafter
    · cases hafter
    · rw [hbefore] at hafter
      cases hafter
  · rename_i haction
    rw [findRoute_erase hunique] at hafter
    split at hafter
    · rename_i hkey
      exact ⟨haction, hkey⟩
    · rw [hbefore] at hafter
      cases hafter

theorem findRoute_compare {a b : Route} (h : compareFaceIdAndOrigin a b = true) (rib : Rib) (name : Name) :
    rib.findRoute name a = rib.findRoute name b := by
  obtain ⟨hface, horigin⟩ := compare_iff.mp h
  simp only [findRoute_eq, compareFaceIdAndOrigin, hface, horigin]

theorem findRoute_self {rib : Rib} {name : Name} {query route : Route}
    (h : rib.findRoute name query = some route) : compareFaceIdAndOrigin route query = true := by
  rw [findRoute_eq] at h
  simpa using List.find?_some h

theorem Good.succeed_recorded (h : Good s.now (item :: s.m_updateBatches) s.m_rib s.removed)
    (inheritedRoutes : List RibUpdate) :
    Recorded s.now s.m_rib s.removed (onFibUpdateSuccess item inheritedRoutes s) := by
  obtain ⟨timers, removed, heq⟩ := onFibUpdateSuccess_eq s item inheritedRoutes
  have hremoved : (onFibUpdateSuccess item inheritedRoutes s).removed = removed := by
    rw [heq]
  refine ⟨by rw [heq], ?_, ?_⟩
  · intro removal hremoval
    have hold : removal ∈ (s.recordRemoval item).removed := by
      unfold State.recordRemoval
      split
      · exact List.mem_append_left _ hremoval
      · exact hremoval
    unfold onFibUpdateSuccess applyUpdate State.complete
    cases item.update.action with
    | REGISTER => exact (cancel_removed s _).symm ▸ hremoval
    | UNREGISTER => exact (cancel_removed (s.recordRemoval item) _).symm ▸ hold
    | REMOVE_FACE => exact (cancel_removed (s.recordRemoval item) _).symm ▸ hold
  · intro name query route hbefore hafter
    have hsame := SameRoutes.modifyInheritedRoutes inheritedRoutes (updateRib item.update s.m_rib)
    have hgone : (updateRib item.update s.m_rib).findRoute name query = none := by
      rw [heq] at hafter
      rwa [findRoute_routeOfKey, hsame.routesOf, ← findRoute_routeOfKey] at hafter
    obtain ⟨haction, rfl, hkey⟩ := updateRib_gone h.unique hbefore hgone
    obtain ⟨cause, hcause⟩ := Option.ne_none_iff_exists'.mp (h.hasCause item List.mem_cons_self haction)
    have hroute : s.m_rib.findRoute item.update.name item.update.route = some route := by
      rw [findRoute_compare hkey, hbefore]
    refine ⟨⟨s.now, item.update.name, route, cause, s.m_updateBatches.filter
      (State.isRegistration item.update.name item.update.route)⟩, ?_, rfl, findRoute_self hbefore, by rw [heq]⟩
    have hrecord : (s.recordRemoval item).removed = s.removed ++ [⟨s.now, item.update.name, route, cause,
        s.m_updateBatches.filter (State.isRegistration item.update.name item.update.route)⟩] := by
      simp only [State.recordRemoval, hcause, hroute]
    have hlast : (onFibUpdateSuccess item inheritedRoutes s).removed = (s.recordRemoval item).removed := by
      unfold onFibUpdateSuccess applyUpdate State.complete
      cases haction' : item.update.action with
      | REGISTER => exact absurd haction' haction
      | UNREGISTER => exact cancel_removed _ _
      | REMOVE_FACE => exact cancel_removed _ _
    rw [hlast, hrecord]
    exact List.mem_append_right _ List.mem_cons_self

theorem Recorded.unchanged {now : ℤ} {rib : Rib} {removed : List (Removal γ)} (hnow : s.now = now)
    (hrib : s.m_rib = rib) (hremoved : s.removed = removed) : Recorded now rib removed s := by
  subst hnow hrib hremoved
  refine ⟨rfl, fun _ hremoval => hremoval, ?_⟩
  intro name query route hbefore hafter
  rw [hbefore] at hafter
  cases hafter

theorem Recorded.trans {now : ℤ} {rib : Rib} {removed : List (Removal γ)} (h : Recorded now rib removed s)
    (h' : Recorded s.now s.m_rib s.removed s') : Recorded now rib removed s' := by
  refine ⟨h'.now.trans h.now, fun removal hremoval => h'.older removal (h.older removal hremoval), ?_⟩
  intro name query route hbefore hafter
  cases hmiddle : s.m_rib.findRoute name query with
  | some middle => exact h'.gone name query middle hmiddle hafter
  | none =>
    obtain ⟨removal, hremoval, hname, hkey, htime⟩ := h.gone name query route hbefore hmiddle
    exact ⟨removal, h'.older removal hremoval, hname, hkey, htime.trans h'.now.symm⟩

def GoodState (s : State γ) : Prop := Good s.now (pending s) s.m_rib s.removed

theorem goodState_of_idle (hidle : s.inProgress = none) (h : Good s.now s.m_updateBatches s.m_rib s.removed) :
    GoodState s := by
  unfold GoodState pending
  rw [hidle]
  exact h

theorem sendBatches_good {batches : List (UpdateQueueItem γ)} (hidle : s.inProgress = none)
    (h : Good s.now batches s.m_rib s.removed) (hsend : sendBatches batches s = some s') :
    GoodState s' ∧ Recorded s.now s.m_rib s.removed s' := by
  induction batches generalizing s with
  | nil =>
    cases hsend
    exact ⟨goodState_of_idle hidle h, Recorded.unchanged rfl rfl rfl⟩
  | cons item batches ih =>
    obtain ⟨timers, sender, -, rfl | ⟨inheritedRoutes, hrest⟩⟩ := sendBatches_cons hsend
    · exact ⟨h, Recorded.unchanged rfl rfl rfl⟩
    · let sent := { s with
        timers := timers, m_updateBatches := batches, inProgress := some item, m_fibUpdater := sender }
      obtain ⟨timers', removed, heq⟩ := onFibUpdateSuccess_eq sent item inheritedRoutes
      have hsucceed := Good.succeed (s := sent) h inheritedRoutes
      have hrecorded := Good.succeed_recorded (s := sent) h inheritedRoutes
      have hnow := hrecorded.now
      obtain ⟨hgood, hafter⟩ := ih (by rw [heq]) (by rw [hnow]; exact hsucceed) hrest
      exact ⟨hgood, hrecorded.trans hafter⟩

theorem sendBatchFromQueue_good (h : GoodState s) (hsend : sendBatchFromQueue s = some s') :
    GoodState s' ∧ Recorded s.now s.m_rib s.removed s' := by
  rcases sendBatchFromQueue_cases hsend with rfl | ⟨hidle, hbatches⟩
  · exact ⟨h, Recorded.unchanged rfl rfl rfl⟩
  · refine sendBatches_good hidle ?_ hbatches
    unfold GoodState pending at h
    rw [hidle] at h
    exact h

theorem beginApplyUpdate_good (h : GoodState s) {update : RibUpdate} {callback : Option γ} {cause : Option EventId}
    (hregistered : update.action = .REGISTER → EventAfterExpiry update.route)
    (hcause : update.action ≠ .REGISTER → cause ≠ none)
    (hcaused : ∀ event, cause = some event → event.time ≤ s.now ∧
      OwnVersion event update.name update.route s.m_rib (pending s))
    (happly : beginApplyUpdate update callback cause s = some s') :
    GoodState s' ∧ Recorded s.now s.m_rib s.removed s' := by
  refine sendBatchFromQueue_good (s := addUpdateToQueue update callback cause s) ?_ happly
  have hpush : Good s.now (pending s ++ [⟨s.nextUid, update, callback, cause, s.now⟩]) s.m_rib s.removed :=
    Good.push h rfl hregistered hcause hcaused
  unfold GoodState pending addUpdateToQueue
  rw [← List.append_assoc]
  exact hpush

theorem call_good {called : FibCommands.Callback (UpdateQueueItem γ)} (h : GoodState s)
    (hown : s.inProgress = some called.callbacks) :
    GoodState (call called s) ∧ Recorded s.now s.m_rib s.removed (call called s) := by
  have hitems : Good s.now (called.callbacks :: s.m_updateBatches) s.m_rib s.removed := by
    unfold GoodState pending at h
    rw [hown] at h
    exact h
  cases called with
  | onSuccess item inheritedRoutes =>
    refine ⟨?_, hitems.succeed_recorded inheritedRoutes⟩
    obtain ⟨timers, removed, heq⟩ := onFibUpdateSuccess_eq s item inheritedRoutes
    have hsucceed := hitems.succeed inheritedRoutes
    rw [FibCommands.Callback.callbacks, heq] at hsucceed
    rw [call, heq]
    exact hsucceed
  | onFailure item code => exact ⟨hitems.tail, Recorded.unchanged rfl rfl rfl⟩

theorem call_failure_idle (h : GoodState s) (hidle : s.inProgress = none) (item : UpdateQueueItem γ) (code : ℕ) :
    GoodState (call (.onFailure item code) s) ∧ Recorded s.now s.m_rib s.removed (call (.onFailure item code) s) := by
  refine ⟨goodState_of_idle rfl ?_, Recorded.unchanged rfl rfl rfl⟩
  unfold GoodState pending at h
  rw [hidle] at h
  exact h

theorem fibResponse_good (h : GoodState s) {i : ℕ} {response : Response} (horder : InOrder s (.fibResponse i response))
    (hstep : RibManager.fibResponse i response s = some s') :
    GoodState s' ∧ Recorded s.now s.m_rib s.removed s' := by
  unfold RibManager.fibResponse at hstep
  split at hstep
  · cases hstep
  · cases hstep
    exact ⟨h, Recorded.unchanged rfl rfl rfl⟩
  · rename_i sender called hrespond
    obtain ⟨command, hcommand, hresponded⟩ := respond_responded hrespond
    have hcall : GoodState (call called { s with m_fibUpdater := sender }) ∧
        Recorded s.now s.m_rib s.removed (call called { s with m_fibUpdater := sender }) := by
      by_cases hown : s.inProgress = some called.callbacks
      · exact call_good (s := { s with m_fibUpdater := sender }) h hown
      rw [hresponded.sameBatch.2 called rfl] at hown
      rcases hresponded.kinds with ⟨-, -, hnone⟩ | ⟨hresponse, hface, -, hfailure⟩ | ⟨htimeout, hfailed⟩
      · cases hnone
      · have hidle := horder command hcommand hown (by rw [hresponse]; decide)
        rw [if_pos ⟨hresponse, hface⟩] at hidle
        cases hfailure
        exact call_failure_idle (s := { s with m_fibUpdater := sender }) h hidle _ _
      · have hleft := horder command hcommand hown htimeout
        rw [if_neg (fun hfails => hfailed hfails.1 hfails.2)] at hleft
        obtain ⟨other, hother, hne⟩ := hleft
        have hrest := List.ne_nil_of_mem (mem_removeUpdate.mpr ⟨hother, hne⟩)
        cases (responded_late hresponded hrest htimeout hfailed).1
    obtain ⟨hgood, hrecorded⟩ := hcall
    obtain ⟨hgood', hrest⟩ := sendBatchFromQueue_good hgood hstep
    exact ⟨hgood', hrecorded.trans hrest⟩

end Queue

section Steps

variable {s s' : State γ}

theorem toInt64_lt (n : ℤ) : toInt64 n < 9223372036854775808 := by
  unfold toInt64
  omega

theorem toInt64_eq {n : ℤ} (hlow : -9223372036854775808 ≤ n) (hhigh : n < 9223372036854775808) : toInt64 n = n := by
  unfold toInt64
  omega

theorem beginAddRoute_good (h : GoodState s) (name : Name) {route : Route} (callback : Option γ)
    (hunexpired : Unexpired s.now route) (hbound : ∀ time, route.expires = some time → time < 9223372036854775808)
    (hadd : beginAddRoute name route none callback s = some s') :
    GoodState s' ∧ Recorded s.now s.m_rib s.removed s' := by
  obtain ⟨time, hmem, htime⟩ := hunexpired
  have hexpires : route.expires = some time := hmem
  have hlt := hbound time hexpires
  have hnonneg := h.now_nonneg
  have hrest : toInt64 (time - s.now) = time - s.now := toInt64_eq (by omega) (by omega)
  have hpositive : ¬ time - s.now ≤ 0 := by omega
  simp only [beginAddRoute, setExpires, hexpires, Option.map_some, hrest, if_neg hpositive] at hadd
  let timer : Timer := ⟨⟨s.nextUid, s.now + (time - s.now)⟩, name, route⟩
  have hstate : GoodState { s with nextUid := s.nextUid + 1, timers := s.timers ++ [timer] } := h
  refine beginApplyUpdate_good (s := { s with nextUid := s.nextUid + 1, timers := s.timers ++ [timer] })
    hstate ?_ ?_ ?_ hadd
  · rintro - event hevent
    cases hevent
    refine ⟨time, rfl, ?_⟩
    change time ≤ s.now + (time - s.now)
    omega
  · intro haction
    exact absurd rfl haction
  · rintro event ⟨⟩

theorem limitLifetime_bound (now : ℤ) (route : Route) (maxLifetime time : ℤ)
    (h : (limitLifetime now route maxLifetime).expires = some time) : time < 9223372036854775808 := by
  have heq : min route.annExpires (toInt64 (now + nanoseconds maxLifetime)) = time := Option.some.inj h
  have hlt := toInt64_lt (now + nanoseconds maxLifetime)
  omega

theorem onRouteExpiration_good (h : GoodState s) {event : EventId} (name : Name) (route : Route)
    (htime : event.time ≤ s.now) (hown : OwnVersion event name route s.m_rib (pending s))
    (hexpire : onRouteExpiration (some event) name route s = some s') :
    GoodState s' ∧ Recorded s.now s.m_rib s.removed s' := by
  refine beginApplyUpdate_good h ?_ ?_ ?_ hexpire
  · rintro ⟨⟩
  · rintro - ⟨⟩
  · rintro other ⟨⟩
    exact ⟨htime, hown⟩

variable {system_clock : ℤ → ℤ}

theorem GoneRecorded.unchanged {rib : Rib} (hrib : s.m_rib = rib) : GoneRecorded rib s :=
  (Recorded.unchanged rfl hrib rfl).gone

theorem step_good (h : GoodState s) {event : Event γ} (hself : SelfLearning system_clock s event)
    (hown : InOrder s event) (hstep : step system_clock s event = some s') :
    GoodState s' ∧ GoneRecorded s.m_rib s' := by
  cases event with
  | slAnnounce pa faceId maxLifetime callback =>
    cases hstep
    unfold RibManager.slAnnounce
    split
    · exact ⟨h, GoneRecorded.unchanged rfl⟩
    · exact ⟨h, GoneRecorded.unchanged rfl⟩
  | validation i success =>
    simp only [step, Option.bind_eq_bind, Option.bind_eq_some_iff] at hstep
    obtain ⟨validation, hvalidation, hafter⟩ := hstep
    unfold afterValidation at hafter
    split at hafter
    · rename_i hsuccess
      obtain ⟨hgood, hrecorded⟩ := beginAddRoute_good (s := { s with validations := s.validations.eraseIdx i }) h _ _
        (hself validation hvalidation hsuccess) (limitLifetime_bound _ _ _) hafter
      exact ⟨hgood, hrecorded.gone⟩
    · cases hafter
      exact ⟨h, GoneRecorded.unchanged rfl⟩
  | slRenew name faceId maxLifetime callback =>
    simp only [step, RibManager.slRenew] at hstep
    split at hstep
    · cases hstep
      exact ⟨h, GoneRecorded.unchanged rfl⟩
    · rename_i routeName oldRoute hfound
      obtain ⟨hgood, hrecorded⟩ :=
        beginAddRoute_good h routeName _ (hself (routeName, oldRoute) hfound) (limitLifetime_bound _ _ _) hstep
      exact ⟨hgood, hrecorded.gone⟩
  | registerEntry name route expires => cases hself
  | unregisterEntry name route => cases hself
  | onFaceDestroyedEvent faceId => cases hself
  | expiration event =>
    simp only [step, Option.bind_eq_bind, Option.bind_eq_some_iff] at hstep
    obtain ⟨timer, htimer, hfire⟩ := hstep
    have hevent : timer.event = event := by simpa using List.find?_some htimer
    have hversion := hown timer (List.mem_of_find?_eq_some htimer) hevent
    split at hfire
    · rename_i htime
      obtain ⟨hgood, hrecorded⟩ := onRouteExpiration_good (s := s.cancel (some event)) h _ _ htime hversion hfire
      exact ⟨hgood, hrecorded.gone⟩
    · cases hfire
  | fibResponse i response =>
    obtain ⟨hgood, hrecorded⟩ := fibResponse_good h hown hstep
    exact ⟨hgood, hrecorded.gone⟩
  | advance time =>
    simp only [step] at hstep
    split at hstep
    · rename_i hguard
      cases hstep
      exact ⟨Good.advance h hguard.1, GoneRecorded.unchanged rfl⟩
    · cases hstep

theorem Initial.good (h : Initial s) : GoodState s where
  now_nonneg := h.now_nonneg
  unique := h.unique
  sorted := by
    rw [h.idle]
    exact List.Pairwise.nil
  past := by
    rw [h.idle]
    rintro item ⟨⟩
  hasCause := by
    rw [h.idle]
    rintro item ⟨⟩
  caused := by
    rw [h.idle]
    rintro item ⟨⟩
  registered := by
    rw [h.idle]
    rintro item ⟨⟩
  routes := by
    intro name query route hroute event hevent
    rw [h.noEvent name query route hroute] at hevent
    cases hevent
  own := by
    intro before item after event hitems
    rw [h.idle] at hitems
    cases before <;> cases hitems
  due := by
    rw [h.noRemoval]
    rintro removal ⟨⟩

/-- Where expiration events fire for their own versions of a route only, and late answers
of the FIB neither apply a batch again nor break off another one, each route that goes has
been removed by its own event, and after its expiry. -/
theorem removals_due (hinitial : Initial s)
    (hrun : Run (step system_clock) (fun s event => SelfLearning system_clock s event ∧ InOrder s event) s s') :
    (∀ removal ∈ s'.removed, Due removal) ∧
      ∀ event s'', SelfLearning system_clock s' event → InOrder s' event →
        step system_clock s' event = some s'' → GoneRecorded s'.m_rib s'' := by
  have hgood : GoodState s' :=
    hrun.invariant (fun _ _ _ hgood hok hstep => (step_good hgood hok.1 hok.2 hstep).1) hinitial.good
  exact ⟨hgood.due, fun event s'' hself hown hstep => (step_good hgood hself hown hstep).2⟩

end Steps

section Samples

def announcementOf (name : Name) : PrefixAnnouncement :=
  ⟨⟨name ++ [⟨32, [80, 65]⟩, ⟨8, [253, 1]⟩, ⟨8, [0, 0]⟩], ⟨5, 0, none, []⟩, ⟨21, []⟩, none, none⟩, name, 3600000, none⟩

def sampleState : State Unit := ⟨0, 0, true, ⟨[], 0, fun _ => []⟩, [], none, ⟨⟨0, [], [], []⟩, [], [], []⟩, [], [], [], []⟩

def announceEvents : List (Event Unit) :=
  [.slAnnounce (announcementOf [⟨8, [97]⟩]) 1 10 (), .validation 0 true, .fibResponse 0 .success]

def expiryEvents : List (Event Unit) :=
  announceEvents ++ [.advance 10000000, .expiration ⟨0, 10000000⟩, .fibResponse 0 .success]

def renewalEvents : List (Event Unit) :=
  announceEvents ++
    [.slAnnounce (announcementOf [⟨8, [98]⟩]) 2 10 (), .validation 0 true, .advance 5000000,
      .slRenew [⟨8, [97]⟩] 1 10 (), .advance 10000000, .expiration ⟨0, 10000000⟩, .fibResponse 0 .success, .fibResponse 0 .success]

theorem initial_sampleState : Initial sampleState := by
  refine ⟨le_refl _, rfl, rfl, rfl, fun _ => List.Pairwise.nil, ?_⟩
  rintro name query route ⟨⟩

theorem removals_due_expiry :
    ∃ s', runOf (step id) (fun s event => SelfLearning id s event ∧ InOrder s event) sampleState expiryEvents =
        some s' ∧ s'.removed.length = 1 ∧ ∀ removal ∈ s'.removed, Due removal := by
  have hrun : (runOf (step id) (fun s event => SelfLearning id s event ∧ InOrder s event) sampleState
      expiryEvents).map (fun s => s.removed.length) = some 1 := by decide
  obtain ⟨s', hs', hlength⟩ := Option.map_eq_some_iff.mp hrun
  exact ⟨s', hs', hlength, (removals_due initial_sampleState (Run.of_runOf hs')).1⟩

/-- The first event of `/a` removes the version that expires 5 ms later. -/
theorem renewed_removed_early :
    ∃ s', Initial sampleState ∧ Run (step id) (SelfLearning id) sampleState s' ∧
      ∃ removal ∈ s'.removed, removal.time = 10000000 ∧ removal.cause = ⟨0, 10000000⟩ ∧
        removal.route.expires = some 15000000 ∧ ¬ Due removal := by
  have hrun : (runOf (step id) (SelfLearning id) sampleState renewalEvents).map
      (fun s => s.removed.map (fun removal => (removal.time, removal.cause, removal.route.expires))) =
        some [(10000000, ⟨0, 10000000⟩, some 15000000)] := by decide
  obtain ⟨s', hs', hremoved⟩ := Option.map_eq_some_iff.mp hrun
  obtain ⟨removal, hlist, hremoval⟩ := List.map_eq_singleton_iff.mp hremoved
  simp only [Prod.mk.injEq] at hremoval
  obtain ⟨htime, hcause, hexpires⟩ := hremoval
  refine ⟨s', initial_sampleState, Run.of_runOf hs', removal, ?_, htime, hcause, hexpires, ?_⟩
  · rw [hlist]
    exact List.mem_singleton_self removal
  · intro hdue
    obtain ⟨time, htime', hle⟩ := hdue.expired
    rw [hexpires] at htime'
    rw [hcause, ← Option.some.inj htime'] at hle
    exact absurd hle (by decide)

end Samples

end LeoNdn.RouteRenewal
