import LeoNdn.KiteRoutes
import LeoNdn.PendingPull
import LeoNdn.RibManager
import LeoNdn.Runs

/-!
What follows the calls that acknowledgments post: the callback runs when the
RIB manager has an answer, whatever has happened to the face meanwhile.
-/

namespace LeoNdn.KiteCallbacks

open LeoNdn.NdnPacket LeoNdn.KiteProtocol LeoNdn.Forwarder LeoNdn.KiteRoutes LeoNdn.PendingPull LeoNdn.RibTable
open LeoNdn.FibUpdater LeoNdn.RibManager LeoNdn.Runs
open LeoNdn.FibCommands (Command respond_responded)

section Callbacks

variable {γ : Type} {P : γ → Prop}

structure AllCallbacks (P : γ → Prop) (validations : List (Validation γ)) (items : List (UpdateQueueItem γ))
    (completions : List (γ × SlAnnounceResult)) : Prop where
  validations : ∀ validation ∈ validations, P validation.callback
  items : ∀ item ∈ items, ∀ callback ∈ item.callback, P callback
  completions : ∀ completion ∈ completions, P completion.1

/-- The updates whose callbacks can still be called: each command that has not been
answered has the callback of its update, and others wait for their turn. -/
def unanswered (s : RibManager.State γ) : List (UpdateQueueItem γ) :=
  s.m_fibUpdater.inFlight.map Command.callbacks ++ s.m_updateBatches

def Callbacks (P : γ → Prop) (s : RibManager.State γ) : Prop :=
  AllCallbacks P s.validations (unanswered s) s.completions

def callbacksOf : RibManager.Event γ → List γ
  | .slAnnounce _ _ _ callback => [callback]
  | .slRenew _ _ _ callback => [callback]
  | _ => []

variable {validations : List (Validation γ)} {item : UpdateQueueItem γ} {items : List (UpdateQueueItem γ)}
  {completions : List (γ × SlAnnounceResult)} {s s' : RibManager.State γ}

theorem AllCallbacks.complete (h : AllCallbacks P validations items completions) {callback : Option γ}
    (hcallback : ∀ c ∈ callback, P c) (res : SlAnnounceResult) :
    AllCallbacks P validations items (completions ++ (callback.map (fun callback => (callback, res))).toList) := by
  refine { h with completions := ?_ }
  intro completion hcompletion
  rcases List.mem_append.mp hcompletion with hold | hnew
  · exact h.completions completion hold
  · obtain ⟨c, hc, rfl⟩ := Option.map_eq_some_iff.mp (Option.mem_toList.mp hnew)
    exact hcallback c hc

theorem AllCallbacks.push (h : AllCallbacks P validations items completions) (hitem : ∀ c ∈ item.callback, P c) :
    AllCallbacks P validations (items ++ [item]) completions := by
  refine { h with items := ?_ }
  intro other hother
  rcases List.mem_append.mp hother with hold | hnew
  · exact h.items other hold
  · rw [List.mem_singleton.mp hnew]
    exact hitem

theorem AllCallbacks.subset (h : AllCallbacks P validations items completions) {items' : List (UpdateQueueItem γ)}
    (hitems : items' ⊆ items) : AllCallbacks P validations items' completions :=
  { h with items := fun other hother => h.items other (hitems hother) }

theorem sent_subset {commands commands' : List (Command (UpdateQueueItem γ))} (batches : List (UpdateQueueItem γ))
    (hflight : ∀ command ∈ commands', command ∈ commands ∨ command.callbacks = item) :
    commands'.map Command.callbacks ++ batches ⊆ commands.map Command.callbacks ++ item :: batches := by
  intro other hother
  rcases List.mem_append.mp hother with hsent | hqueued
  · obtain ⟨command, hcommand, rfl⟩ := List.mem_map.mp hsent
    rcases hflight command hcommand with hold | hnew
    · exact List.mem_append_left _ (List.mem_map_of_mem hold)
    · exact List.mem_append_right _ (hnew ▸ List.mem_cons_self)
  · exact List.mem_append_right _ (List.mem_cons_of_mem _ hqueued)

theorem sendBatches_callbacks {batches : List (UpdateQueueItem γ)}
    (h : AllCallbacks P s.validations (s.m_fibUpdater.inFlight.map Command.callbacks ++ batches) s.completions)
    (hsend : sendBatches batches s = some s') : Callbacks P s' := by
  induction batches generalizing s with
  | nil =>
    cases hsend
    exact h
  | cons item batches ih =>
    obtain ⟨timers, sender, hflight, rfl | ⟨inheritedRoutes, hrest⟩⟩ := sendBatches_cons hsend
    · exact h.subset (sent_subset batches hflight)
    · obtain ⟨timers', removed, heq⟩ := onFibUpdateSuccess_eq { s with
        timers := timers, m_updateBatches := batches, inProgress := some item, m_fibUpdater := sender } item
        inheritedRoutes
      rw [heq] at hrest
      refine ih ?_ hrest
      exact (h.subset (sent_subset batches hflight)).complete
        (h.items item (List.mem_append_right _ List.mem_cons_self)) .OK

theorem sendBatchFromQueue_callbacks (h : Callbacks P s) (hsend : sendBatchFromQueue s = some s') :
    Callbacks P s' := by
  rcases sendBatchFromQueue_cases hsend with rfl | ⟨-, hbatches⟩
  · exact h
  · exact sendBatches_callbacks h hbatches

theorem addUpdateToQueue_callbacks (h : Callbacks P s) (update : RibUpdate) {callback : Option γ}
    (hcallback : ∀ c ∈ callback, P c) (cause : Option EventId) :
    Callbacks P (addUpdateToQueue update callback cause s) := by
  have hpush : AllCallbacks P s.validations (unanswered s ++ [⟨s.nextUid, update, callback, cause, s.now⟩])
      s.completions := h.push hcallback
  unfold Callbacks unanswered addUpdateToQueue
  rw [← List.append_assoc]
  exact hpush

theorem beginApplyUpdate_callbacks (h : Callbacks P s) {update : RibUpdate} {callback : Option γ}
    (hcallback : ∀ c ∈ callback, P c) {cause : Option EventId}
    (happly : beginApplyUpdate update callback cause s = some s') : Callbacks P s' :=
  sendBatchFromQueue_callbacks (addUpdateToQueue_callbacks h update hcallback cause) happly

theorem call_callbacks (h : Callbacks P s) {callback : FibCommands.Callback (UpdateQueueItem γ)}
    (hcallback : ∀ c ∈ callback.callbacks.callback, P c) : Callbacks P (call callback s) := by
  cases callback with
  | onSuccess item inheritedRoutes =>
    obtain ⟨timers, removed, heq⟩ := onFibUpdateSuccess_eq s item inheritedRoutes
    rw [call, heq]
    exact h.complete hcallback .OK
  | onFailure item code => exact h.complete hcallback .ERROR

theorem fibResponse_callbacks (h : Callbacks P s) {i : ℕ} {response : FibCommands.Response}
    (hstep : fibResponse i response s = some s') : Callbacks P s' := by
  have hresponded : ∀ {sender callback}, s.m_fibUpdater.respond i response = some (sender, callback) →
      Callbacks P { s with m_fibUpdater := sender } ∧
        ∀ called ∈ callback, ∀ c ∈ called.callbacks.callback, P c := by
    intro sender callback hrespond
    obtain ⟨command, hcommand, hresponded⟩ := respond_responded hrespond
    have hflight := List.mem_of_getElem? hcommand
    obtain ⟨hothers, hcalled⟩ := hresponded.sameBatch
    refine ⟨h.subset ?_, fun called hcallback => ?_⟩
    · apply List.append_subset.mpr ⟨?_, List.subset_append_right _ _⟩
      intro item hitem
      apply List.mem_append_left
      obtain ⟨other, hother, rfl⟩ := List.mem_map.mp hitem
      rcases hothers other hother with hold | hnew
      · exact List.mem_map_of_mem (List.mem_of_mem_eraseIdx hold)
      · exact hnew ▸ List.mem_map_of_mem hflight
    · rw [hcalled called hcallback]
      exact h.items command.callbacks (List.mem_append_left _ (List.mem_map_of_mem hflight))
  unfold fibResponse at hstep
  split at hstep
  · cases hstep
  · rename_i sender hrespond
    cases hstep
    exact (hresponded hrespond).1
  · rename_i sender callback hrespond
    obtain ⟨hsender, hcallback⟩ := hresponded hrespond
    exact sendBatchFromQueue_callbacks (call_callbacks hsender (hcallback callback rfl)) hstep

theorem beginAddRoute_callbacks (h : Callbacks P s) (name : Name) (route : Route) (expires : Option ℤ)
    {callback : Option γ} (hcallback : ∀ c ∈ callback, P c)
    (hadd : beginAddRoute name route expires callback s = some s') : Callbacks P s' := by
  unfold beginAddRoute at hadd
  dsimp only at hadd
  split at hadd
  · exact beginApplyUpdate_callbacks h hcallback hadd
  · split at hadd
    · obtain ⟨s'', hexpire, rfl⟩ := Option.map_eq_some_iff.mp hadd
      have hqueue : Callbacks P s'' := beginApplyUpdate_callbacks h (by rintro c ⟨⟩) hexpire
      exact hqueue.complete hcallback .EXPIRED
    · refine beginApplyUpdate_callbacks ?_ hcallback hadd
      exact h

theorem beginRemoveFace_callbacks (h : Callbacks P s) (faceId : ℕ) (hremove : beginRemoveFace faceId s = some s') :
    Callbacks P s' := by
  have hqueue : ∀ (routes : List (Name × Route)) (s : RibManager.State γ), Callbacks P s →
      Callbacks P (routes.foldl (fun s nameAndRoute =>
        addUpdateToQueue ⟨.REMOVE_FACE, nameAndRoute.1, nameAndRoute.2⟩ none none s) s) := by
    intro routes
    induction routes with
    | nil => exact fun _ h => h
    | cons nameAndRoute routes ih =>
      exact fun s h => ih _ (addUpdateToQueue_callbacks h _ (by rintro c ⟨⟩) none)
  exact sendBatchFromQueue_callbacks (hqueue _ s h) hremove

variable {system_clock : ℤ → ℤ}

theorem step_callbacks (h : Callbacks P s) {event : RibManager.Event γ} (hevent : ∀ c ∈ callbacksOf event, P c)
    (hstep : RibManager.step system_clock s event = some s') : Callbacks P s' := by
  cases event with
  | slAnnounce pa faceId maxLifetime callback =>
    have hcallback : P callback := hevent callback (List.mem_singleton_self callback)
    cases hstep
    unfold RibManager.slAnnounce
    split
    · refine { h with validations := ?_ }
      intro validation hvalidation
      rcases List.mem_append.mp hvalidation with hold | hnew
      · exact h.validations validation hold
      · rw [List.mem_singleton.mp hnew]
        exact hcallback
    · exact AllCallbacks.complete h (by rintro c ⟨⟩; exact hcallback) .VALIDATION_FAILURE
  | validation i success =>
    simp only [RibManager.step, Option.bind_eq_bind, Option.bind_eq_some_iff] at hstep
    obtain ⟨validation, hvalidation, hafter⟩ := hstep
    have hcallback : ∀ c ∈ some validation.callback, P c := by
      rintro c ⟨⟩
      exact h.validations validation (List.mem_of_getElem? hvalidation)
    have hrest : Callbacks P { s with validations := s.validations.eraseIdx i } :=
      { h with validations := fun other hother => h.validations other (List.mem_of_mem_eraseIdx hother) }
    unfold afterValidation at hafter
    split at hafter
    · exact beginAddRoute_callbacks hrest _ _ _ hcallback hafter
    · cases hafter
      exact AllCallbacks.complete hrest hcallback .VALIDATION_FAILURE
  | slRenew name faceId maxLifetime callback =>
    have hcallback : ∀ c ∈ some callback, P c := by
      rintro c ⟨⟩
      exact hevent callback (List.mem_singleton_self callback)
    simp only [RibManager.step, RibManager.slRenew] at hstep
    split at hstep
    · cases hstep
      exact AllCallbacks.complete h hcallback .NOT_FOUND
    · exact beginAddRoute_callbacks h _ _ _ hcallback hstep
  | registerEntry name route expires => exact beginAddRoute_callbacks h name route expires (by rintro c ⟨⟩) hstep
  | unregisterEntry name route => exact beginApplyUpdate_callbacks h (by rintro c ⟨⟩) hstep
  | onFaceDestroyedEvent faceId => exact beginRemoveFace_callbacks h faceId hstep
  | expiration event =>
    simp only [RibManager.step, Option.bind_eq_bind, Option.bind_eq_some_iff] at hstep
    obtain ⟨timer, -, hfire⟩ := hstep
    split at hfire
    · refine beginApplyUpdate_callbacks (s := s.cancel (some event)) ?_ (by rintro c ⟨⟩) hfire
      exact h
    · cases hfire
  | fibResponse i response => exact fibResponse_callbacks h hstep
  | advance time =>
    simp only [RibManager.step] at hstep
    split at hstep
    · cases hstep
      exact h
    · cases hstep

end Callbacks

variable {κ : Type}

/-- The callback of the call for an acknowledgment: its arguments of `afterKiteUpdate`. -/
structure KiteUpdate where
  pa : PrefixAnnouncement
  inFaceId : ℕ
  deriving DecidableEq, Repr

/-- The callbacks of other calls only write to the log. -/
abbrev Callback := Option KiteUpdate

/-- Nothing where the face is not in the table: a null pointer is dereferenced. -/
def afterKiteUpdate (pull : Pull) (now : ℤ) (update : KiteUpdate) (res : SlAnnounceResult)
    (s : PendingPull.State κ) : Option (PendingPull.State κ) :=
  (s.m_faceTable.get update.inFaceId).map (fun inFace =>
    if res = .OK then doPull pull now update.pa.m_announcedName inFace s else s)

/-- The forwarder and the RIB manager, and the calls that wait to be run in
between; the steady clock is that of the RIB manager. -/
structure System (κ : Type) where
  forwarder : PendingPull.State κ
  posted : List SlAnnounce
  ribManager : RibManager.State Callback

inductive Event (κ : Type)
  | data (ctx : Context κ) (inFace : Face) (data : Data)
  | pipeline (tables : Tables κ)
  | addFace (face : Face)
  | removeFace (id : ℕ)
  | runPosted (i : ℕ)
  | rib (event : RibManager.Event Callback)
  | callback

/-- The in-records of every entry are of different faces of the table. -/
def RecordsValid (faces : FaceTable) (tables : Tables κ) : Prop :=
  ∀ entry ∈ tables.m_pit, (entry.m_inRecords.map FaceRecord.m_face).Nodup ∧
    ∀ record ∈ entry.m_inRecords, record.m_face ∈ faces.m_faces

instance (faces : FaceTable) (tables : Tables κ) : Decidable (RecordsValid faces tables) :=
  inferInstanceAs (Decidable (∀ entry ∈ _, _))

section Steps

variable (pull : Pull) (system_clock : ℤ → ℤ)

def runCallback (callback : Callback) (res : SlAnnounceResult) (s : System κ) : Option (PendingPull.State κ) :=
  match callback with
  | none => some s.forwarder
  | some update => afterKiteUpdate pull s.ribManager.now update res s.forwarder

/-- One event; nothing where it cannot happen, and where a callback fails. The
callbacks of a step of the RIB manager run before anything else; a pipeline has
records of faces of the table only. -/
def step (s : System κ) : Event κ → Option (System κ)
  | .callback =>
    match s.ribManager.completions with
    | [] => none
    | (callback, res) :: completions => (runCallback pull callback res s).map (fun forwarder =>
        { s with forwarder := forwarder, ribManager := { s.ribManager with completions := completions } })
  | event =>
    if s.ribManager.completions ≠ [] then none
    else
      match event with
      | .data ctx inFace data =>
        let outcome := onIncomingData ctx inFace data s.forwarder.tables
        if RecordsValid s.forwarder.m_faceTable outcome.tables then
          some { s with forwarder := { s.forwarder with tables := outcome.tables }, posted := s.posted ++ outcome.posted }
        else none
      | .pipeline tables =>
        if RecordsValid s.forwarder.m_faceTable tables then
          some { s with forwarder := { s.forwarder with tables := tables } }
        else none
      | .addFace face =>
        some { s with forwarder := { s.forwarder with m_faceTable := s.forwarder.m_faceTable.add face } }
      | .removeFace id => (removeFace id s.forwarder).map (fun forwarder => { s with forwarder := forwarder })
      | .runPosted i => s.posted[i]?.map (fun call =>
          { s with
            posted := s.posted.eraseIdx i,
            ribManager := RibManager.slAnnounce call.pa call.inFaceId call.maxLifetime
              (some ⟨call.pa, call.inFaceId⟩) s.ribManager })
      | .rib event =>
        if ∀ callback ∈ callbacksOf event, callback = none then
          (RibManager.step system_clock s.ribManager event).map (fun ribManager => { s with ribManager := ribManager })
        else none
      | .callback => none

/-- The callback that runs next does not fail, uses faces of the table only, and
leaves the forwarder as it is where its face is gone. -/
def SafeCallback (s : System κ) : Prop :=
  ∀ update res completions, s.ribManager.completions = (some update, res) :: completions →
    ∃ forwarder, afterKiteUpdate pull s.ribManager.now update res s.forwarder = some forwarder ∧
      (∀ send ∈ forwarder.scheduled,
        send ∈ s.forwarder.scheduled ∨ send.outFace ∈ s.forwarder.m_faceTable.m_faces) ∧
      (s.forwarder.m_faceTable.get update.inFaceId = none → forwarder = s.forwarder)

end Steps

def outstanding (s : System κ) : List ℕ :=
  s.posted.map SlAnnounce.inFaceId ++
    ((s.ribManager.validations.map Validation.callback ++
      (unanswered s.ribManager).filterMap UpdateQueueItem.callback ++ s.ribManager.completions.map Prod.fst).filterMap
        (Option.map KiteUpdate.inFaceId))

/-- A face that is removed has no acknowledgment whose callback has not run. -/
def FaceUnawaited (s : System κ) : Event κ → Prop
  | .removeFace id => id ∉ outstanding s
  | _ => True

instance (s : System κ) : (event : Event κ) → Decidable (FaceUnawaited s event)
  | .data _ _ _ => inferInstanceAs (Decidable True)
  | .pipeline _ => inferInstanceAs (Decidable True)
  | .addFace _ => inferInstanceAs (Decidable True)
  | .removeFace id => inferInstanceAs (Decidable (id ∉ outstanding s))
  | .runPosted _ => inferInstanceAs (Decidable True)
  | .rib _ => inferInstanceAs (Decidable True)
  | .callback => inferInstanceAs (Decidable True)

structure Initial (s : System κ) : Prop where
  ids : (s.forwarder.m_faceTable.m_faces.map Face.id).Nodup
  last : ∀ face ∈ s.forwarder.m_faceTable.m_faces, face.id ≤ s.forwarder.m_faceTable.m_lastFaceId
  records : RecordsValid s.forwarder.m_faceTable s.forwarder.tables
  noCall : outstanding s = []

/-- The faces of the table are known by their ids, and every face of a record or
of a callback is there. -/
structure Kept (faces : FaceTable) (tables : Tables κ) (posted : List SlAnnounce)
    (ribManager : RibManager.State Callback) : Prop where
  ids : (faces.m_faces.map Face.id).Nodup
  last : ∀ face ∈ faces.m_faces, face.id ≤ faces.m_lastFaceId
  records : RecordsValid faces tables
  posted : ∀ call ∈ posted, (faces.get call.inFaceId).isSome = true
  callbacks : Callbacks (fun callback => ∀ update ∈ callback, (faces.get update.inFaceId).isSome = true) ribManager

def System.Kept (s : System κ) : Prop :=
  KiteCallbacks.Kept s.forwarder.m_faceTable s.forwarder.tables s.posted s.ribManager

section Invariant

variable {faces faces' : FaceTable} {tables : Tables κ} {posted : List SlAnnounce}
  {ribManager : RibManager.State Callback}

theorem AllCallbacks.mono {γ : Type} {P Q : γ → Prop} {validations : List (Validation γ)}
    {items : List (UpdateQueueItem γ)} {completions : List (γ × SlAnnounceResult)}
    (h : AllCallbacks P validations items completions) (hPQ : ∀ c, P c → Q c) :
    AllCallbacks Q validations items completions where
  validations := fun validation hvalidation => hPQ _ (h.validations validation hvalidation)
  items := fun item hitem c hc => hPQ c (h.items item hitem c hc)
  completions := fun completion hcompletion => hPQ _ (h.completions completion hcompletion)

theorem get_add_isSome {id : ℕ} (h : (faces.get id).isSome = true) (added : Face) :
    ((faces.add added).get id).isSome = true := by
  obtain ⟨face, hface⟩ := Option.isSome_iff_exists.mp h
  have hmem := get_isSome_of_mem (mem_add (get_mem hface) added)
  rwa [get_id hface] at hmem

theorem Kept.addFace (h : Kept faces tables posted ribManager) (added : Face) :
    Kept (faces.add added) tables posted ribManager where
  ids := by
    unfold FaceTable.add
    split
    · exact h.ids
    · rw [List.map_append]
      refine List.nodup_append.mpr ⟨h.ids, List.nodup_singleton _, ?_⟩
      intro id hid other hother heq
      obtain ⟨face, hface, rfl⟩ := List.mem_map.mp hid
      have hlast := h.last face hface
      rw [heq, List.mem_singleton.mp hother] at hlast
      exact Nat.not_succ_le_self _ hlast
  last := by
    intro face hface
    unfold FaceTable.add at hface ⊢
    split
    · rename_i hpresent
      rw [if_pos hpresent] at hface
      exact h.last face hface
    · rename_i habsent
      rw [if_neg habsent] at hface
      rcases List.mem_append.mp hface with hold | hnew
      · exact (h.last face hold).trans (Nat.le_succ _)
      · rw [List.mem_singleton.mp hnew]
  records := fun entry hentry =>
    ⟨(h.records entry hentry).1, fun record hrecord => mem_add ((h.records entry hentry).2 record hrecord) added⟩
  posted := fun call hcall => get_add_isSome (h.posted call hcall) added
  callbacks := h.callbacks.mono fun _ hcallback update hupdate => get_add_isSome (hcallback update hupdate) added

theorem AllCallbacks.and {γ : Type} {P Q : γ → Prop} {validations : List (Validation γ)}
    {items : List (UpdateQueueItem γ)} {completions : List (γ × SlAnnounceResult)}
    (h : AllCallbacks P validations items completions) (h' : AllCallbacks Q validations items completions) :
    AllCallbacks (fun c => P c ∧ Q c) validations items completions where
  validations := fun _ hvalidation => ⟨h.validations _ hvalidation, h'.validations _ hvalidation⟩
  items := fun item hitem c hc => ⟨h.items item hitem c hc, h'.items item hitem c hc⟩
  completions := fun _ hcompletion => ⟨h.completions _ hcompletion, h'.completions _ hcompletion⟩

theorem outstanding_all {s : System κ} {R : ℕ → Prop} (h : ∀ id ∈ outstanding s, R id) :
    (∀ call ∈ s.posted, R call.inFaceId) ∧
      Callbacks (fun callback => ∀ update ∈ callback, R update.inFaceId) s.ribManager := by
  have hcallbacks : ∀ callback ∈ s.ribManager.validations.map Validation.callback ++
      (unanswered s.ribManager).filterMap UpdateQueueItem.callback ++ s.ribManager.completions.map Prod.fst,
      ∀ update ∈ callback, R update.inFaceId := by
    intro callback hcallback update hupdate
    refine h _ (List.mem_append_right _ (List.mem_filterMap.mpr ⟨callback, hcallback, ?_⟩))
    rw [Option.mem_def.mp hupdate]
    rfl
  refine ⟨?_, ?_, ?_, ?_⟩
  · intro call hcall
    exact h _ (List.mem_append_left _ (List.mem_map_of_mem hcall))
  · intro validation hvalidation
    exact hcallbacks _ (List.mem_append_left _ (List.mem_append_left _ (List.mem_map_of_mem hvalidation)))
  · intro item hitem callback hcallback
    exact hcallbacks callback
      (List.mem_append_left _ (List.mem_append_right _ (List.mem_filterMap.mpr ⟨item, hitem, hcallback⟩)))
  · intro completion hcompletion
    exact hcallbacks _ (List.mem_append_right _ (List.mem_map_of_mem hcompletion))

theorem deleteRecord_face {face : Face} {records : List FaceRecord} (hnodup : (records.map FaceRecord.m_face).Nodup)
    {record : FaceRecord} (h : record ∈ deleteRecord face records) : record.m_face ≠ face := by
  induction records with
  | nil => cases h
  | cons first records ih =>
    rw [List.map_cons, List.nodup_cons] at hnodup
    by_cases hfirst : first.m_face = face
    · have hrest : deleteRecord face (first :: records) = records := List.eraseP_cons_of_pos (by simpa using hfirst)
      rw [hrest] at h
      rintro rfl
      exact hnodup.1 (hfirst ▸ List.mem_map_of_mem h)
    · have hkept : deleteRecord face (first :: records) = first :: deleteRecord face records :=
        List.eraseP_cons_of_neg (by simpa using hfirst)
      rw [hkept] at h
      rcases List.mem_cons.mp h with rfl | hrest
      · exact hfirst
      · exact ih hnodup.2 hrest

theorem Kept.removeFace (h : Kept faces tables posted ribManager) {id : ℕ} {face : Face}
    (hface : faces.get id = some face) (hposted : ∀ call ∈ posted, call.inFaceId ≠ id)
    (hcallbacks : Callbacks (fun callback => ∀ update ∈ callback, update.inFaceId ≠ id) ribManager) :
    Kept (faces.erase id) (Tables.cleanup face tables) posted ribManager where
  ids := h.ids.sublist (List.filter_sublist.map _)
  last := fun other hother => h.last other (List.mem_filter.mp hother).1
  records := by
    intro entry hentry
    obtain ⟨before, hbefore, hin, -⟩ := mem_cleanup hentry
    obtain ⟨hnodup, hfaces⟩ := h.records before hbefore
    rw [hin]
    refine ⟨hnodup.sublist (List.eraseP_sublist.map _), ?_⟩
    intro record hrecord
    have hmem := hfaces record (List.mem_of_mem_eraseP hrecord)
    refine List.mem_filter.mpr ⟨hmem, ?_⟩
    have hne : record.m_face.id ≠ id := by
      intro hid
      have hsame := List.inj_on_of_nodup_map h.ids hmem (get_mem hface) (hid.trans (get_id hface).symm)
      exact deleteRecord_face hnodup hrecord hsame
    simpa using hne
  posted := by
    intro call hcall
    rw [get_erase (hposted call hcall)]
    exact h.posted call hcall
  callbacks := by
    refine (AllCallbacks.and h.callbacks hcallbacks).mono ?_
    rintro callback ⟨hsome, hne⟩ update hupdate
    rw [get_erase (hne update hupdate)]
    exact hsome update hupdate

theorem posted_face {ctx : Context κ} {inFace : Face} {data : Data} (h : RecordsValid faces tables)
    {call : SlAnnounce} (hcall : call ∈ (onIncomingData ctx inFace data tables).posted) :
    (faces.get call.inFaceId).isSome = true := by
  obtain ⟨-, -, ack, -, i, -, hcall⟩ := mem_posted.mp hcall
  obtain ⟨entry, hentry, record, hrecord, -, rfl⟩ := mem_announceEntry.mp hcall
  exact get_isSome_of_mem ((h entry (List.mem_of_getElem? hentry)).2 record hrecord)

theorem doPull_state (pull : Pull) (now : ℤ) (namePrefix : Name) (outFace : Face) (s : PendingPull.State κ) :
    (doPull pull now namePrefix outFace s).m_faceTable = s.m_faceTable ∧
      (doPull pull now namePrefix outFace s).tables = s.tables := by
  unfold doPull
  split <;> exact ⟨rfl, rfl⟩

variable {pull : Pull}

theorem runCallback_state {callback : Callback} {res : SlAnnounceResult} {s : System κ}
    {forwarder : PendingPull.State κ} (h : runCallback pull callback res s = some forwarder) :
    forwarder.m_faceTable = s.forwarder.m_faceTable ∧ forwarder.tables = s.forwarder.tables := by
  unfold runCallback at h
  split at h
  · cases h
    exact ⟨rfl, rfl⟩
  · obtain ⟨inFace, -, rfl⟩ := Option.map_eq_some_iff.mp h
    split
    · exact doPull_state pull _ _ inFace s.forwarder
    · exact ⟨rfl, rfl⟩

end Invariant

section SystemSteps

variable {pull : Pull} {system_clock : ℤ → ℤ} {s s' : System κ}

theorem step_kept (h : s.Kept) {event : Event κ} (hfree : FaceUnawaited s event)
    (hstep : step pull system_clock s event = some s') : s'.Kept := by
  cases event with
  | callback =>
    simp only [step] at hstep
    split at hstep
    · cases hstep
    · rename_i callback res completions hcompletions
      obtain ⟨forwarder, hrun, rfl⟩ := Option.map_eq_some_iff.mp hstep
      obtain ⟨hfaces, htables⟩ := runCallback_state hrun
      unfold System.Kept
      simp only [hfaces, htables]
      refine { h with callbacks := { h.callbacks with completions := ?_ } }
      intro completion hcompletion
      refine h.callbacks.completions completion ?_
      rw [hcompletions]
      exact List.mem_cons_of_mem _ hcompletion
  | data ctx inFace data =>
    simp only [step] at hstep
    split at hstep
    · cases hstep
    split at hstep
    · rename_i hvalid
      cases hstep
      refine { h with records := hvalid, posted := ?_ }
      intro call hcall
      rcases List.mem_append.mp hcall with hold | hnew
      · exact h.posted call hold
      · exact posted_face h.records hnew
    · cases hstep
  | pipeline tables =>
    simp only [step] at hstep
    split at hstep
    · cases hstep
    split at hstep
    · rename_i hvalid
      cases hstep
      exact { h with records := hvalid }
    · cases hstep
  | addFace face =>
    simp only [step] at hstep
    split at hstep
    · cases hstep
    cases hstep
    exact KiteCallbacks.Kept.addFace h face
  | removeFace id =>
    simp only [step] at hstep
    split at hstep
    · cases hstep
    obtain ⟨forwarder, hremove, rfl⟩ := Option.map_eq_some_iff.mp hstep
    obtain ⟨face, hface, rfl⟩ := Option.map_eq_some_iff.mp hremove
    have hne : ∀ other ∈ outstanding s, other ≠ id := fun other hother heq => hfree (heq ▸ hother)
    obtain ⟨hposted, hcallbacks⟩ := outstanding_all hne
    exact KiteCallbacks.Kept.removeFace h hface hposted hcallbacks
  | runPosted i =>
    simp only [step] at hstep
    split at hstep
    · cases hstep
    obtain ⟨call, hcall, rfl⟩ := Option.map_eq_some_iff.mp hstep
    have hface := h.posted call (List.mem_of_getElem? hcall)
    have hrun : RibManager.step system_clock s.ribManager
        (.slAnnounce call.pa call.inFaceId call.maxLifetime (some ⟨call.pa, call.inFaceId⟩)) = some _ := rfl
    refine { h with
      posted := fun other hother => h.posted other (List.mem_of_mem_eraseIdx hother)
      callbacks := step_callbacks h.callbacks ?_ hrun }
    intro callback hcallback update hupdate
    rw [List.mem_singleton.mp hcallback] at hupdate
    cases hupdate
    exact hface
  | rib event =>
    simp only [step] at hstep
    split at hstep
    · cases hstep
    split at hstep
    · rename_i hother
      obtain ⟨ribManager, hrib, rfl⟩ := Option.map_eq_some_iff.mp hstep
      refine { h with callbacks := step_callbacks h.callbacks ?_ hrib }
      intro callback hcallback update hupdate
      rw [hother callback hcallback] at hupdate
      cases hupdate
    · cases hstep

theorem Initial.kept (h : Initial s) : s.Kept := by
  have hnone : ∀ id ∈ outstanding s, False := by
    rw [h.noCall]
    rintro id ⟨⟩
  obtain ⟨hposted, hcallbacks⟩ := outstanding_all hnone
  refine ⟨h.ids, h.last, h.records, fun call hcall => (hposted call hcall).elim, ?_⟩
  exact hcallbacks.mono fun callback hcallback update hupdate => (hcallback update hupdate).elim

theorem safeCallback_of_kept (h : s.Kept) : SafeCallback pull s := by
  intro update res completions hcompletions
  have hface : (s.forwarder.m_faceTable.get update.inFaceId).isSome = true := by
    refine h.callbacks.completions (some update, res) ?_ update rfl
    rw [hcompletions]
    exact List.mem_cons_self
  obtain ⟨inFace, hinFace⟩ := Option.isSome_iff_exists.mp hface
  refine ⟨_, by rw [afterKiteUpdate, hinFace, Option.map_some], ?_, ?_⟩
  · intro send hsend
    split at hsend
    · rcases doPull_scheduled hsend with hold | hnew
      · exact Or.inl hold
      · exact Or.inr (hnew ▸ get_mem hinFace)
    · exact Or.inl hsend
  · intro hgone
    rw [hinFace] at hgone
    cases hgone

/-- Where no face is removed whose acknowledgments have callbacks that have not
run, every callback is safe. -/
theorem callbacks_safe (hinitial : Initial s) (hrun : Run (step pull system_clock) FaceUnawaited s s') :
    SafeCallback pull s' :=
  safeCallback_of_kept
    (hrun.invariant (fun _ _ _ hkept hfree hstep => step_kept hkept hfree hstep) hinitial.kept)

end SystemSteps

section Samples

def aliceAnnouncement : List UInt8 :=
  shortElement 6
    (shortElement 7 (shortElement 8 [97, 108, 105, 99, 101] ++ shortElement 32 [80, 65] ++ shortElement 8 [0xFD, 1] ++
        shortElement 8 [0, 0]) ++
      shortElement 20 (shortElement 24 [5]) ++ shortElement 21 (shortElement 109 [100]) ++
      shortElement 22 (shortElement 27 [0]) ++ shortElement 23 [])

def sampleTables : Tables (List Data) :=
  { pendingRequest with m_pit := pendingRequest.m_pit ++
      [⟨⟨[⟨8, [97, 108, 105, 99, 101]⟩, ⟨8, [1]⟩], false, none⟩, [⟨upstream, 6, 0, 1000⟩], [], false, 0, some 1000⟩] }

def sampleSystem : System (List Data) :=
  ⟨⟨⟨[upstream, downstream], 257⟩, sampleTables, []⟩, [], ⟨0, 0, true, ⟨[], 0, fun _ => []⟩, [], none, ⟨⟨0, [], [], []⟩, [], [], []⟩, [], [], [], []⟩⟩

def samplePull : Pull := ⟨true, fun pit namePrefix =>
  (pit.filter (fun entry => Name.isPrefixOf namePrefix entry.m_interest.m_name)).map (fun entry => [entry])⟩

def acknowledgedEvents : List (Event (List Data)) :=
  [.data forwarder upstream (answer aliceAnnouncement), .runPosted 0, .rib (.validation 0 true), .rib (.fibResponse 0 .success)]

def removedEvents : List (Event (List Data)) :=
  [.data forwarder upstream (answer aliceAnnouncement), .removeFace 257, .runPosted 0, .rib (.validation 0 true),
    .rib (.fibResponse 0 (.error FibCommands.ERROR_FACE_NOT_FOUND))]

theorem initial_sampleSystem : Initial sampleSystem := by
  refine ⟨?_, ?_, ?_, ?_⟩ <;> decide

theorem callbacks_safe_acknowledged :
    ∃ s', runOf (step samplePull id) FaceUnawaited sampleSystem acknowledgedEvents = some s' ∧
      s'.ribManager.completions.map (fun completion => (completion.1.map KiteUpdate.inFaceId, completion.2)) =
        [(some 257, .OK)] ∧ SafeCallback samplePull s' := by
  have hrun : (runOf (step samplePull id) FaceUnawaited sampleSystem acknowledgedEvents).map (fun s =>
      s.ribManager.completions.map (fun completion => (completion.1.map KiteUpdate.inFaceId, completion.2))) =
        some [(some 257, .OK)] := by decide
  obtain ⟨s', hs', hcompletions⟩ := Option.map_eq_some_iff.mp hrun
  exact ⟨s', hs', hcompletions, callbacks_safe initial_sampleSystem (Run.of_runOf hs')⟩

/-- The callback of an acknowledgment looks up the face that has gone. -/
theorem removed_face_dereferenced :
    ∃ s', Initial sampleSystem ∧ Run (step samplePull id) (fun _ _ => True) sampleSystem s' ∧
      ∃ update, s'.ribManager.completions = [(some update, .ERROR)] ∧
        afterKiteUpdate samplePull s'.ribManager.now update .ERROR s'.forwarder = none ∧ ¬ SafeCallback samplePull s' := by
  have hrun : (runOf (step samplePull id) (fun _ _ => True) sampleSystem removedEvents).map (fun s =>
      (s.ribManager.completions.map (fun completion => (completion.1.map KiteUpdate.inFaceId, completion.2)),
        s.forwarder.m_faceTable.get 257)) = some ([(some 257, .ERROR)], none) := by decide
  obtain ⟨s', hs', hend⟩ := Option.map_eq_some_iff.mp hrun
  obtain ⟨hmap, hgone⟩ := Prod.mk.inj hend
  obtain ⟨completion, hcompletions, hcompletion⟩ := List.map_eq_singleton_iff.mp hmap
  obtain ⟨hupdate, hres⟩ := Prod.mk.inj hcompletion
  obtain ⟨update, hsome, hid⟩ := Option.map_eq_some_iff.mp hupdate
  have hlist : s'.ribManager.completions = [(some update, .ERROR)] := by
    rw [hcompletions, ← hsome, ← hres]
  have hnone : afterKiteUpdate samplePull s'.ribManager.now update .ERROR s'.forwarder = none := by
    rw [afterKiteUpdate, hid, hgone]
    rfl
  refine ⟨s', initial_sampleSystem, Run.of_runOf hs', update, hlist, hnone, ?_⟩
  intro hsafe
  obtain ⟨forwarder, hforwarder, -⟩ := hsafe update .ERROR [] hlist
  rw [hnone] at hforwarder
  cases hforwarder

end Samples

end LeoNdn.KiteCallbacks
