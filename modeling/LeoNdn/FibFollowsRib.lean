import LeoNdn.ComputedUpdates
import LeoNdn.FibErasure

/-!
The FIB follows the RIB in every run whose batches are right.
-/

namespace LeoNdn.FibFollowsRib

open LeoNdn.NdnPacket LeoNdn.RibTable LeoNdn.FibUpdater LeoNdn.Inheritance LeoNdn.RibTree
open LeoNdn.FibChanges LeoNdn.RibTraversal LeoNdn.RouteInheritance LeoNdn.RouteChanges LeoNdn.FibSync LeoNdn.FibCases
open LeoNdn.FibErasure LeoNdn.ComputedUpdates LeoNdn.Runs

section Batches

variable {rib : Rib}

def KeepsBatch (f : Updates → Updates) : Prop := ∀ updates, (f updates).m_batchFaceId = updates.m_batchFaceId

theorem batchFaceId_kept (face : ℕ) : Kept (fun updates => updates.m_batchFaceId = face) where
  addFibUpdate updates update h := by
    unfold Updates.addFibUpdate
    split <;> exact h
  inheritedRoutes _ _ h := h

theorem keepsBatch_unregistration (update : RibUpdate) : KeepsBatch (computeUpdatesForUnregistration rib update) :=
  fun updates => (batchFaceId_kept updates.m_batchFaceId).computeUpdatesForUnregistration rib update rfl

end Batches

section Runs

variable {s s' : State}

/-- The RIB update of a batch is one of those that the updater treats right. -/
def UpdateRight (s : State) (update : RibUpdate) : Prop :=
  match s.m_rib.find update.name with
  | none => update.action = .REGISTER → NewEntryRight s update.name update.route
  | some entry =>
    match entry.findRoute update.route with
    | none => update.action = .REGISTER → NewRouteRight s update.name entry update.route
    | some existing =>
      if update.action = .REGISTER then UpdatedRouteRight s update.name entry update.route existing
      else ErasedRight s update.name entry update.route existing ∧
        ErasedBelowRight s update.name entry update.route existing

def Right (s : State) : Event → Prop
  | .sendBatchFromQueue => ∀ update ∈ s.m_updateBatches.head?, UpdateRight s update
  | _ => True

theorem Consistent.queue (h : Consistent s) {batches : List RibUpdate}
    (hbatches : ∀ update ∈ batches, update.action = .REMOVE_FACE → update.route.faceId ∈ s.removedFaces) :
    Consistent { s with m_updateBatches := batches } :=
  ⟨h.tree, h.unique, h.counted, h.follows, h.recorded, hbatches⟩

theorem Consistent.push (h : Consistent s) {update : RibUpdate}
    (hupdate : update.action = .REMOVE_FACE → update.route.faceId ∈ s.removedFaces) :
    Consistent (addUpdateToQueue update s) := by
  refine Consistent.queue h fun other hother => ?_
  rcases List.mem_append.mp hother with hother | hother
  · exact h.removals other hother
  · rw [List.mem_singleton.mp hother]
    exact hupdate

theorem consistent_initial : Consistent initial := by
  refine ⟨⟨List.nodup_nil, ⟨fun _ => List.nodup_nil, ?_⟩, ?_⟩, fun _ => List.Pairwise.nil, ?_, ?_, ?_, ?_⟩
  · intro name child
    exact iff_of_false List.not_mem_nil (Option.some_ne_none _).symm
  · intro name parent hparent
    cases hparent
  · intro name entry hfind
    cases hfind
  · intro name face
    rfl
  · intro face hface name hcost hsome
    cases hsome
  · intro update hupdate
    cases hupdate

theorem Consistent.destroyFace (h : Consistent s) (face : ℕ) : Consistent { s with
    removedFaces := face :: s.removedFaces,
    nextHops := fun name f => if f = face then none else s.nextHops name f } := by
  refine ⟨h.tree, h.unique, h.counted, ?_, ?_, ?_⟩
  · intro name f
    dsimp only
    by_cases hf : f = face
    · rw [if_pos hf, if_pos (by rw [hf]; exact List.mem_cons_self)]
    · rw [if_neg hf, h.follows]
      simp only [List.mem_cons, hf, false_or]
  · intro f hf name hcost hsome
    dsimp only at hsome
    rw [List.mem_cons, not_or] at hf
    rw [if_neg hf.1] at hsome
    exact h.recorded f hf.2 name hcost hsome
  · intro update hupdate haction
    exact List.mem_cons_of_mem face (h.removals update hupdate haction)

theorem Consistent.beginRemoveFace (h : Consistent s) {face : ℕ} (hface : face ∈ s.removedFaces)
    {routes : List (Name × Route)} (hroutes : ∀ nameAndRoute ∈ routes, nameAndRoute.2.faceId = face) :
    Consistent (routes.foldl (fun s nameAndRoute =>
      addUpdateToQueue ⟨.REMOVE_FACE, nameAndRoute.1, nameAndRoute.2⟩ s) s) := by
  induction routes generalizing s with
  | nil => exact h
  | cons nameAndRoute routes ih =>
    refine ih (Consistent.push h fun _ => ?_) hface fun other hother => hroutes other (List.mem_cons_of_mem _ hother)
    dsimp only
    rw [hroutes nameAndRoute List.mem_cons_self]
    exact hface

theorem findRoutesWithFaceId_face {rib : Rib} {face : ℕ} {nameAndRoute : Name × Route}
    (h : nameAndRoute ∈ rib.findRoutesWithFaceId face) : nameAndRoute.2.faceId = face := by
  unfold Rib.findRoutesWithFaceId at h
  obtain ⟨name, -, h⟩ := List.mem_flatMap.mp h
  split at h
  · cases h
  · obtain ⟨route, hroute, rfl⟩ := List.mem_map.mp h
    simpa using (List.mem_filter.mp hroute).2

theorem accept_counted {entry : RibEntry} {route : Route}
    (hcount : entry.m_nRoutesWithCaptureSet = entry.m_routes.countP Route.isRibCapture)
    (hcapture : ∀ existing, entry.findRoute route = some existing →
      UniqueRoutes entry.m_routes ∧ route.isRibCapture = existing.isRibCapture) :
    (entry.accept route).m_nRoutesWithCaptureSet = (entry.accept route).m_routes.countP Route.isRibCapture := by
  unfold RibEntry.accept
  cases hfind : entry.findRoute route with
  | none =>
    rw [Option.isNone_none, if_pos rfl, RibEntry.insertRoute, hfind, Option.isSome_none, if_neg Bool.false_ne_true]
    dsimp only
    rw [List.countP_append, hcount, List.countP_singleton]
  | some existing =>
    obtain ⟨hunique, hsame⟩ := hcapture existing hfind
    rw [Option.isNone_some, if_neg Bool.false_ne_true]
    refine hcount.trans ?_
    change _ = (entry.m_routes.map (fun r => if compareFaceIdAndOrigin r route = true then route else r)).countP
      Route.isRibCapture
    rw [List.countP_map]
    refine List.countP_congr fun r hr => ?_
    rw [Function.comp_apply]
    split
    · rename_i hcompare
      rcases (mem_of_key hunique hfind).mp hr with heq | hother
      · rw [heq, hsame]
      · exact absurd hcompare (mem_others.mp hother).2
    · rfl

theorem counted_insert {rib : Rib} (h : Counted rib) {name : Name} {route : Route}
    (hcapture : ∀ entry existing, rib.find name = some entry → entry.findRoute route = some existing →
      UniqueRoutes entry.m_routes ∧ route.isRibCapture = existing.isRibCapture) : Counted (rib.insert name route) := by
  intro d entry hfind
  have hinsert := find_insert counts_ignoreLinks rib name route d
  rw [hfind, Option.map_some] at hinsert
  split at hinsert
  · have hcount : (((rib.find name).getD (emptyEntry name)).accept route).m_nRoutesWithCaptureSet =
        (((rib.find name).getD (emptyEntry name)).accept route).m_routes.countP Route.isRibCapture := by
      cases hold : rib.find name with
      | none =>
        refine accept_counted rfl fun existing hexisting => ?_
        cases hexisting
      | some old => exact accept_counted (h name old hold) fun existing => hcapture old existing hold
    rw [Option.some_inj, counts, counts, Prod.mk.injEq] at hinsert
    rw [hinsert.1, hinsert.2, hcount]
  · rw [eq_comm, Option.map_eq_some_iff] at hinsert
    obtain ⟨old, hold, heq⟩ := hinsert
    have hcount := h d old hold
    rw [counts, counts, Prod.mk.injEq] at heq
    rw [← heq.1, ← heq.2, hcount]

theorem erase_of_no_route {rib : Rib} {name : Name} {route : Route}
    (h : (rib.find name).bind (·.findRoute route) = none) :
    rib.erase name route = rib := by
  unfold Rib.erase
  cases hfind : rib.find name with
  | none => rfl
  | some entry =>
    rw [hfind, Option.bind_some] at h
    dsimp only
    rw [h, Option.isNone_none, if_pos rfl]

theorem updateRib_erase {rib : Rib} {update : RibUpdate} (haction : update.action ≠ .REGISTER) :
    updateRib update rib = rib.erase update.name update.route := by
  unfold updateRib
  split
  · rename_i heq
    exact absurd heq haction
  · rfl

theorem settles_registration (h : Consistent s) {update : RibUpdate} (haction : update.action = .REGISTER)
    (hright : UpdateRight s update) {updates : Updates} (hupdates :
      computeUpdatesForRegistration s.m_rib update ⟨update.route.faceId, [], [], []⟩ = some updates) :
    (∃ own add remove, Settles s update updates own add remove) ∧ Counted (updateRib update s.m_rib) := by
  obtain ⟨action, name, route⟩ := update
  dsimp only at haction hright hupdates
  subst haction
  have hupdate : updateRib ⟨.REGISTER, name, route⟩ s.m_rib = s.m_rib.insert name route := rfl
  rw [hupdate]
  unfold computeUpdatesForRegistration at hupdates
  unfold UpdateRight at hright
  dsimp only at hupdates hright
  cases hfind : s.m_rib.find name with
  | none =>
    rw [hfind] at hupdates hright
    cases hupdates
    refine ⟨settles_newEntry h hfind (hright rfl) fun child => mem_newChildren h.tree hfind, ?_⟩
    refine counted_insert h.counted fun entry existing hentry => ?_
    rw [hfind] at hentry
    cases hentry
  | some entry =>
    rw [hfind] at hupdates hright
    dsimp only at hupdates hright
    have hunique := routesOf_updated h.unique hfind
    cases hkey : entry.findRoute route with
    | none =>
      rw [hkey] at hupdates hright
      cases hupdates
      refine ⟨settles_newRoute h hfind hkey (hright rfl), ?_⟩
      refine counted_insert h.counted fun other existing hother hexisting => ?_
      rw [hfind] at hother
      cases hother
      rw [hkey] at hexisting
      cases hexisting
    | some existing =>
      rw [hkey] at hupdates hright
      dsimp only at hupdates hright
      rw [if_pos rfl] at hright
      refine ⟨settles_updatedRoute h hfind hkey hright hupdates, ?_⟩
      refine counted_insert h.counted fun other found hother hfound => ⟨?_, ?_⟩
      · rw [hfind] at hother
        cases hother
        exact hunique
      · rw [hfind] at hother
        cases hother
        rw [hkey] at hfound
        cases hfound
        rcases hright with ⟨hflags, -⟩ | ⟨hcapture, -⟩
        · rw [Route.isRibCapture, Route.isRibCapture, hflags]
        · exact hcapture

theorem step_unregistration (h : Consistent s) {update : RibUpdate} {batches : List RibUpdate}
    (hqueue : s.m_updateBatches = update :: batches) (haction : update.action ≠ .REGISTER)
    (hright : UpdateRight s update) {updates : Updates}
    (hupdates : updates = computeUpdatesForUnregistration s.m_rib update ⟨update.route.faceId, [], [], []⟩ ∨
      updates = { computeUpdatesForUnregistration s.m_rib update ⟨update.route.faceId, [], [], []⟩ with
        m_updatesForBatchFaceId := [] } ∧ update.route.faceId ∈ s.removedFaces)
    (hsucceeds : (updates.m_updatesForBatchFaceId ++ updates.m_updatesForNonBatchFaceId).all (succeeds s) = true) :
    Consistent (applyBatch update updates { s with m_updateBatches := batches }) := by
  have hbatches : ∀ other ∈ batches, other ∈ s.m_updateBatches := by
    intro other hother
    rw [hqueue]
    exact List.mem_cons_of_mem update hother
  by_cases hroute : (s.m_rib.find update.name).bind (·.findRoute update.route) = none
  · have hnone : computeUpdatesForUnregistration s.m_rib update ⟨update.route.faceId, [], [], []⟩ =
        ⟨update.route.faceId, [], [], []⟩ := by
      unfold computeUpdatesForUnregistration
      cases hfind : s.m_rib.find update.name with
      | none => rfl
      | some entry =>
        rw [hfind, Option.bind_some] at hroute
        dsimp only
        rw [hroute]
    have hempty : updates = ⟨update.route.faceId, [], [], []⟩ := by
      rw [hnone] at hupdates
      rcases hupdates with heq | ⟨heq, -⟩
      · exact heq
      · exact heq
    have hsame : applyBatch update updates { s with m_updateBatches := batches } = { s with m_updateBatches := batches } := by
      rw [hempty, applyBatch, updateRib_erase haction, erase_of_no_route hroute]
      rfl
    rw [hsame]
    exact Consistent.queue h fun other hother => h.removals other (hbatches other hother)
  · obtain ⟨existing, hexisting⟩ := Option.ne_none_iff_exists'.mp hroute
    obtain ⟨entry, hfind, hkey⟩ := Option.bind_eq_some_iff.mp hexisting
    rw [UpdateRight, hfind] at hright
    dsimp only at hright
    rw [hkey] at hright
    dsimp only at hright
    rw [if_neg haction] at hright
    obtain ⟨own, add, remove, hsettles⟩ := settles_erasedRoute h haction hfind hkey hright.1 hright.2
    have hcounted : Counted (updateRib update s.m_rib) := by
      rw [updateRib_erase haction]
      exact counted_erase h.counted update.name update.route
    refine h.settle hsettles ?_ hsucceeds hcounted hbatches
    rcases hupdates with heq | ⟨heq, hremoved⟩
    · exact Or.inl heq
    · refine Or.inr ⟨heq, ?_⟩
      rw [keepsBatch_unregistration]
      exact hremoved

theorem consistent_step (event : Event) (h : Consistent s) (hright : Right s event)
    (hstep : FibSync.step s event = some s') :
    Consistent s' := by
  cases event with
  | registerEntry name route =>
    cases hstep
    exact Consistent.push h (by rintro ⟨⟩)
  | unregisterEntry name route =>
    cases hstep
    exact Consistent.push h (by rintro ⟨⟩)
  | faceDestroyed face =>
    cases hstep
    exact Consistent.destroyFace h face
  | beginRemoveFace face =>
    rw [FibSync.step] at hstep
    split at hstep
    · rename_i hface
      cases hstep
      exact Consistent.beginRemoveFace h hface fun nameAndRoute => findRoutesWithFaceId_face
    · cases hstep
  | sendBatchFromQueue =>
    rw [FibSync.step] at hstep
    cases hqueue : s.m_updateBatches with
    | nil =>
      rw [hqueue] at hstep
      cases hstep
    | cons update batches =>
      rw [hqueue] at hstep
      dsimp only at hstep
      obtain ⟨updates, hupdates, hrest⟩ := Option.bind_eq_some_iff.mp hstep
      split at hrest
      · rename_i hsucceeds
        cases hrest
        have hupdateRight : UpdateRight s update := hright update (by rw [hqueue]; rfl)
        unfold computeUpdates at hupdates
        cases haction : update.action with
        | REGISTER =>
          rw [haction] at hupdates
          obtain ⟨⟨own, add, remove, hsettles⟩, hcounted⟩ := settles_registration h haction hupdateRight hupdates
          refine h.settle hsettles (Or.inl rfl) hsucceeds hcounted fun other hother => ?_
          rw [hqueue]
          exact List.mem_cons_of_mem update hother
        | UNREGISTER =>
          rw [haction] at hupdates
          cases hupdates
          exact step_unregistration h hqueue (by rw [haction]; rintro ⟨⟩) hupdateRight (Or.inl rfl) hsucceeds
        | REMOVE_FACE =>
          rw [haction] at hupdates
          cases hupdates
          refine step_unregistration h hqueue (by rw [haction]; rintro ⟨⟩) hupdateRight (Or.inr ⟨rfl, ?_⟩) hsucceeds
          refine h.removals update ?_ haction
          rw [hqueue]
          exact List.mem_cons_self
      · cases hrest

end Runs

section Examples

def routeOf (faceId origin cost flags : ℕ) : Route := ⟨faceId, origin, cost, flags, none, none, 0, none⟩

def nameA : Name := [⟨8, [97]⟩]

def nameAB : Name := [⟨8, [97]⟩, ⟨8, [98]⟩]

end Examples

end LeoNdn.FibFollowsRib
