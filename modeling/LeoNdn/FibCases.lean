import LeoNdn.FibSync

/-!
The batches that leave the FIB as the RIB asks for: the conditions under which a
route that is registered or unregistered is one of them.
-/

namespace LeoNdn.FibCases

open LeoNdn.NdnPacket LeoNdn.RibTable LeoNdn.FibUpdater LeoNdn.Inheritance LeoNdn.RibTree
open LeoNdn.FibChanges LeoNdn.RibTraversal LeoNdn.RouteInheritance LeoNdn.RouteChanges LeoNdn.FibSync

section Conditions

variable (s : State) (name : Name)

/-- The first route of a name. A route that captures meets no stale records on
the faces that it stops; another one finds the cheapest routes of its ancestors. -/
def NewEntryRight (route : Route) : Prop :=
  if route.isRibCapture = true then
    ∀ face, face ∉ s.removedFaces → passedDown s.m_rib name face ≠ none → ¬ StaleBelow s.m_rib name face
  else
    ∀ face, face ∉ s.removedFaces → face ≠ route.faceId →
      costOn (s.m_rib.getAncestorRoutesOfName name) face = passedDown s.m_rib name face

/-- A further route, which is the first to capture: on the faces that it stops
the entry has no routes that would have to stay. -/
def NewRouteRight (entry : RibEntry) (route : Route) : Prop :=
  captures entry.m_routes = false → route.isRibCapture = true →
    ∀ face, face ∉ s.removedFaces → passedDown s.m_rib name face ≠ none →
      ¬ StaleBelow s.m_rib name face ∧
      (entry.hasFaceId face = true → inheritsFace entry face = true → face = route.faceId ∧
        isLowest route (entry.getRouteWithLowestCostByFaceId face) = true) ∧
      (PassesTo s.m_rib name face → childInheritCost entry.m_routes face ≠ none →
        face = route.faceId ∧ route.isChildInherit = true ∧
        isLowest route (entry.getRouteWithLowestCostAndChildInheritByFaceId face) = true)

/-- A route that is given other flags or another cost. It captures as before;
where it was the cheapest route of its face and is not any more, the cheapest one
is passed down; and what the entry passes down is not less than before, unless
the updater sees to it. -/
def UpdatedRouteRight (entry : RibEntry) (route existing : Route) : Prop :=
  (route.flags = existing.flags ∧ route.cost = existing.cost) ∨
    route.isRibCapture = existing.isRibCapture ∧ (route.faceId ∉ s.removedFaces →
      (∀ cost, ownCost (insertInto route entry.m_routes) route.faceId = some cost → existing.cost < cost →
        cost < route.cost → childInheritCost (insertInto route entry.m_routes) route.faceId = some cost) ∧
      (existing.isChildInherit = true → route.isChildInherit = false →
        ¬ StaleBelow s.m_rib name route.faceId ∧
        (PassesTo s.m_rib name route.faceId → childInheritCost (insertInto route entry.m_routes) route.faceId = none →
          costOn (s.m_rib.getAncestorRoutes entry) route.faceId =
            if captures entry.m_routes = true then none else passedDown s.m_rib name route.faceId)) ∧
      (existing.isChildInherit = true → route.isChildInherit = true → PassesTo s.m_rib name route.faceId →
        (route.flags = existing.flags ∧
            childInheritCost (insertInto route entry.m_routes) route.faceId = some route.cost) ∨
          childInheritCost (insertInto route entry.m_routes) route.faceId =
            childInheritCost entry.m_routes route.faceId))

end Conditions

section NewEntry

variable {s : State} {name : Name} {route : Route}

theorem mem_newChildren (htree : Tree s.m_rib) (hnew : s.m_rib.find name = none) {child : Name} :
    child ∈ (((s.m_rib.findDescendantsForNonInsertedName name).filter (fun child =>
      child.m_parent = (s.m_rib.findParent name).map RibEntry.m_name)).map RibEntry.m_name) ↔
        Below (Mem s.m_rib) name child := by
  have hfresh : ¬ Mem s.m_rib name := by
    rw [Mem, hnew]
    exact Bool.false_ne_true
  have hparent := findParent_isParent s.m_rib name
  rw [List.mem_map]
  constructor
  · rintro ⟨entry, hentry, rfl⟩
    rw [List.mem_filter, decide_eq_true_eq, Rib.findDescendantsForNonInsertedName, List.mem_filter,
      List.isPrefixOf_iff_prefix] at hentry
    obtain ⟨⟨hmem, hinit⟩, heq⟩ := hentry
    have hfind := (find_eq_some htree.nodup).mpr ⟨hmem, rfl⟩
    have hmem : Mem s.m_rib entry.m_name := by
      rw [Mem, hfind]
      rfl
    refine (below_iff_isParent hfresh hparent hmem ⟨hinit, fun h => hfresh (h ▸ hmem)⟩).mpr ?_
    rw [← heq]
    exact htree.parent _ _ (by rw [parentOf, hfind]; rfl)
  · intro hbelow
    obtain ⟨entry, hfind⟩ := Option.isSome_iff_exists.mp hbelow.2.1
    have hname := find_name hfind
    have hchild := (below_iff_isParent hfresh hparent hbelow.2.1 hbelow.1).mp hbelow
    have hold := htree.parent child entry.m_parent (by rw [parentOf, hfind]; rfl)
    refine ⟨entry, ?_, hname⟩
    rw [List.mem_filter, decide_eq_true_eq, Rib.findDescendantsForNonInsertedName, List.mem_filter,
      List.isPrefixOf_iff_prefix, hname]
    exact ⟨⟨List.mem_of_find?_eq_some hfind, hbelow.1.1⟩, hold.unique hchild⟩

theorem costs_singleton (p : Route → Bool) (route : Route) :
    leastCost p [route] = if p route = true then some route.cost else none := by
  refine (leastCost_with fun other => ?_ : _ = withRoute p route (leastCost p [])).trans ?_
  · rw [List.mem_singleton, or_iff_left List.not_mem_nil]
  · rfl

theorem ownCost_singleton (route : Route) (face : ℕ) :
    ownCost [route] face = if face = route.faceId then some route.cost else none := by
  rw [ownCost, costs_singleton, if_congr (isOn_iff.trans eq_comm) rfl rfl]

theorem childInheritCost_singleton (route : Route) (face : ℕ) : childInheritCost [route] face =
    if face = route.faceId ∧ route.isChildInherit = true then some route.cost else none := by
  rw [childInheritCost, costs_singleton, if_congr (isInheritedOn_iff.trans (and_congr_left' eq_comm)) rfl rfl]

theorem costOn_singleton (route : Route) (face : ℕ) :
    costOn [route] face = if face = route.faceId then some route.cost else none := by
  rw [costOn_cons, if_congr eq_comm rfl rfl]
  rfl

theorem onFace_iff_passedDown {rib : Rib} {routes : List Route} {face : ℕ}
    (h : onFace routes face = (passedDown rib name face).isSome) :
    onFace routes face = true ↔ passedDown rib name face ≠ none := by
  rw [h, Option.ne_none_iff_isSome]

theorem find_insert_new {rib : Rib} (hnew : rib.find name = none) (route : Route) :
    ((rib.insert name route).find name).isSome = true ∧ (rib.insert name route).routesOf name = [route] := by
  have hroutes := find_insert routes_ignoreLinks rib name route name
  rw [if_pos rfl, hnew] at hroutes
  constructor
  · rw [← Option.isSome_map (f := RibEntry.m_routes), hroutes, Option.isSome_some]
  · rw [Rib.routesOf, hroutes, accept_routes]
    rfl

theorem nextHops_new (h : Consistent s) (hnew : s.m_rib.find name = none) {face : ℕ} (hface : face ∉ s.removedFaces) :
    s.nextHops name face = none := by
  rw [h.follows, if_neg hface, expected, hnew]
  rfl

theorem captures_singleton (route : Route) : captures [route] = route.isRibCapture := by
  rw [captures, List.any_cons, List.any_nil, Bool.or_false]

theorem nextHopCost_singleton (route : Route) (face : ℕ) (above : Option ℕ) : nextHopCost [route] face above =
    if face = route.faceId then some route.cost else if route.isRibCapture = true then none else above := by
  rw [nextHopCost, ownCost_singleton, captures_singleton]
  split
  · exact Option.some_or
  · exact Option.none_or

theorem passedOn_singleton (route : Route) (face : ℕ) (above : Option ℕ) : passedOn [route] face above =
    if face = route.faceId ∧ route.isChildInherit = true then some route.cost
    else if route.isRibCapture = true then none else above := by
  rw [passedOn, childInheritCost_singleton, captures_singleton]
  split
  · exact Option.some_or
  · exact Option.none_or

theorem settles_new (hnew : s.m_rib.find name = none) {updates : Updates} {own : ℕ → Option ℕ × Bool}
    {add : ℕ → Option ℕ} {remove : ℕ → Bool} (hchanges : Changes s.m_rib name (table s) updates own add remove)
    (hown : ∀ face, face ∉ s.removedFaces → (own face).1 =
      if face = route.faceId then some route.cost
      else if route.isRibCapture = true then none else passedDown s.m_rib name face)
    (hrecorded : ∀ face, face ≠ route.faceId → (own face).1.isSome = true → face ∉ s.removedFaces → (own face).2 = true)
    (hadd : ∀ face, face ∉ s.removedFaces →
      (add face).or (if remove face = true then none else passedDown s.m_rib name face) =
        if face = route.faceId ∧ route.isChildInherit = true then some route.cost
        else if route.isRibCapture = true then none else passedDown s.m_rib name face)
    (hremove : ∀ face, face ∉ s.removedFaces → remove face = true → ¬ StaleBelow s.m_rib name face) :
    Settles s ⟨.REGISTER, name, route⟩ updates own add remove := by
  obtain ⟨hsome, hroutes⟩ := find_insert_new hnew route
  have hupdate : updateRib ⟨.REGISTER, name, route⟩ s.m_rib = s.m_rib.insert name route := rfl
  refine ⟨hchanges, ?_, ?_, ?_, hremove⟩
  · intro face hface
    rw [hupdate, if_pos hsome, hroutes, nextHopCost_singleton]
    exact hown face hface
  · intro face hface hcost hnext
    rw [hupdate, hroutes, ownCost_singleton] at hcost
    refine hrecorded face ?_ hnext hface
    rintro rfl
    rw [if_pos rfl] at hcost
    cases hcost
  · intro face hface _
    rw [hupdate, hroutes, passedOn_singleton, passedFrom, routesOf_none hnew, passedOn_nil]
    exact hadd face hface

theorem nodup_singleton_face (route : Route) : ([route].map Route.faceId).Nodup := List.nodup_singleton route.faceId

/-- A capturing route records itself and stops what its ancestors passed down. -/
theorem settles_capturingEntry (h : Consistent s) (hnew : s.m_rib.find name = none) (hcapture : route.isRibCapture = true)
    (hright : ∀ face, face ∉ s.removedFaces → passedDown s.m_rib name face ≠ none → ¬ StaleBelow s.m_rib name face)
    {children : List Name} (hchildren : ∀ child, child ∈ children ↔ Below (Mem s.m_rib) name child) :
    ∃ own add remove, Settles s ⟨.REGISTER, name, route⟩
      (createFibUpdatesForNewRibEntry s.m_rib name route children ⟨route.faceId, [], [], []⟩) own add remove := by
  obtain ⟨-, hfaces⟩ := getAncestorRoutesOfName_spec h.tree h.counted name
  have hadded := (changes_none s.m_rib name (table s) route.faceId).addFibUpdate
    (.createAddUpdate name route.faceId route.cost) rfl
  have hnone : ∀ face, face ∉ s.removedFaces → (table s name face).1 = none := fun face => nextHops_new h hnew
  have hown : ∀ face, face ∉ s.removedFaces → (setNextHop (table s name) route.faceId (some route.cost) face).1 =
      if face = route.faceId then some route.cost
      else if route.isRibCapture = true then none else passedDown s.m_rib name face := by
    intro face hface
    rw [setNextHop, if_pos hcapture]
    split
    · rfl
    · exact hnone face hface
  have hrecorded : ∀ face, face ≠ route.faceId →
      (setNextHop (table s name) route.faceId (some route.cost) face).1.isSome = true → face ∉ s.removedFaces →
        (setNextHop (table s name) route.faceId (some route.cost) face).2 = true := by
    intro face hne hsome hface
    rw [setNextHop_other hne, hnone face hface] at hsome
    cases hsome
  have hstopped : ∀ face, (if onFace (s.m_rib.getAncestorRoutesOfName name) face = true then none
      else passedDown s.m_rib name face) = none := by
    intro face
    rw [hfaces]
    cases passedDown s.m_rib name face <;> rfl
  have hremoved : ∀ face, face ∉ s.removedFaces → onFace (s.m_rib.getAncestorRoutesOfName name) face = true →
      ¬ StaleBelow s.m_rib name face := by
    intro face hface hon
    exact hright face hface ((onFace_iff_passedDown (hfaces face)).mp hon)
  unfold createFibUpdatesForNewRibEntry
  by_cases hinherit : route.isChildInherit = true
  · have htraversed := hadded.traverse h.tree hchildren [route] (s.m_rib.getAncestorRoutesOfName name)
      (nodup_singleton_face route)
    simp only [hinherit, hcapture, Bool.not_true, Bool.and_true, Bool.false_and, Bool.false_eq_true,
      if_false, if_true]
    refine ⟨_, _, _, settles_new hnew htraversed hown hrecorded ?_ hremoved⟩
    intro face hface
    rw [hstopped, costOn_singleton, if_pos hcapture]
    simp only [hinherit, and_true, Option.or_none]
  · have htraversed := hadded.traverse h.tree hchildren [] (s.m_rib.getAncestorRoutesOfName name) List.nodup_nil
    simp only [hinherit, hcapture, Bool.not_true, Bool.and_true, Bool.and_false, Bool.false_eq_true, if_false]
    refine ⟨_, _, _, settles_new hnew htraversed hown hrecorded ?_ hremoved⟩
    intro face hface
    rw [hstopped, if_pos hcapture, if_neg fun hall => hinherit hall.2]
    rfl

/-- A route that does not capture joins what its ancestors pass down on the other faces. -/
theorem settles_joiningEntry (h : Consistent s) (hnew : s.m_rib.find name = none) (hcapture : ¬ route.isRibCapture = true)
    (hright : ∀ face, face ∉ s.removedFaces → face ≠ route.faceId →
      costOn (s.m_rib.getAncestorRoutesOfName name) face = passedDown s.m_rib name face)
    {children : List Name} (hchildren : ∀ child, child ∈ children ↔ Below (Mem s.m_rib) name child) :
    ∃ own add remove, Settles s ⟨.REGISTER, name, route⟩
      (createFibUpdatesForNewRibEntry s.m_rib name route children ⟨route.faceId, [], [], []⟩) own add remove := by
  obtain ⟨hsorted, -⟩ := getAncestorRoutesOfName_spec h.tree h.counted name
  have hadded := (changes_none s.m_rib name (table s) route.faceId).addFibUpdate
    (.createAddUpdate name route.faceId route.cost) rfl
  have hinherited := hadded.inheritAll (fun face => face = route.faceId) _ hsorted.nodup
  have hnone : ∀ face, face ∉ s.removedFaces → (table s name face).1 = none := fun face => nextHops_new h hnew
  have hvalue : ∀ face, face ∉ s.removedFaces →
      (inheriting (setNextHop (table s name) route.faceId (some route.cost)) (fun face => face = route.faceId)
        (s.m_rib.getAncestorRoutesOfName name) face).1 =
      if face = route.faceId then some route.cost
      else if route.isRibCapture = true then none else passedDown s.m_rib name face := by
    intro face hface
    rw [if_neg hcapture]
    by_cases hne : face = route.faceId
    · rw [inheriting_skip (fun face => face = route.faceId) hne, if_pos hne, hne, setNextHop_self]
    · rw [(inheriting_of_not_skip (fun face => face = route.faceId) hne _ _).1, setNextHop_other hne, hnone face hface,
        Option.or_none, if_neg hne, hright face hface hne]
  have hrecorded : ∀ face, face ≠ route.faceId →
      (inheriting (setNextHop (table s name) route.faceId (some route.cost)) (fun face => face = route.faceId)
        (s.m_rib.getAncestorRoutesOfName name) face).1.isSome = true → face ∉ s.removedFaces →
      (inheriting (setNextHop (table s name) route.faceId (some route.cost)) (fun face => face = route.faceId)
        (s.m_rib.getAncestorRoutesOfName name) face).2 = true := by
    intro face hne hsome hface
    obtain ⟨hnext, hrecord, hkept⟩ := inheriting_of_not_skip (fun face => face = route.faceId) hne
      (setNextHop (table s name) route.faceId (some route.cost)) (s.m_rib.getAncestorRoutesOfName name)
    rw [hnext, setNextHop_other hne, hnone face hface, Option.or_none] at hsome
    exact hrecord hsome
  unfold createFibUpdatesForNewRibEntry
  by_cases hinherit : route.isChildInherit = true
  · have htraversed := hinherited.traverse h.tree hchildren
      (RouteSet.insert route (RouteSet.erase (s.m_rib.getAncestorRoutesOfName name) route.faceId)) []
      ((hsorted.erase route.faceId).insert route).nodup
    simp only [hinherit, hcapture, Bool.not_true, Bool.and_false, Bool.false_and, Bool.false_eq_true, if_false, if_true]
    refine ⟨_, _, _, settles_new hnew htraversed hvalue hrecorded ?_ fun _ _ hon => absurd hon Bool.false_ne_true⟩
    intro face hface
    rw [costOn_insert (hsorted.erase route.faceId), costOn_erase, if_neg hcapture]
    by_cases hne : face = route.faceId
    · rw [if_pos hne, if_pos hne.symm, if_pos (And.intro hne hinherit), Option.none_or, Option.some_or]
    · have hnot : ¬ (face = route.faceId ∧ route.isChildInherit = true) := fun hall => hne hall.1
      rw [if_neg hne, if_neg (Ne.symm hne), if_neg hnot, Option.or_none, hright face hface hne]
      change (passedDown s.m_rib name face).or (passedDown s.m_rib name face) = _
      exact Option.or_self
  · simp only [hinherit, hcapture, Bool.not_false, Bool.and_true, if_true]
    refine ⟨_, _, _, settles_new hnew hinherited hvalue hrecorded ?_ fun _ _ hon => absurd hon Bool.false_ne_true⟩
    intro face hface
    have hnot : ¬ (face = route.faceId ∧ route.isChildInherit = true) := fun hall => hinherit hall.2
    rw [if_neg hnot, if_neg hcapture]
    rfl

theorem settles_newEntry (h : Consistent s) (hnew : s.m_rib.find name = none) (hright : NewEntryRight s name route)
    {children : List Name} (hchildren : ∀ child, child ∈ children ↔ Below (Mem s.m_rib) name child) :
    ∃ own add remove, Settles s ⟨.REGISTER, name, route⟩
      (createFibUpdatesForNewRibEntry s.m_rib name route children ⟨route.faceId, [], [], []⟩) own add remove := by
  unfold NewEntryRight at hright
  split at hright
  · rename_i hcapture
    exact settles_capturingEntry h hnew hcapture hright hchildren
  · rename_i hcapture
    exact settles_joiningEntry h hnew hcapture hright hchildren

end NewEntry

section NewRoute

variable {s : State} {name : Name} {route : Route} {entry : RibEntry}

theorem find_insert_existing {rib : Rib} (hfind : rib.find name = some entry) (route : Route) :
    ((rib.insert name route).find name).isSome = true ∧
      (rib.insert name route).routesOf name = insertInto route entry.m_routes := by
  have hroutes := find_insert routes_ignoreLinks rib name route name
  rw [if_pos rfl, hfind, Option.getD_some, accept_routes] at hroutes
  constructor
  · rw [← Option.isSome_map (f := RibEntry.m_routes), hroutes, Option.isSome_some]
  · rw [Rib.routesOf, hroutes]
    rfl

theorem table_existing (h : Consistent s) (hfind : s.m_rib.find name = some entry) {face : ℕ}
    (hface : face ∉ s.removedFaces) :
    (table s name face).1 = nextHopCost entry.m_routes face (passedDown s.m_rib name face) ∧
      (table s name face).2 = inheritsFace entry face ∧
      (ownCost entry.m_routes face = none → (table s name face).1.isSome = true → inheritsFace entry face = true) := by
  have hinherits : inherits s.m_rib name face = inheritsFace entry face := by
    rw [inherits, hfind]
    rfl
  refine ⟨?_, hinherits, ?_⟩
  · change s.nextHops name face = _
    rw [h.follows, if_neg hface, expected, hfind, routesOf_some hfind]
    rfl
  · intro hcost hsome
    rw [← hinherits]
    exact h.recorded face hface name (by rw [routesOf_some hfind]; exact hcost) hsome

theorem passedFrom_existing {rib : Rib} (hfind : rib.find name = some entry) (face : ℕ) :
    passedFrom rib name face = passedOn entry.m_routes face (passedDown rib name face) := by
  rw [passedFrom, routesOf_some hfind]

/-- The route goes down to the children where it is the cheapest of its face. -/
def routesToAdd (entry : RibEntry) (route : Route) : List Route :=
  if route.isChildInherit && isLowest route (entry.getRouteWithLowestCostAndChildInheritByFaceId route.faceId) then [route]
  else []

theorem nodup_routesToAdd (entry : RibEntry) (route : Route) : ((routesToAdd entry route).map Route.faceId).Nodup := by
  unfold routesToAdd
  split
  · exact nodup_singleton_face route
  · exact List.nodup_nil

theorem costOn_routesToAdd (entry : RibEntry) (route : Route) (face : ℕ) :
    costOn (routesToAdd entry route) face =
      if face = route.faceId ∧ route.isChildInherit = true ∧
          isLowest route (entry.getRouteWithLowestCostAndChildInheritByFaceId route.faceId) = true then some route.cost
      else none := by
  unfold routesToAdd
  split
  · rename_i hadds
    rw [Bool.and_eq_true] at hadds
    rw [costOn_singleton]
    simp only [hadds.1, hadds.2, and_true]
  · rename_i hadds
    rw [Bool.and_eq_true] at hadds
    rw [if_neg fun hall => hadds hall.2]
    rfl

theorem changes_newRoute (route : Route) {rib : Rib} {before : Table} {updates : Updates}
    (hupdates : Changes rib name before updates (before name) (fun _ => none) (fun _ => false)) (htree : Tree rib)
    (hfind : rib.find name = some entry) (captureWasTurnedOn : Bool) :
    Changes rib name before (createFibUpdatesForNewRoute rib entry route captureWasTurnedOn updates)
      (if isLowest route (entry.getRouteWithLowestCostByFaceId route.faceId) = true then
        setNextHop (disinheriting (before name) entry (if captureWasTurnedOn = true then rib.getAncestorRoutes entry else []))
          route.faceId (some route.cost)
      else disinheriting (before name) entry (if captureWasTurnedOn = true then rib.getAncestorRoutes entry else []))
      (costOn (routesToAdd entry route))
      (onFace (if captureWasTurnedOn = true then rib.getAncestorRoutes entry else [])) := by
  have hname := find_name hfind
  have hremoved := hupdates.removeInheritedRoutes hname
    (if captureWasTurnedOn = true then rib.getAncestorRoutes entry else [])
  have htraversed := hremoved.traverse htree (fun child => mem_children_iff htree hfind) (routesToAdd entry route)
    (if captureWasTurnedOn = true then rib.getAncestorRoutes entry else []) (nodup_routesToAdd entry route)
  have hsame : (if captureWasTurnedOn = true then updates.removeInheritedRoutes entry
      (if captureWasTurnedOn = true then rib.getAncestorRoutes entry else []) else updates) =
        updates.removeInheritedRoutes entry (if captureWasTurnedOn = true then rib.getAncestorRoutes entry else []) := by
    cases captureWasTurnedOn <;> rfl
  unfold createFibUpdatesForNewRoute
  dsimp only
  rw [hsame]
  split
  · exact htraversed.addFibUpdate (.createAddUpdate entry.m_name route.faceId route.cost) hname
  · exact htraversed

theorem ownCost_insertInto_ne_none (route : Route) (routes : List Route) :
    ownCost (insertInto route routes) route.faceId ≠ none := by
  rw [ownCost, leastCost_insertInto, withRoute, if_pos (isOn_iff.mpr rfl)]
  exact Option.some_ne_none _

theorem onFace_stopped_iff {rib : Rib} {routes : List Route} {face : ℕ}
    (h : onFace routes face = (passedDown rib name face).isSome) (turned : Bool) :
    onFace (if turned = true then routes else []) face = true ↔ turned = true ∧ passedDown rib name face ≠ none := by
  cases turned with
  | true => rw [if_pos rfl, onFace_iff_passedDown h, and_iff_right rfl]
  | false => exact iff_of_false Bool.false_ne_true fun hall => Bool.false_ne_true hall.1

theorem ownCost_newRoute (hnone : entry.findRoute route = none) (face : ℕ) :
    ownCost (insertInto route entry.m_routes) face =
      if face = route.faceId ∧ isLowest route (entry.getRouteWithLowestCostByFaceId face) = true then some route.cost
      else ownCost entry.m_routes face := by
  have hlowest := isLowest_iff route (getRouteWithLowestCost_cost entry face)
  rw [ownCost, leastCost_insertInto, others_of_none hnone]
  split
  · rename_i hall
    exact withRoute_of_lowest (isOn_iff.mpr hall.1.symm) (hlowest.mp hall.2)
  · rename_i hall
    by_cases hon : face = route.faceId
    · exact withRoute_of_not_lowest fun hle => hall ⟨hon, hlowest.mpr hle⟩
    · exact withRoute_of_not fun h => hon (isOn_iff.mp h).symm

theorem childInheritCost_newRoute (hnone : entry.findRoute route = none) (face : ℕ) :
    childInheritCost (insertInto route entry.m_routes) face =
      if face = route.faceId ∧ route.isChildInherit = true ∧
          isLowest route (entry.getRouteWithLowestCostAndChildInheritByFaceId route.faceId) = true then some route.cost
      else childInheritCost entry.m_routes face := by
  have hlowest := isLowest_iff route (getRouteWithLowestCostAndChildInherit_cost entry route.faceId)
  rw [childInheritCost, leastCost_insertInto, others_of_none hnone]
  split
  · rename_i hall
    obtain ⟨rfl, hinherit, hlow⟩ := hall
    exact withRoute_of_lowest (isInheritedOn_iff.mpr ⟨rfl, hinherit⟩) (hlowest.mp hlow)
  · rename_i hall
    by_cases hon : isInheritedOn face route = true
    · obtain ⟨rfl, hinherit⟩ := isInheritedOn_iff.mp hon
      exact withRoute_of_not_lowest fun hle => hall ⟨rfl, hinherit, hlowest.mpr hle⟩
    · exact withRoute_of_not hon

theorem captures_newRoute (hnone : entry.findRoute route = none) :
    captures (insertInto route entry.m_routes) = (route.isRibCapture || captures entry.m_routes) := by
  have hothers : others route entry.m_routes = entry.m_routes := others_of_none hnone
  rw [captures_insertInto, hothers]

theorem captures_unturned (hnone : entry.findRoute route = none) {turned : Bool}
    (hturned : turned = true ↔ captures entry.m_routes = false ∧ route.isRibCapture = true) (hnot : ¬ turned = true) :
    captures (insertInto route entry.m_routes) = captures entry.m_routes := by
  rw [captures_newRoute hnone]
  rw [hturned, not_and_or, Bool.not_eq_false, Bool.not_eq_true] at hnot
  rcases hnot with hcapture | hcapture
  · rw [hcapture, Bool.or_true]
  · rw [hcapture, Bool.false_or]

theorem disinheriting_turned (h : Consistent s) (hfind : s.m_rib.find name = some entry)
    (hright : NewRouteRight s name entry route) (hcapture : captures entry.m_routes = false)
    (hroute : route.isRibCapture = true) {toRemove : List Route}
    (hstops : ∀ face, onFace toRemove face = true ↔ passedDown s.m_rib name face ≠ none) {face : ℕ}
    (hface : face ∉ s.removedFaces)
    (hother : ¬ (face = route.faceId ∧ isLowest route (entry.getRouteWithLowestCostByFaceId face) = true)) :
    (disinheriting (table s name) entry toRemove face).1 = ownCost entry.m_routes face ∧
      (ownCost entry.m_routes face = none → (disinheriting (table s name) entry toRemove face).1.isSome = true →
        (disinheriting (table s name) entry toRemove face).2 = true) := by
  obtain ⟨hbefore, -, hrecorded⟩ := table_existing h hfind hface
  rw [nextHopCost, hcapture, if_neg Bool.false_ne_true] at hbefore
  rw [disinheriting]
  split
  · rename_i hstopped
    obtain ⟨hstopped, hinherits⟩ := hstopped
    cases hcost : ownCost entry.m_routes face with
    | none => exact ⟨rfl, fun _ hnext => absurd hnext Bool.false_ne_true⟩
    | some cost =>
      refine absurd ((hright hcapture hroute face hface ((hstops face).mp hstopped)).2.1 ?_ hinherits) hother
      rw [hasFaceId_eq, hcost]
      rfl
  · rename_i hstopped
    rw [hstops] at hstopped
    cases hcost : ownCost entry.m_routes face with
    | some cost =>
      rw [hcost, Option.some_or] at hbefore
      refine ⟨hbefore, ?_⟩
      rintro ⟨⟩
    | none =>
      rw [hcost, Option.none_or] at hbefore
      have hnext : (table s name face).1 = none := by
        cases hnext : (table s name face).1 with
        | none => rfl
        | some next =>
          rw [hnext] at hbefore hrecorded
          exact absurd ⟨by rw [← hbefore]; exact Option.some_ne_none next, hrecorded hcost rfl⟩ hstopped
      refine ⟨hnext, fun _ hsome => ?_⟩
      rw [hnext] at hsome
      cases hsome

theorem disinheriting_newRoute (h : Consistent s) (hfind : s.m_rib.find name = some entry)
    (hnone : entry.findRoute route = none) (hright : NewRouteRight s name entry route) {turned : Bool}
    (hturned : turned = true ↔ captures entry.m_routes = false ∧ route.isRibCapture = true) {toRemove : List Route}
    (hstops : ∀ face, onFace toRemove face = true ↔ turned = true ∧ passedDown s.m_rib name face ≠ none) {face : ℕ}
    (hface : face ∉ s.removedFaces)
    (hother : ¬ (face = route.faceId ∧ isLowest route (entry.getRouteWithLowestCostByFaceId face) = true)) :
    (disinheriting (table s name) entry toRemove face).1 = (ownCost entry.m_routes face).or
        (if captures (insertInto route entry.m_routes) = true then none else passedDown s.m_rib name face) ∧
      (ownCost entry.m_routes face = none → (disinheriting (table s name) entry toRemove face).1.isSome = true →
        (disinheriting (table s name) entry toRemove face).2 = true) := by
  by_cases hturns : turned = true
  · obtain ⟨hcapture, hroute⟩ := hturned.mp hturns
    rw [captures_newRoute hnone, hroute, Bool.true_or, if_pos rfl, Option.or_none]
    exact disinheriting_turned h hfind hright hcapture hroute
      (fun face => (hstops face).trans (and_iff_right hturns)) hface hother
  · obtain ⟨hbefore, hrecord, hrecorded⟩ := table_existing h hfind hface
    rw [captures_unturned hnone hturned hturns, disinheriting, if_neg fun hall => hturns ((hstops face).mp hall.1).1]
    refine ⟨hbefore, fun hcost hnext => ?_⟩
    rw [hrecord]
    exact hrecorded hcost hnext

theorem passedOn_newRoute (hnone : entry.findRoute route = none) (hright : NewRouteRight s name entry route)
    {turned : Bool} (hturned : turned = true ↔ captures entry.m_routes = false ∧ route.isRibCapture = true)
    {toRemove : List Route}
    (hstops : ∀ face, onFace toRemove face = true ↔ turned = true ∧ passedDown s.m_rib name face ≠ none) {face : ℕ}
    (hface : face ∉ s.removedFaces) (hpasses : PassesTo s.m_rib name face) :
    (costOn (routesToAdd entry route) face).or (if onFace toRemove face = true then none
      else passedOn entry.m_routes face (passedDown s.m_rib name face)) =
        passedOn (insertInto route entry.m_routes) face (passedDown s.m_rib name face) := by
  rw [costOn_routesToAdd, passedOn, passedOn, childInheritCost_newRoute hnone]
  split
  · rw [Option.some_or, Option.some_or]
  · rename_i hadds
    rw [Option.none_or]
    by_cases hturns : turned = true
    · obtain ⟨hcapture, hroute⟩ := hturned.mp hturns
      rw [captures_newRoute hnone, hcapture, hroute, Bool.true_or, if_pos rfl, if_neg Bool.false_ne_true, Option.or_none]
      by_cases hdown : passedDown s.m_rib name face = none
      · rw [if_neg fun hon => ((hstops face).mp hon).2 hdown, hdown, Option.or_none]
      · rw [if_pos ((hstops face).mpr ⟨hturns, hdown⟩), eq_comm]
        by_contra hcost
        obtain ⟨heq, hinherits, hlow⟩ := (hright hcapture hroute face hface hdown).2.2 hpasses hcost
        rw [heq] at hlow
        exact hadds ⟨heq, hinherits, hlow⟩
    · rw [captures_unturned hnone hturned hturns, if_neg fun hon => hturns ((hstops face).mp hon).1]

theorem settles_newRoute (h : Consistent s) (hfind : s.m_rib.find name = some entry)
    (hnone : entry.findRoute route = none) (hright : NewRouteRight s name entry route) :
    ∃ own add remove, Settles s ⟨.REGISTER, name, route⟩
      (createFibUpdatesForNewRoute s.m_rib entry route (! entry.hasCapture && route.isRibCapture)
        ⟨route.faceId, [], [], []⟩) own add remove := by
  obtain ⟨-, hfaces⟩ := getAncestorRoutes_spec h.tree h.counted hfind (rfl : entry.m_parent = entry.m_parent)
  obtain ⟨hsome, hroutes⟩ := find_insert_existing hfind route
  have hupdate : updateRib ⟨.REGISTER, name, route⟩ s.m_rib = s.m_rib.insert name route := rfl
  have hchanges := changes_newRoute route (changes_none s.m_rib name (table s) route.faceId) h.tree hfind
    (! entry.hasCapture && route.isRibCapture)
  have hturned : (! entry.hasCapture && route.isRibCapture) = true ↔
      captures entry.m_routes = false ∧ route.isRibCapture = true := by
    rw [Bool.and_eq_true, Bool.not_eq_true', h.counted.hasCapture hfind]
  have hstops := fun face => onFace_stopped_iff (hfaces face) (! entry.hasCapture && route.isRibCapture)
  have hkept := fun (face : ℕ) (hface : face ∉ s.removedFaces) =>
    disinheriting_newRoute h hfind hnone hright hturned hstops hface
  refine ⟨_, _, _, hchanges, ?_, ?_, ?_, ?_⟩
  · intro face hface
    rw [hupdate, if_pos hsome, hroutes, nextHopCost, ownCost_newRoute hnone]
    by_cases hlow : face = route.faceId ∧ isLowest route (entry.getRouteWithLowestCostByFaceId face) = true
    · rw [if_pos hlow, Option.some_or]
      obtain ⟨rfl, hlow⟩ := hlow
      rw [if_pos hlow, setNextHop_self]
    · rw [if_neg hlow, ← (hkept face hface hlow).1]
      split
      · rename_i hlowest
        rw [setNextHop_other]
        rintro rfl
        exact hlow ⟨rfl, hlowest⟩
      · rfl
  · intro face hface hcost
    rw [hupdate, hroutes] at hcost
    have hne : face ≠ route.faceId := fun heq => ownCost_insertInto_ne_none route entry.m_routes (heq ▸ hcost)
    rw [ownCost_newRoute hnone, if_neg fun hall => hne hall.1] at hcost
    have hrecorded := (hkept face hface fun hall => hne hall.1).2 hcost
    split
    · rw [setNextHop_other hne]
      exact hrecorded
    · exact hrecorded
  · intro face hface hpasses
    rw [hupdate, hroutes, passedFrom_existing hfind]
    exact passedOn_newRoute hnone hright hturned hstops hface hpasses
  · intro face hface hon
    obtain ⟨hturns, hdown⟩ := (hstops face).mp hon
    obtain ⟨hcapture, hroute⟩ := hturned.mp hturns
    exact (hright hcapture hroute face hface hdown).1

end NewRoute

section UpdatedRoute

variable {s : State} {name : Name} {route existing : Route} {entry : RibEntry}

theorem routesOf_updated {rib : Rib} (hunique : UniqueKeys rib) (hfind : rib.find name = some entry) :
    UniqueRoutes entry.m_routes := by
  rw [← routesOf_some hfind]
  exact hunique name

theorem withRoute_congr {p : Route → Bool} {route' : Route} (hp : p route' = p route) (hcost : route'.cost = route.cost)
    (least : Option ℕ) : withRoute p route' least = withRoute p route least := by
  rw [withRoute, withRoute, hp, hcost]

theorem others_congr {route' : Route} (h : compareFaceIdAndOrigin route' route = true) (routes : List Route) :
    others route' routes = others route routes := by
  refine List.filter_congr fun other _ => ?_
  rw [compareFaceIdAndOrigin, compareFaceIdAndOrigin, (compare_iff.mp h).1, (compare_iff.mp h).2]

theorem captures_updated (hunique : UniqueRoutes entry.m_routes) (hkey : entry.findRoute route = some existing)
    (hcapture : route.isRibCapture = existing.isRibCapture) :
    captures (insertInto route entry.m_routes) = captures entry.m_routes := by
  rw [captures_insertInto, captures_of_key hunique hkey, hcapture]

theorem leastCost_unchanged {p : Route → Bool} (hunique : UniqueRoutes entry.m_routes)
    (hkey : entry.findRoute route = some existing) (hp : p route = p existing) (hcost : route.cost = existing.cost) :
    leastCost p (insertInto route entry.m_routes) = leastCost p entry.m_routes := by
  rw [leastCost_insertInto, leastCost_of_key hunique hkey, withRoute_congr hp hcost]

theorem settles_updated (h : Consistent s) (hfind : s.m_rib.find name = some entry)
    (hkey : entry.findRoute route = some existing) (hcapture : route.isRibCapture = existing.isRibCapture)
    {updates : Updates} {own : ℕ → Option ℕ × Bool} {add : ℕ → Option ℕ} {remove : ℕ → Bool}
    (hchanges : Changes s.m_rib name (table s) updates own add remove)
    (hothers : ∀ face, face ≠ route.faceId → own face = table s name face ∧ add face = none ∧ remove face = false)
    (hown : route.faceId ∉ s.removedFaces →
      (own route.faceId).1 = ownCost (insertInto route entry.m_routes) route.faceId)
    (hadd : route.faceId ∉ s.removedFaces → PassesTo s.m_rib name route.faceId →
      (add route.faceId).or (if remove route.faceId = true then none
        else passedOn entry.m_routes route.faceId (passedDown s.m_rib name route.faceId)) =
          passedOn (insertInto route entry.m_routes) route.faceId (passedDown s.m_rib name route.faceId))
    (hremove : route.faceId ∉ s.removedFaces → remove route.faceId = true → ¬ StaleBelow s.m_rib name route.faceId) :
    Settles s ⟨.REGISTER, name, route⟩ updates own add remove := by
  obtain ⟨hsome, hroutes⟩ := find_insert_existing hfind route
  have hupdate : updateRib ⟨.REGISTER, name, route⟩ s.m_rib = s.m_rib.insert name route := rfl
  have hunique := routesOf_updated h.unique hfind
  have hface : existing.faceId = route.faceId := (compare_iff.mp (compare_of_key hkey)).1
  have hcaptures := captures_updated hunique hkey hcapture
  have hsame : ∀ face, face ≠ route.faceId →
      ownCost (insertInto route entry.m_routes) face = ownCost entry.m_routes face ∧
        childInheritCost (insertInto route entry.m_routes) face = childInheritCost entry.m_routes face := by
    intro face hne
    rw [ownCost, childInheritCost, ownCost, childInheritCost, leastCost_insertInto, leastCost_insertInto,
      leastCost_of_key hunique hkey, leastCost_of_key hunique hkey]
    constructor
    · rw [withRoute_of_not fun h => hne (isOn_iff.mp h).symm,
        withRoute_of_not fun h => hne (hface.symm.trans (isOn_iff.mp h)).symm]
    · rw [withRoute_of_not fun h => hne (isInheritedOn_iff.mp h).1.symm,
        withRoute_of_not fun h => hne (hface.symm.trans (isInheritedOn_iff.mp h).1).symm]
  have hself := ownCost_insertInto_ne_none route entry.m_routes
  refine ⟨hchanges, ?_, ?_, ?_, ?_⟩
  · intro face hface
    rw [hupdate, if_pos hsome, hroutes]
    by_cases hne : face = route.faceId
    · subst hne
      obtain ⟨cost, hcost⟩ := Option.ne_none_iff_exists'.mp hself
      rw [hown hface, hcost, nextHopCost_of_own hcost]
    · rw [(hothers face hne).1, (table_existing h hfind hface).1, nextHopCost, nextHopCost, hcaptures, (hsame face hne).1]
  · intro face hface hcost hnext
    rw [hupdate, hroutes] at hcost
    have hne : face ≠ route.faceId := fun heq => hself (heq ▸ hcost)
    rw [(hsame face hne).1] at hcost
    obtain ⟨-, hrecord, hrecorded⟩ := table_existing h hfind hface
    rw [(hothers face hne).1] at hnext ⊢
    rw [hrecord]
    exact hrecorded hcost hnext
  · intro face hface hpasses
    rw [hupdate, hroutes, passedFrom_existing hfind]
    by_cases hne : face = route.faceId
    · subst hne
      exact hadd hface hpasses
    · rw [(hothers face hne).2.1, (hothers face hne).2.2, passedOn, passedOn, hcaptures, (hsame face hne).2]
      rfl
  · intro face hface hon
    by_cases hne : face = route.faceId
    · subst hne
      exact hremove hface hon
    · rw [(hothers face hne).2.2] at hon
      cases hon

theorem leastCost_copy {p : Route → Bool} {route' : Route} (hkey : entry.findRoute route = some existing)
    (hsame : compareFaceIdAndOrigin route' route = true) (hp : p route' = p route) (hcost : route'.cost = route.cost) :
    leastCost p (entry.assignRoute route').m_routes = leastCost p (insertInto route entry.m_routes) := by
  have hfound : (routeOfKey route' entry.m_routes).isSome = true := by
    have hpred : routeOfKey route' entry.m_routes = routeOfKey route entry.m_routes := by
      unfold routeOfKey
      congr 1
      funext r
      rw [compareFaceIdAndOrigin, compareFaceIdAndOrigin, (compare_iff.mp hsame).1, (compare_iff.mp hsame).2]
    have hkey' : routeOfKey route entry.m_routes = some existing := hkey
    rw [hpred, hkey', Option.isSome_some]
  have hroutes : (entry.assignRoute route').m_routes = insertInto route' entry.m_routes := (if_pos hfound).symm
  rw [hroutes, leastCost_insertInto, leastCost_insertInto, others_congr hsame, withRoute_congr hp hcost]

theorem faceId_of_childInherit {copy : RibEntry} {prev : Route} {face : ℕ}
    (h : copy.getRouteWithLowestCostAndChildInheritByFaceId face = some prev) : prev.faceId = face := by
  have hmem := mem_of_lowestCost h
  rw [List.mem_filter, Bool.and_eq_true, decide_eq_true_eq] at hmem
  exact hmem.2.1

theorem changes_cost (h : Consistent s) (hfind : s.m_rib.find name = some entry)
    (hkey : entry.findRoute route = some existing) {copy : RibEntry} (hname : copy.m_name = name)
    (hcopy : ∀ face, ownCost copy.m_routes face = ownCost (insertInto route entry.m_routes) face)
    (hcopyInherit : ∀ face, childInheritCost copy.m_routes face =
      childInheritCost (insertInto route entry.m_routes) face)
    (hright : route.faceId ∉ s.removedFaces → ∀ cost,
      ownCost (insertInto route entry.m_routes) route.faceId = some cost → existing.cost < cost → cost < route.cost →
        childInheritCost (insertInto route entry.m_routes) route.faceId = some cost)
    {before updates : Updates}
    (hbefore : Changes s.m_rib name (table s) before (table s name) (fun _ => none) (fun _ => false))
    (hupdates : (if route.cost ≠ existing.cost then updateCost copy route existing before else some before) =
      some updates) :
    ∃ own, Changes s.m_rib name (table s) updates own (fun _ => none) (fun _ => false) ∧
      (∀ face, face ≠ route.faceId → own face = table s name face) ∧
      (route.faceId ∉ s.removedFaces → (own route.faceId).1 = ownCost (insertInto route entry.m_routes) route.faceId) := by
  have hunique := routesOf_updated h.unique hfind
  have hface : existing.faceId = route.faceId := (compare_iff.mp (compare_of_key hkey)).1
  have hnew : ownCost (insertInto route entry.m_routes) route.faceId =
      withRoute (isOn route.faceId) route (ownCost (others route entry.m_routes) route.faceId) := leastCost_insertInto
  have hold : ownCost entry.m_routes route.faceId =
      withRoute (isOn route.faceId) existing (ownCost (others route entry.m_routes) route.faceId) :=
    leastCost_of_key hunique hkey
  rw [withRoute, if_pos (isOn_iff.mpr rfl)] at hnew
  rw [withRoute, if_pos (isOn_iff.mpr hface)] at hold
  have hkept : route.faceId ∉ s.removedFaces → ownCost entry.m_routes route.faceId =
      ownCost (insertInto route entry.m_routes) route.faceId → (table s name route.faceId).1 =
        ownCost (insertInto route entry.m_routes) route.faceId := by
    intro halive heq
    rw [(table_existing h hfind halive).1, ← heq, hold, nextHopCost_of_own hold]
  by_cases hcost : route.cost = existing.cost
  · rw [if_neg (not_not.mpr hcost)] at hupdates
    cases hupdates
    refine ⟨_, hbefore, fun _ _ => rfl, fun halive => hkept halive ?_⟩
    rw [hnew, hold, hcost]
  · rw [if_pos hcost] at hupdates
    obtain ⟨lowest, hfound, hcases⟩ := updateCost_cases hupdates
    have hlowest := getRouteWithLowestCost_cost copy route.faceId
    rw [hcopy, hnew, hfound, Option.map_some, Option.some_inj] at hlowest
    rw [hname] at hcases
    rcases hcases with ⟨hle, rfl⟩ | ⟨hgt, hlt, prev, hprev, rfl⟩ | ⟨hgt, hle, rfl⟩
    · have hadded := hbefore.addFibUpdate (.createAddUpdate name route.faceId route.cost) rfl
      refine ⟨_, hadded, fun face hne => setNextHop_other hne _ _, fun _ => ?_⟩
      change (setNextHop (table s name) route.faceId (some route.cost) route.faceId).1 = _
      rw [setNextHop_self, hnew, ← hlowest]
      refine congrArg some (le_antisymm hle ?_)
      rw [hlowest]
      cases ownCost (others route entry.m_routes) route.faceId with
      | none => exact le_rfl
      | some cost => exact min_le_left _ _
    · have hprevFace := faceId_of_childInherit hprev
      have hprevCost := getRouteWithLowestCostAndChildInherit_cost copy route.faceId
      rw [hprev, Option.map_some, hcopyInherit] at hprevCost
      have hset := hbefore.addFibUpdate (.createAddUpdate name prev.faceId prev.cost) rfl
      refine ⟨_, hset, fun face hne => setNextHop_other (by rw [hprevFace]; exact hne) _ _, fun halive => ?_⟩
      change (setNextHop (table s name) prev.faceId (some prev.cost) route.faceId).1 = _
      rw [hprevFace, setNextHop_self, hnew, ← hlowest]
      have hgiven := hright halive lowest.cost (by rw [hnew, ← hlowest]) hlt hgt
      rw [← hprevCost] at hgiven
      exact hgiven
    · refine ⟨_, hbefore, fun _ _ => rfl, fun halive => hkept halive ?_⟩
      rw [hnew, hold, ← hlowest]
      cases hother : ownCost (others route entry.m_routes) route.faceId with
      | none =>
        rw [hother, Option.elim_none] at hlowest
        exact absurd hlowest hgt.ne
      | some cost =>
        rw [hother, Option.elim_some] at hlowest
        rw [Option.elim_some]
        exact congrArg some (by omega)

theorem createFibUpdatesForUpdatedRoute_eq {rib : Rib} {updates updates' : Updates}
    (hchanged : ¬ (route.flags = existing.flags ∧ ¬ route.cost ≠ existing.cost))
    (hupdates : createFibUpdatesForUpdatedRoute rib entry route existing updates = some updates') :
    ∃ before, (if route.cost ≠ existing.cost then updateCost entry route existing updates else some updates) = some before ∧
      updates' =
        if route.cost ≠ existing.cost ∧ isLowest route (entry.getRouteWithLowestCostAndChildInheritByFaceId route.faceId) ∧
            route.flags = existing.flags ∧ route.isChildInherit then
          modifyChildrensInheritedRoutes rib entry.m_children [route] [] before
        else updateCapture rib entry route existing (updateChildInherit rib entry route existing before) := by
  unfold createFibUpdatesForUpdatedRoute at hupdates
  rw [if_neg hchanged] at hupdates
  by_cases hcost : route.cost ≠ existing.cost
  · rw [if_pos hcost]
    simp only [if_pos hcost] at hupdates
    obtain ⟨before, hbefore, hrest⟩ := Option.bind_eq_some_iff.mp hupdates
    refine ⟨before, hbefore, ?_⟩
    split at hrest <;> rename_i hlow <;> cases hrest
    · rw [if_pos hlow]
    · rw [if_neg hlow]
  · rw [if_neg hcost]
    simp only [if_neg hcost] at hupdates
    refine ⟨updates, rfl, ?_⟩
    rw [if_neg fun hall => hcost hall.1]
    have hrest : some (updateCapture rib entry route existing (updateChildInherit rib entry route existing updates)) =
        some updates' := by
      rw [← hupdates]
      exact (if_neg fun hall => hcost hall.1).symm
    cases hrest
    rfl

theorem settles_unchangedRoute (h : Consistent s) (hfind : s.m_rib.find name = some entry)
    (hkey : entry.findRoute route = some existing) (hflags : route.flags = existing.flags)
    (hcost : route.cost = existing.cost) :
    Settles s ⟨.REGISTER, name, route⟩ ⟨route.faceId, [], [], []⟩ (table s name) (fun _ => none) (fun _ => false) := by
  have hunique := routesOf_updated h.unique hfind
  have hface : existing.faceId = route.faceId := (compare_iff.mp (compare_of_key hkey)).1
  have hcapture : route.isRibCapture = existing.isRibCapture := by
    rw [Route.isRibCapture, Route.isRibCapture, hflags]
  have hinherit : route.isChildInherit = existing.isChildInherit := by
    rw [Route.isChildInherit, Route.isChildInherit, hflags]
  have hsameOwn : ownCost (insertInto route entry.m_routes) route.faceId = ownCost entry.m_routes route.faceId :=
    leastCost_unchanged hunique hkey (by rw [isOn, isOn, hface]) hcost
  have hsameInherit : childInheritCost (insertInto route entry.m_routes) route.faceId =
      childInheritCost entry.m_routes route.faceId :=
    leastCost_unchanged hunique hkey (by rw [isInheritedOn, isInheritedOn, hface, hinherit]) hcost
  have hbefore := changes_none s.m_rib name (table s) route.faceId
  refine settles_updated h hfind hkey hcapture hbefore (fun face _ => ⟨rfl, rfl, rfl⟩) ?_ ?_ ?_
  · intro halive
    obtain ⟨cost, hown⟩ := Option.ne_none_iff_exists'.mp (ownCost_insertInto_ne_none route entry.m_routes)
    rw [hown]
    rw [hsameOwn] at hown
    rw [(table_existing h hfind halive).1, nextHopCost_of_own hown]
  · intro _ _
    rw [passedOn, passedOn, captures_updated hunique hkey hcapture, hsameInherit]
    rfl
  · exact fun _ hon => absurd hon Bool.false_ne_true

/-- A route that is given other flags or another cost, once the next hop of its
own name is right: `copy` is the entry as the updater looks at it. -/
structure Updated (s : State) (name : Name) (entry copy : RibEntry) (route existing : Route) (before : Updates)
    (own : ℕ → Option ℕ × Bool) : Prop where
  consistent : Consistent s
  find : s.m_rib.find name = some entry
  key : entry.findRoute route = some existing
  capture : route.isRibCapture = existing.isRibCapture
  children : ∀ child, child ∈ copy.m_children ↔ Below (Mem s.m_rib) name child
  inherited : childInheritCost copy.m_routes route.faceId = childInheritCost (insertInto route entry.m_routes) route.faceId
  changes : Changes s.m_rib name (table s) before own (fun _ => none) (fun _ => false)
  own_other : ∀ face, face ≠ route.faceId → own face = table s name face
  own_self : route.faceId ∉ s.removedFaces →
    (own route.faceId).1 = ownCost (insertInto route entry.m_routes) route.faceId

namespace Updated

variable {copy : RibEntry} {before : Updates} {own : ℕ → Option ℕ × Bool}

theorem prevRoute_cost (h : Updated s name entry copy route existing before own) :
    (copy.getRouteWithLowestCostAndChildInheritByFaceId route.faceId).map Route.cost =
      childInheritCost (insertInto route entry.m_routes) route.faceId := by
  rw [getRouteWithLowestCostAndChildInherit_cost, h.inherited]

theorem isLowest_iff (h : Updated s name entry copy route existing before own) :
    isLowest route (copy.getRouteWithLowestCostAndChildInheritByFaceId route.faceId) = true ↔
      ∀ cost, childInheritCost (insertInto route entry.m_routes) route.faceId = some cost → route.cost ≤ cost :=
  RouteInheritance.isLowest_iff route h.prevRoute_cost

theorem isLowest_of_cost (h : Updated s name entry copy route existing before own)
    (hcost : childInheritCost (insertInto route entry.m_routes) route.faceId = some route.cost) :
    isLowest route (copy.getRouteWithLowestCostAndChildInheritByFaceId route.faceId) = true := by
  rw [h.isLowest_iff, hcost]
  rintro cost ⟨⟩
  exact le_rfl

theorem cost_of_isLowest (h : Updated s name entry copy route existing before own) (his : route.isChildInherit = true)
    (hlow : isLowest route (copy.getRouteWithLowestCostAndChildInheritByFaceId route.faceId) = true) :
    childInheritCost (insertInto route entry.m_routes) route.faceId = some route.cost := by
  have hon := isInheritedOn_iff.mpr ⟨rfl, his⟩
  rw [h.isLowest_iff, childInheritCost, leastCost_insertInto] at hlow
  rw [childInheritCost, leastCost_insertInto]
  refine withRoute_of_lowest hon fun cost hother => ?_
  rw [withRoute, if_pos hon, hother, Option.elim_some] at hlow
  exact (le_min_iff.mp (hlow _ rfl)).2

theorem captures_eq (h : Updated s name entry copy route existing before own) :
    captures (insertInto route entry.m_routes) = captures entry.m_routes :=
  captures_updated (routesOf_updated h.consistent.unique h.find) h.key h.capture

theorem adds (h : Updated s name entry copy route existing before own) (his : route.isChildInherit = true)
    (hlow : isLowest route (copy.getRouteWithLowestCostAndChildInheritByFaceId route.faceId) = true) :
    ∃ own add remove, Settles s ⟨.REGISTER, name, route⟩
      (modifyChildrensInheritedRoutes s.m_rib copy.m_children [route] [] before) own add remove := by
  have htraversed := h.changes.traverse h.consistent.tree h.children [route] [] (nodup_singleton_face route)
  refine ⟨_, _, _, settles_updated h.consistent h.find h.key h.capture htraversed ?_ h.own_self ?_ ?_⟩
  · intro face hne
    refine ⟨h.own_other face hne, ?_, rfl⟩
    rw [costOn_singleton, if_neg hne]
  · intro _ _
    rw [costOn_singleton, if_pos rfl, Option.some_or, passedOn, h.cost_of_isLowest his hlow, Option.some_or]
  · exact fun _ hon => absurd hon Bool.false_ne_true

theorem keeps (h : Updated s name entry copy route existing before own)
    (hsame : route.faceId ∉ s.removedFaces → PassesTo s.m_rib name route.faceId →
      childInheritCost (insertInto route entry.m_routes) route.faceId = childInheritCost entry.m_routes route.faceId) :
    ∃ own add remove, Settles s ⟨.REGISTER, name, route⟩ before own add remove := by
  refine ⟨_, _, _, settles_updated h.consistent h.find h.key h.capture h.changes ?_ h.own_self ?_ ?_⟩
  · exact fun face hne => ⟨h.own_other face hne, rfl, rfl⟩
  · intro halive hpasses
    rw [passedOn, passedOn, h.captures_eq, hsame halive hpasses]
    rfl
  · exact fun _ hon => absurd hon Bool.false_ne_true

theorem replaces (h : Updated s name entry copy route existing before own) {routesToAdd : List Route}
    (hnodup : (routesToAdd.map Route.faceId).Nodup)
    (hothers : ∀ face, face ≠ route.faceId → costOn routesToAdd face = none)
    (hstale : route.faceId ∉ s.removedFaces → ¬ StaleBelow s.m_rib name route.faceId)
    (hadd : route.faceId ∉ s.removedFaces → PassesTo s.m_rib name route.faceId → costOn routesToAdd route.faceId =
      passedOn (insertInto route entry.m_routes) route.faceId (passedDown s.m_rib name route.faceId)) :
    ∃ own add remove, Settles s ⟨.REGISTER, name, route⟩
      (modifyChildrensInheritedRoutes s.m_rib copy.m_children routesToAdd [route] before) own add remove := by
  have htraversed := h.changes.traverse h.consistent.tree h.children routesToAdd [route] hnodup
  have hremoved : onFace [route] route.faceId = true := onFace_iff.mpr ⟨route, List.mem_singleton_self route, rfl⟩
  refine ⟨_, _, _, settles_updated h.consistent h.find h.key h.capture htraversed ?_ h.own_self ?_ ?_⟩
  · intro face hne
    refine ⟨h.own_other face hne, hothers face hne, ?_⟩
    rw [← costOn_eq_none, costOn_singleton, if_neg hne]
  · intro halive hpasses
    rw [if_pos hremoved, Option.or_none, hadd halive hpasses]
  · exact fun halive _ => hstale halive

theorem stops (h : Updated s name entry copy route existing before own)
    (hwas : existing.isChildInherit = true) (his : route.isChildInherit = false)
    (hstale : route.faceId ∉ s.removedFaces → ¬ StaleBelow s.m_rib name route.faceId)
    (hpassed : route.faceId ∉ s.removedFaces → PassesTo s.m_rib name route.faceId →
      childInheritCost (insertInto route entry.m_routes) route.faceId = none →
        costOn (s.m_rib.getAncestorRoutes copy) route.faceId =
          if captures entry.m_routes = true then none else passedDown s.m_rib name route.faceId) :
    ∃ own add remove, Settles s ⟨.REGISTER, name, route⟩ (updateChildInherit s.m_rib copy route existing before)
      own add remove := by
  have hprev := h.prevRoute_cost
  rw [updateChildInherit]
  simp only [hwas, his, Bool.not_true, Bool.false_and, Bool.not_false, Bool.and_true, Bool.false_eq_true, if_false, if_true]
  cases hfound : copy.getRouteWithLowestCostAndChildInheritByFaceId route.faceId with
  | some prev =>
    have hprevFace := faceId_of_childInherit hfound
    rw [hfound, Option.map_some] at hprev
    refine h.replaces (nodup_singleton_face prev) ?_ hstale ?_
    · intro face hne
      rw [costOn_singleton, hprevFace, if_neg hne]
    · intro _ _
      rw [costOn_singleton, hprevFace, if_pos rfl, passedOn, ← hprev, Option.some_or]
  | none =>
    rw [hfound, Option.map_none] at hprev
    refine h.replaces ?_ ?_ hstale ?_
    · cases RouteSet.find (s.m_rib.getAncestorRoutes copy) route with
      | none => exact List.nodup_nil
      | some found => exact nodup_singleton_face found
    · intro face hne
      rw [costOn_find, if_neg hne]
    · intro halive hpasses
      rw [costOn_find, if_pos rfl, passedOn, ← hprev, Option.none_or, h.captures_eq]
      exact hpassed halive hpasses hprev.symm

theorem others_of_off (h : Updated s name entry copy route existing before own)
    (hwas : existing.isChildInherit = false) : childInheritCost entry.m_routes route.faceId =
      leastCost (isInheritedOn route.faceId) (others route entry.m_routes) := by
  have hunique := routesOf_updated h.consistent.unique h.find
  rw [childInheritCost, leastCost_of_key hunique h.key, withRoute_of_not]
  rw [isInheritedOn_iff, hwas]
  exact fun hall => Bool.false_ne_true hall.2

theorem starts (h : Updated s name entry copy route existing before own)
    (hwas : existing.isChildInherit = false) :
    ∃ own add remove, Settles s ⟨.REGISTER, name, route⟩ (updateChildInherit s.m_rib copy route existing before)
      own add remove := by
  rw [updateChildInherit]
  cases his : route.isChildInherit with
  | true =>
    by_cases hlow : isLowest route (copy.getRouteWithLowestCostAndChildInheritByFaceId route.faceId) = true
    · simp only [hwas, hlow, Bool.not_false, Bool.and_true, if_true]
      exact h.adds his hlow
    · simp only [hwas, hlow, Bool.not_false, Bool.and_true, if_true, Bool.false_eq_true, if_false]
      refine h.keeps fun _ _ => ?_
      rw [h.others_of_off hwas, childInheritCost, leastCost_insertInto]
      refine withRoute_of_not_lowest fun hle => hlow (h.isLowest_of_cost ?_)
      rw [childInheritCost, leastCost_insertInto, withRoute_of_lowest (isInheritedOn_iff.mpr ⟨rfl, his⟩) hle]
  | false =>
    simp only [hwas, Bool.and_false, Bool.false_and, Bool.false_eq_true, if_false]
    refine h.keeps fun _ _ => ?_
    rw [h.others_of_off hwas, childInheritCost, leastCost_insertInto, withRoute_of_not]
    rw [isInheritedOn_iff, his]
    exact fun hall => Bool.false_ne_true hall.2

end Updated

theorem updateCapture_same (rib : Rib) (copy : RibEntry) (hcapture : route.isRibCapture = existing.isRibCapture)
    (updates : Updates) : updateCapture rib copy route existing updates = updates := by
  rw [updateCapture, hcapture]
  cases existing.isRibCapture <;> rfl

theorem updated_assignRoute (h : Consistent s) (hfind : s.m_rib.find name = some entry)
    (hkey : entry.findRoute route = some existing) (hcapture : route.isRibCapture = existing.isRibCapture)
    (hright : route.faceId ∉ s.removedFaces → ∀ cost,
      ownCost (insertInto route entry.m_routes) route.faceId = some cost → existing.cost < cost → cost < route.cost →
        childInheritCost (insertInto route entry.m_routes) route.faceId = some cost)
    {route' : Route} (hsame : compareFaceIdAndOrigin route' route = true) (hsameCost : route'.cost = route.cost)
    (hsameInherit : route'.isChildInherit = route.isChildInherit) {before : Updates}
    (hcost : (if route.cost ≠ existing.cost then
      updateCost (entry.assignRoute route') route existing ⟨route.faceId, [], [], []⟩
      else some ⟨route.faceId, [], [], []⟩) = some before) :
    ∃ own, Updated s name entry (entry.assignRoute route') route existing before own := by
  have hsameFace : route'.faceId = route.faceId := (compare_iff.mp hsame).1
  have hcopy : ∀ face, ownCost (entry.assignRoute route').m_routes face =
      ownCost (insertInto route entry.m_routes) face :=
    fun face => leastCost_copy hkey hsame (by rw [isOn, isOn, hsameFace]) hsameCost
  have hcopyInherit : ∀ face, childInheritCost (entry.assignRoute route').m_routes face =
      childInheritCost (insertInto route entry.m_routes) face :=
    fun face => leastCost_copy hkey hsame (by rw [isInheritedOn, isInheritedOn, hsameFace, hsameInherit]) hsameCost
  have hname : (entry.assignRoute route').m_name = name := (find_name hfind : entry.m_name = name)
  obtain ⟨own, hchanges, hown, hself⟩ := changes_cost h hfind hkey hname hcopy hcopyInherit hright
    (changes_none s.m_rib name (table s) route.faceId) hcost
  exact ⟨own, h, hfind, hkey, hcapture, fun child => mem_children_iff h.tree hfind, hcopyInherit route.faceId,
    hchanges, hown, hself⟩

theorem settles_updatedRoute (h : Consistent s) (hfind : s.m_rib.find name = some entry)
    (hkey : entry.findRoute route = some existing) (hright : UpdatedRouteRight s name entry route existing)
    {updates : Updates} (hupdates : createFibUpdatesForUpdatedRoute s.m_rib
      (entry.assignRoute { existing with flags := route.flags, cost := route.cost, expires := route.expires }) route
      existing ⟨route.faceId, [], [], []⟩ = some updates) :
    ∃ own add remove, Settles s ⟨.REGISTER, name, route⟩ updates own add remove := by
  by_cases hunchanged : route.flags = existing.flags ∧ ¬ route.cost ≠ existing.cost
  · rw [createFibUpdatesForUpdatedRoute, if_pos hunchanged] at hupdates
    cases hupdates
    exact ⟨_, _, _, settles_unchangedRoute h hfind hkey hunchanged.1 (not_not.mp hunchanged.2)⟩
  · obtain ⟨hcapture, hright⟩ := hright.resolve_left fun hsame => hunchanged ⟨hsame.1, not_not.mpr hsame.2⟩
    obtain ⟨before, hcost, rfl⟩ := createFibUpdatesForUpdatedRoute_eq hunchanged hupdates
    have hkeyed : compareFaceIdAndOrigin existing route = true := compare_of_key hkey
    have hsame : compareFaceIdAndOrigin
        { existing with flags := route.flags, cost := route.cost, expires := route.expires } route = true := hkeyed
    obtain ⟨own, hupdated⟩ := updated_assignRoute h hfind hkey hcapture (fun halive => (hright halive).1) hsame rfl rfl
      hcost
    rw [updateCapture_same _ _ hcapture]
    split
    · rename_i hadd
      exact hupdated.adds hadd.2.2.2 hadd.2.1
    · rename_i hadd
      cases hwas : existing.isChildInherit with
      | false => exact hupdated.starts hwas
      | true =>
        cases his : route.isChildInherit with
        | false =>
          exact hupdated.stops hwas his (fun halive => ((hright halive).2.1 hwas his).1)
            fun halive hpasses => ((hright halive).2.1 hwas his).2 hpasses
        | true =>
          rw [updateChildInherit]
          simp only [hwas, his, Bool.not_true, Bool.false_and, Bool.and_false, Bool.false_eq_true, if_false]
          refine hupdated.keeps fun halive hpasses => ?_
          rcases (hright halive).2.2 hwas his hpasses with ⟨hflags, hcheapest⟩ | heq
          · refine absurd ⟨fun hcost => ?_, hupdated.isLowest_of_cost hcheapest, hflags, his⟩ hadd
            exact hunchanged ⟨hflags, not_not.mpr hcost⟩
          · exact heq

end UpdatedRoute

end LeoNdn.FibCases
