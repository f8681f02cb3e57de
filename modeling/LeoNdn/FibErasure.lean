import LeoNdn.FibCases

/-!
The batches that leave the FIB as the RIB asks for: the conditions under which a
route that goes away is one of them.
-/

namespace LeoNdn.FibErasure

open LeoNdn.NdnPacket LeoNdn.RibTable LeoNdn.FibUpdater LeoNdn.Inheritance LeoNdn.RibTree
open LeoNdn.FibChanges LeoNdn.RibTraversal LeoNdn.RouteInheritance LeoNdn.RouteChanges LeoNdn.FibSync LeoNdn.FibCases

section Conditions

variable (s : State) (name : Name) (entry : RibEntry) (route existing : Route)

def remaining : List Route := (entry.eraseRoute route).m_routes

/-- The second cheapest route of the face goes down to the children. -/
def Readds (next : Route) : Prop :=
  entry.getRouteWithSecondLowestCostByFaceId route.faceId = some next ∧ next.isChildInherit = true ∧
    isLowest next ((entry.eraseRoute route).getRouteWithLowestCostAndChildInheritByFaceId route.faceId) = true

def Unblocks : Prop :=
  captures (remaining entry route) = false ∧
    if existing.isRibCapture = true then remaining entry route ≠ [] else existing.isChildInherit = true

/-- The name itself gets the right next hops: on the face of the route the second
cheapest route is the cheapest that stays, and the routes of the ancestors that are
not stopped any more are their cheapest. -/
def ErasedRight : Prop :=
  (route.faceId ∉ s.removedFaces → ∀ next,
    entry.getRouteWithSecondLowestCostByFaceId route.faceId = some next →
      isLowest next ((entry.eraseRoute route).getRouteWithLowestCostByFaceId route.faceId) = true ∨
        (captures (remaining entry route) = false ∧
          costOn (s.m_rib.getAncestorRoutes entry) route.faceId = ownCost (remaining entry route) route.faceId)) ∧
  (remaining entry route ≠ [] → captures (remaining entry route) = false → ∀ face, face ∉ s.removedFaces →
    ownCost (remaining entry route) face = none → (face = route.faceId ∨ existing.isRibCapture = true) →
      costOn (s.m_rib.getAncestorRoutes entry) face = passedDown s.m_rib name face)

/-- What is passed down on a face is what the entry passes down after the erasure. -/
def ErasedBelowRight : Prop :=
  (route.faceId ∉ s.removedFaces → existing.isChildInherit = true → ¬ StaleBelow s.m_rib name route.faceId) ∧
  (∀ face, face ∉ s.removedFaces → PassesTo s.m_rib name face →
    (∀ next, face = route.faceId → Readds entry route next →
      passedOn (remaining entry route) face (passedDown s.m_rib name face) = some next.cost) ∧
    ((¬ ∃ next, face = route.faceId ∧ Readds entry route next) →
      (Unblocks entry route existing → passedDown s.m_rib name face ≠ none →
        costOn (s.m_rib.getAncestorRoutes entry) face =
          passedOn (remaining entry route) face (passedDown s.m_rib name face)) ∧
      (¬ (Unblocks entry route existing ∧ passedDown s.m_rib name face ≠ none) → face = route.faceId →
        existing.isChildInherit = true →
          passedOn (remaining entry route) face (passedDown s.m_rib name face) = none) ∧
      (remaining entry route = [] → existing.isRibCapture = true → passedDown s.m_rib name face = none)))

end Conditions

section Counts

variable {routes : List Route} {route existing : Route} {entry : RibEntry}

theorem countP_eraseP (p q : Route → Bool) (routes : List Route) :
    (routes.eraseP q).countP p + (if (routes.find? q).any p = true then 1 else 0) = routes.countP p := by
  induction routes with
  | nil => rfl
  | cons first routes ih =>
    by_cases hq : q first = true
    · rw [List.eraseP_cons_of_pos hq, List.find?_cons_of_pos hq, List.countP_cons]
      rfl
    · rw [List.eraseP_cons_of_neg hq, List.find?_cons_of_neg hq, List.countP_cons, List.countP_cons, ← ih]
      omega

theorem eraseRoute_counted (hcount : entry.m_nRoutesWithCaptureSet = entry.m_routes.countP Route.isRibCapture)
    (route : Route) : (entry.eraseRoute route).m_nRoutesWithCaptureSet =
      (entry.eraseRoute route).m_routes.countP Route.isRibCapture := by
  have hsum := countP_eraseP Route.isRibCapture (fun r => compareFaceIdAndOrigin r route) entry.m_routes
  unfold RibEntry.eraseRoute
  unfold RibEntry.findRoute
  cases hfind : entry.m_routes.find? (fun r => compareFaceIdAndOrigin r route) with
  | none => exact hcount
  | some existing =>
    rw [hfind, Option.any_some] at hsum
    dsimp only
    rw [hcount, RibEntry.decrement]
    split
    · rename_i hcapture
      rw [if_pos hcapture] at hsum
      rw [if_neg (by omega)]
      omega
    · rename_i hcapture
      rw [if_neg hcapture] at hsum
      omega

theorem counted_erase {rib : Rib} (h : Counted rib) (name : Name) (route : Route) : Counted (rib.erase name route) := by
  intro d entry hfind
  have herase := find_erase counts_ignoreLinks rib name route d
  rw [hfind, Option.map_some] at herase
  split at herase
  · rw [eq_comm, Option.map_eq_some_iff] at herase
    obtain ⟨left, hleft, heq⟩ := herase
    obtain ⟨old, hold, hafter⟩ := Option.bind_eq_some_iff.mp hleft
    rw [RibEntry.afterErase] at hafter
    split at hafter
    · cases hafter
    · cases hafter
      have hcount := eraseRoute_counted (h name old hold) route
      rw [counts, counts, Prod.mk.injEq] at heq
      rw [← heq.1, ← heq.2, hcount]
  · rw [eq_comm, Option.map_eq_some_iff] at herase
    obtain ⟨old, hold, heq⟩ := herase
    have hcount := h d old hold
    rw [counts, counts, Prod.mk.injEq] at heq
    rw [← heq.1, ← heq.2, hcount]

end Counts

section Erasing

variable {rib : Rib} {name : Name} {before : Table} {updates : Updates} {own : ℕ → Option ℕ × Bool} {add : ℕ → Option ℕ}
  {remove : ℕ → Bool} {entry temp : RibEntry} {route existing next : Route}

theorem changes_nextRoute (hupdates : Changes rib name before updates own add remove) (htree : Tree rib)
    (hfind : rib.find name = some entry) (hname : temp.m_name = name) (hchildren : temp.m_children = entry.m_children)
    (next : Route) :
    Changes rib name before (createFibUpdatesForNewRoute rib temp next false updates)
      (if isLowest next (temp.getRouteWithLowestCostByFaceId next.faceId) = true then
        setNextHop own next.faceId (some next.cost) else own)
      (fun f => (costOn (routesToAdd temp next) f).or (add f)) remove := by
  have hbelow : ∀ child, child ∈ temp.m_children ↔ Below (Mem rib) name child := by
    intro child
    rw [hchildren]
    exact mem_children_iff htree hfind
  have htraversed := hupdates.traverseAdding htree hbelow (routesToAdd temp next) (nodup_routesToAdd temp next)
  unfold createFibUpdatesForNewRoute
  dsimp only
  split
  · exact htraversed.addFibUpdate (.createAddUpdate temp.m_name next.faceId next.cost) hname
  · exact htraversed

def erasedToAdd (temp : RibEntry) (existing : Route) (ancestorRoutes : List Route) (unblocked : Bool) : List Route :=
  if existing.isRibCapture = true then (if unblocked = true then ancestorRoutes else [])
  else if existing.isChildInherit = true then (if temp.hasCapture = true then [] else ancestorRoutes) else []

def erasedOwn (before : ℕ → Option ℕ × Bool) (temp : RibEntry) (existing : Route) (ancestorRoutes : List Route)
    (unblocked : Bool) : ℕ → Option ℕ × Bool :=
  if existing.isRibCapture = true ∧ unblocked = true then
    inheriting (setNextHop before existing.faceId none) (fun face => temp.hasFaceId face = true) ancestorRoutes
  else setNextHop before existing.faceId none

/-- The name gets the route of its ancestors on the face, if that is not stopped. -/
def withAncestor (own : ℕ → Option ℕ × Bool) (temp : RibEntry) (ancestorRoute : Option Route) : ℕ → Option ℕ × Bool :=
  if (! temp.hasCapture && ! temp.m_routes.isEmpty) = true then
    match ancestorRoute with
    | some ancestorRoute => setInherited own ancestorRoute.faceId ancestorRoute.cost
    | none => own
  else own

theorem changes_erasedRoute (hupdates : Changes rib name before updates (before name) (fun _ => none) (fun _ => false))
    (htree : Tree rib) (hfind : rib.find name = some entry) (hname : temp.m_name = name)
    (hchildren : temp.m_children = entry.m_children) (hsorted : Sorted (rib.getAncestorRoutes temp)) (existing : Route)
    (captureWasTurnedOff : Bool) :
    Changes rib name before (createFibUpdatesForErasedRoute rib temp existing captureWasTurnedOff updates)
      (withAncestor (erasedOwn (before name) temp existing (rib.getAncestorRoutes temp)
        (captureWasTurnedOff && ! temp.m_routes.isEmpty)) temp (RouteSet.find (rib.getAncestorRoutes temp) existing))
      (costOn (erasedToAdd temp existing (rib.getAncestorRoutes temp) (captureWasTurnedOff && ! temp.m_routes.isEmpty)))
      (onFace (if existing.isChildInherit = true then [existing] else [])) := by
  have hbelow : ∀ child, child ∈ temp.m_children ↔ Below (Mem rib) name child := by
    intro child
    rw [hchildren]
    exact mem_children_iff htree hfind
  have hremoved := hupdates.addFibUpdate (.createRemoveUpdate name existing.faceId) rfl
  unfold createFibUpdatesForErasedRoute
  generalize rib.getAncestorRoutes temp = ancestorRoutes at hsorted ⊢
  generalize (captureWasTurnedOff && ! temp.m_routes.isEmpty) = unblocked
  rw [hname]
  dsimp only
  have htraversed : Changes rib name before
      (if existing.isRibCapture = true then
        modifyChildrensInheritedRoutes rib temp.m_children (if unblocked = true then ancestorRoutes else [])
          (if existing.isChildInherit = true then [existing] else [])
          (if unblocked = true then (updates.addFibUpdate (.createRemoveUpdate name existing.faceId)).addInheritedRoutes
            temp ancestorRoutes else updates.addFibUpdate (.createRemoveUpdate name existing.faceId))
      else if existing.isChildInherit = true then
        modifyChildrensInheritedRoutes rib temp.m_children (if temp.hasCapture = true then [] else ancestorRoutes) [existing]
          (updates.addFibUpdate (.createRemoveUpdate name existing.faceId))
      else updates.addFibUpdate (.createRemoveUpdate name existing.faceId))
      (erasedOwn (before name) temp existing ancestorRoutes unblocked)
      (costOn (erasedToAdd temp existing ancestorRoutes unblocked))
      (onFace (if existing.isChildInherit = true then [existing] else [])) := by
    have hnodup : ∀ c : Prop, ∀ [Decidable c], ((if c then ancestorRoutes else []).map Route.faceId).Nodup := by
      intro c _
      split
      · exact hsorted.nodup
      · exact List.nodup_nil
    unfold erasedOwn erasedToAdd
    by_cases hcapture : existing.isRibCapture = true
    · rw [if_pos hcapture, if_pos hcapture]
      by_cases hunblocked : unblocked = true
      · have hinherited := hremoved.inheritAll (fun face => temp.hasFaceId face = true) ancestorRoutes hsorted.nodup
        rw [if_pos (And.intro hcapture hunblocked), if_pos hunblocked, if_pos hunblocked]
        have hadded : (updates.addFibUpdate (.createRemoveUpdate name existing.faceId)).addInheritedRoutes temp
            ancestorRoutes = ancestorRoutes.foldl (fun updates route =>
              if temp.hasFaceId route.faceId = true then updates else updates.inherit name route)
                (updates.addFibUpdate (.createRemoveUpdate name existing.faceId)) := by
          rw [Updates.addInheritedRoutes, hname]
        rw [hadded]
        exact hinherited.traverse htree hbelow _ _ hsorted.nodup
      · have hnot : ¬ (existing.isRibCapture = true ∧ unblocked = true) := fun hall => hunblocked hall.2
        rw [if_neg hnot, if_neg hunblocked, if_neg hunblocked]
        exact hremoved.traverse htree hbelow _ _ List.nodup_nil
    · have hnot : ¬ (existing.isRibCapture = true ∧ unblocked = true) := fun hall => hcapture hall.1
      rw [if_neg hcapture, if_neg hcapture, if_neg hnot]
      by_cases hinherit : existing.isChildInherit = true
      · rw [if_pos hinherit, if_pos hinherit, if_pos hinherit]
        refine hremoved.traverse htree hbelow _ _ ?_
        split
        · exact List.nodup_nil
        · exact hsorted.nodup
      · rw [if_neg hinherit, if_neg hinherit, if_neg hinherit]
        exact hremoved
  unfold withAncestor
  split
  · cases hancestor : RouteSet.find ancestorRoutes existing with
    | some ancestorRoute => exact htraversed.inherit ancestorRoute
    | none => exact htraversed
  · exact htraversed

end Erasing

section Values

variable {s : State} {name : Name} {entry : RibEntry} {route existing : Route}

structure Erases (entry : RibEntry) (route existing : Route) : Prop where
  face : existing.faceId = route.faceId
  own : ∀ face, ownCost entry.m_routes face = withRoute (isOn face) existing (ownCost (remaining entry route) face)
  inherit : ∀ face, childInheritCost entry.m_routes face =
    withRoute (isInheritedOn face) existing (childInheritCost (remaining entry route) face)
  capture : captures entry.m_routes = (existing.isRibCapture || captures (remaining entry route))
  next : ∀ next, entry.getRouteWithSecondLowestCostByFaceId route.faceId = some next →
    next.faceId = route.faceId ∧ ∃ cost, ownCost (remaining entry route) route.faceId = some cost ∧ cost ≤ next.cost
  noNext : entry.getRouteWithSecondLowestCostByFaceId route.faceId = none →
    ownCost (remaining entry route) route.faceId = none
  length : entry.m_routes.length = 1 ↔ remaining entry route = []

theorem erases (hunique : UniqueRoutes entry.m_routes) (hkey : entry.findRoute route = some existing) :
    Erases entry route existing := by
  have hrest : remaining entry route = entry.m_routes.eraseP (fun r => compareFaceIdAndOrigin r route) :=
    eraseRoute_routes entry route
  have hmem : ∀ other, other ∈ remaining entry route ↔ other ∈ others route entry.m_routes := by
    intro other
    rw [hrest]
    exact mem_eraseP hunique
  have hcompare : compareFaceIdAndOrigin existing route = true := compare_of_key hkey
  have hexisting : existing ∈ entry.m_routes := List.mem_of_find?_eq_some hkey
  have hface := (compare_iff.mp hcompare).1
  have hstays : ∀ other, other ∈ entry.m_routes → other ≠ existing → other ∈ remaining entry route := by
    intro other hother hne
    rw [hmem]
    exact ((mem_of_key hunique hkey).mp hother).resolve_left hne
  refine ⟨hface, fun face => ?_, fun face => ?_, ?_, fun next hnext => ⟨?_, ?_⟩, fun hnext => ?_, ?_⟩
  · rw [ownCost, ownCost, hrest, leastCost_eraseP hunique]
    exact leastCost_of_key hunique hkey
  · rw [childInheritCost, childInheritCost, hrest, leastCost_eraseP hunique]
    exact leastCost_of_key hunique hkey
  · rw [hrest, captures_eraseP hunique]
    exact captures_of_key hunique hkey
  · exact (mem_byCost.mp (List.mem_of_getElem? hnext)).2
  · obtain ⟨other, hother, hon, hne, hle⟩ := exists_cheaper hunique hnext existing
    cases hcost : ownCost (remaining entry route) route.faceId with
    | none =>
      rw [ownCost, leastCost_eq_none] at hcost
      exact absurd (isOn_iff.mpr hon) (hcost other (hstays other hother hne))
    | some cost =>
      rw [ownCost, leastCost_eq_some] at hcost
      exact ⟨cost, rfl, (hcost.2 other (hstays other hother hne) (isOn_iff.mpr hon)).trans hle⟩
  · rw [ownCost, leastCost_eq_none]
    intro other hother hon
    rw [hmem, mem_others] at hother
    have heq := eq_of_no_second hnext hother.1 (isOn_iff.mp hon) hexisting hface
    rw [heq] at hother
    exact hother.2 hcompare
  · have hlength := List.length_eraseP_of_mem hexisting (p := fun r => compareFaceIdAndOrigin r route) hcompare
    rw [← hrest] at hlength
    have hpos : 0 < entry.m_routes.length := List.length_pos_of_mem hexisting
    rw [← List.length_eq_zero_iff]
    omega

theorem hasCapture_temp (hcounted : Counted s.m_rib) (hfind : s.m_rib.find name = some entry) (route : Route) :
    (entry.eraseRoute route).hasCapture = captures (remaining entry route) := by
  rw [RibEntry.hasCapture, eraseRoute_counted (hcounted name entry hfind) route, Bool.eq_iff_iff, decide_eq_true_eq,
    List.countP_pos_iff, captures, List.any_eq_true]
  rfl

end Values

section OwnNextHops

variable {s : State} {name : Name} {entry : RibEntry} {route existing : Route} {face : ℕ}

def unblocked (entry : RibEntry) (route : Route) : Bool :=
  entry.hasCapture && ! (entry.eraseRoute route).hasCapture && ! (remaining entry route).isEmpty

theorem unblocked_iff (h : Consistent s) (hfind : s.m_rib.find name = some entry)
    (herases : Erases entry route existing)
    (hcapture : existing.isRibCapture = true) :
    unblocked entry route = true ↔ captures (remaining entry route) = false ∧ remaining entry route ≠ [] := by
  rw [unblocked, Bool.and_eq_true, Bool.and_eq_true, h.counted.hasCapture hfind, hasCapture_temp h.counted hfind,
    herases.capture, hcapture, Bool.true_or, Bool.not_eq_true', Bool.not_eq_true', List.isEmpty_eq_false_iff,
    eq_self_iff_true, true_and]

theorem erasedOwn_other (h : Consistent s) (hfind : s.m_rib.find name = some entry)
    (herases : Erases entry route existing)
    (hne : face ≠ route.faceId) (hface : face ∉ s.removedFaces) (hrest : remaining entry route ≠ [])
    {ancestorRoutes : List Route} (hancestor : captures (remaining entry route) = false →
      ownCost (remaining entry route) face = none → existing.isRibCapture = true →
        costOn ancestorRoutes face = passedDown s.m_rib name face) :
    (erasedOwn (table s name) (entry.eraseRoute route) existing ancestorRoutes (unblocked entry route) face).1 =
        nextHopCost (remaining entry route) face (passedDown s.m_rib name face) ∧
      (ownCost (remaining entry route) face = none →
        (erasedOwn (table s name) (entry.eraseRoute route) existing ancestorRoutes (unblocked entry route) face).1.isSome =
          true →
        (erasedOwn (table s name) (entry.eraseRoute route) existing ancestorRoutes (unblocked entry route) face).2 =
          true) := by
  have hne' : face ≠ existing.faceId := by
    rw [herases.face]
    exact hne
  have hown : ownCost entry.m_routes face = ownCost (remaining entry route) face := by
    rw [herases.own, withRoute_of_not fun h => hne' (isOn_iff.mp h).symm]
  obtain ⟨hbefore, hrecord, hrecorded⟩ := table_existing h hfind hface
  rw [nextHopCost, hown] at hbefore
  rw [hown] at hrecorded
  unfold erasedOwn
  by_cases hopens : existing.isRibCapture = true ∧ unblocked entry route = true
  · obtain ⟨hcapture, hunblocked⟩ := hopens
    obtain ⟨hleft, -⟩ := (unblocked_iff h hfind herases hcapture).mp hunblocked
    rw [if_pos ⟨hcapture, hunblocked⟩]
    rw [herases.capture, hcapture, Bool.true_or, if_pos rfl, Option.or_none] at hbefore
    cases hcost : ownCost (remaining entry route) face with
    | some cost =>
      have hskip : (entry.eraseRoute route).hasFaceId face = true := by
        rw [hasFaceId_eq]
        exact Option.isSome_iff_exists.mpr ⟨cost, hcost⟩
      rw [inheriting_skip (fun face => (entry.eraseRoute route).hasFaceId face = true) hskip, setNextHop_other hne',
        nextHopCost_of_own hcost, hbefore, hcost]
      refine ⟨rfl, ?_⟩
      rintro ⟨⟩
    | none =>
      have hskip : ¬ (entry.eraseRoute route).hasFaceId face = true := by
        rw [hasFaceId_eq]
        exact fun hsome => (Option.isSome_iff_ne_none.mp hsome) hcost
      obtain ⟨hvalue, hinherits, -⟩ := inheriting_of_not_skip (fun face => (entry.eraseRoute route).hasFaceId face = true)
        hskip (setNextHop (table s name) existing.faceId none) ancestorRoutes
      rw [hcost] at hbefore
      rw [setNextHop_other hne', hbefore, Option.or_none] at hvalue
      refine ⟨?_, fun _ hsome => hinherits (by rw [← hvalue]; exact hsome)⟩
      rw [hvalue, hancestor hleft hcost hcapture, nextHopCost, hcost, hleft, if_neg Bool.false_ne_true, Option.none_or]
  · have hcaptures : captures entry.m_routes = captures (remaining entry route) := by
      rw [herases.capture]
      cases hcapture : existing.isRibCapture with
      | false => exact Bool.false_or _
      | true =>
        rw [Bool.true_or, eq_comm, ← Bool.not_eq_false]
        intro hleft
        exact hopens ⟨hcapture, (unblocked_iff h hfind herases hcapture).mpr ⟨hleft, hrest⟩⟩
    rw [if_neg hopens, setNextHop_other hne', hbefore, hcaptures, nextHopCost, hrecord]
    refine ⟨rfl, fun hcost hsome => hrecorded hcost ?_⟩
    rw [hbefore, hcaptures]
    exact hsome

theorem erasedOwn_self (h : Consistent s) (hfind : s.m_rib.find name = some entry)
    (herases : Erases entry route existing)
    (ancestorRoutes : List Route) :
    ((erasedOwn (table s name) (entry.eraseRoute route) existing ancestorRoutes (unblocked entry route) route.faceId).1 =
        none ∨ (captures (remaining entry route) = false ∧
      (erasedOwn (table s name) (entry.eraseRoute route) existing ancestorRoutes (unblocked entry route) route.faceId).1 =
        costOn ancestorRoutes route.faceId)) ∧
      ((erasedOwn (table s name) (entry.eraseRoute route) existing ancestorRoutes (unblocked entry route)
          route.faceId).1.isSome = true →
        (erasedOwn (table s name) (entry.eraseRoute route) existing ancestorRoutes (unblocked entry route)
          route.faceId).2 = true) := by
  unfold erasedOwn
  by_cases hopens : existing.isRibCapture = true ∧ unblocked entry route = true
  · obtain ⟨hleft, -⟩ := (unblocked_iff h hfind herases hopens.1).mp hopens.2
    rw [if_pos hopens, herases.face]
    by_cases hskip : (entry.eraseRoute route).hasFaceId route.faceId = true
    · rw [inheriting_skip (fun face => (entry.eraseRoute route).hasFaceId face = true) hskip, setNextHop_self]
      exact ⟨Or.inl rfl, fun hsome => absurd hsome Bool.false_ne_true⟩
    · obtain ⟨hvalue, hinherits, -⟩ := inheriting_of_not_skip (fun face => (entry.eraseRoute route).hasFaceId face = true)
        hskip (setNextHop (table s name) route.faceId none) ancestorRoutes
      rw [setNextHop_self, Option.or_none] at hvalue
      exact ⟨Or.inr ⟨hleft, hvalue⟩, fun hsome => hinherits (by rw [← hvalue]; exact hsome)⟩
  · rw [if_neg hopens, herases.face, setNextHop_self]
    exact ⟨Or.inl rfl, fun hsome => absurd hsome Bool.false_ne_true⟩

theorem withAncestor_other {temp : RibEntry} (own : ℕ → Option ℕ × Bool) (ancestorRoutes : List Route)
    (hne : face ≠ existing.faceId) :
    withAncestor own temp (RouteSet.find ancestorRoutes existing) face = own face := by
  unfold withAncestor
  split
  · cases hfound : RouteSet.find ancestorRoutes existing with
    | some found =>
      have hface : found.faceId = existing.faceId := by simpa using List.find?_some hfound
      exact setInherited_other (by rw [hface]; exact hne) own found.cost
    | none => rfl
  · rfl

theorem withAncestor_self (h : Consistent s) (hfind : s.m_rib.find name = some entry)
    (herases : Erases entry route existing) (hrest : remaining entry route ≠ []) (ancestorRoutes : List Route) :
    (withAncestor (erasedOwn (table s name) (entry.eraseRoute route) existing ancestorRoutes (unblocked entry route))
        (entry.eraseRoute route) (RouteSet.find ancestorRoutes existing) route.faceId).1 =
          (if captures (remaining entry route) = true then none else costOn ancestorRoutes route.faceId) ∧
      ((withAncestor (erasedOwn (table s name) (entry.eraseRoute route) existing ancestorRoutes (unblocked entry route))
          (entry.eraseRoute route) (RouteSet.find ancestorRoutes existing) route.faceId).1.isSome = true →
        (withAncestor (erasedOwn (table s name) (entry.eraseRoute route) existing ancestorRoutes (unblocked entry route))
          (entry.eraseRoute route) (RouteSet.find ancestorRoutes existing) route.faceId).2 = true) := by
  obtain ⟨hvalue, hrecord⟩ := erasedOwn_self h hfind herases ancestorRoutes
  have hempty : (entry.eraseRoute route).m_routes.isEmpty = false := List.isEmpty_eq_false_iff.mpr hrest
  have hancestor : (RouteSet.find ancestorRoutes existing).map Route.cost = costOn ancestorRoutes route.faceId := by
    rw [← herases.face]
    rfl
  unfold withAncestor
  rw [hasCapture_temp h.counted hfind, hempty, Bool.not_false, Bool.and_true]
  by_cases hcapture : captures (remaining entry route) = true
  · rw [hcapture, Bool.not_true, if_neg Bool.false_ne_true, if_pos rfl]
    rcases hvalue with hvalue | ⟨hleft, -⟩
    · exact ⟨hvalue, hrecord⟩
    · rw [hleft] at hcapture
      cases hcapture
  · rw [Bool.eq_false_iff.mpr hcapture, Bool.not_false, if_pos rfl, if_neg Bool.false_ne_true]
    cases hfound : RouteSet.find ancestorRoutes existing with
    | some found =>
      have hface : found.faceId = route.faceId := by
        rw [← herases.face]
        simpa using List.find?_some hfound
      rw [hfound, Option.map_some] at hancestor
      dsimp only
      rw [hface, setInherited_self, hancestor]
      exact ⟨rfl, fun _ => rfl⟩
    | none =>
      rw [hfound, Option.map_none] at hancestor
      dsimp only
      refine ⟨?_, hrecord⟩
      rw [← hancestor]
      rcases hvalue with hvalue | ⟨-, hvalue⟩
      · exact hvalue
      · exact hvalue.trans hancestor.symm

end OwnNextHops

section Erased

variable {s : State} {name : Name} {entry : RibEntry} {route existing : Route} {face : ℕ}

theorem costOn_erasedToAdd (h : Consistent s) (hfind : s.m_rib.find name = some entry)
    (herases : Erases entry route existing) (ancestorRoutes : List Route) (face : ℕ) :
    costOn (erasedToAdd (entry.eraseRoute route) existing ancestorRoutes (unblocked entry route)) face = none ∧
        ¬ Unblocks entry route existing ∨
      costOn (erasedToAdd (entry.eraseRoute route) existing ancestorRoutes (unblocked entry route)) face =
        costOn ancestorRoutes face ∧ Unblocks entry route existing := by
  unfold erasedToAdd Unblocks
  by_cases hcapture : existing.isRibCapture = true
  · have hiff := unblocked_iff h hfind herases hcapture
    rw [if_pos hcapture, if_pos hcapture]
    by_cases hunblocked : unblocked entry route = true
    · rw [if_pos hunblocked]
      exact Or.inr ⟨rfl, hiff.mp hunblocked⟩
    · rw [if_neg hunblocked]
      exact Or.inl ⟨rfl, mt hiff.mpr hunblocked⟩
  · rw [if_neg hcapture, if_neg hcapture, hasCapture_temp h.counted hfind]
    by_cases hinherit : existing.isChildInherit = true
    · rw [if_pos hinherit]
      by_cases hleft : captures (remaining entry route) = true
      · rw [if_pos hleft]
        refine Or.inl ⟨rfl, fun hall => ?_⟩
        rw [hleft] at hall
        cases hall.1
      · rw [if_neg hleft]
        exact Or.inr ⟨rfl, Bool.eq_false_iff.mpr hleft, hinherit⟩
    · rw [if_neg hinherit]
      exact Or.inl ⟨rfl, fun hall => hinherit hall.2⟩

theorem onFace_erased_iff (herases : Erases entry route existing) (face : ℕ) :
    onFace (if existing.isChildInherit = true then [existing] else []) face = true ↔
      face = route.faceId ∧ existing.isChildInherit = true := by
  rw [← herases.face]
  split
  · rename_i hinherit
    rw [onFace_iff, and_iff_left hinherit]
    simp [eq_comm]
  · rename_i hinherit
    exact iff_of_false Bool.false_ne_true fun hall => hinherit hall.2

theorem passed_erased (h : Consistent s) (hfind : s.m_rib.find name = some entry)
    (herases : Erases entry route existing)
    (hbelow : ErasedBelowRight s name entry route existing) {ancestorRoutes : List Route}
    (hancestors : ancestorRoutes = s.m_rib.getAncestorRoutes entry)
    (hfaces : ∀ face, onFace ancestorRoutes face = (passedDown s.m_rib name face).isSome)
    {added : Option ℕ} (hadded : ∀ next, face = route.faceId → Readds entry route next → added = some next.cost)
    (hnotAdded : (¬ ∃ next, face = route.faceId ∧ Readds entry route next) → added = none)
    (hface : face ∉ s.removedFaces) (hpasses : PassesTo s.m_rib name face) :
    (added.or (costOn (erasedToAdd (entry.eraseRoute route) existing ancestorRoutes (unblocked entry route)) face)).or
        (if onFace (if existing.isChildInherit = true then [existing] else []) face = true then none
          else passedOn entry.m_routes face (passedDown s.m_rib name face)) =
      passedOn (remaining entry route) face (passedDown s.m_rib name face) := by
  obtain ⟨hreadded, hother⟩ := hbelow.2 face hface hpasses
  have hremoves := onFace_erased_iff herases face
  by_cases hreadds : ∃ next, face = route.faceId ∧ Readds entry route next
  · obtain ⟨next, hon, hnext⟩ := hreadds
    rw [hadded next hon hnext, hreadded next hon hnext]
    rfl
  · rw [hnotAdded hreadds, Option.none_or]
    obtain ⟨hancestor, hremoved, hempty⟩ := hother hreadds
    by_cases hopens : Unblocks entry route existing ∧ passedDown s.m_rib name face ≠ none
    · rcases costOn_erasedToAdd h hfind herases ancestorRoutes face with ⟨-, hnot⟩ | ⟨hcost, -⟩
      · exact absurd hopens.1 hnot
      · have hsome : (costOn ancestorRoutes face).isSome = true := by
          rw [costOn_isSome, hfaces]
          exact Option.isSome_iff_ne_none.mpr hopens.2
        obtain ⟨cost, hsome⟩ := Option.isSome_iff_exists.mp hsome
        rw [hcost, ← hancestor hopens.1 hopens.2, ← hancestors, hsome, Option.some_or]
    · have hnone : costOn (erasedToAdd (entry.eraseRoute route) existing ancestorRoutes (unblocked entry route)) face =
          none := by
        rcases costOn_erasedToAdd h hfind herases ancestorRoutes face with ⟨hcost, -⟩ | ⟨hcost, hunblocks⟩
        · exact hcost
        · rw [hcost, costOn_eq_none, hfaces, Option.isSome_eq_false_iff, Option.isNone_iff_eq_none]
          by_contra hdown
          exact hopens ⟨hunblocks, hdown⟩
      rw [hnone, Option.none_or]
      by_cases hremove : face = route.faceId ∧ existing.isChildInherit = true
      · rw [if_pos (hremoves.mpr hremove), hremoved hopens hremove.1 hremove.2]
      · rw [if_neg (mt hremoves.mp hremove), passedOn, passedOn, herases.inherit, withRoute_of_not, herases.capture]
        · cases hcapture : existing.isRibCapture with
          | false => rw [Bool.false_or]
          | true =>
            rw [Bool.true_or, if_pos rfl]
            by_cases hleft : captures (remaining entry route) = true
            · rw [if_pos hleft]
            · rw [if_neg hleft]
              by_cases hrest : remaining entry route = []
              · rw [hempty hrest hcapture]
              · by_cases hdown : passedDown s.m_rib name face = none
                · rw [hdown]
                · refine absurd ⟨⟨Bool.eq_false_iff.mpr hleft, ?_⟩, hdown⟩ hopens
                  rw [if_pos hcapture]
                  exact hrest
        · rw [isInheritedOn_iff, herases.face]
          exact fun hall => hremove ⟨hall.1.symm, hall.2⟩

theorem find_erase_existing {rib : Rib} (hfind : rib.find name = some entry)
    (hkey : entry.findRoute route = some existing) :
    (((rib.erase name route).find name).isSome = true ↔ remaining entry route ≠ []) ∧
      (rib.erase name route).routesOf name = remaining entry route := by
  have hroutes := find_erase routes_ignoreLinks rib name route name
  rw [if_pos rfl, hfind, Option.bind_some, RibEntry.afterErase, hkey, Option.isSome_some] at hroutes
  simp only [true_and] at hroutes
  constructor
  · rw [← Option.isSome_map (f := RibEntry.m_routes), hroutes]
    split
    · rename_i hempty
      exact iff_of_false Bool.false_ne_true fun hne => hne (List.isEmpty_iff.mp hempty)
    · rename_i hempty
      exact iff_of_true rfl fun heq => hempty (List.isEmpty_iff.mpr heq)
  · rw [routesOf_erase, if_pos rfl, routesOf_some hfind]
    exact (eraseRoute_routes entry route).symm

theorem erasedOwn_gone (hrest : remaining entry route = []) {before : ℕ → Option ℕ × Bool}
    {ancestorRoutes : List Route} :
    erasedOwn before (entry.eraseRoute route) existing ancestorRoutes (unblocked entry route) =
      setNextHop before existing.faceId none := by
  have hunblocked : unblocked entry route = false := by
    rw [unblocked, hrest]
    exact Bool.and_false _
  unfold erasedOwn
  rw [hunblocked, if_neg fun hall => Bool.false_ne_true hall.2]

/-- What the name of an unregistered route is left with, and what is passed down
below it: the cheapest route that remains on the face goes down again. -/
structure Leaves (s : State) (name : Name) (entry : RibEntry) (route existing : Route) (own : ℕ → Option ℕ × Bool)
    (add : ℕ → Option ℕ) : Prop where
  others : ∀ face, face ≠ route.faceId → own face = erasedOwn (table s name) (entry.eraseRoute route) existing
    (s.m_rib.getAncestorRoutes entry) (unblocked entry route) face
  kept : route.faceId ∉ s.removedFaces → remaining entry route ≠ [] →
    (own route.faceId).1 = nextHopCost (remaining entry route) route.faceId (passedDown s.m_rib name route.faceId) ∧
      (ownCost (remaining entry route) route.faceId = none → (own route.faceId).1.isSome = true →
        (own route.faceId).2 = true)
  gone : remaining entry route = [] → (own route.faceId).1 = none
  added : ∀ face, ∃ added, add face = added.or (costOn (erasedToAdd (entry.eraseRoute route) existing
      (s.m_rib.getAncestorRoutes entry) (unblocked entry route)) face) ∧
    (∀ next, face = route.faceId → Readds entry route next → added = some next.cost) ∧
    ((¬ ∃ next, face = route.faceId ∧ Readds entry route next) → added = none)

theorem withAncestor_erased_other (herases : Erases entry route existing) (hne : face ≠ route.faceId) :
    withAncestor (erasedOwn (table s name) (entry.eraseRoute route) existing (s.m_rib.getAncestorRoutes entry)
        (unblocked entry route)) (entry.eraseRoute route) (RouteSet.find (s.m_rib.getAncestorRoutes entry) existing) face =
      erasedOwn (table s name) (entry.eraseRoute route) existing (s.m_rib.getAncestorRoutes entry)
        (unblocked entry route) face :=
  withAncestor_other _ _ (by rw [herases.face]; exact hne)

theorem leaves_noNext (h : Consistent s) (hfind : s.m_rib.find name = some entry)
    (herases : Erases entry route existing) (hright : ErasedRight s name entry route existing)
    (hsecond : entry.getRouteWithSecondLowestCostByFaceId route.faceId = none) :
    Leaves s name entry route existing
      (withAncestor (erasedOwn (table s name) (entry.eraseRoute route) existing (s.m_rib.getAncestorRoutes entry)
        (unblocked entry route)) (entry.eraseRoute route) (RouteSet.find (s.m_rib.getAncestorRoutes entry) existing))
      (costOn (erasedToAdd (entry.eraseRoute route) existing (s.m_rib.getAncestorRoutes entry)
        (unblocked entry route))) := by
  have hnone := herases.noNext hsecond
  refine ⟨fun face => withAncestor_erased_other herases, ?_, ?_, ?_⟩
  · intro halive hrest
    obtain ⟨hvalue, hrecord⟩ := withAncestor_self h hfind herases hrest (s.m_rib.getAncestorRoutes entry)
    refine ⟨?_, fun _ => hrecord⟩
    rw [hvalue, nextHopCost, hnone, Option.none_or]
    split
    · rfl
    · rename_i hleft
      exact hright.2 hrest (Bool.eq_false_iff.mpr hleft) _ halive hnone (Or.inl rfl)
  · intro hrest
    have hempty : (entry.eraseRoute route).m_routes.isEmpty = true := List.isEmpty_iff.mpr hrest
    unfold withAncestor
    rw [hempty, Bool.not_true, Bool.and_false, if_neg Bool.false_ne_true, erasedOwn_gone hrest, herases.face,
      setNextHop_self]
  · intro face
    refine ⟨none, Option.none_or.symm, ?_, fun _ => rfl⟩
    intro next _ hreadds
    rw [Readds, hsecond] at hreadds
    cases hreadds.1

theorem leaves_next (h : Consistent s) (hfind : s.m_rib.find name = some entry)
    (herases : Erases entry route existing) (hright : ErasedRight s name entry route existing) {next : Route}
    (hsecond : entry.getRouteWithSecondLowestCostByFaceId route.faceId = some next) {own : ℕ → Option ℕ × Bool}
    (hown : own = withAncestor (erasedOwn (table s name) (entry.eraseRoute route) existing
      (s.m_rib.getAncestorRoutes entry) (unblocked entry route)) (entry.eraseRoute route)
        (RouteSet.find (s.m_rib.getAncestorRoutes entry) existing)) :
    Leaves s name entry route existing
      (if isLowest next ((entry.eraseRoute route).getRouteWithLowestCostByFaceId route.faceId) = true then
        setNextHop own route.faceId (some next.cost)
      else own)
      (fun face => (costOn (routesToAdd (entry.eraseRoute route) next) face).or
        (costOn (erasedToAdd (entry.eraseRoute route) existing (s.m_rib.getAncestorRoutes entry)
          (unblocked entry route)) face)) := by
  subst hown
  obtain ⟨hface, least, hleast, hle⟩ := herases.next next hsecond
  have hlowest := isLowest_iff next (getRouteWithLowestCost_cost (entry.eraseRoute route) route.faceId)
  refine ⟨?_, ?_, ?_, ?_⟩
  · intro face hne
    split
    · rw [setNextHop_other hne]
      exact withAncestor_erased_other herases hne
    · exact withAncestor_erased_other herases hne
  · intro halive hrest
    have hleft : ownCost (remaining entry route) route.faceId = some least := hleast
    rw [nextHopCost_of_own hleft]
    split
    · rename_i hlow
      rw [hlowest] at hlow
      rw [setNextHop_self, le_antisymm (hlow least hleft) hle]
      refine ⟨rfl, fun hnone => ?_⟩
      rw [hleft] at hnone
      cases hnone
    · rename_i hlow
      rcases hright.1 halive next hsecond with hlow' | ⟨hcapture, hancestor⟩
      · exact absurd hlow' hlow
      · obtain ⟨hvalue, hrecord⟩ := withAncestor_self h hfind herases hrest (s.m_rib.getAncestorRoutes entry)
        refine ⟨?_, fun _ => hrecord⟩
        rw [hvalue, hcapture, if_neg Bool.false_ne_true, hancestor, hleft]
  · intro hrest
    rw [hrest] at hleast
    cases hleast
  · intro face
    refine ⟨costOn (routesToAdd (entry.eraseRoute route) next) face, rfl, ?_, ?_⟩
    · intro next' hon hreadds
      obtain ⟨hsame, hinherit, hlow⟩ := hreadds
      rw [hsecond] at hsame
      cases hsame
      rw [costOn_routesToAdd, hface, if_pos (And.intro hon ⟨hinherit, hlow⟩)]
    · intro hnot
      rw [costOn_routesToAdd, hface, if_neg]
      rintro ⟨hon, hinherit, hlow⟩
      exact hnot ⟨next, hon, hsecond, hinherit, hlow⟩

theorem changes_secondRoute (h : Consistent s) (hfind : s.m_rib.find name = some entry)
    (herases : Erases entry route existing) (hright : ErasedRight s name entry route existing) {updates : Updates}
    {remove : ℕ → Bool} (hupdates : Changes s.m_rib name (table s) updates
      (withAncestor (erasedOwn (table s name) (entry.eraseRoute route) existing (s.m_rib.getAncestorRoutes entry)
        (unblocked entry route)) (entry.eraseRoute route) (RouteSet.find (s.m_rib.getAncestorRoutes entry) existing))
      (costOn (erasedToAdd (entry.eraseRoute route) existing (s.m_rib.getAncestorRoutes entry) (unblocked entry route)))
      remove) :
    ∃ own add, Changes s.m_rib name (table s)
      (match entry.getRouteWithSecondLowestCostByFaceId route.faceId with
        | some next => createFibUpdatesForNewRoute s.m_rib (entry.eraseRoute route) next false updates
        | none => updates) own add remove ∧ Leaves s name entry route existing own add := by
  cases hsecond : entry.getRouteWithSecondLowestCostByFaceId route.faceId with
  | none => exact ⟨_, _, hupdates, leaves_noNext h hfind herases hright hsecond⟩
  | some next =>
    have hadded := changes_nextRoute hupdates h.tree hfind ((eraseRoute_name entry route).trans (find_name hfind))
      (eraseRoute_children entry route) next
    rw [(herases.next next hsecond).1] at hadded
    exact ⟨_, _, hadded, leaves_next h hfind herases hright hsecond rfl⟩

theorem Leaves.nextHops {own : ℕ → Option ℕ × Bool} {add : ℕ → Option ℕ}
    (hleaves : Leaves s name entry route existing own add) (h : Consistent s) (hfind : s.m_rib.find name = some entry)
    (herases : Erases entry route existing) (hright : ErasedRight s name entry route existing)
    (hface : face ∉ s.removedFaces) (hrest : remaining entry route ≠ []) :
    (own face).1 = nextHopCost (remaining entry route) face (passedDown s.m_rib name face) ∧
      (ownCost (remaining entry route) face = none → (own face).1.isSome = true → (own face).2 = true) := by
  by_cases hne : face = route.faceId
  · subst hne
    exact hleaves.kept hface hrest
  · rw [hleaves.others face hne]
    exact erasedOwn_other h hfind herases hne hface hrest fun hleft hcost hcapture =>
      hright.2 hrest hleft face hface hcost (Or.inr hcapture)

theorem Leaves.passed {own : ℕ → Option ℕ × Bool} {add : ℕ → Option ℕ}
    (hleaves : Leaves s name entry route existing own add) (h : Consistent s) (hfind : s.m_rib.find name = some entry)
    (herases : Erases entry route existing) (hbelow : ErasedBelowRight s name entry route existing)
    (hfaces : ∀ face, onFace (s.m_rib.getAncestorRoutes entry) face = (passedDown s.m_rib name face).isSome)
    (hface : face ∉ s.removedFaces) (hpasses : PassesTo s.m_rib name face) :
    (add face).or (if onFace (if existing.isChildInherit = true then [existing] else []) face = true then none
      else passedFrom s.m_rib name face) =
        passedOn (remaining entry route) face (passedDown s.m_rib name face) := by
  obtain ⟨added, heq, hadds, hnotAdds⟩ := hleaves.added face
  rw [heq, passedFrom_existing hfind]
  exact passed_erased h hfind herases hbelow rfl hfaces hadds hnotAdds hface hpasses

theorem Leaves.removeAll {own : ℕ → Option ℕ × Bool} {add : ℕ → Option ℕ}
    (hleaves : Leaves s name entry route existing own add) (h : Consistent s) (hfind : s.m_rib.find name = some entry)
    (herases : Erases entry route existing) (hrest : remaining entry route = []) (hface : face ∉ s.removedFaces) :
    (if onFace entry.m_inheritedRoutes face = true then ((none : Option ℕ), (own face).2) else own face).1 = none := by
  by_cases hon : onFace entry.m_inheritedRoutes face = true
  · rw [if_pos hon]
  · rw [if_neg hon]
    by_cases hne : face = route.faceId
    · subst hne
      exact hleaves.gone hrest
    · obtain ⟨hbefore, -, hrecorded⟩ := table_existing h hfind hface
      have hown : ownCost entry.m_routes face = none := by
        rw [herases.own, hrest, withRoute_of_not]
        · rfl
        · rw [isOn_iff, herases.face]
          exact fun heq => hne heq.symm
      rw [hleaves.others face hne, erasedOwn_gone hrest, setNextHop_other (by rw [herases.face]; exact hne)]
      by_contra hsome
      exact hon (hrecorded hown (Option.isSome_iff_ne_none.mpr hsome))

theorem updateRib_unregister {update : RibUpdate} (haction : update.action ≠ .REGISTER) (rib : Rib) :
    updateRib update rib = rib.erase update.name update.route := by
  unfold updateRib
  cases h : update.action with
  | REGISTER => exact absurd h haction
  | UNREGISTER => rfl
  | REMOVE_FACE => rfl

theorem settles_erasedRoute (h : Consistent s) {update : RibUpdate} (haction : update.action ≠ .REGISTER)
    (hfind : s.m_rib.find update.name = some entry) (hkey : entry.findRoute update.route = some existing)
    (hright : ErasedRight s update.name entry update.route existing)
    (hbelow : ErasedBelowRight s update.name entry update.route existing) :
    ∃ own add remove, Settles s update
      (computeUpdatesForUnregistration s.m_rib update ⟨update.route.faceId, [], [], []⟩) own add remove := by
  have hupdate := updateRib_unregister haction s.m_rib
  obtain ⟨hsome, hroutes⟩ := find_erase_existing hfind hkey
  have herases := erases (routesOf_updated h.unique hfind) hkey
  have hparent : s.m_rib.getAncestorRoutes (entry.eraseRoute update.route) = s.m_rib.getAncestorRoutes entry := by
    rw [Rib.getAncestorRoutes, eraseRoute_parent]
    rfl
  obtain ⟨hsorted, hfaces⟩ := getAncestorRoutes_spec h.tree h.counted hfind (eraseRoute_parent entry update.route)
  have herased := changes_erasedRoute (changes_none s.m_rib update.name (table s) update.route.faceId) h.tree hfind
    ((eraseRoute_name entry update.route).trans (find_name hfind)) (eraseRoute_children entry update.route) hsorted
    existing (entry.hasCapture && ! (entry.eraseRoute update.route).hasCapture)
  rw [hparent] at hfaces herased
  change Changes _ _ _ _ (withAncestor (erasedOwn (table s update.name) (entry.eraseRoute update.route) existing
    (s.m_rib.getAncestorRoutes entry) (unblocked entry update.route)) (entry.eraseRoute update.route)
      (RouteSet.find (s.m_rib.getAncestorRoutes entry) existing)) (costOn (erasedToAdd (entry.eraseRoute update.route) existing
        (s.m_rib.getAncestorRoutes entry) (unblocked entry update.route))) _ at herased
  obtain ⟨own, add, hchanges, hleaves⟩ := changes_secondRoute h hfind herases hright herased
  have hpassed := fun (face : ℕ) (hface : face ∉ s.removedFaces) (hpasses : PassesTo s.m_rib update.name face) =>
    hleaves.passed h hfind herases hbelow hfaces hface hpasses
  have hremoved : ∀ face, face ∉ s.removedFaces →
      onFace (if existing.isChildInherit = true then [existing] else []) face = true →
        ¬ StaleBelow s.m_rib update.name face := by
    intro face hface hon
    obtain ⟨rfl, hinherit⟩ := (onFace_erased_iff herases face).mp hon
    exact hbelow.1 hface hinherit
  unfold computeUpdatesForUnregistration
  rw [hfind]
  dsimp only
  rw [hkey]
  dsimp only
  by_cases hlength : entry.m_routes.length = 1
  · have hrest := herases.length.mp hlength
    have hnone := fun (face : ℕ) (hface : face ∉ s.removedFaces) => hleaves.removeAll h hfind herases hrest hface
    rw [if_pos hlength, createFibUpdatesForErasedRibEntry, find_name hfind]
    refine ⟨_, _, _, hchanges.removeAll entry.m_inheritedRoutes, ?_, ?_, ?_, hremoved⟩
    · intro face hface
      rw [hupdate, if_neg (mt hsome.mp (not_not.mpr hrest))]
      exact hnone face hface
    · intro face hface _ hnext
      rw [hnone face hface] at hnext
      cases hnext
    · rw [hupdate, hroutes]
      exact hpassed
  · have hrest := mt herases.length.mpr hlength
    have hnextHops := fun (face : ℕ) (hface : face ∉ s.removedFaces) =>
      hleaves.nextHops h hfind herases hright hface hrest
    rw [if_neg hlength]
    refine ⟨_, _, _, hchanges, ?_, ?_, ?_, hremoved⟩
    · intro face hface
      rw [hupdate, if_pos (hsome.mpr hrest), hroutes]
      exact (hnextHops face hface).1
    · intro face hface hcost hnext
      rw [hupdate, hroutes] at hcost
      exact (hnextHops face hface).2 hcost hnext
    · rw [hupdate, hroutes]
      exact hpassed

end Erased

end LeoNdn.FibErasure
