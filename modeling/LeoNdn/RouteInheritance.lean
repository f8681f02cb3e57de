import LeoNdn.RibTraversal
import Mathlib.Order.Lattice.Nat

/-!
What the routes of the RIB ask of the FIB: on each face the cheapest route of
the name, or else what its nearest ancestors pass down to it.
-/

namespace LeoNdn.RouteInheritance

open LeoNdn.NdnPacket LeoNdn.RibTable LeoNdn.FibUpdater LeoNdn.Inheritance LeoNdn.RibTree
open LeoNdn.FibChanges LeoNdn.RibTraversal

section Costs

variable {p : Route → Bool} {routes routes' : List Route} {route : Route} {face cost : ℕ} {above : Option ℕ}

def leastCost (p : Route → Bool) (routes : List Route) : Option ℕ := ((routes.filter p).map Route.cost).min?

def withRoute (p : Route → Bool) (route : Route) (cost : Option ℕ) : Option ℕ :=
  if p route = true then some (cost.elim route.cost (min route.cost)) else cost

def isOn (face : ℕ) (route : Route) : Bool := route.faceId = face

def isInheritedOn (face : ℕ) (route : Route) : Bool := route.faceId = face && route.isChildInherit

def ownCost (routes : List Route) (face : ℕ) : Option ℕ := leastCost (isOn face) routes

def childInheritCost (routes : List Route) (face : ℕ) : Option ℕ := leastCost (isInheritedOn face) routes

def captures (routes : List Route) : Bool := routes.any Route.isRibCapture

def passedOn (routes : List Route) (face : ℕ) (above : Option ℕ) : Option ℕ :=
  (childInheritCost routes face).or (if captures routes = true then none else above)

def nextHopCost (routes : List Route) (face : ℕ) (above : Option ℕ) : Option ℕ :=
  (ownCost routes face).or (if captures routes = true then none else above)

theorem leastCost_eq_some : leastCost p routes = some cost ↔
    (∃ route ∈ routes, p route = true ∧ route.cost = cost) ∧ ∀ route ∈ routes, p route = true → cost ≤ route.cost := by
  rw [leastCost, List.min?_eq_some_iff, List.forall_mem_map]
  simp only [List.mem_map, List.mem_filter, and_assoc, and_imp]

theorem leastCost_eq_none : leastCost p routes = none ↔ ∀ route ∈ routes, ¬ p route = true := by
  rw [leastCost, List.min?_eq_none_iff, List.map_eq_nil_iff, List.filter_eq_nil_iff]

theorem leastCost_congr (h : ∀ route, p route = true → (route ∈ routes ↔ route ∈ routes')) :
    leastCost p routes = leastCost p routes' := by
  cases hcost : leastCost p routes' with
  | none =>
    rw [leastCost_eq_none] at hcost ⊢
    intro route hroute hp
    exact hcost route ((h route hp).mp hroute) hp
  | some cost =>
    rw [leastCost_eq_some] at hcost ⊢
    obtain ⟨⟨route, hroute, hp, hrcost⟩, hleast⟩ := hcost
    refine ⟨⟨route, (h route hp).mpr hroute, hp, hrcost⟩, ?_⟩
    intro other hother hp
    exact hleast other ((h other hp).mp hother) hp

theorem leastCost_with (h : ∀ other, other ∈ routes' ↔ other = route ∨ other ∈ routes) :
    leastCost p routes' = withRoute p route (leastCost p routes) := by
  unfold withRoute
  by_cases hp : p route = true
  · rw [if_pos hp, leastCost_eq_some]
    cases hcost : leastCost p routes with
    | none =>
      rw [leastCost_eq_none] at hcost
      refine ⟨⟨route, (h route).mpr (Or.inl rfl), hp, rfl⟩, ?_⟩
      intro other hother hpo
      rcases (h other).mp hother with rfl | hother
      · exact le_rfl
      · exact absurd hpo (hcost other hother)
    | some cost =>
      rw [leastCost_eq_some] at hcost
      obtain ⟨⟨least, hleast, hpl, hlcost⟩, hall⟩ := hcost
      rw [Option.elim_some]
      constructor
      · rcases le_total route.cost cost with hle | hle
        · exact ⟨route, (h route).mpr (Or.inl rfl), hp, (min_eq_left hle).symm⟩
        · exact ⟨least, (h least).mpr (Or.inr hleast), hpl, hlcost.trans (min_eq_right hle).symm⟩
      · intro other hother hpo
        rcases (h other).mp hother with rfl | hother
        · exact min_le_left _ _
        · exact (min_le_right _ _).trans (hall other hother hpo)
  · rw [if_neg hp]
    refine leastCost_congr fun other hpo => ?_
    rw [h, or_iff_right]
    rintro rfl
    exact hp hpo

theorem mem_of_lowestCost {routes : List Route} {route : Route} (h : RibEntry.lowestCost routes = some route) :
    route ∈ routes := by
  induction routes with
  | nil => cases h
  | cons first routes ih =>
    unfold RibEntry.lowestCost at h
    cases hrest : RibEntry.lowestCost routes with
    | none =>
      rw [hrest] at h
      cases h
      exact List.mem_cons_self
    | some candidate =>
      rw [hrest] at h ih
      dsimp only at h
      split at h
      · exact List.mem_cons_of_mem first (ih h)
      · cases h
        exact List.mem_cons_self

theorem lowestCost_cost (routes : List Route) :
    (RibEntry.lowestCost routes).map Route.cost = (routes.map Route.cost).min? := by
  induction routes with
  | nil => rfl
  | cons route routes ih =>
    unfold RibEntry.lowestCost
    rw [List.map_cons, List.min?_cons, ← ih]
    cases RibEntry.lowestCost routes with
    | none => rfl
    | some candidate =>
      dsimp only [Option.map_some, Option.elim_some]
      split
      · rename_i hlt
        exact congrArg some (min_eq_right hlt.le).symm
      · rename_i hge
        exact congrArg some (min_eq_left (not_lt.mp hge)).symm

theorem getRouteWithLowestCost_cost (entry : RibEntry) (face : ℕ) :
    (entry.getRouteWithLowestCostByFaceId face).map Route.cost = ownCost entry.m_routes face := lowestCost_cost _

theorem getRouteWithLowestCostAndChildInherit_cost (entry : RibEntry) (face : ℕ) :
    (entry.getRouteWithLowestCostAndChildInheritByFaceId face).map Route.cost = childInheritCost entry.m_routes face :=
  lowestCost_cost _

theorem isLowest_iff (route : Route) {other : Option Route} {least : Option ℕ} (h : other.map Route.cost = least) :
    isLowest route other = true ↔ ∀ cost, least = some cost → route.cost ≤ cost := by
  subst h
  cases other with
  | none => simp [isLowest]
  | some other => simp [isLowest]

theorem hasFaceId_eq (entry : RibEntry) (face : ℕ) : entry.hasFaceId face = (ownCost entry.m_routes face).isSome := by
  rw [Bool.eq_iff_iff, ← Option.ne_none_iff_isSome, Ne, ownCost, leastCost_eq_none, RibEntry.hasFaceId, List.any_eq_true]
  simp [isOn]

theorem hasChildInherit_eq (entry : RibEntry) (face : ℕ) :
    entry.hasChildInheritOnFaceId face = (childInheritCost entry.m_routes face).isSome := by
  rw [Bool.eq_iff_iff, ← Option.ne_none_iff_isSome, Ne, childInheritCost, leastCost_eq_none,
    RibEntry.hasChildInheritOnFaceId, List.any_eq_true]
  simp [isInheritedOn]

theorem passedOn_nil (face : ℕ) (above : Option ℕ) : passedOn [] face above = above := rfl

theorem nextHopCost_of_captures (h : captures routes = true) (above above' : Option ℕ) :
    nextHopCost routes face above = nextHopCost routes face above' := by
  rw [nextHopCost, nextHopCost, if_pos h, if_pos h]

theorem nextHopCost_of_own (h : ownCost routes face = some cost) (above : Option ℕ) :
    nextHopCost routes face above = some cost := by
  rw [nextHopCost, h, Option.some_or]

theorem own_of_childInherit (h : (childInheritCost routes face).isSome = true) :
    (ownCost routes face).isSome = true := by
  rw [← Option.ne_none_iff_isSome, Ne, childInheritCost, leastCost_eq_none] at h
  rw [← Option.ne_none_iff_isSome, Ne, ownCost, leastCost_eq_none]
  intro hnone
  refine h fun route hroute hinherited => hnone route hroute ?_
  rw [isInheritedOn, Bool.and_eq_true] at hinherited
  exact hinherited.1

end Costs

section Passing

variable {rib rib' : Rib} {name d : Name} {face : ℕ}

def passedDown (rib : Rib) (name : Name) (face : ℕ) : Option ℕ :=
  flow (fun q => passedOn (rib.routesOf q) face) name name.length

/-- The next hop that a name is to have in the FIB on a face. -/
def expected (rib : Rib) (name : Name) (face : ℕ) : Option ℕ :=
  if (rib.find name).isSome = true then nextHopCost (rib.routesOf name) face (passedDown rib name face) else none

def passedFrom (rib : Rib) (name : Name) (face : ℕ) : Option ℕ :=
  passedOn (rib.routesOf name) face (passedDown rib name face)

def Counted (rib : Rib) : Prop :=
  ∀ name entry, rib.find name = some entry → entry.m_nRoutesWithCaptureSet = entry.m_routes.countP Route.isRibCapture

theorem Counted.hasCapture (h : Counted rib) {entry : RibEntry} (hfind : rib.find name = some entry) :
    entry.hasCapture = captures entry.m_routes := by
  rw [RibEntry.hasCapture, h name entry hfind, Bool.eq_iff_iff, decide_eq_true_eq, List.countP_pos_iff, captures,
    List.any_eq_true]

theorem routesOf_of_not_mem (h : ¬ Mem rib name) : rib.routesOf name = [] := by
  rw [Mem, ← Option.ne_none_iff_isSome, not_not] at h
  exact routesOf_none h

theorem passedDown_eq {parent : Option Name} (h : IsParent (Mem rib) name parent) :
    passedDown rib name face = parent.elim none (fun p => passedFrom rib p face) := by
  have hclosed : ∀ q, ¬ Mem rib q → ∀ x, passedOn (rib.routesOf q) face x = x := by
    intro q hq x
    rw [routesOf_of_not_mem hq, passedOn_nil]
  cases parent with
  | none => exact flow_open fun q hq => hclosed q (h q hq)
  | some p =>
    refine flow_through h.1 fun q hpq hq => hclosed q ?_
    intro hmem
    exact hpq.not_prefix (h.2.2 q hq hmem)

section Change

variable (hroutes : ∀ q, q ≠ name → rib'.routesOf q = rib.routesOf q)

include hroutes

theorem passedDown_of_not_under (h : ¬ Under name d) : passedDown rib' d face = passedDown rib d face := by
  refine flow_unchanged (fun q hq => ?_) h
  rw [hroutes q hq]

theorem nextHopCost_below (hcounted : Counted rib) (hd : Mem rib d) (hne : d ≠ name) :
    (Reached rib name face d ∧ passedDown rib d face = passedFrom rib name face ∧
        passedDown rib' d face = passedFrom rib' name face) ∨
      (¬ Reached rib name face d ∧ nextHopCost (rib.routesOf d) face (passedDown rib' d face) =
        nextHopCost (rib.routesOf d) face (passedDown rib d face)) := by
  by_cases hunder : Under name d
  · by_cases hopen : ∀ p entry, rib.find p = some entry → Under name p → p <+: d → LetsThrough entry face
    · left
      have hgate : ∀ q, Under name q → Under q d → ∀ x, passedOn (rib.routesOf q) face x = x := by
        intro q hnq hqd x
        cases hfind : rib.find q with
        | none => rw [routesOf_none hfind, passedOn_nil]
        | some entry =>
          obtain ⟨hcapture, hinherit⟩ := hopen q entry hfind hnq hqd.1
          rw [hcounted.hasCapture hfind] at hcapture
          rw [hasChildInherit_eq, Option.isSome_eq_false_iff, Option.isNone_iff_eq_none] at hinherit
          rw [routesOf_some hfind, passedOn, hinherit, hcapture, if_neg Bool.false_ne_true, Option.none_or]
      refine ⟨⟨hd, hunder, hopen⟩, flow_through hunder hgate, ?_⟩
      refine flow_through hunder fun q hnq hqd x => ?_
      rw [hroutes q hnq.2.symm]
      exact hgate q hnq hqd x
    · right
      simp only [not_forall] at hopen
      obtain ⟨p, entry, hfind, hnp, hpd, hblocks⟩ := hopen
      refine ⟨fun hreached => hblocks (hreached.2.2 p entry hfind hnp hpd), ?_⟩
      rw [LetsThrough, not_and_or, Bool.not_eq_false, Bool.not_eq_false, hcounted.hasCapture hfind, hasChildInherit_eq,
        ← routesOf_some hfind] at hblocks
      by_cases heq : p = d
      · subst heq
        rcases hblocks with hcapture | hinherit
        · exact nextHopCost_of_captures hcapture _ _
        · obtain ⟨cost, hcost⟩ := Option.isSome_iff_exists.mp (own_of_childInherit hinherit)
          rw [nextHopCost_of_own hcost, nextHopCost_of_own hcost]
      · have hconst : ∀ x y, passedOn (rib.routesOf p) face x = passedOn (rib.routesOf p) face y := by
          intro x y
          rcases hblocks with hcapture | hinherit
          · rw [passedOn, passedOn, if_pos hcapture, if_pos hcapture]
          · obtain ⟨cost, hcost⟩ := Option.isSome_iff_exists.mp hinherit
            rw [passedOn, passedOn, hcost, Option.some_or, Option.some_or]
        have hsame : passedDown rib d face = passedDown rib' d face :=
          flow_blocked (fun q hq => by rw [hroutes q hq]) hnp ⟨hpd, heq⟩ hconst
        rw [hsame]
  · right
    exact ⟨fun hreached => hunder hreached.2.1, by rw [passedDown_of_not_under hroutes hunder]⟩

end Change

end Passing

section Sets

variable {set : List Route} {face : ℕ}

def Sorted (set : List Route) : Prop := set.Pairwise (fun lhs rhs => lhs.faceId < rhs.faceId)

theorem Sorted.nodup (h : Sorted set) : (set.map Route.faceId).Nodup :=
  List.pairwise_map.mpr (h.imp fun hlt => Nat.ne_of_lt hlt)

theorem mem_insert {route other : Route} (h : other ∈ RouteSet.insert route set) : other = route ∨ other ∈ set := by
  induction set with
  | nil => exact Or.inl (List.mem_singleton.mp h)
  | cons first set ih =>
    rw [RouteSet.insert] at h
    split at h
    · exact List.mem_cons.mp h
    · split at h
      · exact Or.inr h
      · rcases List.mem_cons.mp h with heq | hmem
        · exact Or.inr (List.mem_cons.mpr (Or.inl heq))
        · exact (ih hmem).imp_right (List.mem_cons_of_mem first)

theorem Sorted.insert (h : Sorted set) (route : Route) : Sorted (RouteSet.insert route set) := by
  induction set with
  | nil => exact List.pairwise_singleton _ route
  | cons first set ih =>
    obtain ⟨hfirst, hset⟩ := List.pairwise_cons.mp h
    rw [RouteSet.insert]
    by_cases hlt : route.faceId < first.faceId
    · rw [if_pos hlt]
      refine List.pairwise_cons.mpr ⟨?_, h⟩
      intro other hother
      rcases List.mem_cons.mp hother with rfl | hother
      · exact hlt
      · exact hlt.trans (hfirst other hother)
    · rw [if_neg hlt]
      by_cases heq : route.faceId = first.faceId
      · rw [if_pos heq]
        exact h
      · rw [if_neg heq]
        refine List.pairwise_cons.mpr ⟨?_, ih hset⟩
        intro other hother
        rcases mem_insert hother with rfl | hother
        · exact lt_of_le_of_ne (not_lt.mp hlt) (Ne.symm heq)
        · exact hfirst other hother

theorem costOn_insert (h : Sorted set) (route : Route) (face : ℕ) : costOn (RouteSet.insert route set) face =
    (costOn set face).or (if route.faceId = face then some route.cost else none) := by
  induction set with
  | nil => exact costOn_cons route [] face
  | cons first set ih =>
    obtain ⟨hfirst, hset⟩ := List.pairwise_cons.mp h
    rw [RouteSet.insert, costOn_cons]
    by_cases hlt : route.faceId < first.faceId
    · rw [if_pos hlt, costOn_cons, costOn_cons]
      by_cases hface : route.faceId = face
      · subst hface
        have hnone : costOn set route.faceId = none := by
          rw [costOn_eq_none, Bool.eq_false_iff, Ne, onFace_iff]
          rintro ⟨other, hother, hface⟩
          exact absurd (hlt.trans (hfirst other hother)) (by rw [hface]; exact lt_irrefl _)
        rw [if_pos rfl, if_pos rfl, if_neg hlt.ne', hnone, Option.none_or]
      · rw [if_neg hface, if_neg hface, Option.or_none]
    · rw [if_neg hlt]
      by_cases heq : route.faceId = first.faceId
      · rw [if_pos heq, costOn_cons]
        by_cases hface : first.faceId = face
        · rw [if_pos hface, Option.some_or]
        · rw [if_neg hface, if_neg (heq ▸ hface), Option.or_none]
      · rw [if_neg heq, costOn_cons, ih hset]
        split
        · exact Option.some_or.symm
        · rfl

theorem costOn_erase (set : List Route) (faceId face : ℕ) :
    costOn (RouteSet.erase set faceId) face = if face = faceId then none else costOn set face := by
  induction set with
  | nil => exact (ite_self none).symm
  | cons first set ih =>
    rw [RouteSet.erase, List.filter_cons]
    by_cases hfirst : first.faceId = faceId
    · rw [if_neg (by simpa using hfirst)]
      refine ih.trans ?_
      rw [costOn_cons]
      split
      · rfl
      · rename_i hface
        rw [if_neg fun heq => hface (heq.symm.trans hfirst)]
    · rw [if_pos (by simpa using hfirst), costOn_cons, costOn_cons]
      by_cases hface : first.faceId = face
      · rw [if_pos hface, if_pos hface, if_neg fun heq => hfirst (hface.trans heq)]
      · rw [if_neg hface, if_neg hface]
        exact ih

theorem Sorted.erase (h : Sorted set) (faceId : ℕ) : Sorted (RouteSet.erase set faceId) :=
  List.Pairwise.sublist List.filter_sublist h

theorem costOn_find (set : List Route) (route : Route) (face : ℕ) : costOn (RouteSet.find set route).toList face =
    if face = route.faceId then costOn set route.faceId else none := by
  rw [costOn, costOn]
  change _ = if face = route.faceId then (RouteSet.find set route).map Route.cost else none
  cases hfind : RouteSet.find set route with
  | none => exact (ite_self none).symm
  | some found =>
    have hface : found.faceId = route.faceId := by simpa using List.find?_some hfind
    have hsingle := costOn_cons found [] face
    rw [hface] at hsingle
    refine hsingle.trans ?_
    simp only [eq_comm (a := face)]
    rfl

end Sets

section Ancestors

variable {rib : Rib} {name : Name} {face : ℕ}

theorem sorted_addRoutes {set : List Route} (h : Sorted set) (routes : List Route) :
    Sorted (routes.foldl (fun set route => RouteSet.insert route set) set) := by
  induction routes generalizing set with
  | nil => exact h
  | cons route routes ih => exact ih (h.insert route)

theorem costOn_addRoutes {set : List Route} (h : Sorted set) (routes : List Route) (face : ℕ) :
    costOn (routes.foldl (fun set route => RouteSet.insert route set) set) face =
      (costOn set face).or (costOn routes face) := by
  induction routes generalizing set with
  | nil => exact (Option.or_none).symm
  | cons route routes ih =>
    rw [List.foldl_cons, ih (h.insert route), costOn_insert h, costOn_cons, Option.or_assoc]
    split <;> rfl

theorem onFace_childInherit (entry : RibEntry) (face : ℕ) :
    onFace (entry.m_routes.filter Route.isChildInherit) face = entry.hasChildInheritOnFaceId face := by
  rw [onFace, List.any_filter, RibEntry.hasChildInheritOnFaceId]
  congr 1
  funext route
  exact Bool.and_comm _ _

def depth (rib : Rib) (name : Name) : ℕ := (rib.m_rib.filter (fun entry => List.isPrefixOf entry.m_name name)).length

theorem depth_le (rib : Rib) (name : Name) : depth rib name ≤ rib.m_rib.length := List.length_filter_le _ _

theorem depth_lt {entry : RibEntry} (hfind : rib.find name = some entry) {p : Name} (hunder : Under p name) :
    depth rib p < depth rib name := by
  have hsub : rib.m_rib.filter (fun entry => List.isPrefixOf entry.m_name p) =
      (rib.m_rib.filter (fun entry => List.isPrefixOf entry.m_name name)).filter
        (fun entry => List.isPrefixOf entry.m_name p) := by
    rw [List.filter_filter]
    refine List.filter_congr fun other _ => ?_
    by_cases h : List.isPrefixOf other.m_name p = true
    · rw [h, Bool.true_and]
      exact (List.isPrefixOf_iff_prefix.mpr ((List.isPrefixOf_iff_prefix.mp h).trans hunder.1)).symm
    · rw [Bool.eq_false_iff.mpr h, Bool.false_and]
  rw [depth, hsub]
  refine List.length_filter_lt_length_iff_exists.mpr ⟨entry, ?_, ?_⟩
  · refine List.mem_filter.mpr ⟨List.mem_of_find?_eq_some hfind, ?_⟩
    rw [find_name hfind]
    exact List.isPrefixOf_iff_prefix.mpr List.prefix_rfl
  · rw [find_name hfind, List.isPrefixOf_iff_prefix]
    exact hunder.not_prefix

theorem collect_spec (htree : Tree rib) (hcounted : Counted rib) (rounds : ℕ) {entry : RibEntry}
    (hfind : rib.find name = some entry) (hrounds : depth rib name ≤ rounds) {set : List Route} (hset : Sorted set) :
    Sorted (rib.collectAncestorRoutes rounds (some entry) set) ∧ ∀ face,
      onFace (rib.collectAncestorRoutes rounds (some entry) set) face =
        (onFace set face || (passedFrom rib name face).isSome) := by
  induction rounds generalizing name entry set with
  | zero =>
    have hself : entry ∈ rib.m_rib.filter (fun entry => List.isPrefixOf entry.m_name name) := by
      refine List.mem_filter.mpr ⟨List.mem_of_find?_eq_some hfind, ?_⟩
      rw [find_name hfind]
      exact List.isPrefixOf_iff_prefix.mpr List.prefix_rfl
    exact absurd hrounds (not_le.mpr (List.length_pos_of_mem hself))
  | succ rounds ih =>
    have hadded := sorted_addRoutes hset (entry.m_routes.filter Route.isChildInherit)
    have hface : ∀ face, onFace ((entry.m_routes.filter Route.isChildInherit).foldl
        (fun set route => RouteSet.insert route set) set) face =
          (onFace set face || (childInheritCost entry.m_routes face).isSome) := by
      intro face
      rw [← costOn_isSome, costOn_addRoutes hset, Option.isSome_or, costOn_isSome, costOn_isSome, onFace_childInherit,
        hasChildInherit_eq]
    have hpassed : ∀ face, passedFrom rib name face =
        (childInheritCost entry.m_routes face).or (if captures entry.m_routes = true then none else passedDown rib name face) := by
      intro face
      rw [passedFrom, routesOf_some hfind, passedOn]
    rw [Rib.collectAncestorRoutes]
    by_cases hcapture : entry.hasCapture = true
    · rw [if_pos hcapture]
      refine ⟨hadded, fun face => ?_⟩
      rw [hface, hpassed, ← hcounted.hasCapture hfind, if_pos hcapture, Option.or_none]
    · rw [if_neg hcapture]
      have hparent := htree.parent name entry.m_parent (by rw [parentOf, hfind]; rfl)
      have hdown : ∀ face, passedFrom rib name face = (childInheritCost entry.m_routes face).or
          (entry.m_parent.elim none (fun p => passedFrom rib p face)) := by
        intro face
        rw [hpassed, ← hcounted.hasCapture hfind, if_neg hcapture, passedDown_eq hparent]
      cases hp : entry.m_parent with
      | none =>
        have hnone : ∀ set, rib.collectAncestorRoutes rounds ((none : Option Name).bind rib.find) set = set := by
          intro set
          cases rounds <;> rfl
        rw [hnone]
        refine ⟨hadded, fun face => ?_⟩
        rw [hface, hdown, hp, Option.elim_none, Option.or_none]
      | some p =>
        rw [hp] at hparent
        obtain ⟨above, habove⟩ := Option.isSome_iff_exists.mp hparent.2.1
        have hrest := ih habove (Nat.lt_succ_iff.mp ((depth_lt hfind hparent.1).trans_le hrounds)) hadded
        rw [Option.bind_some, habove]
        refine ⟨hrest.1, fun face => ?_⟩
        rw [hrest.2, hface, hdown, hp, Option.elim_some, Option.isSome_or, Bool.or_assoc]

/-- The routes that are collected from the nearest ancestor on are one for each
face on which something is passed down. -/
theorem ancestorRoutes_spec (htree : Tree rib) (hcounted : Counted rib) {parent : Option Name}
    (hparent : IsParent (Mem rib) name parent) :
    Sorted (rib.collectAncestorRoutes rib.m_rib.length (parent.bind rib.find) []) ∧ ∀ face,
      onFace (rib.collectAncestorRoutes rib.m_rib.length (parent.bind rib.find) []) face =
        (passedDown rib name face).isSome := by
  cases parent with
  | none =>
    have hnone : rib.collectAncestorRoutes rib.m_rib.length ((none : Option Name).bind rib.find) [] = [] := by
      cases rib.m_rib.length <;> rfl
    rw [hnone]
    refine ⟨List.Pairwise.nil, fun face => ?_⟩
    rw [passedDown_eq hparent]
    rfl
  | some p =>
    obtain ⟨above, habove⟩ := Option.isSome_iff_exists.mp hparent.2.1
    rw [Option.bind_some, habove]
    have hspec := collect_spec htree hcounted rib.m_rib.length habove (depth_le rib p) List.Pairwise.nil
    refine ⟨hspec.1, fun face => ?_⟩
    rw [hspec.2, passedDown_eq hparent]
    rfl

theorem getAncestorRoutes_spec (htree : Tree rib) (hcounted : Counted rib) {entry entry' : RibEntry}
    (hfind : rib.find name = some entry) (hparent : entry'.m_parent = entry.m_parent) :
    Sorted (rib.getAncestorRoutes entry') ∧ ∀ face,
      onFace (rib.getAncestorRoutes entry') face = (passedDown rib name face).isSome := by
  rw [Rib.getAncestorRoutes, hparent]
  exact ancestorRoutes_spec htree hcounted (htree.parent name _ (by rw [parentOf, hfind]; rfl))

theorem findParentFrom_find (rib : Rib) (name : Name) {i : ℕ} {entry : RibEntry}
    (h : rib.findParentFrom name i = some entry) : rib.find entry.m_name = some entry := by
  induction i with
  | zero => cases h
  | succ i ih =>
    rw [Rib.findParentFrom] at h
    cases hfind : rib.find (name.take i) with
    | some other =>
      rw [hfind] at h
      cases h
      rw [find_name hfind, hfind]
    | none =>
      rw [hfind] at h
      exact ih h

theorem getAncestorRoutesOfName_spec (htree : Tree rib) (hcounted : Counted rib) (name : Name) :
    Sorted (rib.getAncestorRoutesOfName name) ∧ ∀ face,
      onFace (rib.getAncestorRoutesOfName name) face = (passedDown rib name face).isSome := by
  have hbind : rib.findParent name = ((rib.findParent name).map RibEntry.m_name).bind rib.find := by
    cases hparent : rib.findParent name with
    | none => rfl
    | some entry => exact (findParentFrom_find rib name hparent).symm
  rw [Rib.getAncestorRoutesOfName, hbind]
  exact ancestorRoutes_spec htree hcounted (findParent_isParent rib name)

end Ancestors

end LeoNdn.RouteInheritance
