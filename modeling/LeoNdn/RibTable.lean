import LeoNdn.KiteProtocol
import Mathlib.Data.List.Sort
import Mathlib.Logic.Function.Basic

/-!
The Routing Information Base: the routes of a name, the entries with their
parents and children, and what insertion and erasure do to them.
-/

namespace LeoNdn.RibTable

open LeoNdn.NdnPacket LeoNdn.KiteProtocol

/-- A scheduled event, and when it is due; times are in nanoseconds. -/
structure EventId where
  uid : ℕ
  time : ℤ
  deriving DecidableEq, Repr

structure Route where
  faceId : ℕ
  origin : ℕ
  cost : ℕ
  flags : ℕ
  expires : Option ℤ
  announcement : Option PrefixAnnouncement
  annExpires : ℤ
  m_expirationEvent : Option EventId
  deriving DecidableEq, Repr

def ROUTE_FLAG_CHILD_INHERIT : ℕ := 1

def ROUTE_FLAG_CAPTURE : ℕ := 2

def Route.isChildInherit (route : Route) : Bool := route.flags &&& ROUTE_FLAG_CHILD_INHERIT ≠ 0

def Route.isRibCapture (route : Route) : Bool := route.flags &&& ROUTE_FLAG_CAPTURE ≠ 0

def compareFaceIdAndOrigin (lhs rhs : Route) : Bool := lhs.faceId = rhs.faceId && lhs.origin = rhs.origin

/-- Routes in the order of their faces, one for a face; an element that is there
is not replaced. -/
def RouteSet.insert (route : Route) : List Route → List Route
  | [] => [route]
  | first :: set =>
    if route.faceId < first.faceId then route :: first :: set
    else if route.faceId = first.faceId then first :: set
    else first :: RouteSet.insert route set

def RouteSet.find (set : List Route) (route : Route) : Option Route := set.find? (fun r => r.faceId = route.faceId)

def RouteSet.erase (set : List Route) (faceId : ℕ) : List Route := set.filter (fun r => r.faceId ≠ faceId)

structure RibEntry where
  m_name : Name
  m_children : List Name
  m_parent : Option Name
  m_routes : List Route
  m_inheritedRoutes : List Route
  m_nRoutesWithCaptureSet : ℕ
  deriving DecidableEq, Repr

namespace RibEntry

variable (entry : RibEntry)

def findRoute (route : Route) : Option Route := entry.m_routes.find? (fun r => compareFaceIdAndOrigin r route)

def insertRoute (route : Route) : RibEntry :=
  if (entry.findRoute route).isSome then entry
  else { entry with
    m_routes := entry.m_routes ++ [route],
    m_nRoutesWithCaptureSet := entry.m_nRoutesWithCaptureSet + if route.isRibCapture then 1 else 0 }

def decrement (n : ℕ) : ℕ := if n = 0 then 18446744073709551615 else n - 1

def eraseRoute (route : Route) : RibEntry :=
  match entry.findRoute route with
  | none => entry
  | some existing => { entry with
      m_routes := entry.m_routes.eraseP (fun r => compareFaceIdAndOrigin r route),
      m_nRoutesWithCaptureSet :=
        if existing.isRibCapture then decrement entry.m_nRoutesWithCaptureSet else entry.m_nRoutesWithCaptureSet }

/-- A route that exists is given all the fields of the other. -/
def assignRoute (route : Route) : RibEntry :=
  { entry with m_routes := entry.m_routes.map (fun r => if compareFaceIdAndOrigin r route then route else r) }

def hasFaceId (faceId : ℕ) : Bool := entry.m_routes.any (fun r => r.faceId = faceId)

def addInheritedRoute (route : Route) : RibEntry :=
  { entry with m_inheritedRoutes := entry.m_inheritedRoutes ++ [route] }

def removeInheritedRoute (route : Route) : RibEntry :=
  { entry with m_inheritedRoutes := entry.m_inheritedRoutes.filter (fun r => r.faceId ≠ route.faceId) }

def hasInheritedRoute (route : Route) : Bool := entry.m_inheritedRoutes.any (fun r => r.faceId = route.faceId)

def hasCapture : Bool := 0 < entry.m_nRoutesWithCaptureSet

def hasChildInheritOnFaceId (faceId : ℕ) : Bool :=
  entry.m_routes.any (fun r => r.faceId = faceId && r.isChildInherit)

def lowestCost : List Route → Option Route
  | [] => none
  | route :: routes =>
    match lowestCost routes with
    | none => some route
    | some candidate => if candidate.cost < route.cost then some candidate else some route

def getRouteWithLowestCostByFaceId (faceId : ℕ) : Option Route :=
  lowestCost (entry.m_routes.filter (fun r => r.faceId = faceId))

def getRouteWithLowestCostAndChildInheritByFaceId (faceId : ℕ) : Option Route :=
  lowestCost (entry.m_routes.filter (fun r => r.faceId = faceId && r.isChildInherit))

/-- The second of the routes by cost. -/
def getRouteWithSecondLowestCostByFaceId (faceId : ℕ) : Option Route :=
  ((entry.m_routes.filter (fun r => r.faceId = faceId)).insertionSort (fun lhs rhs => lhs.cost ≤ rhs.cost))[1]?

end RibEntry

/-- The entries by name, and for each face the names of its entries. -/
structure Rib where
  m_rib : List RibEntry
  m_nItems : ℕ
  m_faceMap : ℕ → List Name

namespace Rib

variable (rib : Rib)

def find (namePrefix : Name) : Option RibEntry := rib.m_rib.find? (fun entry => entry.m_name = namePrefix)

def findRoute (namePrefix : Name) (route : Route) : Option Route :=
  (rib.find namePrefix).bind (fun entry => entry.findRoute route)

/-- The loop in `findParent`, from a length downwards. -/
def findParentFrom (namePrefix : Name) : ℕ → Option RibEntry
  | 0 => none
  | i + 1 =>
    match rib.find (namePrefix.take i) with
    | some entry => some entry
    | none => findParentFrom namePrefix i

def findParent (namePrefix : Name) : Option RibEntry := rib.findParentFrom namePrefix namePrefix.length

def findLongestPrefix (namePrefix : Name) (route : Route) : Option Route :=
  match rib.findRoute namePrefix route with
  | some existing => some existing
  | none => (rib.findParent namePrefix).bind (fun parent => rib.findRoute parent.m_name route)

/-- The components of names are valid here, so that equal ones are the same. -/
def findDescendants (namePrefix : Name) : List RibEntry :=
  if (rib.find namePrefix).isSome then
    rib.m_rib.filter (fun entry => List.isPrefixOf namePrefix entry.m_name && entry.m_name ≠ namePrefix)
  else []

def findDescendantsForNonInsertedName (namePrefix : Name) : List RibEntry :=
  rib.m_rib.filter (fun entry => List.isPrefixOf namePrefix entry.m_name)

def modifyEntry (name : Name) (f : RibEntry → RibEntry) : Rib :=
  { rib with m_rib := rib.m_rib.map (fun entry => if entry.m_name = name then f entry else entry) }

def addChild (name child : Name) : Rib :=
  (rib.modifyEntry child (fun entry => { entry with m_parent := some name })).modifyEntry name
    (fun entry => { entry with m_children := entry.m_children ++ [child] })

def removeChild (name child : Name) : Rib :=
  (rib.modifyEntry child (fun entry => { entry with m_parent := none })).modifyEntry name
    (fun entry => { entry with m_children := entry.m_children.filter (fun other => other ≠ child) })

def withParent (parent : Option Name) (f : Name → Rib → Rib) : Rib :=
  match parent with
  | none => rib
  | some name => f name rib

/-- The loop that moves the children of the parent below a new entry. -/
def adoptChildren (name : Name) (parent : Option Name) : List RibEntry → Rib → Rib
  | [], rib => rib
  | child :: children, rib =>
    adoptChildren name parent children
      (if child.m_parent = parent then
        (rib.withParent parent (fun parent rib => rib.removeChild parent child.m_name)).addChild name child.m_name
      else rib)

def insert (namePrefix : Name) (route : Route) : Rib :=
  match rib.find namePrefix with
  | some entry =>
    if (entry.findRoute route).isNone then
      { rib.modifyEntry namePrefix (fun entry => entry.insertRoute route) with
        m_nItems := rib.m_nItems + 1,
        m_faceMap := Function.update rib.m_faceMap route.faceId (rib.m_faceMap route.faceId ++ [namePrefix]) }
    else rib.modifyEntry namePrefix (fun entry => entry.assignRoute route)
  | none =>
    let entry : RibEntry := ⟨namePrefix, [], none, [], [], 0⟩
    let rib : Rib := { rib with m_rib := rib.m_rib ++ [entry.insertRoute route], m_nItems := rib.m_nItems + 1 }
    let parent := (rib.findParent namePrefix).map RibEntry.m_name
    let rib := rib.withParent parent (fun parent rib => rib.addChild parent namePrefix)
    let rib := adoptChildren namePrefix parent (rib.findDescendants namePrefix) rib
    { rib with m_faceMap := Function.update rib.m_faceMap route.faceId (rib.m_faceMap route.faceId ++ [namePrefix]) }

/-- The loop that moves the children of an entry below its parent. -/
def releaseChildren (name : Name) (parent : Option Name) : List Name → Rib → Rib
  | [], rib => rib
  | child :: children, rib =>
    releaseChildren name parent children
      ((rib.removeChild name child).withParent parent (fun parent rib => rib.addChild parent child))

def eraseEntry (name : Name) : Rib :=
  match rib.find name with
  | none => rib
  | some entry =>
    let rib := rib.withParent entry.m_parent (fun parent rib => rib.removeChild parent name)
    let rib := releaseChildren name entry.m_parent entry.m_children rib
    { rib with m_rib := rib.m_rib.filter (fun other => other.m_name ≠ name) }

def erase (namePrefix : Name) (route : Route) : Rib :=
  match rib.find namePrefix with
  | none => rib
  | some entry =>
    if (entry.findRoute route).isNone then rib
    else
      let erased := entry.eraseRoute route
      let others := (rib.m_faceMap route.faceId).filter (fun name => name ≠ namePrefix)
      let rib := { rib.modifyEntry namePrefix (fun entry => entry.eraseRoute route) with m_nItems := rib.m_nItems - 1 }
      let rib : Rib :=
        if erased.hasFaceId route.faceId then rib
        else { rib with m_faceMap := Function.update rib.m_faceMap route.faceId others }
      if erased.m_routes.isEmpty then rib.eraseEntry namePrefix else rib

/-- The child-inherit routes of an entry and its ancestors, up to the first that
captures, with a bound on their number. -/
def collectAncestorRoutes : ℕ → Option RibEntry → List Route → List Route
  | 0, _, ancestorRoutes => ancestorRoutes
  | _, none, ancestorRoutes => ancestorRoutes
  | rounds + 1, some parent, ancestorRoutes =>
    let ancestorRoutes := (parent.m_routes.filter Route.isChildInherit).foldl
      (fun ancestorRoutes route => RouteSet.insert route ancestorRoutes) ancestorRoutes
    if parent.hasCapture then ancestorRoutes
    else collectAncestorRoutes rounds (parent.m_parent.bind rib.find) ancestorRoutes

def getAncestorRoutes (entry : RibEntry) : List Route :=
  rib.collectAncestorRoutes rib.m_rib.length (entry.m_parent.bind rib.find) []

/-- `getAncestorRoutes` of a name that need not be in the RIB. -/
def getAncestorRoutesOfName (name : Name) : List Route :=
  rib.collectAncestorRoutes rib.m_rib.length (rib.findParent name) []

/-- The name and the route of each route that a face has. -/
def findRoutesWithFaceId (faceId : ℕ) : List (Name × Route) :=
  (rib.m_faceMap faceId).flatMap (fun name =>
    match rib.find name with
    | none => []
    | some entry => (entry.m_routes.filter (fun route => route.faceId = faceId)).map (fun route => (name, route)))

end Rib

section Entries

variable {rib : Rib} {name : Name} {f : RibEntry → RibEntry}

theorem find_modifyEntry (hf : ∀ entry, entry.m_name = name → (f entry).m_name = name) (other : Name) :
    (rib.modifyEntry name f).find other = if other = name then (rib.find other).map f else rib.find other := by
  unfold Rib.find Rib.modifyEntry
  simp only [List.find?_map]
  have hname : ((fun entry => decide (entry.m_name = other)) ∘
      fun entry => if entry.m_name = name then f entry else entry) = fun entry => decide (entry.m_name = other) := by
    funext entry
    simp only [Function.comp_apply]
    by_cases h : entry.m_name = name
    · rw [if_pos h, hf entry h, h]
    · rw [if_neg h]
  rw [hname]
  cases hfind : rib.m_rib.find? (fun entry => entry.m_name = other) with
  | none => split <;> rfl
  | some entry =>
    have hother : entry.m_name = other := by simpa using List.find?_some hfind
    by_cases h : other = name
    · rw [if_pos h, Option.map_some, Option.map_some, if_pos (hother.trans h)]
    · rw [if_neg h, Option.map_some, if_neg (fun hn => h (hother.symm.trans hn))]

theorem find_name {entry : RibEntry} (h : rib.find name = some entry) : entry.m_name = name := by
  simpa using List.find?_some h

variable {β : Type} {g : RibEntry → β}

/-- The entries of the two RIBs have the same names and agree on `g`. -/
def SameBy (g : RibEntry → β) (rib rib' : Rib) : Prop := ∀ name, (rib'.find name).map g = (rib.find name).map g

theorem SameBy.refl (rib : Rib) : SameBy g rib rib := fun _ => rfl

theorem SameBy.trans {rib rib' rib'' : Rib} (h : SameBy g rib rib') (h' : SameBy g rib' rib'') : SameBy g rib rib'' :=
  fun name => (h' name).trans (h name)

theorem SameBy.modifyEntry (hname : ∀ entry, (f entry).m_name = entry.m_name) (hg : ∀ entry, g (f entry) = g entry)
    (name : Name) : SameBy g rib (rib.modifyEntry name f) := by
  intro other
  rw [find_modifyEntry fun entry h => (hname entry).trans h]
  split
  · rw [Option.map_map]
    congr 1
    funext entry
    exact hg entry
  · rfl

def IgnoresLinks (g : RibEntry → β) : Prop :=
  ∀ (entry : RibEntry) parent children, g { entry with m_parent := parent, m_children := children } = g entry

theorem SameBy.addChild (hg : IgnoresLinks g) (rib : Rib) (name child : Name) :
    SameBy g rib (rib.addChild name child) := by
  refine SameBy.trans (SameBy.modifyEntry ?_ ?_ child) (SameBy.modifyEntry ?_ ?_ name)
  · exact fun _ => rfl
  · exact fun entry => hg entry (some name) entry.m_children
  · exact fun _ => rfl
  · exact fun entry => hg entry entry.m_parent (entry.m_children ++ [child])

theorem SameBy.removeChild (hg : IgnoresLinks g) (rib : Rib) (name child : Name) :
    SameBy g rib (rib.removeChild name child) := by
  refine SameBy.trans (SameBy.modifyEntry ?_ ?_ child) (SameBy.modifyEntry ?_ ?_ name)
  · exact fun _ => rfl
  · exact fun entry => hg entry none entry.m_children
  · exact fun _ => rfl
  · exact fun entry => hg entry entry.m_parent (entry.m_children.filter (fun other => other ≠ child))

theorem SameBy.withParent {op : Name → Rib → Rib} (hop : ∀ name rib, SameBy g rib (op name rib))
    (parent : Option Name) (rib : Rib) : SameBy g rib (rib.withParent parent op) := by
  cases parent with
  | none => exact SameBy.refl rib
  | some name => exact hop name rib

theorem SameBy.adoptChildren (hg : IgnoresLinks g) (name : Name) (parent : Option Name) (children : List RibEntry)
    (rib : Rib) : SameBy g rib (Rib.adoptChildren name parent children rib) := by
  induction children generalizing rib with
  | nil => exact SameBy.refl rib
  | cons child children ih =>
    rw [Rib.adoptChildren]
    refine SameBy.trans ?_ (ih _)
    split
    · exact (SameBy.withParent (fun parent rib => SameBy.removeChild hg rib parent child.m_name) parent rib).trans
        (SameBy.addChild hg _ name child.m_name)
    · exact SameBy.refl rib

theorem SameBy.releaseChildren (hg : IgnoresLinks g) (name : Name) (parent : Option Name) (children : List Name)
    (rib : Rib) : SameBy g rib (Rib.releaseChildren name parent children rib) := by
  induction children generalizing rib with
  | nil => exact SameBy.refl rib
  | cons child children ih =>
    rw [Rib.releaseChildren]
    exact ((SameBy.removeChild hg rib name child).trans
      (SameBy.withParent (fun parent rib => SameBy.addChild hg rib parent child) parent _)).trans (ih _)

def SameRoutes (rib rib' : Rib) : Prop := SameBy RibEntry.m_routes rib rib'

theorem routes_ignoreLinks : IgnoresLinks RibEntry.m_routes := fun _ _ _ => rfl

end Entries

section Routes

variable {rib : Rib} {namePrefix : Name} {route : Route}

def Rib.routesOf (rib : Rib) (name : Name) : List Route := ((rib.find name).map RibEntry.m_routes).getD []

theorem SameRoutes.routesOf {rib' : Rib} (h : SameRoutes rib rib') (name : Name) :
    rib'.routesOf name = rib.routesOf name := by
  rw [Rib.routesOf, h name]
  rfl

theorem findRoute_eq (rib : Rib) (name : Name) (route : Route) :
    rib.findRoute name route = (rib.routesOf name).find? (fun r => compareFaceIdAndOrigin r route) := by
  unfold Rib.findRoute Rib.routesOf
  cases rib.find name with
  | none => rfl
  | some entry => rfl

def insertInto (route : Route) (routes : List Route) : List Route :=
  if (routes.find? (fun r => compareFaceIdAndOrigin r route)).isSome then
    routes.map (fun r => if compareFaceIdAndOrigin r route then route else r)
  else routes ++ [route]

theorem routesOf_some {entry : RibEntry} (h : rib.find namePrefix = some entry) :
    rib.routesOf namePrefix = entry.m_routes := by
  rw [Rib.routesOf, h]
  rfl

theorem routesOf_none (h : rib.find namePrefix = none) : rib.routesOf namePrefix = [] := by
  rw [Rib.routesOf, h]
  rfl

theorem insertRoute_name (entry : RibEntry) (route : Route) : (entry.insertRoute route).m_name = entry.m_name := by
  unfold RibEntry.insertRoute
  split <;> rfl

theorem eraseRoute_name (entry : RibEntry) (route : Route) : (entry.eraseRoute route).m_name = entry.m_name := by
  unfold RibEntry.eraseRoute
  split <;> rfl

theorem eraseRoute_routes (entry : RibEntry) (route : Route) :
    (entry.eraseRoute route).m_routes = entry.m_routes.eraseP (fun r => compareFaceIdAndOrigin r route) := by
  unfold RibEntry.eraseRoute
  split
  · rename_i hnone
    refine (List.eraseP_of_forall_not fun r hr => ?_).symm
    simpa using List.find?_eq_none.mp hnone r hr
  · rfl

theorem find_append {entry : RibEntry} (h : rib.find entry.m_name = none) (items : ℕ) (name : Name) :
    Rib.find { rib with m_rib := rib.m_rib ++ [entry], m_nItems := items } name =
      if name = entry.m_name then some entry else rib.find name := by
  unfold Rib.find at h ⊢
  rw [List.find?_append]
  by_cases hname : name = entry.m_name
  · rw [if_pos hname, hname, h]
    simp
  · rw [if_neg hname, List.find?_singleton, if_neg (by simpa using Ne.symm hname), Option.or_none]

def RibEntry.accept (entry : RibEntry) (route : Route) : RibEntry :=
  if (entry.findRoute route).isNone then entry.insertRoute route else entry.assignRoute route

theorem accept_routes (entry : RibEntry) (route : Route) :
    (entry.accept route).m_routes = insertInto route entry.m_routes := by
  unfold RibEntry.accept
  by_cases hnew : (entry.findRoute route).isNone = true
  · rw [if_pos hnew]
    rw [RibEntry.findRoute, Option.isNone_iff_eq_none] at hnew
    rw [RibEntry.insertRoute, insertInto, RibEntry.findRoute, hnew]
    rfl
  · rw [if_neg hnew, insertInto, if_pos (by simpa [RibEntry.findRoute] using hnew)]
    rfl

def emptyEntry (namePrefix : Name) : RibEntry := ⟨namePrefix, [], none, [], [], 0⟩

variable {β : Type} {g : RibEntry → β}

theorem find_insert (hg : IgnoresLinks g) (rib : Rib) (namePrefix : Name) (route : Route) (name : Name) :
    ((rib.insert namePrefix route).find name).map g =
      if name = namePrefix then some (g (((rib.find namePrefix).getD (emptyEntry namePrefix)).accept route))
      else (rib.find name).map g := by
  unfold Rib.insert
  cases hfind : rib.find namePrefix with
  | some entry =>
    rw [Option.getD_some]
    by_cases hnew : (entry.findRoute route).isNone = true
    · simp only [if_pos hnew]
      change ((rib.modifyEntry namePrefix (fun entry => entry.insertRoute route)).find name).map g = _
      rw [find_modifyEntry fun entry h => (insertRoute_name entry route).trans h, RibEntry.accept, if_pos hnew]
      split
      · rename_i hname
        rw [hname, hfind]
        rfl
      · rfl
    · simp only [if_neg hnew]
      rw [find_modifyEntry (f := fun entry => entry.assignRoute route) fun _ h => h, RibEntry.accept, if_neg hnew]
      split
      · rename_i hname
        rw [hname, hfind]
        rfl
      · rfl
  | none =>
    have hadded := @find_append rib ((emptyEntry namePrefix).insertRoute route)
      (by rw [insertRoute_name]; exact hfind) (rib.m_nItems + 1)
    simp only [insertRoute_name] at hadded
    refine ((SameBy.withParent (fun parent rib => SameBy.addChild hg rib parent namePrefix) _ _).trans
      (SameBy.adoptChildren hg namePrefix _ _ _) name).trans ?_
    refine (congrArg (Option.map g) (hadded name)).trans ?_
    change (if name = namePrefix then some ((emptyEntry namePrefix).insertRoute route) else rib.find name).map g = _
    split <;> rfl

theorem routesOf_insert (rib : Rib) (namePrefix : Name) (route : Route) (name : Name) :
    (rib.insert namePrefix route).routesOf name =
      if name = namePrefix then insertInto route (rib.routesOf namePrefix) else rib.routesOf name := by
  rw [Rib.routesOf, find_insert routes_ignoreLinks]
  split
  · rw [Option.getD_some, accept_routes, Rib.routesOf]
    cases rib.find namePrefix <;> rfl
  · rfl

theorem find_filter (names : ℕ → List Name) (items : ℕ) (name : Name) :
    Rib.find ⟨rib.m_rib.filter (fun other => other.m_name ≠ namePrefix), items, names⟩ name =
      if name = namePrefix then none else rib.find name := by
  unfold Rib.find
  rw [List.find?_filter]
  by_cases hname : name = namePrefix
  · rw [if_pos hname, List.find?_eq_none]
    intro entry _
    simp [hname]
  · rw [if_neg hname]
    congr 1
    funext entry
    by_cases h : entry.m_name = name
    · simp [h, hname]
    · simp [h]

theorem find_eraseEntry (hg : IgnoresLinks g) (rib : Rib) (namePrefix name : Name) :
    ((rib.eraseEntry namePrefix).find name).map g = if name = namePrefix then none else (rib.find name).map g := by
  unfold Rib.eraseEntry
  cases hfind : rib.find namePrefix with
  | none =>
    dsimp only
    by_cases hname : name = namePrefix
    · rw [if_pos hname, hname, hfind, Option.map_none]
    · rw [if_neg hname]
  | some entry =>
    have hsame := (SameBy.withParent (fun parent rib => SameBy.removeChild hg rib parent namePrefix)
      entry.m_parent rib).trans (SameBy.releaseChildren hg namePrefix entry.m_parent entry.m_children _)
    simp only [find_filter]
    split
    · rfl
    · exact hsame name

def RibEntry.afterErase (entry : RibEntry) (route : Route) : Option RibEntry :=
  if (entry.findRoute route).isSome ∧ (entry.eraseRoute route).m_routes.isEmpty then none
  else some (entry.eraseRoute route)

theorem find_erase (hg : IgnoresLinks g) (rib : Rib) (namePrefix : Name) (route : Route) (name : Name) :
    ((rib.erase namePrefix route).find name).map g =
      if name = namePrefix then ((rib.find namePrefix).bind (fun entry => entry.afterErase route)).map g
      else (rib.find name).map g := by
  unfold Rib.erase
  cases hfind : rib.find namePrefix with
  | none =>
    dsimp only
    by_cases hname : name = namePrefix
    · rw [if_pos hname, hname, hfind, Option.bind_none]
    · rw [if_neg hname]
  | some entry =>
    rw [Option.bind_some, RibEntry.afterErase]
    by_cases hnone : (entry.findRoute route).isNone = true
    · have hsame : entry.eraseRoute route = entry := by
        rw [RibEntry.eraseRoute, Option.isNone_iff_eq_none.mp hnone]
      rw [Option.isNone_iff_eq_none] at hnone
      simp only [hnone, Option.isNone_none, if_true, Option.isSome_none, Bool.false_eq_true, false_and, if_false, hsame]
      split
      · rename_i hname
        rw [hname, hfind]
      · rfl
    · have hsome : (entry.findRoute route).isSome = true := by simpa [Option.isSome_iff_ne_none] using hnone
      have hmodify : ((rib.modifyEntry namePrefix (fun entry => entry.eraseRoute route)).find name).map g =
          if name = namePrefix then some (g (entry.eraseRoute route)) else (rib.find name).map g := by
        rw [find_modifyEntry fun entry h => (eraseRoute_name entry route).trans h]
        split
        · rename_i hname
          rw [hname, hfind]
          rfl
        · rfl
      simp only [if_neg hnone, hsome, true_and]
      by_cases hempty : (entry.eraseRoute route).m_routes.isEmpty = true
      · rw [if_pos hempty, if_pos hempty, find_eraseEntry hg, Option.map_none]
        split
        · rfl
        · rename_i hname
          rw [if_neg hname] at hmodify
          split <;> exact hmodify
      · rw [if_neg hempty, if_neg hempty]
        split <;> exact hmodify

theorem routesOf_erase (rib : Rib) (namePrefix : Name) (route : Route) (name : Name) :
    (rib.erase namePrefix route).routesOf name =
      if name = namePrefix then (rib.routesOf namePrefix).eraseP (fun r => compareFaceIdAndOrigin r route)
      else rib.routesOf name := by
  rw [Rib.routesOf, find_erase routes_ignoreLinks]
  split
  · rw [Rib.routesOf]
    cases rib.find namePrefix with
    | none => rfl
    | some entry =>
      rw [Option.bind_some, Option.map_some, Option.getD_some, ← eraseRoute_routes, RibEntry.afterErase]
      split
      · rename_i hempty
        exact (List.isEmpty_iff.mp hempty.2).symm
      · rfl
  · rfl

end Routes

section Keys

theorem compare_iff {lhs rhs : Route} :
    compareFaceIdAndOrigin lhs rhs = true ↔ lhs.faceId = rhs.faceId ∧ lhs.origin = rhs.origin := by
  simp [compareFaceIdAndOrigin]

theorem compare_self (route : Route) : compareFaceIdAndOrigin route route = true := compare_iff.mpr ⟨rfl, rfl⟩

theorem compare_congr {a b : Route} (h : compareFaceIdAndOrigin a b = true) (c : Route) :
    compareFaceIdAndOrigin a c = compareFaceIdAndOrigin b c := by
  obtain ⟨hface, horigin⟩ := compare_iff.mp h
  simp only [compareFaceIdAndOrigin, hface, horigin]

theorem compare_symm {a b : Route} (h : compareFaceIdAndOrigin a b = true) : compareFaceIdAndOrigin b a = true := by
  obtain ⟨hface, horigin⟩ := compare_iff.mp h
  exact compare_iff.mpr ⟨hface.symm, horigin.symm⟩

theorem compare_trans {a b c : Route} (h : compareFaceIdAndOrigin a b = true)
    (h' : compareFaceIdAndOrigin b c = true) : compareFaceIdAndOrigin a c = true := by
  rw [compare_congr h, h']

def UniqueRoutes (routes : List Route) : Prop := routes.Pairwise (fun a b => compareFaceIdAndOrigin a b = false)

def routeOfKey (query : Route) (routes : List Route) : Option Route :=
  routes.find? (fun r => compareFaceIdAndOrigin r query)

theorem routeOfKey_cons (query first : Route) (routes : List Route) :
    routeOfKey query (first :: routes) =
      if compareFaceIdAndOrigin first query = true then some first else routeOfKey query routes := by
  unfold routeOfKey
  rw [List.find?_cons]
  cases compareFaceIdAndOrigin first query <;> rfl

theorem routeOfKey_eq_none {query : Route} {routes : List Route} :
    routeOfKey query routes = none ↔ ∀ r ∈ routes, ¬ compareFaceIdAndOrigin r query = true :=
  List.find?_eq_none

theorem routeOfKey_map_replace (route query : Route) (routes : List Route) :
    routeOfKey query (routes.map (fun r => if compareFaceIdAndOrigin r route then route else r)) =
      if compareFaceIdAndOrigin route query = true ∧ (routeOfKey route routes).isSome = true then some route
      else routeOfKey query routes := by
  induction routes with
  | nil => simp [routeOfKey]
  | cons first routes ih =>
    rw [List.map_cons, routeOfKey_cons, routeOfKey_cons, routeOfKey_cons, ih]
    by_cases hfirst : compareFaceIdAndOrigin first route = true
    · rw [if_pos hfirst, if_pos hfirst, compare_congr hfirst]
      by_cases hquery : compareFaceIdAndOrigin route query = true
      · rw [if_pos hquery, if_pos ⟨hquery, rfl⟩]
      · rw [if_neg hquery, if_neg (fun h => hquery h.1), if_neg (fun h => hquery h.1), if_neg hquery]
    · rw [if_neg hfirst, if_neg hfirst]
      by_cases hfq : compareFaceIdAndOrigin first query = true
      · have hquery : ¬ compareFaceIdAndOrigin route query = true :=
          fun hrq => hfirst (compare_trans hfq (compare_symm hrq))
        rw [if_pos hfq, if_neg (fun h => hquery h.1), if_pos hfq]
      · rw [if_neg hfq, if_neg hfq]

theorem routeOfKey_insertInto (route query : Route) (routes : List Route) :
    routeOfKey query (insertInto route routes) =
      if compareFaceIdAndOrigin route query = true then some route else routeOfKey query routes := by
  unfold insertInto
  by_cases hsome : (routeOfKey route routes).isSome = true
  · have hcond : (routes.find? (fun r => compareFaceIdAndOrigin r route)).isSome = true := hsome
    rw [if_pos hcond, routeOfKey_map_replace]
    simp only [hsome, and_true]
  · have hcond : ¬ (routes.find? (fun r => compareFaceIdAndOrigin r route)).isSome = true := hsome
    rw [if_neg hcond]
    rw [Option.isSome_iff_ne_none, not_not, routeOfKey_eq_none] at hsome
    have hlast : routeOfKey query [route] = if compareFaceIdAndOrigin route query = true then some route else none :=
      routeOfKey_cons query route []
    have happend : routeOfKey query (routes ++ [route]) = (routeOfKey query routes).or (routeOfKey query [route]) :=
      List.find?_append
    rw [happend, hlast]
    by_cases hquery : compareFaceIdAndOrigin route query = true
    · have hnone : routeOfKey query routes = none :=
        routeOfKey_eq_none.mpr fun r hr hrq => hsome r hr (compare_trans hrq (compare_symm hquery))
      rw [hnone, if_pos hquery, Option.none_or]
    · rw [if_neg hquery, Option.or_none, if_neg hquery]

theorem routeOfKey_eraseP {routes : List Route} (h : UniqueRoutes routes) (route query : Route) :
    routeOfKey query (routes.eraseP (fun r => compareFaceIdAndOrigin r route)) =
      if compareFaceIdAndOrigin route query = true then none else routeOfKey query routes := by
  induction routes with
  | nil => simp [routeOfKey]
  | cons first routes ih =>
    obtain ⟨hfirst, hrest⟩ := List.pairwise_cons.mp h
    by_cases herase : compareFaceIdAndOrigin first route = true
    · have hrest' : (first :: routes).eraseP (fun r => compareFaceIdAndOrigin r route) = routes :=
        List.eraseP_cons_of_pos herase
      rw [hrest', routeOfKey_cons, compare_congr herase]
      by_cases hquery : compareFaceIdAndOrigin route query = true
      · rw [if_pos hquery, routeOfKey_eq_none]
        intro r hr hrq
        have hcompare : compareFaceIdAndOrigin first r = true :=
          compare_trans herase (compare_trans hquery (compare_symm hrq))
        rw [hfirst r hr] at hcompare
        cases hcompare
      · rw [if_neg hquery, if_neg hquery]
    · have hkept : (first :: routes).eraseP (fun r => compareFaceIdAndOrigin r route) =
          first :: routes.eraseP (fun r => compareFaceIdAndOrigin r route) := List.eraseP_cons_of_neg herase
      rw [hkept, routeOfKey_cons, routeOfKey_cons, ih hrest]
      by_cases hfq : compareFaceIdAndOrigin first query = true
      · have hquery : ¬ compareFaceIdAndOrigin route query = true :=
          fun hrq => herase (compare_trans hfq (compare_symm hrq))
        rw [if_pos hfq, if_neg hquery, if_pos hfq]
      · rw [if_neg hfq, if_neg hfq]

theorem UniqueRoutes.insertInto {routes : List Route} (h : UniqueRoutes routes) (route : Route) :
    UniqueRoutes (RibTable.insertInto route routes) := by
  unfold RibTable.insertInto
  split
  · refine List.pairwise_map.mpr (h.imp ?_)
    intro a b hab
    by_cases ha : compareFaceIdAndOrigin a route = true
    · by_cases hb : compareFaceIdAndOrigin b route = true
      · rw [compare_trans ha (compare_symm hb)] at hab
        cases hab
      · rw [if_pos ha, if_neg hb, ← compare_congr ha, hab]
    · by_cases hb : compareFaceIdAndOrigin b route = true
      · rw [if_neg ha, if_pos hb]
        exact Bool.eq_false_iff.mpr ha
      · rw [if_neg ha, if_neg hb, hab]
  · rename_i hnone
    refine List.pairwise_append.mpr ⟨h, List.pairwise_singleton _ _, ?_⟩
    intro a ha b hb
    rw [List.mem_singleton.mp hb]
    rw [Option.isSome_iff_ne_none, not_not, List.find?_eq_none] at hnone
    exact Bool.eq_false_iff.mpr (hnone a ha)

variable {rib : Rib}

def UniqueKeys (rib : Rib) : Prop := ∀ name, UniqueRoutes (rib.routesOf name)

theorem UniqueKeys.insert (h : UniqueKeys rib) (namePrefix : Name) (route : Route) :
    UniqueKeys (rib.insert namePrefix route) := by
  intro name
  rw [routesOf_insert]
  split
  · exact (h namePrefix).insertInto route
  · exact h name

theorem UniqueKeys.erase (h : UniqueKeys rib) (namePrefix : Name) (route : Route) :
    UniqueKeys (rib.erase namePrefix route) := by
  intro name
  rw [routesOf_erase]
  split
  · exact (h namePrefix).sublist List.eraseP_sublist
  · exact h name

theorem findRoute_routeOfKey (rib : Rib) (name : Name) (query : Route) :
    rib.findRoute name query = routeOfKey query (rib.routesOf name) := findRoute_eq rib name query

theorem findRoute_insert (rib : Rib) (namePrefix : Name) (route : Route) (name : Name) (query : Route) :
    (rib.insert namePrefix route).findRoute name query =
      if name = namePrefix ∧ compareFaceIdAndOrigin route query = true then some route
      else rib.findRoute name query := by
  rw [findRoute_routeOfKey, routesOf_insert, findRoute_routeOfKey]
  by_cases hname : name = namePrefix
  · rw [if_pos hname, routeOfKey_insertInto, hname]
    simp only [true_and]
  · rw [if_neg hname, if_neg (fun h => hname h.1)]

theorem findRoute_erase (h : UniqueKeys rib) (namePrefix : Name) (route : Route) (name : Name) (query : Route) :
    (rib.erase namePrefix route).findRoute name query =
      if name = namePrefix ∧ compareFaceIdAndOrigin route query = true then none
      else rib.findRoute name query := by
  rw [findRoute_routeOfKey, routesOf_erase, findRoute_routeOfKey]
  by_cases hname : name = namePrefix
  · rw [if_pos hname, routeOfKey_eraseP (h namePrefix), hname]
    simp only [true_and]
  · rw [if_neg hname, if_neg (fun h => hname h.1)]

end Keys

end LeoNdn.RibTable
