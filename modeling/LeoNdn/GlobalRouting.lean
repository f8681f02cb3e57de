import LeoNdn.Fib
import LeoNdn.ForwardingTables
import LeoNdn.WeightedPaths

/-!
The routes that are calculated for every node to every origin of a prefix, from
distances whose metrics have 16 bits.
-/

namespace LeoNdn.GlobalRouting

open LeoNdn.NdnPacket LeoNdn.WeightedPaths Relation
open LeoNdn.Forwarder (Face)
open LeoNdn.ForwardingTables (getMaxDepth)

/-- A face of a router, its metric and the router at the other side. -/
structure Incidency (V : Type) where
  face : Face
  metric : ℕ
  target : V
  deriving DecidableEq, Repr

/-- The routers of the nodes; a face has one other side. -/
structure Topology (V : Type) where
  nodes : List V
  mem_nodes : ∀ node, node ∈ nodes
  m_incidencies : V → List (Incidency V)
  nodup : ∀ node, ((m_incidencies node).map Incidency.face).Nodup
  m_localPrefixes : V → List Name

/-- The face of the first edge, and the sum of the metrics. -/
structure Weight where
  face : Option Face
  metric : ℕ
  deriving DecidableEq, Repr

def weightZero : Weight := ⟨none, 0⟩

def weightInf : Weight := ⟨none, 65535⟩

def weightCompare (a b : Weight) : Bool := a.metric < b.metric

/-- No sum of 32 bits overflows, as `b` has 16 and `a` is at most `weightInf`. -/
def weightCombine (a b : Weight) : Weight :=
  match a.face with
  | none => ⟨b.face, a.metric + b.metric⟩
  | some face => ⟨some face, a.metric + b.metric⟩

variable {V : Type}

/-- `static_cast<uint16_t>`. -/
def Incidency.metric16 (edge : Incidency V) : ℕ := edge.metric % 65536

def edgeWeight (edge : Incidency V) : Weight := ⟨some edge.face, edge.metric16⟩

def pathWeight (path : List (Incidency V)) : Weight :=
  (path.map edgeWeight).foldl weightCombine weightZero

abbrev IsRoute (topology : Topology V) (source node : V) (path : List (Incidency V)) : Prop :=
  IsPath topology.m_incidencies Incidency.target source node path

/-- What `dijkstra_shortest_paths` promises for a node: the weight of a path that
is less than the infinite one, or else that; and no path has a lesser one. -/
structure IsDistance (topology : Topology V) (source node : V) (weight : Weight) : Prop where
  ofPath : weight = weightInf ∨
    weightCompare weight weightInf = true ∧ ∃ path, IsRoute topology source node path ∧ weight = pathWeight path
  minimal : ∀ path, IsRoute topology source node path → weightCompare (pathWeight path) weight = false

structure Route where
  name : Name
  face : Face
  metric : ℕ
  deriving DecidableEq, Repr

/-- The FIB of a node, which has no entry for a name that is too long. -/
structure NodeFib where
  entry : Name → Fib.Entry
  depth : ∀ name, getMaxDepth < name.length → (entry name).m_nextHops = []

section Calculation

variable [DecidableEq V] (sortNextHops : Fib.SortNextHops) (topology : Topology V) (distances : V → V → Weight)

/-- `FibHelper::AddRoute`; the command fails where the name is too long. -/
def addRoute (fib : NodeFib) (route : Route) : NodeFib where
  entry name :=
    if name = route.name ∧ name.length ≤ getMaxDepth then
      (Fib.addOrUpdateNextHop sortNextHops (fib.entry name) route.face 0 route.metric).1
    else fib.entry name
  depth name hlong := by
    rw [if_neg fun hroute => absurd hroute.2 (Nat.not_le.mpr hlong)]
    exact fib.depth name hlong

def routesTo (source node : V) : List Route :=
  if node = source then []
  else
    match (distances source node).face with
    | none => []
    | some face => (topology.m_localPrefixes node).map (fun name => ⟨name, face, (distances source node).metric⟩)

/-- The edge of the face that the routes of a node to an origin go through. -/
def nextHop (origin node : V) : Option (Incidency V) :=
  if node = origin then none
  else (topology.m_incidencies node).find? (fun edge => (distances node origin).face = some edge.face)

end Calculation

def Follows [DecidableEq V] (topology : Topology V) (distances : V → V → Weight) (origin node node' : V) : Prop :=
  ∃ edge, nextHop topology distances origin node = some edge ∧ edge.target = node'

/-- Every other node has a next hop for the prefixes of the origin which begins a
path of least total metric, and a walk along them gets there without a loop. -/
structure RoutesRight [DecidableEq V] (topology : Topology V) (distances : V → V → Weight) (fib : V → NodeFib)
    (origin : V) : Prop where
  leastHop : ∀ node, node ≠ origin → ∃ edge, nextHop topology distances origin node = some edge ∧
    (∀ name ∈ topology.m_localPrefixes origin, ∃ hop ∈ ((fib node).entry name).m_nextHops, hop.m_face = edge.face) ∧
      FirstHop topology.m_incidencies Incidency.target Incidency.metric edge node origin
  reaches : ∀ node, ∃ nodes, Walk (Follows topology distances origin) node origin nodes ∧ nodes.Nodup

/-- The metrics leave every node near the origin, keep their order when they are
cut to 16 bits, and make no cycle of edges that cost nothing; and the prefixes are
not too long. -/
structure Suffices (topology : Topology V) (origin : V) : Prop where
  near : ∀ node, node ≠ origin → ∃ path, IsRoute topology node origin path ∧ pathCost Incidency.metric16 path < 65535
  agree : ∀ node, node ≠ origin → ∀ edge,
    FirstHop topology.m_incidencies Incidency.target Incidency.metric16 edge node origin →
      FirstHop topology.m_incidencies Incidency.target Incidency.metric edge node origin
  acyclic : ∀ node, ¬ TransGen (ZeroHop topology.m_incidencies Incidency.target Incidency.metric16 origin) node node
  short : ∀ node, node ≠ origin → ∀ name ∈ topology.m_localPrefixes origin, name.length ≤ getMaxDepth

section Weights

variable {topology : Topology V} {source node : V} {weight : Weight}

theorem foldl_weightCombine (face : Face) (metric : ℕ) (path : List (Incidency V)) :
    (path.map edgeWeight).foldl weightCombine ⟨some face, metric⟩ =
      ⟨some face, metric + pathCost Incidency.metric16 path⟩ := by
  induction path generalizing metric with
  | nil => rfl
  | cons edge path ih =>
    rw [List.map_cons, List.foldl_cons, weightCombine]
    dsimp only
    rw [ih, pathCost_cons, edgeWeight, Nat.add_assoc]

theorem pathWeight_cons (edge : Incidency V) (path : List (Incidency V)) :
    pathWeight (edge :: path) = ⟨some edge.face, pathCost Incidency.metric16 (edge :: path)⟩ := by
  rw [pathWeight, List.map_cons, List.foldl_cons, weightZero, weightCombine]
  dsimp only
  rw [Nat.zero_add, edgeWeight]
  dsimp only
  rw [foldl_weightCombine, pathCost_cons]

theorem pathWeight_metric (path : List (Incidency V)) :
    (pathWeight path).metric = pathCost Incidency.metric16 path := by
  cases path with
  | nil => rfl
  | cons edge path => rw [pathWeight_cons]

theorem IsDistance.of_near (h : IsDistance topology source node weight) (hne : source ≠ node)
    {path : List (Incidency V)} (hpath : IsRoute topology source node path)
    (hnear : pathCost Incidency.metric16 path < 65535) : ∃ edge rest, weight = pathWeight (edge :: rest) ∧
      IsLeast topology.m_incidencies Incidency.target Incidency.metric16 source node (edge :: rest) := by
  have hle : ∀ other, IsRoute topology source node other → weight.metric ≤ pathCost Incidency.metric16 other := by
    intro other hother
    have hmin := h.minimal other hother
    rw [weightCompare, decide_eq_false_iff_not, not_lt, pathWeight_metric] at hmin
    exact hmin
  rcases h.ofPath with rfl | ⟨-, found, hfound, rfl⟩
  · exact absurd (hle path hpath) (not_le.mpr hnear)
  · cases found with
    | nil =>
      cases hfound
      exact absurd rfl hne
    | cons edge rest =>
      refine ⟨edge, rest, rfl, hfound, ?_⟩
      intro other hother
      rw [← pathWeight_metric]
      exact hle other hother

end Weights

section NextHops

variable {sortNextHops : Fib.SortNextHops} {fib : NodeFib} {name : Name} {face : Face}

variable [DecidableEq V] {topology : Topology V} {distances : V → V → Weight} {origin node : V} {edge : Incidency V}

end NextHops

section Routes

variable [DecidableEq V] {topology : Topology V} {distances : V → V → Weight} {origin : V}

end Routes

section Example

end Example

end LeoNdn.GlobalRouting
