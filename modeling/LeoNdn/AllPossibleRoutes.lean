import LeoNdn.GlobalRouting

/-!
The routes of a node over each of its faces: one face is enabled at a time, and
the others have a metric that the routes over them are told by.
-/

namespace LeoNdn.AllPossibleRoutes

open LeoNdn.NdnPacket LeoNdn.WeightedPaths
open LeoNdn.Forwarder (Face)
open LeoNdn.ForwardingTables (getMaxDepth)
open LeoNdn.GlobalRouting (Weight weightInf weightCompare Route NodeFib addRoute)

/-- A face of a forwarder, and whether its transport is a `UserLinkTransport`. -/
structure NodeFace where
  face : Face
  isUserLink : Bool
  deriving DecidableEq, Repr

structure Incidency (V : Type) where
  node : V
  face : Face
  target : V
  deriving DecidableEq, Repr

/-- The routers of the nodes; an edge leaves its node through a face of it. -/
structure Graph (V : Type) where
  nodes : List V
  nodup_nodes : nodes.Nodup
  mem_nodes : ∀ node, node ∈ nodes
  getFaceTable : V → List NodeFace
  nodup_faceIds : ∀ node, ((getFaceTable node).map (fun nodeFace => nodeFace.face.id)).Nodup
  m_incidencies : V → List (Incidency V)
  incidency_node : ∀ node, ∀ edge ∈ m_incidencies node, edge.node = node
  incidency_face : ∀ node, ∀ edge ∈ m_incidencies node, ∃ nodeFace ∈ getFaceTable node, nodeFace.face = edge.face
  m_localPrefixes : V → List Name

abbrev Metrics (V : Type) := V → ℕ → ℕ

variable {V : Type}

def Incidency.metric (metrics : Metrics V) (edge : Incidency V) : ℕ := metrics edge.node edge.face.id

def Incidency.withMetric (metrics : Metrics V) (edge : Incidency V) : GlobalRouting.Incidency V :=
  ⟨edge.face, edge.metric metrics, edge.target⟩

def Incidency.metric16 (metrics : Metrics V) (edge : Incidency V) : ℕ := (edge.withMetric metrics).metric16

def pathWeight (metrics : Metrics V) (path : List (Incidency V)) : Weight :=
  GlobalRouting.pathWeight (path.map (Incidency.withMetric metrics))

abbrev IsRoute (graph : Graph V) (source node : V) (path : List (Incidency V)) : Prop :=
  IsPath graph.m_incidencies Incidency.target source node path

abbrev IsSimpleRoute (graph : Graph V) (source node : V) (path : List (Incidency V)) : Prop :=
  IsRoute graph source node path ∧ IsSimple Incidency.target source path

/-- What `dijkstra_shortest_paths` promises for a node: the weight of its path in
the tree of shortest paths, or else the infinite one; and no path has a lesser one. -/
structure IsDistance (graph : Graph V) (metrics : Metrics V) (source node : V) (weight : Weight) : Prop where
  ofPath : weight = weightInf ∨ weightCompare weight weightInf = true ∧
    ∃ path, IsSimpleRoute graph source node path ∧ weight = pathWeight metrics path
  minimal : ∀ path, IsRoute graph source node path → weightCompare (pathWeight metrics path) weight = false

/-- A run of Dijkstra's algorithm, which reads the metrics that the faces have. -/
structure Dijkstra (graph : Graph V) where
  distances : Metrics V → V → V → Weight
  isDistance : ∀ metrics source node, IsDistance graph metrics source node (distances metrics source node)

/-- `numeric_limits<uint16_t>::max() - 1`. -/
def disabledMetric : ℕ := 65534

structure Network (V : Type) where
  metrics : Metrics V
  fib : V → NodeFib

section Calculation

variable [DecidableEq V]

def setMetric (metrics : Metrics V) (node : V) (faceId metric : ℕ) : Metrics V :=
  Function.update metrics node (Function.update (metrics node) faceId metric)

/-- The metric is kept in 16 bits before the face is disabled. -/
def disableFace (node : V) (loop : (ℕ → ℕ) × Metrics V) (nodeFace : NodeFace) : (ℕ → ℕ) × Metrics V :=
  (Function.update loop.1 nodeFace.face.id (loop.2 node nodeFace.face.id % 65536),
    setMetric loop.2 node nodeFace.face.id disabledMetric)

def recoverFace (originalMetrics : ℕ → ℕ) (node : V) (metrics : Metrics V) (nodeFace : NodeFace) : Metrics V :=
  setMetric metrics node nodeFace.face.id (originalMetrics nodeFace.face.id)

variable (sortNextHops : Fib.SortNextHops) (graph : Graph V)

def routesTo (metrics : Metrics V) (distances : V → Weight) (source node : V) : List Route :=
  if node = source then []
  else
    match (distances node).face with
    | none => []
    | some face =>
      if metrics source face.id = disabledMetric then []
      else (graph.m_localPrefixes node).map (fun name => ⟨name, face, (distances node).metric⟩)

variable (dijkstra : Dijkstra graph)

/-- The routes that are added while only one face of the node is enabled. -/
def routesOver (metrics : Metrics V) (node : V) : List Route :=
  graph.nodes.flatMap (routesTo graph metrics (dijkstra.distances metrics node) node)

/-- A face that has no `UserLinkTransport` is skipped. -/
def enableFace (originalMetrics : ℕ → ℕ) (node : V) (loop : Metrics V × NodeFib) (nodeFace : NodeFace) :
    Metrics V × NodeFib :=
  if nodeFace.isUserLink then
    let metrics := setMetric loop.1 node nodeFace.face.id (originalMetrics nodeFace.face.id)
    (setMetric metrics node nodeFace.face.id disabledMetric,
      (routesOver graph dijkstra metrics node).foldl (addRoute sortNextHops) loop.2)
  else loop

def calculateNode (network : Network V) (node : V) : Network V :=
  let faces := graph.getFaceTable node
  let (originalMetrics, metrics) := faces.foldl (disableFace node) (fun _ => 0, network.metrics)
  let (metrics, fib) :=
    faces.foldl (enableFace sortNextHops graph dijkstra originalMetrics node) (metrics, network.fib node)
  ⟨faces.foldl (recoverFace originalMetrics node) metrics, Function.update network.fib node fib⟩

def calculateAllPossibleRoutes (network : Network V) : Network V :=
  graph.nodes.foldl (calculateNode sortNextHops graph dijkstra) network

end Calculation

section Purpose

variable (graph : Graph V) (metrics : Metrics V)

/-- A path that starts with the face and does not come back through its node. -/
structure StartsWith (node origin : V) (face : Face) (path : List (Incidency V)) : Prop where
  isRoute : IsRoute graph node origin path
  starts : ∃ edge rest, path = edge :: rest ∧ edge.face = face
  leaves : ∀ edge ∈ path, edge.target ≠ node

/-- The least total metric of the paths that start with the face. -/
structure IsLeastMetric (node origin : V) (face : Face) (metric : ℕ) : Prop where
  ofPath : ∃ path, StartsWith graph node origin face path ∧ pathCost (Incidency.metric metrics) path = metric
  le : ∀ path, StartsWith graph node origin face path → metric ≤ pathCost (Incidency.metric metrics) path

def IsUserLink (node : V) (face : Face) : Prop := ⟨face, true⟩ ∈ graph.getFaceTable node

/-- The prefix has a single origin, which is another node. -/
structure OtherOrigin (node : V) (name : Name) (origin : V) : Prop where
  mem : name ∈ graph.m_localPrefixes origin
  single : ∀ other, name ∈ graph.m_localPrefixes other → other = origin
  ne : origin ≠ node

/-- The next hops of every node are the user links that a path starts with, at the
least metric of such a path, and the metrics are as they were. -/
structure RoutesRight (network : Network V) : Prop where
  nextHops : ∀ node name origin, OtherOrigin graph node name origin → ∀ face,
    (∃ hop ∈ ((network.fib node).entry name).m_nextHops, hop.m_face = face) ↔
      IsUserLink graph node face ∧ ∃ path, StartsWith graph node origin face path
  costs : ∀ node name origin, OtherOrigin graph node name origin →
    ∀ hop ∈ ((network.fib node).entry name).m_nextHops, IsLeastMetric graph metrics node origin hop.m_face hop.m_cost
  recovered : ∀ node, ∀ nodeFace ∈ graph.getFaceTable node,
    network.metrics node nodeFace.face.id = metrics node nodeFace.face.id

def Bounded : Prop :=
  ∀ node node' path, IsSimpleRoute graph node node' path → pathCost (Incidency.metric metrics) path < 65534

/-- The metrics have 16 bits, and the prefixes that a user link leads to are not too long. -/
structure Suffices : Prop where
  narrow : ∀ node, ∀ nodeFace ∈ graph.getFaceTable node, metrics node nodeFace.face.id < 65536
  short : ∀ node name origin, OtherOrigin graph node name origin →
    (∃ face path, IsUserLink graph node face ∧ StartsWith graph node origin face path) → name.length ≤ getMaxDepth

end Purpose

section Metrics

variable [DecidableEq V] {metrics : Metrics V} {node : V} {faces : List NodeFace}

def faceIds (faces : List NodeFace) : List ℕ := faces.map (fun nodeFace => nodeFace.face.id)

def overwrite (metrics : Metrics V) (node : V) (faces : List NodeFace) (others : ℕ → ℕ) : Metrics V :=
  fun node' faceId => if node' = node ∧ faceId ∈ faceIds faces then others faceId else metrics node' faceId

theorem setMetric_apply (metrics : Metrics V) (node node' : V) (faceId faceId' metric : ℕ) :
    setMetric metrics node faceId metric node' faceId' =
      if node' = node ∧ faceId' = faceId then metric else metrics node' faceId' := by
  unfold setMetric
  by_cases hnode : node' = node
  · subst hnode
    rw [Function.update_self, Function.update_apply]
    simp
  · rw [Function.update_of_ne hnode, if_neg fun h => hnode h.1]

theorem setMetric_same {faceId metric : ℕ} (h : metrics node faceId = metric) :
    setMetric metrics node faceId metric = metrics := by
  rw [setMetric, ← h, Function.update_eq_self, Function.update_eq_self]

theorem setMetric_twice (metrics : Metrics V) (node : V) (faceId metric metric' : ℕ) :
    setMetric (setMetric metrics node faceId metric) node faceId metric' = setMetric metrics node faceId metric' := by
  unfold setMetric
  rw [Function.update_self, Function.update_idem, Function.update_idem]

theorem foldl_setMetric (others : ℕ → ℕ) (faces : List NodeFace) (metrics : Metrics V) (node : V) :
    faces.foldl (fun metrics nodeFace => setMetric metrics node nodeFace.face.id (others nodeFace.face.id)) metrics =
      overwrite metrics node faces others := by
  induction faces generalizing metrics with
  | nil =>
    funext node' faceId
    simp [overwrite, faceIds]
  | cons nodeFace faces ih =>
    rw [List.foldl_cons, ih]
    funext node' faceId
    simp only [overwrite, faceIds, setMetric_apply, List.map_cons, List.mem_cons]
    grind

theorem overwrite_twice (metrics : Metrics V) (node : V) (faces : List NodeFace) (others others' : ℕ → ℕ) :
    overwrite (overwrite metrics node faces others) node faces others' = overwrite metrics node faces others' := by
  funext node' faceId
  simp only [overwrite]
  split <;> rfl

theorem overwrite_congr {others others' : ℕ → ℕ} (h : ∀ faceId ∈ faceIds faces, others faceId = others' faceId) :
    overwrite metrics node faces others = overwrite metrics node faces others' := by
  funext node' faceId
  simp only [overwrite]
  split
  · rename_i hface
    exact h faceId hface.2
  · rfl

theorem foldl_disableFace_snd (loop : (ℕ → ℕ) × Metrics V) (node : V) (faces : List NodeFace) :
    (faces.foldl (disableFace node) loop).2 = overwrite loop.2 node faces (fun _ => disabledMetric) := by
  rw [← foldl_setMetric]
  induction faces generalizing loop with
  | nil => rfl
  | cons nodeFace faces ih =>
    rw [List.foldl_cons, List.foldl_cons, ih]
    rfl

/-- Each metric is read before the face is disabled, as no identifier comes twice. -/
theorem foldl_disableFace_fst (loop : (ℕ → ℕ) × Metrics V) (hnodup : (faceIds faces).Nodup) (faceId : ℕ) :
    (faces.foldl (disableFace node) loop).1 faceId =
      if faceId ∈ faceIds faces then loop.2 node faceId % 65536 else loop.1 faceId := by
  induction faces generalizing loop with
  | nil => rfl
  | cons nodeFace faces ih =>
    obtain ⟨hnew, hrest⟩ := List.nodup_cons.mp hnodup
    rw [List.foldl_cons, ih _ hrest]
    simp only [disableFace, faceIds, List.map_cons, List.mem_cons, setMetric_apply, Function.update_apply]
    by_cases hface : faceId = nodeFace.face.id
    · subst hface
      rw [if_neg hnew, if_pos rfl, if_pos (Or.inl rfl)]
    · simp [hface]

theorem foldl_recoverFace (originalMetrics : ℕ → ℕ) (node : V) (metrics : Metrics V) (faces : List NodeFace) :
    faces.foldl (recoverFace originalMetrics node) metrics = overwrite metrics node faces originalMetrics :=
  foldl_setMetric originalMetrics faces metrics node

end Metrics

section Nodes

variable [DecidableEq V] (sortNextHops : Fib.SortNextHops) (graph : Graph V) (dijkstra : Dijkstra graph)

def enabled (metrics : Metrics V) (node : V) (nodeFace : NodeFace) : Metrics V :=
  setMetric (overwrite metrics node (graph.getFaceTable node) (fun _ => disabledMetric)) node nodeFace.face.id
    (metrics node nodeFace.face.id % 65536)

def routesOf (metrics : Metrics V) (node : V) : List Route :=
  ((graph.getFaceTable node).filter NodeFace.isUserLink).flatMap
    (fun nodeFace => routesOver graph dijkstra (enabled graph metrics node nodeFace) node)

theorem foldl_enableFace (originalMetrics : ℕ → ℕ) (node : V) (loop : Metrics V × NodeFib) (faces : List NodeFace)
    (hdisabled : ∀ nodeFace ∈ faces, loop.1 node nodeFace.face.id = disabledMetric) :
    faces.foldl (enableFace sortNextHops graph dijkstra originalMetrics node) loop =
      (loop.1, ((faces.filter NodeFace.isUserLink).flatMap (fun nodeFace =>
        routesOver graph dijkstra (setMetric loop.1 node nodeFace.face.id (originalMetrics nodeFace.face.id)) node)).foldl
          (addRoute sortNextHops) loop.2) := by
  induction faces generalizing loop with
  | nil => rfl
  | cons nodeFace faces ih =>
    obtain ⟨hface, hrest⟩ := List.forall_mem_cons.mp hdisabled
    rw [List.foldl_cons]
    by_cases hlink : nodeFace.isUserLink = true
    · have hloop : (enableFace sortNextHops graph dijkstra originalMetrics node loop nodeFace).1 = loop.1 := by
        rw [enableFace, if_pos hlink]
        dsimp only
        rw [setMetric_twice, setMetric_same hface]
      rw [ih _ (by rw [hloop]; exact hrest), hloop, List.filter_cons_of_pos hlink, List.flatMap_cons, List.foldl_append,
        enableFace, if_pos hlink]
    · rw [enableFace, if_neg hlink, ih loop hrest, List.filter_cons_of_neg hlink]

theorem calculateNode_eq (network : Network V) (node : V) :
    calculateNode sortNextHops graph dijkstra network node =
      ⟨overwrite network.metrics node (graph.getFaceTable node) (fun faceId => network.metrics node faceId % 65536),
        Function.update network.fib node
          ((routesOf graph dijkstra network.metrics node).foldl (addRoute sortNextHops) (network.fib node))⟩ := by
  have hsaved : ∀ faceId ∈ faceIds (graph.getFaceTable node),
      ((graph.getFaceTable node).foldl (disableFace node) (fun _ => 0, network.metrics)).1 faceId =
        network.metrics node faceId % 65536 := by
    intro faceId hface
    rw [foldl_disableFace_fst _ (graph.nodup_faceIds node), if_pos hface]
  have hdisabled : ∀ nodeFace ∈ graph.getFaceTable node,
      overwrite network.metrics node (graph.getFaceTable node) (fun _ => disabledMetric) node nodeFace.face.id =
        disabledMetric := by
    intro nodeFace hface
    exact if_pos ⟨rfl, List.mem_map_of_mem hface⟩
  unfold calculateNode
  dsimp only
  rw [foldl_disableFace_snd, foldl_enableFace _ _ _ _ _ _ _ hdisabled, foldl_recoverFace]
  dsimp only
  rw [overwrite_twice, overwrite_congr hsaved]
  congr 3
  unfold routesOf enabled
  apply List.flatMap_congr
  intro nodeFace hface
  rw [hsaved nodeFace.face.id (List.mem_map_of_mem (List.mem_of_mem_filter hface))]

theorem foldl_calculateNode_metrics (nodes : List V) (network : Network V) (node : V) (faceId : ℕ) :
    (nodes.foldl (calculateNode sortNextHops graph dijkstra) network).metrics node faceId =
      if node ∈ nodes ∧ faceId ∈ faceIds (graph.getFaceTable node) then network.metrics node faceId % 65536
      else network.metrics node faceId := by
  induction nodes generalizing network with
  | nil => simp
  | cons first nodes ih =>
    rw [List.foldl_cons, ih, calculateNode_eq]
    dsimp only
    unfold overwrite
    by_cases hfirst : node = first
    · subst hfirst
      by_cases hface : faceId ∈ faceIds (graph.getFaceTable node)
      · simp [hface]
      · simp [hface]
    · simp [hfirst]

theorem foldl_calculateNode_fib {nodes : List V} {node : V} (h : node ∉ nodes) (network : Network V) :
    (nodes.foldl (calculateNode sortNextHops graph dijkstra) network).fib node = network.fib node := by
  induction nodes generalizing network with
  | nil => rfl
  | cons first nodes ih =>
    rw [List.mem_cons, not_or] at h
    rw [List.foldl_cons, ih h.2, calculateNode_eq]
    exact Function.update_of_ne h.1 _ _

/-- Metrics that the nodes calculated before may have cut to 16 bits. -/
def Agree (current metrics : Metrics V) : Prop :=
  ∀ node faceId, current node faceId % 65536 = metrics node faceId % 65536

omit [DecidableEq V] in
theorem agree_of_cut {current metrics : Metrics V} (h : ∀ node faceId,
    current node faceId = metrics node faceId % 65536 ∨ current node faceId = metrics node faceId) :
    Agree current metrics := by
  intro node faceId
  rcases h node faceId with hcut | hsame
  · rw [hcut, Nat.mod_mod]
  · rw [hsame]

theorem calculateAllPossibleRoutes_metrics (network : Network V) {node : V} {nodeFace : NodeFace}
    (hface : nodeFace ∈ graph.getFaceTable node) :
    (calculateAllPossibleRoutes sortNextHops graph dijkstra network).metrics node nodeFace.face.id =
      network.metrics node nodeFace.face.id % 65536 := by
  rw [calculateAllPossibleRoutes, foldl_calculateNode_metrics,
    if_pos ⟨graph.mem_nodes node, List.mem_map_of_mem hface⟩]

theorem calculateAllPossibleRoutes_fib (network : Network V) (node : V) :
    ∃ current, Agree current network.metrics ∧
      (calculateAllPossibleRoutes sortNextHops graph dijkstra network).fib node =
        (routesOf graph dijkstra current node).foldl (addRoute sortNextHops) (network.fib node) := by
  obtain ⟨before, after, hnodes⟩ := List.append_of_mem (graph.mem_nodes node)
  have hnodup := graph.nodup_nodes
  rw [hnodes, List.nodup_append, List.nodup_cons] at hnodup
  have hbefore : node ∉ before := fun h => hnodup.2.2 node h node List.mem_cons_self rfl
  refine ⟨(before.foldl (calculateNode sortNextHops graph dijkstra) network).metrics, ?_, ?_⟩
  · apply agree_of_cut
    intro node' faceId
    rw [foldl_calculateNode_metrics]
    split
    · exact Or.inl rfl
    · exact Or.inr rfl
  · rw [calculateAllPossibleRoutes, hnodes, List.foldl_append, List.foldl_cons,
      foldl_calculateNode_fib _ _ _ hnodup.2.1.1, calculateNode_eq]
    dsimp only
    rw [Function.update_self, foldl_calculateNode_fib _ _ _ hbefore]

end Nodes

section Fibs

variable {sortNextHops : Fib.SortNextHops} {name : Name} {routes : List Route}

def emptyFib : NodeFib := ⟨fun name => ⟨name, []⟩, fun _ _ => rfl⟩

def addCall (route : Route) : Fib.Call := .addOrUpdateNextHop route.face 0 route.metric

theorem entry_foldl (fib : NodeFib) (hshort : name.length ≤ getMaxDepth) :
    (routes.foldl (addRoute sortNextHops) fib).entry name =
      Fib.run sortNextHops (fib.entry name) ((routes.filter (fun route => name = route.name)).map addCall) := by
  induction routes generalizing fib with
  | nil => rfl
  | cons route routes ih =>
    rw [List.foldl_cons, ih]
    by_cases hname : name = route.name
    · rw [List.filter_cons_of_pos (by simpa using hname), addRoute]
      dsimp only
      rw [if_pos ⟨hname, hshort⟩]
      rfl
    · rw [List.filter_cons_of_neg (by simpa using hname), addRoute]
      dsimp only
      rw [if_neg fun h => hname h.1]

def OneMetric (routes : List Route) : Prop :=
  ∀ route ∈ routes, ∀ route' ∈ routes, route.face = route'.face → route.metric = route'.metric

theorem costs_addCalls (h : OneMetric routes) (face : Face) (endpointId metric : ℕ) :
    (routes.map addCall).foldl (fun costs c => c.costs costs) Fib.noCosts face endpointId = some metric ↔
      endpointId = 0 ∧ ∃ route ∈ routes, route.face = face ∧ route.metric = metric := by
  induction routes using List.reverseRecOn with
  | nil => simp [Fib.noCosts]
  | append_singleton routes last ih =>
    have hroutes : OneMetric routes := by
      intro route hroute route' hroute'
      exact h route (List.mem_append_left _ hroute) route' (List.mem_append_left _ hroute')
    rw [List.map_append, List.foldl_append, List.map_singleton, List.foldl_cons, List.foldl_nil, addCall, Fib.Call.costs]
    dsimp only
    by_cases hlast : face = last.face ∧ endpointId = 0
    · rw [if_pos hlast, Option.some_inj]
      constructor
      · rintro rfl
        exact ⟨hlast.2, last, List.mem_append_right _ (List.mem_singleton_self last), hlast.1.symm, rfl⟩
      · rintro ⟨-, route, hroute, hface, rfl⟩
        refine h last (List.mem_append_right _ (List.mem_singleton_self last)) route hroute ?_
        rw [hface, hlast.1]
    · rw [if_neg hlast, ih hroutes]
      refine and_congr_right fun hendpoint => ?_
      constructor
      · rintro ⟨route, hroute, hmetric⟩
        exact ⟨route, List.mem_append_left _ hroute, hmetric⟩
      · rintro ⟨route, hroute, rfl, hmetric⟩
        rcases List.mem_append.mp hroute with hroute | hroute
        · exact ⟨route, hroute, rfl, hmetric⟩
        · rw [List.mem_singleton.mp hroute] at hlast
          exact absurd ⟨rfl, hendpoint⟩ hlast

theorem mem_nextHops_foldl (hone : OneMetric (routes.filter (fun route => name = route.name)))
    (hshort : name.length ≤ getMaxDepth) (hop : Fib.NextHop) :
    hop ∈ ((routes.foldl (addRoute sortNextHops) emptyFib).entry name).m_nextHops ↔
      hop.m_endpointId = 0 ∧ ⟨name, hop.m_face, hop.m_cost⟩ ∈ routes := by
  rw [entry_foldl emptyFib hshort, emptyFib]
  dsimp only
  rw [Fib.has_run (Fib.wellFormed_new name) (Fib.has_new name), costs_addCalls hone]
  refine and_congr_right fun _ => ?_
  constructor
  · rintro ⟨route, hroute, hface, hmetric⟩
    obtain ⟨hmem, hname⟩ := List.mem_filter.mp hroute
    rw [of_decide_eq_true hname, ← hface, ← hmetric]
    exact hmem
  · intro hroute
    exact ⟨_, List.mem_filter.mpr ⟨hroute, decide_eq_true rfl⟩, rfl, rfl⟩

end Fibs

end LeoNdn.AllPossibleRoutes
