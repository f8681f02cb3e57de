import LeoNdn.AllPossibleRoutes

/-!
What the distances of a node are while one of its faces is enabled: those over that
face, at the least metric of a path that does not come back.
-/

namespace LeoNdn.AllPossibleRoutes

open LeoNdn.NdnPacket LeoNdn.WeightedPaths
open LeoNdn.Forwarder (Face)
open LeoNdn.ForwardingTables (getMaxDepth)
open LeoNdn.GlobalRouting (Weight weightZero weightInf weightCompare Route NodeFib)

variable {V : Type}

section Distances

variable {graph : Graph V} {metrics current : Metrics V} {source node : V} {weight : Weight} {edge : Incidency V}
  {path : List (Incidency V)} {face : Face}

theorem pathCost_withMetric (metrics : Metrics V) (path : List (Incidency V)) :
    pathCost GlobalRouting.Incidency.metric16 (path.map (Incidency.withMetric metrics)) =
      pathCost (Incidency.metric16 metrics) path := by
  rw [pathCost, List.map_map]
  rfl

theorem pathWeight_cons (metrics : Metrics V) (edge : Incidency V) (path : List (Incidency V)) :
    pathWeight metrics (edge :: path) = ⟨some edge.face, pathCost (Incidency.metric16 metrics) (edge :: path)⟩ := by
  rw [pathWeight, List.map_cons, GlobalRouting.pathWeight_cons, ← List.map_cons, pathCost_withMetric]
  rfl

theorem pathWeight_metric (metrics : Metrics V) (path : List (Incidency V)) :
    (pathWeight metrics path).metric = pathCost (Incidency.metric16 metrics) path := by
  rw [pathWeight, GlobalRouting.pathWeight_metric, pathCost_withMetric]

theorem IsDistance.metric_le (h : IsDistance graph metrics source node weight) (hpath : IsRoute graph source node path) :
    weight.metric ≤ pathCost (Incidency.metric16 metrics) path := by
  have hmin := h.minimal path hpath
  rw [weightCompare, decide_eq_false_iff_not, not_lt, pathWeight_metric] at hmin
  exact hmin

theorem IsDistance.of_face (h : IsDistance graph metrics source node weight) (hface : weight.face = some face) :
    ∃ edge rest, IsSimpleRoute graph source node (edge :: rest) ∧ weight = pathWeight metrics (edge :: rest) ∧
      edge.face = face := by
  rcases h.ofPath with rfl | ⟨-, path, hpath, rfl⟩
  · cases hface
  · cases path with
    | nil => cases hface
    | cons edge rest =>
      rw [pathWeight_cons] at hface
      exact ⟨edge, rest, hpath, rfl, Option.some_inj.mp hface⟩

theorem IsDistance.of_near (h : IsDistance graph metrics source node weight) (hne : node ≠ source)
    (hnear : weight.metric < 65535) : ∃ face, weight.face = some face := by
  rcases h.ofPath with rfl | ⟨-, path, hpath, rfl⟩
  · exact absurd hnear (lt_irrefl 65535)
  · cases path with
    | nil =>
      cases hpath.1
      exact absurd rfl hne
    | cons edge rest =>
      rw [pathWeight_cons]
      exact ⟨edge.face, rfl⟩

theorem startsWith_of_simple (h : IsSimpleRoute graph source node (edge :: path)) :
    StartsWith graph source node edge.face (edge :: path) := by
  refine ⟨h.1, ⟨edge, path, rfl, rfl⟩, ?_⟩
  intro other hother hback
  apply (List.nodup_cons.mp h.2).1
  rw [← hback]
  exact List.mem_map_of_mem hother

theorem StartsWith.exists_simple (h : StartsWith graph source node face path) :
    ∃ simple, StartsWith graph source node face simple ∧ IsSimple Incidency.target source simple := by
  obtain ⟨edge, rest, rfl, hface⟩ := h.starts
  obtain ⟨simple, hsimple, hnodup, hsub⟩ := h.isRoute.tail.exists_simple
  have hsub' : edge :: simple ⊆ edge :: rest := List.cons_subset_cons edge hsub
  have hleaves : ∀ other ∈ edge :: simple, other.target ≠ source := fun other hother => h.leaves other (hsub' hother)
  refine ⟨edge :: simple, ⟨IsPath.cons h.isRoute.head_mem hsimple, ⟨edge, simple, rfl, hface⟩, hleaves⟩, ?_⟩
  apply List.nodup_cons.mpr
  refine ⟨?_, hnodup⟩
  intro hback
  obtain ⟨other, hother, htarget⟩ := List.mem_map.mp hback
  exact hleaves other hother htarget

theorem StartsWith.exists_least (h : StartsWith graph source node face path) :
    ∃ metric, IsLeastMetric graph metrics source node face metric := by
  obtain ⟨least, hleast, hmin⟩ := WellFounded.has_min (measure (pathCost (Incidency.metric metrics))).wf
    { path | StartsWith graph source node face path } ⟨path, h⟩
  exact ⟨_, ⟨least, hleast, rfl⟩, fun other hother => not_lt.mp (hmin other hother)⟩

theorem IsLeastMetric.unique {metric metric' : ℕ} (h : IsLeastMetric graph metrics source node face metric)
    (h' : IsLeastMetric graph metrics source node face metric') : metric = metric' := by
  obtain ⟨path, hpath, hcost⟩ := h.ofPath
  obtain ⟨path', hpath', hcost'⟩ := h'.ofPath
  apply le_antisymm
  · rw [← hcost']
    exact h.le path' hpath'
  · rw [← hcost]
    exact h'.le path hpath

theorem StartsWith.tail_node (h : StartsWith graph source node face (edge :: path)) :
    ∀ other ∈ path, other.node ≠ source := by
  intro other hother hnode
  have hmem := h.isRoute.tail.source_mem graph.incidency_node other hother
  rw [hnode, ← List.map_cons] at hmem
  obtain ⟨back, hback, htarget⟩ := List.mem_map.mp hmem
  exact h.leaves back hback htarget

end Distances

section Enabled

variable {graph : Graph V} {metrics current : Metrics V} {node origin : V} {weight : Weight} {nodeFace : NodeFace}
  {edge : Incidency V} {path : List (Incidency V)} {face : Face} {metric : ℕ}

/-- Only one face of the node has its metric, and the faces of the other nodes have theirs. -/
structure OnlyEnabled (graph : Graph V) (metrics current : Metrics V) (node : V) (nodeFace : NodeFace) : Prop where
  enabled : current node nodeFace.face.id = metrics node nodeFace.face.id % 65536
  disabled : ∀ other ∈ graph.getFaceTable node, other.face.id ≠ nodeFace.face.id →
    current node other.face.id = disabledMetric
  others : ∀ node' faceId, node' ≠ node → current node' faceId % 65536 = metrics node' faceId % 65536

theorem onlyEnabled_enabled [DecidableEq V] (h : Agree current metrics) (node : V) (nodeFace : NodeFace) :
    OnlyEnabled graph metrics (enabled graph current node nodeFace) node nodeFace := by
  unfold enabled
  constructor
  · rw [setMetric_apply, if_pos ⟨rfl, rfl⟩, h]
  · intro other hother hne
    rw [setMetric_apply, if_neg fun heq => hne heq.2, overwrite, if_pos ⟨rfl, List.mem_map_of_mem hother⟩]
  · intro node' faceId hne
    rw [setMetric_apply, if_neg fun heq => hne heq.1, overwrite, if_neg fun heq => hne heq.1, h]

theorem OnlyEnabled.metric16_eq (h : OnlyEnabled graph metrics current node nodeFace)
    (hpath : StartsWith graph node origin nodeFace.face path) :
    ∀ edge ∈ path, edge.metric16 current = edge.metric metrics % 65536 := by
  obtain ⟨first, rest, rfl, hfirst⟩ := hpath.starts
  intro edge hedge
  change current edge.node edge.face.id % 65536 = metrics edge.node edge.face.id % 65536
  rcases List.mem_cons.mp hedge with rfl | hrest
  · rw [graph.incidency_node node edge hpath.isRoute.head_mem, hfirst, h.enabled, Nat.mod_mod]
  · exact h.others _ _ (hpath.tail_node edge hrest)

theorem OnlyEnabled.cost_le (h : OnlyEnabled graph metrics current node nodeFace)
    (hpath : StartsWith graph node origin nodeFace.face path) :
    pathCost (Incidency.metric16 current) path ≤ pathCost (Incidency.metric metrics) path := by
  apply pathCost_mono
  intro edge hedge
  rw [h.metric16_eq hpath edge hedge]
  exact Nat.mod_le _ _

theorem OnlyEnabled.cost_eq (h : OnlyEnabled graph metrics current node nodeFace) (hbounded : Bounded graph metrics)
    (hpath : StartsWith graph node origin nodeFace.face path) (hsimple : IsSimple Incidency.target node path) :
    pathCost (Incidency.metric16 current) path = pathCost (Incidency.metric metrics) path := by
  apply pathCost_congr
  intro edge hedge
  have hlt := hbounded node origin path ⟨hpath.isRoute, hsimple⟩
  have hle : edge.metric metrics ≤ pathCost (Incidency.metric metrics) path := le_pathCost hedge
  rw [h.metric16_eq hpath edge hedge, Nat.mod_eq_of_lt (by omega)]

theorem OnlyEnabled.ne_disabled (h : OnlyEnabled graph metrics current node nodeFace) (hbounded : Bounded graph metrics)
    (hpath : StartsWith graph node origin nodeFace.face path) :
    current node nodeFace.face.id ≠ disabledMetric := by
  obtain ⟨edge, rest, rfl, hface⟩ := hpath.starts
  have hmem := hpath.isRoute.head_mem
  have hsimple : IsSimple Incidency.target node [edge] := by
    simpa [IsSimple] using (hpath.leaves edge List.mem_cons_self).symm
  have hlt := hbounded node edge.target [edge] ⟨IsPath.cons hmem (IsPath.nil _), hsimple⟩
  have hmetric : edge.metric metrics ≤ pathCost (Incidency.metric metrics) [edge] :=
    le_pathCost (List.mem_singleton_self edge)
  rw [Incidency.metric, graph.incidency_node node edge hmem, hface] at hmetric
  rw [h.enabled, disabledMetric]
  omega

theorem OnlyEnabled.face_eq (h : OnlyEnabled graph metrics current node nodeFace)
    (hnodeFace : nodeFace ∈ graph.getFaceTable node) (hedge : edge ∈ graph.m_incidencies node)
    (henabled : current node edge.face.id ≠ disabledMetric) : edge.face = nodeFace.face := by
  obtain ⟨found, hfound, hface⟩ := graph.incidency_face node edge hedge
  rw [← hface] at henabled ⊢
  by_contra hne
  apply henabled
  apply h.disabled found hfound
  intro hid
  rw [List.inj_on_of_nodup_map (graph.nodup_faceIds node) hfound hnodeFace hid] at hne
  exact hne rfl

theorem OnlyEnabled.least_of_distance (h : OnlyEnabled graph metrics current node nodeFace)
    (hbounded : Bounded graph metrics) (hnodeFace : nodeFace ∈ graph.getFaceTable node)
    (hdistance : IsDistance graph current node origin weight) (hface : weight.face = some face)
    (henabled : current node face.id ≠ disabledMetric) :
    face = nodeFace.face ∧ IsLeastMetric graph metrics node origin face weight.metric := by
  obtain ⟨edge, rest, hsimple, hweight, rfl⟩ := hdistance.of_face hface
  have heq := h.face_eq hnodeFace hsimple.1.head_mem henabled
  have hstarts := startsWith_of_simple hsimple
  rw [heq] at hstarts ⊢
  refine ⟨rfl, ⟨edge :: rest, hstarts, ?_⟩, ?_⟩
  · rw [hweight, pathWeight_metric, h.cost_eq hbounded hstarts hsimple.2]
  · intro other hother
    exact (hdistance.metric_le hother.isRoute).trans (h.cost_le hother)

theorem OnlyEnabled.distance_of_starts (h : OnlyEnabled graph metrics current node nodeFace)
    (hbounded : Bounded graph metrics) (hnodeFace : nodeFace ∈ graph.getFaceTable node) (hne : origin ≠ node)
    (hdistance : IsDistance graph current node origin weight)
    (hpath : StartsWith graph node origin nodeFace.face path) : weight.face = some nodeFace.face := by
  obtain ⟨simple, hstarts, hsimple⟩ := hpath.exists_simple
  have hnear : weight.metric < disabledMetric := by
    have hle := hdistance.metric_le hstarts.isRoute
    rw [h.cost_eq hbounded hstarts hsimple] at hle
    exact hle.trans_lt (hbounded node origin simple ⟨hstarts.isRoute, hsimple⟩)
  obtain ⟨face, hface⟩ := hdistance.of_near hne (hnear.trans (by decide))
  obtain ⟨edge, rest, hroute, hweight, rfl⟩ := hdistance.of_face hface
  rw [hface, h.face_eq hnodeFace hroute.1.head_mem]
  intro hdisabled
  rw [hweight, pathWeight_metric] at hnear
  have hedge : edge.metric16 current ≤ pathCost (Incidency.metric16 current) (edge :: rest) :=
    le_pathCost List.mem_cons_self
  have hmetric : edge.metric16 current = disabledMetric := by
    change current edge.node edge.face.id % 65536 = disabledMetric
    rw [graph.incidency_node node edge hroute.1.head_mem, hdisabled]
    rfl
  omega

theorem OnlyEnabled.distance_iff (h : OnlyEnabled graph metrics current node nodeFace)
    (hbounded : Bounded graph metrics) (hnodeFace : nodeFace ∈ graph.getFaceTable node) (hne : origin ≠ node)
    (hdistance : IsDistance graph current node origin weight) :
    (weight = ⟨some face, metric⟩ ∧ current node face.id ≠ disabledMetric) ↔
      face = nodeFace.face ∧ IsLeastMetric graph metrics node origin face metric := by
  constructor
  · rintro ⟨rfl, henabled⟩
    exact h.least_of_distance hbounded hnodeFace hdistance rfl henabled
  · rintro ⟨rfl, hleast⟩
    obtain ⟨path, hpath, -⟩ := hleast.ofPath
    have henabled := h.ne_disabled hbounded hpath
    have hface := h.distance_of_starts hbounded hnodeFace hne hdistance hpath
    have hfound := (h.least_of_distance hbounded hnodeFace hdistance hface henabled).2
    refine ⟨?_, henabled⟩
    cases weight
    exact congrArg₂ GlobalRouting.Weight.mk hface (hfound.unique hleast)

end Enabled

section Routes

variable [DecidableEq V] {sortNextHops : Fib.SortNextHops} {graph : Graph V} {dijkstra : Dijkstra graph}
  {metrics current : Metrics V} {node origin : V} {name : Name} {face : Face} {metric : ℕ} {route : Route}

theorem mem_routesTo {distances : V → Weight} : route ∈ routesTo graph metrics distances node origin ↔
    origin ≠ node ∧ route.name ∈ graph.m_localPrefixes origin ∧
      distances origin = ⟨some route.face, route.metric⟩ ∧ metrics node route.face.id ≠ disabledMetric := by
  obtain ⟨name, face, metric⟩ := route
  unfold routesTo
  by_cases hne : origin = node
  · simp [hne]
  · rw [if_neg hne, and_iff_right hne]
    obtain ⟨weightFace, weightMetric⟩ := distances origin
    cases weightFace with
    | none => simp
    | some weightFace =>
      dsimp only
      by_cases hdisabled : metrics node weightFace.id = disabledMetric
      · rw [if_pos hdisabled]
        simp only [List.not_mem_nil, GlobalRouting.Weight.mk.injEq, Option.some_inj, false_iff]
        rintro ⟨-, ⟨rfl, -⟩, henabled⟩
        exact henabled hdisabled
      · rw [if_neg hdisabled, List.mem_map]
        simp only [GlobalRouting.Route.mk.injEq, GlobalRouting.Weight.mk.injEq, Option.some_inj]
        constructor
        · rintro ⟨_, hname, rfl, rfl, rfl⟩
          exact ⟨hname, ⟨rfl, rfl⟩, hdisabled⟩
        · rintro ⟨hname, ⟨rfl, rfl⟩, -⟩
          exact ⟨name, hname, rfl, rfl, rfl⟩

theorem mem_routesOf (hagree : Agree current metrics) (hbounded : Bounded graph metrics)
    (horigin : OtherOrigin graph node name origin) : ⟨name, face, metric⟩ ∈ routesOf graph dijkstra current node ↔
      IsUserLink graph node face ∧ IsLeastMetric graph metrics node origin face metric := by
  unfold routesOf routesOver
  simp only [List.mem_flatMap, mem_routesTo, List.mem_filter]
  constructor
  · rintro ⟨nodeFace, ⟨hnodeFace, hlink⟩, other, -, -, hname, hdistance⟩
    rw [horigin.single other hname] at hdistance
    have hleast := ((onlyEnabled_enabled hagree node nodeFace).distance_iff hbounded hnodeFace horigin.ne
      (dijkstra.isDistance _ _ _)).mp hdistance
    refine ⟨?_, hleast.2⟩
    rw [IsUserLink, hleast.1, ← hlink]
    exact hnodeFace
  · rintro ⟨hlink, hleast⟩
    refine ⟨⟨face, true⟩, ⟨hlink, rfl⟩, origin, graph.mem_nodes origin, horigin.ne, horigin.mem, ?_⟩
    exact ((onlyEnabled_enabled hagree node ⟨face, true⟩).distance_iff hbounded hlink horigin.ne
      (dijkstra.isDistance _ _ _)).mpr ⟨rfl, hleast⟩

theorem oneMetric_routesOf (hagree : Agree current metrics) (hbounded : Bounded graph metrics)
    (horigin : OtherOrigin graph node name origin) :
    OneMetric ((routesOf graph dijkstra current node).filter (fun route => name = route.name)) := by
  have hleast : ∀ route ∈ (routesOf graph dijkstra current node).filter (fun route => name = route.name),
      IsLeastMetric graph metrics node origin route.face route.metric := by
    intro route hroute
    obtain ⟨hmem, hname⟩ := List.mem_filter.mp hroute
    rw [of_decide_eq_true hname] at horigin
    exact ((mem_routesOf hagree hbounded horigin).mp hmem).2
  intro route hroute route' hroute' hface
  have hother := hleast route' hroute'
  rw [← hface] at hother
  exact (hleast route hroute).unique hother

theorem mem_nextHops (hbounded : Bounded graph metrics) (horigin : OtherOrigin graph node name origin)
    (hshort : name.length ≤ getMaxDepth) (hop : Fib.NextHop) :
    hop ∈ (((calculateAllPossibleRoutes sortNextHops graph dijkstra ⟨metrics, fun _ => emptyFib⟩).fib
        node).entry name).m_nextHops ↔
      hop.m_endpointId = 0 ∧ IsUserLink graph node hop.m_face ∧
        IsLeastMetric graph metrics node origin hop.m_face hop.m_cost := by
  obtain ⟨current, hagree, hfib⟩ :=
    calculateAllPossibleRoutes_fib sortNextHops graph dijkstra ⟨metrics, fun _ => emptyFib⟩ node
  rw [hfib, mem_nextHops_foldl (oneMetric_routesOf hagree hbounded horigin) hshort, mem_routesOf hagree hbounded horigin]

omit [DecidableEq V] in
theorem short_of_mem {fib : NodeFib} {hop : Fib.NextHop} (h : hop ∈ (fib.entry name).m_nextHops) :
    name.length ≤ getMaxDepth := by
  by_contra hlong
  rw [fib.depth name (Nat.not_le.mp hlong)] at h
  cases h

theorem routesRight_of_suffices (sortNextHops : Fib.SortNextHops) (dijkstra : Dijkstra graph)
    (hbounded : Bounded graph metrics) (h : Suffices graph metrics) :
    RoutesRight graph metrics
      (calculateAllPossibleRoutes sortNextHops graph dijkstra ⟨metrics, fun _ => emptyFib⟩) := by
  constructor
  · intro node name origin horigin face
    constructor
    · rintro ⟨hop, hhop, rfl⟩
      obtain ⟨-, hlink, hleast⟩ := (mem_nextHops hbounded horigin (short_of_mem hhop) hop).mp hhop
      obtain ⟨path, hpath, -⟩ := hleast.ofPath
      exact ⟨hlink, path, hpath⟩
    · rintro ⟨hlink, path, hpath⟩
      obtain ⟨metric, hleast⟩ : ∃ metric, IsLeastMetric graph metrics node origin face metric := hpath.exists_least
      have hshort := h.short node name origin horigin ⟨face, path, hlink, hpath⟩
      exact ⟨⟨face, 0, metric⟩, (mem_nextHops hbounded horigin hshort _).mpr ⟨rfl, hlink, hleast⟩, rfl⟩
  · intro node name origin horigin hop hhop
    exact ((mem_nextHops hbounded horigin (short_of_mem hhop) hop).mp hhop).2.2
  · intro node nodeFace hface
    rw [calculateAllPossibleRoutes_metrics _ _ _ _ hface]
    exact Nat.mod_eq_of_lt (h.narrow node nodeFace hface)

omit [DecidableEq V] in
theorem suffices_of_routesRight {network : Network V} (h : RoutesRight graph metrics network)
    (hcut : ∀ node, ∀ nodeFace ∈ graph.getFaceTable node,
      network.metrics node nodeFace.face.id = metrics node nodeFace.face.id % 65536) : Suffices graph metrics := by
  constructor
  · intro node nodeFace hface
    rw [← h.recovered node nodeFace hface, hcut node nodeFace hface]
    exact Nat.mod_lt _ (by decide)
  · rintro node name origin horigin ⟨face, path, hlink, hpath⟩
    obtain ⟨hop, hhop, -⟩ := (h.nextHops node name origin horigin face).mpr ⟨hlink, path, hpath⟩
    exact short_of_mem hhop

/-- The routes are right if and only if the metrics have 16 bits and the prefixes that can be reached are not too long. -/
theorem allRoutes_right_iff (sortNextHops : Fib.SortNextHops) (graph : Graph V) (dijkstra : Dijkstra graph)
    (metrics : Metrics V) (hbounded : Bounded graph metrics) :
    RoutesRight graph metrics
        (calculateAllPossibleRoutes sortNextHops graph dijkstra ⟨metrics, fun _ => emptyFib⟩) ↔
      Suffices graph metrics := by
  constructor
  · intro hright
    apply suffices_of_routesRight hright
    intro node nodeFace hface
    exact calculateAllPossibleRoutes_metrics sortNextHops graph dijkstra _ hface
  · exact routesRight_of_suffices sortNextHops dijkstra hbounded

end Routes

section Example

def linkFace : Face := ⟨256, .scopeNonLocal, .pointToPoint⟩

def appFace : Face := ⟨257, .scopeLocal, .pointToPoint⟩

theorem nodup_ends : [false, true].Nodup := by decide

theorem mem_ends : ∀ node, node ∈ [false, true] := by decide

def linkGraph : Graph Bool where
  nodes := [false, true]
  nodup_nodes := nodup_ends
  mem_nodes := mem_ends
  getFaceTable _ := [⟨linkFace, true⟩, ⟨appFace, false⟩]
  nodup_faceIds _ := by decide
  m_incidencies node := [⟨node, linkFace, ! node⟩]
  incidency_node node edge hedge := by rw [List.mem_singleton.mp hedge]
  incidency_face node edge hedge := by
    rw [List.mem_singleton.mp hedge]
    exact ⟨⟨linkFace, true⟩, List.mem_cons_self, rfl⟩
  m_localPrefixes node := if node then [[⟨8, [112]⟩]] else []

def linkMetrics (appMetric : ℕ) : Metrics Bool := fun _ faceId => if faceId = linkFace.id then 1 else appMetric

theorem bounded_linkGraph (appMetric : ℕ) : Bounded linkGraph (linkMetrics appMetric) := by
  rintro node node' path ⟨hpath, hsimple⟩
  cases hpath with
  | nil => exact Nat.zero_lt_succ _
  | cons hfirst hrest =>
    rw [List.mem_singleton.mp hfirst] at hrest hsimple ⊢
    cases hrest with
    | nil => exact (by decide : 1 < 65534)
    | cons hsecond _ =>
      rw [List.mem_singleton.mp hsecond] at hsimple
      simp [IsSimple] at hsimple

def linkDistance (metrics : Metrics Bool) (source node : Bool) : Weight :=
  if node = source then weightZero
  else if metrics source linkFace.id % 65536 < 65535 then ⟨some linkFace, metrics source linkFace.id % 65536⟩
  else weightInf

theorem isDistance_linkDistance (metrics : Metrics Bool) (source node : Bool) :
    IsDistance linkGraph metrics source node (linkDistance metrics source node) := by
  unfold linkDistance
  by_cases hsame : node = source
  · rw [if_pos hsame, hsame]
    refine ⟨Or.inr ⟨by decide, [], ⟨IsPath.nil source, List.nodup_singleton source⟩, rfl⟩, ?_⟩
    intro path _
    exact decide_eq_false (Nat.not_lt_zero _)
  · rw [if_neg hsame]
    have hle : ∀ path, IsRoute linkGraph source node path →
        metrics source linkFace.id % 65536 ≤ pathCost (Incidency.metric16 metrics) path := by
      intro path hpath
      cases hpath with
      | nil => exact absurd rfl hsame
      | cons hfirst _ =>
        rw [List.mem_singleton.mp hfirst]
        rw [pathCost_cons]
        exact Nat.le_add_right _ _
    split
    · rename_i hnear
      have hroute : IsRoute linkGraph source node [⟨source, linkFace, ! source⟩] := by
        rw [Bool.eq_not_of_ne hsame]
        exact IsPath.cons (List.mem_singleton_self _) (IsPath.nil _)
      refine ⟨Or.inr ⟨decide_eq_true hnear, _, ⟨hroute, by simp [IsSimple]⟩, ?_⟩, ?_⟩
      · rw [pathWeight_cons]
        rfl
      · intro path hpath
        rw [weightCompare, decide_eq_false_iff_not, not_lt, pathWeight_metric]
        exact hle path hpath
    · rename_i hfar
      refine ⟨Or.inl rfl, ?_⟩
      intro path hpath
      rw [weightCompare, decide_eq_false_iff_not, not_lt, pathWeight_metric]
      exact (not_lt.mp hfar).trans (hle path hpath)

def linkDijkstra : Dijkstra linkGraph := ⟨linkDistance, isDistance_linkDistance⟩

theorem suffices_linkGraph : Suffices linkGraph (linkMetrics 0) := by
  constructor
  · intro node
    exact (by decide : ∀ nodeFace ∈ linkGraph.getFaceTable false, linkMetrics 0 false nodeFace.face.id < 65536)
  · rintro node name origin ⟨hmem, -, -⟩ -
    cases origin with
    | false => cases hmem
    | true =>
      rw [List.mem_singleton.mp hmem]
      decide

theorem allRoutes_right_iff_link : Bounded linkGraph (linkMetrics 0) ∧
    RoutesRight linkGraph (linkMetrics 0)
      (calculateAllPossibleRoutes Fib.stableSort linkGraph linkDijkstra ⟨linkMetrics 0, fun _ => emptyFib⟩) :=
  ⟨bounded_linkGraph 0, (allRoutes_right_iff Fib.stableSort linkGraph linkDijkstra (linkMetrics 0)
    (bounded_linkGraph 0)).mpr suffices_linkGraph⟩

/-- The metric of an application's face is lost. -/
theorem not_allRoutes_right : ¬ ∀ (sortNextHops : Fib.SortNextHops) (graph : Graph Bool) (dijkstra : Dijkstra graph)
    (metrics : Metrics Bool), Bounded graph metrics →
      RoutesRight graph metrics
        (calculateAllPossibleRoutes sortNextHops graph dijkstra ⟨metrics, fun _ => emptyFib⟩) := by
  intro h
  have hright := h Fib.stableSort linkGraph linkDijkstra (linkMetrics 65536) (bounded_linkGraph 65536)
  have hface : (⟨appFace, false⟩ : NodeFace) ∈ linkGraph.getFaceTable false := by decide
  have hrecovered := hright.recovered false _ hface
  rw [calculateAllPossibleRoutes_metrics _ _ _ _ hface] at hrecovered
  revert hrecovered
  decide

end Example

end LeoNdn.AllPossibleRoutes
