import LeoNdn.PairRoutes
import Mathlib.Algebra.BigOperators.Group.List.Basic
import Mathlib.Data.List.Range

/-!
The crossings of the paths of a pair of stations at the handovers of its
consumer, and the epochs at which its routes change.
-/

namespace LeoNdn.PathCrossings

open LeoNdn.InterSatelliteLinks LeoNdn.PairRoutes

structure CrossStats where
  hops : ℕ
  hopsLast : ℕ
  length : ℕ
  hopsBetween : ℕ
  curSat : String
  lastSat : String
  deriving DecidableEq, Repr

/-- The loop over the nodes of the current path. -/
def crossesAt (node : String) : ℕ → List String → Option ℕ
  | _, [] => none
  | j, other :: path => if other = node then some j else crossesAt node (j + 1) path

/-- The loop over the nodes of the last path. -/
def crossing (path : List String) : ℕ → List String → Option (ℕ × ℕ)
  | _, [] => none
  | i, node :: lastPath =>
    match crossesAt node 0 path with
    | some j => some (i, j)
    | none => crossing path (i + 1) lastPath

def crossStats (path lastPath hopsPath : List String) (thisS lastS : String) : CrossStats :=
  match crossing path 0 lastPath with
  | some (i, j) => ⟨j, i, path.length, hopsPath.length - 1, thisS, lastS⟩
  | none => ⟨path.length, lastPath.length, path.length, hopsPath.length - 1, thisS, lastS⟩

structure Result where
  stats : List (ℕ × CrossStats)
  routes : List (ℕ × List String)

section Definitions

variable (shortest_path : ℕ → String → String → List String) (sAtt dAtt : ℕ → String)

/-- The loop of `pairCrossStats` from an epoch on, with so many epochs left. -/
def pairCrossStatsFrom : ℕ → ℕ → Option String → Option String → List String → Result
  | 0, _, _, _, _ => ⟨[], []⟩
  | epochs + 1, t, lastS, lastD, lastPath =>
    let path := if some (sAtt t) ≠ lastS ∨ some (dAtt t) ≠ lastD then shortest_path t (sAtt t) (dAtt t) else lastPath
    let rest := pairCrossStatsFrom epochs (t + 1) (some (sAtt t)) (some (dAtt t)) path
    ⟨(match lastS with
      | none => []
      | some lastS =>
        if lastS ≠ sAtt t then
          [(t, crossStats path lastPath (shortest_path t (sAtt t) lastS) (sAtt t) lastS)]
        else []) ++ rest.stats,
      (if some (sAtt t) ≠ lastS ∨ some (dAtt t) ≠ lastD then [(t, path)] else []) ++ rest.routes⟩

def pairCrossStats (period : ℕ) : Result := pairCrossStatsFrom shortest_path sAtt dAtt period 0 none none []

end Definitions

section Crossing

variable {node : String} {path lastPath : List String} {i j : ℕ}

theorem crossesAt_eq (node : String) (j : ℕ) (path : List String) :
    crossesAt node j path = (path.findIdx? (fun other => other = node)).map (· + j) := by
  induction path generalizing j with
  | nil => rfl
  | cons other path ih =>
    rw [crossesAt, List.findIdx?_cons, ih]
    by_cases h : other = node
    · simp [h]
    · simp only [h, if_false, decide_false, Bool.false_eq_true, Option.map_map]
      apply congrArg (Option.map · _)
      funext k
      simp only [Function.comp_apply]
      omega

theorem crossesAt_some : crossesAt node 0 path = some j ↔
    path[j]? = some node ∧ ∀ k < j, path[k]? ≠ some node := by
  have hzero : (fun k : ℕ => k + 0) = id := rfl
  rw [crossesAt_eq, hzero, Option.map_id, id, List.findIdx?_eq_some_iff_getElem]
  constructor
  · rintro ⟨hlt, hnode, hbefore⟩
    refine ⟨?_, fun k hk hother => ?_⟩
    · rw [List.getElem?_eq_getElem hlt]
      simpa using hnode
    · obtain ⟨hklt, heq⟩ := List.getElem?_eq_some_iff.mp hother
      exact hbefore k hk (by simpa using heq)
  · rintro ⟨hnode, hbefore⟩
    obtain ⟨hlt, heq⟩ := List.getElem?_eq_some_iff.mp hnode
    refine ⟨hlt, by simpa using heq, fun k hk hother => hbefore k hk ?_⟩
    rw [List.getElem?_eq_getElem (hk.trans hlt)]
    simpa using hother

theorem crossesAt_none : crossesAt node 0 path = none ↔ node ∉ path := by
  rw [crossesAt_eq, Option.map_eq_none_iff, List.findIdx?_eq_none_iff]
  constructor
  · intro h hmem
    simpa using h node hmem
  · intro h other hother
    rw [decide_eq_false_iff_not]
    rintro rfl
    exact h hother

/-- The first node of the last path that is on the current path, and its first
place there. -/
structure CrossesFirst (lastPath path : List String) (i j : ℕ) : Prop where
  crosses : ∃ node, lastPath[i]? = some node ∧ path[j]? = some node ∧ ∀ k < j, path[k]? ≠ some node
  first : ∀ k < i, ∀ node, lastPath[k]? = some node → node ∉ path

theorem crossing_spec (path : List String) (base : ℕ) (lastPath : List String) :
    (∀ i j, crossing path base lastPath = some (i, j) → base ≤ i ∧ CrossesFirst lastPath path (i - base) j) ∧
      (crossing path base lastPath = none → ∀ node ∈ lastPath, node ∉ path) := by
  induction lastPath generalizing base with
  | nil => exact ⟨fun i j h => (by cases h), fun _ node hnode => (by cases hnode)⟩
  | cons first lastPath ih =>
    rw [crossing]
    cases hcross : crossesAt first 0 path with
    | some place =>
      refine ⟨?_, fun h => by cases h⟩
      rintro i j ⟨⟩
      refine ⟨le_refl base, ⟨first, ?_, crossesAt_some.mp hcross⟩, ?_⟩
      · rw [Nat.sub_self]
        rfl
      · intro k hk
        omega
    | none =>
      have hfirst := crossesAt_none.mp hcross
      obtain ⟨hsome, hnone⟩ := ih (base + 1)
      constructor
      · intro i j h
        obtain ⟨hle, hcrosses, hbefore⟩ := hsome i j h
        have hi : i - base = i - (base + 1) + 1 := by omega
        refine ⟨by omega, ?_, ?_⟩
        · rw [hi]
          exact hcrosses
        · intro k hk node hnode
          cases k with
          | zero =>
            cases hnode
            exact hfirst
          | succ k => exact hbefore k (by omega) node hnode
      · intro h node hnode
        rcases List.mem_cons.mp hnode with rfl | hmem
        · exact hfirst
        · exact hnone h node hmem

end Crossing

section Loops

variable {shortest_path : ℕ → String → String → List String} {sAtt dAtt : ℕ → String}

def before (att : ℕ → String) : ℕ → Option String
  | 0 => none
  | t + 1 => some (att t)

def Changed (sAtt dAtt : ℕ → String) (t : ℕ) : Prop :=
  some (sAtt t) ≠ before sAtt t ∨ some (dAtt t) ≠ before dAtt t

instance (t : ℕ) : Decidable (Changed sAtt dAtt t) :=
  inferInstanceAs (Decidable (some (sAtt t) ≠ before sAtt t ∨ some (dAtt t) ≠ before dAtt t))

def pathAt (shortest_path : ℕ → String → String → List String) (sAtt dAtt : ℕ → String) : ℕ → List String
  | 0 => shortest_path 0 (sAtt 0) (dAtt 0)
  | t + 1 =>
    if Changed sAtt dAtt (t + 1) then shortest_path (t + 1) (sAtt (t + 1)) (dAtt (t + 1))
    else pathAt shortest_path sAtt dAtt t

def pathBefore (shortest_path : ℕ → String → String → List String) (sAtt dAtt : ℕ → String) : ℕ → List String
  | 0 => []
  | t + 1 => pathAt shortest_path sAtt dAtt t

theorem changed_zero : Changed sAtt dAtt 0 := Or.inl (Option.some_ne_none _)

theorem pathAt_eq (t : ℕ) : (if Changed sAtt dAtt t then shortest_path t (sAtt t) (dAtt t)
    else pathBefore shortest_path sAtt dAtt t) = pathAt shortest_path sAtt dAtt t := by
  cases t with
  | zero => rw [if_pos changed_zero, pathAt]
  | succ t => rw [pathAt, pathBefore]

theorem pairRoutesFrom_eq (epochs t : ℕ) :
    pairRoutesFrom shortest_path sAtt dAtt epochs t (before sAtt t) (before dAtt t)
        (pathBefore shortest_path sAtt dAtt t) =
      (List.range' t epochs).map (fun u => (u, pathAt shortest_path sAtt dAtt u)) := by
  induction epochs generalizing t with
  | zero => rfl
  | succ epochs ih =>
    have hstep : pairRoutesFrom shortest_path sAtt dAtt (epochs + 1) t (before sAtt t) (before dAtt t)
        (pathBefore shortest_path sAtt dAtt t) = (t, pathAt shortest_path sAtt dAtt t) ::
          pairRoutesFrom shortest_path sAtt dAtt epochs (t + 1) (before sAtt (t + 1)) (before dAtt (t + 1))
            (pathBefore shortest_path sAtt dAtt (t + 1)) := by
      rw [pathBefore, ← pathAt_eq t]
      rfl
    rw [hstep, ih, List.range'_succ, List.map_cons]

def statsAt (shortest_path : ℕ → String → String → List String) (sAtt dAtt : ℕ → String) (t : ℕ) :
    List (ℕ × CrossStats) :=
  match before sAtt t with
  | none => []
  | some lastS =>
    if lastS ≠ sAtt t then
      [(t, crossStats (pathAt shortest_path sAtt dAtt t) (pathBefore shortest_path sAtt dAtt t)
        (shortest_path t (sAtt t) lastS) (sAtt t) lastS)]
    else []

def routesAt (shortest_path : ℕ → String → String → List String) (sAtt dAtt : ℕ → String) (t : ℕ) :
    List (ℕ × List String) :=
  if Changed sAtt dAtt t then [(t, pathAt shortest_path sAtt dAtt t)] else []

theorem pairCrossStatsFrom_eq (epochs t : ℕ) :
    pairCrossStatsFrom shortest_path sAtt dAtt epochs t (before sAtt t) (before dAtt t)
        (pathBefore shortest_path sAtt dAtt t) =
      ⟨(List.range' t epochs).flatMap (statsAt shortest_path sAtt dAtt),
        (List.range' t epochs).flatMap (routesAt shortest_path sAtt dAtt)⟩ := by
  induction epochs generalizing t with
  | zero => rfl
  | succ epochs ih =>
    have hstep : pairCrossStatsFrom shortest_path sAtt dAtt (epochs + 1) t (before sAtt t) (before dAtt t)
        (pathBefore shortest_path sAtt dAtt t) =
          ⟨statsAt shortest_path sAtt dAtt t ++ (pairCrossStatsFrom shortest_path sAtt dAtt epochs (t + 1)
              (before sAtt (t + 1)) (before dAtt (t + 1)) (pathBefore shortest_path sAtt dAtt (t + 1))).stats,
            routesAt shortest_path sAtt dAtt t ++ (pairCrossStatsFrom shortest_path sAtt dAtt epochs (t + 1)
              (before sAtt (t + 1)) (before dAtt (t + 1)) (pathBefore shortest_path sAtt dAtt (t + 1))).routes⟩ := by
      unfold statsAt routesAt
      rw [pathBefore, ← pathAt_eq t]
      rfl
    rw [hstep, ih, List.range'_succ, List.flatMap_cons, List.flatMap_cons]

theorem pairRoutes_eq (period : ℕ) : pairRoutes shortest_path period sAtt dAtt =
    (List.range period).map (fun t => (t, pathAt shortest_path sAtt dAtt t)) := by
  rw [List.range_eq_range']
  exact pairRoutesFrom_eq period 0

theorem pairCrossStats_eq (period : ℕ) : pairCrossStats shortest_path sAtt dAtt period =
    ⟨(List.range period).flatMap (statsAt shortest_path sAtt dAtt),
      (List.range period).flatMap (routesAt shortest_path sAtt dAtt)⟩ := by
  rw [List.range_eq_range']
  exact pairCrossStatsFrom_eq period 0

end Loops

section Paths

variable {ω : Type} [AddMonoid ω] [LE ω] (G : InterSatelliteLinks.Graph String ω)

def weight (u v : String) : ω := ((G.edges.find? (fun e => e.1 = (u, v) ∨ e.1 = (v, u))).map Prod.snd).getD 0

def pathWeight (path : List String) : ω := ((path.zip path.tail).map (fun link => weight G link.1 link.2)).sum

structure IsPath (s d : String) (path : List String) : Prop where
  head : path.head? = some s
  last : path.getLast? = some d
  links : path.IsChain G.Adj

structure IsShortestPath (s d : String) (path : List String) : Prop extends IsPath G s d path where
  shortest : ∀ other, IsPath G s d other → pathWeight G path ≤ pathWeight G other

end Paths

section Claims

variable {shortest_path : ℕ → String → String → List String} {sAtt dAtt : ℕ → String} {t period : ℕ}

/-- The last epoch up to this one at which an attachment of the pair changed. -/
structure IsLastChange (sAtt dAtt : ℕ → String) (t u : ℕ) : Prop where
  le : u ≤ t
  changed : Changed sAtt dAtt u
  last : ∀ v, u < v → v ≤ t → ¬ Changed sAtt dAtt v

theorem not_changed (h : ¬ Changed sAtt dAtt (t + 1)) : sAtt t = sAtt (t + 1) ∧ dAtt t = dAtt (t + 1) := by
  rw [Changed, not_or, not_not, not_not] at h
  exact ⟨Option.some_inj.mp h.1.symm, Option.some_inj.mp h.2.symm⟩

theorem pathAt_spec (shortest_path : ℕ → String → String → List String) (sAtt dAtt : ℕ → String) (t : ℕ) :
    ∃ u, IsLastChange sAtt dAtt t u ∧ sAtt u = sAtt t ∧ dAtt u = dAtt t ∧
      pathAt shortest_path sAtt dAtt t = shortest_path u (sAtt u) (dAtt u) := by
  induction t with
  | zero => exact ⟨0, ⟨le_refl 0, changed_zero, fun v hv hle => by omega⟩, rfl, rfl, rfl⟩
  | succ t ih =>
    by_cases hchanged : Changed sAtt dAtt (t + 1)
    · refine ⟨t + 1, ⟨le_refl _, hchanged, fun v hv hle => by omega⟩, rfl, rfl, ?_⟩
      rw [pathAt, if_pos hchanged]
    · obtain ⟨u, ⟨hle, hu, hlast⟩, hs, hd, hpath⟩ := ih
      obtain ⟨hs', hd'⟩ := not_changed hchanged
      refine ⟨u, ⟨Nat.le_succ_of_le hle, hu, ?_⟩, hs.trans hs', hd.trans hd', ?_⟩
      · intro v hv hvle
        rcases Nat.le_succ_iff.mp hvle with hvt | rfl
        · exact hlast v hv hvt
        · exact hchanged
      · rw [pathAt, if_neg hchanged, hpath]

theorem mem_pairRoutes {path : List String} : (t, path) ∈ pairRoutes shortest_path period sAtt dAtt ↔
    t < period ∧ path = pathAt shortest_path sAtt dAtt t := by
  rw [pairRoutes_eq, List.mem_map]
  constructor
  · rintro ⟨u, hu, heq⟩
    cases heq
    exact ⟨List.mem_range.mp hu, rfl⟩
  · rintro ⟨ht, rfl⟩
    exact ⟨t, List.mem_range.mpr ht, rfl⟩

theorem mem_routes {path : List String} : (t, path) ∈ (pairCrossStats shortest_path sAtt dAtt period).routes ↔
    Changed sAtt dAtt t ∧ (t, path) ∈ pairRoutes shortest_path period sAtt dAtt := by
  rw [pairCrossStats_eq, mem_pairRoutes, List.mem_flatMap]
  constructor
  · rintro ⟨u, hu, hmem⟩
    unfold routesAt at hmem
    split at hmem
    · rename_i hchanged
      cases List.mem_singleton.mp hmem
      exact ⟨hchanged, List.mem_range.mp hu, rfl⟩
    · cases hmem
  · rintro ⟨hchanged, ht, rfl⟩
    refine ⟨t, List.mem_range.mpr ht, ?_⟩
    rw [routesAt, if_pos hchanged]
    exact List.mem_singleton_self _

def IsHandover (sAtt : ℕ → String) (t : ℕ) : Bool := t ≠ 0 ∧ sAtt t ≠ sAtt (t - 1)

theorem statsAt_spec (t : ℕ) :
    (statsAt shortest_path sAtt dAtt t).map Prod.fst = if IsHandover sAtt t then [t] else [] := by
  unfold statsAt IsHandover
  cases t with
  | zero => rfl
  | succ t =>
    simp only [before, Nat.add_sub_cancel]
    by_cases h : sAtt t = sAtt (t + 1)
    · simp [h]
    · simp [h, Ne.symm h]

def Crosses (lastPath path : List String) (stats : CrossStats) : Prop :=
  CrossesFirst lastPath path stats.hopsLast stats.hops ∨
    (∀ node ∈ lastPath, node ∉ path) ∧ stats.hopsLast = lastPath.length ∧ stats.hops = path.length

theorem crossStats_crosses (path lastPath hopsPath : List String) (thisS lastS : String) :
    Crosses lastPath path (crossStats path lastPath hopsPath thisS lastS) := by
  obtain ⟨hsome, hnone⟩ := crossing_spec path 0 lastPath
  unfold crossStats
  cases hcrossing : crossing path 0 lastPath with
  | none => exact Or.inr ⟨hnone hcrossing, rfl, rfl⟩
  | some place => exact Or.inl (hsome place.1 place.2 hcrossing).2

theorem mem_statsAt {u : ℕ} {stats : CrossStats} (h : (t, stats) ∈ statsAt shortest_path sAtt dAtt u) : t = u ∧
    ∃ v, t = v + 1 ∧ Crosses (pathAt shortest_path sAtt dAtt v) (pathAt shortest_path sAtt dAtt t) stats := by
  unfold statsAt at h
  cases u with
  | zero => cases h
  | succ v =>
    rw [before] at h
    dsimp only at h
    split at h
    · cases List.mem_singleton.mp h
      exact ⟨rfl, v, rfl, crossStats_crosses _ _ _ _ _⟩
    · cases h

theorem stats_epochs (period : ℕ) : (pairCrossStats shortest_path sAtt dAtt period).stats.map Prod.fst =
    (List.range period).filter (IsHandover sAtt) := by
  rw [pairCrossStats_eq]
  dsimp only
  induction period with
  | zero => rfl
  | succ period ih =>
    rw [List.range_succ, List.flatMap_append, List.map_append, ih, List.filter_append, List.flatMap_singleton,
      statsAt_spec, List.filter_singleton]
    cases IsHandover sAtt period <;> rfl

theorem stats_cross {stats : CrossStats} (h : (t, stats) ∈ (pairCrossStats shortest_path sAtt dAtt period).stats) :
    ∃ lastPath path, (t - 1, lastPath) ∈ pairRoutes shortest_path period sAtt dAtt ∧
      (t, path) ∈ pairRoutes shortest_path period sAtt dAtt ∧ Crosses lastPath path stats := by
  rw [pairCrossStats_eq] at h
  obtain ⟨u, hu, hmem⟩ := List.mem_flatMap.mp h
  rw [List.mem_range] at hu
  obtain ⟨rfl, v, rfl, hcrosses⟩ := mem_statsAt hmem
  exact ⟨_, _, mem_pairRoutes.mpr ⟨by omega, rfl⟩, mem_pairRoutes.mpr ⟨hu, rfl⟩, hcrosses⟩

/-- What `pairRoutes` and `pairCrossStats` find, given that `shortest_path` finds
the shortest paths between the satellites of the snapshots. -/
theorem pairRoutes_pairCrossStats {ω : Type} [AddMonoid ω] [LE ω] (nodes : Set String)
    (snapshots : ℕ → InterSatelliteLinks.Graph String ω)
    (shortest_path : InterSatelliteLinks.Graph String ω → String → String → List String)
    (sAtt dAtt : ℕ → String) (period : ℕ)
    (hlinks : ∀ t < period, ∀ u < period, ∀ x y, (snapshots t).Adj x y ↔ (snapshots u).Adj x y)
    (hshortest : ∀ t < period, ∀ s ∈ nodes, ∀ d ∈ nodes,
      IsShortestPath (snapshots t) s d (shortest_path (snapshots t) s d))
    (hs : ∀ t < period, sAtt t ∈ nodes) (hd : ∀ t < period, dAtt t ∈ nodes) :
    let routes := pairRoutes (fun t => shortest_path (snapshots t)) period sAtt dAtt
    let result := pairCrossStats (fun t => shortest_path (snapshots t)) sAtt dAtt period
    routes.map Prod.fst = List.range period ∧
    (∀ t path, (t, path) ∈ routes → (∀ u < period, IsPath (snapshots u) (sAtt t) (dAtt t) path) ∧
      ∃ u, IsLastChange sAtt dAtt t u ∧ IsShortestPath (snapshots u) (sAtt t) (dAtt t) path) ∧
    (∀ t path, (t, path) ∈ result.routes ↔ Changed sAtt dAtt t ∧ (t, path) ∈ routes) ∧
    result.stats.map Prod.fst = (List.range period).filter (IsHandover sAtt) ∧
    ∀ t stats, (t, stats) ∈ result.stats → ∃ lastPath path,
      (t - 1, lastPath) ∈ routes ∧ (t, path) ∈ routes ∧ Crosses lastPath path stats := by
  intro routes result
  refine ⟨?_, ?_, fun t path => mem_routes, stats_epochs period, fun t stats => stats_cross⟩
  · change (pairRoutes _ period sAtt dAtt).map Prod.fst = _
    rw [pairRoutes_eq, List.map_map]
    exact List.map_id _
  · intro t path hpath
    obtain ⟨ht, rfl⟩ := mem_pairRoutes.mp hpath
    obtain ⟨u, hlast, hsu, hdu, heq⟩ := pathAt_spec (fun t => shortest_path (snapshots t)) sAtt dAtt t
    have hu : u < period := lt_of_le_of_lt hlast.le ht
    have hfound := hshortest u hu (sAtt t) (hs t ht) (dAtt t) (hd t ht)
    rw [hsu, hdu] at heq
    rw [heq]
    refine ⟨fun v hv => ⟨hfound.head, hfound.last, ?_⟩, u, hlast, hfound⟩
    apply hfound.links.imp
    intro x y hadj
    exact (hlinks u hu v hv x y).mp hadj

end Claims

section Example

def twoSats (t : ℕ) : InterSatelliteLinks.Graph String ℕ := ⟨[(("sat-0-0", "sat-0-1"), t + 1)]⟩

def twoSatNodes : Set String := {"sat-0-0", "sat-0-1"}

def movingConsumer (t : ℕ) : String := if t % 2 = 0 then "sat-0-0" else "sat-0-1"

theorem twoSats_shortest (t : ℕ) {s d : String} (hs : s ∈ twoSatNodes) (hd : d ∈ twoSatNodes) :
    IsShortestPath (twoSats t) s d (if s = d then [s] else [s, d]) := by
  have hweight : ∀ other, IsPath (twoSats t) s d other → s ≠ d → t + 1 ≤ pathWeight (twoSats t) other := by
    intro other hother hne
    rcases other with _ | ⟨first, _ | ⟨second, rest⟩⟩
    · cases hother.head
    · cases hother.head
      cases hother.last
      exact absurd rfl hne
    · have hadj : (twoSats t).Adj first second := (List.isChain_cons_cons.mp hother.links).1
      have hlink : weight (twoSats t) first second = t + 1 := by
        obtain ⟨e, he, hends⟩ := hadj
        rw [twoSats, List.mem_singleton] at he
        subst he
        simp only [weight, twoSats, List.find?_cons, hends, decide_true, Option.map_some, Option.getD_some]
      have hsum : pathWeight (twoSats t) (first :: second :: rest) =
          weight (twoSats t) first second + pathWeight (twoSats t) (second :: rest) := by
        rw [pathWeight, List.tail_cons, List.zip_cons_cons, List.map_cons, List.sum_cons]
        rfl
      rw [hsum, hlink]
      exact Nat.le_add_right _ _
  have hends : ∀ {s d : String}, s ∈ twoSatNodes → d ∈ twoSatNodes → s ≠ d →
      (twoSats t).Adj s d ∧ pathWeight (twoSats t) [s, d] = t + 1 := by
    rintro s d (rfl | rfl) (rfl | rfl) hne
    · exact absurd rfl hne
    · exact ⟨⟨_, List.mem_singleton_self _, Or.inl rfl⟩, rfl⟩
    · exact ⟨⟨_, List.mem_singleton_self _, Or.inr rfl⟩, rfl⟩
    · exact absurd rfl hne
  split
  · rename_i heq
    subst heq
    exact ⟨⟨rfl, rfl, List.isChain_singleton s⟩, fun other _ => Nat.zero_le _⟩
  · rename_i hne
    obtain ⟨hadj, hvalue⟩ := hends hs hd hne
    refine ⟨⟨rfl, rfl, List.isChain_pair.mpr hadj⟩, fun other hother => ?_⟩
    rw [hvalue]
    exact hweight other hother hne

/-- The consumer comes to the satellite of the producer, which was the second of
its last path. -/
theorem pairRoutes_pairCrossStats_twoSats : ∃ stats,
    (1, stats) ∈ (pairCrossStats (fun _ s d => if s = d then [s] else [s, d]) movingConsumer (fun _ => "sat-0-1") 2).stats ∧
      Crosses ["sat-0-0", "sat-0-1"] ["sat-0-1"] stats := by
  have hnodes : ∀ t, movingConsumer t ∈ twoSatNodes := by
    intro t
    unfold movingConsumer
    split
    · exact Or.inl rfl
    · exact Or.inr rfl
  have hlinks : ∀ t < 2, ∀ u < 2, ∀ x y, (twoSats t).Adj x y ↔ (twoSats u).Adj x y := by
    intro t _ u _ x y
    simp [InterSatelliteLinks.Graph.Adj, twoSats]
  obtain ⟨-, -, -, -, hstats⟩ := pairRoutes_pairCrossStats twoSatNodes twoSats
    (fun _ s d => if s = d then [s] else [s, d]) movingConsumer (fun _ => "sat-0-1") 2 hlinks
    (fun t _ s hs d hd => twoSats_shortest t hs hd) (fun t _ => hnodes t) (fun _ _ => Or.inr rfl)
  have hmem : (1, (⟨0, 1, 1, 1, "sat-0-1", "sat-0-0"⟩ : CrossStats)) ∈
      (pairCrossStats (fun _ s d => if s = d then [s] else [s, d]) movingConsumer (fun _ => "sat-0-1") 2).stats := by
    decide
  obtain ⟨lastPath, path, hlast, hpath, hcrosses⟩ := hstats 1 _ hmem
  have hlastPath : lastPath = ["sat-0-0", "sat-0-1"] := (mem_pairRoutes.mp hlast).2
  have hthisPath : path = ["sat-0-1"] := (mem_pairRoutes.mp hpath).2
  rw [hlastPath, hthisPath] at hcrosses
  exact ⟨_, hmem, hcrosses⟩

end Example

end LeoNdn.PathCrossings
