import LeoNdn.CsvFiles
import LeoNdn.InterSatelliteLinks
import LeoNdn.Loops
import LeoNdn.StationUpdate

/-!
The routes between a pair of stations, from the shortest paths of each epoch to
the links that are applied in the simulation.
-/

namespace LeoNdn.PairRoutes

open LeoNdn.InterSatelliteLinks LeoNdn.CsvFiles LeoNdn.Loops

section Definitions

variable (shortest_path : ℕ → String → String → List String)

/-- The loop of `pairRoutes` from an epoch on, with so many epochs left. -/
def pairRoutesFrom (sAtt dAtt : ℕ → String) : ℕ → ℕ → Option String → Option String → List String →
    List (ℕ × List String)
  | 0, _, _, _, _ => []
  | epochs + 1, t, lastS, lastD, lastPath =>
    let path := if some (sAtt t) ≠ lastS ∨ some (dAtt t) ≠ lastD then shortest_path t (sAtt t) (dAtt t) else lastPath
    (t, path) :: pairRoutesFrom sAtt dAtt epochs (t + 1) (some (sAtt t)) (some (dAtt t)) path

/-- The path of every epoch, between satellites. -/
def pairRoutes (period : ℕ) (sAtt dAtt : ℕ → String) : List (ℕ × List String) :=
  pairRoutesFrom shortest_path sAtt dAtt period 0 none none []

end Definitions

def Time : Text := ['T', 'i', 'm', 'e']

def Route : Text := ['R', 'o', 'u', 't', 'e']

def routeRow (item : ℕ × List String) : List Text :=
  [(toString item.1).toList, join '|' (item.2.map String.toList)]

/-- The file of routes that `storeGtPairs` writes for a pair. -/
def storeGtPairs (route : List (ℕ × List String)) : Text := writelines ([Time, Route] :: route.map routeRow)

def linksAt (pairRoutesCsv : Table) (row : ℕ) : Except Exception (List String) := do
  let route ← pairRoutesCsv.fieldAt Route row
  .ok ((split route ['|']).map String.ofList)

def rows (pairRoutesCsv : Table) : Except Exception ℕ :=
  match pairRoutesCsv.begin with
  | none => .error .emptyMap
  | some column => .ok column.2.length

/-- The loop that reads the routes of a pair from the table. -/
def readPairRoutes (pairRoutesCsv : Table) : Except Exception (List (ℤ × List String)) := do
  let rows ← rows pairRoutesCsv
  (List.range rows).mapM fun row => do
    let time ← pairRoutesCsv.fieldAt Time row
    let epoch ← stoi time
    let links ← linksAt pairRoutesCsv row
    .ok (epoch, links)

/-- What `shortest_path` returns between two nodes of the snapshots. -/
structure ShortestPaths (nodes : Set String) (shortest_path : ℕ → String → String → List String) : Prop where
  head : ∀ t, ∀ s ∈ nodes, ∀ d ∈ nodes, (shortest_path t s d).head? = some s
  last : ∀ t, ∀ s ∈ nodes, ∀ d ∈ nodes, (shortest_path t s d).getLast? = some d
  self : ∀ t, ∀ s ∈ nodes, shortest_path t s s = [s]
  nodes : ∀ t, ∀ s ∈ nodes, ∀ d ∈ nodes, ∀ node ∈ shortest_path t s d, node ∈ nodes

def satIds : Set String := {id | ∃ orbitNum satNum, id = getSatId orbitNum satNum}

section Routes

variable {shortest_path : ℕ → String → String → List String} {sAtt dAtt : ℕ → String}

theorem pairRoutesFrom_spec {epochs t : ℕ} {lastS lastD : Option String} {lastPath : List String}
    (hlast : ∀ s d, lastS = some s → lastD = some d → ∃ u, lastPath = shortest_path u s d) :
    (pairRoutesFrom shortest_path sAtt dAtt epochs t lastS lastD lastPath).length = epochs ∧
      ∀ n < epochs, ∃ u, (pairRoutesFrom shortest_path sAtt dAtt epochs t lastS lastD lastPath)[n]? =
        some (t + n, shortest_path u (sAtt (t + n)) (dAtt (t + n))) := by
  induction epochs generalizing t lastS lastD lastPath with
  | zero => exact ⟨rfl, fun n hn => absurd hn (Nat.not_lt_zero n)⟩
  | succ epochs ih =>
    obtain ⟨path, hpath, u, hu⟩ : ∃ path, path = (if some (sAtt t) ≠ lastS ∨ some (dAtt t) ≠ lastD then
        shortest_path t (sAtt t) (dAtt t) else lastPath) ∧ ∃ u, path = shortest_path u (sAtt t) (dAtt t) := by
      refine ⟨_, rfl, ?_⟩
      split
      · exact ⟨t, rfl⟩
      · rename_i hsame
        rw [not_or, not_not, not_not] at hsame
        exact hlast _ _ hsame.1.symm hsame.2.symm
    have hstep : pairRoutesFrom shortest_path sAtt dAtt (epochs + 1) t lastS lastD lastPath =
        (t, path) :: pairRoutesFrom shortest_path sAtt dAtt epochs (t + 1) (some (sAtt t)) (some (dAtt t)) path := by
      rw [hpath]
      rfl
    obtain ⟨hlength, hentries⟩ := @ih (t + 1) (some (sAtt t)) (some (dAtt t)) path (by
      intro s d hs hd
      cases hs
      cases hd
      exact ⟨u, hu⟩)
    rw [hstep]
    refine ⟨by rw [List.length_cons, hlength], ?_⟩
    intro n hn
    cases n with
    | zero => exact ⟨u, by rw [hu]; rfl⟩
    | succ n =>
      obtain ⟨u', hu'⟩ := hentries n (by omega)
      refine ⟨u', ?_⟩
      rw [List.getElem?_cons_succ, hu', show t + 1 + n = t + (n + 1) by omega]

theorem pairRoutes_spec (period : ℕ) :
    (pairRoutes shortest_path period sAtt dAtt).length = period ∧
      ∀ t < period, ∃ u, (pairRoutes shortest_path period sAtt dAtt)[t]? =
        some (t, shortest_path u (sAtt t) (dAtt t)) := by
  obtain ⟨hlength, hentries⟩ := @pairRoutesFrom_spec shortest_path sAtt dAtt period 0 none none []
    (fun s d hs => by cases hs)
  refine ⟨hlength, fun t ht => ?_⟩
  obtain ⟨u, hu⟩ := hentries t ht
  exact ⟨u, by rwa [Nat.zero_add] at hu⟩

theorem length_shortest_path {nodes : Set String} (h : ShortestPaths nodes shortest_path) {t : ℕ} {s d : String}
    (hs : s ∈ nodes) (hd : d ∈ nodes) : 1 < (shortest_path t s d).length ↔ s ≠ d := by
  constructor
  · rintro hlength rfl
    rw [h.self t s hs] at hlength
    exact absurd hlength (by simp)
  · intro hne
    have hhead := h.head t s hs d hd
    have hlast := h.last t s hs d hd
    rcases hpath : shortest_path t s d with _ | ⟨node, _ | ⟨node', path⟩⟩
    · rw [hpath] at hhead
      cases hhead
    · rw [hpath] at hhead hlast
      exact absurd ((Option.some.inj hhead).symm.trans (Option.some.inj hlast)) hne
    · simp

end Routes

section Files

theorem toList_toString (n : ℕ) : (toString n).toList = Nat.toDigits 10 n := Nat.toList_repr

theorem mem_digits {n : ℕ} {c : Char} (h : c ∈ (toString n).toList) : c.isDigit = true := by
  rw [toList_toString] at h
  exact Nat.isDigit_of_mem_toDigits (by omega) (by omega) h

theorem mem_getSatId {orbitNum satNum : ℕ} {c : Char} (h : c ∈ (getSatId orbitNum satNum).toList) :
    c ∈ ['s', 'a', 't', '-'] ∨ c.isDigit = true := by
  have hsat : "sat-".toList = ['s', 'a', 't', '-'] := rfl
  have hdash : "-".toList = ['-'] := rfl
  simp only [getSatId, String.toList_append, List.mem_append, hsat, hdash] at h
  rcases h with h | h | h | h
  · exact Or.inl h
  · exact Or.inr (mem_digits h)
  · exact Or.inl (by rw [List.mem_singleton.mp h]; decide)
  · exact Or.inr (mem_digits h)

theorem satId_plain {id : String} (h : id ∈ satIds) : '|' ∉ id.toList ∧ ',' ∉ id.toList ∧ '\n' ∉ id.toList := by
  obtain ⟨orbitNum, satNum, rfl⟩ := h
  refine ⟨?_, ?_, ?_⟩ <;>
    · intro hmem
      rcases mem_getSatId hmem with h | h <;> exact absurd h (by decide)

theorem satId_ne_nil {id : String} (h : id ∈ satIds) : id.toList ≠ [] := by
  obtain ⟨orbitNum, satNum, rfl⟩ := h
  simp [getSatId]

theorem join_ne_nil {separator : Char} {parts : List Text} (hne : parts ≠ []) (h : ∀ part ∈ parts, part ≠ []) :
    join separator parts ≠ [] := by
  rcases parts with _ | ⟨part, _ | ⟨part', parts⟩⟩
  · exact absurd rfl hne
  · exact h part List.mem_cons_self
  · simp [join]

theorem isRow_routeRow {item : ℕ × List String} (hne : item.2 ≠ []) (h : ∀ node ∈ item.2, node ∈ satIds) :
    IsRow 2 (routeRow item) where
  length := rfl
  plain := by
    intro field hfield
    rcases List.mem_pair.mp hfield with rfl | rfl
    · refine ⟨?_, ?_⟩ <;>
        · intro hmem
          exact absurd (mem_digits hmem) (by decide)
    · have hplain : ∀ c, c ∈ join '|' (item.2.map String.toList) → c = '|' ∨ ∃ node ∈ satIds, c ∈ node.toList := by
        intro c hc
        rcases mem_join hc with hsep | ⟨part, hpart, hmem⟩
        · exact Or.inl hsep
        · obtain ⟨node, hnode, rfl⟩ := List.mem_map.mp hpart
          exact Or.inr ⟨node, h node hnode, hmem⟩
      refine ⟨?_, ?_⟩
      · intro hmem
        rcases hplain _ hmem with hsep | ⟨node, hnode, hc⟩
        · exact absurd hsep (by decide)
        · exact (satId_plain hnode).2.1 hc
      · intro hmem
        rcases hplain _ hmem with hsep | ⟨node, hnode, hc⟩
        · exact absurd hsep (by decide)
        · exact (satId_plain hnode).2.2 hc
  last := by
    have hjoin : join '|' (item.2.map String.toList) ≠ [] := by
      refine join_ne_nil (by simpa using hne) fun part hpart => ?_
      obtain ⟨node, hnode, rfl⟩ := List.mem_map.mp hpart
      exact satId_ne_nil (h node hnode)
    exact fun hlast => hjoin (Option.some.inj hlast)

theorem readCsv_storeGtPairs {route : List (ℕ × List String)}
    (h : ∀ item ∈ route, item.2 ≠ [] ∧ ∀ node ∈ item.2, node ∈ satIds) :
    rows (readCsv (storeGtPairs route)) = .ok route.length ∧ ∀ row item, route[row]? = some item →
      (readCsv (storeGtPairs route)).fieldAt Time row = .ok (toString item.1).toList ∧
        linksAt (readCsv (storeGtPairs route)) row = .ok item.2 := by
  have hheader : IsRow [Time, Route].length [Time, Route] := ⟨rfl, by decide, by decide⟩
  have hrows : ∀ row ∈ route.map routeRow, IsRow [Time, Route].length row := by
    intro row hrow
    obtain ⟨item, hitem, rfl⟩ := List.mem_map.mp hrow
    exact isRow_routeRow (h item hitem).1 (h item hitem).2
  constructor
  · obtain ⟨column, hbegin, hlength⟩ := begin_writelines (by decide) (by decide) hheader hrows
    rw [rows, storeGtPairs, hbegin]
    exact congrArg Except.ok (hlength.trans (List.length_map routeRow))
  · intro row item hitem
    have hrow : (route.map routeRow)[row]? = some (routeRow item) := by
      rw [List.getElem?_map, hitem]
      rfl
    have htime := fieldAt_writelines (by decide) (by decide) hheader hrows (i := 0) (by decide) hrow
    have hroute := fieldAt_writelines (by decide) (by decide) hheader hrows (i := 1) (by decide) hrow
    have hitemOk := h item (List.mem_of_getElem? hitem)
    refine ⟨htime, ?_⟩
    rw [linksAt, storeGtPairs]
    refine (congrArg (fun links => links >>= _) hroute).trans ?_
    have hlinks : split (join '|' (item.2.map String.toList)) ['|'] = item.2.map String.toList := by
      apply split_join
      · intro part hpart
        obtain ⟨node, hnode, rfl⟩ := List.mem_map.mp hpart
        exact (satId_plain (hitemOk.2 node hnode)).1
      · simpa using hitemOk.1
    change Except.ok ((split (join '|' (item.2.map String.toList)) ['|']).map String.ofList) = _
    rw [hlinks, List.map_map]
    rw [show String.ofList ∘ String.toList = id from funext fun _ => String.ofList_toList, List.map_id]

end Files

section Links

variable {nodes : Set String} {shortest_path : ℕ → String → String → List String} {sAtt dAtt : ℕ → String} {period : ℕ}

theorem pairRoutes_plain (hnodes : nodes ⊆ satIds) (hpaths : ShortestPaths nodes shortest_path)
    (hs : ∀ t < period, sAtt t ∈ nodes) (hd : ∀ t < period, dAtt t ∈ nodes) :
    ∀ item ∈ pairRoutes shortest_path period sAtt dAtt, item.2 ≠ [] ∧ ∀ node ∈ item.2, node ∈ satIds := by
  intro item hitem
  obtain ⟨hlength, hentries⟩ := @pairRoutes_spec shortest_path sAtt dAtt period
  obtain ⟨t, hget⟩ := List.mem_iff_getElem?.mp hitem
  obtain ⟨ht, -⟩ := List.getElem?_eq_some_iff.mp hget
  rw [hlength] at ht
  obtain ⟨u, hu⟩ := hentries t ht
  obtain rfl := Option.some.inj (hget.symm.trans hu)
  refine ⟨fun hnil => ?_, fun node hnode => hnodes (hpaths.nodes u _ (hs t ht) _ (hd t ht) node hnode)⟩
  have hhead := hpaths.head u _ (hs t ht) _ (hd t ht)
  have hnil' : shortest_path u (sAtt t) (dAtt t) = [] := hnil
  rw [hnil'] at hhead
  cases hhead

/-- The routes that are read back have a link at every epoch if and only if the
stations never use the same satellite. -/
theorem links_size_iff (hnodes : nodes ⊆ satIds) (hpaths : ShortestPaths nodes shortest_path)
    (hs : ∀ t < period, sAtt t ∈ nodes) (hd : ∀ t < period, dAtt t ∈ nodes) :
    rows (readCsv (storeGtPairs (pairRoutes shortest_path period sAtt dAtt))) = .ok period ∧
      ((∀ row < period, ∃ links,
          linksAt (readCsv (storeGtPairs (pairRoutes shortest_path period sAtt dAtt))) row = .ok links ∧
            1 < links.length) ↔
        ∀ t < period, sAtt t ≠ dAtt t) := by
  obtain ⟨hlength, hentries⟩ := @pairRoutes_spec shortest_path sAtt dAtt period
  obtain ⟨hrows, hfields⟩ := readCsv_storeGtPairs (pairRoutes_plain hnodes hpaths hs hd)
  rw [hlength] at hrows
  refine ⟨hrows, ?_, ?_⟩
  · intro h t ht
    obtain ⟨u, hu⟩ := hentries t ht
    obtain ⟨links, hlinks, hlt⟩ := h t ht
    rw [(hfields t _ hu).2] at hlinks
    obtain rfl := Except.ok.inj hlinks
    exact (length_shortest_path hpaths (hs t ht) (hd t ht)).mp hlt
  · intro h t ht
    obtain ⟨u, hu⟩ := hentries t ht
    exact ⟨_, (hfields t _ hu).2, (length_shortest_path hpaths (hs t ht) (hd t ht)).mpr (h t ht)⟩

def directPath (_ : ℕ) (s d : String) : List String := if s = d then [s] else [s, d]

theorem directPath_shortest : ShortestPaths satIds directPath where
  head t s _ d _ := by
    unfold directPath
    split <;> rfl
  last t s _ d _ := by
    unfold directPath
    split
    · rename_i heq
      rw [heq]
      rfl
    · rfl
  self t s _ := if_pos rfl
  nodes t s hs d hd node hnode := by
    unfold directPath at hnode
    split at hnode
    · rwa [List.mem_singleton.mp hnode]
    · rcases List.mem_pair.mp hnode with rfl | rfl
      · exact hs
      · exact hd

theorem links_size_neighbours :
    rows (readCsv (storeGtPairs (pairRoutes directPath 2 (fun _ => getSatId 0 0) (fun _ => getSatId 0 1)))) = .ok 2 ∧
      ((∀ row < 2, ∃ links,
          linksAt (readCsv (storeGtPairs
            (pairRoutes directPath 2 (fun _ => getSatId 0 0) (fun _ => getSatId 0 1)))) row = .ok links ∧
            1 < links.length) ↔
        ∀ t < 2, getSatId 0 0 ≠ getSatId 0 1) :=
  links_size_iff (Set.Subset.refl satIds) directPath_shortest (fun _ _ => ⟨0, 0, rfl⟩) (fun _ _ => ⟨0, 1, rfl⟩)

/-- Two stations below one satellite: the route that is read back stops the simulation. -/
theorem same_satellite_asserts :
    ShortestPaths satIds directPath ∧
      linksAt (readCsv (storeGtPairs
        (pairRoutes directPath 1 (fun _ => getSatId 0 0) (fun _ => getSatId 0 0)))) 0 = .ok [getSatId 0 0] ∧
      ∀ prefixes w, StationUpdate.ApplyRoutes prefixes [getSatId 0 0] w = .error .assertion := by
  have hplain := @pairRoutes_plain satIds directPath (fun _ => getSatId 0 0) (fun _ => getSatId 0 0) 1
    (Set.Subset.refl satIds) directPath_shortest (fun _ _ => ⟨0, 0, rfl⟩) (fun _ _ => ⟨0, 0, rfl⟩)
  exact ⟨directPath_shortest, ((readCsv_storeGtPairs hplain).2 0 (0, [getSatId 0 0]) rfl).2, fun _ _ => rfl⟩

end Links

end LeoNdn.PairRoutes
