import LeoNdn.RibMap
import LeoNdn.FibFollowsRib

/-!
What the RIB keeps beside the routes, over whole runs of updates: the counters of
the routes that capture, and the entries of each face.
-/

namespace LeoNdn.RibRuns

open LeoNdn.NdnPacket LeoNdn.RibTable LeoNdn.FibUpdater LeoNdn.Inheritance LeoNdn.RibTree LeoNdn.RouteInheritance
open LeoNdn.FibSync LeoNdn.FibErasure LeoNdn.FibFollowsRib LeoNdn.RibMap LeoNdn.Runs

section States

variable {rib rib' : Rib}

theorem sameBy_symm {β : Type} {g : RibEntry → β} (h : SameBy g rib rib') : SameBy g rib' rib :=
  fun name => (h name).symm

theorem sameBy_modifyInheritedRoutes {β : Type} {g : RibEntry → β} (hg : ∀ (entry : RibEntry) routes,
    g { entry with m_inheritedRoutes := routes } = g entry) (inheritedRoutes : List RibUpdate) (rib : Rib) :
    SameBy g rib (modifyInheritedRoutes inheritedRoutes rib) := by
  induction inheritedRoutes generalizing rib with
  | nil => exact SameBy.refl rib
  | cons update inheritedRoutes ih =>
    refine SameBy.trans ?_ (ih _)
    dsimp only
    split
    · exact SameBy.modifyEntry (fun _ => by rfl) (fun entry => hg entry _) update.name
    · exact SameBy.modifyEntry (fun _ => by rfl) (fun entry => hg entry _) update.name
    · exact SameBy.refl rib

theorem sameBy_apply {β : Type} {g : RibEntry → β} (hlinks : IgnoresLinks g) (hg : ∀ (entry : RibEntry) routes,
    g { entry with m_inheritedRoutes := routes } = g entry) (rib : Rib) (update : RibUpdate × List RibUpdate) :
    SameBy g (FibUpdater.updateRib update.1 rib) (apply rib update) := by
  refine SameBy.trans ?_ (sameBy_modifyInheritedRoutes hg update.2 _)
  obtain ⟨⟨action, name, route⟩, inheritedRoutes⟩ := update
  cases action with
  | REGISTER => exact insert_sameBy hlinks rib name route
  | UNREGISTER => exact SameBy.refl _
  | REMOVE_FACE => exact SameBy.refl _

theorem routesOf_apply (rib : Rib) (update : RibUpdate × List RibUpdate) (name : Name) :
    (apply rib update).routesOf name = (FibUpdater.updateRib update.1 rib).routesOf name :=
  SameRoutes.routesOf (sameBy_apply routes_ignoreLinks (fun _ _ => rfl) rib update) name

theorem uniqueKeys_apply (h : UniqueKeys rib) (update : RibUpdate × List RibUpdate) : UniqueKeys (apply rib update) := by
  intro name
  rw [routesOf_apply]
  unfold FibUpdater.updateRib
  split
  · exact h.insert update.1.name update.1.route name
  · exact h.erase update.1.name update.1.route name

theorem counted_iff_of_sameBy (h : SameBy counts rib rib') : Counted rib' ↔ Counted rib :=
  ⟨fun hcounted => counted_congr hcounted (sameBy_symm h), fun hcounted => counted_congr hcounted h⟩

theorem counted_apply (rib : Rib) (update : RibUpdate × List RibUpdate) :
    Counted (apply rib update) ↔ Counted (FibUpdater.updateRib update.1 rib) :=
  counted_iff_of_sameBy (sameBy_apply counts_ignoreLinks (fun _ _ => rfl) rib update)

end States

section Captures

variable {rib : Rib} {routes : List Route} {route existing : Route}

structure CapturesRight (rib : Rib) : Prop where
  counter : ∀ entry ∈ rib.m_rib, entry.m_nRoutesWithCaptureSet = entry.m_routes.countP Route.isRibCapture
  hasCapture : ∀ entry ∈ rib.m_rib, entry.hasCapture = true ↔ ∃ route ∈ entry.m_routes, route.isRibCapture = true

theorem capturesRight_iff_counted (h : Tree rib) : CapturesRight rib ↔ Counted rib := by
  constructor
  · exact fun hright name entry hfind => hright.counter entry ((find_eq_some h.nodup).mp hfind).1
  · intro hcounted
    have hcounter : ∀ entry ∈ rib.m_rib, entry.m_nRoutesWithCaptureSet = entry.m_routes.countP Route.isRibCapture :=
      fun entry hentry => hcounted entry.m_name entry ((find_eq_some h.nodup).mpr ⟨hentry, rfl⟩)
    refine ⟨hcounter, fun entry hentry => ?_⟩
    rw [RibEntry.hasCapture, decide_eq_true_eq, hcounter entry hentry, List.countP_pos_iff]

/-- A route that is registered again keeps the flag. -/
def KeepsCapture (rib : Rib) (update : RibUpdate × List RibUpdate) : Prop :=
  update.1.action = .REGISTER → ∀ existing, rib.findRoute update.1.name update.1.route = some existing →
    existing.isRibCapture = update.1.route.isRibCapture

theorem countP_replace (p : Route → Bool) (h : UniqueRoutes routes) (hfind : routeOfKey route routes = some existing) :
    (routes.map (fun r => if compareFaceIdAndOrigin r route then route else r)).countP p + (if p existing then 1 else 0) =
      routes.countP p + (if p route then 1 else 0) := by
  induction routes with
  | nil => cases hfind
  | cons first routes ih =>
    obtain ⟨hfirst, hrest⟩ := List.pairwise_cons.mp h
    rw [routeOfKey_cons] at hfind
    rw [List.map_cons, List.countP_cons, List.countP_cons]
    by_cases hcompare : compareFaceIdAndOrigin first route = true
    · rw [if_pos hcompare, Option.some_inj] at hfind
      have hkept : routes.map (fun r => if compareFaceIdAndOrigin r route then route else r) = routes := by
        refine (List.map_congr_left fun r hr => if_neg fun hr' => ?_).trans (List.map_id _)
        have hne := hfirst r hr
        rw [compare_trans hcompare (compare_symm hr')] at hne
        cases hne
      rw [if_pos hcompare, hkept, hfind]
      omega
    · rw [if_neg hcompare] at hfind
      have hsum := ih hrest hfind
      rw [if_neg hcompare]
      omega

theorem counted_insert_iff (hcounted : Counted rib) (hunique : UniqueKeys rib) (name : Name) (route : Route) :
    Counted (rib.insert name route) ↔
      ∀ existing, rib.findRoute name route = some existing → existing.isRibCapture = route.isRibCapture := by
  constructor
  · intro hnext existing hexisting
    obtain ⟨entry, hfind, hroute⟩ := Option.bind_eq_some_iff.mp hexisting
    have hassigned : (rib.insert name route).find name = some (entry.assignRoute route) := by
      rw [Rib.insert, hfind]
      dsimp only
      rw [hroute, Option.isNone_some, if_neg Bool.false_ne_true,
        find_modifyEntry (f := fun entry => entry.assignRoute route) fun _ h => h, if_pos rfl, hfind]
      rfl
    have hnow := hnext name _ hassigned
    have hthen := hcounted name entry hfind
    have hroutes : UniqueRoutes entry.m_routes := routesOf_some hfind ▸ hunique name
    have hsum := countP_replace Route.isRibCapture hroutes hroute
    change entry.m_nRoutesWithCaptureSet = (entry.m_routes.map
      (fun r => if compareFaceIdAndOrigin r route then route else r)).countP Route.isRibCapture at hnow
    rw [← hnow, ← hthen] at hsum
    cases hold : existing.isRibCapture <;> cases hnew : route.isRibCapture <;> simp [hold, hnew] at hsum ⊢
  · intro hcapture
    refine counted_insert hcounted fun entry existing hfind hroute => ⟨routesOf_some hfind ▸ hunique name, ?_⟩
    refine (hcapture existing ?_).symm
    rw [Rib.findRoute, hfind, Option.bind_some, hroute]

theorem counted_apply_iff (hcounted : Counted rib) (hunique : UniqueKeys rib) (update : RibUpdate × List RibUpdate) :
    Counted (apply rib update) ↔ KeepsCapture rib update := by
  rw [counted_apply]
  obtain ⟨⟨action, name, route⟩, inheritedRoutes⟩ := update
  cases action with
  | REGISTER => exact (counted_insert_iff hcounted hunique name route).trans ⟨fun h _ => h, fun h => h rfl⟩
  | UNREGISTER => exact iff_of_true (counted_erase hcounted name route) nofun
  | REMOVE_FACE => exact iff_of_true (counted_erase hcounted name route) nofun

/-- The counters are right in every state of a run if and only if no route that is
registered again changes its capture flag. -/
theorem capturesRight_iff (updates : List (RibUpdate × List RibUpdate)) :
    (∀ n, CapturesRight (afterUpdates (updates.take n))) ↔ EachStep apply KeepsCapture emptyRib updates := by
  have hright : ∀ n, CapturesRight (afterUpdates (updates.take n)) ↔ Counted (afterUpdates (updates.take n)) :=
    fun n => capturesRight_iff_counted (afterUpdates_kept (updates.take n) tree_emptyRib rfl).1
  have hempty : Counted emptyRib := fun _ _ hfind => by cases hfind
  rw [forall_congr' hright]
  have hkept : ∀ rib update, Counted rib ∧ UniqueKeys rib → True → Counted (apply rib update) →
      Counted (apply rib update) ∧ UniqueKeys (apply rib update) :=
    fun rib update hinv _ hnext => ⟨hnext, uniqueKeys_apply hinv.2 update⟩
  have hstep : ∀ rib update, Counted rib ∧ UniqueKeys rib → True → (Counted (apply rib update) ↔ KeepsCapture rib update) :=
    fun rib update hinv _ => counted_apply_iff hinv.1 hinv.2 update
  refine (eachStep_iff_take hempty updates).symm.trans ?_
  exact eachStep_iff hkept hstep ⟨hempty, fun _ => List.Pairwise.nil⟩ (eachStep_true emptyRib updates)

/-- A route that captures is registered, and again without the flag. -/
def captureUpdates : List (RibUpdate × List RibUpdate) :=
  [(⟨.REGISTER, nameA, routeOf 1 0 0 ROUTE_FLAG_CAPTURE⟩, []), (⟨.REGISTER, nameA, routeOf 1 0 0 0⟩, [])]

theorem capture_outlasts_its_flag : ¬ CapturesRight (afterUpdates captureUpdates) := by
  intro h
  have hcounter := h.counter ⟨nameA, [], none, [routeOf 1 0 0 0], [], 1⟩ (by decide)
  revert hcounter
  decide

end Captures

section Faces

variable {rib : Rib} {routes : List Route} {route : Route} {name : Name} {face : ℕ}

def HasFace (rib : Rib) (name : Name) (face : ℕ) : Prop := ∃ route ∈ rib.routesOf name, route.faceId = face

def Listed (rib : Rib) : Prop := ∀ face name, name ∈ rib.m_faceMap face ↔ HasFace rib name face

def ListedOnce (rib : Rib) : Prop := ∀ face, (rib.m_faceMap face).Nodup

/-- A registration of a route that is not there is the first of its face in the entry. -/
def FirstOfFace (rib : Rib) (update : RibUpdate × List RibUpdate) : Prop :=
  update.1.action = .REGISTER → rib.findRoute update.1.name update.1.route = none →
    ∀ route ∈ rib.routesOf update.1.name, route.faceId ≠ update.1.route.faceId

theorem faces_insertInto (route : Route) (routes : List Route) (face : ℕ) :
    (∃ r ∈ insertInto route routes, r.faceId = face) ↔ (∃ r ∈ routes, r.faceId = face) ∨ route.faceId = face := by
  unfold insertInto
  split
  · rename_i hsome
    obtain ⟨existing, hexisting⟩ := Option.isSome_iff_exists.mp hsome
    have hcompare := List.find?_some hexisting
    have hkey : existing.faceId = route.faceId := (compare_iff.mp hcompare).1
    have hface : ∀ r : Route, (if compareFaceIdAndOrigin r route then route else r).faceId = r.faceId := by
      intro r
      split
      · rename_i hcompare
        exact (compare_iff.mp hcompare).1.symm
      · rfl
    simp only [List.mem_map, exists_exists_and_eq_and, hface]
    refine ⟨Or.inl, fun h => h.elim id fun heq => ?_⟩
    exact ⟨existing, List.mem_of_find?_eq_some hexisting, hkey.trans heq⟩
  · simp only [List.mem_append, List.mem_singleton, or_and_right, exists_or, exists_eq_left]

theorem faces_eraseP (route : Route) (routes : List Route) {face : ℕ} (hface : face ≠ route.faceId) :
    (∃ r ∈ routes.eraseP (fun r => compareFaceIdAndOrigin r route), r.faceId = face) ↔ ∃ r ∈ routes, r.faceId = face := by
  constructor
  · rintro ⟨r, hr, hrface⟩
    exact ⟨r, List.mem_of_mem_eraseP hr, hrface⟩
  · rintro ⟨r, hr, rfl⟩
    refine ⟨r, (List.mem_eraseP_of_neg fun hcompare => ?_).mpr hr, rfl⟩
    exact hface (compare_iff.mp hcompare).1

theorem listed_congr {rib' : Rib} (hroutes : ∀ name, rib'.routesOf name = rib.routesOf name)
    (hfaces : rib'.m_faceMap = rib.m_faceMap) : (Listed rib' ↔ Listed rib) ∧ (ListedOnce rib' ↔ ListedOnce rib) := by
  unfold Listed ListedOnce HasFace
  simp only [hroutes, hfaces, and_self]

theorem routesOf_mapInsert (rib : Rib) (name : Name) (route : Route) (other : Name) :
    (insert rib name route).routesOf other =
      if other = name then insertInto route (rib.routesOf name) else rib.routesOf other := by
  rw [SameRoutes.routesOf (insert_sameBy routes_ignoreLinks rib name route), routesOf_insert]

theorem hasFace_insert (rib : Rib) (name : Name) (route : Route) (other : Name) (face : ℕ) :
    HasFace (insert rib name route) other face ↔ HasFace rib other face ∨ other = name ∧ route.faceId = face := by
  rw [HasFace, routesOf_mapInsert]
  by_cases hother : other = name
  · rw [if_pos hother, faces_insertInto, hother, and_iff_right rfl, HasFace]
  · rw [if_neg hother, HasFace]
    simp only [hother, false_and, or_false]

theorem hasFace_of_findRoute {existing : Route} (h : rib.findRoute name route = some existing) :
    HasFace rib name route.faceId := by
  rw [findRoute_eq] at h
  have hcompare := List.find?_some h
  exact ⟨existing, List.mem_of_find?_eq_some h, (compare_iff.mp hcompare).1⟩

theorem mem_update_append (faceMap : ℕ → List Name) (own face : ℕ) (name other : Name) :
    other ∈ Function.update faceMap own (faceMap own ++ [name]) face ↔ other ∈ faceMap face ∨ other = name ∧ own = face := by
  by_cases hface : face = own
  · rw [hface, Function.update_self, List.mem_append, List.mem_singleton, and_iff_left rfl]
  · rw [Function.update_of_ne hface]
    simp only [Ne.symm hface, and_false, or_false]

theorem listed_insert (h : Listed rib) (name : Name) (route : Route) : Listed (insert rib name route) := by
  intro face other
  rw [hasFace_insert, faceMap_insert]
  split
  · rw [mem_update_append, h face other]
  · rename_i hsome
    rw [Option.isNone_iff_eq_none] at hsome
    obtain ⟨existing, hexisting⟩ := Option.ne_none_iff_exists'.mp hsome
    rw [h face other]
    refine ⟨Or.inl, fun hface => hface.elim id ?_⟩
    rintro ⟨rfl, rfl⟩
    exact hasFace_of_findRoute hexisting

theorem listedOnce_insert (h : Listed rib) (honce : ListedOnce rib) (name : Name) (route : Route) :
    ListedOnce (insert rib name route) ↔ (rib.findRoute name route = none → ¬ HasFace rib name route.faceId) := by
  unfold ListedOnce
  rw [faceMap_insert]
  cases hroute : rib.findRoute name route with
  | some existing => exact iff_of_true honce nofun
  | none =>
    rw [Option.isNone_none, if_pos rfl, ← h route.faceId name]
    constructor
    · intro hnext _ hmem
      have hface := hnext route.faceId
      rw [Function.update_self, List.nodup_append] at hface
      exact hface.2.2 name hmem name List.mem_cons_self rfl
    · intro hnew face
      by_cases hface : face = route.faceId
      · rw [hface, Function.update_self]
        refine List.nodup_append.mpr ⟨honce route.faceId, List.nodup_singleton name, ?_⟩
        rintro a ha b hb rfl
        exact hnew rfl (List.mem_singleton.mp hb ▸ ha)
      · rw [Function.update_of_ne hface]
        exact honce face

theorem listed_erase (h : Listed rib) (name : Name) (route : Route) : Listed (rib.erase name route) := by
  intro face other
  rw [HasFace, routesOf_erase, faceMap_erase]
  by_cases hface : face = route.faceId
  · subst hface
    split
    · rename_i hkept
      rw [h route.faceId other, HasFace]
      split
      · rename_i hother
        rw [hother]
        rcases hkept with hnone | hleft
        · rw [Option.isNone_iff_eq_none, findRoute_eq, List.find?_eq_none] at hnone
          rw [List.eraseP_of_forall_not hnone]
        · refine iff_of_true ?_ hleft
          obtain ⟨r, hr, hrface⟩ := hleft
          exact ⟨r, List.mem_of_mem_eraseP hr, hrface⟩
      · rfl
    · rename_i hgone
      rw [Function.update_self, List.mem_filter, decide_eq_true_eq, h route.faceId other]
      split
      · rename_i hother
        exact iff_of_false (fun hmem => hmem.2 hother) fun hleft => hgone (Or.inr hleft)
      · rename_i hother
        exact and_iff_left hother
  · have hmap : (if (rib.findRoute name route).isNone = true ∨ ∃ r ∈ (rib.routesOf name).eraseP
        (fun r => compareFaceIdAndOrigin r route), r.faceId = route.faceId then rib.m_faceMap
        else Function.update rib.m_faceMap route.faceId ((rib.m_faceMap route.faceId).filter (fun other => other ≠ name)))
        face = rib.m_faceMap face := by
      split
      · rfl
      · exact Function.update_of_ne hface _ _
    rw [hmap, h face other, HasFace]
    split
    · rename_i hother
      rw [hother, faces_eraseP route (rib.routesOf name) hface]
    · rfl

theorem listedOnce_erase (honce : ListedOnce rib) (name : Name) (route : Route) : ListedOnce (rib.erase name route) := by
  intro face
  rw [faceMap_erase]
  split
  · exact honce face
  · by_cases hface : face = route.faceId
    · rw [hface, Function.update_self]
      exact (honce route.faceId).filter _
    · rw [Function.update_of_ne hface]
      exact honce face

end Faces

section Removals

variable {rib : Rib} {name : Name} {face : ℕ} {γ : Type}

def removalOf (nameAndRoute : Name × Route) : RibUpdate := ⟨.REMOVE_FACE, nameAndRoute.1, nameAndRoute.2⟩

def removals (rib : Rib) (face : ℕ) : List RibUpdate := (rib.findRoutesWithFaceId face).map removalOf

theorem findRoutesWithFaceId_eq (rib : Rib) (face : ℕ) : rib.findRoutesWithFaceId face =
    (rib.m_faceMap face).flatMap (fun name =>
      ((rib.routesOf name).filter (fun route => route.faceId = face)).map (fun route => (name, route))) := by
  unfold Rib.findRoutesWithFaceId Rib.routesOf
  congr 1
  funext name
  cases rib.find name <;> rfl

theorem mem_removals (h : Listed rib) {update : RibUpdate} : update ∈ removals rib face ↔
    update.action = .REMOVE_FACE ∧ update.route ∈ rib.routesOf update.name ∧ update.route.faceId = face := by
  obtain ⟨action, name, route⟩ := update
  simp only [removals, findRoutesWithFaceId_eq, List.mem_map, List.mem_flatMap, List.mem_filter, decide_eq_true_eq]
  constructor
  · rintro ⟨-, ⟨other, -, r, hr, rfl⟩, heq⟩
    cases heq
    exact ⟨rfl, hr⟩
  · rintro ⟨rfl, hroute, hface⟩
    exact ⟨(name, route), ⟨name, (h face name).mpr ⟨route, hroute, hface⟩, route, ⟨hroute, hface⟩, rfl⟩, rfl⟩

theorem nodup_of_uniqueRoutes {routes : List Route} (h : UniqueRoutes routes) : routes.Nodup := by
  refine h.imp ?_
  rintro a b hab rfl
  rw [compare_self] at hab
  cases hab

theorem nodup_removals (honce : ListedOnce rib) (hunique : UniqueKeys rib) : (removals rib face).Nodup := by
  have hinjective : Function.Injective removalOf := by
    rintro ⟨name, route⟩ ⟨name', route'⟩ heq
    cases heq
    rfl
  refine List.Nodup.map hinjective ?_
  rw [findRoutesWithFaceId_eq, List.nodup_flatMap]
  refine ⟨fun name _ => ?_, (honce face).imp fun hne => ?_⟩
  · exact ((nodup_of_uniqueRoutes (hunique name)).filter _).map (Prod.mk_right_injective name)
  · rw [Function.onFun, List.disjoint_left]
    rintro _ hfirst hsecond
    obtain ⟨r, -, rfl⟩ := List.mem_map.mp hfirst
    obtain ⟨r', -, heq⟩ := List.mem_map.mp hsecond
    exact hne (congrArg Prod.fst heq).symm

def RegistersNone (face : ℕ) (updates : List (RibUpdate × List RibUpdate)) : Prop :=
  ∀ update ∈ updates, update.1.action = .REGISTER → update.1.route.faceId ≠ face

theorem mem_insertInto {routes : List Route} {route r : Route} (h : r ∈ insertInto route routes) : r = route ∨ r ∈ routes := by
  unfold insertInto at h
  split at h
  · obtain ⟨old, hold, rfl⟩ := List.mem_map.mp h
    split
    · exact Or.inl rfl
    · exact Or.inr hold
  · rcases List.mem_append.mp h with hold | hnew
    · exact Or.inr hold
    · exact Or.inl (List.mem_singleton.mp hnew)

theorem not_compare_of_mem_eraseP {routes : List Route} (h : UniqueRoutes routes) {route r : Route}
    (hr : r ∈ routes.eraseP (fun r => compareFaceIdAndOrigin r route)) : ¬ compareFaceIdAndOrigin r route = true := by
  have hnone := routeOfKey_eraseP h route route
  rw [compare_self, if_pos rfl, routeOfKey_eq_none] at hnone
  exact hnone r hr

theorem left_of_face (hunique : UniqueKeys rib) {updates : List (RibUpdate × List RibUpdate)}
    (hnone : RegistersNone face updates) {r : Route} (hr : r ∈ (updates.foldl apply rib).routesOf name)
    (hface : r.faceId = face) : r ∈ rib.routesOf name ∧ ∀ update ∈ updates, update.1.action ≠ .REGISTER →
      update.1.name = name → ¬ compareFaceIdAndOrigin r update.1.route = true := by
  induction updates generalizing rib with
  | nil => exact ⟨hr, fun _ hmem => absurd hmem List.not_mem_nil⟩
  | cons update updates ih =>
    obtain ⟨hnow, hrest⟩ := ih (uniqueKeys_apply hunique update)
      (fun other hother => hnone other (List.mem_cons_of_mem _ hother)) hr
    have hfirst := hnone update List.mem_cons_self
    rw [routesOf_apply] at hnow
    obtain ⟨⟨action, updated, route⟩, inheritedRoutes⟩ := update
    have herased : action ≠ .REGISTER → r ∈ (rib.erase updated route).routesOf name →
        r ∈ rib.routesOf name ∧ (updated = name → ¬ compareFaceIdAndOrigin r route = true) := by
      intro _ hmem
      rw [routesOf_erase] at hmem
      split at hmem
      · rename_i hname
        rw [hname]
        exact ⟨List.mem_of_mem_eraseP hmem, fun _ => not_compare_of_mem_eraseP (hunique updated) hmem⟩
      · rename_i hname
        exact ⟨hmem, fun heq => absurd heq.symm hname⟩
    cases action with
    | REGISTER =>
      change r ∈ (rib.insert updated route).routesOf name at hnow
      refine ⟨?_, List.forall_mem_cons.mpr ⟨fun hne => absurd rfl hne, hrest⟩⟩
      rw [routesOf_insert] at hnow
      split at hnow
      · rename_i hname
        rw [hname]
        exact (mem_insertInto hnow).resolve_left fun heq => hfirst rfl (heq ▸ hface)
      · exact hnow
    | UNREGISTER =>
      obtain ⟨hold, hleft⟩ := herased nofun hnow
      exact ⟨hold, List.forall_mem_cons.mpr ⟨fun _ => hleft, hrest⟩⟩
    | REMOVE_FACE =>
      obtain ⟨hold, hleft⟩ := herased nofun hnow
      exact ⟨hold, List.forall_mem_cons.mpr ⟨fun _ => hleft, hrest⟩⟩

theorem none_left (h : Listed rib) (hunique : UniqueKeys rib) {updates : List (RibUpdate × List RibUpdate)}
    (hremovals : ∀ removal ∈ removals rib face, removal ∈ updates.map Prod.fst) (hnone : RegistersNone face updates)
    (name : Name) : ¬ HasFace (updates.foldl apply rib) name face := by
  rintro ⟨r, hr, hface⟩
  obtain ⟨hold, hleft⟩ := left_of_face hunique hnone hr hface
  have hremoval : ⟨.REMOVE_FACE, name, r⟩ ∈ removals rib face := (mem_removals h).mpr ⟨rfl, hold, hface⟩
  obtain ⟨update, hupdate, heq⟩ := List.mem_map.mp (hremovals _ hremoval)
  refine hleft update hupdate ?_ ?_ ?_
  · rw [heq]
    exact nofun
  · rw [heq]
  · rw [heq]
    exact compare_self r

/-- The face map lists the entries of each face once, a removal is queued for each route
of a face, once, and the removals leave none of it, whatever else is applied between them. -/
structure FacesRight (rib : Rib) : Prop where
  listed : ∀ face name, name ∈ rib.m_faceMap face ↔ ∃ route ∈ rib.routesOf name, route.faceId = face
  once : ∀ face, (rib.m_faceMap face).Nodup
  queued : ∀ face update, update ∈ removals rib face ↔
    update.action = .REMOVE_FACE ∧ update.route ∈ rib.routesOf update.name ∧ update.route.faceId = face
  queuedOnce : ∀ face, (removals rib face).Nodup
  noneLeft : ∀ face updates, (∀ removal ∈ removals rib face, removal ∈ updates.map Prod.fst) →
    RegistersNone face updates → ∀ name, ¬ ∃ route ∈ (updates.foldl apply rib).routesOf name, route.faceId = face

theorem facesRight_iff (hlisted : Listed rib) (hunique : UniqueKeys rib) : FacesRight rib ↔ ListedOnce rib := by
  constructor
  · exact fun h => h.once
  · intro honce
    exact ⟨hlisted, honce, fun _ _ => mem_removals hlisted, fun _ => nodup_removals honce hunique,
      fun _ _ hremovals hnone name => none_left hlisted hunique hremovals hnone name⟩

end Removals

section FaceRuns

variable {rib : Rib}

theorem faces_apply (hlisted : Listed rib) (honce : ListedOnce rib) (update : RibUpdate × List RibUpdate) :
    Listed (apply rib update) ∧ (ListedOnce (apply rib update) ↔ FirstOfFace rib update) := by
  have hsame : SameRoutes (RibMap.updateRib update.1 rib) (modifyInheritedRoutes update.2 (RibMap.updateRib update.1 rib)) :=
    sameBy_modifyInheritedRoutes (fun _ _ => rfl) update.2 _
  have hfaces := (SameItems.modifyInheritedRoutes update.2 (RibMap.updateRib update.1 rib)).faces
  obtain ⟨hlistedIff, honceIff⟩ := listed_congr (SameRoutes.routesOf hsame) hfaces
  rw [apply, hlistedIff, honceIff]
  obtain ⟨⟨action, name, route⟩, inheritedRoutes⟩ := update
  cases action with
  | REGISTER =>
    refine ⟨listed_insert hlisted name route, (listedOnce_insert hlisted honce name route).trans ?_⟩
    unfold FirstOfFace HasFace
    simp only [not_exists, not_and, forall_const]
  | UNREGISTER => exact ⟨listed_erase hlisted name route, iff_of_true (listedOnce_erase honce name route) nofun⟩
  | REMOVE_FACE => exact ⟨listed_erase hlisted name route, iff_of_true (listedOnce_erase honce name route) nofun⟩

/-- The face map is right in every state of a run if and only if no entry gets a second
route of a face, under another origin. -/
theorem facesRight_always_iff (updates : List (RibUpdate × List RibUpdate)) :
    (∀ n, FacesRight (afterUpdates (updates.take n))) ↔ EachStep apply FirstOfFace emptyRib updates := by
  have hright : ∀ rib update, Listed rib ∧ UniqueKeys rib ∧ ListedOnce rib →
      (FacesRight (apply rib update) ↔ ListedOnce (apply rib update)) :=
    fun rib update ⟨hlisted, hunique, honce⟩ =>
      facesRight_iff (faces_apply hlisted honce update).1 (uniqueKeys_apply hunique update)
  have hkept : ∀ rib update, Listed rib ∧ UniqueKeys rib ∧ ListedOnce rib → True → FacesRight (apply rib update) →
      Listed (apply rib update) ∧ UniqueKeys (apply rib update) ∧ ListedOnce (apply rib update) :=
    fun rib update hinv _ hnext => ⟨(faces_apply hinv.1 hinv.2.2 update).1, uniqueKeys_apply hinv.2.1 update,
      (hright rib update hinv).mp hnext⟩
  have hstep : ∀ rib update, Listed rib ∧ UniqueKeys rib ∧ ListedOnce rib → True →
      (FacesRight (apply rib update) ↔ FirstOfFace rib update) :=
    fun rib update hinv _ => (hright rib update hinv).trans (faces_apply hinv.1 hinv.2.2 update).2
  have hempty : Listed emptyRib ∧ UniqueKeys emptyRib ∧ ListedOnce emptyRib := by
    refine ⟨fun face name => ?_, fun _ => List.Pairwise.nil, fun _ => List.nodup_nil⟩
    exact iff_of_false List.not_mem_nil (by rintro ⟨route, hroute, -⟩; cases hroute)
  have hfirst : FacesRight emptyRib := (facesRight_iff hempty.1 hempty.2.1).mpr hempty.2.2
  refine (eachStep_iff_take hfirst updates).symm.trans ?_
  exact eachStep_iff hkept hstep hempty (eachStep_true emptyRib updates)

def twoOrigins : List (RibUpdate × List RibUpdate) :=
  [(⟨.REGISTER, nameA, routeOf 1 0 0 0⟩, []), (⟨.REGISTER, nameA, routeOf 1 255 0 0⟩, [])]

theorem two_origins_list_the_entry_twice : ¬ FacesRight (afterUpdates twoOrigins) := by
  intro h
  have honce := h.once 1
  have htwice : (afterUpdates twoOrigins).m_faceMap 1 = [nameA, nameA] := by decide
  rw [htwice] at honce
  revert honce
  decide

example : (removals (afterUpdates twoOrigins) 1).length = 4 := by decide

end FaceRuns

end LeoNdn.RibRuns
