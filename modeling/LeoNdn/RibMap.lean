import LeoNdn.PrefixScans
import LeoNdn.DelegationLists
import LeoNdn.RibTree
import Mathlib.Algebra.BigOperators.Group.List.Basic
import Mathlib.Algebra.Ring.Nat

/-!
The RIB as a map in the order of the names: the entries below a new one are
found by a scan of the map, and the links and the counter of the routes stay right.
-/

namespace LeoNdn.RibMap

open LeoNdn.NdnPacket LeoNdn.RibTable LeoNdn.FibUpdater LeoNdn.Inheritance LeoNdn.RibTree
open LeoNdn.InterestSelectors LeoNdn.SortedLists
open LeoNdn.ContentStoreTable (compareNames)
open LeoNdn.DelegationLists (compareNames_eq)

section Map

def isBefore (lhs rhs : RibEntry) : Bool := compareNames lhs.m_name rhs.m_name = .lt

def inOrder (rib : Rib) : List RibEntry := sort isBefore rib.m_rib

/-- The scan of the map from the entry of the name on. -/
def findDescendants (rib : Rib) (namePrefix : Name) : List RibEntry :=
  if (rib.find namePrefix).isSome then PrefixScans.scan RibEntry.m_name namePrefix (inOrder rib) else []

/-- `Rib::insert`, where the entries below a new one come in the order of the map. -/
def insert (rib : Rib) (namePrefix : Name) (route : Route) : Rib :=
  if (rib.find namePrefix).isSome then rib.insert namePrefix route
  else
    let (parent, rib) := attached rib namePrefix route
    let rib := Rib.adoptChildren namePrefix parent (findDescendants rib namePrefix) rib
    { rib with m_faceMap := Function.update rib.m_faceMap route.faceId (rib.m_faceMap route.faceId ++ [namePrefix]) }

def updateRib (update : RibUpdate) (rib : Rib) : Rib :=
  match update.action with
  | .REGISTER => insert rib update.name update.route
  | _ => rib.erase update.name update.route

/-- What `onFibUpdateSuccess` does to the RIB: an update and the inherited routes that were computed for it. -/
def apply (rib : Rib) (update : RibUpdate × List RibUpdate) : Rib :=
  modifyInheritedRoutes update.2 (updateRib update.1 rib)

def emptyRib : Rib := ⟨[], 0, fun _ => []⟩

def afterUpdates (updates : List (RibUpdate × List RibUpdate)) : Rib := updates.foldl apply emptyRib

end Map

section Scan

open Std

variable {rib : Rib} {namePrefix : Name}

instance lawfulEqCmp_compareComponents : LawfulEqCmp compareComponents where
  eq_of_compare {a b} h := by
    rw [compareComponents_eq, compareLex_eq_eq, compareLex_eq_eq] at h
    obtain ⟨htype, -, hvalue⟩ := h
    have hvalues : LawfulEqCmp (compareOn UInt8.toNat) :=
      { eq_of_compare := fun hxy => UInt8.toNat_inj.mp (Nat.compare_eq_eq.mp hxy) }
    have hlists : LawfulEqCmp (List.compareLex (compareOn UInt8.toNat)) := inferInstance
    have htypes : a.type = b.type := Nat.compare_eq_eq.mp htype
    have hequal : a.value = b.value := hlists.eq_of_compare hvalue
    cases a
    cases b
    exact congrArg₂ _ htypes hequal

theorem isBefore_iff {lhs rhs : RibEntry} :
    isBefore lhs rhs = true ↔ List.compareLex compareComponents lhs.m_name rhs.m_name = .lt := by
  rw [isBefore, decide_eq_true_eq, compareNames_eq]

theorem strictOrder_isBefore : StrictOrder isBefore where
  irrefl a := by
    have hself : List.compareLex compareComponents a.m_name a.m_name = .eq := ReflCmp.compare_self
    rw [Bool.eq_false_iff, Ne, isBefore_iff, hself]
    rintro ⟨⟩
  trans {a b c} hab hbc := by
    rw [isBefore_iff] at hab hbc ⊢
    exact TransCmp.lt_trans hab hbc

theorem inOrder_ascending (hnodup : (names rib).Nodup) :
    (inOrder rib).Pairwise (fun a b => List.compareLex compareComponents a.m_name b.m_name = .lt) := by
  have hsorted : Sorted isBefore (inOrder rib) := sort_sorted strictOrder_isBefore rib.m_rib
  have hdistinct : (inOrder rib).Pairwise (fun a b => a.m_name ≠ b.m_name) := by
    have hnames : ((inOrder rib).map RibEntry.m_name).Nodup := ((sort_perm rib.m_rib).map RibEntry.m_name).nodup_iff.mpr hnodup
    exact List.pairwise_map.mp hnames
  refine (hsorted.and hdistinct).imp ?_
  rintro a b ⟨hnot, hne⟩
  cases hcmp : List.compareLex compareComponents a.m_name b.m_name with
  | lt => rfl
  | eq => exact absurd (LawfulEqCmp.eq_of_compare hcmp) hne
  | gt =>
    rw [isBefore_iff.mpr (OrientedCmp.lt_of_gt hcmp)] at hnot
    cases hnot

theorem findDescendants_perm (hnodup : (names rib).Nodup) (namePrefix : Name) :
    (findDescendants rib namePrefix).Perm (rib.findDescendants namePrefix) := by
  unfold findDescendants Rib.findDescendants
  cases hfind : rib.find namePrefix with
  | none => exact List.Perm.refl _
  | some entry =>
    have hmem : ∃ entry ∈ inOrder rib, entry.m_name = namePrefix :=
      ⟨entry, (sort_perm rib.m_rib).mem_iff.mpr (List.mem_of_find?_eq_some hfind), find_name hfind⟩
    rw [Option.isSome_some, if_pos rfl, if_pos rfl, PrefixScans.scan_eq_filter (inOrder_ascending hnodup) hmem]
    exact (sort_perm rib.m_rib).filter _

end Scan

section Links

variable {rib : Rib}

theorem tree_insert (h : Tree rib) (namePrefix : Name) (route : Route) : Tree (insert rib namePrefix route) := by
  unfold insert
  cases hfind : rib.find namePrefix with
  | some entry => exact h.insert namePrefix route
  | none =>
    have hattached := h.attached hfind route
    have hnodup := hattached.nodup h hfind
    have hperm := findDescendants_perm hnodup namePrefix
    have hmem : ∀ entry, entry ∈ findDescendants (attached rib namePrefix route).2 namePrefix ↔
        (attached rib namePrefix route).2.find entry.m_name = some entry ∧ Under namePrefix entry.m_name := by
      intro entry
      rw [hperm.mem_iff]
      exact mem_findDescendants hnodup ((hattached.mem namePrefix).mpr (Or.inr rfl))
    have hdistinct := (hperm.map RibEntry.m_name).nodup_iff.mpr (nodup_findDescendants hnodup namePrefix)
    have hadopted := h.adopt hfind hattached hmem hdistinct
    exact ⟨hadopted.nodup, ⟨hadopted.linked.nodup, hadopted.linked.children⟩, hadopted.parent⟩

theorem tree_apply (h : Tree rib) (update : RibUpdate × List RibUpdate) : Tree (apply rib update) := by
  refine Tree.modifyInheritedRoutes ?_ update.2
  unfold updateRib
  split
  · exact tree_insert h update.1.name update.1.route
  · exact h.erase update.1.name update.1.route

end Links

section Items

variable {rib rib' rib'' : Rib} {name : Name} {f : RibEntry → RibEntry}

def routeCount (rib : Rib) : ℕ := (rib.m_rib.map (fun entry => entry.m_routes.length)).sum

def nameAndCount (entry : RibEntry) : Name × ℕ := (entry.m_name, entry.m_routes.length)

structure SameItems (rib rib' : Rib) : Prop where
  items : rib'.m_nItems = rib.m_nItems
  routes : rib'.m_rib.map nameAndCount = rib.m_rib.map nameAndCount
  faces : rib'.m_faceMap = rib.m_faceMap

theorem SameItems.refl (rib : Rib) : SameItems rib rib := ⟨rfl, rfl, rfl⟩

theorem SameItems.trans (h : SameItems rib rib') (h' : SameItems rib' rib'') : SameItems rib rib'' :=
  ⟨h'.items.trans h.items, h'.routes.trans h.routes, h'.faces.trans h.faces⟩

theorem SameItems.modifyEntry (hf : ∀ entry, nameAndCount (f entry) = nameAndCount entry) (name : Name) :
    SameItems rib (rib.modifyEntry name f) := by
  refine ⟨rfl, ?_, rfl⟩
  rw [Rib.modifyEntry, List.map_map]
  refine List.map_congr_left fun entry _ => ?_
  simp only [Function.comp_apply]
  split
  · exact hf entry
  · rfl

theorem SameItems.addChild (rib : Rib) (name child : Name) : SameItems rib (rib.addChild name child) :=
  (SameItems.modifyEntry (fun _ => by rfl) child).trans (SameItems.modifyEntry (fun _ => by rfl) name)

theorem SameItems.removeChild (rib : Rib) (name child : Name) : SameItems rib (rib.removeChild name child) :=
  (SameItems.modifyEntry (fun _ => by rfl) child).trans (SameItems.modifyEntry (fun _ => by rfl) name)

theorem SameItems.withParent {op : Name → Rib → Rib} (hop : ∀ name rib, SameItems rib (op name rib))
    (parent : Option Name) (rib : Rib) : SameItems rib (rib.withParent parent op) := by
  cases parent with
  | none => exact SameItems.refl rib
  | some name => exact hop name rib

theorem SameItems.adoptChildren (name : Name) (parent : Option Name) (children : List RibEntry) (rib : Rib) :
    SameItems rib (Rib.adoptChildren name parent children rib) := by
  induction children generalizing rib with
  | nil => exact SameItems.refl rib
  | cons child children ih =>
    rw [Rib.adoptChildren]
    refine SameItems.trans ?_ (ih _)
    split
    · exact (SameItems.withParent (fun parent rib => SameItems.removeChild rib parent child.m_name) parent rib).trans
        (SameItems.addChild _ name child.m_name)
    · exact SameItems.refl rib

theorem SameItems.releaseChildren (name : Name) (parent : Option Name) (children : List Name) (rib : Rib) :
    SameItems rib (Rib.releaseChildren name parent children rib) := by
  induction children generalizing rib with
  | nil => exact SameItems.refl rib
  | cons child children ih =>
    rw [Rib.releaseChildren]
    exact ((SameItems.removeChild rib name child).trans
      (SameItems.withParent (fun parent rib => SameItems.addChild rib parent child) parent _)).trans (ih _)

theorem SameItems.modifyInheritedRoutes (inheritedRoutes : List RibUpdate) (rib : Rib) :
    SameItems rib (FibUpdater.modifyInheritedRoutes inheritedRoutes rib) := by
  induction inheritedRoutes generalizing rib with
  | nil => exact SameItems.refl rib
  | cons update inheritedRoutes ih =>
    refine SameItems.trans ?_ (ih _)
    dsimp only
    split
    · exact SameItems.modifyEntry (fun _ => by rfl) update.name
    · exact SameItems.modifyEntry (fun _ => by rfl) update.name
    · exact SameItems.refl rib

theorem sameItems_adopted (rib : Rib) (name : Name) (route : Route) (descendants : List RibEntry) :
    SameItems { rib with m_rib := rib.m_rib ++ [(emptyEntry name).insertRoute route], m_nItems := rib.m_nItems + 1 }
      (Rib.adoptChildren name (attached rib name route).1 descendants (attached rib name route).2) :=
  (SameItems.withParent (fun parent rib => SameItems.addChild rib parent name) (attached rib name route).1 _).trans
    (SameItems.adoptChildren name (attached rib name route).1 descendants _)

theorem find_split (hnodup : (names rib).Nodup) {entry : RibEntry} (hfind : rib.find name = some entry) :
    ∃ before after, rib.m_rib = before ++ entry :: after ∧ ∀ other ∈ before ++ after, other.m_name ≠ name := by
  obtain ⟨hmem, rfl⟩ := (find_eq_some hnodup).mp hfind
  obtain ⟨before, after, hentries⟩ := List.append_of_mem hmem
  refine ⟨before, after, hentries, fun other hother heq => ?_⟩
  rw [names, hentries, List.map_append, List.map_cons, List.nodup_middle, List.nodup_cons, ← List.map_append] at hnodup
  exact hnodup.1 (heq ▸ List.mem_map_of_mem hother)

theorem routeCount_modifyEntry (hnodup : (names rib).Nodup) {entry : RibEntry} (hfind : rib.find name = some entry)
    (f : RibEntry → RibEntry) :
    routeCount (rib.modifyEntry name f) + entry.m_routes.length = routeCount rib + (f entry).m_routes.length := by
  obtain ⟨before, after, hentries, hothers⟩ := find_split hnodup hfind
  have hkept : ∀ entries : List RibEntry, (∀ other ∈ entries, other.m_name ≠ name) →
      entries.map (fun entry => if entry.m_name = name then f entry else entry) = entries := by
    intro entries hentries
    refine (List.map_congr_left fun other hother => if_neg (hentries other hother)).trans (List.map_id _)
  rw [routeCount, routeCount, Rib.modifyEntry, hentries, List.map_append, List.map_cons, if_pos (find_name hfind),
    hkept before fun other hother => hothers other (List.mem_append_left _ hother),
    hkept after fun other hother => hothers other (List.mem_append_right _ hother)]
  simp only [List.map_append, List.map_cons, List.sum_append, List.sum_cons]
  omega

theorem routeCount_filter (hnodup : (names rib).Nodup) {entry : RibEntry} (hfind : rib.find name = some entry) :
    ((rib.m_rib.filter (fun other => other.m_name ≠ name)).map (fun entry => entry.m_routes.length)).sum +
      entry.m_routes.length = routeCount rib := by
  obtain ⟨before, after, hentries, hothers⟩ := find_split hnodup hfind
  have hkept : (before ++ after).filter (fun other => other.m_name ≠ name) = before ++ after :=
    List.filter_eq_self.mpr fun other hother => by simpa using hothers other hother
  rw [List.filter_append] at hkept
  rw [routeCount, hentries, List.filter_append, List.filter_cons_of_neg (by simp [find_name hfind]), hkept]
  simp only [List.map_append, List.map_cons, List.sum_append, List.sum_cons]
  omega

def Itemized (rib : Rib) : Prop := rib.m_nItems = routeCount rib

theorem routeCount_eq (rib : Rib) : routeCount rib = ((rib.m_rib.map nameAndCount).map Prod.snd).sum := by
  rw [List.map_map]
  rfl

theorem itemized_of_routes (hitems : rib'.m_nItems = rib.m_nItems)
    (hroutes : rib'.m_rib.map nameAndCount = rib.m_rib.map nameAndCount) (h : Itemized rib) : Itemized rib' := by
  rw [Itemized, hitems, h, routeCount_eq, routeCount_eq, hroutes]

theorem SameItems.itemized (h : SameItems rib rib') (hitems : Itemized rib) : Itemized rib' :=
  itemized_of_routes h.items h.routes hitems

theorem SameItems.filter (h : SameItems rib rib') (name : Name) :
    ((rib'.m_rib.filter (fun other => other.m_name ≠ name)).map (fun entry => entry.m_routes.length)).sum =
      ((rib.m_rib.filter (fun other => other.m_name ≠ name)).map (fun entry => entry.m_routes.length)).sum := by
  have hfilter : ∀ entries : List RibEntry,
      (entries.filter (fun other => other.m_name ≠ name)).map (fun entry => entry.m_routes.length) =
        ((entries.map nameAndCount).filter (fun other => other.1 ≠ name)).map Prod.snd := by
    intro entries
    rw [List.filter_map, List.map_map]
    rfl
  rw [hfilter, hfilter, h.routes]

theorem length_insertRoute {entry : RibEntry} {route : Route} (h : (entry.findRoute route).isNone = true) :
    (entry.insertRoute route).m_routes.length = entry.m_routes.length + 1 := by
  rw [RibEntry.insertRoute, if_neg (by simpa using h)]
  exact List.length_append

theorem itemized_insertRoute (hnodup : (names rib).Nodup) (hitems : Itemized rib) {entry : RibEntry} {route : Route}
    (hfind : rib.find name = some entry) (hroute : (entry.findRoute route).isNone = true) :
    rib.m_nItems + 1 = routeCount (rib.modifyEntry name (fun entry => entry.insertRoute route)) := by
  have hcount := routeCount_modifyEntry hnodup hfind (fun entry => entry.insertRoute route)
  rw [length_insertRoute hroute] at hcount
  unfold Itemized at hitems
  omega

theorem itemized_insert (hnodup : (names rib).Nodup) (hitems : Itemized rib) (name : Name) (route : Route) :
    Itemized (insert rib name route) := by
  unfold insert
  cases hfind : rib.find name with
  | some entry =>
    rw [Option.isSome_some, if_pos rfl, Rib.insert, hfind]
    dsimp only
    split
    · rename_i hroute
      exact itemized_insertRoute hnodup hitems hfind hroute
    · refine SameItems.itemized (SameItems.modifyEntry (fun entry => ?_) name) hitems
      exact congrArg (Prod.mk entry.m_name) (List.length_map _)
  | none =>
    rw [Option.isSome_none, if_neg Bool.false_ne_true]
    have hsame := sameItems_adopted rib name route (findDescendants (attached rib name route).2 name)
    refine itemized_of_routes hsame.items hsame.routes ?_
    change rib.m_nItems + 1 = ((rib.m_rib ++ [(emptyEntry name).insertRoute route]).map _).sum
    rw [hitems, List.map_append, List.sum_append, List.map_singleton, List.sum_singleton, length_insertRoute rfl]
    rfl

theorem itemized_eraseEntry (hnodup : (names rib).Nodup) (hitems : Itemized rib) {entry : RibEntry}
    (hfind : rib.find name = some entry) (hempty : entry.m_routes = []) : Itemized (rib.eraseEntry name) := by
  have hreleased := (SameItems.withParent (fun parent rib => SameItems.removeChild rib parent name) entry.m_parent rib).trans
    (SameItems.releaseChildren name entry.m_parent entry.m_children _)
  have hcount := routeCount_filter hnodup hfind
  rw [hempty, List.length_nil, Nat.add_zero] at hcount
  unfold Rib.eraseEntry
  rw [hfind]
  exact hreleased.items.trans (hitems.trans (hcount.symm.trans (hreleased.filter name).symm))

theorem length_eraseRoute {entry : RibEntry} {route existing : Route} (h : entry.findRoute route = some existing) :
    (entry.eraseRoute route).m_routes.length + 1 = entry.m_routes.length := by
  have hmem := List.mem_of_find?_eq_some h
  rw [eraseRoute_routes, List.length_eraseP_of_mem hmem (List.find?_some h)]
  exact Nat.sub_add_cancel (List.length_pos_of_mem hmem)

theorem itemized_erase (hnodup : (names rib).Nodup) (hitems : Itemized rib) (name : Name) (route : Route) :
    Itemized (rib.erase name route) := by
  unfold Rib.erase
  cases hfind : rib.find name with
  | none => exact hitems
  | some entry =>
    dsimp only
    cases hroute : entry.findRoute route with
    | none =>
      rw [Option.isNone_none, if_pos rfl]
      exact hitems
    | some existing =>
      rw [Option.isNone_some, if_neg Bool.false_ne_true]
      have hcount := routeCount_modifyEntry hnodup hfind (fun entry => entry.eraseRoute route)
      have hlength := length_eraseRoute hroute
      have hmodified : rib.m_nItems - 1 = routeCount (rib.modifyEntry name (fun entry => entry.eraseRoute route)) := by
        unfold Itemized at hitems
        omega
      have hnames : (names (rib.modifyEntry name (fun entry => entry.eraseRoute route))).Nodup := by
        rw [names_modifyEntry fun entry => eraseRoute_name entry route]
        exact hnodup
      have hfound : (rib.modifyEntry name (fun entry => entry.eraseRoute route)).find name =
          some (entry.eraseRoute route) := by
        rw [find_modifyEntry fun entry h => (eraseRoute_name entry route).trans h, if_pos rfl, hfind]
        rfl
      split
      · rename_i hempty
        split
        · exact itemized_eraseEntry hnames hmodified hfound (List.isEmpty_iff.mp hempty)
        · exact itemized_eraseEntry hnames hmodified hfound (List.isEmpty_iff.mp hempty)
      · split
        · exact hmodified
        · exact hmodified

end Items

section Plain

variable {β : Type} {g : RibEntry → β}

/-- Apart from the order of the children it is the insertion that looks at all entries. -/
theorem insert_sameBy (hg : IgnoresLinks g) (rib : Rib) (namePrefix : Name) (route : Route) :
    SameBy g (rib.insert namePrefix route) (insert rib namePrefix route) := by
  unfold insert
  cases hfind : rib.find namePrefix with
  | some entry => exact SameBy.refl _
  | none =>
    rw [Option.isSome_none, if_neg Bool.false_ne_true, insert_attached hfind]
    have hadopted := fun descendants => SameBy.adoptChildren hg namePrefix (attached rib namePrefix route).1 descendants
      (attached rib namePrefix route).2
    exact fun name => (hadopted _ name).trans (hadopted _ name).symm

theorem faceMap_insert (rib : Rib) (namePrefix : Name) (route : Route) : (insert rib namePrefix route).m_faceMap =
    if (rib.findRoute namePrefix route).isNone then
      Function.update rib.m_faceMap route.faceId (rib.m_faceMap route.faceId ++ [namePrefix])
    else rib.m_faceMap := by
  unfold insert Rib.findRoute
  cases hfind : rib.find namePrefix with
  | some entry =>
    rw [Option.isSome_some, if_pos rfl, Rib.insert, hfind, Option.bind_some]
    dsimp only
    split <;> rfl
  | none =>
    rw [Option.isSome_none, if_neg Bool.false_ne_true, Option.bind_none, Option.isNone_none, if_pos rfl]
    dsimp only
    rw [(sameItems_adopted rib namePrefix route _).faces]

theorem faceMap_eraseEntry (rib : Rib) (name : Name) : (rib.eraseEntry name).m_faceMap = rib.m_faceMap := by
  unfold Rib.eraseEntry
  cases hfind : rib.find name with
  | none => rfl
  | some entry =>
    exact ((SameItems.withParent (fun parent rib => SameItems.removeChild rib parent name) entry.m_parent rib).trans
      (SameItems.releaseChildren name entry.m_parent entry.m_children _)).faces

theorem faceMap_erase (rib : Rib) (namePrefix : Name) (route : Route) : (rib.erase namePrefix route).m_faceMap =
    if (rib.findRoute namePrefix route).isNone ∨
        ∃ r ∈ (rib.routesOf namePrefix).eraseP (fun r => compareFaceIdAndOrigin r route), r.faceId = route.faceId then
      rib.m_faceMap
    else Function.update rib.m_faceMap route.faceId
      ((rib.m_faceMap route.faceId).filter (fun name => name ≠ namePrefix)) := by
  unfold Rib.erase Rib.findRoute Rib.routesOf
  cases hfind : rib.find namePrefix with
  | none => simp
  | some entry =>
    rw [Option.bind_some, Option.map_some, Option.getD_some, ← eraseRoute_routes]
    dsimp only
    by_cases hroute : (entry.findRoute route).isNone = true
    · rw [if_pos hroute, if_pos (Or.inl hroute)]
    · have hface : (∃ r ∈ (entry.eraseRoute route).m_routes, r.faceId = route.faceId) ↔
          (entry.eraseRoute route).hasFaceId route.faceId = true := by
        simp [RibEntry.hasFaceId]
      rw [if_neg hroute]
      by_cases hleft : (entry.eraseRoute route).hasFaceId route.faceId = true
      · rw [if_pos hleft, if_pos (Or.inr (hface.mpr hleft))]
        split
        · exact faceMap_eraseEntry _ _
        · rfl
      · have hnone : ¬ ((entry.findRoute route).isNone = true ∨
            ∃ r ∈ (entry.eraseRoute route).m_routes, r.faceId = route.faceId) := by
          rw [hface]
          exact fun h => h.elim hroute hleft
        rw [if_neg hleft, if_neg hnone]
        split
        · exact faceMap_eraseEntry _ _
        · rfl

end Plain

section Runs

structure WellLinked (rib : Rib) : Prop where
  names : (names rib).Nodup
  parent : ∀ entry ∈ rib.m_rib, IsParent (Mem rib) entry.m_name entry.m_parent
  nodup : ∀ entry ∈ rib.m_rib, entry.m_children.Nodup
  children : ∀ entry ∈ rib.m_rib, ∀ child, child ∈ entry.m_children ↔
    ∃ other ∈ rib.m_rib, other.m_name = child ∧ other.m_parent = some entry.m_name
  items : rib.m_nItems = (rib.m_rib.map (fun entry => entry.m_routes.length)).sum

theorem wellLinked_of_tree {rib : Rib} (h : Tree rib) (hitems : Itemized rib) : WellLinked rib := by
  have hfind : ∀ entry ∈ rib.m_rib, rib.find entry.m_name = some entry :=
    fun entry hentry => (find_eq_some h.nodup).mpr ⟨hentry, rfl⟩
  have hchildren : ∀ entry ∈ rib.m_rib, childrenOf rib entry.m_name = entry.m_children := by
    intro entry hentry
    rw [childrenOf, hfind entry hentry]
    rfl
  refine ⟨h.nodup, fun entry hentry => ?_, fun entry hentry => ?_, fun entry hentry child => ?_, hitems⟩
  · refine h.parent entry.m_name entry.m_parent ?_
    rw [parentOf, hfind entry hentry]
    rfl
  · rw [← hchildren entry hentry]
    exact h.linked.nodup entry.m_name
  · rw [← hchildren entry hentry, h.linked.children, parentOf, Option.map_eq_some_iff]
    simp only [find_eq_some h.nodup, and_assoc]

theorem afterUpdates_kept (updates : List (RibUpdate × List RibUpdate)) {rib : Rib} (h : Tree rib) (hitems : Itemized rib) :
    Tree (updates.foldl apply rib) ∧ Itemized (updates.foldl apply rib) := by
  induction updates generalizing rib with
  | nil => exact ⟨h, hitems⟩
  | cons update updates ih =>
    refine ih (tree_apply h update) (SameItems.itemized (SameItems.modifyInheritedRoutes update.2 _) ?_)
    unfold updateRib
    split
    · exact itemized_insert h.nodup hitems update.1.name update.1.route
    · exact itemized_erase h.nodup hitems update.1.name update.1.route

theorem tree_emptyRib : Tree emptyRib := by
  refine ⟨List.nodup_nil, ⟨fun _ => List.nodup_nil, fun name child => ?_⟩, ?_⟩
  · constructor
    · rintro ⟨⟩
    · rintro ⟨⟩
  · rintro name parent ⟨⟩

theorem afterUpdates_wellLinked (updates : List (RibUpdate × List RibUpdate)) : WellLinked (afterUpdates updates) := by
  obtain ⟨htree, hitems⟩ := afterUpdates_kept updates tree_emptyRib rfl
  exact wellLinked_of_tree htree hitems

end Runs

end LeoNdn.RibMap
