import LeoNdn.RouteInheritance

/-!
The changes that the updater makes for one name: the routes of its entry before
and after, the next hops of the name, and what is added and removed below it.
-/

namespace LeoNdn.RouteChanges

open LeoNdn.NdnPacket LeoNdn.RibTable LeoNdn.FibUpdater LeoNdn.Inheritance LeoNdn.RibTree
open LeoNdn.FibChanges LeoNdn.RibTraversal LeoNdn.RouteInheritance

section Keys

variable {routes routes' : List Route} {route other query existing : Route}

def others (query : Route) (routes : List Route) : List Route :=
  routes.filter (fun r => ! compareFaceIdAndOrigin r query)

theorem mem_others : other ∈ others query routes ↔ other ∈ routes ∧ ¬ compareFaceIdAndOrigin other query = true := by
  rw [others, List.mem_filter, Bool.not_eq_true', Bool.not_eq_true]

theorem others_of_none (h : routeOfKey query routes = none) : others query routes = routes := by
  refine List.filter_eq_self.mpr fun r hr => ?_
  rw [Bool.not_eq_true', Bool.eq_false_iff]
  exact routeOfKey_eq_none.mp h r hr

theorem compare_of_key (h : routeOfKey query routes = some existing) : compareFaceIdAndOrigin existing query = true :=
  List.find?_some (p := (compareFaceIdAndOrigin · query)) h

instance : Std.Symm (fun a b => compareFaceIdAndOrigin a b = false) where
  symm a b h := by
    rw [Bool.eq_false_iff] at h ⊢
    exact fun hba => h (compare_symm hba)

theorem mem_of_key (h : UniqueRoutes routes) (hkey : routeOfKey query routes = some existing) :
    other ∈ routes ↔ other = existing ∨ other ∈ others query routes := by
  rw [mem_others]
  constructor
  · intro hother
    by_cases hcompare : compareFaceIdAndOrigin other query = true
    · left
      by_contra hne
      have hmem := List.mem_of_find?_eq_some hkey
      have hsame := compare_trans hcompare (compare_symm (compare_of_key hkey))
      have hdistinct := h.forall hother hmem hne
      rw [hsame] at hdistinct
      cases hdistinct
    · exact Or.inr ⟨hother, hcompare⟩
  · rintro (rfl | hother)
    · exact List.mem_of_find?_eq_some hkey
    · exact hother.1

theorem mem_insertInto : other ∈ insertInto route routes ↔ other = route ∨ other ∈ others route routes := by
  unfold insertInto
  change other ∈ (if (routeOfKey route routes).isSome = true then _ else _) ↔ _
  by_cases hsome : (routeOfKey route routes).isSome = true
  · rw [if_pos hsome, List.mem_map, mem_others]
    constructor
    · rintro ⟨r, hr, heq⟩
      by_cases hcompare : compareFaceIdAndOrigin r route = true
      · rw [if_pos hcompare] at heq
        exact Or.inl heq.symm
      · rw [if_neg hcompare] at heq
        subst heq
        exact Or.inr ⟨hr, hcompare⟩
    · rintro (rfl | ⟨hr, hcompare⟩)
      · obtain ⟨r, hr⟩ := Option.isSome_iff_exists.mp hsome
        exact ⟨r, List.mem_of_find?_eq_some hr, if_pos (compare_of_key hr)⟩
      · exact ⟨other, hr, if_neg hcompare⟩
  · rw [if_neg hsome]
    rw [Bool.not_eq_true, Option.isSome_eq_false_iff, Option.isNone_iff_eq_none] at hsome
    rw [others_of_none hsome, List.mem_append, List.mem_singleton, or_comm]

theorem mem_eraseP (h : UniqueRoutes routes) :
    other ∈ routes.eraseP (fun r => compareFaceIdAndOrigin r query) ↔ other ∈ others query routes := by
  rw [mem_others]
  constructor
  · intro hother
    refine ⟨List.mem_of_mem_eraseP hother, ?_⟩
    have hnone := routeOfKey_eraseP h query query
    rw [if_pos (compare_self query), routeOfKey_eq_none] at hnone
    exact hnone other hother
  · rintro ⟨hother, hcompare⟩
    exact (List.mem_eraseP_of_neg (p := (compareFaceIdAndOrigin · query)) hcompare).mpr hother

theorem captures_with (h : ∀ other, other ∈ routes' ↔ other = route ∨ other ∈ routes) :
    captures routes' = (route.isRibCapture || captures routes) := by
  rw [Bool.eq_iff_iff, Bool.or_eq_true, captures, List.any_eq_true, captures, List.any_eq_true]
  constructor
  · rintro ⟨other, hother, hcapture⟩
    rcases (h other).mp hother with rfl | hother
    · exact Or.inl hcapture
    · exact Or.inr ⟨other, hother, hcapture⟩
  · rintro (hcapture | ⟨other, hother, hcapture⟩)
    · exact ⟨route, (h route).mpr (Or.inl rfl), hcapture⟩
    · exact ⟨other, (h other).mpr (Or.inr hother), hcapture⟩

theorem captures_congr (h : ∀ other, other ∈ routes' ↔ other ∈ routes) : captures routes' = captures routes := by
  rw [Bool.eq_iff_iff, captures, List.any_eq_true, captures, List.any_eq_true]
  simp only [h]

section Costs

variable {p : Route → Bool} {face : ℕ} {least : Option ℕ}

theorem withRoute_of_not (h : ¬ p route = true) : withRoute p route least = least := if_neg h

theorem withRoute_of_lowest (h : p route = true) (hle : ∀ cost, least = some cost → route.cost ≤ cost) :
    withRoute p route least = some route.cost := by
  rw [withRoute, if_pos h]
  cases least with
  | none => rfl
  | some cost => exact congrArg some (min_eq_left (hle cost rfl))

theorem withRoute_of_not_lowest (hle : ¬ ∀ cost, least = some cost → route.cost ≤ cost) :
    withRoute p route least = least := by
  rw [withRoute]
  split
  · cases least with
    | none => exact absurd (fun cost h => by cases h) hle
    | some cost =>
      refine congrArg some (min_eq_right ?_)
      by_contra hlt
      refine hle fun other h => ?_
      cases h
      exact (not_le.mp hlt).le
  · rfl

theorem leastCost_insertInto :
    leastCost p (insertInto route routes) = withRoute p route (leastCost p (others route routes)) :=
  leastCost_with fun _ => mem_insertInto

theorem leastCost_of_key (h : UniqueRoutes routes) (hkey : routeOfKey query routes = some existing) :
    leastCost p routes = withRoute p existing (leastCost p (others query routes)) :=
  leastCost_with fun _ => mem_of_key h hkey

theorem leastCost_eraseP (h : UniqueRoutes routes) :
    leastCost p (routes.eraseP (fun r => compareFaceIdAndOrigin r query)) = leastCost p (others query routes) :=
  leastCost_congr fun _ _ => mem_eraseP h

theorem captures_insertInto :
    captures (insertInto route routes) = (route.isRibCapture || captures (others route routes)) :=
  captures_with fun _ => mem_insertInto

theorem captures_of_key (h : UniqueRoutes routes) (hkey : routeOfKey query routes = some existing) :
    captures routes = (existing.isRibCapture || captures (others query routes)) :=
  captures_with fun _ => mem_of_key h hkey

theorem captures_eraseP (h : UniqueRoutes routes) :
    captures (routes.eraseP (fun r => compareFaceIdAndOrigin r query)) = captures (others query routes) :=
  captures_congr fun _ => mem_eraseP h

theorem isOn_iff : isOn face route = true ↔ route.faceId = face := by
  rw [isOn, decide_eq_true_eq]

theorem isInheritedOn_iff : isInheritedOn face route = true ↔ route.faceId = face ∧ route.isChildInherit = true := by
  rw [isInheritedOn, Bool.and_eq_true, decide_eq_true_eq]

end Costs

def byCost (routes : List Route) (face : ℕ) : List Route :=
  (routes.filter (fun r => r.faceId = face)).insertionSort (fun lhs rhs => lhs.cost ≤ rhs.cost)

theorem mem_byCost {face : ℕ} : other ∈ byCost routes face ↔ other ∈ routes ∧ other.faceId = face := by
  rw [byCost, (List.perm_insertionSort _ _).mem_iff, List.mem_filter, decide_eq_true_eq]

theorem nodup_byCost (h : UniqueRoutes routes) (face : ℕ) : (byCost routes face).Nodup := by
  rw [byCost, (List.perm_insertionSort _ _).nodup_iff]
  refine List.Nodup.filter _ (h.imp ?_)
  rintro a b hab rfl
  rw [compare_self] at hab
  cases hab

theorem exists_cheaper (h : UniqueRoutes routes) {face : ℕ} {next : Route}
    (hnext : (byCost routes face)[1]? = some next)
    (existing : Route) : ∃ other ∈ routes, other.faceId = face ∧ other ≠ existing ∧ other.cost ≤ next.cost := by
  have hsorted : (byCost routes face).Pairwise (fun lhs rhs => lhs.cost ≤ rhs.cost) := List.pairwise_insertionSort _ _
  have hnodup := nodup_byCost h face
  have hmem : ∀ r, r ∈ byCost routes face → r ∈ routes ∧ r.faceId = face := fun r hr => mem_byCost.mp hr
  match hlist : byCost routes face, hnext with
  | first :: second :: rest, hnext =>
    rw [hlist] at hsorted hnodup hmem
    obtain rfl : second = next := Option.some.inj hnext
    have hle : first.cost ≤ second.cost := (List.pairwise_cons.mp hsorted).1 second List.mem_cons_self
    have hne : first ≠ second := fun heq => (List.nodup_cons.mp hnodup).1 (heq ▸ List.mem_cons_self)
    by_cases heq : first = existing
    · have hsecond := hmem second (List.mem_cons_of_mem _ List.mem_cons_self)
      exact ⟨second, hsecond.1, hsecond.2, fun hes => hne (heq.trans hes.symm), le_rfl⟩
    · have hfirst := hmem first List.mem_cons_self
      exact ⟨first, hfirst.1, hfirst.2, heq, hle⟩

theorem eq_of_no_second {face : ℕ} (hnone : (byCost routes face)[1]? = none) {a b : Route} (ha : a ∈ routes)
    (haface : a.faceId = face) (hb : b ∈ routes) (hbface : b.faceId = face) : a = b := by
  have ha' : a ∈ byCost routes face := mem_byCost.mpr ⟨ha, haface⟩
  have hb' : b ∈ byCost routes face := mem_byCost.mpr ⟨hb, hbface⟩
  rw [List.getElem?_eq_none_iff] at hnone
  match hlist : byCost routes face with
  | [] =>
    rw [hlist] at ha'
    cases ha'
  | [only] =>
    rw [hlist, List.mem_singleton] at ha' hb'
    rw [ha', hb']
  | _ :: _ :: _ =>
    rw [hlist, List.length_cons, List.length_cons] at hnone
    omega

end Keys

section Changes

variable {rib : Rib} {name : Name} {before : Table} {updates : Updates}

open Classical in
/-- The table where the name has the next hops `own`, and below it `add` and
`remove` have been passed down. -/
noncomputable def changed (rib : Rib) (name : Name) (before : Table) (own : ℕ → Option ℕ × Bool)
    (add : ℕ → Option ℕ) (remove : ℕ → Bool) : Table :=
  fun d f =>
    if d = name then own f
    else if Reached rib name f d then takeOver (hasFace rib d f) (inherits rib d f) (add f) (remove f) (before d f)
    else before d f

def Changes (rib : Rib) (name : Name) (before : Table) (updates : Updates) (own : ℕ → Option ℕ × Bool)
    (add : ℕ → Option ℕ) (remove : ℕ → Bool) : Prop := Amounts updates before (changed rib name before own add remove)

variable {own own' : ℕ → Option ℕ × Bool} {add : ℕ → Option ℕ} {remove : ℕ → Bool}

def setNextHop (own : ℕ → Option ℕ × Bool) (face : ℕ) (cost : Option ℕ) : ℕ → Option ℕ × Bool :=
  fun f => if f = face then (cost, (own f).2) else own f

def setInherited (own : ℕ → Option ℕ × Bool) (face cost : ℕ) : ℕ → Option ℕ × Bool :=
  fun f => if f = face then (some cost, true) else own f

def inheriting (own : ℕ → Option ℕ × Bool) (skip : ℕ → Prop) [DecidablePred skip] (routes : List Route) :
    ℕ → Option ℕ × Bool :=
  fun f => if skip f then own f else ((costOn routes f).map (fun cost => (some cost, true))).getD (own f)

def disinheriting (own : ℕ → Option ℕ × Bool) (entry : RibEntry) (routes : List Route) : ℕ → Option ℕ × Bool :=
  fun f => if onFace routes f = true ∧ inheritsFace entry f = true then (none, false) else own f

theorem changed_name (rib : Rib) (name : Name) (before : Table) (own : ℕ → Option ℕ × Bool) (add : ℕ → Option ℕ)
    (remove : ℕ → Bool) (f : ℕ) : changed rib name before own add remove name f = own f := if_pos rfl

theorem changed_reached {d : Name} {f : ℕ} (h : Reached rib name f d) : changed rib name before own add remove d f =
    takeOver (hasFace rib d f) (inherits rib d f) (add f) (remove f) (before d f) := by
  rw [changed, if_neg h.2.1.2.symm, if_pos h]

theorem changed_other {d : Name} {f : ℕ} (hd : d ≠ name) (h : ¬ Reached rib name f d) :
    changed rib name before own add remove d f = before d f := by
  rw [changed, if_neg hd, if_neg h]

theorem Changes.of_own (own : ℕ → Option ℕ × Bool) {after : Table} (h : Amounts updates before after)
    (hname : ∀ f, after name f = own' f)
    (hothers : ∀ d, d ≠ name → ∀ f, after d f = changed rib name before own add remove d f) :
    Changes rib name before updates own' add remove := by
  refine h.congr fun d f => ?_
  by_cases hd : d = name
  · rw [hd, hname, changed_name]
  · rw [hothers d hd, changed, changed, if_neg hd, if_neg hd]

theorem changes_none (rib : Rib) (name : Name) (before : Table) (batchFaceId : ℕ) :
    Changes rib name before ⟨batchFaceId, [], [], []⟩ (before name) (fun _ => none) (fun _ => false) := by
  refine (amounts_none batchFaceId before).congr fun d f => ?_
  rw [changed]
  split
  · rename_i hd
    rw [hd]
  · rw [takeOver_none, ite_self]

theorem Changes.addFibUpdate (h : Changes rib name before updates own add remove) (update : FibUpdate)
    (hname : update.name = name) : Changes rib name before (updates.addFibUpdate update)
      (setNextHop own update.faceId (nextHopAfter update)) add remove := by
  refine Changes.of_own own (Amounts.addFibUpdate h update) ?_ ?_
  · intro f
    rw [hname, Table.setNextHop, Table.set, changed_name, changed_name, setNextHop]
    simp only [true_and]
    split
    · rename_i hf
      rw [hf]
    · rfl
  · intro d hd f
    rw [hname, Table.setNextHop, Table.set, if_neg fun hkey => hd hkey.1]

theorem Changes.inherit (h : Changes rib name before updates own add remove) (route : Route) :
    Changes rib name before (updates.inherit name route) (setInherited own route.faceId route.cost) add remove := by
  refine Changes.of_own own (Amounts.inherit h name route) ?_ ?_
  · intro f
    rw [Table.set, changed_name, setInherited]
    simp only [true_and]
  · intro d hd f
    rw [Table.set, if_neg fun hkey => hd hkey.1]

theorem Changes.inheritAll (h : Changes rib name before updates own add remove) (skip : ℕ → Prop) [DecidablePred skip]
    (routes : List Route) (hnodup : (routes.map Route.faceId).Nodup) :
    Changes rib name before
      (routes.foldl (fun updates route => if skip route.faceId then updates else updates.inherit name route) updates)
      (inheriting own skip routes) add remove := by
  refine Changes.of_own own (Amounts.inheritAll h skip name routes hnodup) ?_ ?_
  · intro f
    rw [changed_name, inheriting]
    by_cases hskip : skip f
    · rw [if_neg fun hall => hall.2 hskip, if_pos hskip]
    · rw [if_pos ⟨rfl, hskip⟩, if_neg hskip]
  · intro d hd f
    rw [if_neg fun hall => hd hall.1]

theorem Changes.removeInheritedRoutes (h : Changes rib name before updates own add remove) {entry : RibEntry}
    (hname : entry.m_name = name) (routes : List Route) :
    Changes rib name before (updates.removeInheritedRoutes entry routes) (disinheriting own entry routes) add remove := by
  refine Changes.of_own own (Amounts.removeInheritedRoutes h entry routes) ?_ ?_
  · intro f
    rw [hname, changed_name, disinheriting]
    simp only [true_and]
  · intro d hd f
    rw [hname, if_neg fun hall => hd hall.1]

theorem Changes.removeAll (h : Changes rib name before updates own add remove) (routes : List Route) :
    Changes rib name before
      (routes.foldl (fun updates route => updates.addFibUpdate (.createRemoveUpdate name route.faceId)) updates)
      (fun f => if onFace routes f = true then (none, (own f).2) else own f) add remove := by
  induction routes generalizing updates own with
  | nil => exact h
  | cons route routes ih =>
    refine Changes.of_own own (ih (h.addFibUpdate (.createRemoveUpdate name route.faceId) rfl)) ?_ ?_
    · intro f
      rw [changed_name, onFace_cons]
      by_cases hrest : onFace routes f = true
      · rw [if_pos hrest, hrest, Bool.or_true, if_pos rfl, setNextHop]
        split <;> rfl
      · rw [if_neg hrest, Bool.eq_false_iff.mpr hrest, Bool.or_false]
        simp only [decide_eq_true_eq, FibUpdate.createRemoveUpdate, setNextHop, eq_comm (a := f)]
        rfl
    · intro d hd f
      rw [changed, changed, if_neg hd, if_neg hd]

theorem setNextHop_self (own : ℕ → Option ℕ × Bool) (face : ℕ) (cost : Option ℕ) :
    setNextHop own face cost face = (cost, (own face).2) := if_pos rfl

theorem setNextHop_other {face f : ℕ} (h : f ≠ face) (own : ℕ → Option ℕ × Bool) (cost : Option ℕ) :
    setNextHop own face cost f = own f := if_neg h

theorem setInherited_self (own : ℕ → Option ℕ × Bool) (face cost : ℕ) :
    setInherited own face cost face = (some cost, true) := if_pos rfl

theorem setInherited_other {face f : ℕ} (h : f ≠ face) (own : ℕ → Option ℕ × Bool) (cost : ℕ) :
    setInherited own face cost f = own f := if_neg h

theorem inheriting_skip (skip : ℕ → Prop) [DecidablePred skip] {f : ℕ} (h : skip f) (own : ℕ → Option ℕ × Bool)
    (routes : List Route) : inheriting own skip routes f = own f := if_pos h

theorem inheriting_of_not_skip (skip : ℕ → Prop) [DecidablePred skip] {f : ℕ} (h : ¬ skip f)
    (own : ℕ → Option ℕ × Bool) (routes : List Route) :
    (inheriting own skip routes f).1 = (costOn routes f).or (own f).1 ∧
      ((costOn routes f).isSome = true → (inheriting own skip routes f).2 = true) ∧
      (costOn routes f = none → inheriting own skip routes f = own f) := by
  rw [inheriting, if_neg h]
  cases costOn routes f with
  | none => exact ⟨rfl, fun hsome => absurd hsome Bool.false_ne_true, fun _ => rfl⟩
  | some cost => exact ⟨rfl, fun _ => rfl, fun hnone => absurd hnone (Option.some_ne_none cost)⟩

theorem takeOver_takeOver (has inherited : Bool) (add add' : Option ℕ) (remove : Bool) (x : Option ℕ × Bool) :
    takeOver has inherited add' false (takeOver has inherited add remove x) =
      takeOver has inherited (add'.or add) remove x := by
  cases has <;> cases inherited <;> cases add <;> cases add' <;> cases remove <;> simp [takeOver]

theorem Changes.traverse (h : Changes rib name before updates own (fun _ => none) (fun _ => false)) (htree : Tree rib)
    {children : List Name} (hchildren : ∀ child, child ∈ children ↔ Below (Mem rib) name child)
    (routesToAdd routesToRemove : List Route) (hnodup : (routesToAdd.map Route.faceId).Nodup) :
    Changes rib name before (modifyChildrensInheritedRoutes rib children routesToAdd routesToRemove updates) own
      (costOn routesToAdd) (onFace routesToRemove) := by
  refine (amounts_modifyChildrens htree hchildren routesToRemove hnodup h).congr fun d f => ?_
  by_cases hreached : Reached rib name f d
  · rw [changed_reached hreached, traversed_of hreached, changed_reached hreached, takeOver_none]
  · rw [traversed_of_not hreached, changed, changed]
    simp only [if_neg hreached]

theorem Changes.traverseAdding (h : Changes rib name before updates own add remove) (htree : Tree rib)
    {children : List Name} (hchildren : ∀ child, child ∈ children ↔ Below (Mem rib) name child)
    (routesToAdd : List Route) (hnodup : (routesToAdd.map Route.faceId).Nodup) :
    Changes rib name before (modifyChildrensInheritedRoutes rib children routesToAdd [] updates) own
      (fun f => (costOn routesToAdd f).or (add f)) remove := by
  refine (amounts_modifyChildrens htree hchildren [] hnodup h).congr fun d f => ?_
  by_cases hreached : Reached rib name f d
  · rw [changed_reached hreached, traversed_of hreached, changed_reached hreached]
    exact (takeOver_takeOver _ _ _ _ _ _).symm
  · rw [traversed_of_not hreached, changed, changed]
    simp only [if_neg hreached]

end Changes

end LeoNdn.RouteChanges
