import LeoNdn.FibChanges

/-!
The traversal of the entries below a name: which of them it reaches, and what
becomes of their next hops.
-/

namespace LeoNdn.RibTraversal

open LeoNdn.NdnPacket LeoNdn.RibTable LeoNdn.FibUpdater LeoNdn.Inheritance LeoNdn.RibTree
open LeoNdn.FibChanges

section Traversal

variable {rib : Rib} {updates : Updates} {before after : Table}

def hasFace (rib : Rib) (name : Name) (face : ℕ) : Bool := (rib.find name).any (fun entry => entry.hasFaceId face)

def inherits (rib : Rib) (name : Name) (face : ℕ) : Bool := (rib.find name).any (fun entry => inheritsFace entry face)

/-- What comes down the tree on a face is not stopped at the entry. -/
def LetsThrough (entry : RibEntry) (face : ℕ) : Prop :=
  entry.hasCapture = false ∧ entry.hasChildInheritOnFaceId face = false

/-- An entry under a name that gets what the name passes down on a face. -/
def Reached (rib : Rib) (name : Name) (face : ℕ) (d : Name) : Prop :=
  Mem rib d ∧ Under name d ∧ ∀ p entry, rib.find p = some entry → Under name p → p <+: d → LetsThrough entry face

/-- As `Reached`, from the name itself on. -/
def ReachedFrom (rib : Rib) (name : Name) (face : ℕ) (d : Name) : Prop :=
  Mem rib d ∧ name <+: d ∧ ∀ p entry, rib.find p = some entry → name <+: p → p <+: d → LetsThrough entry face

/-- What an entry that is reached makes of a route to add and of one to remove. -/
def takeOver (own inherited : Bool) (add : Option ℕ) (remove : Bool) (x : Option ℕ × Bool) : Option ℕ × Bool :=
  let rest := if remove = true ∧ inherited = true then (none, false) else x
  if own = false then (add.map (fun cost => (some cost, true))).getD rest else rest

theorem takeOver_none (own inherited : Bool) (x : Option ℕ × Bool) : takeOver own inherited none false x = x := by
  cases own <;> simp [takeOver]

theorem takeOver_self (own inherited : Bool) (add : Option ℕ) (remove : Bool) (x : Option ℕ × Bool) :
    takeOver own inherited add remove (takeOver own inherited add remove x) = takeOver own inherited add remove x := by
  cases own <;> cases inherited <;> cases add <;> cases remove <;> simp [takeOver]

open Classical in
/-- The table after a traversal that reaches the entries in `reached`. -/
noncomputable def traversed (rib : Rib) (reached : ℕ → Name → Prop) (add remove : List Route) (table : Table) : Table :=
  fun d f => if reached f d then takeOver (hasFace rib d f) (inherits rib d f) (costOn add f) (onFace remove f) (table d f)
    else table d f

theorem traversed_of {reached : ℕ → Name → Prop} {d : Name} {f : ℕ} (h : reached f d) (add remove : List Route)
    (table : Table) : traversed rib reached add remove table d f =
      takeOver (hasFace rib d f) (inherits rib d f) (costOn add f) (onFace remove f) (table d f) := if_pos h

theorem traversed_of_not {reached : ℕ → Name → Prop} {d : Name} {f : ℕ} (h : ¬ reached f d) (add remove : List Route)
    (table : Table) : traversed rib reached add remove table d f = table d f := if_neg h

theorem costOn_notOverridden (entry : RibEntry) (routes : List Route) (face : ℕ) :
    costOn (notOverridden entry routes) face =
      if entry.hasChildInheritOnFaceId face = true then none else costOn routes face := by
  induction routes with
  | nil => exact (ite_self none).symm
  | cons route routes ih =>
    rw [notOverridden, List.filter_cons]
    by_cases hown : entry.hasChildInheritOnFaceId route.faceId = true
    · rw [hown, Bool.not_true, if_neg Bool.false_ne_true]
      refine ih.trans ?_
      rw [costOn_cons]
      by_cases hface : route.faceId = face
      · rw [← hface, if_pos hown, if_pos hown]
      · rw [if_neg hface]
    · rw [Bool.eq_false_iff.mpr hown, Bool.not_false, if_pos rfl, costOn_cons, costOn_cons]
      by_cases hface : route.faceId = face
      · rw [if_pos hface, if_pos hface, if_neg]
        rw [← hface]
        exact hown
      · rw [if_neg hface, if_neg hface]
        exact ih

theorem onFace_notOverridden (entry : RibEntry) (routes : List Route) (face : ℕ) :
    onFace (notOverridden entry routes) face =
      if entry.hasChildInheritOnFaceId face = true then false else onFace routes face := by
  rw [← costOn_isSome, costOn_notOverridden, ← costOn_isSome]
  split <;> rfl

theorem nodup_notOverridden {routes : List Route} (h : (routes.map Route.faceId).Nodup) (entry : RibEntry) :
    ((notOverridden entry routes).map Route.faceId).Nodup := h.sublist (List.Sublist.map _ List.filter_sublist)

theorem amounts_atEntry (h : Amounts updates before after) {entry : RibEntry} {name : Name}
    (hfind : rib.find name = some entry) (add remove : List Route) (hnodup : (add.map Route.faceId).Nodup) :
    Amounts ((updates.removeInheritedRoutes entry (notOverridden entry remove)).addInheritedRoutes entry
      (notOverridden entry add)) before
      (traversed rib (fun f d => d = name ∧ entry.hasChildInheritOnFaceId f = false) add remove after) := by
  have hname := find_name hfind
  have hadded := (h.removeInheritedRoutes entry (notOverridden entry remove)).inheritAll
    (fun f => entry.hasFaceId f = true) entry.m_name _ (nodup_notOverridden hnodup entry)
  refine hadded.congr ?_
  intro d f
  rw [costOn_notOverridden, onFace_notOverridden, hname]
  by_cases hinherit : entry.hasChildInheritOnFaceId f = true
  · rw [traversed_of_not (fun hall => by rw [hinherit] at hall; exact Bool.noConfusion hall.2), if_pos hinherit,
      if_pos hinherit]
    rw [Option.map_none, Option.getD_none, ite_self, if_neg]
    rintro ⟨-, hfalse, -⟩
    cases hfalse
  · rw [if_neg hinherit, if_neg hinherit]
    by_cases hd : d = name
    · subst hd
      rw [traversed_of ⟨rfl, Bool.eq_false_iff.mpr hinherit⟩, takeOver, hasFace, RibTraversal.inherits, hfind]
      simp only [Option.any_some, true_and, Bool.not_eq_true]
    · rw [traversed_of_not (fun hall => hd hall.1), if_neg (fun hall => hd hall.1), if_neg (fun hall => hd hall.1)]

theorem traversed_traversed (reached reached' : ℕ → Name → Prop) (add remove : List Route) (table : Table) :
    traversed rib reached' add remove (traversed rib reached add remove table) =
      traversed rib (fun f d => reached f d ∨ reached' f d) add remove table := by
  funext d f
  by_cases h' : reached' f d
  · rw [traversed_of h']
    by_cases h : reached f d
    · rw [traversed_of h, takeOver_self]
      exact (if_pos (Or.inr h')).symm
    · rw [traversed_of_not h]
      exact (if_pos (Or.inr h')).symm
  · rw [traversed_of_not h']
    by_cases h : reached f d
    · rw [traversed_of h]
      exact (if_pos (Or.inl h)).symm
    · rw [traversed_of_not h]
      exact (if_neg (not_or.mpr ⟨h, h'⟩)).symm

theorem traversed_congr {reached reached' : ℕ → Name → Prop} (h : ∀ f d, reached f d ↔ reached' f d)
    (add remove : List Route) (table : Table) :
    traversed rib reached add remove table = traversed rib reached' add remove table := by
  have heq : reached = reached' := funext fun f => funext fun d => propext (h f d)
  rw [heq]

theorem traversed_nowhere {reached : ℕ → Name → Prop} (h : ∀ f d, ¬ reached f d) (add remove : List Route)
    (table : Table) : traversed rib reached add remove table = table :=
  funext fun d => funext fun f => traversed_of_not (h f d) add remove table

theorem traversed_notOverridden (entry : RibEntry) (reached : ℕ → Name → Prop) (add remove : List Route)
    (table : Table) : traversed rib reached (notOverridden entry add) (notOverridden entry remove) table =
      traversed rib (fun f d => entry.hasChildInheritOnFaceId f = false ∧ reached f d) add remove table := by
  funext d f
  by_cases h : reached f d
  · rw [traversed_of h, costOn_notOverridden, onFace_notOverridden]
    by_cases hinherit : entry.hasChildInheritOnFaceId f = true
    · rw [if_pos hinherit, if_pos hinherit, takeOver_none, traversed_of_not]
      intro hall
      rw [hinherit] at hall
      cases hall.1
    · rw [if_neg hinherit, if_neg hinherit, traversed_of ⟨Bool.eq_false_iff.mpr hinherit, h⟩]
  · rw [traversed_of_not h, traversed_of_not fun hall => h hall.2]

end Traversal

section Records

variable {rib : Rib} {d : Name} {face : ℕ}

theorem inherits_modifyEntry {name : Name} {f : RibEntry → RibEntry} (hf : ∀ entry, (f entry).m_name = entry.m_name)
    {g : Bool → Bool} (hg : ∀ entry, inheritsFace (f entry) face = g (inheritsFace entry face)) (hd : Mem rib d) :
    inherits (rib.modifyEntry name f) d face = if d = name then g (inherits rib d face) else inherits rib d face := by
  obtain ⟨entry, hentry⟩ := Option.isSome_iff_exists.mp hd
  rw [inherits, inherits, find_modifyEntry fun entry h => (hf entry).trans h, hentry]
  split
  · exact hg entry
  · rfl

theorem inherits_modifyInheritedRoutes (inheritedRoutes : List RibUpdate) (hd : Mem rib d) :
    inherits (modifyInheritedRoutes inheritedRoutes rib) d face =
      inheritsAfter inheritedRoutes (inherits rib d face) d face := by
  induction inheritedRoutes generalizing rib with
  | nil => rfl
  | cons update inheritedRoutes ih =>
    have hadded : ∀ entry : RibEntry, inheritsFace (entry.addInheritedRoute update.route) face =
        (inheritsFace entry face || decide (update.route.faceId = face)) := by
      intro entry
      rw [inheritsFace, onFace, RibEntry.addInheritedRoute, List.any_append, List.any_cons, List.any_nil, Bool.or_false]
      rfl
    have hremoved : ∀ entry : RibEntry, inheritsFace (entry.removeInheritedRoute update.route) face =
        (inheritsFace entry face && ! decide (update.route.faceId = face)) := by
      intro entry
      by_cases hface : update.route.faceId = face
      · subst hface
        simp [inheritsFace, onFace, RibEntry.removeInheritedRoute]
      · rw [decide_eq_false hface, Bool.not_false, Bool.and_true, Bool.eq_iff_iff, inheritsFace, onFace_iff,
          inheritsFace, onFace_iff]
        simp only [RibEntry.removeInheritedRoute, List.mem_filter, decide_eq_true_eq]
        constructor
        · rintro ⟨route, ⟨hroute, -⟩, hon⟩
          exact ⟨route, hroute, hon⟩
        · rintro ⟨route, hroute, hon⟩
          exact ⟨route, ⟨hroute, fun heq => hface (heq.symm.trans hon)⟩, hon⟩
    rw [modifyInheritedRoutes, List.foldl_cons, inheritsAfter, List.foldl_cons, recordAfter]
    cases haction : update.action with
    | REGISTER =>
      dsimp only
      refine (ih ?_).trans ?_
      · exact (mem_of_names (names_modifyEntry (f := (RibEntry.addInheritedRoute · update.route)) fun _ => rfl)).mpr hd
      · rw [inherits_modifyEntry (f := (RibEntry.addInheritedRoute · update.route))
          (g := (· || decide (update.route.faceId = face))) (fun _ => rfl) hadded hd, inheritsAfter]
        by_cases hname : d = update.name
        · rw [if_pos hname]
          by_cases hface : face = update.route.faceId
          · rw [if_pos ⟨hname, hface⟩, decide_eq_true hface.symm, Bool.or_true]
          · rw [if_neg fun h => hface h.2, decide_eq_false (Ne.symm hface), Bool.or_false]
        · rw [if_neg hname, if_neg fun h => hname h.1]
    | UNREGISTER =>
      dsimp only
      refine (ih ?_).trans ?_
      · exact (mem_of_names (names_modifyEntry (f := (RibEntry.removeInheritedRoute · update.route)) fun _ => rfl)).mpr hd
      · rw [inherits_modifyEntry (f := (RibEntry.removeInheritedRoute · update.route))
          (g := (· && ! decide (update.route.faceId = face))) (fun _ => rfl) hremoved hd, inheritsAfter]
        by_cases hname : d = update.name
        · rw [if_pos hname]
          by_cases hface : face = update.route.faceId
          · rw [if_pos ⟨hname, hface⟩, decide_eq_true hface.symm, Bool.not_true, Bool.and_false]
          · rw [if_neg fun h => hface h.2, decide_eq_false (Ne.symm hface), Bool.not_false, Bool.and_true]
        · rw [if_neg hname, if_neg fun h => hname h.1]
    | REMOVE_FACE =>
      dsimp only
      rw [ite_self]
      exact ih hd

end Records

section Reaching

variable {rib : Rib} {name d : Name} {face : ℕ}

theorem reached_iff_below :
    Reached rib name face d ↔ ∃ child, Below (Mem rib) name child ∧ ReachedFrom rib child face d := by
  constructor
  · rintro ⟨hd, hunder, hopen⟩
    obtain ⟨child, hchild, hinit⟩ := exists_below hd hunder
    refine ⟨child, hchild, hd, hinit, ?_⟩
    intro p entry hp hchildp hpd
    exact hopen p entry hp (hchild.1.trans_isPrefix hchildp) hpd
  · rintro ⟨child, hchild, hd, hinit, hopen⟩
    refine ⟨hd, hchild.1.trans_isPrefix hinit, ?_⟩
    intro p entry hp hunder hpd
    rcases List.prefix_or_prefix_of_prefix hpd hinit with hpc | hcp
    · have hmem : Mem rib p := by
        rw [Mem, hp]
        rfl
      have heq := hchild.2.2 p hunder hpc hmem
      subst heq
      exact hopen p entry hp List.prefix_rfl hpd
    · exact hopen p entry hp hcp hpd

theorem reachedFrom_iff {entry : RibEntry} (hfind : rib.find name = some entry) :
    ReachedFrom rib name face d ↔ LetsThrough entry face ∧ (d = name ∨ Reached rib name face d) := by
  constructor
  · rintro ⟨hd, hinit, hopen⟩
    refine ⟨hopen name entry hfind List.prefix_rfl hinit, ?_⟩
    by_cases heq : d = name
    · exact Or.inl heq
    · right
      exact ⟨hd, ⟨hinit, Ne.symm heq⟩, fun p other hp hunder hpd => hopen p other hp hunder.1 hpd⟩
  · rintro ⟨hopen, heq | ⟨hd, hunder, hrest⟩⟩
    · subst heq
      refine ⟨by rw [Mem, hfind]; rfl, List.prefix_rfl, ?_⟩
      intro p other hp hle hge
      have heq : d = p := hle.eq_of_length (le_antisymm hle.length_le hge.length_le)
      subst heq
      rw [hfind] at hp
      cases hp
      exact hopen
    · refine ⟨hd, hunder.1, ?_⟩
      intro p other hp hle hpd
      by_cases heq : name = p
      · subst heq
        rw [hfind] at hp
        cases hp
        exact hopen
      · exact hrest p other hp ⟨hle, heq⟩ hpd

theorem mem_children_iff (htree : Tree rib) {entry : RibEntry} (hfind : rib.find name = some entry) {child : Name} :
    child ∈ entry.m_children ↔ Below (Mem rib) name child := by
  have hmem : Mem rib name := by
    rw [Mem, hfind]
    rfl
  have hchildren : childrenOf rib name = entry.m_children := by
    rw [childrenOf, hfind]
    rfl
  rw [← hchildren, htree.linked.children, below_iff_nearest hmem]
  constructor
  · intro hparent
    exact ⟨mem_of_parentOf hparent, htree.parent child _ hparent⟩
  · rintro ⟨hchild, hnearest⟩
    obtain ⟨other, hother⟩ := Option.isSome_iff_exists.mp hchild
    have hparent : parentOf rib child = some other.m_parent := by
      rw [parentOf, hother]
      rfl
    have hnearest' : IsParent (Mem rib) child (some name) := hnearest
    rw [hparent, (htree.parent child _ hparent).unique hnearest']

def size (rib : Rib) (name : Name) : ℕ := (rib.findDescendantsForNonInsertedName name).length

theorem size_le (rib : Rib) (name : Name) : size rib name ≤ rib.m_rib.length := List.length_filter_le _ _

theorem size_lt {entry : RibEntry} (hfind : rib.find name = some entry) {child : Name} (hunder : Under name child) :
    size rib child < size rib name := by
  have hsub : rib.findDescendantsForNonInsertedName child =
      (rib.findDescendantsForNonInsertedName name).filter (fun entry => List.isPrefixOf child entry.m_name) := by
    unfold Rib.findDescendantsForNonInsertedName
    rw [List.filter_filter]
    refine List.filter_congr fun other _ => ?_
    by_cases h : List.isPrefixOf child other.m_name = true
    · rw [h, Bool.true_and]
      exact (List.isPrefixOf_iff_prefix.mpr (hunder.1.trans (List.isPrefixOf_iff_prefix.mp h))).symm
    · rw [Bool.eq_false_iff.mpr h, Bool.false_and]
  rw [size, hsub]
  refine List.length_filter_lt_length_iff_exists.mpr ⟨entry, ?_, ?_⟩
  · have hname := find_name hfind
    exact List.mem_filter.mpr ⟨List.mem_of_find?_eq_some hfind, by rw [hname]; exact List.isPrefixOf_iff_prefix.mpr List.prefix_rfl⟩
  · rw [find_name hfind, List.isPrefixOf_iff_prefix]
    exact hunder.not_prefix

end Reaching

section Traversing

variable {rib : Rib} {updates : Updates} {before after : Table}

theorem amounts_foldl_traverse (rib : Rib) {traverse : Name → Updates → Updates} (add remove : List Route)
    (children : List Name)
    (htraverse : ∀ child ∈ children, ∀ updates after, Amounts updates before after →
      Amounts (traverse child updates) before (traversed rib (ReachedFrom rib child) add remove after))
    (h : Amounts updates before after) :
    Amounts (children.foldl (fun updates child => traverse child updates) updates) before
      (traversed rib (fun f d => ∃ child ∈ children, ReachedFrom rib child f d) add remove after) := by
  induction children generalizing updates after with
  | nil =>
    rw [traversed_nowhere]
    · exact h
    · rintro f d ⟨child, hmem, -⟩
      exact absurd hmem List.not_mem_nil
  | cons child children ih =>
    have hfirst := htraverse child List.mem_cons_self updates after h
    have hrest := ih (fun other hother => htraverse other (List.mem_cons_of_mem _ hother)) hfirst
    rw [traversed_traversed] at hrest
    rw [List.foldl_cons]
    refine hrest.congr fun d f => ?_
    refine congrFun (congrFun (traversed_congr (fun f d => ?_) add remove after) d) f
    rw [List.exists_mem_cons_iff]

theorem amounts_traverseSubTree (htree : Tree rib) (depth : ℕ) {name : Name} (hmem : Mem rib name)
    (hsize : size rib name ≤ depth) {add : List Route} (remove : List Route) (hnodup : (add.map Route.faceId).Nodup)
    (h : Amounts updates before after) :
    Amounts (FibUpdater.traverseSubTree rib depth add remove name updates) before
      (traversed rib (ReachedFrom rib name) add remove after) := by
  induction depth generalizing name add remove updates after with
  | zero =>
    obtain ⟨entry, hfind⟩ := Option.isSome_iff_exists.mp hmem
    have hself : entry ∈ rib.findDescendantsForNonInsertedName name := by
      refine List.mem_filter.mpr ⟨List.mem_of_find?_eq_some hfind, ?_⟩
      rw [find_name hfind]
      exact List.isPrefixOf_iff_prefix.mpr List.prefix_rfl
    exact absurd hsize (not_le.mpr (List.length_pos_of_mem hself))
  | succ depth ih =>
    obtain ⟨entry, hfind⟩ := Option.isSome_iff_exists.mp hmem
    rw [FibUpdater.traverseSubTree, hfind]
    dsimp only
    by_cases hcapture : entry.hasCapture = true
    · rw [if_pos hcapture, traversed_nowhere]
      · exact h
      · intro f d hreached
        have hopen := ((reachedFrom_iff hfind).mp hreached).1.1
        rw [hcapture] at hopen
        cases hopen
    · rw [if_neg hcapture]
      have hchildren := amounts_foldl_traverse rib (notOverridden entry add) (notOverridden entry remove)
        entry.m_children
        (fun child hchild updates after h => by
          have hbelow := (mem_children_iff htree hfind).mp hchild
          exact ih hbelow.2.1 (Nat.lt_succ_iff.mp ((size_lt hfind hbelow.1).trans_le hsize)) (notOverridden entry remove)
            (nodup_notOverridden hnodup entry) h)
        (amounts_atEntry h hfind add remove hnodup)
      rw [traversed_notOverridden, traversed_traversed] at hchildren
      refine hchildren.congr fun d f => ?_
      refine congrFun (congrFun (traversed_congr (fun f d => ?_) add remove after) d) f
      have hbelow : (∃ child ∈ entry.m_children, ReachedFrom rib child f d) ↔ Reached rib name f d := by
        simp only [mem_children_iff htree hfind, reached_iff_below]
      rw [reachedFrom_iff hfind, hbelow, LetsThrough, Bool.eq_false_iff.mpr hcapture, and_comm (a := d = name),
        ← and_or_left, eq_self_iff_true, true_and]

theorem amounts_modifyChildrens (htree : Tree rib) {name : Name} {children : List Name}
    (hchildren : ∀ child, child ∈ children ↔ Below (Mem rib) name child) {add : List Route} (remove : List Route)
    (hnodup : (add.map Route.faceId).Nodup) (h : Amounts updates before after) :
    Amounts (modifyChildrensInheritedRoutes rib children add remove updates) before
      (traversed rib (Reached rib name) add remove after) := by
  have htraversed := amounts_foldl_traverse rib add remove children
    (fun child hchild updates after h => amounts_traverseSubTree htree rib.m_rib.length ((hchildren child).mp hchild).2.1
      (size_le rib child) remove hnodup h) h
  refine htraversed.congr fun d f => ?_
  refine congrFun (congrFun (traversed_congr (fun f d => ?_) add remove after) d) f
  simp only [hchildren, reached_iff_below]

end Traversing

end LeoNdn.RibTraversal
