import LeoNdn.FibUpdater
import LeoNdn.Inheritance

/-!
The tree of the entries: each entry has the nearest entry above it as its
parent, and insertion and erasure keep that.
-/

namespace LeoNdn.RibTree

open LeoNdn.NdnPacket LeoNdn.RibTable LeoNdn.FibUpdater LeoNdn.Inheritance

section Links

variable {rib rib' : Rib} {name child other : Name}

def Mem (rib : Rib) (name : Name) : Prop := (rib.find name).isSome = true

def names (rib : Rib) : List Name := rib.m_rib.map RibEntry.m_name

def parentOf (rib : Rib) (name : Name) : Option (Option Name) := (rib.find name).map RibEntry.m_parent

def childrenOf (rib : Rib) (name : Name) : List Name := ((rib.find name).map RibEntry.m_children).getD []

/-- The children of an entry are those that have it as their parent. -/
structure Linked (rib : Rib) : Prop where
  nodup : ∀ name, (childrenOf rib name).Nodup
  children : ∀ name child, child ∈ childrenOf rib name ↔ parentOf rib child = some (some name)

theorem mem_iff_names : Mem rib name ↔ name ∈ names rib := by
  rw [Mem, Rib.find, List.find?_isSome, names, List.mem_map]
  simp only [decide_eq_true_eq]

theorem mem_of_parentOf {parent : Option Name} (h : parentOf rib name = some parent) : Mem rib name := by
  obtain ⟨entry, hentry, -⟩ := Option.map_eq_some_iff.mp h
  rw [Mem, hentry]
  rfl

theorem find_linked (rib : Rib) (name child other : Name) (parent : Option Name) (f : List Name → List Name) :
    ((rib.modifyEntry child (fun entry => { entry with m_parent := parent })).modifyEntry name
        (fun entry => { entry with m_children := f entry.m_children })).find other =
      (rib.find other).map (fun entry => { entry with
        m_parent := if other = child then parent else entry.m_parent,
        m_children := if other = name then f entry.m_children else entry.m_children }) := by
  rw [find_modifyEntry, find_modifyEntry]
  · by_cases hname : other = name
    · by_cases hchild : other = child
      · simp only [if_pos hname, if_pos hchild, Option.map_map]
        rfl
      · simp only [if_pos hname, if_neg hchild]
    · by_cases hchild : other = child
      · simp only [if_neg hname, if_pos hchild]
      · simp only [if_neg hname, if_neg hchild]
        exact (congrFun Option.map_id _).symm
  · exact fun _ h => h
  · exact fun _ h => h

theorem find_addChild (rib : Rib) (name child other : Name) : (rib.addChild name child).find other =
    (rib.find other).map (fun entry => { entry with
      m_parent := if other = child then some name else entry.m_parent,
      m_children := if other = name then entry.m_children ++ [child] else entry.m_children }) :=
  find_linked rib name child other (some name) (fun children => children ++ [child])

theorem find_removeChild (rib : Rib) (name child other : Name) : (rib.removeChild name child).find other =
    (rib.find other).map (fun entry => { entry with
      m_parent := if other = child then none else entry.m_parent,
      m_children := if other = name then entry.m_children.filter (fun other => other ≠ child) else entry.m_children }) :=
  find_linked rib name child other none (fun children => children.filter (fun other => other ≠ child))

theorem parentOf_addChild (hchild : Mem rib child) :
    parentOf (rib.addChild name child) other = if other = child then some (some name) else parentOf rib other := by
  rw [parentOf, find_addChild, Option.map_map]
  by_cases h : other = child
  · obtain ⟨entry, hentry⟩ := Option.isSome_iff_exists.mp hchild
    rw [if_pos h, h, hentry]
    simp
  · rw [if_neg h, parentOf]
    congr 1
    funext entry
    simp [h]

theorem childrenOf_addChild (hname : Mem rib name) : childrenOf (rib.addChild name child) other =
    if other = name then childrenOf rib name ++ [child] else childrenOf rib other := by
  rw [childrenOf, find_addChild, Option.map_map]
  by_cases h : other = name
  · obtain ⟨entry, hentry⟩ := Option.isSome_iff_exists.mp hname
    rw [if_pos h, h, childrenOf, hentry]
    simp
  · rw [if_neg h, childrenOf]
    congr 2
    funext entry
    simp [h]

theorem parentOf_removeChild (hchild : Mem rib child) :
    parentOf (rib.removeChild name child) other = if other = child then some none else parentOf rib other := by
  rw [parentOf, find_removeChild, Option.map_map]
  by_cases h : other = child
  · obtain ⟨entry, hentry⟩ := Option.isSome_iff_exists.mp hchild
    rw [if_pos h, h, hentry]
    simp
  · rw [if_neg h, parentOf]
    congr 1
    funext entry
    simp [h]

theorem childrenOf_removeChild : childrenOf (rib.removeChild name child) other =
    if other = name then (childrenOf rib name).filter (fun other => other ≠ child) else childrenOf rib other := by
  rw [childrenOf, find_removeChild, Option.map_map]
  by_cases h : other = name
  · rw [if_pos h, h, childrenOf]
    cases rib.find name with
    | none => rfl
    | some entry => simp
  · rw [if_neg h, childrenOf]
    congr 2
    funext entry
    simp [h]

theorem Linked.addChild (h : Linked rib) (hname : Mem rib name) (hchild : parentOf rib child = some none) :
    Linked (rib.addChild name child) := by
  have hfree : ∀ other, child ∉ childrenOf rib other := by
    intro other hmem
    rw [h.children, hchild] at hmem
    cases hmem
  refine ⟨?_, ?_⟩
  · intro other
    rw [childrenOf_addChild hname]
    split
    · refine List.nodup_append.mpr ⟨h.nodup name, List.nodup_singleton child, ?_⟩
      rintro a ha b hb rfl
      rw [List.mem_singleton.mp hb] at ha
      exact hfree name ha
    · exact h.nodup other
  · intro other c
    rw [childrenOf_addChild hname, parentOf_addChild (mem_of_parentOf hchild)]
    by_cases hc : c = child
    · rw [if_pos hc, hc]
      by_cases hother : other = name
      · simp [hother]
      · rw [if_neg hother]
        constructor
        · exact fun hmem => absurd hmem (hfree other)
        · intro heq
          exact absurd (Option.some.inj (Option.some.inj heq)).symm hother
    · rw [if_neg hc, ← h.children]
      by_cases hother : other = name
      · rw [if_pos hother, hother, List.mem_append, List.mem_singleton, or_iff_left hc]
      · rw [if_neg hother]

theorem Linked.removeChild (h : Linked rib) (hchild : parentOf rib child = some (some name)) :
    Linked (rib.removeChild name child) := by
  refine ⟨?_, ?_⟩
  · intro other
    rw [childrenOf_removeChild]
    split
    · exact (h.nodup name).filter _
    · exact h.nodup other
  · intro other c
    rw [childrenOf_removeChild, parentOf_removeChild (mem_of_parentOf hchild)]
    by_cases hc : c = child
    · rw [if_pos hc, hc]
      by_cases hother : other = name
      · simp [hother]
      · rw [if_neg hother, h.children, hchild]
        constructor
        · intro heq
          exact absurd (Option.some.inj (Option.some.inj heq)).symm hother
        · intro heq
          cases heq
    · rw [if_neg hc, ← h.children]
      by_cases hother : other = name
      · rw [if_pos hother, hother, List.mem_filter]
        simp [hc]
      · rw [if_neg hother]

theorem names_modifyEntry {f : RibEntry → RibEntry} (hf : ∀ entry, (f entry).m_name = entry.m_name) :
    names (rib.modifyEntry name f) = names rib := by
  rw [names, names, Rib.modifyEntry, List.map_map]
  refine List.map_congr_left fun entry _ => ?_
  simp only [Function.comp_apply]
  split
  · exact hf entry
  · rfl

theorem names_addChild (rib : Rib) (name child : Name) : names (rib.addChild name child) = names rib := by
  refine (names_modifyEntry ?_).trans (names_modifyEntry ?_)
  · exact fun _ => rfl
  · exact fun _ => rfl

theorem names_removeChild (rib : Rib) (name child : Name) : names (rib.removeChild name child) = names rib := by
  refine (names_modifyEntry ?_).trans (names_modifyEntry ?_)
  · exact fun _ => rfl
  · exact fun _ => rfl

theorem mem_of_names (h : names rib' = names rib) : Mem rib' name ↔ Mem rib name := by
  rw [mem_iff_names, mem_iff_names, h]

/-- A RIB with the same names, where the entries in `which` have another parent. -/
structure Moves (rib rib' : Rib) (which : Name → Prop) (parent : Option Name) : Prop where
  linked : Linked rib'
  names : names rib' = names rib
  moved : ∀ name, which name → parentOf rib' name = some parent
  kept : ∀ name, ¬ which name → parentOf rib' name = parentOf rib name

theorem Moves.refl (h : Linked rib) (parent : Option Name) : Moves rib rib (fun _ => False) parent :=
  ⟨h, rfl, fun _ hmoved => hmoved.elim, fun _ _ => rfl⟩

theorem Linked.detach (h : Linked rib) {parent : Option Name} (hchild : parentOf rib child = some parent) :
    Moves rib (rib.withParent parent (fun parent rib => rib.removeChild parent child)) (fun name => name = child) none := by
  cases parent with
  | none =>
    refine ⟨h, rfl, ?_, fun _ _ => rfl⟩
    rintro name rfl
    exact hchild
  | some p =>
    refine ⟨h.removeChild hchild, names_removeChild rib p child, ?_, ?_⟩
    · intro name hname
      exact (parentOf_removeChild (mem_of_parentOf hchild)).trans (if_pos hname)
    · intro name hname
      exact (parentOf_removeChild (mem_of_parentOf hchild)).trans (if_neg hname)

theorem Linked.attach (h : Linked rib) (parent : Option Name) (hchild : parentOf rib child = some none)
    (hparent : ∀ p, parent = some p → Mem rib p) :
    Moves rib (rib.withParent parent (fun parent rib => rib.addChild parent child)) (fun name => name = child) parent := by
  cases parent with
  | none =>
    refine ⟨h, rfl, ?_, fun _ _ => rfl⟩
    rintro name rfl
    exact hchild
  | some p =>
    refine ⟨h.addChild (hparent p rfl) hchild, names_addChild rib p child, ?_, ?_⟩
    · intro name hname
      exact (parentOf_addChild (mem_of_parentOf hchild)).trans (if_pos hname)
    · intro name hname
      exact (parentOf_addChild (mem_of_parentOf hchild)).trans (if_neg hname)

theorem Linked.adoptChildren (h : Linked rib) (parent : Option Name) (hname : Mem rib name) (children : List RibEntry)
    (hnodup : (children.map RibEntry.m_name).Nodup)
    (hchildren : ∀ entry ∈ children, parentOf rib entry.m_name = some entry.m_parent) :
    Moves rib (Rib.adoptChildren name parent children rib)
      (fun other => ∃ entry ∈ children, entry.m_name = other ∧ entry.m_parent = parent) (some name) := by
  induction children generalizing rib with
  | nil =>
    refine ⟨h, rfl, ?_, fun _ _ => rfl⟩
    rintro other ⟨entry, hentry, -⟩
    exact absurd hentry List.not_mem_nil
  | cons child children ih =>
    rw [List.map_cons, List.nodup_cons] at hnodup
    have hchild := hchildren child List.mem_cons_self
    have hne : ∀ entry ∈ children, entry.m_name ≠ child.m_name := by
      intro entry hentry heq
      exact hnodup.1 (heq ▸ List.mem_map_of_mem hentry)
    rw [Rib.adoptChildren]
    by_cases hparent : child.m_parent = parent
    · rw [if_pos hparent]
      rw [hparent] at hchild
      have hdetached := h.detach hchild
      have hname₁ := (mem_of_names hdetached.names).mpr hname
      have hnone := hdetached.moved child.m_name rfl
      have hlinked₂ := hdetached.linked.addChild hname₁ hnone
      generalize hrib₁ : rib.withParent parent (fun parent rib => rib.removeChild parent child.m_name) = rib₁ at *
      have hparents : ∀ other, parentOf (rib₁.addChild name child.m_name) other =
          if other = child.m_name then some (some name) else parentOf rib other := by
        intro other
        rw [parentOf_addChild (mem_of_parentOf hnone)]
        split
        · rfl
        · rename_i hother
          exact hdetached.kept other hother
      have hrest := ih hlinked₂ ((mem_of_names (names_addChild rib₁ name child.m_name)).mpr hname₁) hnodup.2 (by
        intro entry hentry
        rw [hparents, if_neg (hne entry hentry)]
        exact hchildren entry (List.mem_cons_of_mem _ hentry))
      refine ⟨hrest.linked, hrest.names.trans ((names_addChild rib₁ name child.m_name).trans hdetached.names), ?_, ?_⟩
      · rintro other ⟨entry, hentry, hother, hp⟩
        rcases List.mem_cons.mp hentry with rfl | hentry
        · rw [hrest.kept other, hparents, if_pos hother.symm]
          rintro ⟨entry', hentry', hother', -⟩
          exact hne entry' hentry' (hother'.trans hother.symm)
        · exact hrest.moved other ⟨entry, hentry, hother, hp⟩
      · intro other hother
        rw [hrest.kept other, hparents, if_neg]
        · rintro rfl
          exact hother ⟨child, List.mem_cons_self, rfl, hparent⟩
        · rintro ⟨entry, hentry, hmoved⟩
          exact hother ⟨entry, List.mem_cons_of_mem _ hentry, hmoved⟩
    · rw [if_neg hparent]
      have hrest := ih h hname hnodup.2 fun entry hentry => hchildren entry (List.mem_cons_of_mem _ hentry)
      refine ⟨hrest.linked, hrest.names, ?_, ?_⟩
      · rintro other ⟨entry, hentry, hother, hp⟩
        rcases List.mem_cons.mp hentry with rfl | hentry
        · exact absurd hp hparent
        · exact hrest.moved other ⟨entry, hentry, hother, hp⟩
      · intro other hother
        refine hrest.kept other ?_
        rintro ⟨entry, hentry, hmoved⟩
        exact hother ⟨entry, List.mem_cons_of_mem _ hentry, hmoved⟩

theorem Linked.releaseChildren (h : Linked rib) (name : Name) (parent : Option Name)
    (hparent : ∀ p, parent = some p → Mem rib p)
    (children : List Name) (hnodup : children.Nodup)
    (hchildren : ∀ child ∈ children, parentOf rib child = some (some name)) :
    Moves rib (Rib.releaseChildren name parent children rib) (fun other => other ∈ children) parent := by
  induction children generalizing rib with
  | nil => exact ⟨h, rfl, fun _ hmem => absurd hmem List.not_mem_nil, fun _ _ => rfl⟩
  | cons child children ih =>
    rw [List.nodup_cons] at hnodup
    have hdetached := h.detach (hchildren child List.mem_cons_self)
    have hattached := hdetached.linked.attach parent (hdetached.moved child rfl)
      fun p hp => (mem_of_names hdetached.names).mpr (hparent p hp)
    rw [Rib.releaseChildren]
    change Moves rib (Rib.releaseChildren name parent children ((rib.withParent (some name)
      (fun parent rib => rib.removeChild parent child)).withParent parent (fun parent rib => rib.addChild parent child))) _ _
    have hnames := hattached.names.trans hdetached.names
    have hkept : ∀ other, other ≠ child → parentOf _ other = parentOf rib other :=
      fun other hother => (hattached.kept other hother).trans (hdetached.kept other hother)
    have hrest := ih hattached.linked (fun p hp => (mem_of_names hnames).mpr (hparent p hp)) hnodup.2 (by
      intro other hother
      rw [hkept other fun heq => hnodup.1 (heq ▸ hother)]
      exact hchildren other (List.mem_cons_of_mem _ hother))
    refine ⟨hrest.linked, hrest.names.trans hnames, ?_, ?_⟩
    · intro other hother
      rcases List.mem_cons.mp hother with rfl | hother
      · rw [hrest.kept other hnodup.1]
        exact hattached.moved other rfl
      · exact hrest.moved other hother
    · intro other hother
      rw [hrest.kept other fun hmem => hother (List.mem_cons_of_mem _ hmem)]
      exact hkept other fun heq => hother (heq ▸ List.mem_cons_self)

end Links

section Trees

variable {rib rib' : Rib} {name child other : Name}

structure Tree (rib : Rib) : Prop where
  nodup : (names rib).Nodup
  linked : Linked rib
  parent : ∀ name parent, parentOf rib name = some parent → IsParent (Mem rib) name parent

theorem find_eq_some (h : (names rib).Nodup) {entry : RibEntry} :
    rib.find name = some entry ↔ entry ∈ rib.m_rib ∧ entry.m_name = name := by
  constructor
  · intro hfind
    exact ⟨List.mem_of_find?_eq_some hfind, find_name hfind⟩
  · rintro ⟨hmem, rfl⟩
    have hsome : (rib.find entry.m_name).isSome = true := mem_iff_names.mpr (List.mem_map_of_mem hmem)
    obtain ⟨other, hother⟩ := Option.isSome_iff_exists.mp hsome
    rw [hother, List.inj_on_of_nodup_map h (List.mem_of_find?_eq_some hother) hmem (find_name hother)]

theorem findParentFrom_spec (rib : Rib) (name : Name) {i : ℕ} (hi : i ≤ name.length) :
    match rib.findParentFrom name i with
    | some entry => Under entry.m_name name ∧ Mem rib entry.m_name ∧
        ∀ q, Under q name → q.length < i → Mem rib q → q <+: entry.m_name
    | none => ∀ q, Under q name → q.length < i → ¬ Mem rib q := by
  induction i with
  | zero =>
    intro q _ hlt
    exact absurd hlt (Nat.not_lt_zero _)
  | succ i ih =>
    have htake : ∀ q, Under q name → q.length = i → q = name.take i := by
      intro q hq hlength
      rw [← hlength]
      exact hq.eq_take
    rw [Rib.findParentFrom]
    cases hfind : rib.find (name.take i) with
    | some entry =>
      dsimp only
      have hname := find_name hfind
      rw [hname]
      refine ⟨under_take hi, by rw [Mem, hfind]; rfl, ?_⟩
      intro q hq hlt _
      exact List.prefix_take_iff.mpr ⟨hq.1, Nat.lt_succ_iff.mp hlt⟩
    | none =>
      dsimp only
      have hnone : ¬ Mem rib (name.take i) := by
        rw [Mem, hfind]
        exact Bool.false_ne_true
      have hrest := ih (Nat.le_of_succ_le hi)
      cases hparent : rib.findParentFrom name i with
      | some entry =>
        rw [hparent] at hrest
        refine ⟨hrest.1, hrest.2.1, ?_⟩
        intro q hq hlt hmem
        rcases Nat.lt_succ_iff_lt_or_eq.mp hlt with hlt | heq
        · exact hrest.2.2 q hq hlt hmem
        · exact absurd (htake q hq heq ▸ hmem) hnone
      | none =>
        rw [hparent] at hrest
        intro q hq hlt hmem
        rcases Nat.lt_succ_iff_lt_or_eq.mp hlt with hlt | heq
        · exact hrest q hq hlt hmem
        · exact hnone (htake q hq heq ▸ hmem)

theorem findParent_isParent (rib : Rib) (name : Name) :
    IsParent (Mem rib) name ((rib.findParent name).map RibEntry.m_name) := by
  have hspec := findParentFrom_spec rib name le_rfl
  unfold Rib.findParent
  cases hparent : rib.findParentFrom name name.length with
  | some entry =>
    rw [hparent] at hspec
    exact ⟨hspec.1, hspec.2.1, fun q hq hmem => hspec.2.2 q hq hq.length_lt hmem⟩
  | none =>
    rw [hparent] at hspec
    exact fun q hq => hspec q hq hq.length_lt

theorem Tree.not_own_parent (h : Tree rib) : parentOf rib name ≠ some (some name) :=
  fun heq => (h.parent name _ heq).1.2 rfl

theorem Tree.congr (h : Tree rib) (hnames : names rib' = names rib) (hparent : SameBy RibEntry.m_parent rib rib')
    (hchildren : SameBy RibEntry.m_children rib rib') : Tree rib' := by
  have hmem : Mem rib' = Mem rib := funext fun name => propext (mem_of_names hnames)
  have hparents : ∀ name, parentOf rib' name = parentOf rib name := hparent
  have hchildrens : ∀ name, childrenOf rib' name = childrenOf rib name := by
    intro name
    rw [childrenOf, hchildren name]
    rfl
  refine ⟨by rw [hnames]; exact h.nodup, ⟨?_, ?_⟩, ?_⟩
  · intro name
    rw [hchildrens]
    exact h.linked.nodup name
  · intro name child
    rw [hchildrens, hparents]
    exact h.linked.children name child
  · intro name parent hp
    rw [hparents] at hp
    rw [hmem]
    exact h.parent name parent hp

theorem Tree.modifyEntry (h : Tree rib) {f : RibEntry → RibEntry} (hname : ∀ entry, (f entry).m_name = entry.m_name)
    (hparent : ∀ entry, (f entry).m_parent = entry.m_parent)
    (hchildren : ∀ entry, (f entry).m_children = entry.m_children) (name : Name) : Tree (rib.modifyEntry name f) :=
  h.congr (names_modifyEntry hname) (SameBy.modifyEntry hname hparent name) (SameBy.modifyEntry hname hchildren name)

theorem insertRoute_parent (entry : RibEntry) (route : Route) :
    (entry.insertRoute route).m_parent = entry.m_parent := by
  unfold RibEntry.insertRoute
  split <;> rfl

theorem insertRoute_children (entry : RibEntry) (route : Route) :
    (entry.insertRoute route).m_children = entry.m_children := by
  unfold RibEntry.insertRoute
  split <;> rfl

theorem eraseRoute_parent (entry : RibEntry) (route : Route) : (entry.eraseRoute route).m_parent = entry.m_parent := by
  unfold RibEntry.eraseRoute
  split <;> rfl

theorem eraseRoute_children (entry : RibEntry) (route : Route) :
    (entry.eraseRoute route).m_children = entry.m_children := by
  unfold RibEntry.eraseRoute
  split <;> rfl

theorem Linked.append (h : Linked rib) {entry : RibEntry} (hnew : rib.find entry.m_name = none)
    (hparent : entry.m_parent = none) (hchildren : entry.m_children = []) (items : ℕ) :
    Linked { rib with m_rib := rib.m_rib ++ [entry], m_nItems := items } := by
  have hfind := find_append hnew items
  have hparents : ∀ name, parentOf { rib with m_rib := rib.m_rib ++ [entry], m_nItems := items } name =
      if name = entry.m_name then some none else parentOf rib name := by
    intro name
    rw [parentOf, hfind]
    split
    · rw [Option.map_some, hparent]
    · rfl
  have hchildrens : ∀ name, childrenOf { rib with m_rib := rib.m_rib ++ [entry], m_nItems := items } name =
      childrenOf rib name := by
    intro name
    rw [childrenOf, hfind]
    split
    · rename_i hname
      rw [hname, childrenOf, hnew, Option.map_some, hchildren]
      rfl
    · rfl
  refine ⟨fun name => ?_, fun name child => ?_⟩
  · rw [hchildrens]
    exact h.nodup name
  · rw [hchildrens, hparents, h.children]
    split
    · rename_i hchild
      rw [hchild, parentOf, hnew]
      constructor
      · rintro ⟨⟩
      · rintro ⟨⟩
    · rfl

theorem mem_findDescendants (hnodup : (names rib).Nodup) (hmem : Mem rib name) {entry : RibEntry} :
    entry ∈ rib.findDescendants name ↔ rib.find entry.m_name = some entry ∧ Under name entry.m_name := by
  have hsome : (rib.find name).isSome = true := hmem
  rw [Rib.findDescendants, if_pos hsome, List.mem_filter, find_eq_some hnodup, Bool.and_eq_true,
    List.isPrefixOf_iff_prefix, decide_eq_true_eq, and_iff_left rfl]
  exact and_congr_right fun _ => and_congr_right fun _ => ne_comm

theorem nodup_findDescendants (hnodup : (names rib).Nodup) (name : Name) :
    ((rib.findDescendants name).map RibEntry.m_name).Nodup := by
  refine List.Nodup.sublist (List.Sublist.map _ ?_) hnodup
  unfold Rib.findDescendants
  split
  · exact List.filter_sublist
  · exact List.nil_sublist _

/-- The parent of a new entry, and the RIB with the entry under it, before it
takes over the entries below it. -/
def attached (rib : Rib) (name : Name) (route : Route) : Option Name × Rib :=
  let entry := emptyEntry name
  let rib : Rib := { rib with m_rib := rib.m_rib ++ [entry.insertRoute route], m_nItems := rib.m_nItems + 1 }
  let parent := (rib.findParent name).map RibEntry.m_name
  (parent, rib.withParent parent (fun parent rib => rib.addChild parent name))

theorem insert_attached (hnew : rib.find name = none) (route : Route) :
    rib.insert name route =
      { Rib.adoptChildren name (attached rib name route).1 ((attached rib name route).2.findDescendants name)
          (attached rib name route).2 with
        m_faceMap := (rib.insert name route).m_faceMap } := by
  unfold Rib.insert
  rw [hnew]
  rfl

/-- What is known of a new entry before it takes over the entries below it. -/
structure Attached (rib : Rib) (name : Name) (parent : Option Name) (rib' : Rib) : Prop where
  isParent : IsParent (Mem rib) name parent
  linked : Linked rib'
  names : names rib' = names rib ++ [name]
  parent : parentOf rib' name = some parent
  kept : ∀ other, other ≠ name → parentOf rib' other = parentOf rib other

theorem Tree.attached (h : Tree rib) (hnew : rib.find name = none) (route : Route) :
    Attached rib name (attached rib name route).1 (RibTree.attached rib name route).2 := by
  let entry : RibEntry := (emptyEntry name).insertRoute route
  have hentry : entry.m_name = name := insertRoute_name _ route
  let rib₀ : Rib := { rib with m_rib := rib.m_rib ++ [entry], m_nItems := rib.m_nItems + 1 }
  have hfind₀ : ∀ other, rib₀.find other = if other = name then some entry else rib.find other := by
    intro other
    have hadded := @find_append rib entry (by rw [hentry]; exact hnew) (rib.m_nItems + 1) other
    rw [hentry] at hadded
    exact hadded
  have hlinked₀ : Linked rib₀ := h.linked.append (by rw [hentry]; exact hnew) (insertRoute_parent _ route)
    (insertRoute_children _ route) (rib.m_nItems + 1)
  have hnames₀ : RibTree.names rib₀ = RibTree.names rib ++ [name] := by
    rw [RibTree.names, List.map_append, List.map_singleton, hentry]
    rfl
  have hmem₀ : ∀ q, Mem rib₀ q ↔ Mem rib q ∨ q = name := by
    intro q
    rw [mem_iff_names, hnames₀, List.mem_append, List.mem_singleton, ← mem_iff_names]
  have hparent₀ : ∀ other, other ≠ name → parentOf rib₀ other = parentOf rib other := by
    intro other hother
    rw [parentOf, hfind₀, if_neg hother]
    rfl
  change Attached rib name ((rib₀.findParent name).map RibEntry.m_name)
    (rib₀.withParent ((rib₀.findParent name).map RibEntry.m_name) (fun parent rib => rib.addChild parent name))
  generalize hparent : (rib₀.findParent name).map RibEntry.m_name = parent
  have hisParent : IsParent (Mem rib) name parent := by
    have hold := findParent_isParent rib name
    have hnow := findParent_isParent rib₀ name
    rw [hparent] at hnow
    rw [hnow.unique (hold.insert_new hmem₀)]
    exact hold
  have hnone₀ : parentOf rib₀ name = some none := by
    rw [parentOf, hfind₀, if_pos rfl]
    exact congrArg some (insertRoute_parent _ route)
  have hattached := hlinked₀.attach parent hnone₀ (by
    rintro p rfl
    exact (hmem₀ p).mpr (Or.inl hisParent.2.1))
  exact ⟨hisParent, hattached.linked, hattached.names.trans hnames₀, hattached.moved name rfl,
    fun other hother => (hattached.kept other hother).trans (hparent₀ other hother)⟩

theorem Attached.nodup {parent : Option Name} (hattached : Attached rib name parent rib') (h : Tree rib)
    (hnew : rib.find name = none) : (RibTree.names rib').Nodup := by
  rw [hattached.names]
  refine List.nodup_append.mpr ⟨h.nodup, List.nodup_singleton name, ?_⟩
  rintro a ha b hb rfl
  rw [List.mem_singleton.mp hb] at ha
  have hmem : (rib.find name).isSome = true := mem_iff_names.mpr ha
  rw [hnew] at hmem
  cases hmem

theorem Attached.mem {parent : Option Name} (hattached : Attached rib name parent rib') (q : Name) :
    Mem rib' q ↔ Mem rib q ∨ q = name := by
  rw [mem_iff_names, hattached.names, List.mem_append, List.mem_singleton, ← mem_iff_names]

theorem Tree.adopt (h : Tree rib) (hnew : rib.find name = none) {parent : Option Name}
    (hattached : Attached rib name parent rib') {descendants : List RibEntry}
    (hdescendant : ∀ entry, entry ∈ descendants ↔ rib'.find entry.m_name = some entry ∧ Under name entry.m_name)
    (hdistinct : (descendants.map RibEntry.m_name).Nodup) : Tree (Rib.adoptChildren name parent descendants rib') := by
  have hfresh : ¬ Mem rib name := by
    rw [Mem, hnew]
    exact Bool.false_ne_true
  have hnodup := hattached.nodup h hnew
  have hmem' := hattached.mem
  obtain ⟨hisParent, hlinked, -, hparent, hkept⟩ := hattached
  have hadopted := hlinked.adoptChildren parent ((hmem' name).mpr (Or.inr rfl)) descendants hdistinct
    (by
      intro entry hentry
      rw [parentOf, ((hdescendant entry).mp hentry).1]
      rfl)
  have hmem : ∀ q, Mem (Rib.adoptChildren name parent descendants rib') q ↔ Mem rib q ∨ q = name :=
    fun q => (mem_of_names hadopted.names).trans (hmem' q)
  refine ⟨?_, hadopted.linked, ?_⟩
  · rw [hadopted.names]
    exact hnodup
  · intro other o ho
    by_cases hother : other = name
    · subst hother
      rw [hadopted.kept other, hparent] at ho
      · cases ho
        exact hisParent.insert_new hmem
      · rintro ⟨entry, hentry, hname, -⟩
        exact ((hdescendant entry).mp hentry).2.2 hname.symm
    · by_cases hmoved : ∃ entry ∈ descendants, entry.m_name = other ∧ entry.m_parent = parent
      · rw [hadopted.moved other hmoved] at ho
        cases ho
        obtain ⟨entry, hentry, rfl, hp⟩ := hmoved
        obtain ⟨hfind, hunder⟩ := (hdescendant entry).mp hentry
        have hold : parentOf rib entry.m_name = some parent := by
          rw [← hkept _ hother, parentOf, hfind, Option.map_some, hp]
        exact (h.parent _ _ hold).insert_between hmem hisParent hunder
      · rw [hadopted.kept other hmoved, hkept other hother] at ho
        by_cases hunder : Under name other
        · refine (h.parent _ _ ho).insert_above hfresh hmem hisParent ?_ hunder
          rintro rfl
          rw [← hkept other hother] at ho
          obtain ⟨entry, hentry, hp⟩ := Option.map_eq_some_iff.mp ho
          have hname := find_name hentry
          exact hmoved ⟨entry, (hdescendant entry).mpr (by rw [hname]; exact ⟨hentry, hunder⟩), hname, hp⟩
        · exact (h.parent _ _ ho).insert_other hmem hunder

theorem Tree.insert_new (h : Tree rib) (hnew : rib.find name = none) (route : Route) :
    Tree (rib.insert name route) := by
  have hattached := h.attached hnew route
  have hnodup := hattached.nodup h hnew
  have hadopted := h.adopt hnew hattached
    (fun entry => mem_findDescendants hnodup ((hattached.mem name).mpr (Or.inr rfl))) (nodup_findDescendants hnodup name)
  rw [insert_attached hnew]
  exact ⟨hadopted.nodup, ⟨hadopted.linked.nodup, hadopted.linked.children⟩, hadopted.parent⟩

theorem Tree.insert (h : Tree rib) (name : Name) (route : Route) : Tree (rib.insert name route) := by
  cases hfind : rib.find name with
  | none => exact h.insert_new hfind route
  | some entry =>
    have hinserted := h.modifyEntry (fun entry => insertRoute_name entry route)
      (fun entry => insertRoute_parent entry route) (fun entry => insertRoute_children entry route) name
    have hassigned := h.modifyEntry (f := fun entry => entry.assignRoute route) (fun _ => rfl) (fun _ => rfl)
      (fun _ => rfl) name
    unfold Rib.insert
    rw [hfind]
    dsimp only
    split
    · exact ⟨hinserted.nodup, ⟨hinserted.linked.nodup, hinserted.linked.children⟩, hinserted.parent⟩
    · exact hassigned

theorem parentOf_filter (rib : Rib) (name other : Name) :
    parentOf { rib with m_rib := rib.m_rib.filter (fun other => other.m_name ≠ name) } other =
      if other = name then none else parentOf rib other := by
  rw [parentOf, find_filter rib.m_faceMap rib.m_nItems other]
  split <;> rfl

theorem childrenOf_filter (rib : Rib) (name other : Name) :
    childrenOf { rib with m_rib := rib.m_rib.filter (fun other => other.m_name ≠ name) } other =
      if other = name then [] else childrenOf rib other := by
  rw [childrenOf, find_filter rib.m_faceMap rib.m_nItems other]
  split <;> rfl

theorem mem_filter (rib : Rib) (name other : Name) :
    Mem { rib with m_rib := rib.m_rib.filter (fun other => other.m_name ≠ name) } other ↔
      Mem rib other ∧ other ≠ name := by
  rw [Mem, find_filter rib.m_faceMap rib.m_nItems other]
  by_cases hother : other = name
  · simp [hother]
  · rw [if_neg hother, and_iff_left hother]
    rfl

theorem Linked.filter (h : Linked rib) (hnone : parentOf rib name = some none)
    (hleft : ∀ child, child ≠ name → parentOf rib child ≠ some (some name)) :
    Linked { rib with m_rib := rib.m_rib.filter (fun other => other.m_name ≠ name) } := by
  refine ⟨fun other => ?_, fun other child => ?_⟩
  · rw [childrenOf_filter]
    split
    · exact List.nodup_nil
    · exact h.nodup other
  · rw [childrenOf_filter, parentOf_filter]
    by_cases hother : other = name
    · rw [if_pos hother, hother]
      constructor
      · exact fun hmem => absurd hmem List.not_mem_nil
      · split
        · rintro ⟨⟩
        · rename_i hchild
          exact fun heq => absurd heq (hleft child hchild)
    · rw [if_neg hother, h.children]
      by_cases hchild : child = name
      · rw [if_pos hchild, hchild, hnone]
        constructor
        · rintro ⟨⟩
        · rintro ⟨⟩
      · rw [if_neg hchild]

/-- An entry that has given its children to its parent, before it is erased. -/
theorem Tree.eraseEntry_released (h : Tree rib) {entry : RibEntry} (hfind : rib.find name = some entry) :
    ∃ rib', Linked rib' ∧ names rib' = names rib ∧ parentOf rib' name = some none ∧
      (∀ child, parentOf rib child = some (some name) → parentOf rib' child = some entry.m_parent) ∧
      (∀ other, parentOf rib other ≠ some (some name) → other ≠ name → parentOf rib' other = parentOf rib other) ∧
      rib.eraseEntry name = { rib' with m_rib := rib'.m_rib.filter (fun other => other.m_name ≠ name) } := by
  have hparent : parentOf rib name = some entry.m_parent := by
    rw [parentOf, hfind]
    rfl
  have hchildren : childrenOf rib name = entry.m_children := by
    rw [childrenOf, hfind]
    rfl
  have hisParent := h.parent name _ hparent
  have hmem : ∀ child, child ∈ entry.m_children ↔ parentOf rib child = some (some name) := by
    intro child
    rw [← hchildren, h.linked.children]
  have hne : ∀ child ∈ entry.m_children, child ≠ name := by
    rintro child hchild rfl
    exact h.not_own_parent ((hmem child).mp hchild)
  have hdetached := h.linked.detach hparent
  have hreleased := hdetached.linked.releaseChildren name entry.m_parent
    (by
      intro p hp
      rw [hp] at hisParent
      exact (mem_of_names hdetached.names).mpr hisParent.2.1)
    entry.m_children (by rw [← hchildren]; exact h.linked.nodup name)
    (by
      intro child hchild
      rw [hdetached.kept child (hne child hchild)]
      exact (hmem child).mp hchild)
  refine ⟨_, hreleased.linked, hreleased.names.trans hdetached.names, ?_, ?_, ?_, ?_⟩
  · rw [hreleased.kept name fun hchild => hne name hchild rfl]
    exact hdetached.moved name rfl
  · exact fun child hchild => hreleased.moved child ((hmem child).mpr hchild)
  · intro other hchild hother
    rw [hreleased.kept other fun hin => hchild ((hmem other).mp hin), hdetached.kept other hother]
  · unfold Rib.eraseEntry
    rw [hfind]

theorem Tree.eraseEntry (h : Tree rib) (name : Name) : Tree (rib.eraseEntry name) := by
  cases hfind : rib.find name with
  | none =>
    unfold Rib.eraseEntry
    rw [hfind]
    exact h
  | some entry =>
    have hparent : parentOf rib name = some entry.m_parent := by
      rw [parentOf, hfind]
      rfl
    have hisParent := h.parent name _ hparent
    have hne : entry.m_parent ≠ some name := by
      intro heq
      rw [heq] at hparent
      exact h.not_own_parent hparent
    obtain ⟨rib', hlinked, hnames, hnone, hmoved, hkept, hrib⟩ := h.eraseEntry_released hfind
    have hmem : ∀ q, Mem { rib' with m_rib := rib'.m_rib.filter (fun other => other.m_name ≠ name) } q ↔
        Mem rib q ∧ q ≠ name := by
      intro q
      rw [mem_filter, mem_of_names hnames]
    rw [hrib]
    refine ⟨?_, hlinked.filter hnone ?_, ?_⟩
    · refine List.Nodup.sublist (List.Sublist.map _ List.filter_sublist) ?_
      change (names rib').Nodup
      rw [hnames]
      exact h.nodup
    · intro child hchild heq
      by_cases hold : parentOf rib child = some (some name)
      · rw [hmoved child hold] at heq
        exact hne (Option.some.inj heq)
      · rw [hkept child hold hchild] at heq
        exact hold heq
    · intro other o ho
      rw [parentOf_filter] at ho
      by_cases hother : other = name
      · rw [if_pos hother] at ho
        cases ho
      · rw [if_neg hother] at ho
        by_cases hold : parentOf rib other = some (some name)
        · rw [hmoved other hold] at ho
          cases ho
          exact (h.parent other _ hold).remove_parent hmem hisParent
        · rw [hkept other hold hother] at ho
          refine (h.parent other o ho).remove_other hmem ?_
          rintro rfl
          exact hold ho

theorem Tree.erase (h : Tree rib) (name : Name) (route : Route) : Tree (rib.erase name route) := by
  have hmodified := h.modifyEntry (fun entry => eraseRoute_name entry route)
    (fun entry => eraseRoute_parent entry route) (fun entry => eraseRoute_children entry route) name
  have hcongr : ∀ items faceMap, Tree ⟨(rib.modifyEntry name (fun entry => entry.eraseRoute route)).m_rib, items, faceMap⟩ :=
    fun _ _ => ⟨hmodified.nodup, ⟨hmodified.linked.nodup, hmodified.linked.children⟩, hmodified.parent⟩
  unfold Rib.erase
  cases hfind : rib.find name with
  | none => exact h
  | some entry =>
    dsimp only
    split
    · exact h
    · split
      · split
        · exact (hcongr _ _).eraseEntry name
        · exact (hcongr _ _).eraseEntry name
      · split
        · exact hcongr _ _
        · exact hcongr _ _

theorem Tree.updateRib (h : Tree rib) (update : RibUpdate) : Tree (updateRib update rib) := by
  unfold FibUpdater.updateRib
  split
  · exact h.insert update.name update.route
  · exact h.erase update.name update.route

theorem Tree.modifyInheritedRoutes (h : Tree rib) (inheritedRoutes : List RibUpdate) :
    Tree (modifyInheritedRoutes inheritedRoutes rib) := by
  induction inheritedRoutes generalizing rib with
  | nil => exact h
  | cons update inheritedRoutes ih =>
    refine ih ?_
    dsimp only
    split
    · exact h.modifyEntry (f := fun entry => entry.addInheritedRoute update.route) (fun _ => rfl) (fun _ => rfl)
        (fun _ => rfl) update.name
    · exact h.modifyEntry (f := fun entry => entry.removeInheritedRoute update.route) (fun _ => rfl) (fun _ => rfl)
        (fun _ => rfl) update.name
    · exact h

end Trees

end LeoNdn.RibTree
