import Mathlib.Logic.Relation
import LeoNdn.NameTreeHashtable

/-!
What the name tree holds after any sequence of its calls, and what
`eraseIfEmpty` takes from it.
-/

namespace LeoNdn.NameTreeContents

open LeoNdn.NameTree LeoNdn.NameTreeHashtable

variable {κ τ : Type}

section Leaves

variable {maxDepth : ℕ} {tree : Tree κ τ} {name : List κ} {entry : NameTree.Entry κ τ}

theorem isSome_of_shorter (hwf : WellFormed maxDepth tree) {shorter : List κ} (hsome : (tree name).isSome)
    (hle : shorter <+: name) : (tree shorter).isSome := by
  rw [List.prefix_iff_eq_take.mp hle]
  exact isSome_take hwf hsome _

theorem eq_of_leaf (hwf : WellFormed maxDepth tree) (hentry : tree name = some entry) (hleaf : entry.m_children = [])
    {longer : List κ} (hsome : (tree longer).isSome) (hle : name <+: longer) : longer = name := by
  by_contra hne
  obtain ⟨rest, rfl⟩ := hle
  cases rest with
  | nil => exact hne (List.append_nil name)
  | cons comp rest =>
    have hchild : (tree (name ++ [comp])).isSome :=
      isSome_of_shorter hwf hsome ⟨rest, by rw [List.append_assoc, List.singleton_append]⟩
    have hmem := (hwf.mem_children hentry (name ++ [comp])).mpr ⟨by simp, List.dropLast_concat, hchild⟩
    rw [hleaf] at hmem
    exact List.not_mem_nil hmem

end Leaves

section Erase

/-- At the name and below it there are only nodes without tables, up to the one that is given up. -/
def LeftEmpty (hasTableEntries : τ → Bool) (tree : Tree κ τ) (canEraseAncestors : Bool) (name shorter : List κ) : Prop :=
  shorter <+: name ∧ (canEraseAncestors = true ∨ shorter = name) ∧ ∀ other entry, tree other = some entry →
    shorter <+: other → other <+: name ∧ hasTableEntries entry.tables = false

variable {hasTableEntries : τ → Bool} {canEraseAncestors : Bool} {maxDepth : ℕ} {tree : Tree κ τ} {name shorter : List κ}
  {entry : NameTree.Entry κ τ}

theorem not_leftEmpty (hwf : WellFormed maxDepth tree) (hentry : tree name = some entry)
    (hnot : ¬ (entry.m_children = [] ∧ hasTableEntries entry.tables = false)) :
    ¬ LeftEmpty hasTableEntries tree canEraseAncestors name shorter := by
  rintro ⟨hle, -, hbelow⟩
  refine hnot ⟨?_, (hbelow name entry hentry hle).2⟩
  rw [List.eq_nil_iff_forall_not_mem]
  intro child hmem
  obtain ⟨hne, hdrop, hsome⟩ := (hwf.mem_children hentry child).mp hmem
  obtain ⟨object, hobject⟩ := Option.isSome_iff_exists.mp hsome
  have hparent : name <+: child := hdrop ▸ List.dropLast_prefix child
  have hlength := (hbelow child object hobject (hle.trans hparent)).1.length_le
  have hpos := List.length_pos_iff.mpr hne
  rw [← hdrop, List.length_dropLast] at hlength
  omega

theorem leftEmpty_self (hwf : WellFormed maxDepth tree) (hentry : tree name = some entry)
    (hempty : entry.m_children = [] ∧ hasTableEntries entry.tables = false) :
    LeftEmpty hasTableEntries tree canEraseAncestors name name := by
  refine ⟨List.prefix_rfl, Or.inr rfl, fun other object hobject hle => ?_⟩
  obtain rfl := eq_of_leaf hwf hentry hempty.1 (by rw [hobject]; rfl) hle
  rw [hentry] at hobject
  exact ⟨List.prefix_rfl, Option.some.inj hobject ▸ hempty.2⟩

variable [DecidableEq κ]

theorem removeNode_tables (hwf : WellFormed maxDepth tree) (hentry : tree name = some entry) {other : List κ}
    (hne : other ≠ name) : (removeNode tree entry other).map NameTree.Entry.tables = (tree other).map NameTree.Entry.tables := by
  rw [removeNode_eq hwf hentry, if_neg hne]
  split
  · rw [Option.map_map]
    rfl
  · rfl

theorem leftEmpty_removeNode (hwf : WellFormed maxDepth tree) (hentry : tree name = some entry)
    (hempty : entry.m_children = [] ∧ hasTableEntries entry.tables = false) (hne : shorter ≠ name) :
    LeftEmpty hasTableEntries (removeNode tree entry) true name.dropLast shorter ↔
      LeftEmpty hasTableEntries tree true name shorter := by
  have htables : ∀ {other object}, other ≠ name → (tree other = some object → ∃ object',
      removeNode tree entry other = some object' ∧ object'.tables = object.tables) := by
    intro other object hne hobject
    have hmap := removeNode_tables hwf hentry hne
    rw [hobject] at hmap
    exact Option.map_eq_some_iff.mp hmap
  constructor
  · rintro ⟨hle, -, hbelow⟩
    refine ⟨hle.trans (List.dropLast_prefix name), Or.inl rfl, fun other object hobject hother => ?_⟩
    by_cases heq : other = name
    · subst heq
      rw [hentry] at hobject
      exact ⟨List.prefix_rfl, Option.some.inj hobject ▸ hempty.2⟩
    · obtain ⟨object', hobject', hsame⟩ := htables heq hobject
      obtain ⟨hle', hnone⟩ := hbelow other object' hobject' hother
      exact ⟨hle'.trans (List.dropLast_prefix name), hsame ▸ hnone⟩
  · rintro ⟨hle, -, hbelow⟩
    refine ⟨prefix_dropLast hle hne, Or.inl rfl, fun other object hobject hother => ?_⟩
    obtain ⟨heq, old, hold, rfl⟩ := removeNode_cases hwf hentry hobject
    obtain ⟨hle', hnone⟩ := hbelow other old hold hother
    refine ⟨prefix_dropLast hle' heq, ?_⟩
    split <;> exact hnone

theorem eraseLoop_isSome (hasTableEntries : τ → Bool) (canEraseAncestors : Bool) (hwf : WellFormed maxDepth tree)
    {rounds : ℕ} (hrounds : name.length < rounds) (hsome : (tree name).isSome) (shorter : List κ) :
    (NameTree.eraseLoop hasTableEntries canEraseAncestors rounds tree (some name) shorter).isSome ↔
      (tree shorter).isSome ∧ ¬ LeftEmpty hasTableEntries tree canEraseAncestors name shorter := by
  induction rounds generalizing tree name with
  | zero => exact absurd hrounds (Nat.not_lt_zero _)
  | succ rounds ih =>
    obtain ⟨entry, hentry⟩ := Option.isSome_iff_exists.mp hsome
    simp only [NameTree.eraseLoop, hentry]
    by_cases hempty : entry.m_children = [] ∧ hasTableEntries entry.tables = false
    · rw [if_pos hempty]
      have hwf' := wellFormed_removeNode hwf hentry hempty.1
      have hgone : ∀ only : Bool, shorter = name → ¬ ((tree shorter).isSome ∧
          ¬ LeftEmpty hasTableEntries tree only name shorter) := by
        rintro only rfl ⟨-, hnot⟩
        exact hnot (leftEmpty_self hwf hentry hempty)
      cases hcan : canEraseAncestors with
      | false =>
        rw [if_neg Bool.false_ne_true, removeNode_isSome hwf hentry]
        refine and_congr_right fun _ => not_congr ⟨?_, ?_⟩
        · rintro rfl
          exact leftEmpty_self hwf hentry hempty
        · rintro ⟨-, hself, -⟩
          exact hself.resolve_left Bool.false_ne_true
      | true =>
        rw [if_pos rfl, hwf.parent_eq hentry]
        by_cases hnil : name = []
        · subst hnil
          rw [if_pos rfl]
          have hloop : NameTree.eraseLoop hasTableEntries true rounds (removeNode tree entry) none = removeNode tree entry := by
            cases rounds <;> rfl
          rw [hloop, removeNode_isSome hwf hentry]
          refine and_congr_right fun _ => not_congr ⟨?_, ?_⟩
          · rintro rfl
            exact leftEmpty_self hwf hentry hempty
          · rintro ⟨hle, -, -⟩
            exact List.prefix_nil.mp hle
        · rw [if_neg hnil]
          have hparent : (removeNode tree entry name.dropLast).isSome :=
            (removeNode_isSome hwf hentry _).mpr ⟨hwf.parent_isSome hsome, dropLast_ne hnil⟩
          have hpos := List.length_pos_iff.mpr hnil
          rw [hcan] at ih
          rw [ih hwf' (by rw [List.length_dropLast]; omega) hparent, removeNode_isSome hwf hentry]
          by_cases heq : shorter = name
          · exact iff_of_false (fun h => h.1.2 heq) (hgone true heq)
          · rw [leftEmpty_removeNode hwf hentry hempty heq, and_iff_left heq]
    · rw [if_neg hempty]
      exact (and_iff_left (not_leftEmpty hwf hentry hempty)).symm

end Erase

section Contents

def HasName (ht : Hashtable κ τ) (name : List κ) (i : ℕ) : Prop := ∃ node, ht.nodes i = some node ∧ node.m_name = name

variable [DecidableEq κ] (options : HashtableOptions) (compute : κ → ℕ) (noTables : τ) (hasTableEntries : τ → Bool)
  (maxDepth : ℕ)

structure Consistent (ht : Hashtable κ τ) : Prop where
  prefixes : ∀ {name i}, HasName ht name i → ∀ shorter, shorter <+: name → ∃ j, HasName ht shorter j
  unique : ∀ {name i j}, HasName ht name i → HasName ht name j → i = j
  stored : ∀ i, ht.m_buckets.flatten.count i = if (ht.nodes i).isSome then 1 else 0
  root : ∀ {i node}, ht.nodes i = some node → node.m_name = [] → node.m_parent = none
  parent : ∀ {i node}, ht.nodes i = some node → node.m_name ≠ [] → ∃ j parent, node.m_parent = some j ∧
    ht.nodes j = some parent ∧ parent.m_name = node.m_name.dropLast ∧ parent.m_children.count i = 1
  children : ∀ {i node j}, ht.nodes i = some node → j ∈ node.m_children →
    ∃ child, ht.nodes j = some child ∧ child.m_parent = some i
  found : ∀ {name prefixLen i},
    ht.findExactMatch options compute noTables maxDepth name prefixLen = some i ↔ HasName ht (name.take prefixLen) i

/-- A node of a prefix of the name of `entry` below which, up to `entry`, nothing has table entries. -/
def LeftEmptyNode (ht : Hashtable κ τ) (entry : ℕ) (canEraseAncestors : Bool) (i : ℕ) : Prop :=
  ∃ node object, ht.nodes entry = some node ∧ ht.nodes i = some object ∧ object.m_name <+: node.m_name ∧
    (canEraseAncestors = true ∨ i = entry) ∧ ∀ j other, ht.nodes j = some other → object.m_name <+: other.m_name →
      other.m_name <+: node.m_name ∧ hasTableEntries other.tables = false

/-- Exactly those nodes are gone, the others are as before but for their children, and with the
ancestors none on the way up is left without table entries and children. -/
structure ErasesExactly (ht erased : Hashtable κ τ) (entry : ℕ) (canEraseAncestors : Bool) : Prop where
  removed : ∀ {i}, (ht.nodes i).isSome → (erased.nodes i = none ↔ LeftEmptyNode hasTableEntries ht entry canEraseAncestors i)
  kept : ∀ {i object}, erased.nodes i = some object → ∃ old, ht.nodes i = some old ∧ object.m_name = old.m_name ∧
    object.tables = old.tables ∧ object.m_parent = old.m_parent
  not_left : canEraseAncestors = true → ∀ {node i object}, ht.nodes entry = some node → erased.nodes i = some object →
    object.m_name <+: node.m_name → ¬ (object.m_children = [] ∧ hasTableEntries object.tables = false)

inductive Call (ht : Hashtable κ τ) : Hashtable κ τ → Prop where
  | lookup (name : List κ) (prefixLen : ℕ) : prefixLen ≤ name.length → prefixLen ≤ maxDepth →
      Call ht (ht.lookup options compute noTables name prefixLen).1
  | setTables (entry : ℕ) (f : τ → τ) : (ht.nodes entry).isSome → Call ht (ht.setTables entry f)
  | eraseIfEmpty (entry : ℕ) (canEraseAncestors : Bool) : (ht.nodes entry).isSome →
      Call ht (ht.eraseIfEmpty options hasTableEntries entry canEraseAncestors)

def Calls : Hashtable κ τ → Hashtable κ τ → Prop := Relation.ReflTransGen (Call options compute noTables hasTableEntries maxDepth)

variable {options compute noTables hasTableEntries maxDepth} {ht ht' : Hashtable κ τ} {tree : Tree κ τ}

theorem represents_call (hrep : Represents compute ht tree) (hwf : WellFormed maxDepth tree)
    (hcall : Call options compute noTables hasTableEntries maxDepth ht ht') :
    ∃ tree', Represents compute ht' tree' ∧ WellFormed maxDepth tree' := by
  cases hcall with
  | lookup name prefixLen hname hdepth => exact ⟨_, (lookup_spec hrep hname).1, wellFormed_lookup hwf hname hdepth⟩
  | setTables entry f hsome =>
    obtain ⟨node, hnode⟩ := Option.isSome_iff_exists.mp hsome
    exact ⟨_, setTables_spec hrep hnode f, wellFormed_setTables hwf⟩
  | eraseIfEmpty entry canEraseAncestors hsome =>
    obtain ⟨node, hnode⟩ := Option.isSome_iff_exists.mp hsome
    exact ⟨_, eraseIfEmpty_spec options hasTableEntries canEraseAncestors hrep hwf hnode, wellFormed_eraseLoop hwf _ _⟩

theorem represents_calls (hcalls : Calls options compute noTables hasTableEntries maxDepth (Hashtable.initial options) ht) :
    ∃ tree, Represents compute ht tree ∧ WellFormed maxDepth tree := by
  induction hcalls with
  | refl => exact ⟨_, represents_initial options, wellFormed_empty maxDepth⟩
  | tail _ hcall ih =>
    obtain ⟨tree, hrep, hwf⟩ := ih
    exact represents_call hrep hwf hcall

theorem consistent (hrep : Represents compute ht tree) (hwf : WellFormed maxDepth tree) :
    Consistent options compute noTables maxDepth ht where
  prefixes hname shorter hle := (hrep.isSome_iff shorter).mp (isSome_of_shorter hwf ((hrep.isSome_iff _).mpr ⟨_, hname⟩) hle)
  unique := by
    rintro name i j ⟨node, hnode, rfl⟩ ⟨other, hother, hname⟩
    exact hrep.unique hnode hother hname.symm
  stored i := by
    rw [hrep.chained.nodup_flatten.count]
    simp only [hrep.chained.mem_flatten]
  root := by
    intro i node hnode hnil
    obtain ⟨entry, hentry, hshows⟩ := hrep.shows hnode
    have hparent := hshows.parent
    rw [hwf.parent_eq hentry, if_pos hnil] at hparent
    exact Option.map_eq_none_iff.mp hparent
  parent := by
    intro i node hnode hne
    obtain ⟨entry, hentry, hshows⟩ := hrep.shows hnode
    obtain ⟨j, parent, hparent, hname⟩ := hrep.complete (hwf.parent_isSome (by rw [hentry]; rfl))
    refine ⟨j, parent, (hrep.parent_iff hwf hnode hparent).mpr ⟨hne, hname.symm⟩, hparent, hname, ?_⟩
    exact List.count_eq_one_of_mem (hrep.nodup_children hwf hparent)
      ((hrep.child_iff hwf hparent hnode).mpr ⟨hne, hname.symm⟩)
  children := by
    intro i node j hnode hchild
    obtain ⟨entry, hentry, hshows⟩ := hrep.shows hnode
    obtain ⟨child, hsome⟩ := Option.isSome_iff_exists.mp (hshows.isSome_child hchild)
    exact ⟨child, hsome, (hrep.parent_iff hwf hsome hnode).mpr ((hrep.child_iff hwf hnode hsome).mp hchild)⟩
  found := findExactMatch_iff hrep hwf

variable {canEraseAncestors : Bool} {entry i : ℕ} {node object : Node κ τ}

omit [DecidableEq κ] in
theorem leftEmptyNode_iff (hrep : Represents compute ht tree) (hnode : ht.nodes entry = some node)
    (hobject : ht.nodes i = some object) : LeftEmptyNode hasTableEntries ht entry canEraseAncestors i ↔
      LeftEmpty hasTableEntries tree canEraseAncestors node.m_name object.m_name := by
  have hself : i = entry ↔ object.m_name = node.m_name := by
    constructor
    · rintro rfl
      rw [hobject] at hnode
      rw [Option.some.inj hnode]
    · exact hrep.unique hobject hnode
  constructor
  · rintro ⟨node', object', hnode', hobject', hle, hcan, hbelow⟩
    obtain rfl := Option.some.inj (hnode.symm.trans hnode')
    obtain rfl := Option.some.inj (hobject.symm.trans hobject')
    refine ⟨hle, hcan.imp_right hself.mp, fun other shown hshown hother => ?_⟩
    obtain ⟨j, below, hj, rfl⟩ := hrep.complete (by rw [hshown]; rfl)
    obtain ⟨shown', hshown', hshows⟩ := hrep.shows hj
    obtain rfl := Option.some.inj (hshown.symm.trans hshown')
    rw [hshows.tables]
    exact hbelow j below hj hother
  · rintro ⟨hle, hcan, hbelow⟩
    refine ⟨node, object, hnode, hobject, hle, hcan.imp_right hself.mpr, fun j below hj hother => ?_⟩
    obtain ⟨shown, hshown, hshows⟩ := hrep.shows hj
    rw [← hshows.tables]
    exact hbelow below.m_name shown hshown hother

theorem eraseIfEmpty_eq_none_iff (options : HashtableOptions) (hasTableEntries : τ → Bool) (canEraseAncestors : Bool)
    (hrep : Represents compute ht tree) (hwf : WellFormed maxDepth tree)
    (hnode : ht.nodes entry = some node) (hobject : ht.nodes i = some object) :
    (ht.eraseIfEmpty options hasTableEntries entry canEraseAncestors).nodes i = none ↔
      LeftEmptyNode hasTableEntries ht entry canEraseAncestors i := by
  have hrep' := eraseIfEmpty_spec options hasTableEntries canEraseAncestors hrep hwf hnode
  have hsome : (tree node.m_name).isSome := (hrep.isSome_iff _).mpr ⟨entry, node, hnode, rfl⟩
  have hsome' : (tree object.m_name).isSome := (hrep.isSome_iff _).mpr ⟨i, object, hobject, rfl⟩
  have hiff := eraseLoop_isSome hasTableEntries canEraseAncestors hwf
    (Nat.lt_succ_self node.m_name.length) hsome object.m_name
  have hsame : ((ht.eraseIfEmpty options hasTableEntries entry canEraseAncestors).nodes i).isSome ↔
      (NameTree.eraseIfEmpty hasTableEntries tree node.m_name canEraseAncestors object.m_name).isSome := by
    rw [hrep'.isSome_iff]
    constructor
    · intro h
      obtain ⟨object', hobject'⟩ := Option.isSome_iff_exists.mp h
      obtain ⟨old, hold, hname, -, -⟩ := eraseLoop_nodes _ _ hobject'
      obtain rfl := Option.some.inj (hobject.symm.trans hold)
      exact ⟨i, object', hobject', hname⟩
    · rintro ⟨j, object', hobject', hname⟩
      obtain ⟨old, hold, hname', -, -⟩ := eraseLoop_nodes _ _ hobject'
      obtain rfl := hrep.unique hold hobject (hname'.symm.trans hname)
      rw [hobject']
      rfl
  rw [leftEmptyNode_iff hrep hnode hobject, ← Option.not_isSome_iff_eq_none, hsame, NameTree.eraseIfEmpty, hiff,
    and_iff_right hsome', not_not]

theorem erasesExactly (hrep : Represents compute ht tree) (hwf : WellFormed maxDepth tree)
    (hnode : ht.nodes entry = some node) : ErasesExactly hasTableEntries ht
      (ht.eraseIfEmpty options hasTableEntries entry canEraseAncestors) entry canEraseAncestors := by
  refine ⟨?_, fun hobject => eraseLoop_nodes _ _ hobject, ?_⟩
  · intro i hsome
    obtain ⟨object, hobject⟩ := Option.isSome_iff_exists.mp hsome
    exact eraseIfEmpty_eq_none_iff options hasTableEntries canEraseAncestors hrep hwf hnode hobject
  · rintro rfl node' i object hnode' hobject hle ⟨hleaf, hnone⟩
    obtain rfl := Option.some.inj (hnode.symm.trans hnode')
    have hrep' := eraseIfEmpty_spec options hasTableEntries true hrep hwf hnode
    obtain ⟨shown, hshown, hshows⟩ := hrep'.shows hobject
    obtain ⟨old, hold, hname, htables, -⟩ := eraseLoop_nodes _ _ hobject
    have hgone := eraseIfEmpty_eq_none_iff options hasTableEntries true hrep hwf hnode hold
    have hleft : LeftEmptyNode hasTableEntries ht entry true i := by
      refine ⟨node, old, hnode, hold, hname ▸ hle, Or.inl rfl, fun j other hother hbelow => ?_⟩
      cases hother' : (ht.eraseIfEmpty options hasTableEntries entry true).nodes j with
      | none =>
        obtain ⟨node', other', hnode', hother', -, -, hbelow'⟩ :=
          (eraseIfEmpty_eq_none_iff options hasTableEntries true hrep hwf hnode hother).mp hother'
        obtain rfl := Option.some.inj (hnode.symm.trans hnode')
        obtain rfl := Option.some.inj (hother.symm.trans hother')
        exact hbelow' j other hother List.prefix_rfl
      | some other' =>
        obtain ⟨old', hold', hname', htables', -⟩ := eraseLoop_nodes _ _ hother'
        obtain rfl := Option.some.inj (hother.symm.trans hold')
        have hsome := (hrep'.isSome_iff _).mpr ⟨j, other', hother', rfl⟩
        have heq := eq_of_leaf (wellFormed_eraseLoop hwf _ _) hshown ((children_eq_nil_iff hshows).mp hleaf) hsome
          (by rw [hname, hname']; exact hbelow)
        obtain rfl := hrep'.unique hother' hobject heq
        obtain rfl := Option.some.inj (hobject.symm.trans hother')
        rw [← htables', ← hname']
        exact ⟨hle, hnone⟩
    rw [hgone.mpr hleft] at hobject
    cases hobject

theorem nameTree_consistent_erases
    (hcalls : Calls options compute noTables hasTableEntries maxDepth (Hashtable.initial options) ht) :
    Consistent options compute noTables maxDepth ht ∧ ∀ entry canEraseAncestors, (ht.nodes entry).isSome →
      ErasesExactly hasTableEntries ht (ht.eraseIfEmpty options hasTableEntries entry canEraseAncestors) entry
        canEraseAncestors := by
  obtain ⟨tree, hrep, hwf⟩ := represents_calls hcalls
  refine ⟨consistent hrep hwf, fun entry canEraseAncestors hsome => ?_⟩
  obtain ⟨node, hnode⟩ := Option.isSome_iff_exists.mp hsome
  exact erasesExactly hrep hwf hnode

/-- Two buckets to begin with; their number doubles once more than half are used. -/
def smallOptions : HashtableOptions where
  initialSize := 2
  minSize := 1
  expandLoad nBuckets := nBuckets / 2
  shrinkLoad nBuckets := nBuckets / 10
  expand nBuckets := nBuckets * 2
  shrink nBuckets := nBuckets / 2
  minSize_pos := Nat.one_pos
  minSize_le := by decide
  expand_pos hpos := Nat.mul_pos hpos Nat.two_pos

def grownTable : Hashtable ℕ ℕ := ((Hashtable.initial smallOptions).lookup smallOptions id 0 [1, 2] 2).1

theorem nameTree_consistent_erases_grown : Consistent smallOptions id 0 32 grownTable ∧
    LeftEmptyNode (fun tables => tables != 0) grownTable 2 true 0 := by
  have hcalls : Calls smallOptions id 0 (fun tables => tables != 0) 32 (Hashtable.initial smallOptions) grownTable :=
    Relation.ReflTransGen.single (Call.lookup [1, 2] 2 (by decide) (by decide))
  obtain ⟨hconsistent, herases⟩ := nameTree_consistent_erases hcalls
  exact ⟨hconsistent, ((herases 2 true rfl).removed rfl).mp rfl⟩

end Contents

end LeoNdn.NameTreeContents
