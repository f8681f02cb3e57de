import LeoNdn.NameTreeContents
import LeoNdn.PitTable

/-!
The lookups of longest prefixes in the name tree as it is stored, of a name and
of a PIT entry, and the PIT over such a name tree.
-/

namespace LeoNdn.StoredPit

open LeoNdn.Tlv LeoNdn.NdnPacket LeoNdn.NameTree LeoNdn.NameTreeHashtable LeoNdn.Runs
open LeoNdn.ForwardingTables (getMaxDepth nteDepth nteName)
open LeoNdn.PitPipelines (Interest)
open LeoNdn.PitTable (Pit TableEntries Linked noTables hasTableEntries findMatch linked_call linked_initial)

section Lookups

variable {κ τ : Type} [DecidableEq κ] (options : HashtableOptions) (compute : κ → ℕ) (noTables : τ) (maxDepth : ℕ)
  (ht : Hashtable κ τ) (entrySelector : Node κ τ → Bool)

/-- `Hashtable::find` with the hashes of all prefixes. -/
def findWith (name : List κ) (prefixLen : ℕ) (hashes : List ℕ) : Option ℕ :=
  (ht.findOrInsert options noTables name prefixLen (hashes[prefixLen]?.getD 0) false).2.1

def selects (node : ℕ) : Bool := (ht.nodes node).any entrySelector

/-- The loop in `findLongestPrefixMatch` of a name, from the given depth up. -/
def findLongestFrom (name : List κ) (hashes : List ℕ) : ℕ → Option ℕ
  | 0 => (findWith options noTables ht name 0 hashes).filter (selects ht entrySelector)
  | i + 1 =>
    match (findWith options noTables ht name (i + 1) hashes).filter (selects ht entrySelector) with
    | some node => some node
    | none => findLongestFrom name hashes i

def findLongestPrefixMatch (name : List κ) : Option ℕ :=
  let depth := min name.length maxDepth
  findLongestFrom options noTables ht entrySelector name (computeHashes compute name depth) depth

omit [DecidableEq κ] in
/-- `findLongestPrefixMatch` of an entry; the names of the parents get shorter. -/
def findLongestAbove : ℕ → Option ℕ → Option ℕ
  | 0, _ => none
  | _, none => none
  | rounds + 1, some entry =>
    match ht.nodes entry with
    | none => none
    | some node => if entrySelector node then some entry else findLongestAbove rounds node.m_parent

def goDeeper (name : List κ) : ℕ → ℕ → ℕ → ℕ
  | 0, _, nte => nte
  | rounds + 1, i, nte =>
    match ht.findExactMatch options compute noTables maxDepth name i with
    | none => nte
    | some exact => goDeeper name rounds (i + 1) exact

omit [DecidableEq κ] in
def nameLength (node : ℕ) : ℕ := ((nameOf ht.nodes node).map List.length).getD 0

/-- `findLongestPrefixMatch` of a PIT entry of the name that is attached to `nte`. -/
def findLongestPrefixMatchOfPit (nte : ℕ) (name : List κ) : Option ℕ :=
  let depth := min name.length maxDepth
  let nte :=
    if nameLength ht nte < name.length then
      goDeeper options compute noTables maxDepth ht name (depth - nameLength ht nte) (nameLength ht nte + 1) nte
    else nte
  findLongestAbove ht entrySelector (nameLength ht nte + 1) (some nte)

end Lookups

section Refinement

variable {κ τ : Type} [DecidableEq κ] {options : HashtableOptions} {compute : κ → ℕ} {noTables : τ} {maxDepth : ℕ}
  {ht : Hashtable κ τ} {tree : Tree κ τ} {entrySelector : Node κ τ → Bool}

/-- The selector, of an entry of the tree that the table represents. -/
def selectorOf (compute : κ → ℕ) (ht : Hashtable κ τ) (entrySelector : Node κ τ → Bool) (entry : NameTree.Entry κ τ) : Bool :=
  (ht.findNode entry.m_name (computeHash compute entry.m_name entry.m_name.length)).any (selects ht entrySelector)

def Same (ht : Hashtable κ τ) (node : Option ℕ) (entry : Option (NameTree.Entry κ τ)) : Prop :=
  node.map (nameOf ht.nodes) = entry.map (fun entry => some entry.m_name)

omit [DecidableEq κ] in
theorem Same.unique (hrep : Represents compute ht tree) {node node' : Option ℕ} {entry : Option (NameTree.Entry κ τ)}
    (h : Same ht node entry) (h' : Same ht node' entry) : node = node' := by
  cases entry with
  | none => rw [Option.map_eq_none_iff.mp h, Option.map_eq_none_iff.mp h']
  | some entry =>
    obtain ⟨i, rfl, hi⟩ := Option.map_eq_some_iff.mp h
    obtain ⟨j, rfl, hj⟩ := Option.map_eq_some_iff.mp h'
    obtain ⟨object, hobject, hname⟩ := Option.map_eq_some_iff.mp hi
    obtain ⟨other, hother, hname'⟩ := Option.map_eq_some_iff.mp hj
    rw [hrep.unique hobject hother (hname.trans hname'.symm)]

omit [DecidableEq κ] in
theorem same_of_node (hrep : Represents compute ht tree) (hwf : WellFormed maxDepth tree) {i : ℕ} {node : Node κ τ}
    (hnode : ht.nodes i = some node) : Same ht (some i) (tree node.m_name) := by
  obtain ⟨entry, hentry, -⟩ := hrep.shows hnode
  rw [Same, hentry, Option.map_some, Option.map_some, nameOf, hnode, Option.map_some, hwf.name_eq hentry]

theorem selectorOf_eq (hrep : Represents compute ht tree) (hwf : WellFormed maxDepth tree) {i : ℕ} {node : Node κ τ}
    {entry : NameTree.Entry κ τ} (hnode : ht.nodes i = some node) (hentry : tree node.m_name = some entry) :
    selectorOf compute ht entrySelector entry = entrySelector node := by
  have hfind := hrep.find_iff.mpr ⟨node, hnode, rfl⟩
  rw [selectorOf, hwf.name_eq hentry, hfind, Option.any_some, selects, hnode, Option.any_some]

theorem findWith_eq {name : List κ} {i depth : ℕ} (hi : i ≤ depth) (hdepth : depth ≤ name.length) :
    findWith options noTables ht name i (computeHashes compute name depth) =
      ht.findNode (name.take i) (computeHash compute (name.take i) (name.take i).length) := by
  rw [findWith, Hashtable.findOrInsert, computeHashes_getElem? name hi hdepth, computeHash_take]
  split <;> rename_i heq <;> rw [heq]
  rfl

theorem probe_same (entrySelector : Node κ τ → Bool) (hrep : Represents compute ht tree)
    (hwf : WellFormed maxDepth tree) (name : List κ) :
    Same ht ((ht.findNode name (computeHash compute name name.length)).filter (selects ht entrySelector))
      ((tree name).filter (selectorOf compute ht entrySelector)) := by
  cases hfind : ht.findNode name (computeHash compute name name.length) with
  | none =>
    rw [hrep.find_none_iff.mp hfind]
    rfl
  | some i =>
    obtain ⟨node, hnode, rfl⟩ := hrep.find_iff.mp hfind
    obtain ⟨entry, hentry, -⟩ := hrep.shows hnode
    have hsame := same_of_node hrep hwf hnode
    rw [hentry] at hsame ⊢
    rw [Option.filter_some, Option.filter_some, selectorOf_eq hrep hwf hnode hentry, selects, hnode, Option.any_some]
    split
    · exact hsame
    · rfl

theorem findLongestFrom_same (hrep : Represents compute ht tree) (hwf : WellFormed maxDepth tree) {name : List κ}
    {depth : ℕ} (hdepth : depth ≤ name.length) {n : ℕ} (hn : n ≤ depth) :
    Same ht (findLongestFrom options noTables ht entrySelector name (computeHashes compute name depth) n)
      (NameTree.findLongestFrom tree name (selectorOf compute ht entrySelector) n) := by
  induction n with
  | zero =>
    rw [findLongestFrom, NameTree.findLongestFrom, findWith_eq hn hdepth]
    exact probe_same entrySelector hrep hwf _
  | succ n ih =>
    rw [findLongestFrom, NameTree.findLongestFrom, findWith_eq hn hdepth]
    have hprobe := probe_same entrySelector hrep hwf (name.take (n + 1))
    cases hentry : (tree (name.take (n + 1))).filter (selectorOf compute ht entrySelector) with
    | none =>
      rw [hentry] at hprobe
      rw [Option.map_eq_none_iff.mp hprobe]
      exact ih (by omega)
    | some entry =>
      rw [hentry] at hprobe
      obtain ⟨i, hi, hname⟩ := Option.map_eq_some_iff.mp hprobe
      rw [hi]
      exact congrArg some hname

theorem findLongestAbove_same (hrep : Represents compute ht tree) (hwf : WellFormed maxDepth tree) (rounds : ℕ)
    {entry : Option ℕ} {name : Option (List κ)} (hname : entry.map (nameOf ht.nodes) = name.map some) :
    Same ht (findLongestAbove ht entrySelector rounds entry)
      (NameTree.findLongestAbove tree (selectorOf compute ht entrySelector) rounds name) := by
  induction rounds generalizing entry name with
  | zero => rfl
  | succ rounds ih =>
    cases entry with
    | none =>
      obtain rfl : name = none := Option.map_eq_none_iff.mp hname.symm
      rfl
    | some entry =>
      obtain ⟨name, rfl, hentry⟩ := Option.map_eq_some_iff.mp hname.symm
      obtain ⟨node, hnode, rfl⟩ := Option.map_eq_some_iff.mp hentry.symm
      obtain ⟨shown, hshown, hshows⟩ := hrep.shows hnode
      have hsame := same_of_node hrep hwf hnode
      rw [findLongestAbove, NameTree.findLongestAbove, hnode, hshown]
      dsimp only
      rw [selectorOf_eq hrep hwf hnode hshown]
      split
      · rw [hshown] at hsame
        exact hsame
      · exact ih hshows.parent

theorem goDeeper_nameOf (options : HashtableOptions) (noTables : τ) (hrep : Represents compute ht tree)
    (hwf : WellFormed maxDepth tree) (name : List κ) {nte : List κ} (rounds i : ℕ) {entry : ℕ}
    (hentry : nameOf ht.nodes entry = some nte) :
    nameOf ht.nodes (goDeeper options compute noTables maxDepth ht name rounds i entry) =
      some (NameTree.goDeeper tree name rounds i nte) := by
  induction rounds generalizing i entry nte with
  | zero => exact hentry
  | succ rounds ih =>
    rw [goDeeper, NameTree.goDeeper, NameTree.findExactMatch]
    cases hexact : ht.findExactMatch options compute noTables maxDepth name i with
    | none =>
      have hnone : tree (name.take i) = none := by
        by_contra hne
        obtain ⟨j, node, hnode, hname⟩ := hrep.complete (Option.isSome_iff_ne_none.mpr hne)
        rw [(findExactMatch_iff hrep hwf).mpr ⟨node, hnode, hname⟩] at hexact
        cases hexact
      rw [hnone]
      exact hentry
    | some exact =>
      obtain ⟨node, hnode, hname⟩ := (findExactMatch_iff hrep hwf).mp hexact
      obtain ⟨shown, hshown, -⟩ := hrep.shows hnode
      rw [hname] at hshown
      rw [hshown]
      dsimp only
      apply ih
      rw [nameOf, hnode, Option.map_some, hname, hwf.name_eq hshown]

/-- The lookups of a PIT entry and of its name agree, once they do so in the tree. -/
theorem findLongestPrefixMatchOfPit_same (options : HashtableOptions) (noTables : τ)
    (entrySelector : Node κ τ → Bool) (hrep : Represents compute ht tree) (hwf : WellFormed maxDepth tree)
    (name : List κ) {nte : List κ} {entry : ℕ} (hentry : nameOf ht.nodes entry = some nte) :
    Same ht (findLongestPrefixMatchOfPit options compute noTables maxDepth ht entrySelector entry name)
      (NameTree.findLongestPrefixMatchOfPit maxDepth tree nte name (selectorOf compute ht entrySelector)) := by
  have hlength : ∀ {node : ℕ} {name' : List κ}, nameOf ht.nodes node = some name' → nameLength ht node = name'.length := by
    intro node name' hnode
    rw [nameLength, hnode]
    rfl
  have hdeeper := goDeeper_nameOf options noTables hrep hwf name
    (min name.length maxDepth - nte.length) (nte.length + 1) hentry
  rw [findLongestPrefixMatchOfPit, NameTree.findLongestPrefixMatchOfPit, hlength hentry]
  split
  · rw [hlength hdeeper]
    apply findLongestAbove_same hrep hwf
    rw [Option.map_some, Option.map_some, hdeeper]
  · rw [hlength hentry]
    apply findLongestAbove_same hrep hwf
    rw [Option.map_some, Option.map_some, hentry]

theorem findLongestPrefixMatch_same (hrep : Represents compute ht tree) (hwf : WellFormed maxDepth tree) (name : List κ) :
    Same ht (findLongestPrefixMatch options compute noTables maxDepth ht entrySelector name)
      (NameTree.findLongestPrefixMatch maxDepth tree name (selectorOf compute ht entrySelector)) :=
  findLongestFrom_same hrep hwf (Nat.min_le_left _ _) (Nat.le_refl _)

end Refinement

/-- The entries of the PIT with the name tree, in the hash table as well. -/
structure Stored (σ : Type) where
  pit : Pit σ
  ht : Hashtable Component TableEntries

section Calls

variable {σ : Type} (options : HashtableOptions) (compute : Component → ℕ) (wireEncode : σ → Block)

def nodeAt (ht : Hashtable Component TableEntries) (name : Name) : Option ℕ :=
  ht.findNode name (computeHash compute name name.length)

def setTablesAt (ht : Hashtable Component TableEntries) (name : Name) (f : TableEntries → TableEntries) :
    Hashtable Component TableEntries :=
  match nodeAt compute ht name with
  | none => ht
  | some nte => ht.setTables nte f

def eraseIfEmptyAt (ht : Hashtable Component TableEntries) (name : Name) (canEraseAncestors : Bool) :
    Hashtable Component TableEntries :=
  match nodeAt compute ht name with
  | none => ht
  | some nte => ht.eraseIfEmpty options hasTableEntries nte canEraseAncestors

def treeCall (ht : Hashtable Component TableEntries) : PitTable.TreeCall → Hashtable Component TableEntries
  | .lookup name prefixLen => (ht.lookup options compute noTables name prefixLen).1
  | .setFibEntry name fibEntry => setTablesAt compute ht name (fun tables => { tables with m_fibEntry := fibEntry })
  | .setMeasurementsEntry name hasEntry =>
    setTablesAt compute ht name (fun tables => { tables with m_hasMeasurementsEntry := hasEntry })
  | .setStrategyChoiceEntry name instanceName =>
    setTablesAt compute ht name (fun tables => { tables with m_strategyChoiceEntry := instanceName })
  | .eraseIfEmpty name canEraseAncestors => eraseIfEmptyAt options compute ht name canEraseAncestors

/-- What `Pit::insert` does to the nodes. -/
def insertAt (s : Stored σ) (interest : Interest σ) : Hashtable Component TableEntries :=
  match s.ht.lookup options compute noTables interest.m_name (nteDepth interest.m_name) with
  | (ht, none) => ht
  | (ht, some nte) =>
    match findMatch wireEncode s.pit interest (((ht.nodes nte).map (fun node => node.tables.m_pitEntries)).getD []) with
    | some _ => ht
    | none => ht.setTables nte (fun tables =>
        { tables with m_pitEntries := tables.m_pitEntries ++ [s.pit.entries.length] })

/-- What `Pit::erase` does to the nodes. -/
def eraseAt (s : Stored σ) (entry : ℕ) (canDeleteNte : Bool) : Hashtable Component TableEntries :=
  match (s.pit.entries[entry]?).bind PitTable.Entry.m_nameTreeEntry with
  | none => s.ht
  | some nte =>
    let ht := setTablesAt compute s.ht nte (fun tables =>
      { tables with m_pitEntries := eraseByLast entry tables.m_pitEntries })
    if canDeleteNte then eraseIfEmptyAt options compute ht nte true else ht

def call (s : Stored σ) (c : PitTable.Call σ) : Stored σ where
  pit := PitTable.call wireEncode s.pit c
  ht :=
    match c with
    | .insert interest => insertAt options compute wireEncode s interest
    | .erase entry canDeleteNte => eraseAt options compute s entry canDeleteNte
    | .record _ _ => s.ht
    | .tree c => treeCall options compute s.ht c

def initial : Stored σ := ⟨PitTable.initial, Hashtable.initial options⟩

abbrev Calls : Stored σ → Stored σ → Prop :=
  Run (fun s c => some (call options compute wireEncode s c)) (fun s c => c.Allowed s.pit)

end Calls

section Runs

variable {σ : Type} {options : HashtableOptions} {compute : Component → ℕ} {wireEncode : σ → Block}
  {ht : Hashtable Component TableEntries} {tree : Tree Component TableEntries} {s : Stored σ}

theorem nodeAt_of_isSome (hrep : Represents compute ht tree) {name : Name} (h : (tree name).isSome) :
    ∃ nte node, nodeAt compute ht name = some nte ∧ ht.nodes nte = some node ∧ node.m_name = name := by
  obtain ⟨nte, node, hnode, hname⟩ := hrep.complete h
  exact ⟨nte, node, hrep.find_iff.mpr ⟨node, hnode, hname⟩, hnode, hname⟩

theorem setTablesAt_spec (hrep : Represents compute ht tree) {name : Name} (h : (tree name).isSome)
    (f : TableEntries → TableEntries) :
    Represents compute (setTablesAt compute ht name f) (PitTable.setTables tree name f) := by
  obtain ⟨nte, node, hat, hnode, rfl⟩ := nodeAt_of_isSome hrep h
  rw [setTablesAt, hat]
  exact setTables_spec hrep hnode f

theorem eraseIfEmptyAt_spec (options : HashtableOptions) (hrep : Represents compute ht tree)
    (hwf : WellFormed getMaxDepth tree) {name : Name} (h : (tree name).isSome) (canEraseAncestors : Bool) :
    Represents compute (eraseIfEmptyAt options compute ht name canEraseAncestors)
      (NameTree.eraseIfEmpty hasTableEntries tree name canEraseAncestors) := by
  obtain ⟨nte, node, hat, hnode, rfl⟩ := nodeAt_of_isSome hrep h
  rw [eraseIfEmptyAt, hat]
  exact eraseIfEmpty_spec options hasTableEntries canEraseAncestors hrep hwf hnode

theorem treeCall_spec (hrep : Represents compute ht tree) (hwf : WellFormed getMaxDepth tree) {c : PitTable.TreeCall}
    (hallowed : c.Allowed tree) : Represents compute (treeCall options compute ht c) (c.apply tree) := by
  cases c with
  | lookup name prefixLen => exact (lookup_spec hrep hallowed.1).1
  | setFibEntry name fibEntry => exact setTablesAt_spec hrep hallowed _
  | setMeasurementsEntry name hasEntry => exact setTablesAt_spec hrep hallowed _
  | setStrategyChoiceEntry name instanceName => exact setTablesAt_spec hrep hallowed _
  | eraseIfEmpty name canEraseAncestors => exact eraseIfEmptyAt_spec options hrep hwf hallowed canEraseAncestors

theorem insertAt_spec (hrep : Represents compute s.ht s.pit.m_nameTree) (hlinked : Linked wireEncode s.pit)
    (interest : Interest σ) :
    Represents compute (insertAt options compute wireEncode s interest)
      (PitTable.insert wireEncode s.pit interest).1.m_nameTree := by
  have hwf := PitTable.wellFormed_lookup_nteName hlinked interest.m_name
  generalize hlookup : s.ht.lookup options compute noTables interest.m_name (nteDepth interest.m_name) = found
  have hspec := hlookup ▸ lookup_spec hrep (ForwardingTables.nteDepth_le_length interest.m_name)
  obtain ⟨hrep', nte, node, hnte, hnode, hname⟩ := hspec
  obtain ⟨ht, nte'⟩ := found
  obtain rfl : nte' = some nte := hnte
  obtain ⟨shown, hshown, hshows⟩ := hrep'.shows hnode
  have htree : PitTable.treeFor s.pit interest true (nteName interest.m_name) = some shown := by
    rw [nteName, ← hname]
    exact hshown
  have hat : shown.m_name = node.m_name := hwf.name_eq hshown
  have htables : ((ht.nodes nte).map (fun node => node.tables.m_pitEntries)).getD [] = shown.tables.m_pitEntries := by
    rw [hnode, Option.map_some, Option.getD_some, hshows.tables]
  simp only [insertAt, hlookup, htables, PitTable.insert, PitTable.findOrInsert, findExactMatch, htree, if_true]
  cases hfind : findMatch wireEncode s.pit interest shown.tables.m_pitEntries with
  | some entry => exact hrep'
  | none =>
    dsimp only
    rw [hat]
    exact setTables_spec hrep' hnode _

theorem eraseAt_spec (hrep : Represents compute s.ht s.pit.m_nameTree) (hlinked : Linked wireEncode s.pit)
    {entry : ℕ} {canDeleteNte : Bool} :
    Represents compute (eraseAt options compute s entry canDeleteNte)
      (PitTable.erase s.pit entry canDeleteNte).m_nameTree := by
  rw [eraseAt, PitTable.erase]
  cases hname : (s.pit.entries[entry]?).bind PitTable.Entry.m_nameTreeEntry with
  | none => exact hrep
  | some name =>
    obtain ⟨object, hobject, hplace⟩ := Option.bind_eq_some_iff.mp hname
    have hsome := PitTable.isSome_of_mem ((hlinked.mem_iff name entry).mpr ⟨object, hobject, hplace⟩)
    have hset := setTablesAt_spec hrep hsome (fun tables =>
      { tables with m_pitEntries := eraseByLast entry tables.m_pitEntries })
    dsimp only
    split
    · refine eraseIfEmptyAt_spec options hset (wellFormed_setTables hlinked.wellFormed) ?_ true
      rw [PitTable.setTables, modify_isSome]
      exact hsome
    · exact hset

theorem stored_call (hrep : Represents compute s.ht s.pit.m_nameTree) (hlinked : Linked wireEncode s.pit)
    {c : PitTable.Call σ} (hallowed : c.Allowed s.pit) :
    Represents compute (call options compute wireEncode s c).ht (call options compute wireEncode s c).pit.m_nameTree := by
  cases c with
  | insert interest => exact insertAt_spec hrep hlinked interest
  | erase entry canDeleteNte => exact eraseAt_spec hrep hlinked
  | record entry c => exact hrep
  | tree c => exact treeCall_spec hrep hlinked.wellFormed hallowed

theorem stored_run (hrun : Calls options compute wireEncode (initial options) s) :
    Represents compute s.ht s.pit.m_nameTree ∧ Linked wireEncode s.pit := by
  refine hrun.invariant (P := fun s => Represents compute s.ht s.pit.m_nameTree ∧ Linked wireEncode s.pit) ?_
    ⟨represents_initial options, linked_initial⟩
  rintro s c s' ⟨hrep, hlinked⟩ hallowed hstep
  obtain rfl := Option.some.inj hstep
  exact ⟨stored_call hrep hlinked hallowed, linked_call hlinked hallowed⟩

def HangsOn (s : Stored σ) (entry nte : ℕ) : Prop :=
  ∃ node, s.ht.nodes nte = some node ∧ entry ∈ node.tables.m_pitEntries

theorem findLongestPrefixMatch_pitEntry_eq (hrun : Calls options compute wireEncode (initial options) s)
    {entry nte : ℕ} {object : PitTable.Entry σ} (hobject : s.pit.entries[entry]? = some object)
    (hhangs : HangsOn s entry nte) (entrySelector : Node Component TableEntries → Bool) :
    findLongestPrefixMatchOfPit options compute noTables getMaxDepth s.ht entrySelector nte object.m_interest.m_name =
      findLongestPrefixMatch options compute noTables getMaxDepth s.ht entrySelector object.m_interest.m_name := by
  obtain ⟨hrep, hlinked⟩ := stored_run hrun
  obtain ⟨node, hnode, hmem⟩ := hhangs
  obtain ⟨shown, hshown, hshows⟩ := hrep.shows hnode
  have hat : entry ∈ PitTable.pitEntriesAt s.pit node.m_name := by
    rw [PitTable.pitEntriesAt, tablesAt, hshown, Option.map_some, Option.getD_some, hshows.tables]
    exact hmem
  obtain ⟨object', hobject', hplace⟩ := (hlinked.mem_iff _ _).mp hat
  obtain rfl := Option.some.inj (hobject.symm.trans hobject')
  have hname := hlinked.placed hobject hplace
  have hdepth : nteDepth object.m_interest.m_name ≤ min object.m_interest.m_name.length getMaxDepth :=
    Nat.le_min.mpr ⟨ForwardingTables.nteDepth_le_length _, Nat.min_le_right _ _⟩
  have hnte : nameOf s.ht.nodes nte = some (nteName object.m_interest.m_name) := by
    rw [nameOf, hnode, Option.map_some, hname]
  have hpit := findLongestPrefixMatchOfPit_same options noTables entrySelector hrep hlinked.wellFormed
    object.m_interest.m_name hnte
  have hsome : (s.pit.m_nameTree (nteName object.m_interest.m_name)).isSome := by
    rw [← hname, hshown]
    rfl
  rw [nteName, findLongestPrefixMatchOfPit_eq hlinked.wellFormed hdepth hsome] at hpit
  exact hpit.unique hrep (findLongestPrefixMatch_same hrep hlinked.wellFormed _)

def digestName : Name := [⟨1, List.replicate 32 7⟩]

def digestPit : Stored ℕ :=
  call NameTreeContents.smallOptions (fun _ => 1) PitTable.aliceWire (initial NameTreeContents.smallOptions)
    (.insert ⟨digestName, 0, 7, 4000, [], none⟩)

def deeperPit : Stored ℕ :=
  call NameTreeContents.smallOptions (fun _ => 1) PitTable.aliceWire digestPit (.tree (.lookup digestName 1))

theorem findLongestPrefixMatch_pitEntry_eq_digest :
    findLongestPrefixMatchOfPit NameTreeContents.smallOptions (fun _ => 1) noTables getMaxDepth deeperPit.ht
        (fun node => node.m_name ≠ []) 0 digestName =
      findLongestPrefixMatch NameTreeContents.smallOptions (fun _ => 1) noTables getMaxDepth deeperPit.ht
        (fun node => node.m_name ≠ []) digestName := by
  have hallowed : PitTable.Call.Allowed digestPit.pit (.tree (.lookup digestName 1)) := ⟨Nat.le_refl 1, by decide⟩
  have hfirst : Calls NameTreeContents.smallOptions (fun _ => 1) PitTable.aliceWire (initial NameTreeContents.smallOptions)
      digestPit := Run.refl.step (by exact trivial) (Eq.refl (some digestPit))
  have hrun : Calls NameTreeContents.smallOptions (fun _ => 1) PitTable.aliceWire (initial NameTreeContents.smallOptions)
      deeperPit := hfirst.step hallowed (Eq.refl (some deeperPit))
  have hhangs : HangsOn deeperPit 0 0 := ⟨_, rfl, by decide⟩
  exact findLongestPrefixMatch_pitEntry_eq hrun rfl hhangs _

end Runs

end LeoNdn.StoredPit
