import LeoNdn.HashChains
import LeoNdn.NameTree

/-!
The name tree as it is stored: nodes with pointers to their parents and
children, in a hash table whose number of buckets follows the number of nodes.
-/

namespace LeoNdn.NameTreeHashtable

open LeoNdn.HashChains LeoNdn.NameTree

structure Node (κ τ : Type) where
  hash : ℕ
  m_name : List κ
  m_parent : Option ℕ
  m_children : List ℕ
  tables : τ

/-- The load factors and the factors of growth, each with the number of buckets
multiplied by it and truncated. -/
structure HashtableOptions where
  initialSize : ℕ
  minSize : ℕ
  expandLoad : ℕ → ℕ
  shrinkLoad : ℕ → ℕ
  expand : ℕ → ℕ
  shrink : ℕ → ℕ
  minSize_pos : 0 < minSize
  minSize_le : minSize ≤ initialSize
  expand_pos : ∀ {nBuckets : ℕ}, 0 < nBuckets → 0 < expand nBuckets

/-- Nodes are known by their addresses. -/
structure Hashtable (κ τ : Type) where
  nodes : ℕ → Option (Node κ τ)
  newNode : ℕ
  m_buckets : List (List ℕ)
  m_size : ℕ
  m_expandThreshold : ℕ
  m_shrinkThreshold : ℕ

variable {κ τ : Type}

def hashOf (nodes : ℕ → Option (Node κ τ)) (node : ℕ) : ℕ := ((nodes node).map Node.hash).getD 0

def modifyNode (nodes : ℕ → Option (Node κ τ)) (node : ℕ) (f : Node κ τ → Node κ τ) : ℕ → Option (Node κ τ) :=
  fun other => if other = node then (nodes node).map f else nodes other

def computeHash (compute : κ → ℕ) (name : List κ) (prefixLen : ℕ) : ℕ :=
  (name.take prefixLen).foldl (fun h comp => h ^^^ compute comp) 0

def computeHashes (compute : κ → ℕ) (name : List κ) (prefixLen : ℕ) : List ℕ :=
  (name.take prefixLen).scanl (fun h comp => h ^^^ compute comp) 0

def Node.setParent (parent : ℕ) (node : Node κ τ) : Node κ τ := { node with m_parent := some parent }

def Node.pushChild (child : ℕ) (node : Node κ τ) : Node κ τ := { node with m_children := node.m_children ++ [child] }

def Node.eraseChild (child : ℕ) (node : Node κ τ) : Node κ τ := { node with m_children := node.m_children.erase child }

def Node.setTables (f : τ → τ) (node : Node κ τ) : Node κ τ := { node with tables := f node.tables }

namespace Hashtable

def setParent (ht : Hashtable κ τ) (node parent : ℕ) : Hashtable κ τ :=
  { ht with nodes := modifyNode (modifyNode ht.nodes node (Node.setParent parent)) parent (Node.pushChild node) }

def resize (options : HashtableOptions) (ht : Hashtable κ τ) (newNBuckets : ℕ) : Hashtable κ τ :=
  if ht.m_buckets.length = newNBuckets then ht
  else
    { ht with
      m_buckets := rehash (hashOf ht.nodes) newNBuckets ht.m_buckets
      m_expandThreshold := options.expandLoad newNBuckets
      m_shrinkThreshold := options.shrinkLoad newNBuckets }

def initial (options : HashtableOptions) : Hashtable κ τ where
  nodes := fun _ => none
  newNode := 0
  m_buckets := List.replicate options.initialSize []
  m_size := 0
  m_expandThreshold := options.expandLoad options.initialSize
  m_shrinkThreshold := options.shrinkLoad options.initialSize

section Operations

variable [DecidableEq κ] (options : HashtableOptions) (compute : κ → ℕ) (noTables : τ)

def findNode (ht : Hashtable κ τ) (name : List κ) (h : ℕ) : Option ℕ :=
  ((ht.m_buckets[h % ht.m_buckets.length]?).getD []).find? (fun node =>
    (ht.nodes node).any (fun node => node.hash = h && node.m_name = name))

def addNode (ht : Hashtable κ τ) (name : List κ) (h : ℕ) : Hashtable κ τ :=
  { ht with
    nodes := fun other => if other = ht.newNode then some ⟨h, name, none, [], noTables⟩ else ht.nodes other
    newNode := ht.newNode + 1
    m_buckets := attach (h % ht.m_buckets.length) ht.newNode ht.m_buckets
    m_size := ht.m_size + 1 }

/-- The new table with the node, if there is one, and whether it is new. -/
def findOrInsert (ht : Hashtable κ τ) (name : List κ) (prefixLen h : ℕ) (allowInsert : Bool) :
    Hashtable κ τ × Option ℕ × Bool :=
  match findNode ht (name.take prefixLen) h with
  | some node => (ht, some node, false)
  | none =>
    if allowInsert then
      let added := addNode noTables ht (name.take prefixLen) h
      (if added.m_size > added.m_expandThreshold then resize options added (options.expand added.m_buckets.length)
        else added, some ht.newNode, true)
    else (ht, none, false)

def find (ht : Hashtable κ τ) (name : List κ) (prefixLen : ℕ) : Option ℕ :=
  (findOrInsert options noTables ht name prefixLen (computeHash compute name prefixLen) false).2.1

def insert (ht : Hashtable κ τ) (name : List κ) (prefixLen : ℕ) (hashes : List ℕ) : Hashtable κ τ × Option ℕ × Bool :=
  findOrInsert options noTables ht name prefixLen (hashes[prefixLen]?.getD 0) true

def detachNode (ht : Hashtable κ τ) (node : ℕ) : Hashtable κ τ :=
  { ht with
    nodes := fun other => if other = node then none else ht.nodes other
    m_buckets := detach (hashOf ht.nodes node % ht.m_buckets.length) node ht.m_buckets
    m_size := ht.m_size - 1 }

/-- The node is in the table and has no parent any more. -/
def erase (ht : Hashtable κ τ) (node : ℕ) : Hashtable κ τ :=
  let erased := detachNode ht node
  if erased.m_size < erased.m_shrinkThreshold then
    resize options erased (max options.minSize (options.shrink erased.m_buckets.length))
  else erased

/-- One round of the loop in `lookup`, with the node of the round before. -/
def lookupRound (name : List κ) (hashes : List ℕ) (s : Hashtable κ τ × Option ℕ) (i : ℕ) : Hashtable κ τ × Option ℕ :=
  match insert options noTables s.1 name i hashes, s.2 with
  | (ht, some node, true), some parent => (setParent ht node parent, some node)
  | (ht, node, _), _ => (ht, node)

def lookup (ht : Hashtable κ τ) (name : List κ) (prefixLen : ℕ) : Hashtable κ τ × Option ℕ :=
  (List.range (prefixLen + 1)).foldl (lookupRound options noTables name (computeHashes compute name prefixLen)) (ht, none)

def unsetParent (ht : Hashtable κ τ) (node : ℕ) : Hashtable κ τ :=
  match (ht.nodes node).bind Node.m_parent with
  | none => ht
  | some parent =>
    { ht with
      nodes := modifyNode (modifyNode ht.nodes parent (Node.eraseChild node)) node
        (fun object => { object with m_parent := none }) }

/-- The loop in `eraseIfEmpty`; the names of the parents get shorter. -/
def eraseLoop (hasTableEntries : τ → Bool) (canEraseAncestors : Bool) :
    ℕ → Hashtable κ τ → Option ℕ → Hashtable κ τ
  | 0, ht, _ => ht
  | _, ht, none => ht
  | rounds + 1, ht, some entry =>
    match ht.nodes entry with
    | none => ht
    | some node =>
      if node.m_children = [] ∧ hasTableEntries node.tables = false then
        let erased := erase options (unsetParent ht entry) entry
        if canEraseAncestors then eraseLoop hasTableEntries canEraseAncestors rounds erased node.m_parent else erased
      else ht

def eraseIfEmpty (hasTableEntries : τ → Bool) (ht : Hashtable κ τ) (entry : ℕ) (canEraseAncestors : Bool) :
    Hashtable κ τ :=
  eraseLoop options hasTableEntries canEraseAncestors (((ht.nodes entry).map (fun node => node.m_name.length)).getD 0 + 1) ht
    (some entry)

def findExactMatch (maxDepth : ℕ) (ht : Hashtable κ τ) (name : List κ) (prefixLen : ℕ) : Option ℕ :=
  if min name.length prefixLen > maxDepth then none
  else find options compute noTables ht name (min name.length prefixLen)

def setTables (ht : Hashtable κ τ) (entry : ℕ) (f : τ → τ) : Hashtable κ τ :=
  { ht with nodes := modifyNode ht.nodes entry (Node.setTables f) }

end Operations

end Hashtable

def nameOf (nodes : ℕ → Option (Node κ τ)) (node : ℕ) : Option (List κ) := (nodes node).map Node.m_name

/-- A node as the tree has it, where nodes are known by their names. -/
structure Shows (nodes : ℕ → Option (Node κ τ)) (node : Node κ τ) (entry : NameTree.Entry κ τ) : Prop where
  tables : entry.tables = node.tables
  parent : node.m_parent.map (nameOf nodes) = entry.m_parent.map some
  children : node.m_children.map (nameOf nodes) = entry.m_children.map some

structure Represents (compute : κ → ℕ) (ht : Hashtable κ τ) (tree : Tree κ τ) : Prop where
  chained : Chained (hashOf ht.nodes) (fun node => (ht.nodes node).isSome) ht.m_buckets
  hash_eq : ∀ {i : ℕ} {node : Node κ τ}, ht.nodes i = some node →
    node.hash = computeHash compute node.m_name node.m_name.length
  fresh : ∀ {i : ℕ}, (ht.nodes i).isSome → i < ht.newNode
  unique : ∀ {i j : ℕ} {node other : Node κ τ}, ht.nodes i = some node → ht.nodes j = some other →
    node.m_name = other.m_name → i = j
  shows : ∀ {i : ℕ} {node : Node κ τ}, ht.nodes i = some node →
    ∃ entry, tree node.m_name = some entry ∧ Shows ht.nodes node entry
  complete : ∀ {name : List κ}, (tree name).isSome → ∃ i node, ht.nodes i = some node ∧ node.m_name = name

section Hashes

variable {compute : κ → ℕ}

theorem scanl_getElem? {α β : Type} (f : β → α → β) (b : β) (l : List α) {i : ℕ} (hi : i ≤ l.length) :
    (l.scanl f b)[i]? = some ((l.take i).foldl f b) := by
  induction l generalizing b i with
  | nil =>
    obtain rfl : i = 0 := by simpa using hi
    rfl
  | cons a l ih =>
    cases i with
    | zero => simp
    | succ i =>
      rw [List.scanl_cons, List.getElem?_cons_succ, List.take_succ_cons, List.foldl_cons]
      exact ih (f b a) (by simpa using hi)

/-- The assertion of the code that the sequence holds the hashes of the prefixes. -/
theorem computeHashes_getElem? (name : List κ) {i prefixLen : ℕ} (hi : i ≤ prefixLen) (hname : prefixLen ≤ name.length) :
    (computeHashes compute name prefixLen)[i]?.getD 0 = computeHash compute name i := by
  rw [computeHashes, scanl_getElem? _ _ _ (by rw [List.length_take]; omega), List.take_take, Nat.min_eq_left hi]
  rfl

theorem computeHash_take (name : List κ) (prefixLen : ℕ) :
    computeHash compute (name.take prefixLen) (name.take prefixLen).length = computeHash compute name prefixLen := by
  rw [computeHash, computeHash, List.take_length]

end Hashes

section Find

variable {compute : κ → ℕ} {ht : Hashtable κ τ} {tree : Tree κ τ}

theorem Represents.isSome_iff (h : Represents compute ht tree) (name : List κ) :
    (tree name).isSome ↔ ∃ i node, ht.nodes i = some node ∧ node.m_name = name := by
  constructor
  · exact h.complete
  · rintro ⟨i, node, hnode, rfl⟩
    obtain ⟨entry, hentry, -⟩ := h.shows hnode
    rw [hentry]
    rfl

variable [DecidableEq κ]

theorem Represents.find_iff (h : Represents compute ht tree) {name : List κ} {i : ℕ} :
    Hashtable.findNode ht name (computeHash compute name name.length) = some i ↔
      ∃ node, ht.nodes i = some node ∧ node.m_name = name := by
  have hmatch : ∀ {j}, (ht.nodes j).any (fun node =>
      node.hash = computeHash compute name name.length && node.m_name = name) = true ↔
        ∃ node, ht.nodes j = some node ∧ node.m_name = name := by
    intro j
    rw [Option.any_eq_true]
    constructor
    · rintro ⟨node, hnode, hname⟩
      exact ⟨node, hnode, of_decide_eq_true (Bool.and_eq_true_iff.mp hname).2⟩
    · rintro ⟨node, hnode, rfl⟩
      exact ⟨node, hnode, Bool.and_eq_true_iff.mpr ⟨decide_eq_true (h.hash_eq hnode), decide_eq_true rfl⟩⟩
  unfold Hashtable.findNode
  constructor
  · intro hfind
    have hsome := List.find?_some hfind
    exact hmatch.mp hsome
  · rintro ⟨node, hnode, hname⟩
    have hhash : hashOf ht.nodes i = computeHash compute name name.length := by
      rw [hashOf, hnode, ← hname]
      exact h.hash_eq hnode
    obtain ⟨bucket, hbucket, hmem⟩ := h.chained.bucket (a := i) (by rw [hnode]; rfl)
    rw [hhash] at hbucket
    rw [hbucket, Option.getD_some]
    cases hfound : bucket.find? (fun node => (ht.nodes node).any (fun node =>
        node.hash = computeHash compute name name.length && node.m_name = name)) with
    | none => exact absurd (hmatch.mpr ⟨node, hnode, hname⟩) (List.find?_eq_none.mp hfound i hmem)
    | some j =>
      have hsome := List.find?_some hfound
      obtain ⟨other, hother, hname'⟩ := hmatch.mp hsome
      rw [h.unique hother hnode (hname'.trans hname.symm)]

theorem Represents.find_none_iff (h : Represents compute ht tree) {name : List κ} :
    Hashtable.findNode ht name (computeHash compute name name.length) = none ↔ tree name = none := by
  rw [← not_iff_not, ← ne_eq, ← ne_eq, ← Option.isSome_iff_ne_none, ← Option.isSome_iff_ne_none, h.isSome_iff,
    Option.isSome_iff_exists]
  exact exists_congr fun i => h.find_iff

end Find

section Resize

variable {options : HashtableOptions} {compute : κ → ℕ} {ht : Hashtable κ τ} {tree : Tree κ τ}

theorem Represents.resize (h : Represents compute ht tree) {n : ℕ} (hn : 0 < n) :
    Represents compute (ht.resize options n) tree := by
  unfold Hashtable.resize
  split
  · exact h
  · exact ⟨h.chained.rehash hn, h.hash_eq, h.fresh, h.unique, h.shows, h.complete⟩

theorem represents_initial (options : HashtableOptions) :
    Represents compute (Hashtable.initial options : Hashtable κ τ) NameTree.empty where
  chained := (chained_replicate (fun _ => 0) (Nat.lt_of_lt_of_le options.minSize_pos options.minSize_le)).congr
    (by simp [Hashtable.initial]) (by simp)
  hash_eq hnode := by cases hnode
  fresh hsome := by cases hsome
  unique hnode := by cases hnode
  shows hnode := by cases hnode
  complete hsome := by cases hsome

end Resize

section Shows

variable {nodes nodes' : ℕ → Option (Node κ τ)} {node : Node κ τ} {entry : NameTree.Entry κ τ}

theorem Shows.isSome_child (h : Shows nodes node entry) {child : ℕ} (hchild : child ∈ node.m_children) :
    (nodes child).isSome := by
  have hmem : nameOf nodes child ∈ entry.m_children.map some := h.children ▸ List.mem_map_of_mem hchild
  obtain ⟨name, -, hname⟩ := List.mem_map.mp hmem
  rw [nameOf] at hname
  cases hnode : nodes child with
  | none =>
    rw [hnode] at hname
    cases hname
  | some object => rfl

theorem Shows.isSome_parent (h : Shows nodes node entry) {parent : ℕ} (hparent : node.m_parent = some parent) :
    (nodes parent).isSome := by
  have hmap := h.parent
  rw [hparent, Option.map_some] at hmap
  obtain ⟨name, -, hname⟩ := Option.map_eq_some_iff.mp hmap.symm
  rw [nameOf] at hname
  cases hnode : nodes parent with
  | none =>
    rw [hnode] at hname
    cases hname
  | some object => rfl

theorem Shows.transfer_parent (h : Shows nodes node entry)
    (hparent : ∀ i, node.m_parent = some i → nameOf nodes' i = nameOf nodes i) :
    node.m_parent.map (nameOf nodes') = entry.m_parent.map some := by
  rw [← h.parent]
  cases hcase : node.m_parent with
  | none => rfl
  | some i => exact congrArg some (hparent i hcase)

theorem Shows.transfer (h : Shows nodes node entry)
    (hparent : ∀ i, node.m_parent = some i → nameOf nodes' i = nameOf nodes i)
    (hchildren : ∀ i ∈ node.m_children, nameOf nodes' i = nameOf nodes i) : Shows nodes' node entry where
  tables := h.tables
  parent := h.transfer_parent hparent
  children := by
    rw [← h.children]
    exact List.map_congr_left hchildren

end Shows

section Insert

variable {compute : κ → ℕ} {noTables : τ} {ht ht' : Hashtable κ τ} {tree : Tree κ τ} {name : List κ} {maxDepth h : ℕ}
  {parent : Option ℕ}

def linkedNodes (noTables : τ) (ht : Hashtable κ τ) (name : List κ) (h : ℕ) (parent : Option ℕ) :
    ℕ → Option (Node κ τ) := fun i =>
  if i = ht.newNode then some ⟨h, name, parent, [], noTables⟩
  else if parent = some i then (ht.nodes i).map (Node.pushChild ht.newNode)
  else ht.nodes i

theorem linkedNodes_isSome (i : ℕ) :
    (linkedNodes noTables ht name h parent i).isSome ↔ (ht.nodes i).isSome ∨ i = ht.newNode := by
  unfold linkedNodes
  split
  · rename_i heq
    simp [heq]
  · rename_i hne
    rw [or_iff_left hne]
    split
    · rw [Option.isSome_map]
    · rfl

theorem linkedNodes_nameOf (i : ℕ) : nameOf (linkedNodes noTables ht name h parent) i =
    if i = ht.newNode then some name else nameOf ht.nodes i := by
  unfold nameOf linkedNodes
  split
  · rfl
  · split
    · rw [Option.map_map]
      rfl
    · rfl

theorem linkedNodes_hashOf (i : ℕ) : hashOf (linkedNodes noTables ht name h parent) i =
    if i = ht.newNode then h else hashOf ht.nodes i := by
  unfold hashOf linkedNodes
  split
  · rfl
  · split
    · rw [Option.map_map]
      rfl
    · rfl

theorem linkedNodes_cases {i : ℕ} {node : Node κ τ} (hnode : linkedNodes noTables ht name h parent i = some node) :
    (i = ht.newNode ∧ node = ⟨h, name, parent, [], noTables⟩) ∨
      (i ≠ ht.newNode ∧ ∃ old, ht.nodes i = some old ∧
        node = if parent = some i then old.pushChild ht.newNode else old) := by
  unfold linkedNodes at hnode
  split at hnode
  · rename_i heq
    exact Or.inl ⟨heq, (Option.some.inj hnode).symm⟩
  · rename_i hne
    refine Or.inr ⟨hne, ?_⟩
    split at hnode
    · rename_i hparent
      obtain ⟨old, hold, rfl⟩ := Option.map_eq_some_iff.mp hnode
      exact ⟨old, hold, by rw [if_pos hparent]⟩
    · rename_i hparent
      exact ⟨node, hnode, by rw [if_neg hparent]⟩

def IsParent (ht : Hashtable κ τ) (name : List κ) (parent : Option ℕ) : Prop :=
  (name = [] ∧ parent = none) ∨
    name ≠ [] ∧ ∃ i node, parent = some i ∧ ht.nodes i = some node ∧ node.m_name = name.dropLast

theorem IsParent.iff (hrep : Represents compute ht tree) (hnone : tree name = none)
    (hparent : IsParent ht name parent) {i : ℕ} {node : Node κ τ} (hnode : ht.nodes i = some node) :
    parent = some i ↔ node.m_name = name.dropLast := by
  rcases hparent with ⟨rfl, rfl⟩ | ⟨hne, j, other, rfl, hother, hname⟩
  · constructor
    · intro hsome
      cases hsome
    intro hname
    obtain ⟨entry, hentry, -⟩ := hrep.shows hnode
    rw [hname, List.dropLast_nil, hnone] at hentry
    cases hentry
  · constructor
    · intro hsome
      obtain rfl := Option.some.inj hsome
      rw [hother] at hnode
      obtain rfl := Option.some.inj hnode
      exact hname
    · intro hname'
      rw [hrep.unique hnode hother (hname'.trans hname.symm)]

variable [DecidableEq κ]

theorem represents_linked (hrep : Represents compute ht tree) (hnone : tree name = none)
    (hparent : IsParent ht name parent) (hh : h = computeHash compute name name.length)
    (hnodes : ht'.nodes = linkedNodes noTables ht name h parent) (hnew : ht'.newNode = ht.newNode + 1)
    (hchained : Chained (hashOf ht'.nodes) (fun node => (ht'.nodes node).isSome) ht'.m_buckets) :
    Represents compute ht' (insertNode noTables tree name) := by
  have hold : ∀ {i}, (ht.nodes i).isSome → i ≠ ht.newNode := fun hsome => Nat.ne_of_lt (hrep.fresh hsome)
  have hnotName : ∀ {i : ℕ} {node : Node κ τ}, ht.nodes i = some node → node.m_name ≠ name := by
    intro i node hnode hname
    obtain ⟨entry, hentry, -⟩ := hrep.shows hnode
    rw [hname, hnone] at hentry
    cases hentry
  have hnameOf : ∀ {i}, (ht.nodes i).isSome → nameOf ht'.nodes i = nameOf ht.nodes i := by
    intro i hsome
    rw [hnodes, linkedNodes_nameOf, if_neg (hold hsome)]
  refine ⟨hchained, ?_, ?_, ?_, ?_, ?_⟩
  · intro i node hlinked
    rw [hnodes] at hlinked
    rcases linkedNodes_cases hlinked with ⟨-, rfl⟩ | ⟨-, old, hnode, rfl⟩
    · exact hh
    · have hhash := hrep.hash_eq hnode
      split <;> exact hhash
  · intro i hsome
    rw [hnodes, linkedNodes_isSome] at hsome
    rw [hnew]
    rcases hsome with hsome | rfl
    · exact Nat.lt_succ_of_lt (hrep.fresh hsome)
    · exact Nat.lt_succ_self _
  · intro i j node other hlinked hlinked' hname
    rw [hnodes] at hlinked hlinked'
    have hsame : ∀ {i : ℕ} {object : Node κ τ}, (if parent = some i then object.pushChild ht.newNode else object).m_name =
        object.m_name := by
      intro i object
      split <;> rfl
    rcases linkedNodes_cases hlinked with ⟨rfl, rfl⟩ | ⟨-, old, hnode, rfl⟩
    · rcases linkedNodes_cases hlinked' with ⟨rfl, rfl⟩ | ⟨-, old, hother, rfl⟩
      · rfl
      · rw [hsame] at hname
        exact absurd hname.symm (hnotName hother)
    · rw [hsame] at hname
      rcases linkedNodes_cases hlinked' with ⟨rfl, rfl⟩ | ⟨-, old', hother, rfl⟩
      · exact absurd hname (hnotName hnode)
      · rw [hsame] at hname
        exact hrep.unique hnode hother hname
  · intro i node hlinked
    rw [hnodes] at hlinked
    rcases linkedNodes_cases hlinked with ⟨rfl, rfl⟩ | ⟨hne, old, hnode, rfl⟩
    · refine ⟨newEntry noTables name, by rw [insertNode_of_none hnone, if_pos rfl], rfl, ?_, rfl⟩
      rcases hparent with ⟨rfl, rfl⟩ | ⟨hne, j, other, rfl, hother, hname⟩
      · rfl
      · rw [newEntry, if_neg hne, Option.map_some, hnameOf (by rw [hother]; rfl), nameOf, hother, Option.map_some,
          Option.map_some, hname]
    · obtain ⟨entry, hentry, hshows⟩ := hrep.shows hnode
      have hshows' : Shows ht'.nodes old entry :=
        hshows.transfer (fun j hj => hnameOf (hshows.isSome_parent hj)) fun j hj => hnameOf (hshows.isSome_child hj)
      have hiff := hparent.iff hrep hnone hnode
      by_cases hp : parent = some i
      · rw [if_pos hp]
        refine ⟨entry.addChild name, ?_, hshows'.tables, hshows'.parent, ?_⟩
        · change insertNode noTables tree name old.m_name = _
          rw [insertNode_of_none hnone, if_neg (hnotName hnode), if_pos (hiff.mp hp), hentry]
          rfl
        · rw [Node.pushChild, NameTree.Entry.addChild, List.map_append, List.map_append, hshows'.children, hnodes]
          simp [linkedNodes_nameOf]
      · rw [if_neg hp]
        refine ⟨entry, ?_, hshows'⟩
        rw [insertNode_of_none hnone, if_neg (hnotName hnode), if_neg fun hname => hp (hiff.mpr hname)]
        exact hentry
  · intro name' hsome
    rw [insertNode_isSome] at hsome
    rcases hsome with hsome | rfl
    · obtain ⟨i, node, hnode, rfl⟩ := hrep.complete hsome
      refine ⟨i, if parent = some i then node.pushChild ht.newNode else node, ?_, by split <;> rfl⟩
      rw [hnodes, linkedNodes, if_neg (hold (by rw [hnode]; rfl)), hnode]
      split <;> rfl
    · exact ⟨ht.newNode, _, by rw [hnodes, linkedNodes, if_pos rfl], rfl⟩

end Insert

section Lookup

variable {options : HashtableOptions} {compute : κ → ℕ} {noTables : τ} {ht : Hashtable κ τ} {tree : Tree κ τ}
  {name : List κ} {maxDepth : ℕ}

def grown (options : HashtableOptions) (noTables : τ) (ht : Hashtable κ τ) (name : List κ) (h : ℕ) : Hashtable κ τ :=
  let added := ht.addNode noTables name h
  if added.m_size > added.m_expandThreshold then added.resize options (options.expand added.m_buckets.length) else added

theorem resize_nodes (options : HashtableOptions) (ht : Hashtable κ τ) (n : ℕ) :
    (ht.resize options n).nodes = ht.nodes ∧ (ht.resize options n).newNode = ht.newNode := by
  unfold Hashtable.resize
  split <;> exact ⟨rfl, rfl⟩

theorem grown_nodes (options : HashtableOptions) (noTables : τ) (ht : Hashtable κ τ) (name : List κ) (h : ℕ) :
    (grown options noTables ht name h).nodes = linkedNodes noTables ht name h none ∧
      (grown options noTables ht name h).newNode = ht.newNode + 1 := by
  have hadded : (ht.addNode noTables name h).nodes = linkedNodes noTables ht name h none := rfl
  unfold grown
  dsimp only
  split
  · obtain ⟨hnodes, hnew⟩ := resize_nodes options (ht.addNode noTables name h)
      (options.expand (ht.addNode noTables name h).m_buckets.length)
    exact ⟨hnodes.trans hadded, hnew⟩
  · exact ⟨hadded, rfl⟩

theorem grown_chained (options : HashtableOptions) (noTables : τ) (hrep : Represents compute ht tree) (name : List κ) (h : ℕ) :
    Chained (hashOf (linkedNodes noTables ht name h none))
      (fun node => (linkedNodes noTables ht name h none node).isSome) (grown options noTables ht name h).m_buckets := by
  have hfresh : ¬ (ht.nodes ht.newNode).isSome := fun hsome => Nat.lt_irrefl _ (hrep.fresh hsome)
  have hhash : ∀ i, (ht.nodes i).isSome → hashOf (linkedNodes noTables ht name h none) i = hashOf ht.nodes i := by
    intro i hsome
    rw [linkedNodes_hashOf, if_neg (Nat.ne_of_lt (hrep.fresh hsome))]
  have hold : Chained (hashOf (linkedNodes noTables ht name h none)) (fun node => (ht.nodes node).isSome) ht.m_buckets :=
    hrep.chained.congr (fun _ => Iff.rfl) hhash
  have hattached := hold.attach hfresh
  rw [linkedNodes_hashOf, if_pos rfl] at hattached
  have hadded : Chained (hashOf (linkedNodes noTables ht name h none))
      (fun node => (linkedNodes noTables ht name h none node).isSome) (ht.addNode noTables name h).m_buckets :=
    hattached.congr (fun i => linkedNodes_isSome i) fun _ _ => rfl
  unfold grown
  dsimp only
  split
  · unfold Hashtable.resize
    split
    · exact hadded
    · exact hadded.rehash (options.expand_pos hadded.pos)
  · exact hadded

theorem setParent_nodes {h : ℕ} (parent : ℕ) (hparent : (ht.nodes parent).isSome) (hrep : Represents compute ht tree)
    {ht' : Hashtable κ τ} (hnodes : ht'.nodes = linkedNodes noTables ht name h none) :
    (ht'.setParent ht.newNode parent).nodes = linkedNodes noTables ht name h (some parent) := by
  have hne : parent ≠ ht.newNode := Nat.ne_of_lt (hrep.fresh hparent)
  funext i
  simp only [Hashtable.setParent, modifyNode, hnodes, linkedNodes, hne, if_false, if_true, reduceCtorEq]
  by_cases hi : i = parent
  · subst hi
    simp [hne]
  · by_cases hi' : i = ht.newNode
    · subst hi'
      simp [hi, Node.setParent]
    · simp [hi, hi', Ne.symm hi]

variable [DecidableEq κ]

theorem insert_eq (options : HashtableOptions) (noTables : τ) (hrep : Represents compute ht tree) {i : ℕ} {hashes : List ℕ}
    (hhashes : hashes[i]?.getD 0 = computeHash compute name i) :
    (∃ j node, ht.nodes j = some node ∧ node.m_name = name.take i ∧
        ht.insert options noTables name i hashes = (ht, some j, false)) ∨
      (tree (name.take i) = none ∧ ht.insert options noTables name i hashes =
        (grown options noTables ht (name.take i) (computeHash compute name i), some ht.newNode, true)) := by
  unfold Hashtable.insert Hashtable.findOrInsert
  rw [hhashes, ← computeHash_take]
  cases hfind : ht.findNode (name.take i) (computeHash compute (name.take i) (name.take i).length) with
  | some j =>
    obtain ⟨node, hnode, hname⟩ := hrep.find_iff.mp hfind
    exact Or.inl ⟨j, node, hnode, hname, rfl⟩
  | none => exact Or.inr ⟨hrep.find_none_iff.mp hfind, rfl⟩

/-- The node of the round before, from which the next one is linked. -/
def IsAt (ht : Hashtable κ τ) (name : List κ) (node : Option ℕ) : Prop :=
  ∃ i object, node = some i ∧ ht.nodes i = some object ∧ object.m_name = name

theorem lookupRound_spec (hrep : Represents compute ht tree) {i : ℕ} (hi : i ≤ name.length) {hashes : List ℕ}
    (hhashes : hashes[i]?.getD 0 = computeHash compute name i) {parent : Option ℕ}
    (hparent : (i = 0 ∧ parent = none) ∨ 0 < i ∧ IsAt ht (name.take (i - 1)) parent) :
    Represents compute (Hashtable.lookupRound options noTables name hashes (ht, parent) i).1
        (insertNode noTables tree (name.take i)) ∧
      IsAt (Hashtable.lookupRound options noTables name hashes (ht, parent) i).1 (name.take i)
        (Hashtable.lookupRound options noTables name hashes (ht, parent) i).2 := by
  unfold Hashtable.lookupRound
  rcases insert_eq options noTables hrep hhashes with ⟨j, node, hnode, hname, heq⟩ | ⟨hnone, heq⟩
  · have hsome : (tree (name.take i)).isSome := (hrep.isSome_iff _).mpr ⟨j, node, hnode, hname⟩
    rw [heq, insertNode_of_isSome hsome]
    exact ⟨hrep, j, node, rfl, hnode, hname⟩
  · obtain ⟨hnodes, hnew⟩ := grown_nodes options noTables ht (name.take i) (computeHash compute name i)
    have hchained := grown_chained options noTables hrep (name.take i) (computeHash compute name i)
    have hhash : computeHash compute name i = computeHash compute (name.take i) (name.take i).length :=
      (computeHash_take name i).symm
    rw [heq]
    rcases hparent with ⟨rfl, rfl⟩ | ⟨hpos, p, object, rfl, hobject, hname⟩
    · refine ⟨represents_linked hrep hnone (Or.inl ⟨by rw [List.take_zero], rfl⟩) hhash hnodes hnew ?_,
        ht.newNode, ⟨computeHash compute name 0, name.take 0, none, [], noTables⟩, rfl, ?_, rfl⟩
      · rw [hnodes]
        exact hchained
      · dsimp only
        rw [hnodes, linkedNodes, if_pos rfl]
    · have hset := setParent_nodes p (by rw [hobject]; rfl) hrep hnodes
      have hparent : IsParent ht (name.take i) (some p) := by
        refine Or.inr ⟨List.ne_nil_of_length_pos (by rw [List.length_take]; omega), p, object, rfl, hobject, ?_⟩
        rw [hname, List.dropLast_eq_take, List.take_take, List.length_take]
        congr 1
        omega
      refine ⟨represents_linked hrep hnone hparent hhash hset hnew ?_,
        ht.newNode, ⟨computeHash compute name i, name.take i, some p, [], noTables⟩, rfl, ?_, rfl⟩
      · rw [hset]
        refine hchained.congr (fun j => ?_) fun j _ => ?_
        · rw [linkedNodes_isSome, linkedNodes_isSome]
        · rw [linkedNodes_hashOf, linkedNodes_hashOf]
      · dsimp only
        rw [hset, linkedNodes, if_pos rfl]

theorem lookup_spec (hrep : Represents compute ht tree) {prefixLen : ℕ} (hname : prefixLen ≤ name.length) :
    Represents compute (ht.lookup options compute noTables name prefixLen).1
        (NameTree.lookup noTables tree name prefixLen) ∧
      IsAt (ht.lookup options compute noTables name prefixLen).1 (name.take prefixLen)
        (ht.lookup options compute noTables name prefixLen).2 := by
  have hloop : ∀ n ≤ prefixLen,
      Represents compute ((List.range (n + 1)).foldl
          (Hashtable.lookupRound options noTables name (computeHashes compute name prefixLen)) (ht, none)).1
        (NameTree.lookup noTables tree name n) ∧
      IsAt ((List.range (n + 1)).foldl
          (Hashtable.lookupRound options noTables name (computeHashes compute name prefixLen)) (ht, none)).1 (name.take n)
        ((List.range (n + 1)).foldl
          (Hashtable.lookupRound options noTables name (computeHashes compute name prefixLen)) (ht, none)).2 := by
    intro n hn
    induction n with
    | zero =>
      exact lookupRound_spec hrep (Nat.zero_le _) (computeHashes_getElem? name (Nat.zero_le _) hname) (Or.inl ⟨rfl, rfl⟩)
    | succ n ih =>
      obtain ⟨hrep', hat⟩ := ih (by omega)
      rw [lookup_succ, List.range_succ, List.foldl_append]
      exact lookupRound_spec hrep' (by omega) (computeHashes_getElem? name hn hname) (Or.inr ⟨Nat.succ_pos n, hat⟩)
  exact hloop prefixLen (Nat.le_refl _)

end Lookup

section Erase

variable {options : HashtableOptions} {compute : κ → ℕ} {ht : Hashtable κ τ} {tree : Tree κ τ} {maxDepth entry : ℕ}
  {node : Node κ τ} {shown : NameTree.Entry κ τ}

def erasedNodes (nodes : ℕ → Option (Node κ τ)) (entry : ℕ) (parent : Option ℕ) : ℕ → Option (Node κ τ) := fun i =>
  if i = entry then none
  else if parent = some i then (nodes i).map (Node.eraseChild entry)
  else nodes i

theorem unsetParent_nodes (hnode : ht.nodes entry = some node) (i : ℕ) : (ht.unsetParent entry).nodes i =
    if i = entry then (ht.unsetParent entry).nodes entry else erasedNodes ht.nodes entry node.m_parent i := by
  split
  · rename_i heq
    rw [heq]
  · rename_i hne
    rw [erasedNodes, if_neg hne, Hashtable.unsetParent, hnode, Option.bind_some]
    cases node.m_parent with
    | none => rfl
    | some parent =>
      simp only [modifyNode, hne, if_false, Option.some.injEq]
      by_cases heq : i = parent
      · simp [heq]
      · rw [if_neg heq, if_neg (Ne.symm heq)]

theorem unsetParent_buckets (ht : Hashtable κ τ) (entry : ℕ) :
    (ht.unsetParent entry).m_buckets = ht.m_buckets ∧ (ht.unsetParent entry).newNode = ht.newNode ∧
      hashOf (ht.unsetParent entry).nodes entry = hashOf ht.nodes entry := by
  unfold Hashtable.unsetParent
  cases hparent : (ht.nodes entry).bind Node.m_parent with
  | none => exact ⟨rfl, rfl, rfl⟩
  | some parent =>
    refine ⟨rfl, rfl, ?_⟩
    simp only [hashOf, modifyNode, if_true, Option.map_map]
    split
    · rename_i heq
      rw [← heq, Option.map_map]
      rfl
    · rfl

theorem detachNode_nodes (hnode : ht.nodes entry = some node) :
    ((ht.unsetParent entry).detachNode entry).nodes = erasedNodes ht.nodes entry node.m_parent := by
  funext i
  by_cases hi : i = entry
  · rw [erasedNodes, if_pos hi]
    exact if_pos hi
  · exact (if_neg hi).trans ((unsetParent_nodes hnode i).trans (if_neg hi))

theorem erase_nodes (options : HashtableOptions) (hnode : ht.nodes entry = some node) :
    ((ht.unsetParent entry).erase options entry).nodes = erasedNodes ht.nodes entry node.m_parent ∧
      ((ht.unsetParent entry).erase options entry).newNode = ht.newNode := by
  have hnodes := detachNode_nodes hnode
  have hnew : ((ht.unsetParent entry).detachNode entry).newNode = ht.newNode := (unsetParent_buckets ht entry).2.1
  unfold Hashtable.erase
  dsimp only
  split
  · obtain ⟨h, h'⟩ := resize_nodes options ((ht.unsetParent entry).detachNode entry)
      (max options.minSize (options.shrink ((ht.unsetParent entry).detachNode entry).m_buckets.length))
    exact ⟨h.trans hnodes, h'.trans hnew⟩
  · exact ⟨hnodes, hnew⟩

theorem erasedNodes_isSome (nodes : ℕ → Option (Node κ τ)) (parent : Option ℕ) (i : ℕ) :
    (erasedNodes nodes entry parent i).isSome ↔ (nodes i).isSome ∧ i ≠ entry := by
  unfold erasedNodes
  split
  · rename_i heq
    simp [heq]
  · rename_i hne
    rw [and_iff_left hne]
    split
    · rw [Option.isSome_map]
    · rfl

theorem erasedNodes_map {α : Type} (f : Node κ τ → α) (hf : ∀ node, f (node.eraseChild entry) = f node)
    (nodes : ℕ → Option (Node κ τ)) (parent : Option ℕ) {i : ℕ} (hne : i ≠ entry) :
    (erasedNodes nodes entry parent i).map f = (nodes i).map f := by
  rw [erasedNodes, if_neg hne]
  split
  · rw [Option.map_map]
    exact congrArg (fun g => Option.map g (nodes i)) (funext hf)
  · rfl

theorem erase_chained (options : HashtableOptions) (hrep : Represents compute ht tree) (hnode : ht.nodes entry = some node) :
    Chained (hashOf (erasedNodes ht.nodes entry node.m_parent))
      (fun i => (erasedNodes ht.nodes entry node.m_parent i).isSome) ((ht.unsetParent entry).erase options entry).m_buckets := by
  obtain ⟨hbuckets, -, hhash⟩ := unsetParent_buckets ht entry
  have hdetached : Chained (hashOf (erasedNodes ht.nodes entry node.m_parent))
      (fun i => (erasedNodes ht.nodes entry node.m_parent i).isSome) ((ht.unsetParent entry).detachNode entry).m_buckets := by
    rw [Hashtable.detachNode, hbuckets, hhash]
    refine hrep.chained.detach.congr (erasedNodes_isSome ht.nodes node.m_parent) fun i hi => ?_
    rw [hashOf, hashOf, erasedNodes_map Node.hash (fun _ => rfl) _ _ hi.2]
  unfold Hashtable.erase
  dsimp only
  split
  · unfold Hashtable.resize
    split
    · exact hdetached
    · rw [detachNode_nodes hnode]
      exact hdetached.rehash (Nat.lt_of_lt_of_le options.minSize_pos (Nat.le_max_left _ _))
  · exact hdetached

theorem erasedNodes_cases {nodes : ℕ → Option (Node κ τ)} {parent : Option ℕ} {i : ℕ} {object : Node κ τ}
    (h : erasedNodes nodes entry parent i = some object) :
    i ≠ entry ∧ ∃ old, nodes i = some old ∧ object = if parent = some i then old.eraseChild entry else old := by
  unfold erasedNodes at h
  split at h
  · cases h
  · rename_i hne
    refine ⟨hne, ?_⟩
    split at h
    · rename_i hparent
      obtain ⟨old, hold, rfl⟩ := Option.map_eq_some_iff.mp h
      exact ⟨old, hold, by rw [if_pos hparent]⟩
    · rename_i hparent
      exact ⟨object, h, by rw [if_neg hparent]⟩

theorem map_erase_of_forall {α β : Type} [BEq α] [LawfulBEq α] [BEq β] [LawfulBEq β] (f : α → β) {a : α} {l : List α}
    (h : ∀ b ∈ l, f b = f a → b = a) : (l.erase a).map f = (l.map f).erase (f a) := by
  induction l with
  | nil => rfl
  | cons b l ih =>
    by_cases hb : b = a
    · subst hb
      rw [List.erase_cons_head, List.map_cons, List.erase_cons_head]
    · have hf : f b ≠ f a := fun heq => hb (h b List.mem_cons_self heq)
      rw [List.erase_cons_tail (by simpa using hb), List.map_cons, List.map_cons, List.erase_cons_tail (by simpa using hf),
        ih fun c hc => h c (List.mem_cons_of_mem b hc)]

theorem Represents.nameOf_eq (hrep : Represents compute ht tree) (hnode : ht.nodes entry = some node) {i : ℕ}
    (h : nameOf ht.nodes i = some node.m_name) : i = entry := by
  obtain ⟨other, hother, hname⟩ := Option.map_eq_some_iff.mp h
  exact hrep.unique hother hnode hname

theorem Represents.parent_iff (hrep : Represents compute ht tree) (hwf : WellFormed maxDepth tree)
    (hnode : ht.nodes entry = some node) {i : ℕ} {other : Node κ τ} (hother : ht.nodes i = some other) :
    node.m_parent = some i ↔ node.m_name ≠ [] ∧ node.m_name.dropLast = other.m_name := by
  obtain ⟨shown, hshown, hshows⟩ := hrep.shows hnode
  have hparent := hshows.parent
  rw [hwf.parent_eq hshown] at hparent
  constructor
  · intro hi
    rw [hi, Option.map_some, nameOf, hother] at hparent
    split at hparent
    · cases hparent
    · rename_i hne
      exact ⟨hne, (Option.some.inj (Option.some.inj hparent)).symm⟩
  · rintro ⟨hne, hdrop⟩
    rw [if_neg hne, Option.map_some, hdrop] at hparent
    obtain ⟨j, hj, hname⟩ := Option.map_eq_some_iff.mp hparent
    rw [hj, hrep.nameOf_eq hother hname]

theorem Represents.child_iff (hrep : Represents compute ht tree) (hwf : WellFormed maxDepth tree)
    (hnode : ht.nodes entry = some node) {i : ℕ} {other : Node κ τ} (hother : ht.nodes i = some other) :
    i ∈ node.m_children ↔ other.m_name ≠ [] ∧ other.m_name.dropLast = node.m_name := by
  obtain ⟨shown, hshown, hshows⟩ := hrep.shows hnode
  have hmem : i ∈ node.m_children ↔ other.m_name ∈ shown.m_children := by
    constructor
    · intro hi
      have hmap : nameOf ht.nodes i ∈ shown.m_children.map some := hshows.children ▸ List.mem_map_of_mem hi
      rw [nameOf, hother] at hmap
      obtain ⟨name, hname, heq⟩ := List.mem_map.mp hmap
      rwa [Option.some.inj heq] at hname
    · intro hname
      have hmap : some other.m_name ∈ node.m_children.map (nameOf ht.nodes) := hshows.children ▸ List.mem_map_of_mem hname
      obtain ⟨j, hj, heq⟩ := List.mem_map.mp hmap
      rwa [hrep.nameOf_eq hother heq] at hj
  rw [hmem, hwf.mem_children hshown]
  obtain ⟨shown', hshown', -⟩ := hrep.shows hother
  simp [hshown']

theorem Represents.nodup_children (hrep : Represents compute ht tree) (hwf : WellFormed maxDepth tree)
    (hnode : ht.nodes entry = some node) : node.m_children.Nodup := by
  obtain ⟨shown, hshown, hshows⟩ := hrep.shows hnode
  refine List.Nodup.of_map (nameOf ht.nodes) ?_
  rw [hshows.children]
  exact (hwf.nodup_children hshown).map (fun _ _ => Option.some.inj)

theorem children_eq_nil_iff {nodes : ℕ → Option (Node κ τ)} (h : Shows nodes node shown) :
    node.m_children = [] ↔ shown.m_children = [] := by
  rw [← List.map_eq_nil_iff (f := nameOf nodes), h.children, List.map_eq_nil_iff]

variable {hasTableEntries : τ → Bool} {canEraseAncestors : Bool}

theorem eraseLoop_nodes (rounds : ℕ) (entry : Option ℕ) {i : ℕ} {object : Node κ τ}
    (hobject : (ht.eraseLoop options hasTableEntries canEraseAncestors rounds entry).nodes i = some object) :
    ∃ old, ht.nodes i = some old ∧ object.m_name = old.m_name ∧ object.tables = old.tables ∧
      object.m_parent = old.m_parent := by
  induction rounds generalizing ht entry with
  | zero => exact ⟨object, hobject, rfl, rfl, rfl⟩
  | succ rounds ih =>
    cases entry with
    | none => exact ⟨object, hobject, rfl, rfl, rfl⟩
    | some entry =>
      have herased : ∀ {node other : Node κ τ}, ht.nodes entry = some node →
          ((ht.unsetParent entry).erase options entry).nodes i = some other →
          ∃ old, ht.nodes i = some old ∧ other.m_name = old.m_name ∧ other.tables = old.tables ∧
            other.m_parent = old.m_parent := by
        intro node other hnode hother
        rw [(erase_nodes options hnode).1] at hother
        obtain ⟨-, old, hold, rfl⟩ := erasedNodes_cases hother
        refine ⟨old, hold, ?_⟩
        split <;> exact ⟨rfl, rfl, rfl⟩
      rw [Hashtable.eraseLoop] at hobject
      cases hnode : ht.nodes entry with
      | none =>
        rw [hnode] at hobject
        exact ⟨object, hobject, rfl, rfl, rfl⟩
      | some node =>
        rw [hnode] at hobject
        dsimp only at hobject
        split at hobject
        · split at hobject
          · obtain ⟨other, hother, hname, htables, hparent⟩ := ih _ hobject
            obtain ⟨old, hold, hname', htables', hparent'⟩ := herased hnode hother
            exact ⟨old, hold, hname.trans hname', htables.trans htables', hparent.trans hparent'⟩
          · exact herased hnode hobject
        · exact ⟨object, hobject, rfl, rfl, rfl⟩

variable [DecidableEq κ]

omit [DecidableEq κ] in
theorem nameOf_erasedNodes {parent : Option ℕ} {i : ℕ} (hi : i ≠ entry) :
    nameOf (erasedNodes ht.nodes entry parent) i = nameOf ht.nodes i :=
  erasedNodes_map Node.m_name (fun _ => rfl) _ _ hi

theorem shows_erased (hrep : Represents compute ht tree) (hwf : WellFormed maxDepth tree)
    (hnode : ht.nodes entry = some node) (hleaf : node.m_children = []) (hshown : tree node.m_name = some shown)
    {i : ℕ} {old : Node κ τ} (hne : i ≠ entry) (hold : ht.nodes i = some old) :
    ∃ shown', removeNode tree shown old.m_name = some shown' ∧
      Shows (erasedNodes ht.nodes entry node.m_parent)
        (if node.m_parent = some i then old.eraseChild entry else old) shown' := by
  obtain ⟨shown', hshown', hshows'⟩ := hrep.shows hold
  have hnotName : old.m_name ≠ node.m_name := fun hname => hne (hrep.unique hold hnode hname)
  have hiff : node.m_parent = some i ↔ old.m_name = node.m_name.dropLast := by
    rw [hrep.parent_iff hwf hnode hold, eq_comm (a := old.m_name)]
    refine ⟨And.right, fun hdrop => ⟨fun hnil => hnotName ?_, hdrop⟩⟩
    rw [← hdrop, hnil]
    rfl
  have hparent : ∀ j, old.m_parent = some j →
      nameOf (erasedNodes ht.nodes entry node.m_parent) j = nameOf ht.nodes j := by
    intro j hj
    refine nameOf_erasedNodes ?_
    rintro rfl
    have hchild := (hrep.child_iff hwf hnode hold).mpr ((hrep.parent_iff hwf hold hnode).mp hj)
    rw [hleaf] at hchild
    exact List.not_mem_nil hchild
  have htree : removeNode tree shown old.m_name =
      some (if node.m_parent = some i then shown'.removeChild node.m_name else shown') := by
    rw [removeNode_eq hwf hshown, if_neg hnotName, hshown']
    by_cases hp : node.m_parent = some i
    · rw [if_pos hp, if_pos (hiff.mp hp)]
      rfl
    · rw [if_neg hp, if_neg fun hname => hp (hiff.mpr hname)]
  refine ⟨_, htree, ?_⟩
  by_cases hp : node.m_parent = some i
  · rw [if_pos hp, if_pos hp]
    refine ⟨hshows'.tables, hshows'.transfer_parent hparent, ?_⟩
    have hnodup := hrep.nodup_children hwf hold
    have hentry : nameOf ht.nodes entry = some node.m_name := by rw [nameOf, hnode, Option.map_some]
    calc (old.m_children.erase entry).map (nameOf (erasedNodes ht.nodes entry node.m_parent))
        = (old.m_children.erase entry).map (nameOf ht.nodes) :=
          List.map_congr_left fun j hj => nameOf_erasedNodes (hnodup.mem_erase_iff.mp hj).1
      _ = (old.m_children.map (nameOf ht.nodes)).erase (nameOf ht.nodes entry) :=
          map_erase_of_forall _ fun j _ hj => hrep.nameOf_eq hnode (hj.trans hentry)
      _ = (shown'.m_children.map some).erase (some node.m_name) := by rw [hshows'.children, hentry]
      _ = (shown'.m_children.erase node.m_name).map some :=
          (map_erase_of_forall some fun _ _ hname => Option.some.inj hname).symm
  · rw [if_neg hp, if_neg hp]
    refine hshows'.transfer hparent fun j hj => nameOf_erasedNodes ?_
    rintro rfl
    exact hp ((hrep.parent_iff hwf hnode hold).mpr ((hrep.child_iff hwf hold hnode).mp hj))

theorem represents_erased (options : HashtableOptions) (hrep : Represents compute ht tree) (hwf : WellFormed maxDepth tree)
    (hnode : ht.nodes entry = some node) (hleaf : node.m_children = []) (hshown : tree node.m_name = some shown) :
    Represents compute ((ht.unsetParent entry).erase options entry) (removeNode tree shown) := by
  obtain ⟨hnodes, hnew⟩ := erase_nodes options hnode
  have hchained := erase_chained options hrep hnode
  have hsame : ∀ {i : ℕ} {old : Node κ τ},
      (if node.m_parent = some i then old.eraseChild entry else old).m_name = old.m_name := by
    intro i old
    split <;> rfl
  refine ⟨by rw [hnodes]; exact hchained, ?_, ?_, ?_, ?_, ?_⟩
  · intro i object hobject
    rw [hnodes] at hobject
    obtain ⟨-, old, hold, rfl⟩ := erasedNodes_cases hobject
    have hhash := hrep.hash_eq hold
    split <;> exact hhash
  · intro i hsome
    rw [hnodes, erasedNodes_isSome] at hsome
    rw [hnew]
    exact hrep.fresh hsome.1
  · intro i j object other hobject hother hname
    rw [hnodes] at hobject hother
    obtain ⟨-, old, hold, rfl⟩ := erasedNodes_cases hobject
    obtain ⟨-, old', hold', rfl⟩ := erasedNodes_cases hother
    rw [hsame, hsame] at hname
    exact hrep.unique hold hold' hname
  · intro i object hobject
    rw [hnodes] at hobject ⊢
    obtain ⟨hne, old, hold, rfl⟩ := erasedNodes_cases hobject
    rw [hsame]
    exact shows_erased hrep hwf hnode hleaf hshown hne hold
  · intro name hsome
    rw [removeNode_isSome hwf hshown] at hsome
    obtain ⟨i, object, hobject, rfl⟩ := hrep.complete hsome.1
    have hne : i ≠ entry := by
      rintro rfl
      rw [hobject] at hnode
      exact hsome.2 (by rw [Option.some.inj hnode])
    have hname : nameOf (erasedNodes ht.nodes entry node.m_parent) i = nameOf ht.nodes i := nameOf_erasedNodes hne
    rw [nameOf, nameOf, hobject] at hname
    obtain ⟨object', hobject', hname'⟩ := Option.map_eq_some_iff.mp hname
    exact ⟨i, object', by rw [hnodes, hobject'], hname'⟩

theorem eraseLoop_spec (hrep : Represents compute ht tree) (hwf : WellFormed maxDepth tree) (rounds : ℕ)
    {entry : Option ℕ} {name : Option (List κ)} (hname : entry.map (nameOf ht.nodes) = name.map some) :
    Represents compute (ht.eraseLoop options hasTableEntries canEraseAncestors rounds entry)
      (NameTree.eraseLoop hasTableEntries canEraseAncestors rounds tree name) := by
  induction rounds generalizing ht tree entry name with
  | zero => exact hrep
  | succ rounds ih =>
    cases entry with
    | none =>
      obtain rfl : name = none := Option.map_eq_none_iff.mp hname.symm
      exact hrep
    | some entry =>
      obtain ⟨name, rfl, hentry⟩ := Option.map_eq_some_iff.mp hname.symm
      obtain ⟨node, hnode, rfl⟩ := Option.map_eq_some_iff.mp hentry.symm
      obtain ⟨shown, hshown, hshows⟩ := hrep.shows hnode
      simp only [Hashtable.eraseLoop, NameTree.eraseLoop, hnode, hshown, children_eq_nil_iff hshows, hshows.tables]
      split
      · rename_i hempty
        have hleaf := (children_eq_nil_iff hshows).mpr hempty.1
        have hrep' := represents_erased options hrep hwf hnode hleaf hshown
        have hwf' := wellFormed_removeNode hwf hshown hempty.1
        split
        · refine ih hrep' hwf' (hshows.transfer_parent fun i hi => ?_)
          rw [(erase_nodes options hnode).1]
          refine erasedNodes_map Node.m_name (fun _ => rfl) _ _ ?_
          rintro rfl
          obtain ⟨hne, hdrop⟩ := (hrep.parent_iff hwf hnode hnode).mp hi
          exact dropLast_ne hne hdrop
        · exact hrep'
      · exact hrep

theorem eraseIfEmpty_spec (options : HashtableOptions) (hasTableEntries : τ → Bool) (canEraseAncestors : Bool)
    (hrep : Represents compute ht tree) (hwf : WellFormed maxDepth tree)
    (hnode : ht.nodes entry = some node) :
    Represents compute (ht.eraseIfEmpty options hasTableEntries entry canEraseAncestors)
      (NameTree.eraseIfEmpty hasTableEntries tree node.m_name canEraseAncestors) := by
  rw [Hashtable.eraseIfEmpty, hnode]
  exact eraseLoop_spec hrep hwf _ (by rw [Option.map_some, Option.map_some, nameOf, hnode, Option.map_some])

end Erase

section Tables

variable {options : HashtableOptions} {compute : κ → ℕ} {noTables : τ} {ht : Hashtable κ τ} {tree : Tree κ τ}
  {maxDepth entry : ℕ}

theorem setTables_nodes {f : τ → τ} {i : ℕ} {object : Node κ τ} (hobject : (ht.setTables entry f).nodes i = some object) :
    ∃ old, ht.nodes i = some old ∧ object = { old with tables := if i = entry then f old.tables else old.tables } := by
  simp only [Hashtable.setTables, modifyNode] at hobject
  split at hobject
  · rename_i heq
    obtain ⟨old, hold, rfl⟩ := Option.map_eq_some_iff.mp hobject
    exact ⟨old, by rw [heq, hold], by rw [if_pos heq]; rfl⟩
  · rename_i hne
    exact ⟨object, hobject, by rw [if_neg hne]⟩

variable [DecidableEq κ]

theorem setTables_spec (hrep : Represents compute ht tree) {node : Node κ τ}
    (hnode : ht.nodes entry = some node) (f : τ → τ) :
    Represents compute (ht.setTables entry f) (NameTree.modify tree node.m_name (NameTree.Entry.setTables f)) := by
  have hmap : ∀ {α : Type} (g : Node κ τ → α), (∀ object, g (Node.setTables f object) = g object) → ∀ i,
      ((ht.setTables entry f).nodes i).map g = (ht.nodes i).map g := by
    intro α g hg i
    simp only [Hashtable.setTables, modifyNode]
    split
    · rename_i heq
      rw [heq, Option.map_map]
      exact congrArg (fun g => Option.map g (ht.nodes entry)) (funext hg)
    · rfl
  have hsome : ∀ i, ((ht.setTables entry f).nodes i).isSome ↔ (ht.nodes i).isSome := by
    intro i
    rw [← Option.isSome_map (f := Node.m_name), hmap Node.m_name (fun _ => rfl), Option.isSome_map]
  have hshows : ∀ {object : Node κ τ} {shown : NameTree.Entry κ τ}, Shows ht.nodes object shown →
      Shows (ht.setTables entry f).nodes object shown := fun h =>
    h.transfer (fun i _ => hmap Node.m_name (fun _ => rfl) i) fun i _ => hmap Node.m_name (fun _ => rfl) i
  refine ⟨?_, ?_, ?_, ?_, ?_, ?_⟩
  · refine hrep.chained.congr hsome fun i _ => ?_
    rw [hashOf, hashOf, hmap Node.hash fun _ => rfl]
  · intro i object hobject
    obtain ⟨old, hold, rfl⟩ := setTables_nodes hobject
    have hhash := hrep.hash_eq hold
    exact hhash
  · intro i h
    exact hrep.fresh ((hsome i).mp h)
  · intro i j object other hobject hother hname
    obtain ⟨old, hold, rfl⟩ := setTables_nodes hobject
    obtain ⟨old', hold', rfl⟩ := setTables_nodes hother
    exact hrep.unique hold hold' hname
  · intro i object hobject
    obtain ⟨old, hold, rfl⟩ := setTables_nodes hobject
    obtain ⟨shown, hshown, h⟩ := hrep.shows hold
    have h' := hshows h
    by_cases hi : i = entry
    · subst hi
      rw [hnode] at hold
      obtain rfl := Option.some.inj hold
      refine ⟨shown.setTables f, by rw [NameTree.modify, if_pos rfl, hshown]; rfl, ?_, h'.parent, h'.children⟩
      rw [if_pos rfl, ← h.tables]
      rfl
    · have hne : old.m_name ≠ node.m_name := fun hname => hi (hrep.unique hold hnode hname)
      refine ⟨shown, by rw [NameTree.modify, if_neg hne, hshown], ?_, h'.parent, h'.children⟩
      rw [if_neg hi]
      exact h.tables
  · intro name h
    rw [modify_isSome] at h
    obtain ⟨i, object, hobject, rfl⟩ := hrep.complete h
    have hname := hmap Node.m_name (fun _ => rfl) i
    rw [hobject] at hname
    obtain ⟨object', hobject', hname'⟩ := Option.map_eq_some_iff.mp hname
    exact ⟨i, object', hobject', hname'⟩

theorem findExactMatch_iff (hrep : Represents compute ht tree) (hwf : WellFormed maxDepth tree) {name : List κ}
    {prefixLen i : ℕ} : ht.findExactMatch options compute noTables maxDepth name prefixLen = some i ↔
      ∃ node, ht.nodes i = some node ∧ node.m_name = name.take prefixLen := by
  have htake : name.take (min name.length prefixLen) = name.take prefixLen := by
    rw [Nat.min_comm, ← List.take_take, List.take_length]
  have hfind : ht.find options compute noTables name (min name.length prefixLen) =
      ht.findNode (name.take prefixLen) (computeHash compute (name.take prefixLen) (name.take prefixLen).length) := by
    rw [Hashtable.find, Hashtable.findOrInsert, ← computeHash_take, htake]
    split <;> rename_i heq <;> rw [heq]
    rfl
  rw [Hashtable.findExactMatch]
  split
  · rename_i hdeep
    constructor
    · intro h
      cases h
    · rintro ⟨node, hnode, hname⟩
      have hlength := hwf.length_le ((hrep.isSome_iff _).mpr ⟨i, node, hnode, hname⟩)
      rw [List.length_take, Nat.min_comm] at hlength
      omega
  · rw [hfind]
    exact hrep.find_iff

end Tables

end LeoNdn.NameTreeHashtable
