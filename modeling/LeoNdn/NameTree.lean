import Mathlib.Data.List.Nodup

/-!
A tree of names whose nodes are found by name, with tables attached to the
nodes. Components and tables are of any type.
-/

namespace LeoNdn.NameTree

structure Entry (κ τ : Type) where
  m_name : List κ
  m_parent : Option (List κ)
  m_children : List (List κ)
  tables : τ

/-- What the hash table finds; a node is known by its name. -/
abbrev Tree (κ τ : Type) := List κ → Option (Entry κ τ)

variable {κ τ : Type}

def empty : Tree κ τ := fun _ => none

def Entry.addChild (child : List κ) (entry : Entry κ τ) : Entry κ τ :=
  { entry with m_children := entry.m_children ++ [child] }

def Entry.setTables (f : τ → τ) (entry : Entry κ τ) : Entry κ τ := { entry with tables := f entry.tables }

section Operations

variable [DecidableEq κ]

def Entry.removeChild (child : List κ) (entry : Entry κ τ) : Entry κ τ :=
  { entry with m_children := entry.m_children.erase child }

def set (tree : Tree κ τ) (name : List κ) (entry : Option (Entry κ τ)) : Tree κ τ :=
  fun name' => if name' = name then entry else tree name'

def modify (tree : Tree κ τ) (name : List κ) (f : Entry κ τ → Entry κ τ) : Tree κ τ :=
  fun name' => if name' = name then (tree name).map f else tree name'

/-- One round of the loop in `lookup`. -/
def insertNode (noTables : τ) (tree : Tree κ τ) (name : List κ) : Tree κ τ :=
  if (tree name).isSome then tree
  else if name = [] then set tree [] (some ⟨[], none, [], noTables⟩)
  else modify (set tree name (some ⟨name, some name.dropLast, [], noTables⟩)) name.dropLast (Entry.addChild name)

def lookup (noTables : τ) (tree : Tree κ τ) (name : List κ) (prefixLen : ℕ) : Tree κ τ :=
  (List.range (prefixLen + 1)).foldl (fun tree i => insertNode noTables tree (name.take i)) tree

def removeNode (tree : Tree κ τ) (entry : Entry κ τ) : Tree κ τ :=
  match entry.m_parent with
  | none => set tree entry.m_name none
  | some parent => set (modify tree parent (Entry.removeChild entry.m_name)) entry.m_name none

/-- The loop in `eraseIfEmpty`; the names of the parents get shorter. -/
def eraseLoop (hasTableEntries : τ → Bool) (canEraseAncestors : Bool) : ℕ → Tree κ τ → Option (List κ) → Tree κ τ
  | 0, tree, _ => tree
  | _, tree, none => tree
  | rounds + 1, tree, some name =>
    match tree name with
    | none => tree
    | some entry =>
      if entry.m_children = [] ∧ hasTableEntries entry.tables = false then
        if canEraseAncestors then eraseLoop hasTableEntries canEraseAncestors rounds (removeNode tree entry) entry.m_parent
        else removeNode tree entry
      else tree

def eraseIfEmpty (hasTableEntries : τ → Bool) (tree : Tree κ τ) (name : List κ) (canEraseAncestors : Bool) : Tree κ τ :=
  eraseLoop hasTableEntries canEraseAncestors (name.length + 1) tree (some name)

/-- `erasePitEntry`: the last element takes the place of the one that is erased. -/
def eraseByLast {α : Type} [DecidableEq α] (a : α) (elements : List α) : List α :=
  match elements.getLast? with
  | none => []
  | some last => (elements.set (elements.idxOf a) last).dropLast

def findExactMatch (tree : Tree κ τ) (name : List κ) : Option (Entry κ τ) := tree name

/-- `findLongestPrefixMatch` of a name, from the given depth up. -/
def findLongestFrom (tree : Tree κ τ) (name : List κ) (entrySelector : Entry κ τ → Bool) : ℕ → Option (Entry κ τ)
  | 0 => (tree []).filter entrySelector
  | i + 1 =>
    match (tree (name.take (i + 1))).filter entrySelector with
    | some entry => some entry
    | none => findLongestFrom tree name entrySelector i

def findLongestPrefixMatch (maxDepth : ℕ) (tree : Tree κ τ) (name : List κ) (entrySelector : Entry κ τ → Bool) :
    Option (Entry κ τ) :=
  findLongestFrom tree name entrySelector (min name.length maxDepth)

/-- `findLongestPrefixMatch` of an entry; the names of the parents get shorter. -/
def findLongestAbove (tree : Tree κ τ) (entrySelector : Entry κ τ → Bool) : ℕ → Option (List κ) → Option (Entry κ τ)
  | 0, _ => none
  | _, none => none
  | rounds + 1, some name =>
    match tree name with
    | none => none
    | some entry => if entrySelector entry then some entry else findLongestAbove tree entrySelector rounds entry.m_parent

/-- The loop that goes deeper along the name, from depth `i` for so many rounds. -/
def goDeeper (tree : Tree κ τ) (name : List κ) : ℕ → ℕ → List κ → List κ
  | 0, _, nte => nte
  | rounds + 1, i, nte =>
    match findExactMatch tree (name.take i) with
    | none => nte
    | some exact => goDeeper tree name rounds (i + 1) exact.m_name

/-- `findLongestPrefixMatch` of a PIT entry of the name that is attached to `nte`. -/
def findLongestPrefixMatchOfPit (maxDepth : ℕ) (tree : Tree κ τ) (nte name : List κ)
    (entrySelector : Entry κ τ → Bool) :
    Option (Entry κ τ) :=
  let depth := min name.length maxDepth
  let nte := if nte.length < name.length then goDeeper tree name (depth - nte.length) (nte.length + 1) nte else nte
  findLongestAbove tree entrySelector (nte.length + 1) (some nte)

end Operations

def tablesAt (noTables : τ) (tree : Tree κ τ) (name : List κ) : τ := ((tree name).map Entry.tables).getD noTables

structure WellFormed (maxDepth : ℕ) (tree : Tree κ τ) : Prop where
  name_eq : ∀ {name entry}, tree name = some entry → entry.m_name = name
  parent_eq : ∀ {name entry}, tree name = some entry → entry.m_parent = if name = [] then none else some name.dropLast
  parent_isSome : ∀ {name}, (tree name).isSome → (tree name.dropLast).isSome
  mem_children : ∀ {name entry}, tree name = some entry → ∀ child,
    child ∈ entry.m_children ↔ child ≠ [] ∧ child.dropLast = name ∧ (tree child).isSome
  nodup_children : ∀ {name entry}, tree name = some entry → entry.m_children.Nodup
  length_le : ∀ {name}, (tree name).isSome → name.length ≤ maxDepth

theorem wellFormed_empty (maxDepth : ℕ) : WellFormed maxDepth (empty : Tree κ τ) := by
  refine ⟨?_, ?_, ?_, ?_, ?_, ?_⟩ <;> intros <;> simp_all [empty]

theorem dropLast_ne {name : List κ} (hne : name ≠ []) : name.dropLast ≠ name := by
  intro h
  have hlength := congrArg List.length h
  have hpos := List.length_pos_iff.mpr hne
  rw [List.length_dropLast] at hlength
  omega

theorem prefix_dropLast {name shorter : List κ} (hle : shorter <+: name) (hne : shorter ≠ name) : shorter <+: name.dropLast := by
  obtain ⟨rest, rfl⟩ := hle
  have hrest : rest ≠ [] := by
    rintro rfl
    exact hne (List.append_nil shorter).symm
  rw [List.dropLast_append_of_ne_nil hrest]
  exact List.prefix_append _ _

section Insert

variable [DecidableEq κ] {maxDepth : ℕ} {noTables : τ} {tree : Tree κ τ} {name : List κ}

def newEntry (noTables : τ) (name : List κ) : Entry κ τ :=
  ⟨name, if name = [] then none else some name.dropLast, [], noTables⟩

theorem insertNode_of_isSome (h : (tree name).isSome) : insertNode noTables tree name = tree := if_pos h

theorem insertNode_of_none (h : tree name = none) (name' : List κ) :
    insertNode noTables tree name name' =
      if name' = name then some (newEntry noTables name)
      else if name' = name.dropLast then (tree name').map (Entry.addChild name)
      else tree name' := by
  by_cases hne : name = []
  · subst hne
    simp only [insertNode, h, Option.isSome_none, Bool.false_eq_true, if_false, if_true, set, newEntry]
    split
    · rfl
    · rename_i hname
      exact (if_neg hname).symm
  · simp only [insertNode, h, Option.isSome_none, Bool.false_eq_true, if_false, hne, modify, set, newEntry]
    by_cases hname : name' = name
    · subst hname
      rw [if_neg (dropLast_ne hne).symm, if_pos rfl, if_pos rfl]
    · by_cases hparent : name' = name.dropLast
      · subst hparent
        simp [dropLast_ne hne]
      · simp [hname, hparent]

theorem insertNode_isSome (name name' : List κ) :
    (insertNode noTables tree name name').isSome ↔ (tree name').isSome ∨ name' = name := by
  by_cases h : (tree name).isSome
  · rw [insertNode_of_isSome h]
    exact ⟨Or.inl, fun h' => h'.elim id (fun h' => h' ▸ h)⟩
  · rw [insertNode_of_none (Option.not_isSome_iff_eq_none.mp h)]
    by_cases hname : name' = name
    · simp [hname]
    · rw [if_neg hname]
      split <;> simp [hname]

theorem insertNode_cases (h : tree name = none) {name' : List κ} {entry : Entry κ τ}
    (hentry : insertNode noTables tree name name' = some entry) :
    (name' = name ∧ entry = newEntry noTables name) ∨
      (name' ≠ name ∧ ∃ old, tree name' = some old ∧
        entry = if name' = name.dropLast then old.addChild name else old) := by
  rw [insertNode_of_none h] at hentry
  by_cases hname : name' = name
  · rw [if_pos hname] at hentry
    exact Or.inl ⟨hname, (Option.some.inj hentry).symm⟩
  · rw [if_neg hname] at hentry
    refine Or.inr ⟨hname, ?_⟩
    by_cases hparent : name' = name.dropLast
    · rw [if_pos hparent] at hentry
      obtain ⟨old, hold, rfl⟩ := Option.map_eq_some_iff.mp hentry
      exact ⟨old, hold, by rw [if_pos hparent]⟩
    · rw [if_neg hparent] at hentry
      exact ⟨entry, hentry, by rw [if_neg hparent]⟩

theorem wellFormed_insertNode (hwf : WellFormed maxDepth tree) (hparent : name ≠ [] → (tree name.dropLast).isSome)
    (hlength : name.length ≤ maxDepth) : WellFormed maxDepth (insertNode noTables tree name) := by
  by_cases h : (tree name).isSome
  · rw [insertNode_of_isSome h]
    exact hwf
  have hnone : tree name = none := Option.not_isSome_iff_eq_none.mp h
  refine ⟨?_, ?_, ?_, ?_, ?_, ?_⟩
  · intro name' entry hentry
    rcases insertNode_cases hnone hentry with ⟨rfl, rfl⟩ | ⟨-, old, hold, rfl⟩
    · rfl
    · have hname := hwf.name_eq hold
      split <;> exact hname
  · intro name' entry hentry
    rcases insertNode_cases hnone hentry with ⟨rfl, rfl⟩ | ⟨-, old, hold, rfl⟩
    · rfl
    · have hparent := hwf.parent_eq hold
      split <;> exact hparent
  · intro name' hname'
    rw [insertNode_isSome] at hname' ⊢
    rcases hname' with hname' | rfl
    · exact Or.inl (hwf.parent_isSome hname')
    · by_cases hne : name' = []
      · exact Or.inr (by rw [hne]; rfl)
      · exact Or.inl (hparent hne)
  · intro name' entry hentry child
    rw [insertNode_isSome]
    rcases insertNode_cases hnone hentry with ⟨rfl, rfl⟩ | ⟨hname', old, hold, rfl⟩
    · simp only [newEntry, List.not_mem_nil, false_iff]
      rintro ⟨hne, hdrop, hchild | rfl⟩
      · exact h (hdrop ▸ hwf.parent_isSome hchild)
      · exact dropLast_ne hne hdrop
    · have hold' := hwf.mem_children hold child
      split
      · rename_i heq
        simp only [Entry.addChild, List.mem_append, List.mem_singleton, hold']
        constructor
        · rintro (⟨hne, hdrop, hchild⟩ | rfl)
          · exact ⟨hne, hdrop, Or.inl hchild⟩
          · exact ⟨fun hnil => hname' (by rw [heq, hnil]; rfl), heq.symm, Or.inr rfl⟩
        · rintro ⟨hne, hdrop, hchild | rfl⟩
          · exact Or.inl ⟨hne, hdrop, hchild⟩
          · exact Or.inr rfl
      · rename_i heq
        rw [hold']
        constructor
        · rintro ⟨hne, hdrop, hchild⟩
          exact ⟨hne, hdrop, Or.inl hchild⟩
        · rintro ⟨hne, hdrop, hchild | rfl⟩
          · exact ⟨hne, hdrop, hchild⟩
          · exact absurd hdrop.symm heq
  · intro name' entry hentry
    rcases insertNode_cases hnone hentry with ⟨rfl, rfl⟩ | ⟨-, old, hold, rfl⟩
    · exact List.nodup_nil
    · split
      · have hnot : name ∉ old.m_children := fun hmem => h ((hwf.mem_children hold name).mp hmem).2.2
        refine List.nodup_append.mpr ⟨hwf.nodup_children hold, List.nodup_singleton name, ?_⟩
        rintro child hchild child' hchild' rfl
        exact hnot (List.mem_singleton.mp hchild' ▸ hchild)
      · exact hwf.nodup_children hold
  · intro name' hname'
    rcases (insertNode_isSome name name').mp hname' with hname' | rfl
    · exact hwf.length_le hname'
    · exact hlength

theorem insertNode_tablesAt (name name' : List κ) :
    tablesAt noTables (insertNode noTables tree name) name' = tablesAt noTables tree name' := by
  by_cases h : (tree name).isSome
  · rw [insertNode_of_isSome h]
  · have hnone : tree name = none := Option.not_isSome_iff_eq_none.mp h
    rw [tablesAt, tablesAt, insertNode_of_none hnone]
    by_cases hname : name' = name
    · rw [if_pos hname, hname, hnone]
      rfl
    · rw [if_neg hname]
      split
      · cases tree name' <;> rfl
      · rfl

theorem lookup_succ (prefixLen : ℕ) :
    lookup noTables tree name (prefixLen + 1) =
      insertNode noTables (lookup noTables tree name prefixLen) (name.take (prefixLen + 1)) := by
  rw [lookup, List.range_succ, List.foldl_append]
  rfl

theorem lookup_tablesAt (prefixLen : ℕ) (name' : List κ) :
    tablesAt noTables (lookup noTables tree name prefixLen) name' = tablesAt noTables tree name' := by
  induction prefixLen with
  | zero => exact insertNode_tablesAt _ _
  | succ prefixLen ih => rw [lookup_succ, insertNode_tablesAt, ih]

theorem lookup_isSome (prefixLen : ℕ) (name' : List κ) :
    (lookup noTables tree name prefixLen name').isSome ↔
      (tree name').isSome ∨ ∃ i ≤ prefixLen, name' = name.take i := by
  induction prefixLen with
  | zero =>
    refine (insertNode_isSome _ _).trans (or_congr_right ?_)
    simp
  | succ prefixLen ih =>
    rw [lookup_succ, insertNode_isSome, ih, or_assoc]
    refine or_congr_right ⟨?_, ?_⟩
    · rintro (⟨i, hi, rfl⟩ | rfl)
      · exact ⟨i, by omega, rfl⟩
      · exact ⟨prefixLen + 1, Nat.le_refl _, rfl⟩
    · rintro ⟨i, hi, rfl⟩
      rcases Nat.lt_or_ge prefixLen i with hlt | hge
      · exact Or.inr (by rw [show i = prefixLen + 1 by omega])
      · exact Or.inl ⟨i, hge, rfl⟩

theorem wellFormed_lookup (hwf : WellFormed maxDepth tree) {prefixLen : ℕ} (hname : prefixLen ≤ name.length)
    (hdepth : prefixLen ≤ maxDepth) : WellFormed maxDepth (lookup noTables tree name prefixLen) := by
  induction prefixLen with
  | zero => exact wellFormed_insertNode hwf (fun hne => absurd rfl hne) (Nat.zero_le _)
  | succ prefixLen ih =>
    rw [lookup_succ]
    refine wellFormed_insertNode (ih (by omega) (by omega)) (fun _ => ?_) ?_
    · rw [lookup_isSome]
      refine Or.inr ⟨prefixLen, Nat.le_refl _, ?_⟩
      rw [List.dropLast_eq_take, List.take_take, List.length_take]
      congr 1
      omega
    · rw [List.length_take]
      omega

end Insert

theorem eraseByLast_perm {α : Type} [DecidableEq α] {a : α} {elements : List α} (h : a ∈ elements) :
    (eraseByLast a elements).Perm (elements.erase a) := by
  obtain ⟨before, after, rfl, hnot⟩ := List.eq_append_cons_of_mem h
  have hidx : (before ++ a :: after).idxOf a = before.length := by
    rw [List.idxOf_append_of_notMem hnot, List.idxOf_cons_self, Nat.add_zero]
  have herase : (before ++ a :: after).erase a = before ++ after := by
    rw [List.erase_append_right _ hnot, List.erase_cons_head]
  rw [eraseByLast, hidx, herase]
  rcases List.eq_nil_or_concat after with rfl | ⟨middle, last, rfl⟩
  · simp
  · rw [List.concat_eq_append, ← List.cons_append, ← List.append_assoc, List.getLast?_append_of_ne_nil _ (by simp)]
    simp only [List.getLast?_singleton, List.append_assoc, List.cons_append]
    rw [List.set_append_right _ _ (Nat.le_refl _), Nat.sub_self, List.set_cons_zero, ← List.cons_append,
      ← List.append_assoc, List.dropLast_concat]
    exact (List.perm_append_singleton _ _).symm.append_left before

section Erase

variable [DecidableEq κ] {maxDepth : ℕ} {noTables : τ} {tree : Tree κ τ} {name : List κ} {entry : Entry κ τ}

theorem removeNode_eq (hwf : WellFormed maxDepth tree) (hentry : tree name = some entry) (name' : List κ) :
    removeNode tree entry name' =
      if name' = name then none
      else if name' = name.dropLast then (tree name').map (Entry.removeChild name)
      else tree name' := by
  simp only [removeNode, hwf.parent_eq hentry, hwf.name_eq hentry]
  by_cases hne : name = []
  · subst hne
    simp only [if_true, set, List.dropLast_nil]
    split
    · rfl
    · rfl
  · simp only [hne, if_false, set, modify]
    split
    · rfl
    · split
      · rename_i hparent
        rw [hparent]
      · rfl

theorem removeNode_cases (hwf : WellFormed maxDepth tree) (hentry : tree name = some entry) {name' : List κ}
    {entry' : Entry κ τ} (h : removeNode tree entry name' = some entry') :
    name' ≠ name ∧ ∃ old, tree name' = some old ∧
      entry' = if name' = name.dropLast then old.removeChild name else old := by
  rw [removeNode_eq hwf hentry] at h
  by_cases hname : name' = name
  · rw [if_pos hname] at h
    cases h
  · rw [if_neg hname] at h
    refine ⟨hname, ?_⟩
    by_cases hparent : name' = name.dropLast
    · rw [if_pos hparent] at h
      obtain ⟨old, hold, rfl⟩ := Option.map_eq_some_iff.mp h
      exact ⟨old, hold, by rw [if_pos hparent]⟩
    · rw [if_neg hparent] at h
      exact ⟨entry', h, by rw [if_neg hparent]⟩

theorem removeNode_isSome (hwf : WellFormed maxDepth tree) (hentry : tree name = some entry) (name' : List κ) :
    (removeNode tree entry name').isSome ↔ (tree name').isSome ∧ name' ≠ name := by
  rw [removeNode_eq hwf hentry]
  split
  · rename_i hname
    simp [hname]
  · rename_i hname
    split <;> simp [hname]

theorem wellFormed_removeNode (hwf : WellFormed maxDepth tree) (hentry : tree name = some entry)
    (hleaf : entry.m_children = []) : WellFormed maxDepth (removeNode tree entry) := by
  have hchildless : ∀ child, (tree child).isSome → child ≠ [] → child.dropLast ≠ name := by
    intro child hchild hne hdrop
    have hmem := (hwf.mem_children hentry child).mpr ⟨hne, hdrop, hchild⟩
    rw [hleaf] at hmem
    exact List.not_mem_nil hmem
  refine ⟨?_, ?_, ?_, ?_, ?_, ?_⟩
  · intro name' entry' h
    obtain ⟨-, old, hold, rfl⟩ := removeNode_cases hwf hentry h
    have hname := hwf.name_eq hold
    split <;> exact hname
  · intro name' entry' h
    obtain ⟨-, old, hold, rfl⟩ := removeNode_cases hwf hentry h
    have hparent := hwf.parent_eq hold
    split <;> exact hparent
  · intro name' h
    rw [removeNode_isSome hwf hentry] at h ⊢
    refine ⟨hwf.parent_isSome h.1, ?_⟩
    by_cases hne : name' = []
    · subst hne
      exact h.2
    · exact hchildless name' h.1 hne
  · intro name' entry' h child
    obtain ⟨hname', old, hold, rfl⟩ := removeNode_cases hwf hentry h
    rw [removeNode_isSome hwf hentry]
    have hold' := hwf.mem_children hold child
    split
    · simp only [Entry.removeChild, (hwf.nodup_children hold).mem_erase_iff, hold']
      constructor
      · rintro ⟨hne, hnil, hdrop, hchild⟩
        exact ⟨hnil, hdrop, hchild, hne⟩
      · rintro ⟨hnil, hdrop, hchild, hne⟩
        exact ⟨hne, hnil, hdrop, hchild⟩
    · rename_i heq
      rw [hold']
      constructor
      · rintro ⟨hnil, hdrop, hchild⟩
        exact ⟨hnil, hdrop, hchild, fun hname => heq (by rw [← hname, hdrop])⟩
      · rintro ⟨hnil, hdrop, hchild, -⟩
        exact ⟨hnil, hdrop, hchild⟩
  · intro name' entry' h
    obtain ⟨-, old, hold, rfl⟩ := removeNode_cases hwf hentry h
    have hnodup := hwf.nodup_children hold
    split
    · exact hnodup.erase name
    · exact hnodup
  · intro name' h
    exact hwf.length_le ((removeNode_isSome hwf hentry name').mp h).1

theorem removeNode_tablesAt (hwf : WellFormed maxDepth tree) (hentry : tree name = some entry)
    (hno : entry.tables = noTables) (name' : List κ) :
    tablesAt noTables (removeNode tree entry) name' = tablesAt noTables tree name' := by
  rw [tablesAt, tablesAt, removeNode_eq hwf hentry]
  by_cases hname : name' = name
  · rw [if_pos hname, hname, hentry]
    exact hno.symm
  · rw [if_neg hname]
    split
    · cases tree name' <;> rfl
    · rfl

variable {hasTableEntries : τ → Bool} {canEraseAncestors : Bool}

theorem wellFormed_eraseLoop (hwf : WellFormed maxDepth tree) (rounds : ℕ) (name : Option (List κ)) :
    WellFormed maxDepth (eraseLoop hasTableEntries canEraseAncestors rounds tree name) := by
  induction rounds generalizing tree name with
  | zero => exact hwf
  | succ rounds ih =>
    cases name with
    | none => exact hwf
    | some name =>
      simp only [eraseLoop]
      cases hentry : tree name with
      | none => exact hwf
      | some entry =>
        dsimp only
        split
        · rename_i hempty
          have hwf' := wellFormed_removeNode hwf hentry hempty.1
          split
          · exact ih hwf' entry.m_parent
          · exact hwf'
        · exact hwf

theorem eraseLoop_tablesAt (hno : ∀ tables, hasTableEntries tables = false → tables = noTables)
    (hwf : WellFormed maxDepth tree) (rounds : ℕ) (name : Option (List κ)) (name' : List κ) :
    tablesAt noTables (eraseLoop hasTableEntries canEraseAncestors rounds tree name) name' = tablesAt noTables tree name' := by
  induction rounds generalizing tree name with
  | zero => rfl
  | succ rounds ih =>
    cases name with
    | none => rfl
    | some name =>
      simp only [eraseLoop]
      cases hentry : tree name with
      | none => rfl
      | some entry =>
        dsimp only
        split
        · rename_i hempty
          have hwf' := wellFormed_removeNode hwf hentry hempty.1
          have htables := removeNode_tablesAt hwf hentry (hno _ hempty.2) name'
          split
          · exact (ih hwf' entry.m_parent).trans htables
          · exact htables
        · rfl

end Erase

section LongestPrefixMatch

variable {maxDepth : ℕ} {tree : Tree κ τ} {name : List κ} {entrySelector : Entry κ τ → Bool}

theorem isSome_take (hwf : WellFormed maxDepth tree) {name : List κ} (h : (tree name).isSome) (i : ℕ) :
    (tree (name.take i)).isSome := by
  induction hlength : name.length - i generalizing name with
  | zero =>
    rw [List.take_of_length_le (by omega)]
    exact h
  | succ k ih =>
    have hdrop := ih (hwf.parent_isSome h) (by rw [List.length_dropLast]; omega)
    rwa [List.dropLast_eq_take, List.take_take, Nat.min_eq_left (by omega)] at hdrop

theorem findLongestFrom_eq_some {n : ℕ} {entry : Entry κ τ} :
    findLongestFrom tree name entrySelector n = some entry ↔ ∃ i ≤ n, tree (name.take i) = some entry ∧
      entrySelector entry = true ∧ ∀ j, i < j → j ≤ n → (tree (name.take j)).filter entrySelector = none := by
  induction n with
  | zero =>
    rw [findLongestFrom, Option.filter_eq_some_iff]
    constructor
    · exact fun h => ⟨0, Nat.le_refl 0, h.1, h.2, fun j hj hj' => by omega⟩
    · rintro ⟨i, hi, h, h', -⟩
      obtain rfl := Nat.le_zero.mp hi
      exact ⟨h, h'⟩
  | succ n ih =>
    rw [findLongestFrom]
    cases hfilter : (tree (name.take (n + 1))).filter entrySelector with
    | some entry' =>
      dsimp only
      obtain ⟨hentry', hselect'⟩ := Option.filter_eq_some_iff.mp hfilter
      constructor
      · intro h
        obtain rfl := Option.some.inj h
        exact ⟨n + 1, Nat.le_refl _, hentry', hselect', fun j hj hj' => by omega⟩
      · rintro ⟨i, hi, h, -, hlonger⟩
        have heq : i = n + 1 := by
          by_contra hne
          have hnone := hlonger (n + 1) (by omega) (Nat.le_refl _)
          rw [hfilter] at hnone
          cases hnone
        rw [heq, hentry'] at h
        exact h
    | none =>
      dsimp only
      rw [ih]
      constructor
      · rintro ⟨i, hi, h, hselect, hlonger⟩
        refine ⟨i, by omega, h, hselect, fun j hj hj' => ?_⟩
        rcases Nat.lt_or_ge n j with hlt | hge
        · rw [show j = n + 1 by omega, hfilter]
        · exact hlonger j hj hge
      · rintro ⟨i, hi, h, hselect, hlonger⟩
        refine ⟨i, ?_, h, hselect, fun j hj hj' => hlonger j hj (by omega)⟩
        by_contra hlt
        rw [show i = n + 1 by omega] at h
        rw [h, Option.filter_some, hselect] at hfilter
        cases hfilter

theorem findLongestAbove_eq (hwf : WellFormed maxDepth tree) {n : ℕ} (hn : n ≤ name.length)
    (hsome : (tree (name.take n)).isSome) :
    findLongestAbove tree entrySelector (n + 1) (some (name.take n)) = findLongestFrom tree name entrySelector n := by
  induction n with
  | zero =>
    obtain ⟨entry, hentry⟩ := Option.isSome_iff_exists.mp hsome
    rw [List.take_zero] at hentry
    rw [findLongestAbove, findLongestFrom, List.take_zero, hentry, Option.filter_some]
    split <;> simp_all [findLongestAbove]
  | succ n ih =>
    obtain ⟨entry, hentry⟩ := Option.isSome_iff_exists.mp hsome
    have hparent := hwf.parent_eq hentry
    have hdrop : (name.take (n + 1)).dropLast = name.take n := by
      rw [List.dropLast_eq_take, List.take_take, List.length_take]
      congr 1
      omega
    have hne : name.take (n + 1) ≠ [] := List.ne_nil_of_length_pos (by rw [List.length_take]; omega)
    rw [if_neg hne, hdrop] at hparent
    have hsome' := hwf.parent_isSome hsome
    rw [hdrop] at hsome'
    rw [findLongestAbove, findLongestFrom, hentry, Option.filter_some]
    dsimp only
    by_cases hselect : entrySelector entry = true
    · rw [if_pos hselect, if_pos hselect]
    · rw [if_neg hselect, if_neg hselect, hparent]
      exact ih (by omega) hsome'

theorem goDeeper_spec [DecidableEq κ] (hwf : WellFormed maxDepth tree) (rounds i : ℕ) (hi : i + rounds ≤ name.length)
    (hsome : (tree (name.take i)).isSome) :
    ∃ j, goDeeper tree name rounds (i + 1) (name.take i) = name.take j ∧ i ≤ j ∧ j ≤ i + rounds ∧
      (tree (name.take j)).isSome ∧ ∀ k, j < k → k ≤ i + rounds → tree (name.take k) = none := by
  induction rounds generalizing i with
  | zero => exact ⟨i, rfl, Nat.le_refl i, Nat.le_refl i, hsome, fun k hk hk' => by omega⟩
  | succ rounds ih =>
    rw [goDeeper, findExactMatch]
    cases hexact : tree (name.take (i + 1)) with
    | none =>
      refine ⟨i, rfl, Nat.le_refl i, by omega, hsome, fun k hk hk' => ?_⟩
      by_contra hne
      have htake := isSome_take hwf (Option.isSome_iff_ne_none.mpr hne) (i + 1)
      rw [List.take_take, Nat.min_eq_left (by omega), hexact] at htake
      cases htake
    | some exact =>
      dsimp only
      rw [hwf.name_eq hexact]
      obtain ⟨j, hj, hle, hle', hsome', hnone⟩ := ih (i + 1) (by omega) (by rw [hexact]; rfl)
      exact ⟨j, hj, by omega, by omega, hsome', fun k hk hk' => hnone k hk (by omega)⟩

theorem findLongestFrom_skip {n m : ℕ} (hle : n ≤ m) (hnone : ∀ k, n < k → k ≤ m → tree (name.take k) = none) :
    findLongestFrom tree name entrySelector m = findLongestFrom tree name entrySelector n := by
  induction m with
  | zero => rw [Nat.le_zero.mp hle]
  | succ m ih =>
    rcases Nat.eq_or_lt_of_le hle with rfl | hlt
    · rfl
    · rw [findLongestFrom, hnone (m + 1) hlt (Nat.le_refl _)]
      exact ih (by omega) fun k hk hk' => hnone k hk (by omega)

theorem findLongestPrefixMatchOfPit_eq [DecidableEq κ] (hwf : WellFormed maxDepth tree) {depth : ℕ}
    (hdepth : depth ≤ min name.length maxDepth) (hsome : (tree (name.take depth)).isSome) :
    findLongestPrefixMatchOfPit maxDepth tree (name.take depth) name entrySelector =
      findLongestPrefixMatch maxDepth tree name entrySelector := by
  have hlength : (name.take depth).length = depth := by
    rw [List.length_take]
    omega
  unfold findLongestPrefixMatchOfPit findLongestPrefixMatch
  dsimp only
  split
  · rw [hlength]
    obtain ⟨j, hj, hle, hle', hsome', hnone⟩ := goDeeper_spec hwf (min name.length maxDepth - depth) depth (by omega) hsome
    rw [Nat.add_sub_cancel' hdepth] at hle' hnone
    rw [hj, findLongestFrom_skip hle' hnone]
    have hlength' : (name.take j).length = j := by
      rw [List.length_take]
      omega
    rw [hlength']
    exact findLongestAbove_eq hwf (by omega) hsome'
  · rename_i hge
    rw [hlength] at hge ⊢
    rw [show min name.length maxDepth = depth by omega]
    exact findLongestAbove_eq hwf (by omega) hsome

end LongestPrefixMatch

section Tables

variable [DecidableEq κ] {maxDepth : ℕ} {noTables : τ} {tree : Tree κ τ} {name : List κ} {f : τ → τ}

theorem modify_isSome (f : Entry κ τ → Entry κ τ) (name' : List κ) :
    (modify tree name f name').isSome ↔ (tree name').isSome := by
  unfold modify
  split
  · rename_i hname
    rw [hname, Option.isSome_map]
  · rfl

theorem setTables_cases {name' : List κ} {entry : Entry κ τ} (h : modify tree name (Entry.setTables f) name' = some entry) :
    ∃ old, tree name' = some old ∧ entry = { old with tables := if name' = name then f old.tables else old.tables } := by
  unfold modify at h
  split at h
  · rename_i hname
    subst hname
    obtain ⟨old, hold, rfl⟩ := Option.map_eq_some_iff.mp h
    exact ⟨old, hold, by rw [if_pos rfl]; rfl⟩
  · rename_i hname
    exact ⟨entry, h, by rw [if_neg hname]⟩

theorem wellFormed_setTables (hwf : WellFormed maxDepth tree) :
    WellFormed maxDepth (modify tree name (Entry.setTables f)) := by
  refine ⟨?_, ?_, ?_, ?_, ?_, ?_⟩
  · intro name' entry h
    obtain ⟨old, hold, rfl⟩ := setTables_cases h
    have hname := hwf.name_eq hold
    exact hname
  · intro name' entry h
    obtain ⟨old, hold, rfl⟩ := setTables_cases h
    have hparent := hwf.parent_eq hold
    exact hparent
  · intro name' h
    rw [modify_isSome] at h ⊢
    exact hwf.parent_isSome h
  · intro name' entry h child
    obtain ⟨old, hold, rfl⟩ := setTables_cases h
    rw [modify_isSome]
    exact hwf.mem_children hold child
  · intro name' entry h
    obtain ⟨old, hold, rfl⟩ := setTables_cases h
    have hnodup := hwf.nodup_children hold
    exact hnodup
  · intro name' h
    rw [modify_isSome] at h
    exact hwf.length_le h

theorem setTables_tablesAt (h : (tree name).isSome) (name' : List κ) :
    tablesAt noTables (modify tree name (Entry.setTables f)) name' =
      if name' = name then f (tablesAt noTables tree name) else tablesAt noTables tree name' := by
  obtain ⟨entry, hentry⟩ := Option.isSome_iff_exists.mp h
  rw [tablesAt, tablesAt, tablesAt, modify]
  split
  · rw [hentry]
    rfl
  · rfl

end Tables

end LeoNdn.NameTree
