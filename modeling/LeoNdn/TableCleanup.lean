import LeoNdn.NameTreeContents
import LeoNdn.PitTable

/-!
A face is removed: the tables are cleaned in one enumeration of the name tree,
then the nodes that are empty are erased.
-/

namespace LeoNdn.TableCleanup

open LeoNdn.Tlv LeoNdn.NdnPacket LeoNdn.HashChains LeoNdn.NameTree LeoNdn.NameTreeHashtable LeoNdn.NameTreeContents
open LeoNdn.ForwardingTables (getMaxDepth)
open LeoNdn.PitPipelines (Interest PitEntry InRecord OutRecord deleteInOutRecords)
open LeoNdn.PitTable (TableEntries noTables hasTableEntries RecordCall)
open LeoNdn.Forwarder (Face)

section Enumeration

variable {κ τ : Type}

/-- `FullEnumerationImpl::advance` from an entry. -/
def advanceFrom (ht : Hashtable κ τ) (pred : ℕ → Bool) (entry : ℕ) : Option ℕ :=
  let currentBucket := hashOf ht.nodes entry % ht.m_buckets.length
  match ((ht.m_buckets[currentBucket]?.getD []).dropWhile (fun node => node ≠ entry)).tail.find? pred with
  | some node => some node
  | none => (ht.m_buckets.drop (currentBucket + 1)).flatten.find? pred

/-- The first entry is the head of the first bucket that is not empty. -/
def advance (ht : Hashtable κ τ) (pred : ℕ → Bool) : Option ℕ → Option ℕ
  | some entry => advanceFrom ht pred entry
  | none =>
    match ht.m_buckets.flatten.head? with
    | none => none
    | some entry => if pred entry then some entry else advanceFrom ht pred entry

end Enumeration

/-- The name tree as it is stored, the PIT entries by their addresses and the size of the FIB. -/
structure Tables (σ : Type) where
  nt : Hashtable Component TableEntries
  pitEntries : List (PitEntry σ)
  m_nItems : ℕ

variable {σ : Type}

/-- `Fib::removeNextHopByFace`; the entry is erased if it has no next hops any more. -/
def removeNextHopByFace (s : Tables σ) (nte : ℕ) (fibEntry : Fib.Entry) (face : Face) : Tables σ :=
  let fibEntry := fibEntry.removeNextHopByFace face
  if fibEntry.m_nextHops = [] then
    { s with
      nt := s.nt.setTables nte (fun tables => { tables with m_fibEntry := none })
      m_nItems := s.m_nItems - 1 }
  else { s with nt := s.nt.setTables nte (fun tables => { tables with m_fibEntry := some fibEntry }) }

def tablesOf (s : Tables σ) (nte : ℕ) : TableEntries := ((s.nt.nodes nte).map Node.tables).getD noTables

def emplace (key value : ℕ) : List (ℕ × ℕ) → List (ℕ × ℕ)
  | [] => [(key, value)]
  | element :: elements =>
    if key < element.1 then (key, value) :: element :: elements else element :: emplace key value elements

/-- The body of the loop over the nodes. -/
def visit (face : Face) (s : Tables σ × List (ℕ × ℕ)) (nte : ℕ) : Tables σ × List (ℕ × ℕ) :=
  let tables := match (tablesOf s.1 nte).m_fibEntry with
    | some fibEntry => removeNextHopByFace s.1 nte fibEntry face
    | none => s.1
  let tables := (tablesOf tables nte).m_pitEntries.foldl
    (fun tables pitEntry => { tables with pitEntries := tables.pitEntries.modify pitEntry (deleteInOutRecords face) }) tables
  (tables, if hasTableEntries (tablesOf tables nte) then s.2
    else emplace (((tables.nt.nodes nte).map (fun node => node.m_name.length)).getD 0) nte s.2)

/-- The loop over the nodes, with a bound on its rounds. -/
def enumerate (face : Face) : ℕ → Tables σ × List (ℕ × ℕ) → Option ℕ → Tables σ × List (ℕ × ℕ)
  | 0, s, _ => s
  | _, s, none => s
  | rounds + 1, s, some nte =>
    let visited := visit face s nte
    enumerate face rounds visited (advance visited.1.nt (fun _ => true) (some nte))

def cleanupOnFaceRemoval (options : HashtableOptions) (face : Face) (s : Tables σ) : Tables σ :=
  let (s, maybeEmptyNtes) := enumerate face (s.nt.m_buckets.flatten.length + 1) (s, []) (advance s.nt (fun _ => true) none)
  { s with
    nt := maybeEmptyNtes.reverse.foldl (fun nt element => nt.eraseIfEmpty options hasTableEntries element.2 false) s.nt }

section Enumeration

variable {κ τ : Type} {ht : Hashtable κ τ} {rest : List ℕ} {entry : ℕ} {pred : ℕ → Bool}

theorem advanceFrom_eq (before : List ℕ) (h : Chained (hashOf ht.nodes) (fun node => (ht.nodes node).isSome) ht.m_buckets)
    (hsplit : ht.m_buckets.flatten = before ++ entry :: rest) : advanceFrom ht pred entry = rest.find? pred := by
  have hnodup := h.nodup_flatten
  have hmem : (ht.nodes entry).isSome := (h.mem_flatten entry).mp (by rw [hsplit]; simp)
  obtain ⟨inBucket, after, hbucket, hnot, hflatten⟩ := h.split hmem
  rw [hsplit] at hnodup hflatten
  obtain ⟨hnotBefore, hnotRest⟩ : entry ∉ before ∧ entry ∉ rest := by
    rw [List.nodup_append, List.nodup_cons] at hnodup
    exact ⟨fun hbefore => hnodup.2.2 entry hbefore entry List.mem_cons_self rfl, hnodup.2.1.1⟩
  obtain ⟨-, -, hrest⟩ := (List.append_cons_inj_of_notMem hnotBefore hnotRest).mp hflatten
  have htail : ((inBucket ++ entry :: after).dropWhile (fun node => node ≠ entry)).tail = after := by
    have hne : ∀ node ∈ inBucket, decide (node ≠ entry) = true := by
      intro node hnode
      exact decide_eq_true (ne_of_mem_of_not_mem hnode hnot)
    rw [List.dropWhile_append_of_pos hne, List.dropWhile_cons_of_neg (by simp), List.tail_cons]
  rw [advanceFrom, hbucket, Option.getD_some, htail, hrest, List.find?_append]
  cases after.find? pred <;> rfl

theorem advance_none (h : Chained (hashOf ht.nodes) (fun node => (ht.nodes node).isSome) ht.m_buckets) :
    advance ht pred none = ht.m_buckets.flatten.find? pred := by
  rw [advance]
  cases hflatten : ht.m_buckets.flatten with
  | nil => rfl
  | cons entry rest =>
    rw [List.head?_cons]
    dsimp only
    split
    · rename_i hpred
      rw [List.find?_cons_of_pos hpred]
    · rename_i hpred
      rw [List.find?_cons_of_neg hpred, advanceFrom_eq [] h hflatten]

end Enumeration

section Records

def OneRecordEach (entry : PitEntry σ) : Prop :=
  (entry.m_inRecords.map (fun record => record.m_face)).Nodup ∧ (entry.m_outRecords.map (fun record => record.m_face)).Nodup

def cleanedEntry (face : Face) (entry : PitEntry σ) : PitEntry σ :=
  { entry with
    m_inRecords := entry.m_inRecords.filter (fun record => record.m_face ≠ face)
    m_outRecords := entry.m_outRecords.filter (fun record => record.m_face ≠ face) }

variable {entry : PitEntry σ} {face : Face}

theorem eraseP_eq_filter {α β : Type} [DecidableEq β] (key : α → β) {records : List α} (hnodup : (records.map key).Nodup)
    (k : β) : records.eraseP (fun record => key record = k) = records.filter (fun record => key record ≠ k) := by
  induction records with
  | nil => rfl
  | cons record records ih =>
    rw [List.map_cons, List.nodup_cons] at hnodup
    by_cases hkey : key record = k
    · subst hkey
      rw [List.eraseP_cons_of_pos (by simp), List.filter_cons_of_neg (by simp), List.filter_eq_self.mpr]
      intro other hother
      exact decide_eq_true fun heq => hnodup.1 (heq ▸ List.mem_map_of_mem hother)
    · rw [List.eraseP_cons_of_neg (by simpa using hkey), List.filter_cons_of_pos (by simpa using hkey), ih hnodup.2]

theorem deleteInOutRecords_eq (face : Face) (h : OneRecordEach entry) : deleteInOutRecords face entry = cleanedEntry face entry := by
  simp only [deleteInOutRecords, PitPipelines.deleteInRecord, PitPipelines.deleteOutRecord, cleanedEntry,
    eraseP_eq_filter _ h.1, eraseP_eq_filter _ h.2]

theorem OneRecordEach.cleanedEntry (h : OneRecordEach entry) : OneRecordEach (cleanedEntry face entry) :=
  ⟨h.1.sublist (List.filter_sublist.map _), h.2.sublist (List.filter_sublist.map _)⟩

theorem cleanedEntry_idem (face : Face) (entry : PitEntry σ) :
    cleanedEntry face (cleanedEntry face entry) = cleanedEntry face entry := by
  simp [cleanedEntry]

theorem nodup_insertOrUpdate {α β : Type} [DecidableEq β] (key : α → β) {records : List α} {update : α → α} {record : α}
    {k : β} (hnodup : (records.map key).Nodup) (hupdate : ∀ record, key (update record) = key record)
    (hrecord : key record = k) :
    ((PitPipelines.insertOrUpdate (fun other => key other = k) update record records).map key).Nodup := by
  rcases PitPipelines.insertOrUpdate_eq (fun other => decide (key other = k)) update record records with
    ⟨hnone, heq⟩ | ⟨before, old, after, rfl, -, -, heq⟩
  · rw [heq, List.map_cons, hupdate, hrecord, List.nodup_cons]
    refine ⟨fun hmem => ?_, hnodup⟩
    obtain ⟨other, hother, hsame⟩ := List.mem_map.mp hmem
    have hnot := List.find?_eq_none.mp hnone other hother
    simp [hsame] at hnot
  · rw [heq, List.map_append, List.map_cons, hupdate]
    rwa [List.map_append, List.map_cons] at hnodup

theorem OneRecordEach.apply (h : OneRecordEach entry) (c : RecordCall σ) : OneRecordEach (c.apply entry) := by
  cases c with
  | insertOrUpdateInRecord now face interest =>
    exact ⟨nodup_insertOrUpdate (fun record : InRecord σ => record.m_face) h.1 (fun _ => rfl) rfl, h.2⟩
  | insertOrUpdateOutRecord now face interest =>
    exact ⟨h.1, nodup_insertOrUpdate (fun record : OutRecord => record.m_face) h.2 (fun _ => rfl) rfl⟩
  | deleteInRecord face => exact ⟨h.1.sublist (List.eraseP_sublist.map _), h.2⟩
  | deleteOutRecord face => exact ⟨h.1, h.2.sublist (List.eraseP_sublist.map _)⟩
  | deleteInOutRecords face => exact ⟨h.1.sublist (List.eraseP_sublist.map _), h.2.sublist (List.eraseP_sublist.map _)⟩
  | clearInRecords => exact ⟨List.nodup_nil, h.2⟩

theorem getElem?_foldl_modify (face : Face) (addresses : List ℕ) {entries : List (PitEntry σ)}
    (hunique : ∀ entry ∈ entries, OneRecordEach entry) (a : ℕ) :
    (addresses.foldl (fun entries pitEntry => entries.modify pitEntry (deleteInOutRecords face)) entries)[a]? =
      entries[a]?.map (fun entry => if a ∈ addresses then cleanedEntry face entry else entry) := by
  induction addresses generalizing entries with
  | nil => simp
  | cons address addresses ih =>
    have hunique' : ∀ entry ∈ entries.modify address (deleteInOutRecords face), OneRecordEach entry := by
      intro entry hentry
      obtain ⟨i, hi⟩ := List.mem_iff_getElem?.mp hentry
      rw [List.getElem?_modify, Option.map_eq_map] at hi
      obtain ⟨old, hold, rfl⟩ := Option.map_eq_some_iff.mp hi
      have h := hunique old (List.mem_of_getElem? hold)
      split
      · rw [deleteInOutRecords_eq face h]
        exact h.cleanedEntry
      · exact h
    rw [List.foldl_cons, ih hunique', List.getElem?_modify, Option.map_eq_map, Option.map_map]
    cases hentry : entries[a]? with
    | none => rfl
    | some entry =>
      have h := deleteInOutRecords_eq face (hunique entry (List.mem_of_getElem? hentry))
      rw [Option.map_some, Option.map_some, Function.comp_apply]
      by_cases haddress : address = a
      · subst haddress
        simp only [if_true, List.mem_cons_self, h, cleanedEntry_idem, ite_self]
      · simp only [haddress, if_false, List.mem_cons, Ne.symm haddress, false_or]

end Records

section Visit

def cleanedTables (face : Face) (tables : TableEntries) : TableEntries :=
  { tables with
    m_fibEntry := tables.m_fibEntry.bind (fun fibEntry =>
      if (fibEntry.removeNextHopByFace face).m_nextHops = [] then none else some (fibEntry.removeNextHopByFace face)) }

variable {κ τ : Type} {ht : Hashtable κ τ} {nte : ℕ}

theorem setTables_congr {node : Node κ τ} (hnode : ht.nodes nte = some node) {f g : τ → τ}
    (h : f node.tables = g node.tables) : ht.setTables nte f = ht.setTables nte g := by
  rw [Hashtable.setTables, Hashtable.setTables, Hashtable.mk.injEq]
  refine ⟨funext fun i => ?_, rfl, rfl, rfl, rfl, rfl⟩
  rw [modifyNode, modifyNode, hnode, Option.map_some, Option.map_some, Node.setTables, Node.setTables, h]

theorem setTables_id (ht : Hashtable κ τ) (nte : ℕ) : ht.setTables nte id = ht := by
  have hnodes : modifyNode ht.nodes nte (Node.setTables id) = ht.nodes := by
    funext i
    rw [modifyNode]
    split
    · rename_i heq
      rw [heq]
      exact Option.map_id_apply
    · rfl
  rw [Hashtable.setTables, hnodes]

variable {s : Tables σ} {node : Node Component TableEntries} {face : Face}

theorem foldl_pitEntries (face : Face) (addresses : List ℕ) (s : Tables σ) :
    addresses.foldl
        (fun tables pitEntry => { tables with pitEntries := tables.pitEntries.modify pitEntry (deleteInOutRecords face) }) s =
      { s with
        pitEntries := addresses.foldl (fun entries pitEntry => entries.modify pitEntry (deleteInOutRecords face))
          s.pitEntries } := by
  induction addresses generalizing s with
  | nil => rfl
  | cons address addresses ih => rw [List.foldl_cons, ih, List.foldl_cons]

theorem tablesOf_eq (hnode : s.nt.nodes nte = some node) : tablesOf s nte = node.tables := by rw [tablesOf, hnode]; rfl

theorem visit_eq (face : Face) (hnode : s.nt.nodes nte = some node) (maybeEmptyNtes : List (ℕ × ℕ)) :
    (visit face (s, maybeEmptyNtes) nte).1.nt = s.nt.setTables nte (cleanedTables face) ∧
      (visit face (s, maybeEmptyNtes) nte).1.pitEntries = node.tables.m_pitEntries.foldl
        (fun entries pitEntry => entries.modify pitEntry (deleteInOutRecords face)) s.pitEntries ∧
      (visit face (s, maybeEmptyNtes) nte).2 = if hasTableEntries (cleanedTables face node.tables) then maybeEmptyNtes
        else emplace node.m_name.length nte maybeEmptyNtes := by
  have hfib : ∃ nItems, (match (tablesOf s nte).m_fibEntry with
      | some fibEntry => removeNextHopByFace s nte fibEntry face
      | none => s) = { s with nt := s.nt.setTables nte (cleanedTables face), m_nItems := nItems } := by
    rw [tablesOf_eq hnode]
    cases hentry : node.tables.m_fibEntry with
    | none =>
      have hsame : s.nt.setTables nte (cleanedTables face) = s.nt.setTables nte id :=
        setTables_congr hnode (by rw [cleanedTables, hentry, Option.bind_none, ← hentry]; rfl)
      exact ⟨s.m_nItems, by rw [hsame, setTables_id]⟩
    | some fibEntry =>
      dsimp only
      rw [removeNextHopByFace]
      split
      · rename_i hnone
        refine ⟨s.m_nItems - 1, ?_⟩
        rw [setTables_congr hnode (g := cleanedTables face)]
        rw [cleanedTables, hentry, Option.bind_some, if_pos hnone]
      · rename_i hsome
        refine ⟨s.m_nItems, ?_⟩
        rw [setTables_congr hnode (g := cleanedTables face)]
        rw [cleanedTables, hentry, Option.bind_some, if_neg hsome]
  obtain ⟨nItems, hcleaned⟩ := hfib
  have hnode' : (s.nt.setTables nte (cleanedTables face)).nodes nte = some (node.setTables (cleanedTables face)) := by
    simp only [Hashtable.setTables, modifyNode, if_true, hnode, Option.map_some]
  have htables : ∀ (entries : List (PitEntry σ)) n,
      tablesOf ⟨s.nt.setTables nte (cleanedTables face), entries, n⟩ nte = cleanedTables face node.tables :=
    fun entries n => (tablesOf_eq (s := ⟨_, entries, n⟩) hnode').trans rfl
  refine ⟨?_, ?_, ?_⟩ <;>
    simp only [visit, hcleaned, foldl_pitEntries, htables, hnode', Option.map_some, Option.getD_some]
  · rfl
  · rfl

end Visit

section Walk

variable {options : HashtableOptions} {compute : Component → ℕ} {maxDepth : ℕ} {face : Face} {s : Tables σ}

theorem mem_emplace {key value : ℕ} {elements : List (ℕ × ℕ)} {element : ℕ × ℕ} :
    element ∈ emplace key value elements ↔ element = (key, value) ∨ element ∈ elements := by
  induction elements with
  | nil => simp [emplace]
  | cons first elements ih =>
    rw [emplace]
    split
    · exact List.mem_cons
    · rw [List.mem_cons, ih, List.mem_cons]
      exact or_left_comm

theorem emplace_perm (key value : ℕ) (elements : List (ℕ × ℕ)) :
    (emplace key value elements).Perm ((key, value) :: elements) := by
  induction elements with
  | nil => exact List.Perm.refl _
  | cons first elements ih =>
    rw [emplace]
    split
    · exact List.Perm.refl _
    · exact (ih.cons first).trans (List.Perm.swap _ _ _)

theorem sorted_emplace {key value : ℕ} {elements : List (ℕ × ℕ)} (h : elements.Pairwise (fun a b => a.1 ≤ b.1)) :
    (emplace key value elements).Pairwise (fun a b => a.1 ≤ b.1) := by
  induction elements with
  | nil => exact List.pairwise_singleton _ _
  | cons first elements ih =>
    obtain ⟨hfirst, hrest⟩ := List.pairwise_cons.mp h
    rw [emplace]
    split
    · rename_i hlt
      refine List.pairwise_cons.mpr ⟨fun element hmem => ?_, h⟩
      rcases List.mem_cons.mp hmem with rfl | hmem
      · exact Nat.le_of_lt hlt
      · exact Nat.le_trans (Nat.le_of_lt hlt) (hfirst element hmem)
    · rename_i hge
      refine List.pairwise_cons.mpr ⟨fun element hmem => ?_, ih hrest⟩
      rcases mem_emplace.mp hmem with rfl | hmem
      · exact Nat.le_of_not_lt hge
      · exact hfirst element hmem

structure Visited (compute : Component → ℕ) (maxDepth : ℕ) (face : Face) (before : Tables σ) (nodes : List ℕ)
    (s : Tables σ × List (ℕ × ℕ)) : Prop where
  represents : ∃ tree, Represents compute s.1.nt tree ∧ WellFormed maxDepth tree
  m_buckets : s.1.nt.m_buckets = before.nt.m_buckets
  nodes_eq : ∀ i, s.1.nt.nodes i =
    (before.nt.nodes i).map (fun node => if i ∈ nodes then node.setTables (cleanedTables face) else node)
  pitEntries_eq : ∀ a, s.1.pitEntries[a]? = (before.pitEntries[a]?).map (fun entry =>
    if ∃ i ∈ nodes, a ∈ (tablesOf before i).m_pitEntries then cleanedEntry face entry else entry)
  sorted : s.2.Pairwise (fun a b => a.1 ≤ b.1)
  nodup : (s.2.map Prod.snd).Nodup
  mem_iff : ∀ element, element ∈ s.2 ↔ element.2 ∈ nodes ∧ ∃ node, before.nt.nodes element.2 = some node ∧
    element.1 = node.m_name.length ∧ hasTableEntries (cleanedTables face node.tables) = false

/-- What a reachable state keeps: the nodes are those of a tree, and no PIT entry has two records of a face. -/
structure Valid (compute : Component → ℕ) (maxDepth : ℕ) (s : Tables σ) : Prop where
  represents : ∃ tree, Represents compute s.nt tree ∧ WellFormed maxDepth tree
  oneRecordEach : ∀ entry ∈ s.pitEntries, OneRecordEach entry

theorem visited_nil (face : Face) (h : Valid compute maxDepth s) : Visited compute maxDepth face s [] (s, []) where
  represents := h.represents
  m_buckets := rfl
  nodes_eq i := by simp
  pitEntries_eq a := by simp
  sorted := List.Pairwise.nil
  nodup := List.nodup_nil
  mem_iff element := by simp

theorem Visited.uniqueRecords {before : Tables σ} {nodes : List ℕ} {s : Tables σ × List (ℕ × ℕ)}
    (h : Visited compute maxDepth face before nodes s) (hunique : ∀ entry ∈ before.pitEntries, OneRecordEach entry) :
    ∀ entry ∈ s.1.pitEntries, OneRecordEach entry := by
  intro entry hentry
  obtain ⟨i, hi⟩ := List.mem_iff_getElem?.mp hentry
  rw [h.pitEntries_eq] at hi
  obtain ⟨old, hold, rfl⟩ := Option.map_eq_some_iff.mp hi
  have hold' := hunique old (List.mem_of_getElem? hold)
  split
  · exact hold'.cleanedEntry
  · exact hold'

theorem Visited.mem_queue {before : Tables σ} {nodes : List ℕ} {s : Tables σ × List (ℕ × ℕ)}
    (h : Visited compute maxDepth face before nodes s) {nte : ℕ} {node : Node Component TableEntries}
    (hnode : before.nt.nodes nte = some node) (element : ℕ × ℕ) :
    element ∈ (if hasTableEntries (cleanedTables face node.tables) then s.2
      else emplace node.m_name.length nte s.2) ↔
      element.2 ∈ nodes ++ [nte] ∧ ∃ node, before.nt.nodes element.2 = some node ∧
        element.1 = node.m_name.length ∧ hasTableEntries (cleanedTables face node.tables) = false := by
  have hself : element.2 = nte → ((∃ node, before.nt.nodes element.2 = some node ∧ element.1 = node.m_name.length ∧
      hasTableEntries (cleanedTables face node.tables) = false) ↔
        element.1 = node.m_name.length ∧ hasTableEntries (cleanedTables face node.tables) = false) := by
    intro heq
    rw [heq]
    constructor
    · rintro ⟨other, hother, hrest⟩
      obtain rfl := Option.some.inj (hnode.symm.trans hother)
      exact hrest
    · intro hrest
      exact ⟨node, hnode, hrest⟩
  rw [List.mem_append, List.mem_singleton, or_and_right, and_congr_right hself]
  split
  · rename_i hhas
    rw [h.mem_iff, or_iff_left]
    rintro ⟨-, -, hno⟩
    rw [hhas] at hno
    cases hno
  · rename_i hno
    rw [mem_emplace, h.mem_iff, or_comm]
    refine or_congr_right ?_
    rw [Prod.ext_iff, and_comm, and_iff_left (b := hasTableEntries _ = false) (Bool.eq_false_iff.mpr hno)]

theorem Visited.visit {before : Tables σ} {nodes : List ℕ} {s : Tables σ × List (ℕ × ℕ)}
    (h : Visited compute maxDepth face before nodes s) (hunique : ∀ entry ∈ before.pitEntries, OneRecordEach entry)
    {nte : ℕ} (hnot : nte ∉ nodes) (hsome : (before.nt.nodes nte).isSome) :
    Visited compute maxDepth face before (nodes ++ [nte]) (visit face s nte) := by
  obtain ⟨node, hnode⟩ := Option.isSome_iff_exists.mp hsome
  have hnode' : s.1.nt.nodes nte = some node := by rw [h.nodes_eq, hnode, Option.map_some, if_neg hnot]
  obtain ⟨hnt, hpit, hqueue⟩ := visit_eq face hnode' s.2
  obtain ⟨tree, hrep, hwf⟩ := h.represents
  have htables : tablesOf before nte = node.tables := tablesOf_eq hnode
  refine ⟨?_, ?_, ?_, ?_, ?_, ?_, fun element => ?_⟩
  · rw [hnt]
    exact ⟨_, setTables_spec hrep hnode' _, wellFormed_setTables hwf⟩
  · rw [hnt]
    exact h.m_buckets
  · intro i
    rw [hnt, Hashtable.setTables]
    dsimp only
    rw [modifyNode]
    split
    · rename_i heq
      rw [heq, hnode', hnode, Option.map_some, Option.map_some, if_pos (by simp)]
    · rename_i hne
      rw [h.nodes_eq]
      simp only [List.mem_append, List.mem_singleton, hne, or_false]
  · intro a
    rw [hpit, getElem?_foldl_modify face _ (h.uniqueRecords hunique), h.pitEntries_eq, Option.map_map]
    refine congrArg (fun f => Option.map f before.pitEntries[a]?) (funext fun entry => ?_)
    have hmem : (∃ i ∈ nodes ++ [nte], a ∈ (tablesOf before i).m_pitEntries) ↔
        (∃ i ∈ nodes, a ∈ (tablesOf before i).m_pitEntries) ∨ a ∈ node.tables.m_pitEntries := by
      simp [or_and_right, exists_or, htables]
    rw [Function.comp_apply]
    by_cases hin : a ∈ node.tables.m_pitEntries
    · rw [if_pos hin, if_pos (hmem.mpr (Or.inr hin))]
      split
      · exact cleanedEntry_idem face entry
      · rfl
    · rw [if_neg hin]
      simp only [hmem, hin, or_false]
  · rw [hqueue]
    split
    · exact h.sorted
    · exact sorted_emplace h.sorted
  · rw [hqueue]
    split
    · exact h.nodup
    · refine (((emplace_perm _ _ _).map Prod.snd).nodup_iff).mpr (List.nodup_cons.mpr ⟨fun hmem => ?_, h.nodup⟩)
      obtain ⟨element, helement, heq⟩ := List.mem_map.mp hmem
      dsimp only at heq
      exact hnot (heq ▸ ((h.mem_iff element).mp helement).1)
  · rw [hqueue]
    exact h.mem_queue hnode element

/-- The enumeration visits every node, although the tables change under it. -/
theorem visited_enumerate {before : Tables σ} (hunique : ∀ entry ∈ before.pitEntries, OneRecordEach entry)
    (hnodup : before.nt.m_buckets.flatten.Nodup) (hsome : ∀ i ∈ before.nt.m_buckets.flatten, (before.nt.nodes i).isSome)
    (rest nodes : List ℕ) (hsplit : before.nt.m_buckets.flatten = nodes ++ rest) (rounds : ℕ) (hrounds : rest.length < rounds)
    {s : Tables σ × List (ℕ × ℕ)} (h : Visited compute maxDepth face before nodes s) :
    Visited compute maxDepth face before before.nt.m_buckets.flatten (enumerate face rounds s rest.head?) := by
  induction rest generalizing nodes rounds s with
  | nil =>
    rw [List.append_nil] at hsplit
    rw [hsplit]
    cases rounds <;> exact h
  | cons nte rest ih =>
    obtain ⟨rounds, rfl⟩ := Nat.exists_eq_succ_of_ne_zero (Nat.ne_zero_of_lt hrounds)
    have hnot : nte ∉ nodes := by
      rw [hsplit, List.nodup_append] at hnodup
      exact fun hmem => hnodup.2.2 nte hmem nte List.mem_cons_self rfl
    have hvisited := h.visit hunique hnot (hsome nte (by rw [hsplit]; simp))
    obtain ⟨tree, hrep, -⟩ := hvisited.represents
    have hadvance : advance (visit face s nte).1.nt (fun _ => true) (some nte) = rest.head? := by
      rw [advance, advanceFrom_eq nodes hrep.chained ((congrArg List.flatten hvisited.m_buckets).trans hsplit)]
      cases rest <;> rfl
    rw [List.head?_cons, enumerate, hadvance]
    exact ih (nodes ++ [nte]) (by rw [hsplit, List.append_assoc, List.singleton_append]) rounds
      (by simpa using hrounds) hvisited

end Walk

section Erase

variable {κ τ : Type} {options : HashtableOptions} {compute : κ → ℕ} {hasTableEntries : τ → Bool} {maxDepth entry : ℕ}
  {ht ht' ht'' : Hashtable κ τ} {node : Node κ τ} {element : ℕ × ℕ} {todo : List (ℕ × ℕ)}

/-- Nodes with table entries stay, and no node changes but for its children. -/
structure Keeps (hasTableEntries : τ → Bool) (ht ht' : Hashtable κ τ) : Prop where
  old : ∀ {i object}, ht'.nodes i = some object → ∃ old, ht.nodes i = some old ∧ object.m_name = old.m_name ∧
    object.tables = old.tables
  stays : ∀ {i old}, ht.nodes i = some old → hasTableEntries old.tables = true → ∃ object, ht'.nodes i = some object ∧
    object.m_name = old.m_name ∧ object.tables = old.tables

theorem keeps_refl (ht : Hashtable κ τ) : Keeps hasTableEntries ht ht :=
  ⟨fun hobject => ⟨_, hobject, rfl, rfl⟩, fun hold _ => ⟨_, hold, rfl, rfl⟩⟩

theorem Keeps.trans (h : Keeps hasTableEntries ht ht') (h' : Keeps hasTableEntries ht' ht'') :
    Keeps hasTableEntries ht ht'' := by
  constructor
  · intro i object hobject
    obtain ⟨middle, hmiddle, hname, htables⟩ := h'.old hobject
    obtain ⟨old, hold, hname', htables'⟩ := h.old hmiddle
    exact ⟨old, hold, hname.trans hname', htables.trans htables'⟩
  · intro i old hold hhas
    obtain ⟨middle, hmiddle, hname, htables⟩ := h.stays hold hhas
    obtain ⟨object, hobject, hname', htables'⟩ := h'.stays hmiddle (htables ▸ hhas)
    exact ⟨object, hobject, hname'.trans hname, htables'.trans htables⟩

theorem eraseIfEmpty_false (hnode : ht.nodes entry = some node) :
    ht.eraseIfEmpty options hasTableEntries entry false =
      if node.m_children = [] ∧ hasTableEntries node.tables = false then (ht.unsetParent entry).erase options entry else ht := by
  rw [Hashtable.eraseIfEmpty, Hashtable.eraseLoop, hnode]
  rfl

/-- Nodes without table entries wait to be erased, longer names first, or have children that stay. -/
structure Pending (compute : κ → ℕ) (hasTableEntries : τ → Bool) (maxDepth : ℕ) (ht : Hashtable κ τ) (todo : List (ℕ × ℕ)) :
    Prop where
  represents : ∃ tree, Represents compute ht tree ∧ WellFormed maxDepth tree
  nodup : (todo.map Prod.snd).Nodup
  sorted : todo.Pairwise (fun a b => b.1 ≤ a.1)
  waiting : ∀ element ∈ todo, ∃ node, ht.nodes element.2 = some node ∧ element.1 = node.m_name.length ∧
    hasTableEntries node.tables = false
  settled : ∀ {i node}, ht.nodes i = some node → hasTableEntries node.tables = false →
    i ∈ todo.map Prod.snd ∨ node.m_children ≠ [] ∧ ∀ element ∈ todo, element.1 ≤ node.m_name.length

variable [DecidableEq κ]

theorem Pending.eraseIfEmpty (options : HashtableOptions) (h : Pending compute hasTableEntries maxDepth ht (element :: todo)) :
    Pending compute hasTableEntries maxDepth (ht.eraseIfEmpty options hasTableEntries element.2 false) todo ∧
      Keeps hasTableEntries ht (ht.eraseIfEmpty options hasTableEntries element.2 false) := by
  obtain ⟨tree, hrep, hwf⟩ := h.represents
  obtain ⟨node, hnode, hlength, hno⟩ := h.waiting element List.mem_cons_self
  obtain ⟨hhead, htail⟩ := List.pairwise_cons.mp h.sorted
  obtain ⟨hnot, hnodup⟩ := List.nodup_cons.mp h.nodup
  rw [eraseIfEmpty_false hnode]
  by_cases hleaf : node.m_children = []
  · rw [if_pos ⟨hleaf, hno⟩]
    obtain ⟨hnodes, -⟩ := erase_nodes options hnode
    obtain ⟨shown, hshown, hshows⟩ := hrep.shows hnode
    have hsame : ∀ {i : ℕ} {old : Node κ τ},
        (if node.m_parent = some i then Node.eraseChild element.2 old else old).m_name = old.m_name ∧
        (if node.m_parent = some i then Node.eraseChild element.2 old else old).tables = old.tables := by
      intro i old
      split <;> exact ⟨rfl, rfl⟩
    have hstays : ∀ {i old}, i ≠ element.2 → ht.nodes i = some old → ∃ object,
        ((ht.unsetParent element.2).erase options element.2).nodes i = some object ∧ object.m_name = old.m_name ∧
          object.tables = old.tables := by
      intro i old hne hold
      refine ⟨if node.m_parent = some i then Node.eraseChild element.2 old else old, ?_, hsame⟩
      rw [hnodes, erasedNodes, if_neg hne, hold]
      split <;> rfl
    refine ⟨⟨⟨_, represents_erased options hrep hwf hnode hleaf hshown,
        wellFormed_removeNode hwf hshown ((children_eq_nil_iff hshows).mp hleaf)⟩, hnodup, htail, ?_, ?_⟩, ?_, ?_⟩
    · intro other hother
      obtain ⟨old, hold, hlength', hno'⟩ := h.waiting other (List.mem_cons_of_mem _ hother)
      obtain ⟨object, hobject, hname, htables⟩ := hstays (fun heq => hnot (heq ▸ List.mem_map_of_mem hother)) hold
      exact ⟨object, hobject, hname ▸ hlength', htables ▸ hno'⟩
    · intro i object hobject hno'
      rw [hnodes] at hobject
      obtain ⟨hne, old, hold, rfl⟩ := erasedNodes_cases hobject
      rw [hsame.2] at hno'
      rcases h.settled hold hno' with hmem | ⟨hchildren, hle⟩
      · rw [List.map_cons, List.mem_cons] at hmem
        exact Or.inl (hmem.resolve_left hne)
      · right
        -- a parent would have a shorter name than the node that is erased
        have hparent : node.m_parent ≠ some i := by
          intro hparent
          obtain ⟨hnil, hdrop⟩ := (hrep.parent_iff hwf hnode hold).mp hparent
          have hpos := List.length_pos_iff.mpr hnil
          have hle' := hle element List.mem_cons_self
          rw [← hdrop, List.length_dropLast] at hle'
          omega
        rw [if_neg hparent]
        exact ⟨hchildren, fun other hother => hle other (List.mem_cons_of_mem _ hother)⟩
    · intro i object hobject
      rw [hnodes] at hobject
      obtain ⟨-, old, hold, rfl⟩ := erasedNodes_cases hobject
      exact ⟨old, hold, hsame⟩
    · intro i old hold hhas
      refine hstays ?_ hold
      rintro rfl
      obtain rfl := Option.some.inj (hnode.symm.trans hold)
      rw [hno] at hhas
      cases hhas
  · rw [if_neg fun hempty => hleaf hempty.1]
    refine ⟨⟨h.represents, hnodup, htail, fun other hother => h.waiting other (List.mem_cons_of_mem _ hother), ?_⟩,
      keeps_refl ht⟩
    intro i object hobject hno'
    rcases h.settled hobject hno' with hmem | ⟨hchildren, hle⟩
    · rw [List.map_cons, List.mem_cons] at hmem
      rcases hmem with rfl | hmem
      · obtain rfl := Option.some.inj (hnode.symm.trans hobject)
        exact Or.inr ⟨hleaf, fun other hother => hlength ▸ hhead other hother⟩
      · exact Or.inl hmem
    · exact Or.inr ⟨hchildren, fun other hother => hle other (List.mem_cons_of_mem _ hother)⟩

theorem Pending.foldl (options : HashtableOptions) (h : Pending compute hasTableEntries maxDepth ht todo) :
    Pending compute hasTableEntries maxDepth
        (todo.foldl (fun nt element => nt.eraseIfEmpty options hasTableEntries element.2 false) ht) [] ∧
      Keeps hasTableEntries ht (todo.foldl (fun nt element => nt.eraseIfEmpty options hasTableEntries element.2 false) ht) := by
  induction todo generalizing ht with
  | nil => exact ⟨h, keeps_refl ht⟩
  | cons element todo ih =>
    obtain ⟨hpending, hkeeps⟩ := h.eraseIfEmpty options
    obtain ⟨hdone, hkeeps'⟩ := ih hpending
    exact ⟨hdone, hkeeps.trans hkeeps'⟩

end Erase

section Cleanup

variable {options : HashtableOptions} {compute : Component → ℕ} {maxDepth : ℕ} {face : Face} {s s' : Tables σ}

structure Cleaned (face : Face) (before after : Tables σ) : Prop where
  no_nextHop : ∀ {i node fibEntry}, after.nt.nodes i = some node → node.tables.m_fibEntry = some fibEntry →
    fibEntry.m_nextHops ≠ [] ∧ ∀ nextHop ∈ fibEntry.m_nextHops, nextHop.m_face ≠ face
  no_record : ∀ {i node} {a : ℕ} {entry}, after.nt.nodes i = some node → a ∈ node.tables.m_pitEntries →
    after.pitEntries[a]? = some entry →
    (∀ record ∈ entry.m_inRecords, record.m_face ≠ face) ∧ ∀ record ∈ entry.m_outRecords, record.m_face ≠ face
  old : ∀ {i node}, after.nt.nodes i = some node → ∃ old, before.nt.nodes i = some old ∧ node.m_name = old.m_name ∧
    node.tables = { old.tables with m_fibEntry := node.tables.m_fibEntry } ∧
    ∀ fibEntry, node.tables.m_fibEntry = some fibEntry → ∃ oldEntry, old.tables.m_fibEntry = some oldEntry
  nextHops : ∀ {i old fibEntry}, before.nt.nodes i = some old → old.tables.m_fibEntry = some fibEntry →
    fibEntry.m_nextHops.filter (fun nextHop => nextHop.m_face ≠ face) ≠ [] → ∃ node, after.nt.nodes i = some node ∧
      node.m_name = old.m_name ∧ node.tables.m_fibEntry =
        some ⟨fibEntry.getPrefix, fibEntry.m_nextHops.filter (fun nextHop => nextHop.m_face ≠ face)⟩
  otherTables : ∀ {i old}, before.nt.nodes i = some old → hasTableEntries { old.tables with m_fibEntry := none } = true →
    ∃ node, after.nt.nodes i = some node ∧ node.m_name = old.m_name ∧
      node.tables = { old.tables with m_fibEntry := node.tables.m_fibEntry }
  records : ∀ a : ℕ, after.pitEntries[a]? = before.pitEntries[a]? ∨
    after.pitEntries[a]? = (before.pitEntries[a]?).map (cleanedEntry face)
  no_emptyNode : ∀ {i node}, after.nt.nodes i = some node →
    ¬ (node.m_children = [] ∧ hasTableEntries node.tables = false)

/-- The calls of the tables; `setTables` puts entries into nodes and takes them out. -/
inductive Change (options : HashtableOptions) (compute : Component → ℕ) (s : Tables σ) : Tables σ → Prop
  | tree (nt : Hashtable Component TableEntries) (m_nItems : ℕ) :
      Call options compute noTables hasTableEntries getMaxDepth s.nt nt → Change options compute s ⟨nt, s.pitEntries, m_nItems⟩
  | newPitEntry (interest : Interest σ) :
      Change options compute s { s with pitEntries := s.pitEntries ++ [⟨interest, [], [], false, 0, none⟩] }
  | pitEntry (entry : ℕ) (f : PitEntry σ → PitEntry σ) :
      (∀ object, (f object).m_inRecords = object.m_inRecords ∧ (f object).m_outRecords = object.m_outRecords) →
      Change options compute s { s with pitEntries := s.pitEntries.modify entry f }
  | record (entry : ℕ) (c : RecordCall σ) :
      Change options compute s { s with pitEntries := s.pitEntries.modify entry c.apply }
  | cleanup (face : Face) : Change options compute s (cleanupOnFaceRemoval options face s)

def Changes (options : HashtableOptions) (compute : Component → ℕ) : Tables σ → Tables σ → Prop :=
  Relation.ReflTransGen (Change options compute)

def initial (options : HashtableOptions) : Tables σ := ⟨Hashtable.initial options, [], 0⟩

theorem Visited.node_iff (hrep : ∃ tree, Represents compute s.nt tree ∧ WellFormed maxDepth tree)
    {visited : Tables σ × List (ℕ × ℕ)} (h : Visited compute maxDepth face s s.nt.m_buckets.flatten visited) (i : ℕ)
    (object : Node Component TableEntries) : visited.1.nt.nodes i = some object ↔
      ∃ node, s.nt.nodes i = some node ∧ object = node.setTables (cleanedTables face) := by
  obtain ⟨tree, hrep, -⟩ := hrep
  rw [h.nodes_eq, Option.map_eq_some_iff]
  refine exists_congr fun node => and_congr_right fun hnode => ?_
  rw [if_pos ((hrep.chained.mem_flatten i).mpr (by rw [hnode]; rfl)), eq_comm]

theorem Visited.pending (hrep : ∃ tree, Represents compute s.nt tree ∧ WellFormed maxDepth tree)
    {visited : Tables σ × List (ℕ × ℕ)} (h : Visited compute maxDepth face s s.nt.m_buckets.flatten visited) :
    Pending compute hasTableEntries maxDepth visited.1.nt visited.2.reverse := by
  have hiff := h.node_iff hrep
  refine ⟨h.represents, ?_, List.pairwise_reverse.mpr h.sorted, ?_, ?_⟩
  · rw [List.map_reverse, List.nodup_reverse]
    exact h.nodup
  · intro element hmem
    obtain ⟨-, node, hnode, hlength, hno⟩ := (h.mem_iff element).mp (List.mem_reverse.mp hmem)
    exact ⟨_, (hiff _ _).mpr ⟨node, hnode, rfl⟩, hlength, hno⟩
  · intro i object hobject hno
    obtain ⟨node, hnode, rfl⟩ := (hiff _ _).mp hobject
    obtain ⟨tree, hrep, -⟩ := hrep
    have hmem : (node.m_name.length, i) ∈ visited.2 :=
      (h.mem_iff _).mpr ⟨(hrep.chained.mem_flatten i).mpr (by rw [hnode]; rfl), node, hnode, rfl, hno⟩
    exact Or.inl (List.mem_map.mpr ⟨_, List.mem_reverse.mpr hmem, rfl⟩)

/-- Both phases: what the enumeration leaves behind, and what is erased of it. -/
theorem Valid.cleanup (options : HashtableOptions) (face : Face) (h : Valid compute maxDepth s) :
    ∃ visited, Visited compute maxDepth face s s.nt.m_buckets.flatten visited ∧
    (cleanupOnFaceRemoval options face s).pitEntries = visited.1.pitEntries ∧
    Pending compute hasTableEntries maxDepth (cleanupOnFaceRemoval options face s).nt [] ∧
    Keeps hasTableEntries visited.1.nt (cleanupOnFaceRemoval options face s).nt := by
  obtain ⟨tree, hrep, hwf⟩ := h.represents
  have hvisited := visited_enumerate h.oneRecordEach hrep.chained.nodup_flatten
    (fun i hi => (hrep.chained.mem_flatten i).mp hi) s.nt.m_buckets.flatten [] rfl (s.nt.m_buckets.flatten.length + 1)
    (Nat.lt_succ_self _) (visited_nil face h)
  have hstart : advance s.nt (fun _ => true) none = s.nt.m_buckets.flatten.head? := by
    rw [advance_none hrep.chained]
    cases s.nt.m_buckets.flatten <;> rfl
  rw [← hstart] at hvisited
  obtain ⟨hdone, hkeeps⟩ := (hvisited.pending h.represents).foldl options
  exact ⟨_, hvisited, rfl, hdone, hkeeps⟩

theorem Visited.oneRecordEach (hunique : ∀ entry ∈ s.pitEntries, OneRecordEach entry) {nodes : List ℕ}
    {visited : Tables σ × List (ℕ × ℕ)} (h : Visited compute maxDepth face s nodes visited) :
    ∀ entry ∈ visited.1.pitEntries, OneRecordEach entry := by
  intro entry hentry
  obtain ⟨a, ha⟩ := List.mem_iff_getElem?.mp hentry
  rw [h.pitEntries_eq] at ha
  obtain ⟨old, hold, rfl⟩ := Option.map_eq_some_iff.mp ha
  have hold' := hunique old (List.mem_of_getElem? hold)
  split
  · exact hold'.cleanedEntry
  · exact hold'

theorem oneRecordEach_modify {entries : List (PitEntry σ)} (h : ∀ entry ∈ entries, OneRecordEach entry)
    {f : PitEntry σ → PitEntry σ} (hf : ∀ entry, OneRecordEach entry → OneRecordEach (f entry)) (i : ℕ) :
    ∀ entry ∈ entries.modify i f, OneRecordEach entry := by
  intro entry hentry
  obtain ⟨a, ha⟩ := List.mem_iff_getElem?.mp hentry
  rw [List.getElem?_modify, Option.map_eq_map] at ha
  obtain ⟨old, hold, rfl⟩ := Option.map_eq_some_iff.mp ha
  have hold' := h old (List.mem_of_getElem? hold)
  split
  · exact hf old hold'
  · exact hold'

theorem valid_initial (options : HashtableOptions) : Valid compute getMaxDepth (initial options : Tables σ) :=
  ⟨⟨_, represents_initial options, wellFormed_empty getMaxDepth⟩, fun _ hentry => absurd hentry List.not_mem_nil⟩

theorem Valid.change (h : Valid compute getMaxDepth s) (hchange : Change options compute s s') :
    Valid compute getMaxDepth s' := by
  obtain ⟨tree, hrep, hwf⟩ := h.represents
  cases hchange with
  | tree nt m_nItems hcall => exact ⟨represents_call hrep hwf hcall, h.oneRecordEach⟩
  | newPitEntry interest =>
    refine ⟨h.represents, fun entry hentry => ?_⟩
    rcases List.mem_append.mp hentry with hentry | hentry
    · exact h.oneRecordEach entry hentry
    · rw [List.mem_singleton.mp hentry]
      exact ⟨List.nodup_nil, List.nodup_nil⟩
  | pitEntry i f hf =>
    refine ⟨h.represents, oneRecordEach_modify h.oneRecordEach (fun entry hentry => ?_) i⟩
    rw [OneRecordEach, (hf entry).1, (hf entry).2]
    exact hentry
  | record i c => exact ⟨h.represents, oneRecordEach_modify h.oneRecordEach (fun _ hentry => hentry.apply c) i⟩
  | cleanup face =>
    obtain ⟨visited, hvisited, hpit, hdone, -⟩ := h.cleanup options face
    refine ⟨hdone.represents, ?_⟩
    rw [hpit]
    exact hvisited.oneRecordEach h.oneRecordEach

theorem cleanedTables_m_fibEntry {tables : TableEntries} {fibEntry : Fib.Entry} :
    (cleanedTables face tables).m_fibEntry = some fibEntry ↔ ∃ old, tables.m_fibEntry = some old ∧
      fibEntry = old.removeNextHopByFace face ∧ fibEntry.m_nextHops ≠ [] := by
  rw [cleanedTables, Option.bind_eq_some_iff]
  refine exists_congr fun old => and_congr_right fun _ => ?_
  split
  · rename_i hnone
    refine iff_of_false (Option.some_ne_none fibEntry).symm ?_
    rintro ⟨rfl, hne⟩
    exact hne hnone
  · rename_i hne
    rw [Option.some.injEq, eq_comm]
    refine (and_iff_left_of_imp ?_).symm
    rintro rfl
    exact hne

theorem hasTableEntries_of_other (tables : TableEntries) (h : hasTableEntries { tables with m_fibEntry := none } = true) :
    hasTableEntries tables = true := by
  simp only [hasTableEntries, Option.isSome_none, Bool.false_or, Bool.or_assoc] at h ⊢
  rw [h, Bool.or_true]

theorem Valid.cleaned (h : Valid compute maxDepth s) : Cleaned face s (cleanupOnFaceRemoval options face s) := by
  obtain ⟨visited, hvisited, hpit, hdone, hkeeps⟩ := h.cleanup options face
  have hiff := hvisited.node_iff h.represents
  have hold : ∀ {i node}, (cleanupOnFaceRemoval options face s).nt.nodes i = some node → ∃ old, s.nt.nodes i = some old ∧
      node.m_name = old.m_name ∧ node.tables = cleanedTables face old.tables := by
    intro i node hnode
    obtain ⟨object, hobject, hname, htables⟩ := hkeeps.old hnode
    obtain ⟨old, hold, rfl⟩ := (hiff _ _).mp hobject
    exact ⟨old, hold, hname, htables⟩
  have hstays : ∀ {i old}, s.nt.nodes i = some old → hasTableEntries (cleanedTables face old.tables) = true → ∃ node,
      (cleanupOnFaceRemoval options face s).nt.nodes i = some node ∧ node.m_name = old.m_name ∧
        node.tables = cleanedTables face old.tables :=
    fun hold hhas => hkeeps.stays ((hiff _ _).mpr ⟨_, hold, rfl⟩) hhas
  refine ⟨?_, ?_, ?_, ?_, ?_, ?_, ?_⟩
  · intro i node fibEntry hnode hfib
    obtain ⟨old, -, -, htables⟩ := hold hnode
    rw [htables] at hfib
    obtain ⟨oldEntry, -, rfl, hne⟩ := cleanedTables_m_fibEntry.mp hfib
    exact ⟨hne, fun nextHop hmem => of_decide_eq_true (List.mem_filter.mp hmem).2⟩
  · intro i node a entry hnode hmem hentry
    obtain ⟨old, hold, -, htables⟩ := hold hnode
    obtain ⟨tree, hrep, -⟩ := h.represents
    rw [hpit, hvisited.pitEntries_eq] at hentry
    obtain ⟨oldEntry, -, rfl⟩ := Option.map_eq_some_iff.mp hentry
    have hattached : ∃ i ∈ s.nt.m_buckets.flatten, a ∈ (tablesOf s i).m_pitEntries := by
      refine ⟨i, (hrep.chained.mem_flatten i).mpr (by rw [hold]; rfl), ?_⟩
      rw [tablesOf_eq hold]
      rw [htables] at hmem
      exact hmem
    rw [if_pos hattached]
    exact ⟨fun record hrecord => of_decide_eq_true (List.mem_filter.mp hrecord).2,
      fun record hrecord => of_decide_eq_true (List.mem_filter.mp hrecord).2⟩
  · intro i node hnode
    obtain ⟨old, hold, hname, htables⟩ := hold hnode
    refine ⟨old, hold, hname, by rw [htables]; rfl, fun fibEntry hfib => ?_⟩
    rw [htables] at hfib
    obtain ⟨oldEntry, hentry, -, -⟩ := cleanedTables_m_fibEntry.mp hfib
    exact ⟨oldEntry, hentry⟩
  · intro i old fibEntry hold hfib hne
    have hcleaned : (cleanedTables face old.tables).m_fibEntry = some (fibEntry.removeNextHopByFace face) :=
      cleanedTables_m_fibEntry.mpr ⟨fibEntry, hfib, rfl, hne⟩
    obtain ⟨node, hnode, hname, htables⟩ := hstays hold (by simp [hasTableEntries, hcleaned])
    exact ⟨node, hnode, hname, by rw [htables, hcleaned]; rfl⟩
  · intro i old hold hhas
    obtain ⟨node, hnode, hname, htables⟩ := hstays hold (hasTableEntries_of_other (cleanedTables face old.tables) hhas)
    exact ⟨node, hnode, hname, by rw [htables]; rfl⟩
  · intro a
    rw [hpit, hvisited.pitEntries_eq]
    by_cases hattached : ∃ i ∈ s.nt.m_buckets.flatten, a ∈ (tablesOf s i).m_pitEntries
    · right
      simp only [hattached, if_true]
    · left
      simp only [hattached, if_false, Option.map_id']
  · intro i node hnode hempty
    obtain ⟨hleaf, hno⟩ := hempty
    rcases hdone.settled hnode hno with hmem | ⟨hchildren, -⟩
    · exact List.not_mem_nil hmem
    · exact hchildren hleaf

theorem cleanupOnFaceRemoval_cleaned (hchanges : Changes options compute (initial options) s) (face : Face) :
    Cleaned face s (cleanupOnFaceRemoval options face s) := by
  have hvalid : Valid compute getMaxDepth s := by
    induction hchanges with
    | refl => exact valid_initial options
    | tail _ hchange ih => exact ih.change hchange
  exact hvalid.cleaned

def appFace : Face := ⟨257, .scopeLocal, .pointToPoint⟩

def aliceTree : Hashtable Component TableEntries :=
  ((Hashtable.initial smallOptions).lookup smallOptions (fun _ => 0) noTables [⟨8, [97]⟩] 1).1

def setAliceEntry (tables : TableEntries) : TableEntries :=
  { tables with m_fibEntry := some ⟨[⟨8, [97]⟩], [⟨appFace, 0, 1⟩]⟩, m_pitEntries := [0] }

def otherFace : Face := ⟨258, .scopeNonLocal, .pointToPoint⟩

def aliceInterest : Interest Unit := ⟨[⟨8, [97]⟩], (), 7, 4000, [], none⟩

def asks (face : Face) : RecordCall Unit := .insertOrUpdateInRecord 0 face aliceInterest

/-- A FIB entry whose only next hop is the face, and a PIT entry that it and another face ask for. -/
def aliceTables : Tables Unit where
  nt := aliceTree.setTables 1 setAliceEntry
  pitEntries := [(asks otherFace).apply ((asks appFace).apply ⟨aliceInterest, [], [], false, 0, none⟩)]
  m_nItems := 1

theorem changes_aliceTables : Changes smallOptions (fun _ => 0) (initial smallOptions) aliceTables := by
  have hcall : Call smallOptions (fun _ => 0) noTables hasTableEntries getMaxDepth (Hashtable.initial smallOptions) aliceTree := by
    exact @Call.lookup Component TableEntries _ smallOptions (fun _ => 0) noTables hasTableEntries getMaxDepth
      (Hashtable.initial smallOptions) [⟨8, [97]⟩] 1 (by decide) (by decide)
  have hlookup : Change smallOptions (fun _ => 0) (initial smallOptions : Tables Unit) ⟨aliceTree, [], 0⟩ :=
    Change.tree aliceTree 0 hcall
  have hinserted := (((Relation.ReflTransGen.single hlookup).tail (Change.newPitEntry aliceInterest)).tail
    (Change.record 0 (asks appFace))).tail (Change.record 0 (asks otherFace))
  exact hinserted.tail (Change.tree (aliceTree.setTables 1 setAliceEntry) 1 (Call.setTables 1 setAliceEntry (by decide)))

/-- The FIB entry goes, the node below the root and the record of the other face stay. -/
theorem cleanupOnFaceRemoval_cleaned_alice : Cleaned appFace aliceTables (cleanupOnFaceRemoval smallOptions appFace aliceTables) ∧
    (cleanupOnFaceRemoval smallOptions appFace aliceTables).nt.m_size = 2 ∧
    (cleanupOnFaceRemoval smallOptions appFace aliceTables).m_nItems = 0 ∧
    (cleanupOnFaceRemoval smallOptions appFace aliceTables).pitEntries.map
      (fun entry => entry.m_inRecords.map (fun record => record.m_face)) = [[otherFace]] :=
  ⟨cleanupOnFaceRemoval_cleaned changes_aliceTables appFace, by decide, by decide, by decide⟩

end Cleanup

end LeoNdn.TableCleanup
