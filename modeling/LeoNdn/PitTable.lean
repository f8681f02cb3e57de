import LeoNdn.ForwardingTables
import LeoNdn.PitPipelines
import LeoNdn.Runs
import Mathlib.Data.Set.Card

/-!
The PIT: its entries are objects that hang on nodes of the name tree and point
back to them. The selectors of an Interest are compared by their encodings.
-/

namespace LeoNdn.PitTable

open LeoNdn.Tlv LeoNdn.NdnPacket LeoNdn.NameTree LeoNdn.Runs
open LeoNdn.ForwardingTables (getMaxDepth nteDepth nteName)
open LeoNdn.PitPipelines (Interest)
open LeoNdn.Forwarder (Face)

structure Entry (σ : Type) extends PitPipelines.PitEntry σ where
  m_nameTreeEntry : Option Name

/-- The PIT entries of a node are known by their addresses. -/
structure TableEntries where
  m_fibEntry : Option Fib.Entry
  m_pitEntries : List ℕ
  m_hasMeasurementsEntry : Bool
  m_strategyChoiceEntry : Option Name

def noTables : TableEntries := ⟨none, [], false, none⟩

def hasTableEntries (tables : TableEntries) : Bool :=
  tables.m_fibEntry.isSome || tables.m_pitEntries ≠ [] || tables.m_hasMeasurementsEntry ||
    tables.m_strategyChoiceEntry.isSome

/-- Every entry that has been made has its position for an address. -/
structure Pit (σ : Type) where
  m_nameTree : Tree Component TableEntries
  entries : List (Entry σ)
  m_nItems : ℕ

variable {σ : Type}

def initial : Pit σ := ⟨NameTree.empty, [], 0⟩

def setTables (nt : Tree Component TableEntries) (name : Name) (f : TableEntries → TableEntries) :
    Tree Component TableEntries := modify nt name (NameTree.Entry.setTables f)

def Entry.onRecords (f : PitPipelines.PitEntry σ → PitPipelines.PitEntry σ) (entry : Entry σ) : Entry σ :=
  { f entry.toPitEntry with m_nameTreeEntry := entry.m_nameTreeEntry }

section Operations

variable (wireEncode : σ → Block)

/-- `canMatch` for names whose first components are known to be equal. -/
def canMatch (entry : Entry σ) (interest : Interest σ) (nEqualNameComps : ℕ) : Bool :=
  entry.m_interest.m_name.drop nEqualNameComps = interest.m_name.drop nEqualNameComps &&
    wireEncode entry.m_interest.m_selectors = wireEncode interest.m_selectors

/-- The node of an Interest is made where it is missing and an entry may be inserted. -/
def treeFor (s : Pit σ) (interest : Interest σ) (allowInsert : Bool) : Tree Component TableEntries :=
  if allowInsert then lookup noTables s.m_nameTree interest.m_name (nteDepth interest.m_name) else s.m_nameTree

def findMatch (s : Pit σ) (interest : Interest σ) (pitEntries : List ℕ) : Option ℕ :=
  pitEntries.find? (fun a => (s.entries[a]?).any (canMatch wireEncode · interest (nteDepth interest.m_name)))

/-- The new state with the entry, if there is one, and whether it is new. -/
def findOrInsert (s : Pit σ) (interest : Interest σ) (allowInsert : Bool) : Pit σ × Option ℕ × Bool :=
  let nt := treeFor s interest allowInsert
  match findExactMatch nt (nteName interest.m_name) with
  | none => (s, none, true)
  | some nte =>
    match findMatch wireEncode s interest nte.tables.m_pitEntries with
    | some entry => ({ s with m_nameTree := nt }, some entry, false)
    | none =>
      if allowInsert then
        let entry := s.entries.length
        ({ m_nameTree := setTables nt nte.m_name (fun tables =>
              { tables with m_pitEntries := tables.m_pitEntries ++ [entry] })
           entries := s.entries ++ [⟨⟨interest, [], [], false, 0, none⟩, some nte.m_name⟩]
           m_nItems := s.m_nItems + 1 }, some entry, true)
      else (s, none, true)

def find (s : Pit σ) (interest : Interest σ) : Option ℕ := (findOrInsert wireEncode s interest false).2.1

def insert (s : Pit σ) (interest : Interest σ) : Pit σ × Option ℕ × Bool := findOrInsert wireEncode s interest true

def erase (s : Pit σ) (entry : ℕ) (canDeleteNte : Bool) : Pit σ :=
  match (s.entries[entry]?).bind Entry.m_nameTreeEntry with
  | none => s
  | some nte =>
    let nt := setTables s.m_nameTree nte (fun tables =>
      { tables with m_pitEntries := eraseByLast entry tables.m_pitEntries })
    { m_nameTree := if canDeleteNte then eraseIfEmpty hasTableEntries nt nte true else nt
      entries := s.entries.modify entry (fun object => { object with m_nameTreeEntry := none })
      m_nItems := s.m_nItems - 1 }

inductive RecordCall (σ : Type)
  | insertOrUpdateInRecord (now : ℤ) (face : Face) (interest : Interest σ)
  | insertOrUpdateOutRecord (now : ℤ) (face : Face) (interest : Interest σ)
  | deleteInRecord (face : Face)
  | deleteOutRecord (face : Face)
  | deleteInOutRecords (face : Face)
  | clearInRecords

def RecordCall.apply : RecordCall σ → PitPipelines.PitEntry σ → PitPipelines.PitEntry σ
  | .insertOrUpdateInRecord now face interest => PitPipelines.insertOrUpdateInRecord now face interest
  | .insertOrUpdateOutRecord now face interest => PitPipelines.insertOrUpdateOutRecord now face interest
  | .deleteInRecord face => PitPipelines.deleteInRecord face
  | .deleteOutRecord face => PitPipelines.deleteOutRecord face
  | .deleteInOutRecords face => PitPipelines.deleteInOutRecords face
  | .clearInRecords => PitPipelines.clearInRecords

inductive TreeCall
  | lookup (name : Name) (prefixLen : ℕ)
  | setFibEntry (name : Name) (fibEntry : Option Fib.Entry)
  | setMeasurementsEntry (name : Name) (hasEntry : Bool)
  | setStrategyChoiceEntry (name : Name) (instanceName : Option Name)
  | eraseIfEmpty (name : Name) (canEraseAncestors : Bool)

def TreeCall.apply (nt : Tree Component TableEntries) : TreeCall → Tree Component TableEntries
  | .lookup name prefixLen => NameTree.lookup noTables nt name prefixLen
  | .setFibEntry name fibEntry => setTables nt name (fun tables => { tables with m_fibEntry := fibEntry })
  | .setMeasurementsEntry name hasEntry =>
    setTables nt name (fun tables => { tables with m_hasMeasurementsEntry := hasEntry })
  | .setStrategyChoiceEntry name instanceName =>
    setTables nt name (fun tables => { tables with m_strategyChoiceEntry := instanceName })
  | .eraseIfEmpty name canEraseAncestors => NameTree.eraseIfEmpty hasTableEntries nt name canEraseAncestors

def TreeCall.Allowed (nt : Tree Component TableEntries) : TreeCall → Prop
  | .lookup name prefixLen => prefixLen ≤ name.length ∧ prefixLen ≤ getMaxDepth
  | .setFibEntry name _ | .setMeasurementsEntry name _ | .setStrategyChoiceEntry name _ | .eraseIfEmpty name _ =>
    (nt name).isSome

inductive Call (σ : Type)
  | insert (interest : Interest σ)
  | erase (entry : ℕ) (canDeleteNte : Bool)
  | record (entry : ℕ) (c : RecordCall σ)
  | tree (c : TreeCall)

/-- An entry that is erased is in the table. -/
def Call.Allowed (s : Pit σ) : Call σ → Prop
  | .insert _ | .record _ _ => True
  | .erase entry _ => ((s.entries[entry]?).bind Entry.m_nameTreeEntry).isSome
  | .tree c => c.Allowed s.m_nameTree

def call (s : Pit σ) : Call σ → Pit σ
  | .insert interest => (insert wireEncode s interest).1
  | .erase entry canDeleteNte => erase s entry canDeleteNte
  | .record entry c => { s with entries := s.entries.modify entry (Entry.onRecords c.apply) }
  | .tree c => { s with m_nameTree := c.apply s.m_nameTree }

abbrev Calls (Ok : Pit σ → Call σ → Prop) : Pit σ → Pit σ → Prop := Run (fun s c => some (call wireEncode s c)) Ok

end Operations

def InTree (s : Pit σ) (entry : ℕ) : Prop :=
  ∃ name nte, s.m_nameTree name = some nte ∧ entry ∈ nte.tables.m_pitEntries

def AttachedTo (s : Pit σ) (entry : ℕ) (name : Name) : Prop :=
  ∃ object, s.entries[entry]? = some object ∧ object.m_nameTreeEntry = some name

def pitEntriesAt (s : Pit σ) (name : Name) : List ℕ := (tablesAt noTables s.m_nameTree name).m_pitEntries

/-- The name and the selectors of an Interest, as entries are told apart by them. -/
def key (wireEncode : σ → Block) (interest : Interest σ) : Name × Block :=
  (interest.m_name, wireEncode interest.m_selectors)

structure Linked (wireEncode : σ → Block) (s : Pit σ) : Prop where
  wellFormed : WellFormed getMaxDepth s.m_nameTree
  mem_iff : ∀ name entry, entry ∈ pitEntriesAt s name ↔ AttachedTo s entry name
  nodup : ∀ name, (pitEntriesAt s name).Nodup
  placed : ∀ {entry : ℕ} {object : Entry σ} {name : Name}, s.entries[entry]? = some object → object.m_nameTreeEntry = some name →
    name = nteName object.m_interest.m_name
  distinct : ∀ {entry other : ℕ} {object object' : Entry σ}, s.entries[entry]? = some object → s.entries[other]? = some object' →
    object.m_nameTreeEntry.isSome → object'.m_nameTreeEntry.isSome →
    key wireEncode object.m_interest = key wireEncode object'.m_interest → entry = other
  count : s.m_nItems = s.entries.countP (fun object => object.m_nameTreeEntry.isSome)

section Names

variable {wireEncode : σ → Block} {object : Entry σ} {interest : Interest σ}

theorem length_nteName (name : Name) : (nteName name).length = nteDepth name := by
  have hle := ForwardingTables.nteDepth_le_length name
  rw [nteName, List.length_take]
  omega

theorem canMatch_iff (hplaced : nteName object.m_interest.m_name = nteName interest.m_name) :
    canMatch wireEncode object interest (nteDepth interest.m_name) = true ↔
      key wireEncode object.m_interest = key wireEncode interest := by
  have hdepth : nteDepth object.m_interest.m_name = nteDepth interest.m_name := by
    rw [← length_nteName, ← length_nteName, hplaced]
  have htake : object.m_interest.m_name.take (nteDepth interest.m_name) =
      interest.m_name.take (nteDepth interest.m_name) := by
    rw [nteName, nteName, hdepth] at hplaced
    exact hplaced
  rw [canMatch, Bool.and_eq_true, decide_eq_true_eq, decide_eq_true_eq, key, key, Prod.mk.injEq]
  constructor
  · rintro ⟨hdrop, hselectors⟩
    refine ⟨?_, hselectors⟩
    rw [← List.take_append_drop (nteDepth interest.m_name) object.m_interest.m_name, htake, hdrop,
      List.take_append_drop]
  · rintro ⟨hname, hselectors⟩
    exact ⟨by rw [hname], hselectors⟩

theorem canMatch_zero : canMatch wireEncode object interest 0 = true ↔
    key wireEncode object.m_interest = key wireEncode interest := by
  simp [canMatch, key]

end Names

section Trees

variable {wireEncode : σ → Block} {s : Pit σ} {nt : Tree Component TableEntries}

theorem eq_noTables (tables : TableEntries) (h : hasTableEntries tables = false) : tables = noTables := by
  obtain ⟨fib, pit, measurements, strategy⟩ := tables
  simp only [hasTableEntries, Bool.or_eq_false_iff, Option.isSome_eq_false_iff, Option.isNone_iff_eq_none,
    decide_eq_false_iff_not, not_not] at h
  obtain ⟨⟨⟨rfl, rfl⟩, rfl⟩, rfl⟩ := h
  rfl

theorem Linked.tree (h : Linked wireEncode s) (hwf : WellFormed getMaxDepth nt)
    (hpit : ∀ name, (tablesAt noTables nt name).m_pitEntries = pitEntriesAt s name) :
    Linked wireEncode { s with m_nameTree := nt } where
  wellFormed := hwf
  mem_iff name entry := by
    rw [pitEntriesAt, hpit]
    exact h.mem_iff name entry
  nodup name := by
    rw [pitEntriesAt, hpit]
    exact h.nodup name
  placed := h.placed
  distinct := h.distinct
  count := h.count

theorem wellFormed_lookup_nteName (h : Linked wireEncode s) (name : Name) :
    WellFormed getMaxDepth (lookup noTables s.m_nameTree name (nteDepth name)) :=
  wellFormed_lookup h.wellFormed (ForwardingTables.nteDepth_le_length name) (Nat.min_le_right _ _)

theorem eraseIfEmpty_spec (hwf : WellFormed getMaxDepth nt) (name : Name) (canEraseAncestors : Bool) :
    WellFormed getMaxDepth (eraseIfEmpty hasTableEntries nt name canEraseAncestors) ∧
      ∀ name', tablesAt noTables (eraseIfEmpty hasTableEntries nt name canEraseAncestors) name' =
        tablesAt noTables nt name' :=
  ⟨wellFormed_eraseLoop hwf _ _, eraseLoop_tablesAt eq_noTables hwf _ _⟩

theorem setTables_pitEntries {name : Name} {f : TableEntries → TableEntries} (hname : (nt name).isSome)
    (hf : ∀ tables, (f tables).m_pitEntries = tables.m_pitEntries) (name' : Name) :
    (tablesAt noTables (setTables nt name f) name').m_pitEntries = (tablesAt noTables nt name').m_pitEntries := by
  rw [setTables, setTables_tablesAt hname]
  split
  · rename_i heq
    rw [hf, heq]
  · rfl

theorem linked_treeCall (h : Linked wireEncode s) {c : TreeCall} (hallowed : c.Allowed s.m_nameTree) :
    Linked wireEncode { s with m_nameTree := c.apply s.m_nameTree } := by
  cases c with
  | lookup name prefixLen =>
    exact h.tree (wellFormed_lookup h.wellFormed hallowed.1 hallowed.2) fun name' =>
      congrArg TableEntries.m_pitEntries (lookup_tablesAt prefixLen name')
  | setFibEntry name fibEntry =>
    exact h.tree (wellFormed_setTables h.wellFormed) (setTables_pitEntries hallowed fun _ => rfl)
  | setMeasurementsEntry name hasEntry =>
    exact h.tree (wellFormed_setTables h.wellFormed) (setTables_pitEntries hallowed fun _ => rfl)
  | setStrategyChoiceEntry name instanceName =>
    exact h.tree (wellFormed_setTables h.wellFormed) (setTables_pitEntries hallowed fun _ => rfl)
  | eraseIfEmpty name canEraseAncestors =>
    obtain ⟨hwf, htables⟩ := eraseIfEmpty_spec h.wellFormed name canEraseAncestors
    exact h.tree hwf fun name' => congrArg TableEntries.m_pitEntries (htables name')

theorem isSome_of_mem {name : Name} {entry : ℕ} (h : entry ∈ pitEntriesAt s name) : (s.m_nameTree name).isSome := by
  by_contra hnone
  rw [Option.not_isSome_iff_eq_none] at hnone
  rw [pitEntriesAt, tablesAt, hnone] at h
  exact List.not_mem_nil h

theorem inTree_iff (h : Linked wireEncode s) (entry : ℕ) :
    InTree s entry ↔ ∃ object, s.entries[entry]? = some object ∧ object.m_nameTreeEntry.isSome := by
  constructor
  · rintro ⟨name, nte, hnte, hmem⟩
    have hat : entry ∈ pitEntriesAt s name := by
      rw [pitEntriesAt, tablesAt, hnte]
      exact hmem
    obtain ⟨object, hobject, hname⟩ := (h.mem_iff name entry).mp hat
    exact ⟨object, hobject, by rw [hname]; rfl⟩
  · rintro ⟨object, hobject, hsome⟩
    obtain ⟨name, hname⟩ := Option.isSome_iff_exists.mp hsome
    have hat := (h.mem_iff name entry).mpr ⟨object, hobject, hname⟩
    obtain ⟨nte, hnte⟩ := Option.isSome_iff_exists.mp (isSome_of_mem hat)
    rw [pitEntriesAt, tablesAt, hnte] at hat
    exact ⟨name, nte, hnte, hat⟩

end Trees

section Records

variable {wireEncode : σ → Block} {s : Pit σ}

def Entry.place (object : Entry σ) : Interest σ × Option Name := (object.m_interest, object.m_nameTreeEntry)

theorem apply_interest (c : RecordCall σ) (entry : PitPipelines.PitEntry σ) :
    (c.apply entry).m_interest = entry.m_interest := by
  cases c <;> rfl

theorem onRecords_place (c : RecordCall σ) (object : Entry σ) : (object.onRecords c.apply).place = object.place := by
  rw [Entry.place, Entry.place]
  exact congrArg (·, object.m_nameTreeEntry) (apply_interest c object.toPitEntry)

theorem getElem?_place {entries entries' : List (Entry σ)} (hplace : entries'.map Entry.place = entries.map Entry.place)
    {entry : ℕ} {object' : Entry σ} (h : entries'[entry]? = some object') :
    ∃ object, entries[entry]? = some object ∧ object.m_interest = object'.m_interest ∧
      object.m_nameTreeEntry = object'.m_nameTreeEntry := by
  have hmap := congrArg (·[entry]?) hplace
  simp only [List.getElem?_map, h, Option.map_some] at hmap
  obtain ⟨object, hobject, heq⟩ := Option.map_eq_some_iff.mp hmap.symm
  exact ⟨object, hobject, congrArg Prod.fst heq, congrArg Prod.snd heq⟩

theorem Linked.entries (h : Linked wireEncode s) {entries : List (Entry σ)}
    (hplace : entries.map Entry.place = s.entries.map Entry.place) : Linked wireEncode { s with entries := entries } where
  wellFormed := h.wellFormed
  mem_iff name entry := by
    refine (h.mem_iff name entry).trans ⟨?_, ?_⟩
    · rintro ⟨object, hobject, hname⟩
      obtain ⟨object', hobject', -, heq⟩ := getElem?_place hplace.symm hobject
      exact ⟨object', hobject', heq.trans hname⟩
    · rintro ⟨object, hobject, hname⟩
      obtain ⟨object', hobject', -, heq⟩ := getElem?_place hplace hobject
      exact ⟨object', hobject', heq.trans hname⟩
  nodup := h.nodup
  placed hobject hname := by
    obtain ⟨object', hobject', hinterest, heq⟩ := getElem?_place hplace hobject
    rw [← hinterest]
    exact h.placed hobject' (heq.trans hname)
  distinct hobject hother hsome hsome' hkey := by
    obtain ⟨first, hfirst, hinterest, heq⟩ := getElem?_place hplace hobject
    obtain ⟨second, hsecond, hinterest', heq'⟩ := getElem?_place hplace hother
    rw [← heq] at hsome
    rw [← heq'] at hsome'
    rw [← hinterest, ← hinterest'] at hkey
    exact h.distinct hfirst hsecond hsome hsome' hkey
  count := by
    have hcount : ∀ l : List (Entry σ), l.countP (fun object => object.m_nameTreeEntry.isSome) =
        (l.map Entry.place).countP (fun place => place.2.isSome) := by
      intro l
      rw [List.countP_map]
      rfl
    rw [hcount, hplace, ← hcount]
    exact h.count

theorem modify_place (entries : List (Entry σ)) (entry : ℕ) (c : RecordCall σ) :
    (entries.modify entry (Entry.onRecords c.apply)).map Entry.place = entries.map Entry.place := by
  refine List.ext_getElem? fun i => ?_
  rw [List.getElem?_map, List.getElem?_map, List.getElem?_modify, Option.map_eq_map, Option.map_map]
  refine congrArg (fun f => Option.map f entries[i]?) (funext fun object => ?_)
  rw [Function.comp_apply]
  split
  · exact onRecords_place c object
  · rfl

theorem linked_record (h : Linked wireEncode s) (entry : ℕ) (c : RecordCall σ) :
    Linked wireEncode { s with entries := s.entries.modify entry (Entry.onRecords c.apply) } :=
  h.entries (modify_place s.entries entry c)

end Records

section Insert

variable {wireEncode : σ → Block} {s : Pit σ} {interest : Interest σ} {allowInsert : Bool}

/-- The entry is in the table and has the name and the selectors of the Interest. -/
def Holds (wireEncode : σ → Block) (s : Pit σ) (entry : ℕ) (interest : Interest σ) : Prop :=
  ∃ object, s.entries[entry]? = some object ∧ object.m_nameTreeEntry.isSome ∧
    key wireEncode object.m_interest = key wireEncode interest

theorem Linked.holds_unique (h : Linked wireEncode s) {entry other : ℕ} (hentry : Holds wireEncode s entry interest)
    (hother : Holds wireEncode s other interest) : entry = other := by
  obtain ⟨object, hobject, hsome, hkey⟩ := hentry
  obtain ⟨object', hobject', hsome', hkey'⟩ := hother
  exact h.distinct hobject hobject' hsome hsome' (hkey.trans hkey'.symm)

theorem wellFormed_treeFor (h : Linked wireEncode s) : WellFormed getMaxDepth (treeFor s interest allowInsert) := by
  unfold treeFor
  split
  · exact wellFormed_lookup_nteName h _
  · exact h.wellFormed

theorem treeFor_pitEntries (interest : Interest σ) (allowInsert : Bool) (name : Name) :
    (tablesAt noTables (treeFor s interest allowInsert) name).m_pitEntries = pitEntriesAt s name := by
  unfold treeFor
  split
  · exact congrArg TableEntries.m_pitEntries (lookup_tablesAt _ name)
  · rfl

theorem treeFor_true_isSome (s : Pit σ) (interest : Interest σ) : (treeFor s interest true (nteName interest.m_name)).isSome :=
  (lookup_isSome _ _).mpr (Or.inr ⟨nteDepth interest.m_name, Nat.le_refl _, rfl⟩)

theorem holds_of_canMatch (h : Linked wireEncode s) {entry : ℕ}
    (hmem : entry ∈ pitEntriesAt s (nteName interest.m_name)) :
    (s.entries[entry]?).any (canMatch wireEncode · interest (nteDepth interest.m_name)) = true ↔
      Holds wireEncode s entry interest := by
  obtain ⟨object, hobject, hname⟩ := (h.mem_iff _ _).mp hmem
  rw [hobject, Option.any_some, canMatch_iff (h.placed hobject hname).symm]
  constructor
  · exact fun hkey => ⟨object, hobject, by rw [hname]; rfl, hkey⟩
  · rintro ⟨object', hobject', -, hkey⟩
    rw [hobject] at hobject'
    rw [Option.some.inj hobject']
    exact hkey

theorem mem_of_holds (h : Linked wireEncode s) {entry : ℕ} (hholds : Holds wireEncode s entry interest) :
    entry ∈ pitEntriesAt s (nteName interest.m_name) := by
  obtain ⟨object, hobject, hsome, hkey⟩ := hholds
  obtain ⟨name, hname⟩ := Option.isSome_iff_exists.mp hsome
  have hplaced := h.placed hobject hname
  have hsame : object.m_interest.m_name = interest.m_name := congrArg Prod.fst hkey
  rw [hsame] at hplaced
  exact hplaced ▸ (h.mem_iff name entry).mpr ⟨object, hobject, hname⟩

theorem findMatch_eq_some (h : Linked wireEncode s) {entry : ℕ} :
    findMatch wireEncode s interest (pitEntriesAt s (nteName interest.m_name)) = some entry ↔
      Holds wireEncode s entry interest := by
  constructor
  · intro hfind
    have hmatch := List.find?_some hfind
    exact (holds_of_canMatch h (List.mem_of_find?_eq_some hfind)).mp hmatch
  · intro hholds
    have hmem := mem_of_holds h hholds
    cases hfind : findMatch wireEncode s interest (pitEntriesAt s (nteName interest.m_name)) with
    | none => exact absurd ((holds_of_canMatch h hmem).mpr hholds) (List.find?_eq_none.mp hfind entry hmem)
    | some other =>
      have hmatch := List.find?_some hfind
      have hother := (holds_of_canMatch h (List.mem_of_find?_eq_some hfind)).mp hmatch
      rw [h.holds_unique hother hholds]

theorem pitEntries_of_node {nte : NameTree.Entry Component TableEntries}
    (hnte : treeFor s interest allowInsert (nteName interest.m_name) = some nte) :
    nte.tables.m_pitEntries = pitEntriesAt s (nteName interest.m_name) := by
  rw [← treeFor_pitEntries interest allowInsert, tablesAt, hnte]
  rfl

theorem findOrInsert_found (h : Linked wireEncode s) {entry : ℕ} (hholds : Holds wireEncode s entry interest) :
    findOrInsert wireEncode s interest allowInsert =
      ({ s with m_nameTree := treeFor s interest allowInsert }, some entry, false) := by
  have hmem := mem_of_holds h hholds
  simp only [findOrInsert, findExactMatch]
  cases hnte : treeFor s interest allowInsert (nteName interest.m_name) with
  | none =>
    rw [← treeFor_pitEntries interest allowInsert, tablesAt, hnte] at hmem
    exact absurd hmem List.not_mem_nil
  | some nte => simp only [pitEntries_of_node hnte, (findMatch_eq_some h).mpr hholds]

def inserted (s : Pit σ) (interest : Interest σ) : Pit σ where
  m_nameTree := setTables (treeFor s interest true) (nteName interest.m_name) (fun tables =>
    { tables with m_pitEntries := tables.m_pitEntries ++ [s.entries.length] })
  entries := s.entries ++ [⟨⟨interest, [], [], false, 0, none⟩, some (nteName interest.m_name)⟩]
  m_nItems := s.m_nItems + 1

theorem findOrInsert_new (h : Linked wireEncode s) (hnone : ∀ entry, ¬ Holds wireEncode s entry interest) :
    insert wireEncode s interest = (inserted s interest, some s.entries.length, true) := by
  obtain ⟨nte, hnte⟩ := Option.isSome_iff_exists.mp (treeFor_true_isSome s interest)
  have hfind : findMatch wireEncode s interest (pitEntriesAt s (nteName interest.m_name)) = none := by
    rw [Option.eq_none_iff_forall_ne_some]
    exact fun entry hentry => hnone entry ((findMatch_eq_some h).mp hentry)
  simp only [insert, findOrInsert, findExactMatch, hnte, pitEntries_of_node hnte, hfind, if_true,
    (wellFormed_treeFor h).name_eq hnte]
  rfl

theorem inserted_pitEntries (name : Name) : pitEntriesAt (inserted s interest) name =
    if name = nteName interest.m_name then pitEntriesAt s name ++ [s.entries.length] else pitEntriesAt s name := by
  rw [pitEntriesAt, inserted, setTables, setTables_tablesAt (treeFor_true_isSome s interest)]
  split
  · rename_i heq
    rw [heq]
    exact congrArg (· ++ [s.entries.length]) (treeFor_pitEntries interest true _)
  · exact treeFor_pitEntries interest true name

theorem inserted_entries {entry : ℕ} {object : Entry σ} (h : (inserted s interest).entries[entry]? = some object) :
    s.entries[entry]? = some object ∨ (entry = s.entries.length ∧ object.m_interest = interest ∧
      object.m_nameTreeEntry = some (nteName interest.m_name)) := by
  rw [inserted, List.getElem?_append] at h
  split at h
  · exact Or.inl h
  · rename_i hge
    have hlt := (List.getElem?_eq_some_iff.mp h).1
    rw [List.length_singleton] at hlt
    have heq : entry - s.entries.length = 0 := by omega
    rw [heq] at h
    obtain rfl := Option.some.inj h
    exact Or.inr ⟨by omega, rfl, rfl⟩

theorem inserted_attached (entry : ℕ) (name : Name) : AttachedTo (inserted s interest) entry name ↔
    AttachedTo s entry name ∨ (entry = s.entries.length ∧ name = nteName interest.m_name) := by
  constructor
  · rintro ⟨object, hobject, hname⟩
    rcases inserted_entries hobject with hobject | ⟨heq, -, hplace⟩
    · exact Or.inl ⟨object, hobject, hname⟩
    · exact Or.inr ⟨heq, Option.some.inj (hname.symm.trans hplace)⟩
  · rintro (⟨object, hobject, hname⟩ | ⟨rfl, rfl⟩)
    · have hlt := (List.getElem?_eq_some_iff.mp hobject).1
      exact ⟨object, (List.getElem?_append_left hlt).trans hobject, hname⟩
    · exact ⟨_, List.getElem?_concat_length, rfl⟩

theorem linked_inserted (h : Linked wireEncode s) (hnone : ∀ entry, ¬ Holds wireEncode s entry interest) :
    Linked wireEncode (inserted s interest) where
  wellFormed := wellFormed_setTables (wellFormed_treeFor h)
  mem_iff name entry := by
    rw [inserted_attached, ← h.mem_iff, inserted_pitEntries]
    split
    · rename_i heq
      rw [List.mem_append, List.mem_singleton, and_iff_left heq]
    · rename_i hne
      rw [or_iff_left (fun hright => hne hright.2)]
  nodup name := by
    rw [inserted_pitEntries]
    split
    · refine List.nodup_append.mpr ⟨h.nodup name, List.nodup_singleton _, ?_⟩
      rintro entry hentry _ hlast rfl
      obtain ⟨object, hobject, -⟩ := (h.mem_iff name entry).mp hentry
      have hlt := (List.getElem?_eq_some_iff.mp hobject).1
      exact absurd (List.mem_singleton.mp hlast) (Nat.ne_of_lt hlt)
    · exact h.nodup name
  placed hobject hname := by
    rcases inserted_entries hobject with hobject | ⟨-, hinterest, hplace⟩
    · exact h.placed hobject hname
    · rw [hinterest]
      exact Option.some.inj (hname.symm.trans hplace)
  distinct hobject hother hsome hsome' hkey := by
    rcases inserted_entries hobject with hobject | ⟨hentry, hinterest, -⟩
    · rcases inserted_entries hother with hother | ⟨-, hinterest', -⟩
      · exact h.distinct hobject hother hsome hsome' hkey
      · exact absurd ⟨_, hobject, hsome, hinterest' ▸ hkey⟩ (hnone _)
    · rcases inserted_entries hother with hother | ⟨hentry', -, -⟩
      · exact absurd ⟨_, hother, hsome', hinterest ▸ hkey.symm⟩ (hnone _)
      · exact hentry.trans hentry'.symm
  count := by
    rw [inserted, List.countP_append, ← h.count]
    rfl

theorem insert_spec (h : Linked wireEncode s) (interest : Interest σ) :
    ∃ entry isNew, (insert wireEncode s interest).2 = (some entry, isNew) ∧
      Linked wireEncode (insert wireEncode s interest).1 ∧ Holds wireEncode (insert wireEncode s interest).1 entry interest := by
  by_cases hexists : ∃ entry, Holds wireEncode s entry interest
  · obtain ⟨entry, hholds⟩ := hexists
    rw [insert, findOrInsert_found h hholds]
    exact ⟨entry, false, rfl, h.tree (wellFormed_treeFor h) (treeFor_pitEntries _ _), hholds⟩
  · have hnone : ∀ entry, ¬ Holds wireEncode s entry interest := fun entry hentry => hexists ⟨entry, hentry⟩
    rw [findOrInsert_new h hnone]
    exact ⟨s.entries.length, true, rfl, linked_inserted h hnone,
      ⟨_, List.getElem?_concat_length, rfl, rfl⟩⟩

end Insert

section Erase

variable {wireEncode : σ → Block} {s : Pit σ} {entry : ℕ} {object : Entry σ} {name : Name} {canDeleteNte : Bool}

def detached (object : Entry σ) : Entry σ := { object with m_nameTreeEntry := none }

def treeWithout (s : Pit σ) (entry : ℕ) (name : Name) : Tree Component TableEntries :=
  setTables s.m_nameTree name (fun tables => { tables with m_pitEntries := eraseByLast entry tables.m_pitEntries })

theorem erase_eq (hobject : s.entries[entry]? = some object) (hname : object.m_nameTreeEntry = some name) :
    erase s entry canDeleteNte =
      ⟨if canDeleteNte then eraseIfEmpty hasTableEntries (treeWithout s entry name) name true
        else treeWithout s entry name, s.entries.modify entry detached, s.m_nItems - 1⟩ := by
  rw [erase, hobject, Option.bind_some, hname]
  rfl

theorem erased_wellFormed (h : Linked wireEncode s) (hobject : s.entries[entry]? = some object)
    (hname : object.m_nameTreeEntry = some name) :
    WellFormed getMaxDepth (erase s entry canDeleteNte).m_nameTree := by
  have hwf : WellFormed getMaxDepth (treeWithout s entry name) := wellFormed_setTables h.wellFormed
  rw [erase_eq hobject hname]
  dsimp only
  split
  · exact (eraseIfEmpty_spec hwf name true).1
  · exact hwf

theorem erased_pitEntries (h : Linked wireEncode s) (hobject : s.entries[entry]? = some object)
    (hname : object.m_nameTreeEntry = some name) (name' : Name) :
    pitEntriesAt (erase s entry canDeleteNte) name' =
      if name' = name then eraseByLast entry (pitEntriesAt s name) else pitEntriesAt s name' := by
  have hwf : WellFormed getMaxDepth (treeWithout s entry name) := wellFormed_setTables h.wellFormed
  have hsome := isSome_of_mem ((h.mem_iff name entry).mpr ⟨object, hobject, hname⟩)
  have hwithout : (tablesAt noTables (treeWithout s entry name) name').m_pitEntries =
      if name' = name then eraseByLast entry (pitEntriesAt s name) else pitEntriesAt s name' := by
    rw [treeWithout, setTables, setTables_tablesAt hsome]
    split
    · rfl
    · rfl
  rw [erase_eq hobject hname, pitEntriesAt, ← hwithout]
  dsimp only
  split
  · rw [(eraseIfEmpty_spec hwf name true).2]
  · rfl

theorem erased_entries (hobject : s.entries[entry]? = some object) (hname : object.m_nameTreeEntry = some name)
    (other : ℕ) : (erase s entry canDeleteNte).entries[other]? =
      if entry = other then some (detached object) else s.entries[other]? := by
  rw [erase_eq hobject hname]
  dsimp only
  rw [List.getElem?_modify, Option.map_eq_map]
  split
  · rename_i heq
    rw [← heq, hobject, Option.map_some]
  · exact Option.map_id'

theorem erased_attached (hobject : s.entries[entry]? = some object) (hname : object.m_nameTreeEntry = some name)
    {other : ℕ} {object' : Entry σ} (h : (erase s entry canDeleteNte).entries[other]? = some object')
    (hsome : object'.m_nameTreeEntry.isSome) : entry ≠ other ∧ s.entries[other]? = some object' := by
  rw [erased_entries hobject hname] at h
  split at h
  · rw [← Option.some.inj h] at hsome
    cases hsome
  · rename_i hne
    exact ⟨hne, h⟩

theorem linked_erase (h : Linked wireEncode s) (hobject : s.entries[entry]? = some object)
    (hname : object.m_nameTreeEntry = some name) : Linked wireEncode (erase s entry canDeleteNte) where
  wellFormed := erased_wellFormed h hobject hname
  mem_iff name' other := by
    have hattached : AttachedTo (erase s entry canDeleteNte) other name' ↔ entry ≠ other ∧ AttachedTo s other name' := by
      constructor
      · rintro ⟨object', hobject', hname'⟩
        obtain ⟨hne, hold⟩ := erased_attached hobject hname hobject' (by rw [hname']; rfl)
        exact ⟨hne, object', hold, hname'⟩
      · rintro ⟨hne, object', hobject', hname'⟩
        exact ⟨object', by rw [erased_entries hobject hname, if_neg hne, hobject'], hname'⟩
    rw [hattached, ← h.mem_iff, erased_pitEntries h hobject hname]
    have hmem := (h.mem_iff name entry).mpr ⟨object, hobject, hname⟩
    split
    · rename_i heq
      rw [(eraseByLast_perm hmem).mem_iff, (h.nodup name).mem_erase_iff, heq, ne_comm]
    · rename_i hne
      refine ⟨fun hother => ⟨?_, hother⟩, And.right⟩
      rintro rfl
      obtain ⟨object', hobject', hname'⟩ := (h.mem_iff name' entry).mp hother
      rw [hobject] at hobject'
      rw [← Option.some.inj hobject', hname] at hname'
      exact hne (Option.some.inj hname').symm
  nodup name' := by
    rw [erased_pitEntries h hobject hname]
    have hmem := (h.mem_iff name entry).mpr ⟨object, hobject, hname⟩
    split
    · exact (eraseByLast_perm hmem).nodup_iff.mpr ((h.nodup name).erase entry)
    · exact h.nodup name'
  placed hother hname' :=
    h.placed (erased_attached hobject hname hother (by rw [hname']; rfl)).2 hname'
  distinct hfirst hsecond hsome hsome' hkey :=
    h.distinct (erased_attached hobject hname hfirst hsome).2 (erased_attached hobject hname hsecond hsome').2
      hsome hsome' hkey
  count := by
    obtain ⟨hlt, hget⟩ := List.getElem?_eq_some_iff.mp hobject
    have hsplit : s.entries = s.entries.take entry ++ object :: s.entries.drop (entry + 1) := by
      rw [← hget, List.getElem_cons_drop, List.take_append_drop]
    rw [erase_eq hobject hname]
    dsimp only
    rw [List.modify_eq_take_cons_drop hlt, hget, h.count]
    conv_lhs => rw [hsplit]
    rw [List.countP_append, List.countP_append, List.countP_cons, List.countP_cons, hname]
    simp [detached]

end Erase

section Runs

variable {wireEncode : σ → Block} {s s' : Pit σ} {entry : ℕ} {interest : Interest σ}

theorem linked_initial : Linked wireEncode (initial : Pit σ) where
  wellFormed := wellFormed_empty _
  mem_iff name entry := by
    constructor
    · intro h
      exact absurd h List.not_mem_nil
    · rintro ⟨object, hobject, -⟩
      cases hobject
  nodup name := List.nodup_nil
  placed hobject := by cases hobject
  distinct hobject := by cases hobject
  count := rfl

theorem linked_call (h : Linked wireEncode s) {c : Call σ} (hallowed : c.Allowed s) :
    Linked wireEncode (call wireEncode s c) := by
  cases c with
  | insert interest =>
    obtain ⟨-, -, -, hlinked, -⟩ := insert_spec h interest
    exact hlinked
  | erase entry canDeleteNte =>
    obtain ⟨name, hname⟩ := Option.isSome_iff_exists.mp hallowed
    obtain ⟨object, hobject, hplace⟩ := Option.bind_eq_some_iff.mp hname
    exact linked_erase h hobject hplace
  | record entry c => exact linked_record h entry c
  | tree c => exact linked_treeCall h hallowed

def Keeps (entry : ℕ) (s : Pit σ) (c : Call σ) : Prop := c.Allowed s ∧ ∀ canDeleteNte, c ≠ .erase entry canDeleteNte

theorem holds_call (h : Linked wireEncode s) (hholds : Holds wireEncode s entry interest) {c : Call σ}
    (hkeeps : Keeps entry s c) : Holds wireEncode (call wireEncode s c) entry interest := by
  obtain ⟨object, hobject, hsome, hkey⟩ := hholds
  cases c with
  | insert interest' =>
    by_cases hexists : ∃ other, Holds wireEncode s other interest'
    · obtain ⟨other, hother⟩ := hexists
      rw [call, insert, findOrInsert_found h hother]
      exact ⟨object, hobject, hsome, hkey⟩
    · rw [call, findOrInsert_new h fun other hother => hexists ⟨other, hother⟩]
      have hlt := (List.getElem?_eq_some_iff.mp hobject).1
      exact ⟨object, (List.getElem?_append_left hlt).trans hobject, hsome, hkey⟩
  | erase other canDeleteNte =>
    have hne : other ≠ entry := fun heq => hkeeps.2 canDeleteNte (by rw [heq])
    obtain ⟨name, hname⟩ := Option.isSome_iff_exists.mp hkeeps.1
    obtain ⟨object', hobject', hplace⟩ := Option.bind_eq_some_iff.mp hname
    exact ⟨object, by rw [call, erased_entries hobject' hplace, if_neg hne, hobject], hsome, hkey⟩
  | record other c =>
    obtain ⟨object', hobject', hinterest, heq⟩ := getElem?_place (modify_place s.entries other c).symm hobject
    exact ⟨object', hobject', by rw [heq]; exact hsome, by rw [hinterest]; exact hkey⟩
  | tree c => exact ⟨object, hobject, hsome, hkey⟩

theorem holds_run (hrun : Calls wireEncode (Keeps entry) s s') (h : Linked wireEncode s)
    (hholds : Holds wireEncode s entry interest) :
    Linked wireEncode s' ∧ Holds wireEncode s' entry interest := by
  refine hrun.invariant (P := fun s => Linked wireEncode s ∧ Holds wireEncode s entry interest)
    (fun s c s' hs hkeeps hstep => ?_) ⟨h, hholds⟩
  obtain rfl := Option.some.inj hstep
  exact ⟨linked_call hs.1 hkeeps.1, holds_call hs.1 hs.2 hkeeps⟩

theorem linked_run (hrun : Calls wireEncode (fun s c => c.Allowed s) s s') (h : Linked wireEncode s) :
    Linked wireEncode s' := by
  refine hrun.invariant (fun s c s' hs hallowed hstep => ?_) h
  obtain rfl := Option.some.inj hstep
  exact linked_call hs hallowed

theorem ncard_positions {α : Type} (p : α → Bool) (l : List α) :
    {i : ℕ | ∃ a, l[i]? = some a ∧ p a = true}.ncard = l.countP p := by
  induction l using List.reverseRecOn with
  | nil => simp
  | append_singleton l a ih =>
    have hfinite : {i : ℕ | ∃ a, l[i]? = some a ∧ p a = true}.Finite :=
      (Set.finite_lt_nat l.length).subset fun i hi => (List.getElem?_eq_some_iff.mp hi.choose_spec.1).1
    have hnot : l.length ∉ {i : ℕ | ∃ a, l[i]? = some a ∧ p a = true} := by
      rintro ⟨a, ha, -⟩
      exact absurd (List.getElem?_eq_some_iff.mp ha).1 (Nat.lt_irrefl _)
    have hmem : ∀ i, (∃ b, (l ++ [a])[i]? = some b ∧ p b = true) ↔
        (∃ b, l[i]? = some b ∧ p b = true) ∨ (i = l.length ∧ p a = true) := by
      intro i
      rw [List.getElem?_append]
      split
      · rename_i hlt
        rw [or_iff_left (fun hright => absurd hright.1 (Nat.ne_of_lt hlt))]
      · rename_i hge
        rw [List.getElem?_eq_none (Nat.le_of_not_lt hge), List.getElem?_singleton]
        constructor
        · rintro ⟨b, hb, hp⟩
          split at hb
          · obtain rfl := Option.some.inj hb
            exact Or.inr ⟨by omega, hp⟩
          · cases hb
        · rintro (⟨b, hb, -⟩ | ⟨rfl, hp⟩)
          · cases hb
          · exact ⟨a, by rw [Nat.sub_self]; rfl, hp⟩
    rw [List.countP_append, List.countP_singleton, ← ih]
    by_cases hp : p a = true
    · rw [if_pos hp, ← Set.ncard_insert_of_notMem hnot hfinite]
      congr 1
      ext i
      rw [Set.mem_ofPred_eq, hmem, Set.mem_insert_iff, and_iff_left hp, or_comm]
      rfl
    · rw [if_neg hp, Nat.add_zero]
      congr 1
      ext i
      rw [Set.mem_ofPred_eq, hmem, or_iff_left (fun hright => hp hright.2)]
      rfl

theorem pit_insert_find (wireEncode : σ → Block) (hrun : Calls wireEncode (fun s c => c.Allowed s) initial s) :
    (∀ entry other object object', InTree s entry → InTree s other → s.entries[entry]? = some object →
        s.entries[other]? = some object' → canMatch wireEncode object object'.m_interest 0 = true → entry = other) ∧
      (∀ interest, ∃ entry isNew, (insert wireEncode s interest).2 = (some entry, isNew) ∧
        InTree (insert wireEncode s interest).1 entry ∧
        ∀ s', Calls wireEncode (Keeps entry) (insert wireEncode s interest).1 s' → ∀ interest' : Interest σ,
          interest'.m_name = interest.m_name →
          wireEncode interest'.m_selectors = wireEncode interest.m_selectors →
          find wireEncode s' interest' = some entry ∧ (insert wireEncode s' interest').2 = (some entry, false)) ∧
      s.m_nItems = {entry | InTree s entry}.ncard := by
  have hlinked := linked_run hrun linked_initial
  refine ⟨?_, ?_, ?_⟩
  · intro entry other object object' hentry hother hobject hobject' hmatch
    obtain ⟨first, hfirst, hsome⟩ := (inTree_iff hlinked entry).mp hentry
    obtain ⟨second, hsecond, hsome'⟩ := (inTree_iff hlinked other).mp hother
    rw [hobject] at hfirst
    rw [hobject'] at hsecond
    obtain rfl := Option.some.inj hfirst
    obtain rfl := Option.some.inj hsecond
    exact hlinked.distinct hobject hobject' hsome hsome' (canMatch_zero.mp hmatch)
  · intro interest
    obtain ⟨entry, isNew, hanswer, hinserted, hholds⟩ := insert_spec hlinked interest
    refine ⟨entry, isNew, hanswer, (inTree_iff hinserted entry).mpr ?_, ?_⟩
    · obtain ⟨object, hobject, hsome, -⟩ := hholds
      exact ⟨object, hobject, hsome⟩
    · intro s' hrun' interest' hname hselectors
      have hkey : key wireEncode interest' = key wireEncode interest := by rw [key, key, hname, hselectors]
      obtain ⟨hlinked', object, hobject, hsome, hkey'⟩ := holds_run hrun' hinserted hholds
      have hholds' : Holds wireEncode s' entry interest' := ⟨object, hobject, hsome, hkey'.trans hkey.symm⟩
      rw [find, insert, findOrInsert_found hlinked' hholds', findOrInsert_found hlinked' hholds']
      exact ⟨rfl, rfl⟩
  · rw [hlinked.count, ← ncard_positions]
    congr 1
    ext entry
    exact (inTree_iff hlinked entry).symm

def interestOf (number nonce : ℕ) : Interest ℕ := ⟨[⟨8, [97]⟩], number, nonce, 4000, [], none⟩

def aliceWire (number : ℕ) : Block := ⟨9, [number.toUInt8]⟩

/-- An entry with other selectors, and then one that a second insertion with the same selectors finds again. -/
theorem pit_insert_find_alice :
    find aliceWire (call aliceWire (call aliceWire (call aliceWire initial (.insert (interestOf 0 7)))
      (.insert (interestOf 1 7))) (.erase 0 true)) (interestOf 1 8) = some 1 := by
  have hfirst : Calls aliceWire (fun s c => c.Allowed s) initial (call aliceWire initial (.insert (interestOf 0 7))) :=
    Run.refl.step (by exact trivial) rfl
  obtain ⟨entry, isNew, hnew, -, hkept⟩ := (pit_insert_find aliceWire hfirst).2.1 (interestOf 1 7)
  obtain rfl : 1 = entry := Option.some.inj (congrArg Prod.fst hnew)
  have hkeeps : Keeps 1 (insert aliceWire (call aliceWire initial (.insert (interestOf 0 7))) (interestOf 1 7)).1 (.erase 0 true) :=
    ⟨rfl, by rintro _ ⟨⟩⟩
  exact (hkept _ (Run.refl.step hkeeps rfl) (interestOf 1 8) rfl rfl).1

end Runs

end LeoNdn.PitTable
