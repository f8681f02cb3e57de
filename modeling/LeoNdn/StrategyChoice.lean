import LeoNdn.ForwardingTables
import LeoNdn.NameTreeIterator
import LeoNdn.LongestPrefixes

/-!
The choice of strategies for prefixes, and the information of strategies that is
cleared when the choice for a prefix changes.
-/

namespace LeoNdn.StrategyChoice

open LeoNdn.NdnPacket LeoNdn.NameTree LeoNdn.NameTreeIterator LeoNdn.LongestPrefixes
open LeoNdn.Forwarder (Face)
open LeoNdn.ForwardingTables (getMaxDepth nteDepth nteName hasDigest)

/-- An in-record or an out-record, with the information that strategies keep on it. -/
structure Record (ι : Type) where
  m_face : Face
  strategyInfo : List ι
  deriving DecidableEq, Repr

structure PitEntry (ι : Type) where
  m_name : Name
  strategyInfo : List ι
  m_inRecords : List (Record ι)
  m_outRecords : List (Record ι)
  deriving DecidableEq, Repr

/-- A measurements entry is its information; a strategy choice is the name of the instance. -/
structure TableEntries (ι : Type) where
  m_hasFibEntry : Bool
  m_pitEntries : List (PitEntry ι)
  m_measurementsEntry : Option (List ι)
  m_strategyChoiceEntry : Option Name
  deriving DecidableEq, Repr

variable {ι : Type}

def noTables : TableEntries ι := ⟨false, [], none, none⟩

def hasTableEntries (tables : TableEntries ι) : Bool :=
  tables.m_hasFibEntry || ! tables.m_pitEntries.isEmpty || tables.m_measurementsEntry.isSome ||
    tables.m_strategyChoiceEntry.isSome

abbrev NameTree (ι : Type) := Tree Component (TableEntries ι)

def tablesOf (nt : NameTree ι) (name : Name) : TableEntries ι := tablesAt noTables nt name

def setTables (nt : NameTree ι) (name : Name) (f : TableEntries ι → TableEntries ι) : NameTree ι :=
  modify nt name (Entry.setTables f)

/-- What the strategies are created from: the search in the registry, and the
constructors, which may not accept the name. -/
structure Registry where
  find : Name → Option Name
  construct : Name → Name → Except String Name

def Registry.create (registry : Registry) (strategyName : Name) : Except String (Option Name) :=
  match registry.find strategyName with
  | none => .ok none
  | some found => (registry.construct found strategyName).map some

def Registry.areSameType (registry : Registry) (instanceNameA instanceNameB : Name) : Bool :=
  registry.find instanceNameA = registry.find instanceNameB

section EffectiveStrategies

def nteHasStrategyChoiceEntry (nte : Entry Component (TableEntries ι)) : Bool := nte.tables.m_strategyChoiceEntry.isSome

def findEffectiveStrategy (nt : NameTree ι) (name : Name) : Option Name :=
  (findLongestPrefixMatch getMaxDepth nt name nteHasStrategyChoiceEntry).bind (fun nte => nte.tables.m_strategyChoiceEntry)

def findEffectiveStrategyOfPit (nt : NameTree ι) (pitEntry : PitEntry ι) : Option Name :=
  (findLongestPrefixMatchOfPit getMaxDepth nt (nteName pitEntry.m_name) pitEntry.m_name nteHasStrategyChoiceEntry).bind
    (fun nte => nte.tables.m_strategyChoiceEntry)

/-- Of the measurements entry at a name. -/
def findEffectiveStrategyOfMeasurements (nt : NameTree ι) (name : Name) : Option Name :=
  (findLongestAbove nt nteHasStrategyChoiceEntry (name.length + 1) (some name)).bind
    (fun nte => nte.tables.m_strategyChoiceEntry)

end EffectiveStrategies

section Changes

def Record.clearStrategyInfo (record : Record ι) : Record ι := { record with strategyInfo := [] }

def PitEntry.clearStrategyInfo (pitEntry : PitEntry ι) : PitEntry ι :=
  { pitEntry with
    strategyInfo := []
    m_inRecords := pitEntry.m_inRecords.map Record.clearStrategyInfo
    m_outRecords := pitEntry.m_outRecords.map Record.clearStrategyInfo }

def clearStrategyInfo (tables : TableEntries ι) : TableEntries ι :=
  { tables with
    m_pitEntries := tables.m_pitEntries.map PitEntry.clearStrategyInfo
    m_measurementsEntry := tables.m_measurementsEntry.map (fun _ => []) }

/-- The selector of the enumeration: the nodes below other choices are left out. -/
def isChanged (namePrefix : Name) (nte : Entry Component (TableEntries ι)) : Bool × Bool :=
  if nte.m_name = namePrefix then (true, true)
  else if nte.tables.m_strategyChoiceEntry.isSome then (false, false)
  else (true, true)

/-- The enumeration is given a number of rounds. -/
def changeStrategy (registry : Registry) (rounds : ℕ) (nt : NameTree ι) (namePrefix oldInstanceName newInstanceName : Name) :
    Option (NameTree ι) :=
  if registry.areSameType oldInstanceName newInstanceName then some nt
  else
    (partialEnumerate rounds nt namePrefix (isChanged namePrefix)).map
      (fun ntChanged => ntChanged.foldl (fun nt nte => setTables nt nte clearStrategyInfo) nt)

def setStrategyChoiceEntry (instanceName : Option Name) (nt : NameTree ι) (namePrefix : Name) : NameTree ι :=
  setTables nt namePrefix (fun tables => { tables with m_strategyChoiceEntry := instanceName })

def setDefaultStrategy (instanceName : Name) (nt : NameTree ι) : NameTree ι :=
  setStrategyChoiceEntry (some instanceName) (lookup noTables nt [] 0) []

inductive InsertResult
  | OK
  | NOT_REGISTERED
  | EXCEPTION (exceptionMessage : String)
  | DEPTH_EXCEEDED
  deriving DecidableEq, Repr

/-- Without a value where an assertion fails or the rounds do not do. -/
def insert (registry : Registry) (rounds : ℕ) (nt : NameTree ι) (namePrefix strategyName : Name) :
    Option (InsertResult × NameTree ι) :=
  if namePrefix.length > getMaxDepth then some (.DEPTH_EXCEEDED, nt)
  else
    match registry.create strategyName with
    | .error what => some (.EXCEPTION what, nt)
    | .ok none => some (.NOT_REGISTERED, nt)
    | .ok (some newInstanceName) =>
      let nt := lookup noTables nt namePrefix namePrefix.length
      match (tablesOf nt namePrefix).m_strategyChoiceEntry with
      | some oldInstanceName =>
        if oldInstanceName = newInstanceName then some (.OK, nt)
        else do
          let nt ← changeStrategy registry rounds nt namePrefix oldInstanceName newInstanceName
          some (.OK, setStrategyChoiceEntry (some newInstanceName) nt namePrefix)
      | none => do
        let oldInstanceName ← findEffectiveStrategy nt namePrefix
        let nt ← changeStrategy registry rounds nt namePrefix oldInstanceName newInstanceName
        some (.OK, setStrategyChoiceEntry (some newInstanceName) nt namePrefix)

/-- The prefix is not empty. -/
def erase (registry : Registry) (rounds : ℕ) (nt : NameTree ι) (namePrefix : Name) : Option (NameTree ι) :=
  match findExactMatch nt namePrefix with
  | none => some nt
  | some nte =>
    match nte.tables.m_strategyChoiceEntry with
    | none => some nt
    | some oldInstanceName => do
      let parentInstanceName ← findEffectiveStrategy nt namePrefix.dropLast
      let nt ← changeStrategy registry rounds nt namePrefix oldInstanceName parentInstanceName
      some (eraseIfEmpty hasTableEntries (setStrategyChoiceEntry none nt namePrefix) namePrefix true)

inductive Event
  | insert (namePrefix strategyName : Name)
  | erase (namePrefix : {name : Name // name ≠ []})

def apply (registry : Registry) (rounds : ℕ) (nt : NameTree ι) : Event → Option (NameTree ι)
  | .insert namePrefix strategyName => (insert registry rounds nt namePrefix strategyName).map Prod.snd
  | .erase namePrefix => erase registry rounds nt namePrefix.val

def Ends {α : Type} (run : ℕ → Option α) (result : α) : Prop := ∃ rounds, ∀ r, rounds ≤ r → run r = some result

theorem Ends.imp {α β : Type} {run : ℕ → Option α} {run' : ℕ → Option β} {a : α} {b : β} (h : Ends run a)
    (himp : ∀ r, run r = some a → run' r = some b) : Ends run' b := by
  obtain ⟨rounds, hrounds⟩ := h
  exact ⟨rounds, fun r hr => himp r (hrounds r hr)⟩

theorem Ends.unique {α : Type} {run : ℕ → Option α} {a b : α} (h : Ends run a) (h' : Ends run b) : a = b := by
  obtain ⟨rounds, hrounds⟩ := h
  obtain ⟨rounds', hrounds'⟩ := h'
  have hboth := (hrounds _ (Nat.le_max_left rounds rounds')).symm.trans (hrounds' _ (Nat.le_max_right rounds rounds'))
  exact Option.some.inj hboth

theorem ends_of_forall {α : Type} {run : ℕ → Option α} {a : α} (h : ∀ r, run r = some a) : Ends run a := ⟨0, fun r _ => h r⟩

end Changes

section Properties

def choiceOf (nt : NameTree ι) (name : Name) : Option Name := (tablesOf nt name).m_strategyChoiceEntry

/-- PIT entries are attached where their names say, and the root has a choice. -/
structure Attached (nt : NameTree ι) : Prop where
  wellFormed : WellFormed getMaxDepth nt
  pit : ∀ name, ∀ pitEntry ∈ (tablesOf nt name).m_pitEntries, nteName pitEntry.m_name = name
  root : (choiceOf nt []).isSome = true

def InPit (nt : NameTree ι) (pitEntry : PitEntry ι) : Prop := pitEntry ∈ (tablesOf nt (nteName pitEntry.m_name)).m_pitEntries

/-- The prefix is the longest one that has a choice, where it is given one itself. -/
def Covers (nt : NameTree ι) (namePrefix name : Name) : Prop :=
  IsLongest (fun p => (choiceOf nt p).isSome = true ∨ p = namePrefix) name namePrefix

variable (registry : Registry)

/-- What is left of the information of an entry by a change of its effective strategy. -/
def expectedPitEntry (nt nt' : NameTree ι) (pitEntry : PitEntry ι) : PitEntry ι :=
  if (findEffectiveStrategyOfPit nt pitEntry).map registry.find = (findEffectiveStrategyOfPit nt' pitEntry).map registry.find then
    pitEntry
  else pitEntry.clearStrategyInfo

def expectedMeasurements (nt nt' : NameTree ι) (name : Name) (strategyInfo : List ι) : List ι :=
  if (findEffectiveStrategyOfMeasurements nt name).map registry.find =
      (findEffectiveStrategyOfMeasurements nt' name).map registry.find then strategyInfo
  else []

structure ClearsExactly (nt nt' : NameTree ι) : Prop where
  pit : ∀ name, (tablesOf nt' name).m_pitEntries =
    (tablesOf nt name).m_pitEntries.map (expectedPitEntry registry nt nt')
  measurements : ∀ name, (tablesOf nt' name).m_measurementsEntry =
    (tablesOf nt name).m_measurementsEntry.map (expectedMeasurements registry nt nt' name)

def Event.namePrefix : Event → Name
  | .insert namePrefix _ => namePrefix
  | .erase namePrefix => namePrefix.val

/-- The old and the new choice in force at the prefix, where the event replaces one by the other. -/
def changeOf (nt : NameTree ι) : Event → Option (Name × Name)
  | .insert namePrefix strategyName =>
    if namePrefix.length > getMaxDepth then none
    else
      match registry.create strategyName with
      | .ok (some newInstanceName) =>
        (findEffectiveStrategy nt namePrefix).map (fun oldInstanceName => (oldInstanceName, newInstanceName))
      | _ => none
  | .erase namePrefix =>
    (choiceOf nt namePrefix.val).bind (fun oldInstanceName =>
      (findEffectiveStrategy nt namePrefix.val.dropLast).map (fun parentInstanceName =>
        (oldInstanceName, parentInstanceName)))

def ChangesType (nt : NameTree ι) (event : Event) : Prop :=
  ∃ change ∈ changeOf registry nt event, registry.areSameType change.1 change.2 = false

/-- No PIT entry with information has a choice at its own name, which ends in a digest, if that is the prefix itself or
lies right below what the prefix covers. -/
def OnlyPlainEntries (nt : NameTree ι) (namePrefix : Name) : Prop :=
  ∀ pitEntry, InPit nt pitEntry → pitEntry.clearStrategyInfo ≠ pitEntry → hasDigest pitEntry.m_name = true →
    pitEntry.m_name ≠ namePrefix ∧
      ¬ ((choiceOf nt pitEntry.m_name).isSome = true ∧ Covers nt namePrefix (nteName pitEntry.m_name))

end Properties

section Lookups

variable {nt nt' : NameTree ι} {name namePrefix : Name} {strategy : Name}

theorem choiceOf_node {nte : Entry Component (TableEntries ι)} (hnte : nt name = some nte) :
    choiceOf nt name = nte.tables.m_strategyChoiceEntry := by
  rw [choiceOf, tablesOf, tablesAt, hnte]
  rfl

theorem selected_iff_choice : Selected nt nteHasStrategyChoiceEntry name ↔ (choiceOf nt name).isSome = true := by
  rw [selected_iff]
  cases hnte : nt name with
  | none => simp [choiceOf, tablesOf, tablesAt, hnte, noTables]
  | some nte => simp [choiceOf_node hnte, nteHasStrategyChoiceEntry]

theorem isSome_of_choice (h : (choiceOf nt name).isSome = true) : (nt name).isSome :=
  isSome_of_selected (selected_iff_choice.mpr h)

theorem isSome_of_tables (h : tablesOf nt name ≠ noTables) : (nt name).isSome := by
  by_contra hnone
  rw [Option.not_isSome_iff_eq_none] at hnone
  exact h (by rw [tablesOf, tablesAt, hnone]; rfl)

theorem effective_of_found {found : Option (Entry Component (TableEntries ι))}
    (hfound : ∀ nte, found = some nte ↔ nt nte.m_name = some nte ∧
      IsLongest (Selected nt nteHasStrategyChoiceEntry) name nte.m_name) (hwf : WellFormed getMaxDepth nt) :
    found.bind (fun nte => nte.tables.m_strategyChoiceEntry) = some strategy ↔ Effective (choiceOf nt) name strategy := by
  have hchoices : IsLongest (Selected nt nteHasStrategyChoiceEntry) name =
      IsLongest (fun p => (choiceOf nt p).isSome = true) name := by
    funext namePrefix
    exact propext (isLongest_congr fun _ => selected_iff_choice)
  rw [hchoices] at hfound
  rw [Option.bind_eq_some_iff]
  constructor
  · rintro ⟨nte, hnte, hchoice⟩
    obtain ⟨hnode, hlongest⟩ := (hfound nte).mp hnte
    exact ⟨nte.m_name, hlongest, (choiceOf_node hnode).trans hchoice⟩
  · rintro ⟨namePrefix, hlongest, hchoice⟩
    obtain ⟨nte, hnode⟩ := Option.isSome_iff_exists.mp (isSome_of_choice hlongest.2.1)
    obtain rfl := hwf.name_eq hnode
    exact ⟨nte, (hfound nte).mpr ⟨hnode, hlongest⟩, (choiceOf_node hnode).symm.trans hchoice⟩

theorem findEffectiveStrategy_iff (hwf : WellFormed getMaxDepth nt) :
    findEffectiveStrategy nt name = some strategy ↔ Effective (choiceOf nt) name strategy :=
  effective_of_found (fun _ => findLongestPrefixMatch_iff hwf) hwf

theorem findEffectiveStrategyOfPit_eq (hwf : WellFormed getMaxDepth nt) {pitEntry : PitEntry ι}
    (hsome : (nt (nteName pitEntry.m_name)).isSome) :
    findEffectiveStrategyOfPit nt pitEntry = findEffectiveStrategy nt pitEntry.m_name := by
  have hdepth : nteDepth pitEntry.m_name ≤ min pitEntry.m_name.length getMaxDepth := by
    unfold nteDepth
    omega
  rw [findEffectiveStrategyOfPit, nteName, findLongestPrefixMatchOfPit_eq hwf hdepth hsome]
  rfl

theorem findEffectiveStrategyOfMeasurements_eq (hwf : WellFormed getMaxDepth nt) (hsome : (nt name).isSome) :
    findEffectiveStrategyOfMeasurements nt name = findEffectiveStrategy nt name := by
  ext strategy
  rw [findEffectiveStrategy_iff hwf]
  exact effective_of_found (fun _ => findLongestAbove_iff hwf hsome) hwf

end Lookups

section Clearing

variable {nt nt' : NameTree ι} {name namePrefix : Name}

theorem select_isChanged (hwf : WellFormed getMaxDepth nt) (hsome : (nt name).isSome) :
    select nt (isChanged namePrefix) name =
      if name ≠ namePrefix ∧ (choiceOf nt name).isSome = true then (false, false) else (true, true) := by
  obtain ⟨nte, hnte⟩ := Option.isSome_iff_exists.mp hsome
  rw [select, hnte, choiceOf_node hnte]
  simp only [isChanged, hwf.name_eq hnte]
  by_cases heq : name = namePrefix
  · rw [if_pos heq, if_neg (fun h => h.1 heq)]
  · by_cases hchoice : nte.tables.m_strategyChoiceEntry.isSome = true
    · rw [if_neg heq, if_pos hchoice, if_pos ⟨heq, hchoice⟩]
    · rw [if_neg heq, if_neg hchoice, if_neg (fun h => hchoice h.2)]

theorem mem_ntChanged (hwf : WellFormed getMaxDepth nt) (name : Name) :
    name ∈ subtree nt (isChanged namePrefix) (getMaxDepth + 1) namePrefix ↔ (nt name).isSome ∧ Covers nt namePrefix name := by
  rw [mem_subtree hwf (by omega)]
  constructor
  · rintro ⟨hunder, haccepted, hsome, hway⟩
    refine ⟨hsome, hunder, Or.inr rfl, fun p hp hhas => ?_⟩
    rcases hhas with hchoice | rfl
    · by_contra hlonger
      have hne : p ≠ namePrefix := by
        rintro rfl
        exact hlonger (Nat.le_refl _)
      rcases Nat.lt_or_ge p.length name.length with hshort | hfull
      · have hdescend := hway p.length (by omega) hshort
        rw [take_eq_of_isPrefix hp, select_isChanged hwf (isSome_of_choice hchoice), if_pos ⟨hne, hchoice⟩] at hdescend
        cases hdescend
      · obtain rfl := hp.eq_of_length (Nat.le_antisymm hp.length_le hfull)
        rw [select_isChanged hwf hsome, if_pos ⟨hne, hchoice⟩] at haccepted
        cases haccepted
    · exact Nat.le_refl _
  · rintro ⟨hsome, hunder, -, hlongest⟩
    have hselect : ∀ i, namePrefix.length ≤ i → select nt (isChanged namePrefix) (name.take i) = (true, true) := by
      intro i hi
      rw [select_isChanged hwf (isSome_take hwf hsome i), if_neg]
      rintro ⟨hne, hchoice⟩
      have hle := hlongest _ (List.take_prefix i name) (Or.inl hchoice)
      have hunder' : namePrefix <+: name.take i := List.prefix_take_iff.mpr ⟨hunder, hi⟩
      exact hne (hunder'.eq_of_length (Nat.le_antisymm hunder'.length_le hle)).symm
    have hself := hselect name.length hunder.length_le
    rw [List.take_length] at hself
    exact ⟨hunder, by rw [hself], hsome, fun i hi _ => by rw [hselect i hi]⟩

theorem tablesOf_setTables {f : TableEntries ι → TableEntries ι} (h : (nt namePrefix).isSome) (name : Name) :
    tablesOf (setTables nt namePrefix f) name =
      if name = namePrefix then f (tablesOf nt namePrefix) else tablesOf nt name := setTables_tablesAt h name

theorem tablesOf_foldl_clear (names : List Name) (hnodup : names.Nodup) (hnodes : ∀ nte ∈ names, (nt nte).isSome) :
    WellFormed getMaxDepth nt → WellFormed getMaxDepth (names.foldl (fun nt nte => setTables nt nte clearStrategyInfo) nt) ∧
      (∀ name, (names.foldl (fun nt nte => setTables nt nte clearStrategyInfo) nt name).isSome ↔ (nt name).isSome) ∧
      ∀ name, tablesOf (names.foldl (fun nt nte => setTables nt nte clearStrategyInfo) nt) name =
        if name ∈ names then clearStrategyInfo (tablesOf nt name) else tablesOf nt name := by
  intro hwf
  induction names generalizing nt with
  | nil => exact ⟨hwf, fun _ => Iff.rfl, fun name => by simp⟩
  | cons first names ih =>
    obtain ⟨hfirst, hnodup⟩ := List.nodup_cons.mp hnodup
    obtain ⟨hsome, hnodes⟩ := List.forall_mem_cons.mp hnodes
    have hisSome : ∀ name, (setTables nt first clearStrategyInfo name).isSome ↔ (nt name).isSome := modify_isSome _
    obtain ⟨hwf', hisSome', htables⟩ := ih hnodup (fun nte hnte => (hisSome nte).mpr (hnodes nte hnte))
      (wellFormed_setTables hwf)
    refine ⟨hwf', fun name => (hisSome' name).trans (hisSome name), fun name => ?_⟩
    rw [List.foldl_cons, htables, tablesOf_setTables hsome]
    by_cases heq : name = first
    · subst heq
      rw [if_neg hfirst, if_pos rfl, if_pos List.mem_cons_self]
    · simp only [List.mem_cons, heq, false_or, if_false]

theorem clearStrategyInfo_noTables : clearStrategyInfo (noTables : TableEntries ι) = noTables := rfl

theorem changeStrategy_spec (hwf : WellFormed getMaxDepth nt) (registry : Registry)
    (namePrefix oldInstanceName newInstanceName : Name) :
    ∃ nt', Ends (fun r => changeStrategy registry r nt namePrefix oldInstanceName newInstanceName) nt' ∧
      WellFormed getMaxDepth nt' ∧ (∀ name, (nt' name).isSome ↔ (nt name).isSome) ∧
      (registry.areSameType oldInstanceName newInstanceName = false → ∀ name, Covers nt namePrefix name →
        tablesOf nt' name = clearStrategyInfo (tablesOf nt name)) ∧
      ∀ name, registry.areSameType oldInstanceName newInstanceName = true ∨ ¬ Covers nt namePrefix name →
        tablesOf nt' name = tablesOf nt name := by
  by_cases hsame : registry.areSameType oldInstanceName newInstanceName = true
  · refine ⟨nt, ends_of_forall fun r => ?_, hwf, fun _ => Iff.rfl, ?_, fun _ _ => rfl⟩
    · rw [changeStrategy, if_pos hsame]
    · intro hdiffer
      rw [hsame] at hdiffer
      cases hdiffer
  · have hends : Ends (fun r => partialEnumerate r nt namePrefix (isChanged namePrefix)) _ :=
      partialEnumerate_eq hwf (isChanged namePrefix) namePrefix
    refine ⟨_, hends.imp fun r hr => by rw [changeStrategy, if_neg hsame, hr, Option.map_some], ?_⟩
    obtain ⟨hwf', hisSome, htables⟩ := @tablesOf_foldl_clear _ nt _ (nodup_subtree hwf _ namePrefix)
      (fun nte hnte => ((mem_ntChanged hwf nte).mp hnte).1) hwf
    refine ⟨hwf', hisSome, fun _ name hcovers => ?_, fun name hnot => ?_⟩
    · rw [htables]
      split
      · rfl
      · rename_i hmem
        have hnode : tablesOf nt name = noTables := by
          by_contra hne
          exact hmem ((mem_ntChanged hwf name).mpr ⟨isSome_of_tables hne, hcovers⟩)
        rw [hnode, clearStrategyInfo_noTables]
    · rw [htables, if_neg]
      intro hmem
      exact (hnot.resolve_left hsame) ((mem_ntChanged hwf name).mp hmem).2

end Clearing

section Effects

variable {registry : Registry} {nt nt' : NameTree ι} {name namePrefix oldInstanceName newInstanceName : Name}

def SameInfo (tables tables' : TableEntries ι) : Prop :=
  tables'.m_pitEntries = tables.m_pitEntries ∧ tables'.m_measurementsEntry = tables.m_measurementsEntry

def ClearedInfo (tables tables' : TableEntries ι) : Prop := SameInfo (clearStrategyInfo tables) tables'

structure Applied (registry : Registry) (namePrefix oldInstanceName newInstanceName : Name) (nt nt' : NameTree ι) : Prop where
  wellFormed : WellFormed getMaxDepth nt'
  choice : ∀ p, p ≠ namePrefix → choiceOf nt' p = choiceOf nt p
  root : (choiceOf nt' []).isSome = true
  before : Effective (choiceOf nt) namePrefix oldInstanceName
  after : Effective (choiceOf nt') namePrefix newInstanceName
  cleared : registry.areSameType oldInstanceName newInstanceName = false → ∀ name, Covers nt namePrefix name →
    ClearedInfo (tablesOf nt name) (tablesOf nt' name)
  kept : ∀ name, registry.areSameType oldInstanceName newInstanceName = true ∨ ¬ Covers nt namePrefix name →
    SameInfo (tablesOf nt name) (tablesOf nt' name)

theorem covers_congr (hchoice : ∀ p, p ≠ namePrefix → choiceOf nt' p = choiceOf nt p) :
    Covers nt' namePrefix name ↔ Covers nt namePrefix name := by
  refine isLongest_congr fun p => ?_
  by_cases heq : p = namePrefix
  · simp [heq]
  · rw [hchoice p heq]

/-- The type in force at a name changes where the prefix covers the name. -/
theorem Applied.changes_iff (ha : Applied registry namePrefix oldInstanceName newInstanceName nt nt')
    (hwf : WellFormed getMaxDepth nt) (hroot : (choiceOf nt []).isSome = true) (name : Name) :
    (findEffectiveStrategy nt name).map registry.find ≠ (findEffectiveStrategy nt' name).map registry.find ↔
      registry.areSameType oldInstanceName newInstanceName = false ∧ Covers nt namePrefix name := by
  by_cases hcovers : Covers nt namePrefix name
  · have hbefore := (findEffectiveStrategy_iff hwf).mpr ((effective_below hcovers).mp ha.before)
    have hafter := (findEffectiveStrategy_iff ha.wellFormed).mpr
      ((effective_below ((covers_congr ha.choice).mpr hcovers)).mp ha.after)
    rw [hbefore, hafter, Option.map_some, Option.map_some]
    simp [Registry.areSameType, hcovers]
  · obtain ⟨strategy, hbefore⟩ := exists_effective hroot name
    have hafter := effective_elsewhere (fun p hp => (ha.choice p hp).symm) hcovers hroot hbefore
    rw [(findEffectiveStrategy_iff hwf).mpr hbefore, (findEffectiveStrategy_iff ha.wellFormed).mpr hafter]
    simp [hcovers]

theorem covers_nteName_iff (hwf : WellFormed getMaxDepth nt) (hshort : namePrefix.length ≤ getMaxDepth) (name : Name) :
    (Covers nt namePrefix (nteName name) ↔ Covers nt namePrefix name) ↔
      (hasDigest name = true → name ≠ namePrefix ∧
        ¬ ((choiceOf nt name).isSome = true ∧ Covers nt namePrefix (nteName name))) := by
  have hbound (p : Name) (hhas : (choiceOf nt p).isSome = true ∨ p = namePrefix) : p.length ≤ getMaxDepth := by
    rcases hhas with hchoice | rfl
    · exact hwf.length_le (isSome_of_choice hchoice)
    · exact hshort
  by_cases hown : hasDigest name = true ∧ ((choiceOf nt name).isSome = true ∨ name = namePrefix)
  · obtain ⟨hdigest, hhas⟩ := hown
    have hself : Covers nt namePrefix name ↔ namePrefix = name := isLongest_self hhas
    have hshort : (nteName name).length < name.length := by
      have hne : name ≠ [] := by
        rintro rfl
        cases hdigest
      have hpos := List.length_pos_iff.mpr hne
      have hle := hbound name hhas
      rw [nteName, nteDepth, if_pos hdigest, List.length_take]
      omega
    rw [hself]
    by_cases heq : name = namePrefix
    · subst heq
      have hnot : ¬ Covers nt name (nteName name) := by
        intro hcovers
        have hle := hcovers.1.length_le
        omega
      simp [hnot, hdigest]
    · have hchoice := hhas.resolve_right heq
      simp [hdigest, heq, hchoice, Ne.symm heq]
  · have hsame : Covers nt namePrefix (nteName name) ↔ Covers nt namePrefix name := by
      refine isLongest_shorter (List.take_prefix _ _) fun p hp hhas => ?_
      have hle := hbound p hhas
      have hle' := hp.length_le
      have hdepth : p.length ≤ nteDepth name := by
        by_contra hlt
        unfold nteDepth at hlt
        split at hlt
        · rename_i hdigest
          have heq := hp.eq_of_length (by omega)
          exact hown ⟨hdigest, heq ▸ hhas⟩
        · omega
      exact List.prefix_take_iff.mpr ⟨hp, hdepth⟩
    refine iff_of_true hsame fun hdigest => ⟨fun heq => hown ⟨hdigest, Or.inr heq⟩, fun hchoice => ?_⟩
    exact hown ⟨hdigest, Or.inl hchoice.1⟩

end Effects

section Exactly

variable {registry : Registry} {nt nt' : NameTree ι} {name namePrefix oldInstanceName newInstanceName : Name}

theorem isSome_of_mem {pitEntry : PitEntry ι} (h : pitEntry ∈ (tablesOf nt name).m_pitEntries) : (nt name).isSome :=
  isSome_of_tables fun hno => by simp [hno, noTables] at h

theorem Applied.sameInfo (ha : Applied registry namePrefix oldInstanceName newInstanceName nt nt')
    (hnot : ¬ (registry.areSameType oldInstanceName newInstanceName = false ∧ Covers nt namePrefix name)) :
    SameInfo (tablesOf nt name) (tablesOf nt' name) := by
  refine ha.kept name ?_
  by_cases hsame : registry.areSameType oldInstanceName newInstanceName = true
  · exact Or.inl hsame
  · exact Or.inr fun hcovers => hnot ⟨by simpa using hsame, hcovers⟩

theorem Applied.pitEntries (ha : Applied registry namePrefix oldInstanceName newInstanceName nt nt') (name : Name)
    [Decidable (registry.areSameType oldInstanceName newInstanceName = false ∧ Covers nt namePrefix name)] :
    (tablesOf nt' name).m_pitEntries = (tablesOf nt name).m_pitEntries.map (fun pitEntry =>
      if registry.areSameType oldInstanceName newInstanceName = false ∧ Covers nt namePrefix name then
        pitEntry.clearStrategyInfo
      else pitEntry) := by
  split
  · rename_i h
    exact (ha.cleared h.1 name h.2).1
  · rename_i h
    rw [List.map_id']
    exact (ha.sameInfo h).1

theorem Applied.measurements (ha : Applied registry namePrefix oldInstanceName newInstanceName nt nt')
    (h : Attached nt) (name : Name) : (tablesOf nt' name).m_measurementsEntry =
      (tablesOf nt name).m_measurementsEntry.map (expectedMeasurements registry nt nt' name) := by
  have hchanges := ha.changes_iff h.wellFormed h.root name
  have hboth (hsome : (tablesOf nt name).m_measurementsEntry.isSome) (hsome' : (tablesOf nt' name).m_measurementsEntry.isSome)
      (strategyInfo : List ι) : expectedMeasurements registry nt nt' name strategyInfo =
        if (findEffectiveStrategy nt name).map registry.find = (findEffectiveStrategy nt' name).map registry.find then
          strategyInfo
        else [] := by
    have hnode : (nt name).isSome := isSome_of_tables fun hno => by simp [hno, noTables] at hsome
    have hnode' : (nt' name).isSome := isSome_of_tables fun hno => by simp [hno, noTables] at hsome'
    rw [expectedMeasurements, findEffectiveStrategyOfMeasurements_eq h.wellFormed hnode,
      findEffectiveStrategyOfMeasurements_eq ha.wellFormed hnode']
  by_cases hcleared : registry.areSameType oldInstanceName newInstanceName = false ∧ Covers nt namePrefix name
  · have hentry' := (ha.cleared hcleared.1 name hcleared.2).2
    rw [clearStrategyInfo] at hentry'
    cases hentry : (tablesOf nt name).m_measurementsEntry with
    | none =>
      rw [hentry', hentry]
      rfl
    | some strategyInfo =>
      rw [hentry] at hentry'
      rw [hentry', Option.map_some, Option.map_some,
        hboth (by rw [hentry]; rfl) (by rw [hentry']; rfl), if_neg (hchanges.mpr hcleared)]
  · have hentry' := (ha.sameInfo hcleared).2
    cases hentry : (tablesOf nt name).m_measurementsEntry with
    | none =>
      rw [hentry', hentry]
      rfl
    | some strategyInfo =>
      rw [hentry] at hentry'
      rw [hentry', Option.map_some, hboth (by rw [hentry]; rfl) (by rw [hentry']; rfl),
        if_pos (Classical.not_not.mp (mt hchanges.mp hcleared))]

theorem expectedPitEntry_eq (ha : Applied registry namePrefix oldInstanceName newInstanceName nt nt') (h : Attached nt)
    {pitEntry : PitEntry ι} (hmem : InPit nt pitEntry)
    [Decidable (registry.areSameType oldInstanceName newInstanceName = false ∧ Covers nt namePrefix pitEntry.m_name)] :
    expectedPitEntry registry nt nt' pitEntry =
      if registry.areSameType oldInstanceName newInstanceName = false ∧ Covers nt namePrefix pitEntry.m_name then
        pitEntry.clearStrategyInfo
      else pitEntry := by
  classical
  have hmem' : (tablesOf nt' (nteName pitEntry.m_name)).m_pitEntries ≠ [] := by
    rw [ha.pitEntries]
    exact fun hnil => List.ne_nil_of_mem hmem (List.map_eq_nil_iff.mp hnil)
  have hnode' : (nt' (nteName pitEntry.m_name)).isSome := isSome_of_tables fun hno => hmem' (by rw [hno]; rfl)
  have hchanges := ha.changes_iff h.wellFormed h.root pitEntry.m_name
  rw [expectedPitEntry, findEffectiveStrategyOfPit_eq h.wellFormed (isSome_of_mem hmem),
    findEffectiveStrategyOfPit_eq ha.wellFormed hnode']
  by_cases hcovers : registry.areSameType oldInstanceName newInstanceName = false ∧ Covers nt namePrefix pitEntry.m_name
  · rw [if_neg (hchanges.mpr hcovers), if_pos hcovers]
  · rw [if_pos (Classical.not_not.mp (mt hchanges.mp hcovers)), if_neg hcovers]

theorem clearsExactly_iff_of_applied (h : Attached nt) (hshort : namePrefix.length ≤ getMaxDepth)
    (ha : Applied registry namePrefix oldInstanceName newInstanceName nt nt') :
    ClearsExactly registry nt nt' ↔
      (registry.areSameType oldInstanceName newInstanceName = false → OnlyPlainEntries nt namePrefix) := by
  classical
  have hentry (name : Name) (pitEntry : PitEntry ι) (hmem : pitEntry ∈ (tablesOf nt name).m_pitEntries) :
      ((if registry.areSameType oldInstanceName newInstanceName = false ∧ Covers nt namePrefix name then
          pitEntry.clearStrategyInfo else pitEntry) = expectedPitEntry registry nt nt' pitEntry) ↔
        (registry.areSameType oldInstanceName newInstanceName = false → pitEntry.clearStrategyInfo ≠ pitEntry →
          (Covers nt namePrefix (nteName pitEntry.m_name) ↔ Covers nt namePrefix pitEntry.m_name)) := by
    have hname := h.pit name pitEntry hmem
    have hin : InPit nt pitEntry := by
      rw [InPit, hname]
      exact hmem
    rw [expectedPitEntry_eq ha h hin, hname]
    by_cases hsame : registry.areSameType oldInstanceName newInstanceName = false
    · by_cases hinfo : pitEntry.clearStrategyInfo = pitEntry
      · simp [hinfo]
      · simp only [hsame, true_and, true_implies, ne_eq, hinfo, not_false_iff]
        by_cases hnode : Covers nt namePrefix name <;> by_cases hfull : Covers nt namePrefix pitEntry.m_name <;>
          simp [hnode, hfull, hinfo, Ne.symm hinfo]
    · simp [hsame]
  constructor
  · intro hexact hsame pitEntry hin hinfo
    have hequal := hexact.pit (nteName pitEntry.m_name)
    rw [ha.pitEntries, List.map_inj_left] at hequal
    exact (covers_nteName_iff h.wellFormed hshort _).mp ((hentry _ pitEntry hin).mp (hequal pitEntry hin) hsame hinfo)
  · intro honly
    refine ⟨fun name => ?_, ha.measurements h⟩
    rw [ha.pitEntries, List.map_inj_left]
    intro pitEntry hmem
    refine (hentry name pitEntry hmem).mpr fun hsame hinfo => (covers_nteName_iff h.wellFormed hshort _).mpr ?_
    refine honly hsame pitEntry ?_ hinfo
    rw [InPit, h.pit name pitEntry hmem]
    exact hmem

end Exactly

section Operations

variable {registry : Registry} {nt : NameTree ι} {name namePrefix : Name}

theorem tablesOf_lookup (nt : NameTree ι) (name : Name) (prefixLen : ℕ) (name' : Name) :
    tablesOf (lookup noTables nt name prefixLen) name' = tablesOf nt name' := lookup_tablesAt prefixLen name'

theorem eq_noTables (tables : TableEntries ι) (h : hasTableEntries tables = false) : tables = noTables := by
  obtain ⟨hasFibEntry, pitEntries, measurementsEntry, strategyChoiceEntry⟩ := tables
  simp_all [hasTableEntries, noTables]

theorem tablesOf_eraseIfEmpty (hwf : WellFormed getMaxDepth nt) (name : Name) (canEraseAncestors : Bool) (name' : Name) :
    tablesOf (eraseIfEmpty hasTableEntries nt name canEraseAncestors) name' = tablesOf nt name' :=
  eraseLoop_tablesAt eq_noTables hwf _ _ name'

structure Replaced (registry : Registry) (namePrefix oldInstanceName newInstanceName : Name) (choice : Option Name)
    (nt nt' : NameTree ι) : Prop where
  wellFormed : WellFormed getMaxDepth nt'
  choice : ∀ p, choiceOf nt' p = if p = namePrefix then choice else choiceOf nt p
  cleared : registry.areSameType oldInstanceName newInstanceName = false → ∀ name, Covers nt namePrefix name →
    ClearedInfo (tablesOf nt name) (tablesOf nt' name)
  kept : ∀ name, registry.areSameType oldInstanceName newInstanceName = true ∨ ¬ Covers nt namePrefix name →
    SameInfo (tablesOf nt name) (tablesOf nt' name)

theorem replaced_spec (hwf : WellFormed getMaxDepth nt) (hnode : (nt namePrefix).isSome) (registry : Registry)
    (oldInstanceName newInstanceName : Name) :
    ∃ nt', Ends (fun r => changeStrategy registry r nt namePrefix oldInstanceName newInstanceName) nt' ∧
      ∀ choice, Replaced registry namePrefix oldInstanceName newInstanceName choice nt
        (setStrategyChoiceEntry choice nt' namePrefix) := by
  obtain ⟨nt', hchange, hwf', hisSome, hcleared, hkept⟩ :=
    changeStrategy_spec hwf registry namePrefix oldInstanceName newInstanceName
  have htables (choice : Option Name) (name : Name) : tablesOf (setStrategyChoiceEntry choice nt' namePrefix) name =
      if name = namePrefix then { tablesOf nt' namePrefix with m_strategyChoiceEntry := choice } else tablesOf nt' name :=
    tablesOf_setTables ((hisSome _).mpr hnode) name
  have hinfo (choice : Option Name) (name : Name) :
      SameInfo (tablesOf nt' name) (tablesOf (setStrategyChoiceEntry choice nt' namePrefix) name) := by
    rw [htables]
    split
    · rename_i heq
      rw [heq]
      exact ⟨rfl, rfl⟩
    · exact ⟨rfl, rfl⟩
  have hchoice (name : Name) : choiceOf nt' name = choiceOf nt name := by
    by_cases hcase : registry.areSameType oldInstanceName newInstanceName = true ∨ ¬ Covers nt namePrefix name
    · rw [choiceOf, hkept name hcase, choiceOf]
    · rw [not_or, Classical.not_not] at hcase
      rw [choiceOf, hcleared (by simpa using hcase.1) name hcase.2, choiceOf]
      rfl
  refine ⟨nt', hchange, fun choice => ⟨wellFormed_setTables hwf', fun p => ?_, fun hsame name hcovers => ?_,
    fun name hcase => ?_⟩⟩
  · rw [choiceOf, htables]
    split
    · rfl
    · exact hchoice p
  · have h := hinfo choice name
    rw [hcleared hsame name hcovers] at h
    exact h
  · have h := hinfo choice name
    rw [hkept name hcase] at h
    exact h

theorem Replaced.applied {nt₀ nt' : NameTree ι} {oldInstanceName newInstanceName : Name} {choice : Option Name}
    (h : Replaced registry namePrefix oldInstanceName newInstanceName choice nt₀ nt')
    (htables : ∀ name, tablesOf nt₀ name = tablesOf nt name) (hroot : (choiceOf nt' []).isSome = true)
    (hbefore : Effective (choiceOf nt) namePrefix oldInstanceName)
    (hafter : Effective (choiceOf nt') namePrefix newInstanceName) :
    Applied registry namePrefix oldInstanceName newInstanceName nt nt' := by
  have hchoices (p : Name) : choiceOf nt₀ p = choiceOf nt p := by rw [choiceOf, choiceOf, htables]
  have hcovers (name : Name) : Covers nt₀ namePrefix name ↔ Covers nt namePrefix name := covers_congr fun p _ => hchoices p
  refine ⟨h.wellFormed, fun p hp => ?_, hroot, hbefore, hafter, fun hsame name hcovered => ?_, fun name hcase => ?_⟩
  · rw [h.choice, if_neg hp, hchoices]
  · rw [← htables]
    exact h.cleared hsame name ((hcovers name).mpr hcovered)
  · rw [← htables]
    exact h.kept name (hcase.imp_right fun hnot => mt (hcovers name).mp hnot)

/-- The event does nothing, or it replaces the choice in force at its prefix. -/
def AppliedOrNot (registry : Registry) (nt : NameTree ι) (event : Event) (nt' : NameTree ι) : Prop :=
  (changeOf registry nt event = none ∧ nt' = nt) ∨
    ∃ change, changeOf registry nt event = some change ∧ event.namePrefix.length ≤ getMaxDepth ∧
      Applied registry event.namePrefix change.1 change.2 nt nt'

theorem applied_insert (h : Attached nt) (hle : namePrefix.length ≤ getMaxDepth) (registry : Registry)
    {oldInstanceName : Name} (hold : Effective (choiceOf nt) namePrefix oldInstanceName) (newInstanceName : Name) :
    ∃ nt₁, Ends (fun r => changeStrategy registry r (lookup noTables nt namePrefix namePrefix.length) namePrefix
        oldInstanceName newInstanceName) nt₁ ∧
      Applied registry namePrefix oldInstanceName newInstanceName nt
        (setStrategyChoiceEntry (some newInstanceName) nt₁ namePrefix) := by
  have htables := tablesOf_lookup nt namePrefix namePrefix.length
  have hwf₀ : WellFormed getMaxDepth (lookup noTables nt namePrefix namePrefix.length) :=
    wellFormed_lookup h.wellFormed (Nat.le_refl _) hle
  have hnode₀ : (lookup noTables nt namePrefix namePrefix.length namePrefix).isSome :=
    (lookup_isSome _ _).mpr (Or.inr ⟨_, Nat.le_refl _, (List.take_length).symm⟩)
  obtain ⟨nt₁, hchange, hreplaced⟩ := replaced_spec hwf₀ hnode₀ registry oldInstanceName newInstanceName
  have hchoice := (hreplaced (some newInstanceName)).choice
  refine ⟨nt₁, hchange, (hreplaced (some newInstanceName)).applied htables ?_ hold (effective_self ?_)⟩
  · rw [hchoice]
    split
    · rfl
    · rw [choiceOf, htables]
      exact h.root
  · rw [hchoice, if_pos rfl]

theorem applied_unchanged (h : Attached nt) (hle : namePrefix.length ≤ getMaxDepth) (registry : Registry)
    {instanceName : Name} (hchoice : choiceOf nt namePrefix = some instanceName) :
    Applied registry namePrefix instanceName instanceName nt (lookup noTables nt namePrefix namePrefix.length) := by
  have htables := tablesOf_lookup nt namePrefix namePrefix.length
  have hchoices (p : Name) : choiceOf (lookup noTables nt namePrefix namePrefix.length) p = choiceOf nt p := by
    rw [choiceOf, htables, choiceOf]
  refine ⟨wellFormed_lookup h.wellFormed (Nat.le_refl _) hle, fun p _ => hchoices p, ?_, effective_self hchoice,
    effective_self ((hchoices _).trans hchoice), fun hsame => ?_, fun name _ => ?_⟩
  · rw [hchoices]
    exact h.root
  · simp [Registry.areSameType] at hsame
  · rw [htables]
    exact ⟨rfl, rfl⟩

theorem insert_spec (h : Attached nt) (registry : Registry) (namePrefix strategyName : Name) :
    ∃ nt', Ends (fun r => apply registry r nt (.insert namePrefix strategyName)) nt' ∧
      AppliedOrNot registry nt (.insert namePrefix strategyName) nt' := by
  simp only [apply, StrategyChoice.insert, AppliedOrNot, changeOf, Event.namePrefix]
  by_cases hdepth : namePrefix.length > getMaxDepth
  · simp only [if_pos hdepth]
    exact ⟨nt, ends_of_forall fun r => rfl, Or.inl ⟨trivial, rfl⟩⟩
  · simp only [if_neg hdepth]
    have hle : namePrefix.length ≤ getMaxDepth := Nat.le_of_not_lt hdepth
    cases registry.create strategyName with
    | error what => exact ⟨nt, ends_of_forall fun r => rfl, Or.inl ⟨rfl, rfl⟩⟩
    | ok created =>
      cases created with
      | none => exact ⟨nt, ends_of_forall fun r => rfl, Or.inl ⟨rfl, rfl⟩⟩
      | some newInstanceName =>
        obtain ⟨oldInstanceName, hold⟩ := exists_effective h.root namePrefix
        obtain ⟨nt₁, hchange, happlied⟩ := applied_insert h hle registry hold newInstanceName
        have hchoices : choiceOf (lookup noTables nt namePrefix namePrefix.length) = choiceOf nt := by
          funext p
          rw [choiceOf, tablesOf_lookup, choiceOf]
        have hfind₀ : findEffectiveStrategy (lookup noTables nt namePrefix namePrefix.length) namePrefix =
            some oldInstanceName := by
          rw [findEffectiveStrategy_iff (wellFormed_lookup h.wellFormed (Nat.le_refl _) hle), hchoices]
          exact hold
        rw [(findEffectiveStrategy_iff h.wellFormed).mpr hold, tablesOf_lookup]
        cases hentry : (tablesOf nt namePrefix).m_strategyChoiceEntry with
        | none =>
          refine ⟨_, hchange.imp fun r hr => ?_, Or.inr ⟨_, rfl, hle, happlied⟩⟩
          simp only [hfind₀, Option.bind_eq_bind, Option.bind_some, hr, Option.map_some]
        | some entryName =>
          obtain rfl : entryName = oldInstanceName := (effective_self hentry).unique hold
          dsimp only
          by_cases hsame : entryName = newInstanceName
          · subst hsame
            simp only [if_true]
            exact ⟨_, ends_of_forall fun r => rfl, Or.inr ⟨_, rfl, hle, applied_unchanged h hle registry hentry⟩⟩
          · refine ⟨_, hchange.imp fun r hr => ?_, Or.inr ⟨_, rfl, hle, happlied⟩⟩
            simp only [if_neg hsame, Option.bind_eq_bind, Option.bind_some, hr, Option.map_some]

theorem applied_erase (h : Attached nt) (hne : namePrefix ≠ []) {oldInstanceName parentInstanceName : Name}
    (hold : choiceOf nt namePrefix = some oldInstanceName)
    (hparent : Effective (choiceOf nt) namePrefix.dropLast parentInstanceName) {nt₁ : NameTree ι}
    (hreplaced : Replaced registry namePrefix oldInstanceName parentInstanceName none nt nt₁) :
    Applied registry namePrefix oldInstanceName parentInstanceName nt
      (eraseIfEmpty hasTableEntries nt₁ namePrefix true) := by
  have htables := tablesOf_eraseIfEmpty hreplaced.wellFormed namePrefix true
  have hchoice (p : Name) : choiceOf (eraseIfEmpty hasTableEntries nt₁ namePrefix true) p =
      if p = namePrefix then none else choiceOf nt p := by
    rw [choiceOf, htables, ← hreplaced.choice p, choiceOf]
  have herased : Replaced registry namePrefix oldInstanceName parentInstanceName none nt
      (eraseIfEmpty hasTableEntries nt₁ namePrefix true) := by
    refine ⟨wellFormed_eraseLoop hreplaced.wellFormed _ _, hchoice, fun hsame name hcovers => ?_, fun name hcase => ?_⟩
    · rw [htables]
      exact hreplaced.cleared hsame name hcovers
    · rw [htables]
      exact hreplaced.kept name hcase
  refine herased.applied (fun _ => rfl) ?_ (effective_self hold) ?_
  · rw [hchoice, if_neg (Ne.symm hne)]
    exact h.root
  · -- the shorter prefixes are those of the parent
    have hshorter (p : Name) (hp : p <+: namePrefix.dropLast) : p ≠ namePrefix := by
      rintro rfl
      have hle := hp.length_le
      have hpos := List.length_pos_iff.mpr hne
      rw [List.length_dropLast] at hle
      omega
    refine (effective_shorter (List.dropLast_prefix namePrefix) fun p hp hsome => ?_).mp ?_
    · have hother : p ≠ namePrefix := by
        rintro rfl
        rw [hchoice, if_pos rfl] at hsome
        cases hsome
      exact prefix_dropLast hp hother
    · obtain ⟨longest, hlongest, hvalue⟩ := hparent
      have hsame (p : Name) (hp : p <+: namePrefix.dropLast) :
          choiceOf (eraseIfEmpty hasTableEntries nt₁ namePrefix true) p = choiceOf nt p := by
        rw [hchoice, if_neg (hshorter p hp)]
      refine ⟨longest, ⟨hlongest.1, ?_, fun p hp hsome => hlongest.2.2 p hp ?_⟩, ?_⟩
      · dsimp only
        rw [hsame _ hlongest.1]
        exact hlongest.2.1
      · dsimp only at hsome ⊢
        rwa [hsame p hp] at hsome
      · rw [hsame _ hlongest.1, hvalue]

theorem erase_spec (h : Attached nt) (registry : Registry) (namePrefix : {name : Name // name ≠ []}) :
    ∃ nt', Ends (fun r => apply registry r nt (.erase namePrefix)) nt' ∧
      AppliedOrNot registry nt (.erase namePrefix) nt' := by
  obtain ⟨namePrefix, hne⟩ := namePrefix
  simp only [apply, StrategyChoice.erase, AppliedOrNot, changeOf, Event.namePrefix, findExactMatch]
  cases hnte : nt namePrefix with
  | none =>
    have hchoice : choiceOf nt namePrefix = none := by
      rw [choiceOf, tablesOf, tablesAt, hnte]
      rfl
    rw [hchoice]
    exact ⟨nt, ends_of_forall fun r => rfl, Or.inl ⟨rfl, rfl⟩⟩
  | some nte =>
    rw [choiceOf_node hnte]
    cases hentry : nte.tables.m_strategyChoiceEntry with
    | none => exact ⟨nt, ends_of_forall fun r => by simp only [hentry], Or.inl ⟨rfl, rfl⟩⟩
    | some oldInstanceName =>
      have hnode : (nt namePrefix).isSome := by
        rw [hnte]
        rfl
      have hold : choiceOf nt namePrefix = some oldInstanceName := (choiceOf_node hnte).trans hentry
      obtain ⟨parentInstanceName, hparent⟩ := exists_effective h.root namePrefix.dropLast
      obtain ⟨nt₁, hchange, hreplaced⟩ := replaced_spec h.wellFormed hnode registry oldInstanceName parentInstanceName
      have hfind := (findEffectiveStrategy_iff h.wellFormed).mpr hparent
      refine ⟨_, hchange.imp fun r hr => ?_,
        Or.inr ⟨(oldInstanceName, parentInstanceName), by simp only [hfind, Option.bind_some, Option.map_some],
          h.wellFormed.length_le hnode, applied_erase h hne hold hparent (hreplaced none)⟩⟩
      simp only [hentry, hfind, Option.bind_eq_bind, Option.bind_some, hr]

theorem apply_spec (h : Attached nt) (registry : Registry) (event : Event) :
    ∃ nt', Ends (fun r => apply registry r nt event) nt' ∧ AppliedOrNot registry nt event nt' := by
  cases event with
  | insert namePrefix strategyName => exact insert_spec h registry namePrefix strategyName
  | erase namePrefix => exact erase_spec h registry namePrefix

end Operations

section Runs

variable {registry : Registry} {nt nt' : NameTree ι} {name namePrefix oldInstanceName newInstanceName : Name}

/-- The other tables make and erase nodes and set what is theirs; the PIT attaches its entries by their names. -/
inductive Reachable (registry : Registry) : NameTree ι → Prop
  | setDefaultStrategy (instanceName : Name) : Reachable registry (setDefaultStrategy instanceName NameTree.empty)
  | lookup {nt : NameTree ι} (h : Reachable registry nt) (name : Name) (prefixLen : ℕ) (hlength : prefixLen ≤ name.length)
      (hdepth : prefixLen ≤ getMaxDepth) : Reachable registry (lookup noTables nt name prefixLen)
  | eraseIfEmpty {nt : NameTree ι} (h : Reachable registry nt) (name : Name) (canEraseAncestors : Bool) :
      Reachable registry (eraseIfEmpty hasTableEntries nt name canEraseAncestors)
  | setFibEntry {nt : NameTree ι} (h : Reachable registry nt) (name : Name) (hasFibEntry : Bool) :
      Reachable registry (setTables nt name (fun tables => { tables with m_hasFibEntry := hasFibEntry }))
  | setPitEntries {nt : NameTree ι} (h : Reachable registry nt) (name : Name) (pitEntries : List (PitEntry ι))
      (hnames : ∀ pitEntry ∈ pitEntries, nteName pitEntry.m_name = name) :
      Reachable registry (setTables nt name (fun tables => { tables with m_pitEntries := pitEntries }))
  | setMeasurementsEntry {nt : NameTree ι} (h : Reachable registry nt) (name : Name) (strategyInfo : Option (List ι)) :
      Reachable registry (setTables nt name (fun tables => { tables with m_measurementsEntry := strategyInfo }))
  | apply {nt nt' : NameTree ι} (h : Reachable registry nt) (event : Event)
      (hends : Ends (fun r => apply registry r nt event) nt') : Reachable registry nt'

theorem attached_setDefaultStrategy (instanceName : Name) :
    Attached (setDefaultStrategy instanceName (NameTree.empty : NameTree ι)) := by
  have hlookup := tablesOf_lookup (NameTree.empty : NameTree ι) [] 0
  have hnode : (lookup noTables (NameTree.empty : NameTree ι) [] 0 []).isSome :=
    (lookup_isSome _ _).mpr (Or.inr ⟨0, Nat.le_refl _, rfl⟩)
  have hwf : WellFormed getMaxDepth (lookup noTables (NameTree.empty : NameTree ι) [] 0) :=
    wellFormed_lookup (wellFormed_empty _) (Nat.le_refl _) (Nat.zero_le _)
  refine ⟨wellFormed_setTables hwf, fun name pitEntry hmem => ?_, ?_⟩
  · rw [setDefaultStrategy, setStrategyChoiceEntry, tablesOf_setTables hnode, hlookup, hlookup] at hmem
    split at hmem <;> cases hmem
  · rw [choiceOf, setDefaultStrategy, setStrategyChoiceEntry, tablesOf_setTables hnode, if_pos rfl]
    rfl

theorem Attached.of_tables (h : Attached nt) (hwf : WellFormed getMaxDepth nt')
    (htables : ∀ name, tablesOf nt' name = tablesOf nt name) : Attached nt' := by
  refine ⟨hwf, fun name pitEntry hmem => h.pit name pitEntry (htables name ▸ hmem), ?_⟩
  rw [choiceOf, htables]
  exact h.root

theorem Attached.setTables (h : Attached nt) {f : TableEntries ι → TableEntries ι}
    (hpit : ∀ pitEntry ∈ (f (tablesOf nt name)).m_pitEntries, nteName pitEntry.m_name = name)
    (hchoice : ∀ tables, (f tables).m_strategyChoiceEntry = tables.m_strategyChoiceEntry) :
    Attached (setTables nt name f) := by
  by_cases hnode : (nt name).isSome
  · refine ⟨wellFormed_setTables h.wellFormed, fun name' pitEntry hmem => ?_, ?_⟩
    · rw [tablesOf_setTables hnode] at hmem
      split at hmem
      · rename_i heq
        rw [heq]
        exact hpit pitEntry hmem
      · exact h.pit name' pitEntry hmem
    · rw [choiceOf, tablesOf_setTables hnode]
      split
      · rename_i heq
        rw [hchoice, ← heq]
        exact h.root
      · exact h.root
  · refine h.of_tables (wellFormed_setTables h.wellFormed) fun name' => ?_
    have hnone : nt name = none := by simpa using hnode
    have hsame : StrategyChoice.setTables nt name f = nt := by
      funext name'
      rw [StrategyChoice.setTables, NameTree.modify]
      split
      · rename_i heq
        rw [heq, hnone, Option.map_none]
      · rfl
    rw [hsame]

theorem Applied.attached (ha : Applied registry namePrefix oldInstanceName newInstanceName nt nt') (h : Attached nt) :
    Attached nt' := by
  classical
  refine ⟨ha.wellFormed, fun name pitEntry' hmem => ?_, ha.root⟩
  rw [ha.pitEntries, List.mem_map] at hmem
  obtain ⟨pitEntry, hold, rfl⟩ := hmem
  have hname : nteName pitEntry.m_name = name := h.pit name pitEntry hold
  split
  · exact hname
  · exact hname

theorem AppliedOrNot.attached {event : Event} (ha : AppliedOrNot registry nt event nt') (h : Attached nt) : Attached nt' := by
  rcases ha with ⟨-, rfl⟩ | ⟨change, -, -, happlied⟩
  · exact h
  · exact happlied.attached h

theorem Reachable.attached (h : Reachable registry nt) : Attached nt := by
  induction h with
  | setDefaultStrategy instanceName => exact attached_setDefaultStrategy instanceName
  | lookup h name prefixLen hlength hdepth ih =>
    exact ih.of_tables (wellFormed_lookup ih.wellFormed hlength hdepth) (tablesOf_lookup _ name prefixLen)
  | eraseIfEmpty h name canEraseAncestors ih =>
    exact ih.of_tables (wellFormed_eraseLoop ih.wellFormed _ _) (tablesOf_eraseIfEmpty ih.wellFormed name canEraseAncestors)
  | setFibEntry h name hasFibEntry ih => exact ih.setTables (ih.pit name) fun _ => rfl
  | setPitEntries h name pitEntries hnames ih => exact ih.setTables hnames fun _ => rfl
  | setMeasurementsEntry h name strategyInfo ih => exact ih.setTables (ih.pit name) fun _ => rfl
  | apply h event hends ih =>
    obtain ⟨nt₁, hends₁, happlied⟩ := apply_spec ih registry event
    obtain rfl := hends₁.unique hends
    exact happlied.attached ih

theorem clearsExactly_refl (registry : Registry) (nt : NameTree ι) : ClearsExactly registry nt nt := by
  refine ⟨fun name => ?_, fun name => ?_⟩
  · have hkept : expectedPitEntry registry nt nt = id := by
      funext pitEntry
      rw [expectedPitEntry, if_pos rfl, id]
    rw [hkept, List.map_id]
  · have hkept : expectedMeasurements registry nt nt name = id := by
      funext strategyInfo
      rw [expectedMeasurements, if_pos rfl, id]
    rw [hkept, Option.map_id, id]

theorem clearsExactly_iff (h : Reachable registry nt) (event : Event) :
    ∃ nt', Ends (fun r => apply registry r nt event) nt' ∧
      (ClearsExactly registry nt nt' ↔ (ChangesType registry nt event → OnlyPlainEntries nt event.namePrefix)) := by
  obtain ⟨nt', hends, happlied⟩ := apply_spec h.attached registry event
  refine ⟨nt', hends, ?_⟩
  rcases happlied with ⟨hnone, rfl⟩ | ⟨change, hchange, hle, happlied⟩
  · refine iff_of_true (clearsExactly_refl registry nt') fun hchanges => ?_
    obtain ⟨change, hmem, -⟩ := hchanges
    rw [hnone] at hmem
    cases hmem
  · rw [clearsExactly_iff_of_applied h.attached hle happlied]
    have hchanges : ChangesType registry nt event ↔ registry.areSameType change.1 change.2 = false := by
      rw [ChangesType, hchange]
      simp
    rw [hchanges]

end Runs

section Example

def a : Component := ⟨8, [97]⟩

def digest : Component := ⟨1, List.replicate 32 0⟩

def bestRoute : Name := [⟨8, [98]⟩]

def ncc : Name := [⟨8, [99]⟩]

def registry : Registry := ⟨fun name => if name = bestRoute ∨ name = ncc then some name else none, fun _ name => .ok name⟩

/-- An Interest with a digest at the end of its name, on which a strategy keeps information. -/
def digestEntry : PitEntry ℕ := ⟨[a, digest], [1], [], []⟩

def digestTables : NameTree ℕ :=
  setTables (lookup noTables (setDefaultStrategy bestRoute NameTree.empty) [a, digest] 1) [a]
    (fun tables => { tables with m_pitEntries := [digestEntry] })

theorem digestTables_reachable : Reachable registry digestTables :=
  .setPitEntries (.lookup (.setDefaultStrategy bestRoute) _ _ (by decide) (by decide)) _ _ (by decide)

theorem clearsExactly_iff_digest :
    ∃ nt', Ends (fun r => apply registry r digestTables (.insert [a, digest] ncc)) nt' ∧
      (ClearsExactly registry digestTables nt' ↔
        (ChangesType registry digestTables (.insert [a, digest] ncc) → OnlyPlainEntries digestTables [a, digest])) :=
  clearsExactly_iff digestTables_reachable (.insert [a, digest] ncc)

/-- The entry is attached at `/a`; its own name is given another strategy, which then finds the information. -/
theorem digest_entry_keeps_information :
    ∃ nt', Ends (fun r => apply registry r digestTables (.insert [a, digest] ncc)) nt' ∧
      ChangesType registry digestTables (.insert [a, digest] ncc) ∧ ¬ ClearsExactly registry digestTables nt' := by
  obtain ⟨nt', hends, happlied⟩ := apply_spec digestTables_reachable.attached registry (.insert [a, digest] ncc)
  have hchange : changeOf registry digestTables (.insert [a, digest] ncc) = some (bestRoute, ncc) := by decide
  refine ⟨nt', hends, ⟨_, hchange, by decide⟩, ?_⟩
  rcases happlied with ⟨hnone, -⟩ | ⟨change, hchange', hle, happlied⟩
  · rw [hchange] at hnone
    cases hnone
  · obtain rfl := Option.some.inj (hchange.symm.trans hchange')
    rw [clearsExactly_iff_of_applied digestTables_reachable.attached hle happlied]
    intro honly
    have hin : InPit digestTables digestEntry := by
      unfold InPit
      decide
    exact (honly (by decide) digestEntry hin (by decide) (by decide)).1 rfl

end Example

end LeoNdn.StrategyChoice
