import LeoNdn.Fib
import LeoNdn.NameTree

/-!
The tables that share the name tree: FIB entries at their prefixes, PIT entries
at the names of their Interests, as far as the depth limit and an implicit
digest allow.
-/

namespace LeoNdn.ForwardingTables

open LeoNdn.NdnPacket LeoNdn.NameTree

def getMaxDepth : ℕ := 32

/-- The selectors of an Interest are only compared. -/
structure PitEntry (σ : Type) where
  m_name : Name
  m_selectors : σ
  m_forwardingHint : List Name
  deriving DecidableEq, Repr

structure TableEntries (σ : Type) where
  m_fibEntry : Option Fib.Entry
  m_pitEntries : List (PitEntry σ)
  m_hasMeasurementsEntry : Bool
  m_strategyChoiceEntry : Option Name

variable {σ : Type}

def noTables : TableEntries σ := ⟨none, [], false, none⟩

def hasTableEntries (tables : TableEntries σ) : Bool :=
  tables.m_fibEntry.isSome || tables.m_pitEntries ≠ [] || tables.m_hasMeasurementsEntry ||
    tables.m_strategyChoiceEntry.isSome

abbrev NameTree (σ : Type) := Tree Component (TableEntries σ)

def tablesOf (nt : NameTree σ) (name : Name) : TableEntries σ := tablesAt noTables nt name

def isImplicitSha256Digest (component : Component) : Bool := component.type = 1 && component.value.length = 32

def hasDigest (name : Name) : Bool := name.getLast?.any isImplicitSha256Digest

def nteDepth (name : Name) : ℕ := min (name.length - (if hasDigest name then 1 else 0)) getMaxDepth

def nteName (name : Name) : Name := name.take (nteDepth name)

def setTables (nt : NameTree σ) (name : Name) (f : TableEntries σ → TableEntries σ) : NameTree σ :=
  modify nt name (Entry.setTables f)

section Fib

def insertFib (nt : NameTree σ) (namePrefix : Name) : NameTree σ :=
  let nt := lookup noTables nt namePrefix namePrefix.length
  if (tablesOf nt namePrefix).m_fibEntry.isSome then nt
  else setTables nt namePrefix (fun tables => { tables with m_fibEntry := some ⟨namePrefix, []⟩ })

def setNextHops (nt : NameTree σ) (namePrefix : Name) (nextHops : List Fib.NextHop) : NameTree σ :=
  setTables nt namePrefix (fun tables =>
    { tables with m_fibEntry := tables.m_fibEntry.map (fun entry => { entry with m_nextHops := nextHops }) })

def eraseFib (nt : NameTree σ) (namePrefix : Name) (canDeleteNte : Bool) : NameTree σ :=
  let nt := setTables nt namePrefix (fun tables => { tables with m_fibEntry := none })
  if canDeleteNte then eraseIfEmpty hasTableEntries nt namePrefix true else nt

end Fib

section Pit

variable [DecidableEq σ]

def PitEntry.canMatch (entry interest : PitEntry σ) : Bool :=
  entry.m_name = interest.m_name && entry.m_selectors = interest.m_selectors

def findOrInsert (nt : NameTree σ) (interest : PitEntry σ) (allowInsert : Bool) :
    NameTree σ × Option (PitEntry σ) × Bool :=
  let nt := if allowInsert then lookup noTables nt interest.m_name (nteDepth interest.m_name) else nt
  match (tablesOf nt (nteName interest.m_name)).m_pitEntries.find? (fun entry => entry.canMatch interest) with
  | some entry => (nt, some entry, false)
  | none =>
    if allowInsert then
      (setTables nt (nteName interest.m_name) (fun tables =>
        { tables with m_pitEntries := tables.m_pitEntries ++ [interest] }), some interest, true)
    else (nt, none, true)

/-- The last entry takes the place of the one that is erased. -/
def erasePitEntry (entry : PitEntry σ) (pitEntries : List (PitEntry σ)) : List (PitEntry σ) :=
  match pitEntries.getLast? with
  | none => []
  | some last => (pitEntries.set (pitEntries.idxOf entry) last).dropLast

def erasePit (nt : NameTree σ) (entry : PitEntry σ) (canDeleteNte : Bool) : NameTree σ :=
  let nt := setTables nt (nteName entry.m_name) (fun tables =>
    { tables with m_pitEntries := erasePitEntry entry tables.m_pitEntries })
  if canDeleteNte then eraseIfEmpty hasTableEntries nt (nteName entry.m_name) true else nt

end Pit

section Others

def getMeasurements (nt : NameTree σ) (name : Name) : NameTree σ :=
  let nt := lookup noTables nt name (min name.length getMaxDepth)
  setTables nt (name.take (min name.length getMaxDepth)) (fun tables => { tables with m_hasMeasurementsEntry := true })

def cleanupMeasurements (nt : NameTree σ) (name : Name) : NameTree σ :=
  eraseIfEmpty hasTableEntries (setTables nt name (fun tables => { tables with m_hasMeasurementsEntry := false })) name true

def insertStrategy (nt : NameTree σ) (namePrefix instanceName : Name) : NameTree σ :=
  let nt := lookup noTables nt namePrefix namePrefix.length
  setTables nt namePrefix (fun tables => { tables with m_strategyChoiceEntry := some instanceName })

def eraseStrategy (nt : NameTree σ) (namePrefix : Name) : NameTree σ :=
  eraseIfEmpty hasTableEntries (setTables nt namePrefix (fun tables => { tables with m_strategyChoiceEntry := none })) namePrefix
    true

end Others

inductive Call (σ : Type)
  | insertFib (namePrefix : Name)
  | setNextHops (namePrefix : Name) (nextHops : List Fib.NextHop)
  | eraseFib (namePrefix : Name) (canDeleteNte : Bool)
  | findOrInsert (interest : PitEntry σ) (allowInsert : Bool)
  | erasePit (entry : PitEntry σ) (canDeleteNte : Bool)
  | getMeasurements (name : Name)
  | cleanupMeasurements (name : Name)
  | insertStrategy (namePrefix instanceName : Name)
  | eraseStrategy (namePrefix : Name)

/-- What the callers see to: prefixes are no longer than the limit, and what is
erased or changed is there. -/
def Call.Allowed (nt : NameTree σ) : Call σ → Prop
  | .insertFib namePrefix | .insertStrategy namePrefix _ => namePrefix.length ≤ getMaxDepth
  | .setNextHops namePrefix _ | .eraseFib namePrefix _ => (tablesOf nt namePrefix).m_fibEntry.isSome
  | .findOrInsert _ _ | .getMeasurements _ => True
  | .erasePit entry _ => entry ∈ (tablesOf nt (nteName entry.m_name)).m_pitEntries
  | .cleanupMeasurements name => (tablesOf nt name).m_hasMeasurementsEntry = true
  | .eraseStrategy namePrefix => (tablesOf nt namePrefix).m_strategyChoiceEntry.isSome

def call [DecidableEq σ] (nt : NameTree σ) : Call σ → NameTree σ
  | .insertFib namePrefix => insertFib nt namePrefix
  | .setNextHops namePrefix nextHops => setNextHops nt namePrefix nextHops
  | .eraseFib namePrefix canDeleteNte => eraseFib nt namePrefix canDeleteNte
  | .findOrInsert interest allowInsert => (findOrInsert nt interest allowInsert).1
  | .erasePit entry canDeleteNte => erasePit nt entry canDeleteNte
  | .getMeasurements name => getMeasurements nt name
  | .cleanupMeasurements name => cleanupMeasurements nt name
  | .insertStrategy namePrefix instanceName => insertStrategy nt namePrefix instanceName
  | .eraseStrategy namePrefix => eraseStrategy nt namePrefix

inductive Reachable [DecidableEq σ] : NameTree σ → Prop
  | empty : Reachable NameTree.empty
  | call {nt : NameTree σ} (c : Call σ) (h : Reachable nt) (hallowed : c.Allowed nt) : Reachable (call nt c)

def PitEntry.key (entry : PitEntry σ) : Name × σ := (entry.m_name, entry.m_selectors)

structure TablesOk (name : Name) (tables : TableEntries σ) : Prop where
  fib : ∀ entry, tables.m_fibEntry = some entry → entry.getPrefix = name
  pit : ∀ entry ∈ tables.m_pitEntries, nteName entry.m_name = name
  nodup : (tables.m_pitEntries.map PitEntry.key).Nodup

structure Attached (nt : NameTree σ) : Prop where
  wellFormed : WellFormed getMaxDepth nt
  tables : ∀ name, TablesOk name (tablesOf nt name)

section Attached

variable {nt : NameTree σ} {name : Name} {f : TableEntries σ → TableEntries σ}

theorem tablesOk_noTables (name : Name) : TablesOk name (noTables : TableEntries σ) :=
  ⟨fun _ h => (nomatch h), fun _ h => absurd h List.not_mem_nil, List.nodup_nil⟩

theorem isSome_of_tables (h : tablesOf nt name ≠ noTables) : (nt name).isSome := by
  by_contra hnone
  rw [Option.not_isSome_iff_eq_none] at hnone
  refine h ?_
  rw [tablesOf, tablesAt, hnone]
  rfl

theorem attached_empty : Attached (NameTree.empty : NameTree σ) :=
  ⟨wellFormed_empty _, fun name => tablesOk_noTables name⟩

theorem attached_setTables (h : Attached nt) (hname : (nt name).isSome)
    (hf : TablesOk name (tablesOf nt name) → TablesOk name (f (tablesOf nt name))) : Attached (setTables nt name f) := by
  refine ⟨wellFormed_setTables h.wellFormed, fun name' => ?_⟩
  rw [tablesOf, setTables, setTables_tablesAt hname]
  split
  · rename_i heq
    rw [heq]
    exact hf (h.tables name)
  · exact h.tables name'

theorem tablesOf_lookup (nt : NameTree σ) (name : Name) (prefixLen : ℕ) :
    tablesOf (lookup noTables nt name prefixLen) = tablesOf nt :=
  funext fun name' => lookup_tablesAt prefixLen name'

theorem attached_lookup (h : Attached nt) {prefixLen : ℕ} (hname : prefixLen ≤ name.length)
    (hdepth : prefixLen ≤ getMaxDepth) : Attached (lookup noTables nt name prefixLen) := by
  refine ⟨wellFormed_lookup h.wellFormed hname hdepth, ?_⟩
  rw [tablesOf_lookup]
  exact h.tables

theorem lookup_isSome_self (nt : NameTree σ) (name : Name) (prefixLen : ℕ) :
    (lookup noTables nt name prefixLen (name.take prefixLen)).isSome :=
  (lookup_isSome prefixLen _).mpr (Or.inr ⟨prefixLen, le_rfl, rfl⟩)

theorem eq_noTables (tables : TableEntries σ) (h : hasTableEntries tables = false) : tables = noTables := by
  obtain ⟨fib, pit, measurements, strategy⟩ := tables
  simp only [hasTableEntries, Bool.or_eq_false_iff, Option.isSome_eq_false_iff, Option.isNone_iff_eq_none,
    decide_eq_false_iff_not, not_not] at h
  obtain ⟨⟨⟨rfl, rfl⟩, rfl⟩, rfl⟩ := h
  rfl

theorem attached_eraseIfEmpty (h : Attached nt) (name : Name) (canEraseAncestors : Bool) :
    Attached (eraseIfEmpty hasTableEntries nt name canEraseAncestors) := by
  refine ⟨wellFormed_eraseLoop h.wellFormed (name.length + 1) (some name), fun name' => ?_⟩
  rw [tablesOf, eraseIfEmpty, eraseLoop_tablesAt eq_noTables h.wellFormed]
  exact h.tables name'

theorem attached_maybeErase (h : Attached nt) (name : Name) (canDeleteNte : Bool) :
    Attached (if canDeleteNte then eraseIfEmpty hasTableEntries nt name true else nt) := by
  split
  · exact attached_eraseIfEmpty h name true
  · exact h

theorem nteDepth_le_length (name : Name) : nteDepth name ≤ name.length := by
  unfold nteDepth
  omega

theorem attached_insertFib (h : Attached nt) (namePrefix : Name) (hdepth : namePrefix.length ≤ getMaxDepth) :
    Attached (insertFib nt namePrefix) := by
  have hlookup := attached_lookup h (Nat.le_refl namePrefix.length) hdepth
  have hsome := lookup_isSome_self nt namePrefix namePrefix.length
  rw [List.take_length] at hsome
  unfold insertFib
  dsimp only
  split
  · exact hlookup
  · refine attached_setTables hlookup hsome fun hok => ⟨?_, hok.pit, hok.nodup⟩
    rintro entry hentry
    obtain rfl := Option.some.inj hentry
    rfl

theorem attached_setNextHops (h : Attached nt) (namePrefix : Name) (nextHops : List Fib.NextHop)
    (hsome : (nt namePrefix).isSome) : Attached (setNextHops nt namePrefix nextHops) := by
  refine attached_setTables h hsome fun hok => ⟨?_, hok.pit, hok.nodup⟩
  intro entry hentry
  obtain ⟨old, hold, rfl⟩ := Option.map_eq_some_iff.mp hentry
  have hpre := hok.fib old hold
  exact hpre

theorem attached_eraseFib (h : Attached nt) (namePrefix : Name) (canDeleteNte : Bool) (hsome : (nt namePrefix).isSome) :
    Attached (eraseFib nt namePrefix canDeleteNte) :=
  attached_maybeErase (attached_setTables h hsome fun hok => ⟨fun _ => by simp, hok.pit, hok.nodup⟩) _ _

theorem attached_getMeasurements (h : Attached nt) (name : Name) : Attached (getMeasurements nt name) := by
  have hlookup := attached_lookup h (Nat.min_le_left name.length getMaxDepth) (Nat.min_le_right _ _)
  exact attached_setTables hlookup (lookup_isSome_self nt name _) fun hok => ⟨hok.fib, hok.pit, hok.nodup⟩

variable [DecidableEq σ]

theorem canMatch_iff {entry interest : PitEntry σ} : entry.canMatch interest = true ↔ entry.key = interest.key := by
  simp [PitEntry.canMatch, PitEntry.key]

theorem attached_findOrInsert (h : Attached nt) (interest : PitEntry σ) (allowInsert : Bool) :
    Attached (findOrInsert nt interest allowInsert).1 := by
  have hlookup : Attached (if allowInsert then lookup noTables nt interest.m_name (nteDepth interest.m_name) else nt) := by
    split
    · exact attached_lookup h (nteDepth_le_length _) (Nat.min_le_right _ _)
    · exact h
  unfold findOrInsert
  dsimp only
  split
  · exact hlookup
  · rename_i hfind
    split
    · rename_i hallow
      rw [if_pos hallow] at hlookup hfind
      refine attached_setTables hlookup (lookup_isSome_self nt _ _) fun hok => ⟨hok.fib, ?_, ?_⟩
      · intro entry hentry
        rcases List.mem_append.mp hentry with hentry | hentry
        · exact hok.pit entry hentry
        · rw [List.mem_singleton.mp hentry]
      · rw [List.map_append]
        refine List.nodup_append.mpr ⟨hok.nodup, List.nodup_singleton _, ?_⟩
        intro key hkey key' hkey' heq
        obtain ⟨entry, hentry, rfl⟩ := List.mem_map.mp hkey
        rw [List.map_singleton, List.mem_singleton] at hkey'
        exact List.find?_eq_none.mp hfind entry hentry (canMatch_iff.mpr (heq.trans hkey'))
    · rename_i hallow
      rw [if_neg hallow] at hlookup
      exact hlookup

theorem erasePitEntry_perm {entry : PitEntry σ} {pitEntries : List (PitEntry σ)} (h : entry ∈ pitEntries) :
    (erasePitEntry entry pitEntries).Perm (pitEntries.erase entry) := by
  have heq : erasePitEntry entry pitEntries = eraseByLast entry pitEntries := by
    unfold erasePitEntry eraseByLast
    cases pitEntries.getLast? <;> rfl
  rw [heq]
  exact eraseByLast_perm h

theorem attached_erasePit (h : Attached nt) (entry : PitEntry σ) (canDeleteNte : Bool)
    (hmem : entry ∈ (tablesOf nt (nteName entry.m_name)).m_pitEntries) : Attached (erasePit nt entry canDeleteNte) := by
  have hsome : (nt (nteName entry.m_name)).isSome := isSome_of_tables fun hno => by
    rw [hno] at hmem
    exact List.not_mem_nil hmem
  have hperm := erasePitEntry_perm hmem
  refine attached_maybeErase (attached_setTables h hsome fun hok => ⟨hok.fib, ?_, ?_⟩) _ _
  · intro entry' hentry'
    exact hok.pit entry' (List.mem_of_mem_erase (hperm.mem_iff.mp hentry'))
  · refine ((hperm.map PitEntry.key).nodup_iff).mpr (hok.nodup.sublist ?_)
    exact List.erase_sublist.map _

theorem attached_call (h : Attached nt) (c : Call σ) (hallowed : c.Allowed nt) : Attached (call nt c) := by
  cases c with
  | insertFib namePrefix => exact attached_insertFib h namePrefix hallowed
  | setNextHops namePrefix nextHops =>
    refine attached_setNextHops h namePrefix nextHops (isSome_of_tables fun hno => ?_)
    simp [Call.Allowed, hno, noTables] at hallowed
  | eraseFib namePrefix canDeleteNte =>
    refine attached_eraseFib h namePrefix canDeleteNte (isSome_of_tables fun hno => ?_)
    simp [Call.Allowed, hno, noTables] at hallowed
  | findOrInsert interest allowInsert => exact attached_findOrInsert h interest allowInsert
  | erasePit entry canDeleteNte => exact attached_erasePit h entry canDeleteNte hallowed
  | getMeasurements name => exact attached_getMeasurements h name
  | cleanupMeasurements name =>
    refine attached_eraseIfEmpty (attached_setTables h (isSome_of_tables fun hno => ?_) fun hok =>
      ⟨hok.fib, hok.pit, hok.nodup⟩) name true
    simp [Call.Allowed, hno, noTables] at hallowed
  | insertStrategy namePrefix instanceName =>
    have hlookup := attached_lookup h (Nat.le_refl namePrefix.length) hallowed
    have hsome := lookup_isSome_self nt namePrefix namePrefix.length
    rw [List.take_length] at hsome
    exact attached_setTables hlookup hsome fun hok => ⟨hok.fib, hok.pit, hok.nodup⟩
  | eraseStrategy namePrefix =>
    refine attached_eraseIfEmpty (attached_setTables h (isSome_of_tables fun hno => ?_) fun hok =>
      ⟨hok.fib, hok.pit, hok.nodup⟩) namePrefix true
    simp [Call.Allowed, hno, noTables] at hallowed

theorem Reachable.attached (h : Reachable nt) : Attached nt := by
  induction h with
  | empty => exact attached_empty
  | call c _ hallowed ih => exact attached_call ih c hallowed

end Attached

end LeoNdn.ForwardingTables
