import LeoNdn.ContentStoreLookups
import LeoNdn.RecencyList

/-!
The Content Store with the policy that evicts what has not been used for longest: a
queue of the entries, the front of which goes first.
-/

namespace LeoNdn.LruPolicy

open LeoNdn.Tlv LeoNdn.NdnPacket LeoNdn.InterestSelectors LeoNdn.ContentStoreTable LeoNdn.EntryOrder
open LeoNdn.RecencyList LeoNdn.ContentStoreSearch

structure Cs where
  now : ℤ
  m_shouldAdmit : Bool
  m_shouldServe : Bool
  m_table : List Stored
  newIt : ℕ
  m_limit : ℕ
  m_queue : List ℕ

def initial (nMaxPackets : ℕ) : Cs := ⟨0, true, true, [], 0, nMaxPackets, []⟩

section Policy

variable (s : Cs)

/-- `push_back` adds only what is not there; an entry that is not new goes to the end. -/
def insertToQueue (i : ℕ) (isNewEntry : Bool) : Cs :=
  let m_queue := if i ∈ s.m_queue then s.m_queue else s.m_queue ++ [i]
  { s with m_queue := if isNewEntry then m_queue else m_queue.filter (fun it => it ≠ i) ++ [i] }

/-- The front leaves the queue, and the Content Store erases it. -/
def evictOne : Cs :=
  match s.m_queue with
  | [] => s
  | i :: m_queue => { s with m_queue := m_queue, m_table := s.m_table.filter (fun stored => stored.it ≠ i) }

/-- The loop in `evictEntries`, with a bound on its rounds. -/
def evictLoop : ℕ → Cs → Cs
  | 0, s => s
  | rounds + 1, s => if s.m_table.length > s.m_limit then evictLoop rounds (evictOne s) else s

def evictEntries : Cs := evictLoop s.m_table.length s

def doAfterInsert (i : ℕ) : Cs := evictEntries (insertToQueue s i true)

def doAfterRefresh (i : ℕ) : Cs := insertToQueue s i false

def doBeforeUse (i : ℕ) : Cs := insertToQueue s i false

/-- What comes after `beforeErase`. -/
def eraseOne (i : ℕ) : Cs :=
  { s with
    m_queue := s.m_queue.filter (fun it => it ≠ i)
    m_table := s.m_table.filter (fun stored => stored.it ≠ i) }

def setLimit (nMaxEntries : ℕ) : Cs := evictEntries { s with m_limit := nMaxEntries }

end Policy

section Store

variable (computeDigest : Data → Vector UInt8 32) (keyLocatorOf : Data → Option Block) (s : Cs)

/-- 1 is the tag that forbids to cache the Data. -/
def admits (data : Data) (cachePolicyTag : Option ℕ) : Bool :=
  s.m_shouldAdmit && s.m_limit ≠ 0 && ! Name.isPrefixOf LOCALHOST data.m_name && cachePolicyTag ≠ some 1

def refresh (isUnsolicited : Bool) (entry : Entry) : Entry :=
  let entry := entry.updateStaleTime s.now
  if entry.m_isUnsolicited && ! isUnsolicited then Entry.setData s.now entry.m_data false else entry

def modifyEntry (i : ℕ) (f : Entry → Entry) : Cs :=
  { s with m_table := s.m_table.map (fun stored => if stored.it = i then { stored with entry := f stored.entry } else stored) }

def insert (data : Data) (isUnsolicited : Bool) (cachePolicyTag : Option ℕ) : Cs :=
  if admits s data cachePolicyTag then
    let (m_table, it, isNewEntry) := emplace computeDigest s.m_table ⟨s.newIt, Entry.setData s.now data isUnsolicited⟩
    if isNewEntry then doAfterInsert { s with m_table := m_table, newIt := s.newIt + 1 } it
    else doAfterRefresh (modifyEntry s it (refresh s isUnsolicited)) it
  else s

def erasedBy (namePrefix : Name) (limit : ℕ) : List ℕ :=
  let first := lowerBound computeDigest s.m_table (.query namePrefix)
  let last := lastOf computeDigest s.m_table namePrefix
  ((between s.m_table first last).take limit).map Stored.it

def erase (namePrefix : Name) (limit : ℕ) : Cs := (erasedBy computeDigest s namePrefix limit).foldl eraseOne s

/-- The iterator of the match, where the search is defined. -/
def match? (name : Name) (selectors : Selectors) : Option (Option ℕ) :=
  if s.m_shouldServe && s.m_limit ≠ 0 then
    ContentStoreTable.find computeDigest keyLocatorOf s.now name selectors s.m_table
  else some none

def fullNameOf (i : ℕ) : Option Name :=
  (s.m_table.find? (fun stored => stored.it = i)).map (fun stored => getFullName computeDigest stored.entry.m_data)

def namesInQueue : List Name := s.m_queue.filterMap (fullNameOf computeDigest s)

inductive Op
  | insert (data : Data) (isUnsolicited : Bool) (cachePolicyTag : Option ℕ)
  | find (name : Name) (selectors : Selectors)
  | erase (namePrefix : Name) (limit : ℕ)
  | setLimit (nMaxEntries : ℕ)
  | enableAdmit (shouldAdmit : Bool)
  | enableServe (shouldServe : Bool)
  | elapse (duration : ℕ)

def step : Op → Option Cs
  | .insert data isUnsolicited cachePolicyTag => some (insert computeDigest s data isUnsolicited cachePolicyTag)
  | .find name selectors => (match? computeDigest keyLocatorOf s name selectors).map (fun found =>
      match found with
      | some i => doBeforeUse s i
      | none => s)
  | .erase namePrefix limit => some (erase computeDigest s namePrefix limit)
  | .setLimit nMaxEntries => some (setLimit s nMaxEntries)
  | .enableAdmit shouldAdmit => some { s with m_shouldAdmit := shouldAdmit }
  | .enableServe shouldServe => some { s with m_shouldServe := shouldServe }
  | .elapse duration => some { s with now := s.now + duration }

/-- What an operation means for the names: it uses one, forgets some or sets the limit. -/
def actionsOf : Op → List (Action Name)
  | .insert data _ cachePolicyTag => if admits s data cachePolicyTag then [.use (getFullName computeDigest data)] else []
  | .find name selectors =>
    (((match? computeDigest keyLocatorOf s name selectors).join.bind (fullNameOf computeDigest s)).map Action.use).toList
  | .erase namePrefix limit =>
    [.forget ((erasedBy computeDigest s namePrefix limit).filterMap (fullNameOf computeDigest s))]
  | .setLimit nMaxEntries => [.setLimit nMaxEntries]
  | _ => []

/-- The Content Store after a list of operations, with what they have meant. -/
def run (nMaxPackets : ℕ) (ops : List Op) : Option (Cs × List (Action Name)) :=
  ops.foldlM (fun observed op => (step computeDigest keyLocatorOf observed.1 op).map (fun s =>
    (s, observed.2 ++ actionsOf computeDigest keyLocatorOf observed.1 op))) (initial nMaxPackets, [])

end Store

section Keys

open Std

variable {computeDigest : Data → Vector UInt8 32} {s : Cs} {l table : List Stored} {stored other new : Stored} {i : ℕ}

def keysOf (computeDigest : Data → Vector UInt8 32) (l : List Stored) : List Name :=
  l.map (fun stored => getFullName computeDigest stored.entry.m_data)

theorem getFullName_eq_iff {data data' : Data} : getFullName computeDigest data = getFullName computeDigest data' ↔
    dataKey computeDigest data = dataKey computeDigest data' := by
  rw [getFullName, getFullName, dataKey, dataKey, Prod.mk.injEq]
  constructor
  · intro h
    obtain ⟨hname, hdigest⟩ := List.append_inj' h rfl
    exact ⟨hname, hdigest⟩
  · rintro ⟨hname, hdigest⟩
    rw [hname]
    exact congrArg (data'.m_name ++ ·) hdigest

theorem compareKeys_eq {key other : Name × Name} (h : ¬ compareKeys key other = .lt) (h' : ¬ compareKeys other key = .lt) :
    key = other := by
  have heq : compareKeys key other = .eq := by
    cases hcmp : compareKeys key other with
    | lt => exact absurd hcmp h
    | eq => rfl
    | gt => exact absurd (OrientedCmp.lt_of_gt hcmp) h'
  obtain ⟨hfirst, hsecond⟩ := Ordering.then_eq_eq.mp heq
  exact Prod.ext (LawfulEqCmp.eq_of_compare hfirst) (LawfulEqCmp.eq_of_compare hsecond)

theorem emplace_spec (computeDigest : Data → Vector UInt8 32) (table : List Stored) (new : Stored) :
    (∃ position ≤ table.length, emplace computeDigest table new = (table.insertIdx position new, new.it, true)) ∨
      ∃ stored ∈ table, emplace computeDigest table new = (table, stored.it, false) ∧
        getFullName computeDigest stored.entry.m_data = getFullName computeDigest new.entry.m_data := by
  have hposition : lowerBound computeDigest table (.stored new.entry.m_data) ≤ table.length :=
    (List.takeWhile_prefix _).length_le
  unfold emplace
  dsimp only
  split
  · rename_i stored hstored
    split
    · exact Or.inl ⟨_, hposition, rfl⟩
    · rename_i hnot
      refine Or.inr ⟨stored, List.mem_of_getElem? hstored, rfl, getFullName_eq_iff.mpr ?_⟩
      rw [lowerBound, SortedLists.getElem?_takeWhile] at hstored
      refine compareKeys_eq (fun hlt => ?_) fun hlt => hnot (isLess_stored_iff.mpr hlt)
      have hbefore : isBefore computeDigest (.stored new.entry.m_data) stored = false := by
        have hhead := List.head?_dropWhile_not (isBefore computeDigest (.stored new.entry.m_data)) table
        rw [hstored] at hhead
        exact hhead
      exact absurd (hbefore.symm.trans (isBefore_stored_iff.mpr hlt)) (by decide)
  · exact Or.inl ⟨_, hposition, rfl⟩

theorem nodup_keysOf (h : Sorted computeDigest table) : (keysOf computeDigest table).Nodup := by
  refine List.pairwise_map.mpr (h.keys.imp fun hlt heq => ?_)
  rw [keyAt, keyAt, getFullName_eq_iff.mp heq] at hlt
  exact OrientedCmp.not_lt_of_lt hlt hlt

end Keys

structure Listed (computeDigest : Data → Vector UInt8 32) (s : Cs) (l : List Stored) : Prop where
  perm : l.Perm s.m_table
  queue : s.m_queue = l.map Stored.it
  nodup : (l.map Stored.it).Nodup
  sorted : Sorted computeDigest s.m_table
  lt_newIt : ∀ stored ∈ l, stored.it < s.newIt

section Listing

variable {computeDigest : Data → Vector UInt8 32} {s : Cs} {l : List Stored} {stored : Stored} {i : ℕ}

theorem Listed.nodup_keys (h : Listed computeDigest s l) : (keysOf computeDigest l).Nodup :=
  (h.perm.map _).nodup_iff.mpr (nodup_keysOf h.sorted)

theorem Listed.fullNameOf_eq (h : Listed computeDigest s l) (hstored : stored ∈ l) :
    fullNameOf computeDigest s stored.it = some (getFullName computeDigest stored.entry.m_data) := by
  have hnodup : (s.m_table.map Stored.it).Nodup := (h.perm.map _).nodup_iff.mp h.nodup
  have hfind : s.m_table.find? (fun other => other.it = stored.it) = some stored := by
    obtain ⟨found, hfound⟩ : ∃ found, s.m_table.find? (fun other => other.it = stored.it) = some found := by
      rw [← Option.isSome_iff_exists, List.find?_isSome]
      exact ⟨stored, h.perm.mem_iff.mp hstored, decide_eq_true rfl⟩
    have hit : found.it = stored.it := of_decide_eq_true (List.find?_some (p := fun other : Stored => other.it = stored.it) hfound)
    rw [hfound, eq_of_it hnodup (List.mem_of_find?_eq_some hfound) (h.perm.mem_iff.mp hstored) hit]
  rw [fullNameOf, hfind]
  rfl

theorem Listed.exists_of_fullNameOf (h : Listed computeDigest s l) {name : Name}
    (hname : fullNameOf computeDigest s i = some name) :
    ∃ stored ∈ l, stored.it = i ∧ getFullName computeDigest stored.entry.m_data = name := by
  obtain ⟨stored, hfind, hfull⟩ := Option.map_eq_some_iff.mp hname
  exact ⟨stored, h.perm.mem_iff.mpr (List.mem_of_find?_eq_some hfind),
    of_decide_eq_true (List.find?_some (p := fun stored : Stored => stored.it = i) hfind), hfull⟩

theorem Listed.namesInQueue_eq (h : Listed computeDigest s l) : namesInQueue computeDigest s = keysOf computeDigest l := by
  rw [namesInQueue, h.queue, List.filterMap_map, keysOf, ← List.filterMap_eq_map]
  exact List.filterMap_congr fun stored hstored => h.fullNameOf_eq hstored

theorem Listed.eq_of_key (h : Listed computeDigest s l) {other : Stored} (hstored : stored ∈ l) (hother : other ∈ l)
    (heq : getFullName computeDigest stored.entry.m_data = getFullName computeDigest other.entry.m_data) : stored = other :=
  List.inj_on_of_nodup_map h.nodup_keys hstored hother heq

theorem Listed.perm_moved (h : Listed computeDigest s l) (hstored : stored ∈ l) :
    l.Perm (l.filter (fun other => other.it ≠ stored.it) ++ [stored]) := by
  have hnodup : l.Nodup := h.nodup.of_map _
  have hmoved : (l.filter (fun other => other.it ≠ stored.it) ++ [stored]).Nodup := by
    refine List.nodup_append.mpr ⟨hnodup.filter _, List.nodup_singleton _, ?_⟩
    intro other hother last hlast heq
    rw [List.mem_singleton.mp hlast] at heq
    exact of_decide_eq_true (List.mem_filter.mp hother).2 (congrArg Stored.it heq)
  refine (List.perm_ext_iff_of_nodup hnodup hmoved).mpr fun other => ?_
  rw [List.mem_append, List.mem_filter, List.mem_singleton, decide_eq_true_eq]
  constructor
  · intro hother
    by_cases heq : other.it = stored.it
    · exact Or.inr (List.inj_on_of_nodup_map h.nodup hother hstored heq)
    · exact Or.inl ⟨hother, heq⟩
  · rintro (⟨hother, -⟩ | rfl)
    · exact hother
    · exact hstored

theorem Listed.touch_keys (h : Listed computeDigest s l) (hstored : stored ∈ l) :
    touch (keysOf computeDigest l) (getFullName computeDigest stored.entry.m_data) =
      keysOf computeDigest (l.filter (fun other => other.it ≠ stored.it)) ++
        [getFullName computeDigest stored.entry.m_data] := by
  rw [touch, keysOf, keysOf, List.filter_map]
  congr 2
  refine List.filter_congr fun other hother => decide_eq_decide.mpr (not_congr ?_)
  exact ⟨fun heq => congrArg Stored.it (h.eq_of_key hother hstored heq),
    fun heq => congrArg (fun stored : Stored => getFullName computeDigest stored.entry.m_data)
      (List.inj_on_of_nodup_map h.nodup hother hstored heq)⟩

theorem insertToQueue_of_mem (h : i ∈ s.m_queue) :
    (insertToQueue s i false).m_queue = s.m_queue.filter (fun it => it ≠ i) ++ [i] := by
  simp [insertToQueue, h]

theorem Listed.refresh (h : Listed computeDigest s l) (hstored : stored ∈ l) {f : Entry → Entry}
    (hf : ∀ entry, (f entry).m_data = entry.m_data) :
    Listed computeDigest (doAfterRefresh (modifyEntry s stored.it f) stored.it)
      (l.filter (fun other => other.it ≠ stored.it) ++ [⟨stored.it, f stored.entry⟩]) := by
  obtain ⟨g, hg⟩ : ∃ g : Stored → Stored, g = fun other => if other.it = stored.it then { other with entry := f other.entry }
    else other := ⟨_, rfl⟩
  have hit (other : Stored) : (g other).it = other.it := by
    rw [hg]
    dsimp only
    split <;> rfl
  have hdata (other : Stored) : (g other).entry.m_data = other.entry.m_data := by
    rw [hg]
    dsimp only
    split
    · exact hf other.entry
    · rfl
  have hkept : (l.filter (fun other => other.it ≠ stored.it)).map g = l.filter (fun other => other.it ≠ stored.it) := by
    conv_rhs => rw [← List.map_id (l.filter (fun other => other.it ≠ stored.it))]
    refine List.map_congr_left fun other hother => ?_
    rw [hg]
    exact if_neg (of_decide_eq_true (List.mem_filter.mp hother).2)
  have hnew : g stored = ⟨stored.it, f stored.entry⟩ := by
    rw [hg]
    exact if_pos rfl
  have hperm := (h.perm_moved hstored).symm.trans h.perm
  have htable : (doAfterRefresh (modifyEntry s stored.it f) stored.it).m_table = s.m_table.map g := by rw [hg]; rfl
  have hmapped := hperm.map g
  rw [List.map_append, hkept, List.map_singleton, hnew] at hmapped
  have hits : (l.filter (fun other => other.it ≠ stored.it) ++ [(⟨stored.it, f stored.entry⟩ : Stored)]).map Stored.it =
      (l.filter (fun other => other.it ≠ stored.it) ++ [stored]).map Stored.it := by
    rw [List.map_append, List.map_append]
    rfl
  refine ⟨htable ▸ hmapped, ?_, ?_, ?_, ?_⟩
  · have hin : stored.it ∈ s.m_queue := by
      rw [h.queue]
      exact List.mem_map_of_mem hstored
    have hqueue : (doAfterRefresh (modifyEntry s stored.it f) stored.it).m_queue =
        s.m_queue.filter (fun it => it ≠ stored.it) ++ [stored.it] :=
      insertToQueue_of_mem (s := modifyEntry s stored.it f) hin
    rw [hqueue, h.queue, List.filter_map, List.map_append]
    rfl
  · rw [hits]
    exact ((h.perm_moved hstored).map _).nodup_iff.mp h.nodup
  · rw [htable]
    refine List.pairwise_map.mpr (h.sorted.imp fun {first later} hless => ?_)
    rw [hdata, hdata]
    exact hless
  · intro other hother
    rcases List.mem_append.mp hother with hold | hlast
    · exact h.lt_newIt other (List.mem_filter.mp hold).1
    · rw [List.mem_singleton.mp hlast]
      exact h.lt_newIt stored hstored

theorem modifyEntry_id (s : Cs) (i : ℕ) : modifyEntry s i id = s := by
  have hid : (fun stored : Stored => if stored.it = i then { stored with entry := id stored.entry } else stored) = id := by
    funext stored
    split <;> rfl
  rw [modifyEntry, hid, List.map_id]

theorem Listed.use (h : Listed computeDigest s l) (hstored : stored ∈ l) :
    Listed computeDigest (doBeforeUse s stored.it) (l.filter (fun other => other.it ≠ stored.it) ++ [stored]) := by
  have hrefresh := h.refresh hstored (f := id) (fun _ => rfl)
  rwa [modifyEntry_id] at hrefresh

theorem Listed.insert (h : Listed computeDigest s l) {entry : Entry} {position : ℕ} (hposition : position ≤ s.m_table.length)
    (hsorted : Sorted computeDigest (s.m_table.insertIdx position ⟨s.newIt, entry⟩)) :
    Listed computeDigest (insertToQueue { s with
      m_table := s.m_table.insertIdx position ⟨s.newIt, entry⟩, newIt := s.newIt + 1 } s.newIt true)
        (l ++ [⟨s.newIt, entry⟩]) := by
  have hfresh : s.newIt ∉ s.m_queue := by
    rw [h.queue]
    intro hmem
    obtain ⟨stored, hstored, hit⟩ := List.mem_map.mp hmem
    exact absurd hit (Nat.ne_of_lt (h.lt_newIt stored hstored))
  refine ⟨?_, ?_, ?_, hsorted, ?_⟩
  · refine (List.perm_append_singleton _ _).trans (List.Perm.trans ?_ (List.perm_insertIdx _ _ hposition).symm)
    exact h.perm.cons _
  · have hqueue : (insertToQueue { s with
        m_table := s.m_table.insertIdx position ⟨s.newIt, entry⟩, newIt := s.newIt + 1 } s.newIt true).m_queue =
          s.m_queue ++ [s.newIt] := by
      simp [insertToQueue, hfresh]
    rw [hqueue, h.queue, List.map_append]
    rfl
  · rw [List.map_append]
    refine List.nodup_append.mpr ⟨h.nodup, List.nodup_singleton _, ?_⟩
    intro it hit last hlast heq
    have hnew : it = s.newIt := heq.trans (List.mem_singleton.mp hlast)
    rw [hnew, ← h.queue] at hit
    exact hfresh hit
  · intro stored hstored
    rcases List.mem_append.mp hstored with hold | hlast
    · exact Nat.lt_succ_of_lt (h.lt_newIt stored hold)
    · rw [List.mem_singleton.mp hlast]
      exact Nat.lt_succ_self _

theorem Listed.eraseOne (h : Listed computeDigest s l) (i : ℕ) :
    Listed computeDigest (eraseOne s i) (l.filter (fun stored => stored.it ≠ i)) where
  perm := h.perm.filter _
  queue := by
    rw [LruPolicy.eraseOne, h.queue, List.filter_map]
    rfl
  nodup := h.nodup.sublist (List.filter_sublist.map _)
  sorted := h.sorted.sublist List.filter_sublist
  lt_newIt stored hstored := h.lt_newIt stored (List.mem_filter.mp hstored).1

theorem Listed.foldl_eraseOne (h : Listed computeDigest s l) (erased : List ℕ) :
    Listed computeDigest (erased.foldl LruPolicy.eraseOne s) (l.filter (fun stored => stored.it ∉ erased)) := by
  induction erased generalizing s l with
  | nil =>
    rw [List.filter_eq_self.mpr fun stored _ => decide_eq_true List.not_mem_nil]
    exact h
  | cons i erased ih =>
    have herased := ih (h.eraseOne i)
    rw [List.filter_filter] at herased
    have hsame : l.filter (fun stored => stored.it ∉ i :: erased) =
        l.filter (fun stored => decide (stored.it ∉ erased) && decide (stored.it ≠ i)) := by
      refine List.filter_congr fun stored _ => ?_
      rw [← Bool.decide_and]
      refine decide_eq_decide.mpr ?_
      rw [List.mem_cons, not_or, and_comm]
    rw [hsame]
    exact herased

theorem Listed.evictOne (h : Listed computeDigest s (stored :: l)) :
    Listed computeDigest (evictOne s) l ∧ (evictOne s).m_limit = s.m_limit := by
  have hnodup := h.nodup
  rw [List.map_cons, List.nodup_cons] at hnodup
  have hothers : l.filter (fun other => other.it ≠ stored.it) = l :=
    List.filter_eq_self.mpr fun other hother => decide_eq_true fun heq => hnodup.1 (heq ▸ List.mem_map_of_mem hother)
  have hfirst : (stored :: l).filter (fun other => other.it ≠ stored.it) = l := by
    rw [List.filter_cons_of_neg (by simp), hothers]
  have hevicted : LruPolicy.evictOne s = LruPolicy.eraseOne s stored.it := by
    have hqueue : (stored :: l).map Stored.it = stored.it :: l.map Stored.it := rfl
    have hkept : (stored.it :: l.map Stored.it).filter (fun it => it ≠ stored.it) = l.map Stored.it := by
      rw [List.filter_cons_of_neg (by simp), List.filter_eq_self]
      exact fun it hit => decide_eq_true fun heq => hnodup.1 (heq ▸ hit)
    rw [LruPolicy.evictOne, LruPolicy.eraseOne, h.queue, hqueue, hkept]
  have hone := h.eraseOne stored.it
  rw [hfirst] at hone
  rw [hevicted]
  exact ⟨hone, rfl⟩

theorem Listed.evictLoop (h : Listed computeDigest s l) (rounds : ℕ) (hrounds : l.length ≤ rounds) :
    Listed computeDigest (evictLoop rounds s) (newest s.m_limit l) ∧ (evictLoop rounds s).m_limit = s.m_limit := by
  induction rounds generalizing s l with
  | zero =>
    obtain rfl := List.length_eq_zero_iff.mp (Nat.le_zero.mp hrounds)
    rw [newest_of_length_le (Nat.zero_le _)]
    exact ⟨h, rfl⟩
  | succ rounds ih =>
    rw [LruPolicy.evictLoop, ← h.perm.length_eq]
    split
    · rename_i hfull
      cases l with
      | nil => exact absurd hfull (Nat.not_lt_zero _)
      | cons stored l =>
        obtain ⟨hone, hlimit⟩ := h.evictOne
        obtain ⟨hloop, hkept⟩ := ih hone (Nat.le_of_succ_le_succ hrounds)
        rw [hlimit] at hloop hkept
        have hshort : s.m_limit ≤ l.length := Nat.le_of_lt_succ hfull
        have hnewest : newest s.m_limit ([stored] ++ l) = newest s.m_limit l := newest_append_of_le hshort
        rw [List.singleton_append] at hnewest
        rw [hnewest]
        exact ⟨hloop, hkept⟩
    · rename_i hsmall
      rw [newest_of_length_le (Nat.not_lt.mp hsmall)]
      exact ⟨h, rfl⟩

theorem Listed.evictEntries (h : Listed computeDigest s l) :
    Listed computeDigest (evictEntries s) (newest s.m_limit l) ∧ (evictEntries s).m_limit = s.m_limit :=
  h.evictLoop _ (Nat.le_of_eq h.perm.length_eq)

theorem keysOf_newest (limit : ℕ) (l : List Stored) :
    keysOf computeDigest (newest limit l) = newest limit (keysOf computeDigest l) := by
  rw [newest, newest, keysOf, keysOf, List.map_drop, List.length_map]

end Listing

section Run

variable {computeDigest : Data → Vector UInt8 32} {keyLocatorOf : Data → Option Block} {s s' : Cs} {l : List Stored}
  {nMaxPackets : ℕ} {actions : List (Action Name)}

/-- The names in the store, in the order of the queue, are those of the cache. -/
def Simulates (computeDigest : Data → Vector UInt8 32) (nMaxPackets : ℕ) (s : Cs) (actions : List (Action Name)) : Prop :=
  ∃ l, Listed computeDigest s l ∧ l.length ≤ s.m_limit ∧
    actions.foldl Cache.act (Cache.empty nMaxPackets) = ⟨s.m_limit, keysOf computeDigest l⟩

theorem simulates_initial (computeDigest : Data → Vector UInt8 32) (nMaxPackets : ℕ) :
    Simulates computeDigest nMaxPackets (initial nMaxPackets) [] :=
  ⟨[], ⟨List.Perm.refl _, rfl, List.nodup_nil, List.Pairwise.nil, fun _ hnil => absurd hnil List.not_mem_nil⟩,
    Nat.zero_le _, rfl⟩

theorem Simulates.insert (h : Simulates computeDigest nMaxPackets s actions) (data : Data) (isUnsolicited : Bool)
    (cachePolicyTag : Option ℕ) :
    Simulates computeDigest nMaxPackets (insert computeDigest s data isUnsolicited cachePolicyTag)
      (actions ++ if admits s data cachePolicyTag then [.use (getFullName computeDigest data)] else []) := by
  unfold LruPolicy.insert
  split
  · obtain ⟨l, hlisted, hlength, hcache⟩ := h
    have hact : (actions ++ [Action.use (getFullName computeDigest data)]).foldl Cache.act (Cache.empty nMaxPackets) =
        ⟨s.m_limit, newest s.m_limit (touch (keysOf computeDigest l) (getFullName computeDigest data))⟩ := by
      rw [List.foldl_concat, hcache]
      rfl
    have hdata : (Entry.setData s.now data isUnsolicited).m_data = data := rfl
    have hsorted := hlisted.sorted.emplace ⟨s.newIt, Entry.setData s.now data isUnsolicited⟩
    rcases emplace_spec computeDigest s.m_table ⟨s.newIt, Entry.setData s.now data isUnsolicited⟩ with
      ⟨position, hposition, heq⟩ | ⟨stored, hstored, heq, hkey⟩
    · rw [heq] at hsorted ⊢
      dsimp only
      rw [if_pos rfl]
      have hinserted := hlisted.insert hposition hsorted
      obtain ⟨hevicted, hlimit⟩ := hinserted.evictEntries
      have hlimit' : (doAfterInsert { s with
          m_table := s.m_table.insertIdx position ⟨s.newIt, Entry.setData s.now data isUnsolicited⟩,
          newIt := s.newIt + 1 } s.newIt).m_limit = s.m_limit := hlimit
      have hnew : getFullName computeDigest data ∉ keysOf computeDigest l := by
        have hnodup := hinserted.nodup_keys
        rw [keysOf, List.map_append, List.map_singleton, hdata] at hnodup
        exact fun hmem => (List.nodup_append.mp hnodup).2.2 _ hmem _ (List.mem_singleton.mpr rfl) rfl
      refine ⟨_, hevicted, hlimit'.symm ▸ length_newest_le _ _, ?_⟩
      rw [hlimit', hact, touch_of_not_mem hnew, keysOf_newest, keysOf, keysOf, List.map_append]
      rfl
    · rw [heq]
      dsimp only
      rw [if_neg Bool.false_ne_true]
      have hmem := hlisted.perm.mem_iff.mpr hstored
      have hlength' := (hlisted.perm_moved hmem).length_eq
      have hrefreshed := hlisted.refresh hmem (f := refresh s isUnsolicited) fun entry => by
        unfold refresh
        dsimp only
        split <;> rfl
      have hkeep : (refresh s isUnsolicited stored.entry).m_data = stored.entry.m_data := by
        unfold refresh
        dsimp only
        split <;> rfl
      rw [hdata] at hkey
      refine ⟨_, hrefreshed, ?_, ?_⟩
      · rw [List.length_append, List.length_singleton] at hlength' ⊢
        exact hlength' ▸ hlength
      · have htouch : touch (keysOf computeDigest l) (getFullName computeDigest data) =
            keysOf computeDigest (l.filter (fun other => other.it ≠ stored.it) ++
              [⟨stored.it, refresh s isUnsolicited stored.entry⟩]) := by
          rw [← hkey, hlisted.touch_keys hmem, keysOf, keysOf, List.map_append, List.map_singleton, hkeep]
        rw [hact, htouch, newest_of_length_le]
        · rfl
        · rw [keysOf, List.length_map, List.length_append, List.length_singleton]
          rw [List.length_append, List.length_singleton] at hlength'
          exact hlength' ▸ hlength
  · rw [List.append_nil]
    exact h

theorem match?_sound {name : Name} {selectors : Selectors} {i : ℕ}
    (h : match? computeDigest keyLocatorOf s name selectors = some (some i)) : ∃ stored ∈ s.m_table, stored.it = i := by
  unfold match? at h
  split at h
  · unfold ContentStoreTable.find at h
    dsimp only at h
    split at h
    · have hsplit := (List.take_append_drop (lastOf computeDigest s.m_table name) s.m_table).symm
      rw [← length_take_lastOf computeDigest name s.m_table] at h
      obtain ⟨stored, hstored, hit, -⟩ := findRightmost_sound hsplit (by simpa using h)
      exact ⟨stored, List.mem_of_mem_take hstored, hit⟩
    · obtain ⟨stored, hfind, hit⟩ := Option.map_eq_some_iff.mp (Option.some.inj h)
      exact ⟨stored, List.mem_of_mem_take (List.mem_of_mem_drop (List.mem_of_find?_eq_some hfind)), hit⟩
  · cases h

theorem Simulates.find (h : Simulates computeDigest nMaxPackets s actions) {i : ℕ}
    (hmem : ∃ stored ∈ s.m_table, stored.it = i) : ∃ name, fullNameOf computeDigest s i = some name ∧
      Simulates computeDigest nMaxPackets (doBeforeUse s i) (actions ++ [.use name]) := by
  obtain ⟨l, hlisted, hlength, hcache⟩ := h
  obtain ⟨stored, hstored, rfl⟩ := hmem
  have hin := hlisted.perm.mem_iff.mpr hstored
  have hlength' : (l.filter (fun other => other.it ≠ stored.it) ++ [stored]).length ≤ s.m_limit :=
    (hlisted.perm_moved hin).length_eq ▸ hlength
  refine ⟨_, hlisted.fullNameOf_eq hin, _, hlisted.use hin, hlength', ?_⟩
  have hact : (actions ++ [Action.use (getFullName computeDigest stored.entry.m_data)]).foldl Cache.act (Cache.empty nMaxPackets) =
      ⟨s.m_limit, newest s.m_limit (touch (keysOf computeDigest l) (getFullName computeDigest stored.entry.m_data))⟩ := by
    rw [List.foldl_concat, hcache]
    rfl
  have hkeys : keysOf computeDigest (l.filter (fun other => other.it ≠ stored.it) ++ [stored]) =
      touch (keysOf computeDigest l) (getFullName computeDigest stored.entry.m_data) := by
    rw [hlisted.touch_keys hin, keysOf, keysOf, List.map_append, List.map_singleton]
  rw [hact, ← hkeys, newest_of_length_le]
  · rfl
  · rwa [keysOf, List.length_map]

theorem Simulates.erase (h : Simulates computeDigest nMaxPackets s actions) (erased : List ℕ) :
    Simulates computeDigest nMaxPackets (erased.foldl eraseOne s)
      (actions ++ [.forget (erased.filterMap (fullNameOf computeDigest s))]) := by
  obtain ⟨l, hlisted, hlength, hcache⟩ := h
  have hlimit : (erased.foldl eraseOne s).m_limit = s.m_limit := by
    clear hlisted hlength hcache
    induction erased generalizing s with
    | nil => rfl
    | cons i erased ih => exact ih
  refine ⟨_, hlisted.foldl_eraseOne erased, ?_, ?_⟩
  · rw [hlimit]
    exact (List.length_filter_le _ _).trans hlength
  · rw [List.foldl_concat, hcache, hlimit]
    refine congrArg (Cache.mk s.m_limit) ?_
    rw [keysOf, keysOf, List.filter_map]
    refine congrArg (List.map _) (List.filter_congr fun stored hstored => decide_eq_decide.mpr (not_congr ?_))
    rw [List.mem_filterMap]
    constructor
    · rintro ⟨i, hi, hname⟩
      obtain ⟨other, hother, hit, hfull⟩ := hlisted.exists_of_fullNameOf hname
      rw [← hlisted.eq_of_key hother hstored hfull, hit]
      exact hi
    · exact fun hmem => ⟨stored.it, hmem, hlisted.fullNameOf_eq hstored⟩

theorem Simulates.setLimit (h : Simulates computeDigest nMaxPackets s actions) (nMaxEntries : ℕ) :
    Simulates computeDigest nMaxPackets (setLimit s nMaxEntries) (actions ++ [.setLimit nMaxEntries]) := by
  obtain ⟨l, hlisted, -, hcache⟩ := h
  have hlimited : Listed computeDigest { s with m_limit := nMaxEntries } l :=
    ⟨hlisted.perm, hlisted.queue, hlisted.nodup, hlisted.sorted, hlisted.lt_newIt⟩
  obtain ⟨hevicted, hlimit⟩ := hlimited.evictEntries
  have hlimit' : (LruPolicy.setLimit s nMaxEntries).m_limit = nMaxEntries := hlimit
  refine ⟨_, hevicted, hlimit'.symm ▸ length_newest_le _ _, ?_⟩
  rw [List.foldl_concat, hcache, hlimit', keysOf_newest]
  rfl

theorem Simulates.same (h : Simulates computeDigest nMaxPackets s actions) (htable : s'.m_table = s.m_table)
    (hqueue : s'.m_queue = s.m_queue) (hnewIt : s'.newIt = s.newIt) (hlimit : s'.m_limit = s.m_limit) :
    Simulates computeDigest nMaxPackets s' (actions ++ []) := by
  obtain ⟨l, hlisted, hlength, hcache⟩ := h
  refine ⟨l, ⟨htable ▸ hlisted.perm, hqueue ▸ hlisted.queue, hlisted.nodup, htable ▸ hlisted.sorted,
    hnewIt ▸ hlisted.lt_newIt⟩, hlimit ▸ hlength, ?_⟩
  rw [List.append_nil, hcache, hlimit]

theorem Simulates.step (h : Simulates computeDigest nMaxPackets s actions) (op : Op)
    (hstep : step computeDigest keyLocatorOf s op = some s') :
    Simulates computeDigest nMaxPackets s' (actions ++ actionsOf computeDigest keyLocatorOf s op) := by
  cases op with
  | insert data isUnsolicited cachePolicyTag =>
    obtain rfl := Option.some.inj hstep
    exact h.insert data isUnsolicited cachePolicyTag
  | find name selectors =>
    obtain ⟨found, hfound, rfl⟩ := Option.map_eq_some_iff.mp hstep
    rw [actionsOf, hfound]
    cases found with
    | none => exact h.same rfl rfl rfl rfl
    | some i =>
      obtain ⟨name, hname, hused⟩ := h.find (match?_sound hfound)
      simpa [hname] using hused
  | erase namePrefix limit =>
    obtain rfl := Option.some.inj hstep
    exact h.erase _
  | setLimit nMaxEntries =>
    obtain rfl := Option.some.inj hstep
    exact h.setLimit nMaxEntries
  | enableAdmit shouldAdmit =>
    obtain rfl := Option.some.inj hstep
    exact h.same rfl rfl rfl rfl
  | enableServe shouldServe =>
    obtain rfl := Option.some.inj hstep
    exact h.same rfl rfl rfl rfl
  | elapse duration =>
    obtain rfl := Option.some.inj hstep
    exact h.same rfl rfl rfl rfl

theorem simulates_of_run {ops : List Op} (hrun : run computeDigest keyLocatorOf nMaxPackets ops = some (s, actions)) :
    Simulates computeDigest nMaxPackets s actions := by
  induction ops using List.reverseRecOn generalizing s actions with
  | nil =>
    obtain ⟨rfl, rfl⟩ := Prod.mk.inj (Option.some.inj hrun)
    exact simulates_initial computeDigest nMaxPackets
  | append_singleton ops op ih =>
    rw [run, List.foldlM_append] at hrun
    obtain ⟨⟨before, done⟩, hbefore, hlast⟩ := Option.bind_eq_some_iff.mp hrun
    rw [List.foldlM_cons] at hlast
    obtain ⟨after, hafter, hnil⟩ := Option.bind_eq_some_iff.mp hlast
    obtain ⟨next, hnext, rfl⟩ := Option.map_eq_some_iff.mp hafter
    obtain ⟨rfl, rfl⟩ := Prod.mk.inj (Option.some.inj hnil)
    exact (ih hbefore).step op hnext

/-- The Content Store is a cache of full names that drops what has not been used for
longest. Where only Data has come in and been looked up, it holds the names used last. -/
theorem namesInQueue_eq_cache {ops : List Op}
    (hrun : run computeDigest keyLocatorOf nMaxPackets ops = some (s, actions)) :
    s.m_table.length ≤ s.m_limit ∧
      (namesInQueue computeDigest s).Perm (s.m_table.map (fun stored => getFullName computeDigest stored.entry.m_data)) ∧
        namesInQueue computeDigest s = (actions.foldl Cache.act (Cache.empty nMaxPackets)).keys ∧
          ∀ uses : List Name, actions = uses.map Action.use →
            namesInQueue computeDigest s = newest nMaxPackets (recent uses) := by
  obtain ⟨l, hlisted, hlength, hcache⟩ := simulates_of_run hrun
  have hnames := hlisted.namesInQueue_eq
  have hkeys : namesInQueue computeDigest s = (actions.foldl Cache.act (Cache.empty nMaxPackets)).keys := by
    rw [hcache, hnames]
  refine ⟨hlisted.perm.length_eq ▸ hlength, ?_, hkeys, ?_⟩
  · rw [hnames]
    exact hlisted.perm.map _
  · rintro uses rfl
    rw [hkeys, List.foldl_map, foldl_use]

end Run

section Example

open LeoNdn.PriorityFifo (zeroDigest)

def octetData (octet : UInt8) : Data := dataOf [⟨8, [octet]⟩]

def noSelectors : Selectors := ⟨-1, -1, ⟨.None, none⟩, ⟨[]⟩, 0, false⟩

/-- The first of two names is used again before a third one comes. -/
def threeNames : List Op :=
  [.insert (octetData 97) false none, .insert (octetData 98) false none, .find [⟨8, [97]⟩] noSelectors,
    .insert (octetData 99) false none]

def threeUses : List Name := [97, 98, 97, 99].map (fun octet => getFullName zeroDigest (octetData octet))

theorem actions_threeNames :
    (run zeroDigest (fun _ => none) 2 threeNames).map Prod.snd = some (threeUses.map Action.use) := by decide +kernel

theorem namesInQueue_eq_cache_three : ∃ s, run zeroDigest (fun _ => none) 2 threeNames = some (s, threeUses.map Action.use) ∧
    s.m_table.length ≤ s.m_limit ∧ namesInQueue zeroDigest s = newest 2 (recent threeUses) := by
  obtain ⟨⟨s, actions⟩, hrun, hactions⟩ := Option.map_eq_some_iff.mp actions_threeNames
  dsimp only at hactions
  subst hactions
  obtain ⟨hlength, -, -, hrecent⟩ := namesInQueue_eq_cache hrun
  exact ⟨s, hrun, hlength, hrecent threeUses rfl⟩

end Example

end LeoNdn.LruPolicy
