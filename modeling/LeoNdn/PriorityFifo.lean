import LeoNdn.ContentStoreTable
import LeoNdn.Runs
import LeoNdn.Schedulers

/-!
The Content Store with the priority FIFO policy: entries wait to be evicted in
three queues, and a timer moves an entry to the stale one.
-/

namespace LeoNdn.PriorityFifo

open LeoNdn.Tlv LeoNdn.NdnPacket LeoNdn.InterestSelectors LeoNdn.ContentStoreTable LeoNdn.Schedulers LeoNdn.Runs

inductive QueueType
  | unsolicited
  | stale
  | fifo
  deriving DecidableEq, Repr

/-- A node of a queue, with the number that it has got on joining. -/
structure QueueNode where
  queueIt : ℕ
  it : ℕ
  deriving DecidableEq, Repr

structure EntryInfo where
  queueType : QueueType
  queueIt : ℕ
  moveStaleEventId : Option ℕ
  deriving DecidableEq, Repr

/-- The events of the scheduler move the entry of an iterator to the stale queue. -/
structure Cs where
  now : ℤ
  m_shouldAdmit : Bool
  m_shouldServe : Bool
  m_table : List Stored
  newIt : ℕ
  m_limit : ℕ
  m_queues : QueueType → List QueueNode
  newQueueIt : ℕ
  m_entryInfoMap : ℕ → Option EntryInfo
  scheduler : Scheduler ℕ

def initial (nMaxPackets : ℕ) : Cs :=
  ⟨0, true, true, [], 0, nMaxPackets, fun _ => [], 0, fun _ => none, Scheduler.empty⟩

section Policy

variable (s : Cs)

def setQueue (queueType : QueueType) (queue : List QueueNode) : QueueType → List QueueNode :=
  fun other => if other = queueType then queue else s.m_queues other

def setInfo (i : ℕ) (info : Option EntryInfo) : ℕ → Option EntryInfo :=
  fun other => if other = i then info else s.m_entryInfoMap other

def entryOf (i : ℕ) : Option Entry := (s.m_table.find? (fun stored => stored.it = i)).map Stored.entry

def queueTypeOf (entry : Entry) : QueueType :=
  if entry.m_isUnsolicited then .unsolicited else if entry.isStale s.now then .stale else .fifo

def joinQueue (i : ℕ) (queueType : QueueType) (moveStaleEventId : Option ℕ) : Cs :=
  { s with
    m_queues := setQueue s queueType (s.m_queues queueType ++ [⟨s.newQueueIt, i⟩])
    newQueueIt := s.newQueueIt + 1
    m_entryInfoMap := setInfo s i (some ⟨queueType, s.newQueueIt, moveStaleEventId⟩) }

def attachQueue (i : ℕ) : Cs :=
  match entryOf s i with
  | none => s
  | some entry =>
    match queueTypeOf s entry with
    | .fifo =>
      { joinQueue s i .fifo (some s.scheduler.nextId) with
        scheduler := s.scheduler.scheduleEvent s.now (toNanoseconds entry.m_data.getFreshnessPeriod) i }
    | queueType => joinQueue s i queueType none

def detachQueue (i : ℕ) : Cs :=
  match s.m_entryInfoMap i with
  | none => s
  | some info =>
    { s with
      scheduler := if info.queueType = .fifo then s.scheduler.cancel info.moveStaleEventId else s.scheduler
      m_queues := setQueue s info.queueType
        ((s.m_queues info.queueType).filter (fun node => node.queueIt ≠ info.queueIt))
      m_entryInfoMap := setInfo s i none }

def moveToStaleQueue (i : ℕ) : Cs :=
  match s.m_entryInfoMap i with
  | none => s
  | some info =>
    let fifo := (s.m_queues .fifo).filter (fun node => node.queueIt ≠ info.queueIt)
    joinQueue { s with m_queues := setQueue s .fifo fifo } i .stale info.moveStaleEventId

def front : Option QueueNode :=
  match (s.m_queues .unsolicited).head?, (s.m_queues .stale).head?, (s.m_queues .fifo).head? with
  | some node, _, _ => some node
  | none, some node, _ => some node
  | none, none, node => node

/-- What comes after `beforeErase`; the Content Store does the same when it hears of `beforeEvict`. -/
def eraseOne (i : ℕ) : Cs :=
  let s := detachQueue s i
  { s with m_table := s.m_table.filter (fun stored => stored.it ≠ i) }

def evictOne : Cs :=
  match front s with
  | none => s
  | some node => eraseOne s node.it

/-- The loop in `evictEntries`, with a bound on its rounds. -/
def evictLoop : ℕ → Cs → Cs
  | 0, s => s
  | rounds + 1, s => if s.m_table.length > s.m_limit then evictLoop rounds (evictOne s) else s

def evictEntries : Cs := evictLoop s.m_table.length s

def afterRefresh (i : ℕ) : Cs := attachQueue (detachQueue s i) i

def setLimit (nMaxEntries : ℕ) : Cs := evictEntries { s with m_limit := nMaxEntries }

end Policy

section Store

variable (computeDigest : Data → Vector UInt8 32) (keyLocatorOf : Data → Option Block) (s : Cs)

/-- 1 is the tag that forbids to cache the Data. -/
def admits (data : Data) (cachePolicyTag : Option ℕ) : Bool :=
  s.m_shouldAdmit && s.m_limit ≠ 0 && ! Name.isPrefixOf LOCALHOST data.m_name && cachePolicyTag ≠ some 1

def refresh (isUnsolicited : Bool) (entry : Entry) : Entry :=
  let entry := entry.updateStaleTime s.now
  if entry.m_isUnsolicited && ! isUnsolicited then Entry.setData s.now entry.m_data false else entry

def modifyEntry (i : ℕ) (f : Entry → Entry) : Cs :=
  { s with m_table := s.m_table.map (fun stored => if stored.it = i then { stored with entry := f stored.entry } else stored) }

/-- The table with the Data, before a new entry makes room for itself. -/
def inserted (data : Data) (isUnsolicited : Bool) : Cs × Bool :=
  let (m_table, it, isNewEntry) := emplace computeDigest s.m_table ⟨s.newIt, Entry.setData s.now data isUnsolicited⟩
  if isNewEntry then (attachQueue { s with m_table := m_table, newIt := s.newIt + 1 } it, true)
  else (afterRefresh (modifyEntry s it (refresh s isUnsolicited)) it, false)

def insert (data : Data) (isUnsolicited : Bool) (cachePolicyTag : Option ℕ) : Cs :=
  if admits s data cachePolicyTag then
    let (s, isNewEntry) := inserted computeDigest s data isUnsolicited
    if isNewEntry then evictEntries s else s
  else s

/-- The new state and the number of entries that are erased. -/
def erase (namePrefix : Name) (limit : ℕ) : Cs × ℕ :=
  let first := lowerBound computeDigest s.m_table (.query namePrefix)
  let last := lastOf computeDigest s.m_table namePrefix
  let erased := ((between s.m_table first last).take limit).map Stored.it
  (erased.foldl eraseOne s, erased.length)

/-- The iterator of the match, where the search is defined; `beforeUse` changes nothing. -/
def find (name : Name) (selectors : Selectors) : Option (Option ℕ) :=
  if s.m_shouldServe && s.m_limit ≠ 0 then
    ContentStoreTable.find computeDigest keyLocatorOf s.now name selectors s.m_table
  else some none

inductive Op
  | insert (data : Data) (isUnsolicited : Bool) (cachePolicyTag : Option ℕ)
  | find (name : Name) (selectors : Selectors)
  | erase (namePrefix : Name) (limit : ℕ)
  | setLimit (nMaxEntries : ℕ)
  | enableAdmit (shouldAdmit : Bool)
  | enableServe (shouldServe : Bool)
  | elapse (duration : ℕ)
  | expire

def step : Op → Option Cs
  | .insert data isUnsolicited cachePolicyTag => some (insert computeDigest s data isUnsolicited cachePolicyTag)
  | .find _ _ => some s
  | .erase namePrefix limit => some (erase computeDigest s namePrefix limit).1
  | .setLimit nMaxEntries => some (setLimit s nMaxEntries)
  | .enableAdmit shouldAdmit => some { s with m_shouldAdmit := shouldAdmit }
  | .enableServe shouldServe => some { s with m_shouldServe := shouldServe }
  | .elapse duration => some { s with now := s.now + duration }
  | .expire => (s.scheduler.popExpired s.now).map (fun (info, scheduler) =>
      moveToStaleQueue { s with scheduler := scheduler } info.callback)

/-- The clock has 64 bits, and does not pass an event that is due. -/
def Allowed : Op → Prop
  | .elapse duration => s.now + duration < 2 ^ 63 ∧ ∀ info ∈ s.scheduler.m_queue, s.now + duration ≤ info.expireTime
  | _ => True

end Store

/-- The queue of an entry by what it is; at the instant of its stale time either will do. -/
def Suits (now : ℤ) (entry : Entry) : QueueType → Prop
  | .unsolicited => entry.m_isUnsolicited = true
  | .stale => entry.m_isUnsolicited = false ∧ entry.m_staleTime ≤ now
  | .fifo => entry.m_isUnsolicited = false ∧ now ≤ entry.m_staleTime

/-- The table, the queues and the timers agree; one entry may be out of the queues. -/
structure Consistent (out : Option ℕ) (s : Cs) : Prop where
  clock : 0 ≤ s.now ∧ s.now < 2 ^ 63
  nodup : (s.m_table.map Stored.it).Nodup
  lt_newIt : ∀ stored ∈ s.m_table, stored.it < s.newIt
  lt_newQueueIt : ∀ queueType, ∀ node ∈ s.m_queues queueType, node.queueIt < s.newQueueIt
  sorted : ∀ queueType, (s.m_queues queueType).Pairwise (fun node later => node.queueIt < later.queueIt)
  info_iff : ∀ i, (s.m_entryInfoMap i).isSome ↔ i ∈ s.m_table.map Stored.it ∧ out ≠ some i
  mem_iff : ∀ queueType node, node ∈ s.m_queues queueType ↔ ∃ info, s.m_entryInfoMap node.it = some info ∧
    info.queueType = queueType ∧ info.queueIt = node.queueIt
  suits : ∀ stored ∈ s.m_table, ∀ info, s.m_entryInfoMap stored.it = some info → Suits s.now stored.entry info.queueType
  scheduler : s.scheduler.WellFormed
  timer : ∀ stored ∈ s.m_table, ∀ info, s.m_entryInfoMap stored.it = some info → info.queueType = .fifo →
    ∃ event ∈ s.scheduler.m_queue, info.moveStaleEventId = some event.id ∧ event.callback = stored.it ∧
      event.expireTime = stored.entry.m_staleTime
  owner : ∀ event ∈ s.scheduler.m_queue, ∃ info, s.m_entryInfoMap event.callback = some info ∧ info.queueType = .fifo ∧
    info.moveStaleEventId = some event.id

theorem consistent_initial (nMaxPackets : ℕ) : Consistent none (initial nMaxPackets) := by
  refine ⟨⟨Int.le_refl 0, by change (0 : ℤ) < 2 ^ 63; decide⟩, List.nodup_nil, ?_, ?_, fun _ => List.Pairwise.nil, ?_,
    ?_, ?_, Scheduler.WellFormed.empty, ?_, ?_⟩ <;> simp [initial, Scheduler.empty]

section Queues

variable {out : Option ℕ} {s : Cs} {i : ℕ} {entry : Entry}

theorem mem_setQueue {queueType other : QueueType} {queue : List QueueNode} {node : QueueNode} :
    node ∈ setQueue s queueType queue other ↔ if other = queueType then node ∈ queue else node ∈ s.m_queues other := by
  unfold setQueue
  split <;> rfl

theorem setInfo_eq_some {info : Option EntryInfo} {j : ℕ} {info' : EntryInfo} :
    setInfo s i info j = some info' ↔ (j = i ∧ info = some info') ∨ (j ≠ i ∧ s.m_entryInfoMap j = some info') := by
  unfold setInfo
  split
  · rename_i heq
    simp [heq]
  · rename_i hne
    simp [hne]

theorem mem_joinQueue {queueType other : QueueType} (id : Option ℕ) {node : QueueNode} :
    node ∈ (joinQueue s i queueType id).m_queues other ↔
      node ∈ s.m_queues other ∨ other = queueType ∧ node = ⟨s.newQueueIt, i⟩ := by
  simp only [joinQueue, mem_setQueue]
  split
  · rename_i heq
    rw [List.mem_append, List.mem_singleton, heq, and_iff_right rfl]
  · rename_i hne
    exact (or_iff_left fun hnew => hne hnew.1).symm

theorem Consistent.info_iff_of_ne (h : Consistent out s) {out' : Option ℕ} {j : ℕ} (hout : out ≠ some j) (hout' : out' ≠ some j) :
    (s.m_entryInfoMap j).isSome ↔ j ∈ s.m_table.map Stored.it ∧ out' ≠ some j := by
  rw [h.info_iff j]
  exact and_congr_right fun _ => iff_of_true hout hout'

theorem Consistent.node_eq (h : Consistent out s) {queueType : QueueType} {node other : QueueNode}
    (hnode : node ∈ s.m_queues queueType) (hother : other ∈ s.m_queues queueType) (heq : node.queueIt = other.queueIt) :
    node = other := by
  have hnodup : ((s.m_queues queueType).map QueueNode.queueIt).Nodup :=
    List.pairwise_map.mpr ((h.sorted queueType).imp Nat.ne_of_lt)
  exact List.inj_on_of_nodup_map hnodup hnode hother heq

theorem Consistent.timer_ne (h : Consistent none s) {info : EntryInfo} (hinfo : s.m_entryInfoMap i = some info)
    (hfifo : info.queueType = .fifo) {event : EventInfo ℕ} (hevent : event ∈ s.scheduler.m_queue)
    (hne : event.callback ≠ i) : info.moveStaleEventId ≠ some event.id := by
  intro hid
  obtain ⟨hmem, -⟩ := (h.info_iff i).mp (by rw [hinfo]; rfl)
  obtain ⟨stored, hstored, rfl⟩ := List.mem_map.mp hmem
  obtain ⟨own, hown, hid', hcallback, -⟩ := h.timer stored hstored info hinfo hfifo
  rw [hid, Option.some.injEq] at hid'
  rw [h.scheduler.eq_of_id hevent hown hid', hcallback] at hne
  exact hne rfl

theorem mem_cancelled {info : EntryInfo} {event : EventInfo ℕ} :
    event ∈ (if info.queueType = .fifo then s.scheduler.cancel info.moveStaleEventId else s.scheduler).m_queue ↔
      event ∈ s.scheduler.m_queue ∧ (info.queueType = .fifo → info.moveStaleEventId ≠ some event.id) := by
  split
  · rename_i hfifo
    rw [Scheduler.cancel, List.mem_filter, decide_eq_true_eq]
    exact and_congr_right fun _ => ⟨fun hne _ => hne, fun hne => hne hfifo⟩
  · rename_i hne
    exact (and_iff_left fun hfifo => absurd hfifo hne).symm

theorem detachQueue_consistent (h : Consistent none s) : Consistent (some i) (detachQueue s i) := by
  unfold detachQueue
  cases hinfo : s.m_entryInfoMap i with
  | none =>
    refine ⟨h.clock, h.nodup, h.lt_newIt, h.lt_newQueueIt, h.sorted, fun j => ?_, h.mem_iff, h.suits, h.scheduler, h.timer,
      h.owner⟩
    rw [h.info_iff j]
    refine and_congr_right fun hj => iff_of_true (Option.some_ne_none _).symm ?_
    rintro ⟨rfl⟩
    have hsome := (h.info_iff i).mpr ⟨hj, (Option.some_ne_none _).symm⟩
    rw [hinfo] at hsome
    cases hsome
  | some info =>
    have hnode : ⟨info.queueIt, i⟩ ∈ s.m_queues info.queueType := (h.mem_iff _ _).mpr ⟨info, hinfo, rfl, rfl⟩
    refine ⟨h.clock, h.nodup, h.lt_newIt, ?_, ?_, ?_, ?_, ?_, ?_, ?_, ?_⟩
    · intro queueType node hmem
      rw [mem_setQueue] at hmem
      split at hmem
      · exact h.lt_newQueueIt _ node (List.mem_filter.mp hmem).1
      · exact h.lt_newQueueIt _ node hmem
    · intro queueType
      dsimp only [setQueue]
      split
      · exact (h.sorted _).filter _
      · exact h.sorted queueType
    · intro j
      dsimp only [setInfo]
      split
      · rename_i heq
        simp [heq]
      · rename_i hne
        exact h.info_iff_of_ne (Option.some_ne_none _).symm fun heq => hne (Option.some.inj heq).symm
    · intro queueType node
      simp only [mem_setQueue, setInfo_eq_some, reduceCtorEq, and_false, false_or]
      split
      · rename_i heq
        subst heq
        rw [List.mem_filter, decide_eq_true_eq, h.mem_iff]
        constructor
        · rintro ⟨⟨info', hinfo', htype, hit⟩, hne⟩
          refine ⟨info', ⟨fun heq => hne ?_, hinfo'⟩, htype, hit⟩
          rw [heq, hinfo] at hinfo'
          rw [Option.some.inj hinfo', hit]
        · rintro ⟨info', ⟨hne, hinfo'⟩, htype, hit⟩
          refine ⟨⟨info', hinfo', htype, hit⟩, fun heq => hne ?_⟩
          have hmem := (h.mem_iff info.queueType node).mpr ⟨info', hinfo', htype, hit⟩
          rw [h.node_eq hmem hnode heq]
      · rename_i hne
        rw [h.mem_iff]
        refine exists_congr fun info' => ?_
        constructor
        · rintro ⟨hinfo', htype, hit⟩
          refine ⟨⟨fun heq => hne ?_, hinfo'⟩, htype, hit⟩
          rw [heq, hinfo] at hinfo'
          rw [Option.some.inj hinfo', htype]
        · rintro ⟨⟨-, hinfo'⟩, hrest⟩
          exact ⟨hinfo', hrest⟩
    · intro stored hstored info' hinfo'
      rcases setInfo_eq_some.mp hinfo' with ⟨-, hnone⟩ | ⟨-, hsome⟩
      · cases hnone
      · exact h.suits stored hstored info' hsome
    · dsimp only
      split
      · exact h.scheduler.cancel _
      · exact h.scheduler
    · intro stored hstored info' hinfo' hfifo
      rcases setInfo_eq_some.mp hinfo' with ⟨-, hnone⟩ | ⟨hne, hsome⟩
      · cases hnone
      · obtain ⟨event, hevent, hid, hcallback, htime⟩ := h.timer stored hstored info' hsome hfifo
        exact ⟨event, mem_cancelled.mpr ⟨hevent, fun hfifo' => h.timer_ne hinfo hfifo' hevent (hcallback ▸ hne)⟩, hid, hcallback,
          htime⟩
    · intro event hevent
      obtain ⟨hmem, hkept⟩ := mem_cancelled.mp hevent
      obtain ⟨info', hinfo', hfifo, hid⟩ := h.owner event hmem
      refine ⟨info', setInfo_eq_some.mpr (Or.inr ⟨fun heq => ?_, hinfo'⟩), hfifo, hid⟩
      rw [heq, hinfo] at hinfo'
      obtain rfl := Option.some.inj hinfo'
      exact hkept hfifo hid

theorem Consistent.info_none (h : Consistent (some i) s) : s.m_entryInfoMap i = none := by
  rw [← Option.not_isSome_iff_eq_none, h.info_iff]
  exact fun hsome => hsome.2 rfl

theorem joinQueue_consistent (h : Consistent (some i) s) {stored : Stored} (hstored : stored ∈ s.m_table) (hit : stored.it = i)
    {queueType : QueueType} (hsuits : Suits s.now stored.entry queueType) {id : Option ℕ} {scheduler : Scheduler ℕ}
    (hscheduler : scheduler.WellFormed) (hold : ∀ event ∈ s.scheduler.m_queue, event ∈ scheduler.m_queue)
    (hnew : ∀ event ∈ scheduler.m_queue, event ∈ s.scheduler.m_queue ∨
      queueType = .fifo ∧ id = some event.id ∧ event.callback = i)
    (htimer : queueType = .fifo → ∃ event ∈ scheduler.m_queue, id = some event.id ∧ event.callback = i ∧
      event.expireTime = stored.entry.m_staleTime) :
    Consistent none { joinQueue s i queueType id with scheduler := scheduler } := by
  have hnone := h.info_none
  have honly : ∀ other ∈ s.m_table, other.it = i → other = stored := fun other hother heq =>
    List.inj_on_of_nodup_map h.nodup hother hstored (heq.trans hit.symm)
  refine ⟨h.clock, h.nodup, h.lt_newIt, ?_, ?_, ?_, ?_, ?_, hscheduler, ?_, ?_⟩
  · intro other node hmem
    rcases (mem_joinQueue id).mp hmem with hold | ⟨-, rfl⟩
    · exact Nat.lt_succ_of_lt (h.lt_newQueueIt other node hold)
    · exact Nat.lt_succ_self _
  · intro other
    simp only [joinQueue, setQueue]
    split
    · refine List.pairwise_append.mpr ⟨h.sorted queueType, List.pairwise_singleton _ _, fun node hnode later hlater => ?_⟩
      rw [List.mem_singleton.mp hlater]
      exact h.lt_newQueueIt queueType node hnode
    · exact h.sorted other
  · intro j
    simp only [joinQueue, setInfo]
    split
    · rename_i heq
      subst heq
      exact iff_of_true rfl ⟨hit ▸ List.mem_map_of_mem hstored, (Option.some_ne_none _).symm⟩
    · rename_i hne
      exact h.info_iff_of_ne (fun heq => hne (Option.some.inj heq).symm) (Option.some_ne_none _).symm
  · intro other node
    have hnot : ∀ queueType, node ∈ s.m_queues queueType → node.it ≠ i := by
      intro queueType hmem heq
      obtain ⟨info, hinfo, -⟩ := (h.mem_iff _ _).mp hmem
      rw [heq, hnone] at hinfo
      cases hinfo
    refine (mem_joinQueue id).trans ?_
    simp only [joinQueue, setInfo_eq_some]
    constructor
    · rintro (hmem | ⟨rfl, rfl⟩)
      · obtain ⟨info, hinfo, hrest⟩ := (h.mem_iff _ _).mp hmem
        exact ⟨info, Or.inr ⟨hnot other hmem, hinfo⟩, hrest⟩
      · exact ⟨⟨other, s.newQueueIt, id⟩, Or.inl ⟨rfl, rfl⟩, rfl, rfl⟩
    · rintro ⟨info, ⟨heq, hinfo⟩ | ⟨-, hinfo⟩, htype, hqueueIt⟩
      · obtain rfl := Option.some.inj hinfo
        dsimp only at hqueueIt
        refine Or.inr ⟨htype.symm, ?_⟩
        rw [← heq, hqueueIt]
      · exact Or.inl ((h.mem_iff other node).mpr ⟨info, hinfo, htype, hqueueIt⟩)
  · intro other hother info hinfo
    rcases setInfo_eq_some.mp hinfo with ⟨heq, hinfo⟩ | ⟨-, hinfo⟩
    · obtain rfl := honly other hother heq
      rw [← Option.some.inj hinfo]
      exact hsuits
    · exact h.suits other hother info hinfo
  · intro other hother info hinfo hfifo
    rcases setInfo_eq_some.mp hinfo with ⟨heq, hinfo⟩ | ⟨-, hinfo⟩
    · obtain rfl := honly other hother heq
      rw [← Option.some.inj hinfo] at hfifo ⊢
      rw [heq]
      exact htimer hfifo
    · obtain ⟨event, hevent, hrest⟩ := h.timer other hother info hinfo hfifo
      exact ⟨event, hold event hevent, hrest⟩
  · intro event hevent
    rcases hnew event hevent with hmem | ⟨hfifo, hid, hcallback⟩
    · obtain ⟨info, hinfo, hrest⟩ := h.owner event hmem
      refine ⟨info, setInfo_eq_some.mpr (Or.inr ⟨fun heq => ?_, hinfo⟩), hrest⟩
      rw [heq, hnone] at hinfo
      cases hinfo
    · exact ⟨⟨queueType, s.newQueueIt, id⟩, setInfo_eq_some.mpr (Or.inl ⟨hcallback, rfl⟩), hfifo, hid⟩

theorem entryOf_eq (h : (s.m_table.map Stored.it).Nodup) {stored : Stored} (hstored : stored ∈ s.m_table) :
    entryOf s stored.it = some stored.entry := by
  unfold entryOf
  cases hfind : s.m_table.find? (fun other => other.it = stored.it) with
  | none => exact absurd (decide_eq_true rfl) (List.find?_eq_none.mp hfind stored hstored)
  | some other =>
    have hit := List.find?_some hfind
    rw [List.inj_on_of_nodup_map h (List.mem_of_find?_eq_some hfind) hstored (of_decide_eq_true hit)]
    rfl

theorem staleTime_eq {now after : ℤ} (hnow : 0 ≤ now ∧ now < 2 ^ 63) (hafter : -2 ^ 63 ≤ after ∧ after < 2 ^ 63)
    (hle : now ≤ (now + after).bmod (2 ^ 64)) : (now + after).bmod (2 ^ 64) = now + after := by
  have hcases := Int.bmod_def (now + after) (2 ^ 64)
  have hsplit : (now + after) % (2 ^ 64 : ℕ) = now + after ∨ (now + after) % (2 ^ 64 : ℕ) = now + after + 2 ^ 64 := by
    omega
  omega

theorem toNanoseconds_bounds (milliseconds : ℤ) : -2 ^ 63 ≤ toNanoseconds milliseconds ∧ toNanoseconds milliseconds < 2 ^ 63 := by
  have hlower := Int.le_bmod (x := milliseconds * 1000000) (m := 2 ^ 64) (by decide)
  have hupper := Int.bmod_lt (x := milliseconds * 1000000) (m := 2 ^ 64) (by decide)
  unfold toNanoseconds
  omega

theorem attachQueue_consistent (h : Consistent (some i) s) {stored : Stored} (hstored : stored ∈ s.m_table) (hit : stored.it = i)
    (htime : stored.entry = stored.entry.updateStaleTime s.now) : Consistent none (attachQueue s i) := by
  subst hit
  have hstale : stored.entry.m_staleTime = (s.now + toNanoseconds stored.entry.m_data.getFreshnessPeriod).bmod (2 ^ 64) := by
    rw [htime]
    rfl
  have hsame : ∀ {queueType}, queueType ≠ QueueType.fifo → Suits s.now stored.entry queueType →
      Consistent none (joinQueue s stored.it queueType none) := fun hne hsuits =>
    joinQueue_consistent h hstored rfl hsuits h.scheduler (fun _ hevent => hevent) (fun _ hevent => Or.inl hevent)
      fun hfifo => absurd hfifo hne
  rw [attachQueue, entryOf_eq h.nodup hstored]
  dsimp only
  unfold queueTypeOf
  split
  · rename_i htype
    split at htype
    · cases htype
    · rename_i hsolicited
      split at htype
      · cases htype
      · rename_i hfresh
        have hle : s.now ≤ stored.entry.m_staleTime := by simpa [Entry.isStale] using hfresh
        have hsuits : Suits s.now stored.entry .fifo := ⟨by simpa using hsolicited, hle⟩
        refine joinQueue_consistent h hstored rfl hsuits (h.scheduler.scheduleEvent _ _ _)
          (fun event hevent => mem_insertEvent.mpr (Or.inr hevent)) ?_ ?_
        · intro event hevent
          rcases mem_insertEvent.mp hevent with rfl | hevent
          · exact Or.inr ⟨rfl, rfl, rfl⟩
          · exact Or.inl hevent
        · intro _
          refine ⟨_, mem_insertEvent.mpr (Or.inl rfl), rfl, rfl, ?_⟩
          rw [hstale] at hle ⊢
          exact (staleTime_eq h.clock (toNanoseconds_bounds _) hle).symm
  · rename_i hne
    refine hsame hne ?_
    split
    · rename_i hunsolicited
      exact hunsolicited
    · rename_i hsolicited
      split
      · rename_i hold
        exact ⟨by simpa using hsolicited, Int.le_of_lt (by simpa [Entry.isStale] using hold)⟩
      · rename_i hfresh
        rw [if_neg hsolicited, if_neg hfresh] at hne
        exact absurd rfl hne

theorem eraseOne_consistent (h : Consistent none s) (i : ℕ) : Consistent none (eraseOne s i) := by
  have hdetached := detachQueue_consistent (i := i) h
  unfold eraseOne
  refine ⟨hdetached.clock, hdetached.nodup.sublist (List.filter_sublist.map _), ?_, hdetached.lt_newQueueIt, hdetached.sorted, ?_,
    hdetached.mem_iff, ?_, hdetached.scheduler, ?_, hdetached.owner⟩
  · intro stored hstored
    exact hdetached.lt_newIt stored (List.mem_filter.mp hstored).1
  · intro j
    rw [hdetached.info_iff j]
    simp only [List.mem_map, List.mem_filter, decide_eq_true_eq]
    constructor
    · rintro ⟨⟨stored, hstored, rfl⟩, hne⟩
      exact ⟨⟨stored, ⟨hstored, fun heq => hne (congrArg some heq.symm)⟩, rfl⟩, (Option.some_ne_none _).symm⟩
    · rintro ⟨⟨stored, ⟨hstored, hne⟩, rfl⟩, -⟩
      exact ⟨⟨stored, hstored, rfl⟩, fun heq => hne (Option.some.inj heq).symm⟩
  · intro stored hstored
    exact hdetached.suits stored (List.mem_filter.mp hstored).1
  · intro stored hstored
    exact hdetached.timer stored (List.mem_filter.mp hstored).1

end Queues

section Eviction

variable {s : Cs}

def QueueType.rank : QueueType → ℕ
  | .unsolicited => 0
  | .stale => 1
  | .fifo => 2

/-- The first queue that is not empty gives up the entry that has joined it first. -/
def EvictsOldest (s : Cs) : Prop :=
  ∃ queueType node, node ∈ s.m_queues queueType ∧ node.it ∈ s.m_table.map Stored.it ∧
    (∀ other : QueueType, other.rank < queueType.rank → s.m_queues other = []) ∧
    (∀ later ∈ s.m_queues queueType, node.queueIt ≤ later.queueIt) ∧
    (evictOne s).m_table = s.m_table.filter (fun stored => stored.it ≠ node.it)

def evictions : ℕ → Cs → List Cs
  | 0, _ => []
  | rounds + 1, s => if s.m_table.length > s.m_limit then s :: evictions rounds (evictOne s) else []

theorem detachQueue_keeps (s : Cs) (i : ℕ) : (detachQueue s i).m_table = s.m_table ∧ (detachQueue s i).now = s.now ∧
    (detachQueue s i).newIt = s.newIt ∧ (detachQueue s i).m_limit = s.m_limit := by
  unfold detachQueue
  split <;> exact ⟨rfl, rfl, rfl, rfl⟩

theorem eraseOne_keeps (s : Cs) (i : ℕ) : (eraseOne s i).m_table = s.m_table.filter (fun stored => stored.it ≠ i) ∧
    (eraseOne s i).m_limit = s.m_limit := by
  obtain ⟨htable, -, -, hlimit⟩ := detachQueue_keeps s i
  unfold eraseOne
  exact ⟨by dsimp only; rw [htable], hlimit⟩

theorem front_spec (h : Consistent none s) (hne : s.m_table ≠ []) : ∃ queueType node, front s = some node ∧
    (s.m_queues queueType).head? = some node ∧ ∀ other : QueueType, other.rank < queueType.rank → s.m_queues other = [] := by
  unfold front
  cases hunsolicited : s.m_queues .unsolicited with
  | cons node queue =>
    refine ⟨.unsolicited, node, rfl, by rw [hunsolicited]; rfl, fun other hlt => ?_⟩
    cases other <;> exact absurd hlt (by decide)
  | nil =>
    cases hstale : s.m_queues .stale with
    | cons node queue =>
      refine ⟨.stale, node, rfl, by rw [hstale]; rfl, fun other hlt => ?_⟩
      cases other with
      | unsolicited => exact hunsolicited
      | stale => exact absurd hlt (by decide)
      | fifo => exact absurd hlt (by decide)
    | nil =>
      cases hfifo : s.m_queues .fifo with
      | cons node queue =>
        refine ⟨.fifo, node, rfl, by rw [hfifo]; rfl, fun other hlt => ?_⟩
        cases other with
        | unsolicited => exact hunsolicited
        | stale => exact hstale
        | fifo => exact absurd hlt (by decide)
      | nil =>
        -- an entry of the table is in some queue
        obtain ⟨stored, table, htable⟩ := List.exists_cons_of_ne_nil hne
        have hsome := (h.info_iff stored.it).mpr ⟨by rw [htable]; exact List.mem_cons_self, (Option.some_ne_none _).symm⟩
        obtain ⟨info, hinfo⟩ := Option.isSome_iff_exists.mp hsome
        have hmem := (h.mem_iff info.queueType ⟨info.queueIt, stored.it⟩).mpr ⟨info, hinfo, rfl, rfl⟩
        have hempty : s.m_queues info.queueType = [] := by
          cases info.queueType with
          | unsolicited => exact hunsolicited
          | stale => exact hstale
          | fifo => exact hfifo
        rw [hempty] at hmem
        exact absurd hmem List.not_mem_nil

theorem evictsOldest (h : Consistent none s) (hne : s.m_table ≠ []) : EvictsOldest s := by
  obtain ⟨queueType, node, hfront, hhead, hbefore⟩ := front_spec h hne
  obtain ⟨queue, hqueue⟩ := List.head?_eq_some_iff.mp hhead
  have hmem : node ∈ s.m_queues queueType := List.mem_of_mem_head? hhead
  obtain ⟨info, hinfo, -⟩ := (h.mem_iff _ _).mp hmem
  refine ⟨queueType, node, hmem, ((h.info_iff node.it).mp (by rw [hinfo]; rfl)).1, hbefore, fun later hlater => ?_, ?_⟩
  · have hsorted := h.sorted queueType
    rw [hqueue] at hsorted hlater
    rcases List.mem_cons.mp hlater with rfl | hlater
    · exact Nat.le_refl _
    · exact Nat.le_of_lt ((List.pairwise_cons.mp hsorted).1 later hlater)
  · rw [evictOne, hfront]
    exact (eraseOne_keeps s node.it).1

theorem evictOne_consistent (h : Consistent none s) : Consistent none (evictOne s) := by
  unfold evictOne
  split
  · exact h
  · exact eraseOne_consistent h _

theorem evictOne_length (h : Consistent none s) (hne : s.m_table ≠ []) : (evictOne s).m_table.length < s.m_table.length := by
  obtain ⟨queueType, node, -, hmem, -, -, htable⟩ := evictsOldest h hne
  obtain ⟨stored, hstored, hit⟩ := List.mem_map.mp hmem
  rw [htable]
  exact List.length_filter_lt_length_iff_exists.mpr ⟨stored, hstored, by simp [hit]⟩

theorem evictLoop_spec (h : Consistent none s) (rounds : ℕ) (hrounds : s.m_table.length ≤ rounds) :
    Consistent none (evictLoop rounds s) ∧ (evictLoop rounds s).m_table.length ≤ (evictLoop rounds s).m_limit ∧
      ∀ state ∈ evictions rounds s, EvictsOldest state := by
  induction rounds generalizing s with
  | zero => exact ⟨h, Nat.le_trans hrounds (Nat.zero_le _), fun _ hstate => absurd hstate List.not_mem_nil⟩
  | succ rounds ih =>
    rw [evictLoop, evictions]
    by_cases hfull : s.m_table.length > s.m_limit
    · rw [if_pos hfull, if_pos hfull]
      have hne : s.m_table ≠ [] := List.ne_nil_of_length_pos (Nat.zero_lt_of_lt hfull)
      have hlength := evictOne_length h hne
      obtain ⟨hconsistent, hle, holdest⟩ := ih (evictOne_consistent h) (by omega)
      refine ⟨hconsistent, hle, fun state hstate => ?_⟩
      rcases List.mem_cons.mp hstate with rfl | hstate
      · exact evictsOldest h hne
      · exact holdest state hstate
    · rw [if_neg hfull, if_neg hfull]
      exact ⟨h, Nat.le_of_not_lt hfull, fun _ hstate => absurd hstate List.not_mem_nil⟩

end Eviction

section Operations

variable {computeDigest : Data → Vector UInt8 32} {s s' : Cs} {i : ℕ} {stored : Stored} {data : Data} {isUnsolicited : Bool}

theorem emplace_cases (computeDigest : Data → Vector UInt8 32) (table : List Stored) (new : Stored) :
    (∃ position ≤ table.length, emplace computeDigest table new = (table.insertIdx position new, new.it, true)) ∨
      ∃ stored ∈ table, emplace computeDigest table new = (table, stored.it, false) := by
  have hposition : lowerBound computeDigest table (.stored new.entry.m_data) ≤ table.length :=
    (List.takeWhile_prefix _).length_le
  unfold emplace
  dsimp only
  split
  · rename_i stored hstored
    split
    · exact Or.inl ⟨_, hposition, rfl⟩
    · exact Or.inr ⟨stored, List.mem_of_getElem? hstored, rfl⟩
  · exact Or.inl ⟨_, hposition, rfl⟩

theorem insertIdx_consistent (h : Consistent none s) {position : ℕ} (hposition : position ≤ s.m_table.length) (entry : Entry) :
    Consistent (some s.newIt) { s with
      m_table := s.m_table.insertIdx position ⟨s.newIt, entry⟩
      newIt := s.newIt + 1 } := by
  have hperm := List.perm_insertIdx (⟨s.newIt, entry⟩ : Stored) s.m_table hposition
  have hnot : s.newIt ∉ s.m_table.map Stored.it := by
    intro hmem
    obtain ⟨other, hother, heq⟩ := List.mem_map.mp hmem
    exact absurd heq (Nat.ne_of_lt (h.lt_newIt other hother))
  have hnone : s.m_entryInfoMap s.newIt = none := by
    rw [← Option.not_isSome_iff_eq_none, h.info_iff]
    exact fun hsome => hnot hsome.1
  have hmem : ∀ {other}, other ∈ s.m_table.insertIdx position ⟨s.newIt, entry⟩ ↔ other = ⟨s.newIt, entry⟩ ∨ other ∈ s.m_table :=
    fun {other} => hperm.mem_iff.trans List.mem_cons
  have hold : ∀ other ∈ s.m_table.insertIdx position ⟨s.newIt, entry⟩, ∀ info, s.m_entryInfoMap other.it = some info →
      other ∈ s.m_table := by
    intro other hother info hinfo
    rcases hmem.mp hother with rfl | hother
    · rw [hnone] at hinfo
      cases hinfo
    · exact hother
  refine ⟨h.clock, ?_, ?_, h.lt_newQueueIt, h.sorted, ?_, h.mem_iff, ?_, h.scheduler, ?_, h.owner⟩
  · exact ((hperm.map Stored.it).nodup_iff).mpr (List.nodup_cons.mpr ⟨hnot, h.nodup⟩)
  · intro other hother
    rcases hmem.mp hother with rfl | hother
    · exact Nat.lt_succ_self _
    · exact Nat.lt_succ_of_lt (h.lt_newIt other hother)
  · intro j
    rw [h.info_iff j, (hperm.map Stored.it).mem_iff, List.map_cons, List.mem_cons]
    constructor
    · rintro ⟨hin, -⟩
      exact ⟨Or.inr hin, fun heq => hnot (Option.some.inj heq ▸ hin)⟩
    · rintro ⟨heq | hin, hne⟩
      · exact absurd (congrArg some heq.symm) hne
      · exact ⟨hin, (Option.some_ne_none _).symm⟩
  · intro other hother info hinfo
    exact h.suits other (hold other hother info hinfo) info hinfo
  · intro other hother info hinfo
    exact h.timer other (hold other hother info hinfo) info hinfo

theorem modifyEntry_consistent (h : Consistent (some i) s) (f : Entry → Entry) : Consistent (some i) (modifyEntry s i f) := by
  have hits : (modifyEntry s i f).m_table.map Stored.it = s.m_table.map Stored.it := by
    rw [modifyEntry, List.map_map]
    refine List.map_congr_left fun stored _ => ?_
    rw [Function.comp_apply]
    split <;> rfl
  have hmem : ∀ stored ∈ (modifyEntry s i f).m_table, ∃ old ∈ s.m_table, stored.it = old.it ∧ (old.it ≠ i → stored = old) := by
    intro stored hstored
    obtain ⟨old, hold, rfl⟩ := List.mem_map.mp hstored
    refine ⟨old, hold, by split <;> rfl, fun hne => if_neg hne⟩
  have hold : ∀ stored ∈ (modifyEntry s i f).m_table, ∀ info, s.m_entryInfoMap stored.it = some info → stored ∈ s.m_table := by
    intro stored hstored info hinfo
    obtain ⟨old, hold, hit, heq⟩ := hmem stored hstored
    rw [heq]
    · exact hold
    · rintro rfl
      rw [hit, h.info_none] at hinfo
      cases hinfo
  refine ⟨h.clock, by rw [hits]; exact h.nodup, ?_, h.lt_newQueueIt, h.sorted, fun j => by rw [hits]; exact h.info_iff j, h.mem_iff,
    ?_, h.scheduler, ?_, h.owner⟩
  · intro stored hstored
    obtain ⟨old, hold, hit, -⟩ := hmem stored hstored
    rw [hit]
    exact h.lt_newIt old hold
  · intro stored hstored info hinfo
    exact h.suits stored (hold stored hstored info hinfo) info hinfo
  · intro stored hstored info hinfo
    exact h.timer stored (hold stored hstored info hinfo) info hinfo

theorem detachQueue_modifyEntry (s : Cs) (i : ℕ) (f : Entry → Entry) :
    detachQueue (modifyEntry s i f) i = modifyEntry (detachQueue s i) i f := by
  unfold detachQueue
  have hinfo : (modifyEntry s i f).m_entryInfoMap i = s.m_entryInfoMap i := rfl
  rw [hinfo]
  cases s.m_entryInfoMap i <;> rfl

theorem refresh_updated (s : Cs) (isUnsolicited : Bool) (entry : Entry) :
    refresh s isUnsolicited entry = (refresh s isUnsolicited entry).updateStaleTime s.now := by
  unfold refresh
  dsimp only
  split <;> rfl

theorem attachQueue_keeps (s : Cs) (i : ℕ) : (attachQueue s i).m_table = s.m_table ∧ (attachQueue s i).m_limit = s.m_limit := by
  unfold attachQueue
  split
  · exact ⟨rfl, rfl⟩
  · split <;> exact ⟨rfl, rfl⟩

theorem inserted_spec (computeDigest : Data → Vector UInt8 32) (data : Data) (isUnsolicited : Bool)
    (h : Consistent none s) : Consistent none (inserted computeDigest s data isUnsolicited).1 ∧
    (inserted computeDigest s data isUnsolicited).1.m_limit = s.m_limit ∧
    ((inserted computeDigest s data isUnsolicited).2 = false →
      (inserted computeDigest s data isUnsolicited).1.m_table.length = s.m_table.length) := by
  unfold inserted
  rcases emplace_cases computeDigest s.m_table ⟨s.newIt, Entry.setData s.now data isUnsolicited⟩ with
    ⟨position, hposition, heq⟩ | ⟨stored, hstored, heq⟩
  · rw [heq]
    simp only [if_true]
    have hgrown := insertIdx_consistent h hposition (Entry.setData s.now data isUnsolicited)
    have hmem : (⟨s.newIt, Entry.setData s.now data isUnsolicited⟩ : Stored) ∈
        s.m_table.insertIdx position ⟨s.newIt, Entry.setData s.now data isUnsolicited⟩ :=
      (List.mem_insertIdx hposition).mpr (Or.inl rfl)
    exact ⟨attachQueue_consistent hgrown hmem rfl rfl, (attachQueue_keeps _ _).2, fun hfalse => absurd hfalse.symm Bool.false_ne_true⟩
  · rw [heq]
    simp only [Bool.false_eq_true, if_false]
    rw [afterRefresh, detachQueue_modifyEntry]
    have hdetached := modifyEntry_consistent (detachQueue_consistent (i := stored.it) h) (refresh s isUnsolicited)
    obtain ⟨htable, hnow, -, hlimit⟩ := detachQueue_keeps s stored.it
    have hmem : (⟨stored.it, refresh s isUnsolicited stored.entry⟩ : Stored) ∈
        (modifyEntry (detachQueue s stored.it) stored.it (refresh s isUnsolicited)).m_table := by
      rw [modifyEntry, htable]
      exact List.mem_map.mpr ⟨stored, hstored, if_pos rfl⟩
    refine ⟨attachQueue_consistent hdetached hmem rfl ?_, (attachQueue_keeps _ _).2.trans hlimit, fun _ => ?_⟩
    · have hclock : (modifyEntry (detachQueue s stored.it) stored.it (refresh s isUnsolicited)).now = s.now := hnow
      rw [hclock]
      exact refresh_updated s isUnsolicited stored.entry
    · rw [(attachQueue_keeps _ _).1, modifyEntry, List.length_map, htable]

theorem erase_spec (h : Consistent none s) (hle : s.m_table.length ≤ s.m_limit) (erased : List ℕ) :
    Consistent none (erased.foldl eraseOne s) ∧
      (erased.foldl eraseOne s).m_table.length ≤ (erased.foldl eraseOne s).m_limit := by
  induction erased generalizing s with
  | nil => exact ⟨h, hle⟩
  | cons i erased ih =>
    obtain ⟨htable, hlimit⟩ := eraseOne_keeps s i
    refine ih (eraseOne_consistent h i) ?_
    rw [htable, hlimit]
    exact Nat.le_trans (List.length_filter_le _ _) hle

theorem moveToStaleQueue_consistent (h : Consistent none s) {event : EventInfo ℕ} {scheduler : Scheduler ℕ}
    (hpop : s.scheduler.popExpired s.now = some (event, scheduler)) :
    Consistent none (moveToStaleQueue { s with scheduler := scheduler } event.callback) ∧
      (moveToStaleQueue { s with scheduler := scheduler } event.callback).m_table = s.m_table ∧
      (moveToStaleQueue { s with scheduler := scheduler } event.callback).m_limit = s.m_limit := by
  obtain ⟨hqueue, hnext, hexpired⟩ := Scheduler.popExpired_eq hpop
  obtain ⟨info, hinfo, hfifo, hid⟩ := h.owner event (by rw [hqueue]; exact List.mem_cons_self)
  obtain ⟨hmem, -⟩ := (h.info_iff event.callback).mp (by rw [hinfo]; rfl)
  obtain ⟨stored, hstored, hit⟩ := List.mem_map.mp hmem
  obtain ⟨own, hown, hid', hcallback, htime⟩ := h.timer stored hstored info (hit ▸ hinfo) hfifo
  have heq : own = event := h.scheduler.eq_of_id hown (by rw [hqueue]; exact List.mem_cons_self)
    (Option.some.inj (hid'.symm.trans hid))
  -- to cancel the event would have removed it as its execution does
  have hcancel : s.scheduler.cancel info.moveStaleEventId = scheduler := by
    have hnodup := h.scheduler.nodup
    rw [hqueue, List.map_cons, List.nodup_cons] at hnodup
    obtain ⟨queue, nextId⟩ := scheduler
    simp only [Scheduler.cancel, hid, hqueue, Scheduler.mk.injEq]
    refine ⟨?_, hnext.symm⟩
    rw [List.filter_cons_of_neg (by simp), List.filter_eq_self]
    intro other hother
    exact decide_eq_true fun heq => hnodup.1 (Option.some.inj heq ▸ List.mem_map_of_mem hother)
  have hmoved : moveToStaleQueue { s with scheduler := scheduler } event.callback =
      joinQueue (detachQueue s event.callback) event.callback .stale info.moveStaleEventId := by
    unfold moveToStaleQueue detachQueue
    simp only [hinfo, hfifo, if_true, hcancel]
    unfold joinQueue setQueue setInfo
    simp only [Cs.mk.injEq, true_and, and_true]
    funext other
    split <;> rfl
  have hdetached := detachQueue_consistent (i := event.callback) h
  obtain ⟨htable, hnow, -, hlimit⟩ := detachQueue_keeps s event.callback
  rw [hmoved]
  have hsuits : Suits (detachQueue s event.callback).now stored.entry .stale := by
    have hsolicited := h.suits stored hstored info (hit ▸ hinfo)
    rw [hfifo] at hsolicited
    rw [hnow]
    exact ⟨hsolicited.1, by rw [← htime, heq]; exact hexpired⟩
  exact ⟨joinQueue_consistent hdetached (by rw [htable]; exact hstored) hit hsuits hdetached.scheduler (fun _ hevent => hevent)
    (fun _ hevent => Or.inl hevent) (fun hne => absurd hne (by decide)), htable, hlimit⟩

theorem elapse_consistent (h : Consistent none s) {duration : ℕ} (hclock : s.now + duration < 2 ^ 63)
    (hdue : ∀ info ∈ s.scheduler.m_queue, s.now + duration ≤ info.expireTime) :
    Consistent none { s with now := s.now + duration } := by
  refine ⟨⟨Int.add_nonneg h.clock.1 (Int.natCast_nonneg duration), hclock⟩, h.nodup, h.lt_newIt, h.lt_newQueueIt,
    h.sorted, h.info_iff, h.mem_iff, ?_, h.scheduler, h.timer, h.owner⟩
  intro stored hstored info hinfo
  have hsuits := h.suits stored hstored info hinfo
  cases htype : info.queueType with
  | unsolicited =>
    rw [htype] at hsuits
    exact hsuits
  | stale =>
    rw [htype] at hsuits
    exact ⟨hsuits.1, Int.le_trans hsuits.2 (by dsimp only; omega)⟩
  | fifo =>
    rw [htype] at hsuits
    obtain ⟨event, hevent, -, -, htime⟩ := h.timer stored hstored info hinfo htype
    exact ⟨hsuits.1, htime ▸ hdue event hevent⟩

end Operations

section Runs

variable (computeDigest : Data → Vector UInt8 32) {s s' : Cs}

def evictionsOf (s : Cs) : Op → List Cs
  | .insert data isUnsolicited cachePolicyTag =>
    if admits s data cachePolicyTag then
      let (s, isNewEntry) := inserted computeDigest s data isUnsolicited
      if isNewEntry then evictions s.m_table.length s else []
    else []
  | .setLimit nMaxEntries => evictions s.m_table.length { s with m_limit := nMaxEntries }
  | _ => []

variable {computeDigest}

theorem step_spec (h : Consistent none s) (hle : s.m_table.length ≤ s.m_limit) (op : Op) :
    (Allowed s op → ∀ s', step computeDigest s op = some s' → Consistent none s' ∧ s'.m_table.length ≤ s'.m_limit) ∧
      ∀ state ∈ evictionsOf computeDigest s op, EvictsOldest state := by
  have hnone : ∀ state ∈ ([] : List Cs), EvictsOldest state := fun _ hstate => absurd hstate List.not_mem_nil
  cases op with
  | insert data isUnsolicited cachePolicyTag =>
    simp only [step, insert, evictionsOf, Option.some.injEq]
    split
    · obtain ⟨hinserted, hlimit, hlength⟩ := inserted_spec computeDigest data isUnsolicited h
      split
      · obtain ⟨hevicted, hsmall, holdest⟩ := evictLoop_spec hinserted _ (Nat.le_refl _)
        refine ⟨?_, holdest⟩
        rintro - s' rfl
        exact ⟨hevicted, hsmall⟩
      · rename_i hold
        refine ⟨?_, hnone⟩
        rintro - s' rfl
        refine ⟨hinserted, ?_⟩
        rw [hlength (Bool.eq_false_iff.mpr hold), hlimit]
        exact hle
    · refine ⟨?_, hnone⟩
      rintro - s' rfl
      exact ⟨h, hle⟩
  | find name selectors =>
    refine ⟨?_, hnone⟩
    rintro - s' ⟨rfl⟩
    exact ⟨h, hle⟩
  | erase namePrefix limit =>
    refine ⟨?_, hnone⟩
    rintro - s' ⟨rfl⟩
    exact erase_spec h hle _
  | setLimit nMaxEntries =>
    have hlimited : Consistent none { s with m_limit := nMaxEntries } :=
      ⟨h.clock, h.nodup, h.lt_newIt, h.lt_newQueueIt, h.sorted, h.info_iff, h.mem_iff, h.suits, h.scheduler, h.timer, h.owner⟩
    obtain ⟨hevicted, hsmall, holdest⟩ := evictLoop_spec hlimited s.m_table.length (Nat.le_refl _)
    refine ⟨?_, holdest⟩
    rintro - s' ⟨rfl⟩
    exact ⟨hevicted, hsmall⟩
  | enableAdmit shouldAdmit =>
    refine ⟨?_, hnone⟩
    rintro - s' ⟨rfl⟩
    exact ⟨⟨h.clock, h.nodup, h.lt_newIt, h.lt_newQueueIt, h.sorted, h.info_iff, h.mem_iff, h.suits, h.scheduler, h.timer, h.owner⟩,
      hle⟩
  | enableServe shouldServe =>
    refine ⟨?_, hnone⟩
    rintro - s' ⟨rfl⟩
    exact ⟨⟨h.clock, h.nodup, h.lt_newIt, h.lt_newQueueIt, h.sorted, h.info_iff, h.mem_iff, h.suits, h.scheduler, h.timer, h.owner⟩,
      hle⟩
  | elapse duration =>
    refine ⟨?_, hnone⟩
    rintro ⟨hclock, hdue⟩ s' ⟨rfl⟩
    exact ⟨elapse_consistent h hclock hdue, hle⟩
  | expire =>
    refine ⟨?_, hnone⟩
    rintro - s' hstep
    obtain ⟨⟨event, scheduler⟩, hpop, rfl⟩ := Option.map_eq_some_iff.mp hstep
    obtain ⟨hmoved, htable, hlimit⟩ := moveToStaleQueue_consistent h hpop
    refine ⟨hmoved, ?_⟩
    dsimp only
    rw [htable, hlimit]
    exact hle

theorem run_consistent {nMaxPackets : ℕ} (hrun : Run (step computeDigest) Allowed (initial nMaxPackets) s) :
    Consistent none s ∧ s.m_table.length ≤ s.m_limit :=
  hrun.invariant (P := fun s => Consistent none s ∧ s.m_table.length ≤ s.m_limit)
    (fun _ op _ h hok hstep => (step_spec h.1 h.2 op).1 hok _ hstep) ⟨consistent_initial nMaxPackets, Nat.zero_le _⟩

theorem Consistent.count_eq (h : Consistent none s) {info : EntryInfo} {i : ℕ} (hinfo : s.m_entryInfoMap i = some info) :
    (s.m_queues info.queueType).countP (fun node => node.it = i) = 1 := by
  have hmem : ⟨info.queueIt, i⟩ ∈ s.m_queues info.queueType := (h.mem_iff _ _).mpr ⟨info, hinfo, rfl, rfl⟩
  have honly : ∀ node ∈ s.m_queues info.queueType, node.it = i ↔ node = ⟨info.queueIt, i⟩ := by
    intro node hnode
    constructor
    · intro hit
      obtain ⟨info', hinfo', -, hqueueIt⟩ := (h.mem_iff _ _).mp hnode
      rw [hit, hinfo] at hinfo'
      exact h.node_eq hnode hmem (by rw [← hqueueIt, Option.some.inj hinfo'])
    · rintro rfl
      rfl
  have hnodup : (s.m_queues info.queueType).Nodup :=
    (h.sorted info.queueType).imp fun hlt heq => absurd (congrArg QueueNode.queueIt heq) (Nat.ne_of_lt hlt)
  calc (s.m_queues info.queueType).countP (fun node => node.it = i)
      = (s.m_queues info.queueType).count ⟨info.queueIt, i⟩ := List.countP_congr fun node hnode => by
        rw [decide_eq_true_eq, beq_iff_eq]
        exact honly node hnode
    _ = 1 := List.count_eq_one_of_mem hnodup hmem

theorem priorityFifo_queues {nMaxPackets : ℕ} (hrun : Run (step computeDigest) Allowed (initial nMaxPackets) s) :
    s.m_table.length ≤ s.m_limit ∧
      (∀ stored ∈ s.m_table, ∃ queueType, (s.m_queues queueType).countP (fun node => node.it = stored.it) = 1 ∧
        (∀ other, other ≠ queueType → ∀ node ∈ s.m_queues other, node.it ≠ stored.it) ∧ Suits s.now stored.entry queueType) ∧
      (∀ queueType, ∀ node ∈ s.m_queues queueType, node.it ∈ s.m_table.map Stored.it) ∧
      ∀ op, ∀ state ∈ evictionsOf computeDigest s op, EvictsOldest state := by
  obtain ⟨h, hle⟩ := run_consistent hrun
  refine ⟨hle, ?_, ?_, fun op => (step_spec h hle op).2⟩
  · intro stored hstored
    have hsome := (h.info_iff stored.it).mpr ⟨List.mem_map_of_mem hstored, (Option.some_ne_none _).symm⟩
    obtain ⟨info, hinfo⟩ := Option.isSome_iff_exists.mp hsome
    refine ⟨info.queueType, h.count_eq hinfo, fun other hne node hnode hit => hne ?_, h.suits stored hstored info hinfo⟩
    obtain ⟨info', hinfo', htype, -⟩ := (h.mem_iff other node).mp hnode
    rw [hit, hinfo] at hinfo'
    rw [← htype, Option.some.inj hinfo']
  · intro queueType node hnode
    obtain ⟨info, hinfo, -⟩ := (h.mem_iff queueType node).mp hnode
    exact ((h.info_iff node.it).mp (by rw [hinfo]; rfl)).1

def zeroDigest : Data → Vector UInt8 32 := fun _ => Vector.replicate 32 0

def aliceData : Data := ⟨[⟨8, [97]⟩], ⟨0, 0, none, []⟩, ⟨21, []⟩, none, none⟩

def withAlice : Cs := insert zeroDigest (initial 1) aliceData false none

def expiredAlice : Cs := (step zeroDigest withAlice .expire).getD withAlice

theorem run_expiredAlice : Run (step zeroDigest) Allowed (initial 1) expiredAlice := by
  have hinsert : step zeroDigest (initial 1) (.insert aliceData false none) = some withAlice := rfl
  have hexpire : step zeroDigest withAlice .expire = some expiredAlice := rfl
  exact (Run.refl.step (by exact trivial) hinsert).step (by exact trivial) hexpire

def bobData : Data := ⟨[⟨8, [98]⟩], ⟨0, 0, none, []⟩, ⟨21, []⟩, none, none⟩

/-- The next Data takes the place of the one that is stale. -/
theorem priorityFifo_queues_alice : ∃ state, evictionsOf zeroDigest expiredAlice (.insert bobData false none) = [state] ∧
    EvictsOldest state ∧ state.m_table.length = 2 ∧ (evictOne state).m_table.map (fun stored => stored.entry.m_data) = [bobData] := by
  refine ⟨_, rfl, ?_, rfl, rfl⟩
  exact (priorityFifo_queues run_expiredAlice).2.2.2 (.insert bobData false none) _ List.mem_cons_self

/-- The timer runs at the stale time, when the entry does not count as stale yet. -/
theorem not_queueTypeOf_alice : ¬ ∀ s, Run (step zeroDigest) Allowed (initial 1) s → ∀ queueType, ∀ node ∈ s.m_queues queueType,
    ∀ stored ∈ s.m_table, stored.it = node.it → queueType = queueTypeOf s stored.entry := by
  intro hall
  have heq := hall expiredAlice run_expiredAlice .stale ⟨1, 0⟩ (by decide) ⟨0, ⟨aliceData, false, 0⟩⟩ (by decide) rfl
  exact absurd heq (by decide)

end Runs

end LeoNdn.PriorityFifo
