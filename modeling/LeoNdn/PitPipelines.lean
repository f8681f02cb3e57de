import LeoNdn.Schedulers
import LeoNdn.PendingPull
import LeoNdn.ForwardingHints

/-!
The pipelines of the forwarder and the events of the scheduler, as far as they
touch the PIT entries and their expiry timers. A strategy is any sequence of the
actions that it may take on the entry that it is given.
-/

namespace LeoNdn.PitPipelines

open LeoNdn.Tlv LeoNdn.NdnPacket LeoNdn.KiteProtocol LeoNdn.Schedulers
open LeoNdn.Forwarder (Face FaceRecord isViolatingLocalhost isBackToSender isAnnounced)
open LeoNdn.PendingPull (FaceTable)

/-- The fields of an Interest that the pipelines read; the selectors are any. -/
structure Interest (σ : Type) where
  m_name : Name
  m_selectors : σ
  m_nonce : ℕ
  m_interestLifetime : ℤ
  m_forwardingHint : List Name
  nextHopFaceIdTag : Option ℕ
  deriving DecidableEq, Repr

structure InRecord (σ : Type) extends FaceRecord where
  m_interest : Interest σ
  deriving DecidableEq, Repr

structure OutRecord extends FaceRecord where
  m_incomingNack : Option ℕ
  deriving DecidableEq, Repr

structure PitEntry (σ : Type) where
  m_interest : Interest σ
  m_inRecords : List (InRecord σ)
  m_outRecords : List OutRecord
  isSatisfied : Bool
  dataFreshnessPeriod : ℤ
  expiryTimer : Option ℕ
  deriving DecidableEq, Repr

inductive Packet (σ : Type)
  | interest (interest : Interest σ)
  | data (data : Data)
  | nack (reason : ℕ) (interest : Interest σ)
  deriving DecidableEq, Repr

/-- What an event of the scheduler runs: the end of an entry, which it holds, code
of a strategy, which holds the entry weakly, or that of another part. -/
inductive Callback
  | onInterestFinalize (pitEntry : ℕ)
  | strategy (pitEntryWeak : ℕ)
  | other
  deriving DecidableEq, Repr

inductive Action (σ : Type)
  | sendInterest (outFace : Face) (interest : Interest σ)
  | sendData (data : Data) (outFace : Face)
  | sendNack (outFace : Face) (reason : ℕ)
  | setExpiryTimer (duration : ℤ)
  | schedule (after : ℤ)
  | cancel (id : ℕ)
  deriving DecidableEq, Repr

/-- What the forwarder is built on: the Content Store and the Dead Nonce List
among others. -/
structure Context (σ κ δ : Type) where
  getMustBeFresh : σ → Bool
  matchesData : Interest σ → Data → Bool
  lookup : κ → Interest σ → Option Data
  insertCs : Data → Bool → κ → κ
  cachesUnsolicited : Face → Data → Bool
  hasNonce : δ → Name → ℕ → Bool
  addNonce : Name → ℕ → δ → δ
  deadNonceListLifetime : ℤ
  fromIsoString : List UInt8 → Except Exception ℤ
  m_networkRegionTable : List Name

/-- Every entry that has been made is known by its position; the PIT holds some of
them. An entry that has been finalized is noted. -/
structure State (σ κ δ : Type) where
  now : ℤ
  m_faceTable : FaceTable
  entries : List (PitEntry σ)
  m_pit : List ℕ
  scheduler : Scheduler Callback
  m_cs : κ
  m_deadNonceList : δ
  nSatisfiedInterests : ℕ
  nUnsatisfiedInterests : ℕ
  sent : List (Face × Packet σ)
  finalized : List ℕ

variable {σ κ δ : Type}

def State.initial (m_cs : κ) (m_deadNonceList : δ) : State σ κ δ :=
  ⟨0, ⟨[], FaceTable.FACEID_RESERVED_MAX⟩, [], [], Scheduler.empty, m_cs, m_deadNonceList, 0, 0, [], []⟩

section Records

/-- `FaceRecord::update`; 4 s is the default lifetime. -/
def updateRecord (now : ℤ) (interest : Interest σ) (record : FaceRecord) : FaceRecord :=
  let lifetime := if interest.m_interestLifetime < 0 then 4000 else interest.m_interestLifetime
  { record with m_lastNonce := interest.m_nonce, m_lastRenewed := now, m_expiry := now + lifetime * 1000000 }

/-- The record of a face, which is put at the front where there is none. -/
def insertOrUpdate {α : Type} (hasFace : α → Bool) (update : α → α) (record : α) (records : List α) : List α :=
  match records.findIdx? hasFace with
  | some k => records.modify k update
  | none => update record :: records

def insertOrUpdateInRecord (now : ℤ) (face : Face) (interest : Interest σ) (entry : PitEntry σ) : PitEntry σ :=
  { entry with
    m_inRecords := insertOrUpdate (fun record => record.m_face = face)
      (fun record => ⟨updateRecord now interest record.toFaceRecord, interest⟩)
      ⟨⟨face, 0, 0, 0⟩, interest⟩ entry.m_inRecords }

def insertOrUpdateOutRecord (now : ℤ) (face : Face) (interest : Interest σ) (entry : PitEntry σ) : PitEntry σ :=
  { entry with
    m_outRecords := insertOrUpdate (fun record => record.m_face = face)
      (fun record => { record with toFaceRecord := updateRecord now interest record.toFaceRecord })
      ⟨⟨face, 0, 0, 0⟩, none⟩ entry.m_outRecords }

def deleteInRecord (face : Face) (entry : PitEntry σ) : PitEntry σ :=
  { entry with m_inRecords := entry.m_inRecords.eraseP (fun record => record.m_face = face) }

def deleteOutRecord (face : Face) (entry : PitEntry σ) : PitEntry σ :=
  { entry with m_outRecords := entry.m_outRecords.eraseP (fun record => record.m_face = face) }

def clearInRecords (entry : PitEntry σ) : PitEntry σ := { entry with m_inRecords := [] }

def markSatisfied (data : Data) (entry : PitEntry σ) : PitEntry σ :=
  { entry with isSatisfied := true, dataFreshnessPeriod := data.getFreshnessPeriod }

inductive DuplicateNonce
  | inSame
  | inOther
  | outSame
  | outOther
  deriving DecidableEq, Repr

def findDuplicateNonce (pitEntry : PitEntry σ) (nonce : ℕ) (face : Face) : List DuplicateNonce :=
  (pitEntry.m_inRecords.filter (fun record => record.m_lastNonce = nonce)).map
      (fun record => if record.m_face = face then .inSame else .inOther) ++
    (pitEntry.m_outRecords.filter (fun record => record.m_lastNonce = nonce)).map
      (fun record => if record.m_face = face then .outSame else .outOther)

/-- On a point-to-point face a Nonce that the face itself has sent is no loop. -/
def hasDuplicateNonce (pitEntry : PitEntry σ) (nonce : ℕ) (inFace : Face) : Bool :=
  let dnw := findDuplicateNonce pitEntry nonce inFace
  ! dnw.isEmpty && ! (inFace.linkType = .pointToPoint && dnw.contains .inSame)

def hasPendingOutRecords (now : ℤ) (pitEntry : PitEntry σ) : Bool :=
  pitEntry.m_outRecords.any (fun record => now ≤ record.m_expiry && record.m_incomingNack.isNone)

def canMatch (interest : Interest σ) [DecidableEq σ] (pitEntry : PitEntry σ) : Bool :=
  pitEntry.m_interest.m_name = interest.m_name && pitEntry.m_interest.m_selectors = interest.m_selectors

end Records

section InsertOrUpdate

variable {α : Type} {hasFace : α → Bool} {update : α → α} {record new : α} {records : List α}

theorem insertOrUpdate_eq (hasFace : α → Bool) (update : α → α) (new : α) (records : List α) :
    (records.find? hasFace = none ∧ insertOrUpdate hasFace update new records = update new :: records) ∨
      ∃ before old after, records = before ++ old :: after ∧ records.find? hasFace = some old ∧
        (∀ record ∈ before, hasFace record = false) ∧
        insertOrUpdate hasFace update new records = before ++ update old :: after := by
  cases hfind : records.find? hasFace with
  | none =>
    have hnone : records.findIdx? hasFace = none := by
      rw [List.findIdx?_eq_none_iff]
      simpa using hfind
    exact Or.inl ⟨rfl, by rw [insertOrUpdate, hnone]⟩
  | some old =>
    obtain ⟨hold, before, after, rfl, hbefore⟩ := List.find?_eq_some_iff_append.mp hfind
    have hother : ∀ record ∈ before, hasFace record = false := by simpa using hbefore
    refine Or.inr ⟨before, old, after, rfl, rfl, hother, ?_⟩
    have hindex : (before ++ old :: after).findIdx? hasFace = some before.length := by
      rw [List.findIdx?_append, List.findIdx?_eq_none_iff.mpr hother]
      simp [List.findIdx?_cons, hold]
    rw [insertOrUpdate, hindex]
    dsimp only
    rw [List.modify_eq_take_cons_drop (by simp)]
    simp

theorem mem_insertOrUpdate (h : record ∈ insertOrUpdate hasFace update new records) :
    record ∈ records ∨ record = update ((records.find? hasFace).getD new) := by
  rcases insertOrUpdate_eq hasFace update new records with ⟨hfind, heq⟩ | ⟨before, old, after, rfl, hfind, -, heq⟩
  · rw [heq] at h
    rw [hfind, Option.getD_none, or_comm]
    exact List.mem_cons.mp h
  · rw [heq] at h
    rw [hfind, Option.getD_some]
    simp only [List.mem_append, List.mem_cons] at h ⊢
    tauto

theorem find?_insertOrUpdate (hface : hasFace (update ((records.find? hasFace).getD new)) = true) :
    (insertOrUpdate hasFace update new records).find? hasFace = some (update ((records.find? hasFace).getD new)) := by
  rcases insertOrUpdate_eq hasFace update new records with ⟨hfind, heq⟩ | ⟨before, old, after, rfl, hfind, hother, heq⟩
  · rw [hfind, Option.getD_none] at hface ⊢
    rw [heq, List.find?_cons_of_pos hface]
  · rw [hfind, Option.getD_some] at hface ⊢
    have hbefore : before.find? hasFace = none := by simpa using hother
    rw [heq, List.find?_append, hbefore, Option.none_or, List.find?_cons_of_pos hface]

theorem find?_insertOrUpdate_other {isOther : α → Bool}
    (hother : ∀ record, hasFace record = true → isOther record = false ∧ isOther (update record) = false)
    (hnew : isOther (update new) = false) :
    (insertOrUpdate hasFace update new records).find? isOther = records.find? isOther := by
  rcases insertOrUpdate_eq hasFace update new records with ⟨-, heq⟩ | ⟨before, old, after, rfl, hfind, -, heq⟩
  · rw [heq, List.find?_cons_of_neg (by simp [hnew])]
  · obtain ⟨hold, hupdated⟩ := hother old (List.find?_some hfind)
    simp only [heq, List.find?_append, List.find?_cons, hold, hupdated]

end InsertOrUpdate

namespace State

variable (s : State σ κ δ)

def modifyEntry (i : ℕ) (f : PitEntry σ → PitEntry σ) : State σ κ δ := { s with entries := s.entries.modify i f }

def send (outFace : Face) (packet : Packet σ) : State σ κ δ := { s with sent := s.sent ++ [(outFace, packet)] }

def schedule (after : ℤ) (callback : Callback) : State σ κ δ :=
  { s with scheduler := s.scheduler.scheduleEvent s.now after callback }

def cancel (id : Option ℕ) : State σ κ δ := { s with scheduler := s.scheduler.cancel id }

def timerOf (i : ℕ) : Option ℕ := (s.entries[i]?).bind PitEntry.expiryTimer

/-- `Forwarder::setExpiryTimer` with a duration in milliseconds. -/
def setExpiryTimer (i : ℕ) (duration : ℤ) : State σ κ δ :=
  let s := s.cancel (s.timerOf i)
  (s.schedule (duration * 1000000) (.onInterestFinalize i)).modifyEntry i
    (fun entry => { entry with expiryTimer := some s.scheduler.nextId })

end State

section Pipelines

variable (ctx : Context σ κ δ) (s : State σ κ δ)

/-- The Nonces of the out-records, or of that of an upstream, if they are needed. -/
def insertDeadNonceList (i : ℕ) (upstream : Option Face) : State σ κ δ :=
  match s.entries[i]? with
  | none => s
  | some entry =>
    if entry.isSatisfied ∧ ¬ (ctx.getMustBeFresh entry.m_interest.m_selectors ∧
        entry.dataFreshnessPeriod * 1000000 < ctx.deadNonceListLifetime) then s
    else
      let outRecords : List OutRecord := match upstream with
        | none => entry.m_outRecords
        | some face => (entry.m_outRecords.find? (fun record => record.m_face = face)).toList
      { s with
        m_deadNonceList := outRecords.foldl (fun dnl record => ctx.addNonce entry.m_interest.m_name record.m_lastNonce dnl) s.m_deadNonceList }

/-- The PIT is left without the entry, which is noted as finalized. -/
def onInterestFinalize (i : ℕ) : State σ κ δ :=
  let s := insertDeadNonceList ctx s i none
  let isSatisfied := (s.entries[i]?).any PitEntry.isSatisfied
  let s := { s with
    nSatisfiedInterests := if isSatisfied then s.nSatisfiedInterests + 1 else s.nSatisfiedInterests
    nUnsatisfiedInterests := if isSatisfied then s.nUnsatisfiedInterests else s.nUnsatisfiedInterests + 1 }
  let s := s.cancel (s.timerOf i)
  { s with m_pit := s.m_pit.erase i, finalized := s.finalized ++ [i] }

def onOutgoingInterest (i : ℕ) (outFace : Face) (interest : Interest σ) : State σ κ δ :=
  (s.modifyEntry i (insertOrUpdateOutRecord s.now outFace interest)).send outFace (.interest interest)

def onOutgoingData (data : Data) (outFace : Face) : State σ κ δ :=
  if outFace.id = 0 then s
  else if isViolatingLocalhost outFace data then s
  else s.send outFace (.data data)

def onOutgoingNack (i : ℕ) (outFace : Face) (reason : ℕ) : State σ κ δ :=
  if outFace.id = 0 then s
  else
    match (s.entries[i]?).bind (fun entry => entry.m_inRecords.find? (fun record => record.m_face = outFace)) with
    | none => s
    | some inRecord =>
      if outFace.linkType ≠ .pointToPoint then s
      else (s.modifyEntry i (deleteInRecord outFace)).send outFace (.nack reason inRecord.m_interest)

/-- A strategy cancels the events that it has scheduled itself. -/
def isOwnEvent (id : ℕ) (info : EventInfo Callback) : Bool :=
  info.id = id && (match info.callback with
    | .strategy _ => true
    | _ => false)

def takeAction (i : ℕ) : Action σ → State σ κ δ
  | .sendInterest outFace interest => onOutgoingInterest s i outFace interest
  | .sendData data outFace => onOutgoingData (s.modifyEntry i (deleteInRecord outFace)) data outFace
  | .sendNack outFace reason => onOutgoingNack s i outFace reason
  | .setExpiryTimer duration => s.setExpiryTimer i duration
  | .schedule after => s.schedule after (.strategy i)
  | .cancel id => if s.scheduler.m_queue.any (isOwnEvent id) then s.cancel (some id) else s

def dispatchToStrategy (i : ℕ) : List (Action σ) → State σ κ δ → State σ κ δ
  | [], s => s
  | action :: actions, s => dispatchToStrategy i actions (takeAction s i action)

def onInterestLoop (inFace : Face) (interest : Interest σ) : State σ κ δ :=
  if inFace.linkType ≠ .pointToPoint then s
  else s.send inFace (.nack 100 interest)

def lastExpiryFromNow (i : ℕ) : ℤ :=
  let expiries := ((s.entries[i]?).map (fun entry => entry.m_inRecords.map (fun record => record.m_expiry))).getD []
  Int.tdiv (expiries.max?.getD s.now - s.now) 1000000

def onContentStoreMiss (inFace : Face) (i : ℕ) (interest : Interest σ) (actions : List (Action σ)) : State σ κ δ :=
  let s := s.modifyEntry i (insertOrUpdateInRecord s.now inFace interest)
  let s := s.setExpiryTimer i (lastExpiryFromNow s i)
  match interest.nextHopFaceIdTag with
  | some id =>
    match s.m_faceTable.get id with
    | some nextHopFace => onOutgoingInterest s i nextHopFace interest
    | none => s
  | none => dispatchToStrategy i actions s

def onContentStoreHit (i : ℕ) (data : Data) (actions : List (Action σ)) : State σ κ δ :=
  let s := s.modifyEntry i (markSatisfied data)
  let s := s.setExpiryTimer i 0
  dispatchToStrategy i actions s

def find [DecidableEq σ] (interest : Interest σ) : Option ℕ :=
  s.m_pit.find? (fun i => (s.entries[i]?).any (canMatch interest))

def insert [DecidableEq σ] (interest : Interest σ) : State σ κ δ × ℕ :=
  match find s interest with
  | some i => (s, i)
  | none =>
    ({ s with entries := s.entries ++ [⟨interest, [], [], false, 0, none⟩], m_pit := s.m_pit ++ [s.entries.length] },
      s.entries.length)

def stripForwardingHint (interest : Interest σ) : Interest σ :=
  if interest.m_forwardingHint ≠ [] ∧
      ForwardingHints.isInProducerRegion ctx.m_networkRegionTable interest.m_forwardingHint = true then
    { interest with m_forwardingHint := [] }
  else interest

/-- `onIncomingInterest` from the detection of a duplicate Nonce in the entry on. -/
def onPitEntry (inFace : Face) (i : ℕ) (entry : PitEntry σ) (interest : Interest σ) (actions : List (Action σ)) :
    State σ κ δ :=
  if hasDuplicateNonce entry interest.m_nonce inFace then onInterestLoop s inFace interest
  else if entry.m_inRecords = [] then
    match ctx.lookup s.m_cs interest with
    | some data => onContentStoreHit s i data actions
    | none => onContentStoreMiss s inFace i interest actions
  else onContentStoreMiss s inFace i interest actions

def onIncomingInterest [DecidableEq σ] (inFace : Face) (interest : Interest σ) (actions : List (Action σ)) :
    State σ κ δ :=
  if inFace.scope = .scopeNonLocal ∧ Name.isPrefixOf LOCALHOST interest.m_name = true then s
  else if ctx.hasNonce s.m_deadNonceList interest.m_name interest.m_nonce then onInterestLoop s inFace interest
  else
    let interest := stripForwardingHint ctx interest
    let (s, i) := insert s interest
    match s.entries[i]? with
    | none => s
    | some entry => onPitEntry ctx s inFace i entry interest actions

def satisfyOnlyEntry (inFace : Face) (data : Data) (i : ℕ) (actions : List (Action σ)) : State σ κ δ :=
  let s := s.setExpiryTimer i 0
  let s := dispatchToStrategy i actions s
  let s := s.modifyEntry i (markSatisfied data)
  let s := insertDeadNonceList ctx s i (some inFace)
  s.modifyEntry i (deleteOutRecord inFace)

def satisfyEntry (inFace : Face) (data : Data) (i : ℕ) (actions : List (Action σ)) : State σ κ δ :=
  let s := s.setExpiryTimer i 0
  let s := dispatchToStrategy i actions s
  let s := s.modifyEntry i (markSatisfied data)
  let s := insertDeadNonceList ctx s i (some inFace)
  (s.modifyEntry i clearInRecords).modifyEntry i (deleteOutRecord inFace)

def pendingDownstreams (i : ℕ) : List Face :=
  match s.entries[i]? with
  | none => []
  | some entry =>
    ((entry.m_inRecords.filter (fun record => record.m_expiry > s.now)).map (fun record => record.m_face)).dedup

/-- The downstreams of an entry are remembered before it is satisfied. -/
def satisfyEntries (inFace : Face) (data : Data) (actions : ℕ → List (Action σ)) :
    List ℕ → List Face → State σ κ δ → List Face × State σ κ δ
  | [], pending, s => (pending, s)
  | i :: pitMatches, pending, s =>
    satisfyEntries inFace data actions pitMatches
      (pending ++ (pendingDownstreams s i).filter (fun face => face ∉ pending))
      (satisfyEntry ctx s inFace data i (actions i))

def sendToDownstreams (inFace : Face) (data : Data) : List Face → State σ κ δ → State σ κ δ
  | [], s => s
  | face :: faces, s =>
    sendToDownstreams inFace data faces (if isBackToSender inFace face then s else onOutgoingData s data face)

def postAnnouncements : List (InRecord σ) → State σ κ δ → State σ κ δ
  | [], s => s
  | record :: records, s =>
    postAnnouncements records (if isAnnounced s.now record.toFaceRecord then s.schedule 0 .other else s)

def onIncomingKiteAck : List ℕ → State σ κ δ → State σ κ δ
  | [], s => s
  | i :: pitMatches, s =>
    onIncomingKiteAck pitMatches (postAnnouncements ((s.entries[i]?).elim [] PitEntry.m_inRecords) s)

/-- `onIncomingData` from the insertion into the Content Store on. -/
def satisfyMatches (inFace : Face) (data : Data) (actions : ℕ → List (Action σ)) (pitMatches : List ℕ) : State σ κ δ :=
  let s := { s with m_cs := ctx.insertCs data false s.m_cs }
  match pitMatches with
  | [i] => satisfyOnlyEntry ctx s inFace data i (actions i)
  | _ =>
    let (pending, s) := satisfyEntries ctx inFace data actions pitMatches [] s
    sendToDownstreams inFace data pending s

def findAllDataMatches (data : Data) : List ℕ :=
  s.m_pit.filter (fun i => (s.entries[i]?).any (fun entry => ctx.matchesData entry.m_interest data))

def onDataUnsolicited (inFace : Face) (data : Data) : State σ κ δ :=
  if ctx.cachesUnsolicited inFace data then { s with m_cs := ctx.insertCs data true s.m_cs } else s

/-- An acknowledgment that is not well formed is thrown out of the pipeline. -/
def onIncomingData (inFace : Face) (data : Data) (actions : ℕ → List (Action σ)) : State σ κ δ :=
  if isViolatingLocalhost inFace data then s
  else
    match findAllDataMatches ctx s data with
    | [] => onDataUnsolicited ctx s inFace data
    | i :: pitMatches =>
      if data.getContentType = 6 then
        match Ack.ofData ctx.fromIsoString data with
        | .error _ => s
        | .ok _ => satisfyMatches ctx (onIncomingKiteAck (i :: pitMatches) s) inFace data actions (i :: pitMatches)
      else satisfyMatches ctx s inFace data actions (i :: pitMatches)

def setIncomingNack (face : Face) (reason : ℕ) (entry : PitEntry σ) : PitEntry σ :=
  { entry with m_outRecords := entry.m_outRecords.map (fun record =>
      if record.m_face = face then { record with m_incomingNack := some reason } else record) }

def onIncomingNack [DecidableEq σ] (inFace : Face) (reason : ℕ) (interest : Interest σ) (actions : List (Action σ)) :
    State σ κ δ :=
  if inFace.linkType ≠ .pointToPoint then s
  else
    match find s interest with
    | none => s
    | some i =>
      match (s.entries[i]?).bind (fun entry => entry.m_outRecords.find? (fun record => record.m_face = inFace)) with
      | none => s
      | some outRecord =>
        if interest.m_nonce ≠ outRecord.m_lastNonce then s
        else
          let s := s.modifyEntry i (setIncomingNack inFace reason)
          let s := if (s.entries[i]?).any (hasPendingOutRecords s.now) then s else s.setExpiryTimer i 0
          dispatchToStrategy i actions s

def onNewNextHop : List (ℕ × List (Action σ)) → State σ κ δ → State σ κ δ
  | [], s => s
  | (i, actions) :: affected, s =>
    onNewNextHop affected (if i ∈ s.m_pit then dispatchToStrategy i actions s else s)

def deleteInOutRecords (face : Face) (entry : PitEntry σ) :
    PitEntry σ := deleteOutRecord face (deleteInRecord face entry)

def cleanupOnFaceRemoval (face : Face) : List ℕ → State σ κ δ → State σ κ δ
  | [], s => s
  | i :: pit, s => cleanupOnFaceRemoval face pit (s.modifyEntry i (deleteInOutRecords face))

def holds (i : ℕ) (info : EventInfo Callback) : Bool := info.callback = .onInterestFinalize i

/-- An entry is there as long as the PIT or an event that ends it holds it. -/
def isAlive (i : ℕ) : Bool := i ∈ s.m_pit || s.scheduler.m_queue.any (holds i)

def runCallback (actions : List (Action σ)) : Callback → State σ κ δ
  | .onInterestFinalize i => onInterestFinalize ctx s i
  | .strategy i => if isAlive s i then dispatchToStrategy i actions s else s
  | .other => s

inductive Event (σ κ δ : Type)
  | advance (duration : ℕ)
  | addFace (face : Face)
  | removeFace (id : ℕ)
  | incomingInterest (inFace : Face) (interest : Interest σ) (actions : List (Action σ))
  | incomingData (inFace : Face) (data : Data) (actions : ℕ → List (Action σ))
  | incomingNack (inFace : Face) (reason : ℕ) (interest : Interest σ) (actions : List (Action σ))
  | newNextHop (affected : List (ℕ × List (Action σ)))
  | executeEvent (actions : List (Action σ))
  | scheduleOther (after : ℤ)
  | cancelOther (id : ℕ)
  | changeTables (m_cs : κ) (m_deadNonceList : δ)

end Pipelines

def step [DecidableEq σ] (ctx : Context σ κ δ) (s : State σ κ δ) : Event σ κ δ → Option (State σ κ δ)
  | .advance duration => some { s with now := s.now + duration }
  | .addFace face => some { s with m_faceTable := s.m_faceTable.add face }
  | .removeFace id => (s.m_faceTable.get id).map (fun face =>
      { cleanupOnFaceRemoval face s.m_pit s with m_faceTable := s.m_faceTable.erase id })
  | .incomingInterest inFace interest actions => some (onIncomingInterest ctx s inFace interest actions)
  | .incomingData inFace data actions => some (onIncomingData ctx s inFace data actions)
  | .incomingNack inFace reason interest actions => some (onIncomingNack s inFace reason interest actions)
  | .newNextHop affected => some (onNewNextHop affected s)
  | .executeEvent actions => (s.scheduler.popExpired s.now).map (fun popped =>
      runCallback ctx { s with scheduler := popped.2 } actions popped.1.callback)
  | .scheduleOther after => some (s.schedule after .other)
  | .cancelOther id =>
    if s.scheduler.m_queue.any (fun info => info.id = id && info.callback = .other) then some (s.cancel (some id))
    else none
  | .changeTables m_cs m_deadNonceList => some { s with m_cs := m_cs, m_deadNonceList := m_deadNonceList }

end LeoNdn.PitPipelines
