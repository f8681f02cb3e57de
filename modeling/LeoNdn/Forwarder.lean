import LeoNdn.KiteProtocol

/-!
The pipelines of the forwarder that a Data packet goes through. The name tree,
the Content Store and the strategies are parameters.
-/

namespace LeoNdn.Forwarder

open LeoNdn.Tlv LeoNdn.NdnPacket LeoNdn.KiteProtocol

inductive FaceScope
  | scopeNone
  | scopeNonLocal
  | scopeLocal
  deriving DecidableEq, Repr

inductive LinkType
  | linkTypeNone
  | pointToPoint
  | multiAccess
  | adHoc
  deriving DecidableEq, Repr

/-- A face; 0 is the id of none. -/
structure Face where
  id : ℕ
  scope : FaceScope
  linkType : LinkType
  deriving DecidableEq, Repr

/-- Times are in nanoseconds. -/
structure FaceRecord where
  m_face : Face
  m_lastNonce : ℕ
  m_lastRenewed : ℤ
  m_expiry : ℤ
  deriving DecidableEq, Repr

structure PitEntry where
  m_interest : Interest
  m_inRecords : List FaceRecord
  m_outRecords : List FaceRecord
  isSatisfied : Bool
  dataFreshnessPeriod : ℤ
  expiryTimer : Option ℤ
  deriving DecidableEq, Repr

/-- What the pipelines read and write; a PIT entry is known by its position. -/
structure Tables (κ : Type) where
  nInData : ℕ
  nOutData : ℕ
  m_pit : List PitEntry
  m_cs : κ
  m_deadNonceList : List (Name × ℕ)
  sent : List (Face × Data)

structure Strategy (κ : Type) where
  beforeSatisfyInterest : ℕ → Face → Data → Tables κ → Tables κ
  afterReceiveData : ℕ → Face → Data → Tables κ → Tables κ

/-- What the forwarder is built on. -/
structure Context (κ : Type) where
  now : ℤ
  fromIsoString : List UInt8 → Except Exception ℤ
  findAllDataMatches : List PitEntry → Data → List ℕ
  insertCs : Data → Bool → κ → κ
  cachesUnsolicited : Face → Data → Bool
  findEffectiveStrategy : PitEntry → Strategy κ
  deadNonceListLifetime : ℤ

/-- A call of `slAnnounce` that has been posted, for an in-record of the entry. -/
structure SlAnnounce where
  pitEntry : ℕ
  inFaceId : ℕ
  pa : PrefixAnnouncement
  maxLifetime : ℤ
  deriving DecidableEq, Repr

variable {κ : Type}

def isViolatingLocalhost (face : Face) (data : Data) : Bool :=
  face.scope = .scopeNonLocal && Name.isPrefixOf LOCALHOST data.m_name

def Tables.modifyEntry (i : ℕ) (f : PitEntry → PitEntry) (tables : Tables κ) : Tables κ :=
  { tables with m_pit := tables.m_pit.modify i f }

def deleteRecord (face : Face) (records : List FaceRecord) : List FaceRecord :=
  records.eraseP (fun record => record.m_face = face)

def onOutgoingData (data : Data) (outFace : Face) (tables : Tables κ) : Tables κ :=
  if outFace.id = 0 then tables
  else if isViolatingLocalhost outFace data then tables
  else { tables with sent := tables.sent ++ [(outFace, data)], nOutData := tables.nOutData + 1 }

/-- `setExpiryTimer` with a duration in nanoseconds. -/
def setExpiryTimer (now : ℤ) (i : ℕ) (duration : ℤ) (tables : Tables κ) : Tables κ :=
  tables.modifyEntry i (fun entry => { entry with expiryTimer := some (now + duration) })

def insertDeadNonceList (lifetime : ℤ) (i : ℕ) (upstream : Face) (tables : Tables κ) : Tables κ :=
  match tables.m_pit[i]? with
  | none => tables
  | some entry =>
    if entry.isSatisfied ∧ ¬ (entry.m_interest.m_mustBeFresh ∧ entry.dataFreshnessPeriod * 1000000 < lifetime) then
      tables
    else
      match entry.m_outRecords.find? (fun record => record.m_face = upstream) with
      | none => tables
      | some record =>
        { tables with m_deadNonceList := tables.m_deadNonceList ++ [(entry.m_interest.m_name, record.m_lastNonce)] }

def dispatchToStrategy (ctx : Context κ) (i : ℕ) (trigger : Strategy κ → Tables κ → Tables κ) (tables : Tables κ) :
    Tables κ :=
  match tables.m_pit[i]? with
  | none => tables
  | some entry => trigger (ctx.findEffectiveStrategy entry) tables

section Strategies

def sendData (i : ℕ) (data : Data) (outFace : Face) (tables : Tables κ) : Tables κ :=
  onOutgoingData data outFace
    (tables.modifyEntry i (fun entry => { entry with m_inRecords := deleteRecord outFace entry.m_inRecords }))

/-- The faces of the in-records that have not expired, each once. -/
def pendingDownstreams (now : ℤ) (entry : PitEntry) : List Face :=
  ((entry.m_inRecords.filter (fun record => record.m_expiry > now)).map FaceRecord.m_face).dedup

def isBackToSender (inFace face : Face) : Bool := face.id = inFace.id && face.linkType ≠ .adHoc

def sendDataToAll (now : ℤ) (i : ℕ) (inFace : Face) (data : Data) (tables : Tables κ) : Tables κ :=
  match tables.m_pit[i]? with
  | none => tables
  | some entry =>
    ((pendingDownstreams now entry).filter (fun face => ¬ isBackToSender inFace face)).foldl
      (fun tables face => sendData i data face tables) tables

/-- The hooks of a strategy that overrides none. -/
def Strategy.base (now : ℤ) : Strategy κ where
  beforeSatisfyInterest _ _ _ tables := tables
  afterReceiveData := sendDataToAll now

end Strategies

/-- What satisfies one of several entries. -/
def satisfyEntry (ctx : Context κ) (inFace : Face) (data : Data) (i : ℕ) (tables : Tables κ) : Tables κ :=
  let tables := setExpiryTimer ctx.now i 0 tables
  let tables := dispatchToStrategy ctx i (fun strategy => strategy.beforeSatisfyInterest i inFace data) tables
  let tables := tables.modifyEntry i (fun entry =>
    { entry with isSatisfied := true, dataFreshnessPeriod := data.getFreshnessPeriod })
  let tables := insertDeadNonceList ctx.deadNonceListLifetime i inFace tables
  tables.modifyEntry i (fun entry =>
    { entry with m_inRecords := [], m_outRecords := deleteRecord inFace entry.m_outRecords })

/-- What satisfies the entry when it is the only one. -/
def satisfyOnlyEntry (ctx : Context κ) (inFace : Face) (data : Data) (i : ℕ) (tables : Tables κ) : Tables κ :=
  let tables := setExpiryTimer ctx.now i 0 tables
  let tables := dispatchToStrategy ctx i (fun strategy => strategy.afterReceiveData i inFace data) tables
  let tables := tables.modifyEntry i (fun entry =>
    { entry with isSatisfied := true, dataFreshnessPeriod := data.getFreshnessPeriod })
  let tables := insertDeadNonceList ctx.deadNonceListLifetime i inFace tables
  tables.modifyEntry i (fun entry => { entry with m_outRecords := deleteRecord inFace entry.m_outRecords })

/-- The downstreams of an entry are remembered before it is satisfied. -/
def satisfyEntries (ctx : Context κ) (inFace : Face) (data : Data) :
    List ℕ → List Face → Tables κ → List Face × Tables κ
  | [], pending, tables => (pending, tables)
  | i :: matched, pending, tables =>
    let downstreams :=
      match tables.m_pit[i]? with
      | none => []
      | some entry => pendingDownstreams ctx.now entry
    satisfyEntries ctx inFace data matched (pending ++ downstreams.filter (fun face => face ∉ pending))
      (satisfyEntry ctx inFace data i tables)

/-- `onIncomingData` from the insertion into the Content Store on. -/
def satisfyMatches (ctx : Context κ) (inFace : Face) (data : Data) (pitMatches : List ℕ) (tables : Tables κ) :
    Tables κ :=
  let tables := { tables with m_cs := ctx.insertCs data false tables.m_cs }
  match pitMatches with
  | [i] => satisfyOnlyEntry ctx inFace data i tables
  | _ =>
    let (pending, tables) := satisfyEntries ctx inFace data pitMatches [] tables
    (pending.filter (fun face => ¬ isBackToSender inFace face)).foldl
      (fun tables face => onOutgoingData data face tables) tables

def onDataUnsolicited (ctx : Context κ) (inFace : Face) (data : Data) (tables : Tables κ) : Tables κ :=
  if ctx.cachesUnsolicited inFace data then { tables with m_cs := ctx.insertCs data true tables.m_cs }
  else tables

def isAnnounced (now : ℤ) (record : FaceRecord) : Bool :=
  record.m_face.scope ≠ .scopeLocal && record.m_expiry > now

/-- The calls that `onIncomingKiteAck` posts for one entry. -/
def announceEntry (now : ℤ) (pit : List PitEntry) (ack : Ack) (i : ℕ) : List SlAnnounce :=
  match pit[i]? with
  | none => []
  | some entry =>
    (entry.m_inRecords.filter (isAnnounced now)).map (fun record =>
      ⟨i, record.m_face.id, ack.m_prefixAnn, 300000⟩)

def onIncomingKiteAck (ctx : Context κ) (data : Data) (pitMatches : List ℕ) (tables : Tables κ) :
    Except Exception (List SlAnnounce) := do
  let ack ← Ack.ofData ctx.fromIsoString data
  .ok (pitMatches.flatMap (announceEntry ctx.now tables.m_pit ack))

/-- How a pipeline has ended: what it has thrown, if anything, and the tables
and the posted calls at that point. -/
structure Outcome (κ : Type) where
  thrown : Option Exception
  tables : Tables κ
  posted : List SlAnnounce

def Tables.countData (tables : Tables κ) : Tables κ := { tables with nInData := tables.nInData + 1 }

def onIncomingData (ctx : Context κ) (inFace : Face) (data : Data) (tables : Tables κ) : Outcome κ :=
  let tables := tables.countData
  if isViolatingLocalhost inFace data then ⟨none, tables, []⟩
  else
    match ctx.findAllDataMatches tables.m_pit data with
    | [] => ⟨none, onDataUnsolicited ctx inFace data tables, []⟩
    | i :: matched =>
      if data.getContentType = 6 then
        match onIncomingKiteAck ctx data (i :: matched) tables with
        | .error e => ⟨some e, tables, []⟩
        | .ok posted => ⟨none, satisfyMatches ctx inFace data (i :: matched) tables, posted⟩
      else ⟨none, satisfyMatches ctx inFace data (i :: matched) tables, []⟩

section Branches

variable {ctx : Context κ} {inFace : Face} {data : Data} {tables : Tables κ}

@[simp]
theorem countData_pit : tables.countData.m_pit = tables.m_pit := rfl

@[simp]
theorem countData_cs : tables.countData.m_cs = tables.m_cs := rfl

theorem onIncomingData_violating (hlocal : isViolatingLocalhost inFace data = true) :
    onIncomingData ctx inFace data tables = ⟨none, tables.countData, []⟩ := by
  simp [onIncomingData, hlocal]

theorem onIncomingData_unsolicited (hlocal : isViolatingLocalhost inFace data = false)
    (hnone : ctx.findAllDataMatches tables.m_pit data = []) :
    onIncomingData ctx inFace data tables = ⟨none, onDataUnsolicited ctx inFace data tables.countData, []⟩ := by
  simp [onIncomingData, hlocal, hnone]

theorem onIncomingData_other (hlocal : isViolatingLocalhost inFace data = false)
    (hmatch : ctx.findAllDataMatches tables.m_pit data ≠ []) (htype : data.getContentType ≠ 6) :
    onIncomingData ctx inFace data tables =
      ⟨none, satisfyMatches ctx inFace data (ctx.findAllDataMatches tables.m_pit data) tables.countData, []⟩ := by
  obtain ⟨i, matched, h⟩ := List.exists_cons_of_ne_nil hmatch
  simp [onIncomingData, hlocal, h, htype]

theorem onIncomingData_thrown (hlocal : isViolatingLocalhost inFace data = false)
    (hmatch : ctx.findAllDataMatches tables.m_pit data ≠ []) (htype : data.getContentType = 6) {e : Exception}
    (hack : Ack.ofData ctx.fromIsoString data = .error e) :
    onIncomingData ctx inFace data tables = ⟨some e, tables.countData, []⟩ := by
  obtain ⟨i, matched, h⟩ := List.exists_cons_of_ne_nil hmatch
  simp [onIncomingData, onIncomingKiteAck, hlocal, h, htype, hack, bind, Except.bind]

theorem onIncomingData_acknowledged (hlocal : isViolatingLocalhost inFace data = false)
    (hmatch : ctx.findAllDataMatches tables.m_pit data ≠ []) (htype : data.getContentType = 6) {ack : Ack}
    (hack : Ack.ofData ctx.fromIsoString data = .ok ack) :
    onIncomingData ctx inFace data tables =
      ⟨none, satisfyMatches ctx inFace data (ctx.findAllDataMatches tables.m_pit data) tables.countData,
        (ctx.findAllDataMatches tables.m_pit data).flatMap (announceEntry ctx.now tables.m_pit ack)⟩ := by
  obtain ⟨i, matched, h⟩ := List.exists_cons_of_ne_nil hmatch
  simp [onIncomingData, onIncomingKiteAck, hlocal, h, htype, hack, bind, Except.bind]

end Branches

end LeoNdn.Forwarder
