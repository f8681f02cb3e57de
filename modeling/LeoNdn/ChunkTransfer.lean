import LeoNdn.TimestampReplies
import LeoNdn.InOrderDelivery

/-!
The transfer of a file as numbered segments: the producer that cuts it up, the
pipeline of a fixed size that fetches the segments, each with retries, and the
consumer that writes them in order.
-/

namespace LeoNdn.ChunkTransfer

open LeoNdn.Tlv LeoNdn.NdnPacket LeoNdn.OrderedMaps LeoNdn.InOrderDelivery
open LeoNdn.KiteAcknowledgment (fromNumberWithMarker)
open LeoNdn.TimestampReplies (toNumberWithMarker)

def fromSegment (segmentNo : ℕ) : Component := fromNumberWithMarker 0x00 segmentNo

def toSegment (component : Component) : Except Exception ℕ := toNumberWithMarker 0x00 component

section Producer

/-- `main` refuses a size below one. -/
abbrev SegmentSize := {size : ℕ // 0 < size}

/-- The reads of `populateStore`: the stream is good as long as the buffer has been filled. -/
def readSegments (maxSegmentSize : SegmentSize) (is : List UInt8) : List (List UInt8) :=
  if _h : maxSegmentSize.val ≤ is.length then
    is.take maxSegmentSize.val :: readSegments maxSegmentSize (is.drop maxSegmentSize.val)
  else if is = [] then []
  else [is]
termination_by is.length
decreasing_by
  rw [List.length_drop]
  exact Nat.sub_lt (maxSegmentSize.property.trans_le _h) maxSegmentSize.property

def makeSegment (versionedPrefix : Name) (freshnessPeriod : ℤ) (segmentNo : ℕ) (content : List UInt8) : Data :=
  ⟨versionedPrefix ++ [fromSegment segmentNo], ⟨0, freshnessPeriod, none, []⟩, ⟨21, content⟩, none, none⟩

def setFinalBlock (finalBlockId : Component) (data : Data) : Data :=
  { data with m_metaInfo := { data.m_metaInfo with m_finalBlockId := some finalBlockId } }

def sign (keyChain : Data → SignatureInfo × Block) (data : Data) : Data :=
  { data with m_info := some (keyChain data).1, m_value := some (keyChain data).2 }

def populateStore (keyChain : Data → SignatureInfo × Block) (versionedPrefix : Name) (freshnessPeriod : ℤ)
    (maxSegmentSize : SegmentSize) (is : List UInt8) : List Data :=
  let m_store := (readSegments maxSegmentSize is).mapIdx (makeSegment versionedPrefix freshnessPeriod)
  let m_store := if m_store = [] then [makeSegment versionedPrefix freshnessPeriod 0 []] else m_store
  m_store.map (fun data => sign keyChain (setFinalBlock (fromSegment (m_store.length - 1)) data))

/-- The Data that an Interest is answered with, or a Nack. -/
def processSegmentInterest (matchesData : Name → Data → Bool) (m_versionedPrefix : Name) (m_store : List Data)
    (name : Name) : Option Data :=
  if name.length = m_versionedPrefix.length + 1 ∧ name.getLast?.any Component.isSegment then
    match name.getLast?.map toSegment with
    | some (.ok segmentNo) => m_store[segmentNo]?
    | _ => none
  else
    match m_store[0]? with
    | some first => if matchesData name first then some first else none
    | none => none

end Producer

section Fetcher

structure DataFetcher where
  m_nNacks : ℕ
  m_nTimeouts : ℕ
  m_nCongestionRetries : ℕ
  m_isStopped : Bool
  m_hasError : Bool
  deriving DecidableEq, Repr

def DataFetcher.fetch : DataFetcher := ⟨0, 0, 0, false, false⟩

def DataFetcher.isRunning (fetcher : DataFetcher) : Bool := ! fetcher.m_isStopped && ! fetcher.m_hasError

def DataFetcher.cancel (fetcher : DataFetcher) : DataFetcher :=
  if fetcher.isRunning then { fetcher with m_isStopped := true } else fetcher

inductive Failure
  | couldNotRetrieve (reason : ℕ)
  | maxNackRetries
  | maxTimeoutRetries
  | failureRetrieving (segmentNo : ℕ)
  | noFinalSegment
  deriving DecidableEq, Repr

/-- A number of retries of -1 is no limit. -/
def exceeds (count : ℕ) (maxRetries : ℤ) : Bool := maxRetries < count && maxRetries ≠ -1

def DataFetcher.expressInterest (fetcher : DataFetcher) : DataFetcher := { fetcher with m_nCongestionRetries := 0 }

def DataFetcher.countNack (maxRetries : ℤ) (fetcher : DataFetcher) : DataFetcher :=
  if maxRetries ≠ -1 then { fetcher with m_nNacks := fetcher.m_nNacks + 1 } else fetcher

def DataFetcher.countTimeout (maxRetries : ℤ) (fetcher : DataFetcher) : DataFetcher :=
  if maxRetries ≠ -1 then { fetcher with m_nTimeouts := fetcher.m_nTimeouts + 1 } else fetcher

/-- The Interest is expressed again, at once or after a time that doubles up to 10 s,
or the fetcher fails. -/
def DataFetcher.handleNack (maxRetries : ℤ) (reason : ℕ) (fetcher : DataFetcher) : DataFetcher × Option Failure :=
  let fetcher := fetcher.countNack maxRetries
  if exceeds fetcher.m_nNacks maxRetries then ({ fetcher with m_hasError := true }, some .maxNackRetries)
  else if reason = 100 then (fetcher.expressInterest, none)
  else if reason = 50 then
    if 2 ^ fetcher.m_nCongestionRetries > 10000 then (fetcher, none)
    else ({ fetcher with m_nCongestionRetries := fetcher.m_nCongestionRetries + 1 }, none)
  else ({ fetcher with m_hasError := true }, some (.couldNotRetrieve reason))

def DataFetcher.handleTimeout (maxRetries : ℤ) (fetcher : DataFetcher) : DataFetcher × Option Failure :=
  let fetcher := fetcher.countTimeout maxRetries
  if exceeds fetcher.m_nTimeouts maxRetries then ({ fetcher with m_hasError := true }, some .maxTimeoutRetries)
  else (fetcher.expressInterest, none)

end Fetcher

/-- The pipeline and the consumer; a fetcher stands with the number of its segment. -/
structure Transfer where
  m_hasFinalBlockId : Bool
  m_lastSegmentNo : ℕ
  m_nReceived : ℕ
  m_nextSegmentNo : ℕ
  m_isStopping : Bool
  m_hasFailure : Bool
  m_segmentFetchers : List (Option (DataFetcher × ℕ))
  m_bufferedData : OrderedMap Data
  m_nextToPrint : ℕ
  m_outputStream : List UInt8
  posted : List Failure
  deriving DecidableEq, Repr

/-- What leaves the event loop of the consumer. -/
inductive Thrown
  | applicationNack (data : Data)
  | exception (exception : Exception)
  deriving DecidableEq, Repr

namespace Transfer

def initial (maxPipelineSize : ℕ) : Transfer :=
  ⟨false, 0, 0, 0, false, false, List.replicate maxPipelineSize none, [], 0, [], []⟩

variable (s : Transfer)

def writeInOrderData : Transfer :=
  let taken := takeInOrder s.m_nextToPrint s.m_bufferedData
  { s with
    m_bufferedData := taken.2.2
    m_nextToPrint := taken.2.1
    m_outputStream := s.m_outputStream ++ taken.1.flatMap (fun data => data.m_content.value) }

def getSegmentFromPacket (name : Name) : Except Exception ℕ := do
  let component ← Name.atBack name 1
  toSegment component

/-- `Consumer::handleData`, with a validator that accepts. -/
def consume (data : Data) : Except Thrown Transfer :=
  if data.getContentType = 3 then .error (.applicationNack data)
  else
    match getSegmentFromPacket data.m_name with
    | .error exception => .error (.exception exception)
    | .ok segmentNo => .ok { s with m_bufferedData := insertOrAssign s.m_bufferedData segmentNo data }.writeInOrderData

def cancel : Transfer := if s.m_isStopping then s else { s with m_isStopping := true, m_segmentFetchers := [] }

def onFailure (reason : Failure) : Transfer :=
  if s.m_isStopping then s else { s.cancel with posted := s.posted ++ [reason] }

def allSegmentsReceived : Bool := 0 < s.m_nReceived && s.m_hasFinalBlockId && s.m_lastSegmentNo ≤ s.m_nReceived - 1

/-- Whether the segment has been requested is told beside the state. -/
def fetchNextSegment (pipeNo : ℕ) : Transfer × Bool :=
  if s.m_isStopping then (s, false)
  else if s.m_hasFailure then (s.onFailure .noFinalSegment, false)
  else
    let nextSegmentNo := s.m_nextSegmentNo
    let s := { s with m_nextSegmentNo := s.m_nextSegmentNo + 1 }
    if s.m_hasFinalBlockId ∧ nextSegmentNo > s.m_lastSegmentNo then (s, false)
    else ({ s with m_segmentFetchers := s.m_segmentFetchers.set pipeNo (some (DataFetcher.fetch, nextSegmentNo)) }, true)

/-- The loop of `doRun` over the pipes from one on. -/
def doRun : ℕ → ℕ → Transfer → Transfer
  | 0, _, s => s
  | count + 1, pipeNo, s =>
    let (s, requested) := s.fetchNextSegment pipeNo
    if requested then doRun count (pipeNo + 1) s else s

def updateFetchers (f : DataFetcher → ℕ → DataFetcher) : Transfer :=
  { s with m_segmentFetchers := s.m_segmentFetchers.map (Option.map (fun entry => (f entry.1 entry.2, entry.2))) }

/-- The segment that comes first among the pipes of those that belong to the content
and could not be fetched. -/
def firstError : Option ℕ :=
  ((s.m_segmentFetchers.filterMap id).find? (fun entry => entry.2 ≤ s.m_lastSegmentNo && entry.1.m_hasError)).map Prod.snd

/-- The fetchers beyond the last segment are cancelled once its number is known. -/
def learnFinalBlock (lastSegmentNo : ℕ) : Transfer :=
  { s with m_hasFinalBlockId := true, m_lastSegmentNo := lastSegmentNo }.updateFetchers
    (fun fetcher segmentNo => if segmentNo > lastSegmentNo then fetcher.cancel else fetcher)

def finishData (pipeNo : ℕ) : Transfer :=
  if s.allSegmentsReceived then s else (s.fetchNextSegment pipeNo).1

/-- `PipelineInterestsFixed::handleData`. -/
def handleData (data : Data) (pipeNo : ℕ) : Except Thrown Transfer :=
  if s.m_isStopping then .ok s
  else
    match { s with m_nReceived := s.m_nReceived + 1 }.consume data with
    | .error thrown => .error thrown
    | .ok s =>
      match data.m_metaInfo.m_finalBlockId with
      | none => .ok (s.finishData pipeNo)
      | some finalBlockId =>
        if s.m_hasFinalBlockId then .ok (s.finishData pipeNo)
        else
          match toSegment finalBlockId with
          | .error exception => .error (.exception exception)
          | .ok lastSegmentNo =>
            let s := s.learnFinalBlock lastSegmentNo
            match s.firstError with
            | some segmentNo => .ok (s.onFailure (.failureRetrieving segmentNo))
            | none => .ok (s.finishData pipeNo)

/-- `PipelineInterestsFixed::handleFail` for the pipe that fetches a segment. -/
def handleFail (reason : Failure) (failedNo : ℕ) : Transfer :=
  if s.m_isStopping then s
  else if s.m_hasFinalBlockId then
    if failedNo ≤ s.m_lastSegmentNo then s.onFailure reason else s
  else
    let areAllFetchersStopped :=
      (s.m_segmentFetchers.filterMap id).all (fun entry => failedNo < entry.2 || ! entry.1.isRunning)
    let s := s.updateFetchers (fun fetcher segmentNo => if segmentNo > failedNo then fetcher.cancel else fetcher)
    if areAllFetchersStopped then s.onFailure .noFinalSegment else { s with m_hasFailure := true }

/-- A callback of the fetcher of a pipe, which is not called unless it is running. -/
def onFetcher (pipeNo : ℕ) (callback : DataFetcher → ℕ → Except Thrown Transfer) : Except Thrown Transfer :=
  match s.m_segmentFetchers[pipeNo]? with
  | some (some (fetcher, segmentNo)) => if fetcher.isRunning then callback fetcher segmentNo else .ok s
  | _ => .ok s

def setFetcher (pipeNo : ℕ) (fetcher : DataFetcher) (segmentNo : ℕ) : Transfer :=
  { s with m_segmentFetchers := s.m_segmentFetchers.set pipeNo (some (fetcher, segmentNo)) }

def settleFetcher (pipeNo segmentNo : ℕ) (result : DataFetcher × Option Failure) : Transfer :=
  let s := s.setFetcher pipeNo result.1 segmentNo
  match result.2 with
  | none => s
  | some reason => s.handleFail reason segmentNo

end Transfer

/-- The reply of the producer to the Interest of a pipe comes in, the network drops
it or answers with a Nack of its own, or the time after a congestion is over. -/
inductive Event
  | reply (pipeNo : ℕ)
  | nack (pipeNo : ℕ) (reason : ℕ)
  | timeout (pipeNo : ℕ)
  | backoff (pipeNo : ℕ)
  deriving DecidableEq, Repr

structure Fetch where
  matchesData : Name → Data → Bool
  m_prefix : Name
  m_store : List Data
  maxRetriesOnTimeoutOrNack : ℤ

def step (fetch : Fetch) (s : Transfer) : Event → Except Thrown Transfer
  | .reply pipeNo => s.onFetcher pipeNo (fun fetcher segmentNo =>
      match processSegmentInterest fetch.matchesData fetch.m_prefix fetch.m_store
          (fetch.m_prefix ++ [fromSegment segmentNo]) with
      | some data =>
        (s.setFetcher pipeNo { fetcher with m_isStopped := true } segmentNo).handleData data pipeNo
      | none => .ok (s.settleFetcher pipeNo segmentNo (fetcher.handleNack fetch.maxRetriesOnTimeoutOrNack 0)))
  | .nack pipeNo reason => s.onFetcher pipeNo (fun fetcher segmentNo =>
      .ok (s.settleFetcher pipeNo segmentNo (fetcher.handleNack fetch.maxRetriesOnTimeoutOrNack reason)))
  | .timeout pipeNo => s.onFetcher pipeNo (fun fetcher segmentNo =>
      .ok (s.settleFetcher pipeNo segmentNo (fetcher.handleTimeout fetch.maxRetriesOnTimeoutOrNack)))
  | .backoff pipeNo => s.onFetcher pipeNo (fun fetcher segmentNo =>
      .ok (s.setFetcher pipeNo fetcher.expressInterest segmentNo))

def start (maxPipelineSize : ℕ) : Transfer := Transfer.doRun maxPipelineSize 0 (Transfer.initial maxPipelineSize)

def run (fetch : Fetch) (maxPipelineSize : ℕ) (events : List Event) : Except Thrown Transfer :=
  events.foldlM (step fetch) (start maxPipelineSize)

section Publishing

theorem toSegment_fromSegment {segmentNo : ℕ} (h : segmentNo < 18446744073709551616) :
    toSegment (fromSegment segmentNo) = .ok segmentNo := by
  have hread := TlvEncoding.readNonNegativeInteger_encode h 8
  have hlength : (TlvEncoding.makeNonNegativeIntegerBlock 8 segmentNo).value.length ∈ [1, 2, 4, 8] :=
    KiteAcknowledgment.length_encodeNonNegativeInteger _
  rw [readNonNegativeInteger, if_pos hlength] at hread
  rw [toSegment, toNumberWithMarker, fromSegment, KiteAcknowledgment.isNumberWithMarker_fromNumberWithMarker, if_pos rfl]
  exact hread

theorem flatten_readSegments (maxSegmentSize : SegmentSize) (is : List UInt8) : (readSegments maxSegmentSize is).flatten = is := by
  fun_induction readSegments maxSegmentSize is with
  | case1 is h ih => rw [List.flatten_cons, ih, List.take_append_drop]
  | case2 h => exact List.flatten_nil
  | case3 is h hnil => rw [List.flatten_singleton]

theorem length_readSegments_le (maxSegmentSize : SegmentSize) (is : List UInt8) :
    (readSegments maxSegmentSize is).length ≤ is.length := by
  fun_induction readSegments maxSegmentSize is with
  | case1 is h ih =>
    have hpos := maxSegmentSize.property
    rw [List.length_drop] at ih
    rw [List.length_cons]
    omega
  | case2 h => exact Nat.zero_le _
  | case3 is h hnil =>
    have := List.length_pos_iff.mpr hnil
    rw [List.length_singleton]
    omega

/-- The packets are the segments of a version, each of which names the last one. -/
structure Published (fetch : Fetch) (source : ℕ → Data) : Prop where
  nonempty : 0 < fetch.m_store.length
  getElem : ∀ i < fetch.m_store.length, fetch.m_store[i]? = some (source i)
  name : ∀ i < fetch.m_store.length, (source i).m_name = fetch.m_prefix ++ [fromSegment i]
  contentType : ∀ i < fetch.m_store.length, (source i).getContentType = 0
  finalBlock : ∀ i < fetch.m_store.length,
    (source i).m_metaInfo.m_finalBlockId = some (fromSegment (fetch.m_store.length - 1))

def unsigned (versionedPrefix : Name) (freshnessPeriod : ℤ) (maxSegmentSize : SegmentSize) (is : List UInt8) : List Data :=
  let m_store := (readSegments maxSegmentSize is).mapIdx (makeSegment versionedPrefix freshnessPeriod)
  if m_store = [] then [makeSegment versionedPrefix freshnessPeriod 0 []] else m_store

theorem unsigned_spec (versionedPrefix : Name) (freshnessPeriod : ℤ) (maxSegmentSize : SegmentSize) (is : List UInt8) :
    ∃ contents : List (List UInt8), contents ≠ [] ∧ contents.flatten = is ∧ contents.length ≤ is.length + 1 ∧
      unsigned versionedPrefix freshnessPeriod maxSegmentSize is =
        contents.mapIdx (makeSegment versionedPrefix freshnessPeriod) := by
  by_cases hnil : readSegments maxSegmentSize is = []
  · refine ⟨[[]], List.cons_ne_nil _ _, ?_, by simp, by simp [unsigned, hnil]⟩
    rw [← flatten_readSegments maxSegmentSize is, hnil]
    rfl
  · refine ⟨readSegments maxSegmentSize is, hnil, flatten_readSegments _ _, ?_, by simp [unsigned, hnil]⟩
    exact (length_readSegments_le _ _).trans (Nat.le_succ _)

theorem populateStore_eq (keyChain : Data → SignatureInfo × Block) (versionedPrefix : Name) (freshnessPeriod : ℤ)
    (maxSegmentSize : SegmentSize) (is : List UInt8) :
    populateStore keyChain versionedPrefix freshnessPeriod maxSegmentSize is =
      (unsigned versionedPrefix freshnessPeriod maxSegmentSize is).map (fun data => sign keyChain
        (setFinalBlock (fromSegment ((unsigned versionedPrefix freshnessPeriod maxSegmentSize is).length - 1)) data)) :=
  rfl

theorem populateStore_spec (keyChain : Data → SignatureInfo × Block) (versionedPrefix : Name) (freshnessPeriod : ℤ)
    (maxSegmentSize : SegmentSize) (is : List UInt8) (matchesData : Name → Data → Bool) (maxRetries : ℤ) :
    ∃ source, Published ⟨matchesData, versionedPrefix,
        populateStore keyChain versionedPrefix freshnessPeriod maxSegmentSize is, maxRetries⟩ source ∧
      ((List.range (populateStore keyChain versionedPrefix freshnessPeriod maxSegmentSize is).length).map source).flatMap
        (fun data => data.m_content.value) = is ∧
      (populateStore keyChain versionedPrefix freshnessPeriod maxSegmentSize is).length ≤ is.length + 1 := by
  obtain ⟨contents, hne, hflatten, hlength, hunsigned⟩ := unsigned_spec versionedPrefix freshnessPeriod maxSegmentSize is
  have hstore : populateStore keyChain versionedPrefix freshnessPeriod maxSegmentSize is =
      (contents.mapIdx (makeSegment versionedPrefix freshnessPeriod)).map (fun data =>
        sign keyChain (setFinalBlock (fromSegment (contents.length - 1)) data)) := by
    rw [populateStore_eq, hunsigned, List.length_mapIdx]
  have hsize : (populateStore keyChain versionedPrefix freshnessPeriod maxSegmentSize is).length = contents.length := by
    rw [hstore, List.length_map, List.length_mapIdx]
  obtain ⟨source, hsource⟩ : ∃ source : ℕ → Data, source = fun i => sign keyChain (setFinalBlock
      (fromSegment (contents.length - 1)) (makeSegment versionedPrefix freshnessPeriod i (contents[i]?.getD []))) := ⟨_, rfl⟩
  have hgetElem (i : ℕ) (hi : i < contents.length) :
      (populateStore keyChain versionedPrefix freshnessPeriod maxSegmentSize is)[i]? = some (source i) := by
    rw [hstore, hsource]
    simp [hi]
  refine ⟨source, ⟨?_, ?_, ?_, ?_, ?_⟩, ?_, hsize ▸ hlength⟩
  · dsimp only
    rw [hsize]
    exact List.length_pos_iff.mpr hne
  · intro i hi
    exact hgetElem i (hsize ▸ hi)
  · intro i hi
    rw [hsource]
    rfl
  · intro i hi
    rw [hsource]
    rfl
  · intro i hi
    dsimp only
    rw [hsource, hsize]
    rfl
  · rw [hsize]
    have hcontents : (List.range contents.length).map (fun i => contents[i]?.getD []) = contents := by
      apply List.ext_getElem?
      intro i
      by_cases hi : i < contents.length
      · simp [hi]
      · simp [hi]
    rw [List.flatMap_map, hsource]
    change (List.range contents.length).flatMap (fun i => contents[i]?.getD []) = is
    rw [List.flatMap_def, hcontents, hflatten]

theorem processSegmentInterest_segment (matchesData : Name → Data → Bool) (m_versionedPrefix : Name) (m_store : List Data)
    {segmentNo : ℕ} (h : segmentNo < 18446744073709551616) :
    processSegmentInterest matchesData m_versionedPrefix m_store (m_versionedPrefix ++ [fromSegment segmentNo]) =
      m_store[segmentNo]? := by
  have hsegment : Component.isSegment (fromSegment segmentNo) = true :=
    KiteAcknowledgment.isNumberWithMarker_fromNumberWithMarker 0x00 segmentNo
  rw [processSegmentInterest, if_pos (by simp [hsegment])]
  simp [toSegment_fromSegment h]

theorem getSegmentFromPacket_segment (name : Name) {segmentNo : ℕ} (h : segmentNo < 18446744073709551616) :
    Transfer.getSegmentFromPacket (name ++ [fromSegment segmentNo]) = .ok segmentNo := by
  have hback : Name.atBack (name ++ [fromSegment segmentNo]) 1 = .ok (fromSegment segmentNo) := by simp [Name.atBack]
  rw [Transfer.getSegmentFromPacket, hback]
  exact toSegment_fromSegment h

end Publishing

section Fetchers

variable {s : Transfer} {pipeNo segmentNo pipeNo' segmentNo' : ℕ} {fetcher fetcher' : DataFetcher}

def At (s : Transfer) (pipeNo : ℕ) (fetcher : DataFetcher) (segmentNo : ℕ) : Prop :=
  s.m_segmentFetchers[pipeNo]? = some (some (fetcher, segmentNo))

theorem At.lt_length (h : At s pipeNo fetcher segmentNo) : pipeNo < s.m_segmentFetchers.length :=
  (List.getElem?_eq_some_iff.mp h).1

theorem at_inj (h : At s pipeNo fetcher segmentNo) (h' : At s pipeNo fetcher' segmentNo') :
    fetcher = fetcher' ∧ segmentNo = segmentNo' := by
  rw [At] at h h'
  rw [h] at h'
  simpa using h'

theorem at_setFetcher (hlt : pipeNo < s.m_segmentFetchers.length) :
    At (s.setFetcher pipeNo fetcher segmentNo) pipeNo' fetcher' segmentNo' ↔
      pipeNo' = pipeNo ∧ fetcher' = fetcher ∧ segmentNo' = segmentNo ∨
        pipeNo' ≠ pipeNo ∧ At s pipeNo' fetcher' segmentNo' := by
  rw [At, Transfer.setFetcher, List.getElem?_set, At]
  by_cases heq : pipeNo = pipeNo'
  · subst heq
    simp [hlt, eq_comm]
  · simp [heq, Ne.symm heq]

theorem at_updateFetchers {f : DataFetcher → ℕ → DataFetcher} :
    At (s.updateFetchers f) pipeNo fetcher segmentNo ↔
      ∃ old, At s pipeNo old segmentNo ∧ fetcher = f old segmentNo := by
  rw [At, Transfer.updateFetchers, List.getElem?_map]
  constructor
  · intro h
    obtain ⟨slot, hslot, heq⟩ := Option.map_eq_some_iff.mp h
    obtain ⟨entry, rfl, hupdated⟩ := Option.map_eq_some_iff.mp heq
    obtain ⟨rfl, rfl⟩ := Prod.mk.inj hupdated
    exact ⟨entry.1, hslot, rfl⟩
  · rintro ⟨old, hold, rfl⟩
    rw [At] at hold
    rw [hold]
    rfl

theorem mem_fetchers {entry : DataFetcher × ℕ} :
    entry ∈ s.m_segmentFetchers.filterMap id ↔ ∃ pipeNo, At s pipeNo entry.1 entry.2 := by
  rw [List.mem_filterMap]
  constructor
  · rintro ⟨slot, hslot, hentry⟩
    obtain ⟨pipeNo, hpipe⟩ := List.getElem?_of_mem hslot
    exact ⟨pipeNo, by rw [At, hpipe]; exact congrArg some hentry⟩
  · rintro ⟨pipeNo, hat⟩
    exact ⟨some entry, List.mem_of_getElem? hat, rfl⟩

theorem isRunning_cancel : fetcher.cancel.isRunning = false := by
  unfold DataFetcher.cancel
  split
  · simp [DataFetcher.isRunning]
  · rename_i h
    simpa using h

theorem hasError_cancel : fetcher.cancel.m_hasError = fetcher.m_hasError := by
  unfold DataFetcher.cancel
  split <;> rfl

theorem isRunning_countNack (maxRetries : ℤ) (h : fetcher.isRunning = true) :
    (fetcher.countNack maxRetries).isRunning = true := by
  unfold DataFetcher.countNack
  split <;> exact h

theorem isRunning_countTimeout (maxRetries : ℤ) (h : fetcher.isRunning = true) :
    (fetcher.countTimeout maxRetries).isRunning = true := by
  unfold DataFetcher.countTimeout
  split <;> exact h

theorem handleNack_result (maxRetries : ℤ) (reason : ℕ) (h : fetcher.isRunning = true) :
    (fetcher.handleNack maxRetries reason).2 = none ∧ (fetcher.handleNack maxRetries reason).1.isRunning = true ∨
      ∃ failure, (fetcher.handleNack maxRetries reason).2 = some failure ∧
        (fetcher.handleNack maxRetries reason).1.m_hasError = true := by
  have hcounted := isRunning_countNack maxRetries h
  unfold DataFetcher.handleNack
  dsimp only
  split
  · exact Or.inr ⟨_, rfl, rfl⟩
  · split
    · exact Or.inl ⟨rfl, hcounted⟩
    · split
      · left
        split <;> exact ⟨rfl, hcounted⟩
      · exact Or.inr ⟨_, rfl, rfl⟩

theorem handleTimeout_result (maxRetries : ℤ) (h : fetcher.isRunning = true) :
    (fetcher.handleTimeout maxRetries).2 = none ∧ (fetcher.handleTimeout maxRetries).1.isRunning = true ∨
      ∃ failure, (fetcher.handleTimeout maxRetries).2 = some failure ∧
        (fetcher.handleTimeout maxRetries).1.m_hasError = true := by
  have hcounted := isRunning_countTimeout maxRetries h
  unfold DataFetcher.handleTimeout
  dsimp only
  split
  · exact Or.inr ⟨_, rfl, rfl⟩
  · exact Or.inl ⟨rfl, hcounted⟩

end Fetchers

end LeoNdn.ChunkTransfer
