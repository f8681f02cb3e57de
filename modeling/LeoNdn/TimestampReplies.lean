import Mathlib
import LeoNdn.KiteAcknowledgment
import LeoNdn.RibManager

/-!
The rendezvous server's replies to requests for a timestamp. A point of time is
its count of nanoseconds since the epoch.
-/

namespace LeoNdn.TimestampReplies

open LeoNdn.Tlv LeoNdn.TlvEncoding LeoNdn.NdnPacket LeoNdn.NdnEncoding
open LeoNdn.KiteAcknowledgment (fromNumberWithMarker)
open LeoNdn.RibManager (toInt64)

def getUnixEpoch : ℤ := 0

def toNumberWithMarker (marker : UInt8) (component : Component) : Except Exception ℕ :=
  if Component.isNumberWithMarker marker component then .ok (bigEndian component.value.tail)
  else .error (.tlvError "Name component does not have the requested marker or the value is not a nonNegativeInteger")

def toTimestamp (component : Component) : Except Exception ℤ := do
  let value ← toNumberWithMarker 0xFC component
  .ok (toInt64 (getUnixEpoch + value * 1000))

def fromTimestamp (timePoint : ℤ) : Component :=
  fromNumberWithMarker 0xFC (count (Int.tdiv (timePoint - getUnixEpoch) 1000))

/-- `Timestamp::TS_COMP`; the text is not read as a URI, so the slash is part of it. -/
def TS_COMP : Component := ⟨8, [0x2F, 0x74, 0x73]⟩

structure Timestamp where
  m_data : Option Data
  m_timestamp : ℤ
  deriving DecidableEq, Repr

/-- The constructor of `Timestamp` from a Data packet. -/
def Timestamp.ofData (data : Data) : Except Exception Timestamp := do
  let payload ← data.m_content.parse
  let element ← get data.m_content payload 8
  let component ← Component.ensureValid element
  let timestamp ← toTimestamp component
  .ok ⟨some data, timestamp⟩

def setTimestamp (timestamp : ℤ) : Timestamp := ⟨none, timestamp⟩

def setFreshnessPeriod (data : Data) (freshnessPeriod : ℤ) : Except Exception Data :=
  if freshnessPeriod < 0 then .error (.invalidArgument "FreshnessPeriod must be >= 0")
  else .ok { data with m_metaInfo := { data.m_metaInfo with m_freshnessPeriod := freshnessPeriod } }

section Server

variable (keyChain : Data → Except Exception (SignatureInfo × Block))

def sign (data : Data) : Except Exception Data := do
  let (info, value) ← keyChain data
  .ok { data with m_info := some info, m_value := some value }

/-- What is thrown on the way leaves the packet in `m_data`. -/
def Timestamp.toData (timestamp : Timestamp) (name : Name) (freshnessPeriod : ℤ) :
    Timestamp × Except Exception Data :=
  match timestamp.m_data with
  | some data => (timestamp, .ok data)
  | none =>
    let tsComp : Component := ⟨8, []⟩
    -- `fromTimestamp` is static: what it returns is dropped, and `tsComp` stays empty
    let _ := fromTimestamp timestamp.m_timestamp
    let data : Data := ⟨name, ⟨0, 0, none, []⟩, makeBlock 21 [tsComp], none, none⟩
    match setFreshnessPeriod data freshnessPeriod with
    | .error e => ({ timestamp with m_data := some data }, .error e)
    | .ok data =>
      match sign keyChain data with
      | .error e => ({ timestamp with m_data := some data }, .error e)
      | .ok data => ({ timestamp with m_data := some data }, .ok data)

/-- The clock is not read: `getUnixEpoch` is the epoch. -/
def onTsRequest (tsInterval : ℤ) (m_timestamp : Timestamp) (filterPrefix : Name) : Timestamp × Except Exception Data :=
  let elapsedTime := Int.tdiv (getUnixEpoch - m_timestamp.m_timestamp) 1000000
  let timestamp :=
    if m_timestamp.m_data.isNone ∨ elapsedTime ≥ tsInterval then setTimestamp getUnixEpoch else m_timestamp
  Timestamp.toData keyChain timestamp filterPrefix tsInterval

structure TsRequest where
  time : ℤ
  rvPrefix : Name
  deriving DecidableEq, Repr

/-- The filter of the prefix is the one that has matched. -/
def replies (tsInterval : ℤ) : Timestamp → List TsRequest → List (Except Exception Data)
  | _, [] => []
  | timestamp, request :: requests =>
    let (timestamp, reply) := onTsRequest keyChain tsInterval timestamp (request.rvPrefix ++ [TS_COMP])
    reply :: replies tsInterval timestamp requests

def initial : Timestamp := ⟨none, 0⟩

/-- The reply is the packet asked for, with a timestamp that is not late and not
older than the interval. -/
structure Answers (tsInterval : ℤ) (request : TsRequest) (data : Data) (timestamp : ℤ) : Prop where
  name : data.m_name = request.rvPrefix ++ [TS_COMP]
  decodes : (Timestamp.ofData data).map Timestamp.m_timestamp = .ok timestamp
  notLate : timestamp ≤ request.time
  recent : request.time - timestamp < tsInterval * 1000000

/-- Every request is answered, with timestamps that never decrease. -/
def AllAnswered (tsInterval : ℤ) (requests : List TsRequest) : Prop :=
  ∃ timestamps : ℕ → ℤ, Monotone timestamps ∧ ∀ i request, requests[i]? = some request →
    ∃ data, (replies keyChain tsInterval initial requests)[i]? = some (.ok data) ∧
      Answers tsInterval request data (timestamps i)

end Server

section Replies

variable {keyChain : Data → Except Exception (SignatureInfo × Block)} {tsInterval : ℤ}

/-- The content that holds the component `fromTimestamp` has not been stored in. -/
def HasEmptyComponent (data : Data) : Prop := data.m_content = makeBlock 21 [⟨8, []⟩]

def CachesEmptyComponent (timestamp : Timestamp) : Prop :=
  ∀ data, timestamp.m_data = some data → HasEmptyComponent data

theorem ofData_emptyComponent {data : Data} (h : HasEmptyComponent data) : Timestamp.ofData data =
    .error (.tlvError "Name component does not have the requested marker or the value is not a nonNegativeInteger") := by
  have hparse : (makeBlock 21 [⟨8, []⟩]).parse = .ok [⟨8, []⟩] := by
    refine parse_makeBlock 21 fun element helement => ?_
    rw [List.mem_singleton.mp helement]
    exact ⟨by decide, by decide⟩
  rw [Timestamp.ofData, h, hparse]
  rfl

theorem sign_content {data signed : Data} (h : sign keyChain data = .ok signed) : signed.m_content = data.m_content := by
  unfold sign at h
  cases hkey : keyChain data with
  | error e =>
    rw [hkey] at h
    cases h
  | ok pair =>
    rw [hkey] at h
    cases h
    rfl

theorem setFreshnessPeriod_content {data fresh : Data} {freshnessPeriod : ℤ}
    (h : setFreshnessPeriod data freshnessPeriod = .ok fresh) : fresh.m_content = data.m_content := by
  unfold setFreshnessPeriod at h
  split at h
  · cases h
  · cases h
    rfl

theorem toData_emptyComponent {timestamp : Timestamp} (hcache : CachesEmptyComponent timestamp) (name : Name)
    (freshnessPeriod : ℤ) : CachesEmptyComponent (Timestamp.toData keyChain timestamp name freshnessPeriod).1 ∧
      ∀ data, (Timestamp.toData keyChain timestamp name freshnessPeriod).2 = .ok data → HasEmptyComponent data := by
  unfold Timestamp.toData
  split
  · rename_i data hdata
    refine ⟨hcache, fun data' h => ?_⟩
    obtain rfl := Except.ok.inj h
    exact hcache data hdata
  · dsimp only
    split
    · refine ⟨fun data h => ?_, fun data h => by cases h⟩
      obtain rfl := Option.some.inj h
      exact rfl
    · rename_i fresh hfresh
      have hcontent := setFreshnessPeriod_content hfresh
      split
      · refine ⟨fun data h => ?_, fun data h => by cases h⟩
        obtain rfl := Option.some.inj h
        exact hcontent
      · rename_i signed hsigned
        have hsame := (sign_content hsigned).trans hcontent
        refine ⟨fun data h => ?_, fun data h => ?_⟩
        · obtain rfl := Option.some.inj h
          exact hsame
        · obtain rfl := Except.ok.inj h
          exact hsame

theorem onTsRequest_emptyComponent (keyChain : Data → Except Exception (SignatureInfo × Block)) (tsInterval : ℤ)
    {timestamp : Timestamp} (hcache : CachesEmptyComponent timestamp)
    (filterPrefix : Name) : CachesEmptyComponent (onTsRequest keyChain tsInterval timestamp filterPrefix).1 ∧
      ∀ data, (onTsRequest keyChain tsInterval timestamp filterPrefix).2 = .ok data → HasEmptyComponent data := by
  unfold onTsRequest
  refine toData_emptyComponent ?_ filterPrefix tsInterval
  split
  · intro data h
    cases h
  · exact hcache

theorem replies_emptyComponent {timestamp : Timestamp} (hcache : CachesEmptyComponent timestamp)
    (requests : List TsRequest) (data : Data) (h : .ok data ∈ replies keyChain tsInterval timestamp requests) :
    HasEmptyComponent data := by
  induction requests generalizing timestamp with
  | nil => exact absurd h List.not_mem_nil
  | cons request requests ih =>
    obtain ⟨hcache', hreply⟩ := onTsRequest_emptyComponent keyChain tsInterval hcache
      (request.rvPrefix ++ [TS_COMP])
    rcases List.mem_cons.mp h with h | h
    · exact hreply data h.symm
    · exact ih hcache' h

theorem no_answer {requests : List TsRequest} {data : Data}
    (h : .ok data ∈ replies keyChain tsInterval initial requests) (request : TsRequest) (timestamp : ℤ) :
    ¬ Answers tsInterval request data timestamp := by
  intro hanswers
  have hdecodes := hanswers.decodes
  rw [ofData_emptyComponent (replies_emptyComponent (fun data h => by cases h) requests data h)] at hdecodes
  cases hdecodes

theorem allAnswered_iff (keyChain : Data → Except Exception (SignatureInfo × Block)) (tsInterval : ℤ)
    (requests : List TsRequest) : AllAnswered keyChain tsInterval requests ↔ requests = [] := by
  constructor
  · rintro ⟨timestamps, -, hall⟩
    cases requests with
    | nil => rfl
    | cons request requests =>
      obtain ⟨data, hreply, hanswers⟩ := hall 0 request rfl
      exact absurd hanswers (no_answer (List.mem_of_getElem? hreply) request (timestamps 0))
  · rintro rfl
    exact ⟨fun _ => 0, monotone_const, fun i request h => by cases h⟩

theorem not_allAnswered_alice : ¬ AllAnswered (fun _ => .ok (⟨0, none, []⟩, ⟨23, []⟩)) 1000
    [⟨1500000000, [⟨8, [114, 118]⟩]⟩] := by
  rintro ⟨timestamps, -, hall⟩
  obtain ⟨data, hreply, hanswers⟩ := hall 0 _ rfl
  exact no_answer (List.mem_of_getElem? hreply) _ _ hanswers

end Replies

end LeoNdn.TimestampReplies
