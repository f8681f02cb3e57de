import LeoNdn.Forwarder

/-!
The routes that acknowledgments create: a route is announced towards every
downstream of the matched entries, whatever name the acknowledgment announces.
-/

namespace LeoNdn.KiteRoutes

open LeoNdn.Tlv LeoNdn.NdnPacket LeoNdn.KiteProtocol LeoNdn.Forwarder

variable {κ : Type}

/-- The Interest of the entry is a request that the acknowledgment matches. -/
def awaits (entry : PitEntry) (ack : Ack) : Bool :=
  match Request.ofInterest entry.m_interest with
  | .ok request => request.canMatch ack
  | .error _ => false

/-- The call goes to the face of an in-record of its entry, and announces the
prefix that the request of the entry asks for. -/
def isRequested (pit : List PitEntry) (call : SlAnnounce) : Bool :=
  match pit[call.pitEntry]? with
  | some entry =>
    entry.m_inRecords.any (fun record => record.m_face.id = call.inFaceId) && awaits entry ⟨call.pa⟩
  | none => false

def hasLiveDownstream (now : ℤ) (entry : PitEntry) : Bool := entry.m_inRecords.any (isAnnounced now)

/-- Every matched entry with such a downstream holds a request for the prefix
that the acknowledgment announces. -/
def AnnouncesRequested (ctx : Context κ) (inFace : Face) (data : Data) (pit : List PitEntry) : Prop :=
  isViolatingLocalhost inFace data = false → data.getContentType = 6 →
    ∀ ack, Ack.ofData ctx.fromIsoString data = .ok ack → ∀ i ∈ ctx.findAllDataMatches pit data,
      ∀ entry, pit[i]? = some entry → hasLiveDownstream ctx.now entry → awaits entry ack

section Posted

theorem mem_announceEntry {now : ℤ} {pit : List PitEntry} {ack : Ack} {i : ℕ} {call : SlAnnounce} :
    call ∈ announceEntry now pit ack i ↔ ∃ entry, pit[i]? = some entry ∧ ∃ record ∈ entry.m_inRecords,
      isAnnounced now record ∧ call = ⟨i, record.m_face.id, ack.m_prefixAnn, 300000⟩ := by
  unfold announceEntry
  cases pit[i]? with
  | none => simp
  | some entry =>
    simp only [List.mem_map, List.mem_filter, Option.some.injEq, exists_eq_left']
    constructor
    · rintro ⟨record, ⟨hmem, hlive⟩, rfl⟩
      exact ⟨record, hmem, hlive, rfl⟩
    · rintro ⟨record, hmem, hlive, rfl⟩
      exact ⟨record, ⟨hmem, hlive⟩, rfl⟩

theorem mem_posted {ctx : Context κ} {inFace : Face} {data : Data} {tables : Tables κ} {call : SlAnnounce} :
    call ∈ (onIncomingData ctx inFace data tables).posted ↔
      isViolatingLocalhost inFace data = false ∧ data.getContentType = 6 ∧
        ∃ ack, Ack.ofData ctx.fromIsoString data = .ok ack ∧
          ∃ i ∈ ctx.findAllDataMatches tables.m_pit data, call ∈ announceEntry ctx.now tables.m_pit ack i := by
  cases hlocal : isViolatingLocalhost inFace data with
  | true => simp [onIncomingData_violating hlocal]
  | false =>
    by_cases hmatch : ctx.findAllDataMatches tables.m_pit data = []
    · simp [onIncomingData_unsolicited hlocal hmatch, hmatch]
    · by_cases htype : data.getContentType = 6
      · cases hack : Ack.ofData ctx.fromIsoString data with
        | error e => simp [onIncomingData_thrown hlocal hmatch htype hack]
        | ok ack => simp [onIncomingData_acknowledged hlocal hmatch htype hack, htype, List.mem_flatMap]
      · simp [onIncomingData_other hlocal hmatch htype, htype]

end Posted

theorem announceEntry_requested_iff {now : ℤ} {pit : List PitEntry} {ack : Ack} {i : ℕ} {entry : PitEntry}
    (hentry : pit[i]? = some entry) : (∀ call ∈ announceEntry now pit ack i, isRequested pit call) ↔
      (hasLiveDownstream now entry → awaits entry ack) := by
  constructor
  · intro hcalls hlive
    obtain ⟨record, hmem, hrecord⟩ := List.any_eq_true.mp hlive
    have hcall := hcalls _ (mem_announceEntry.mpr ⟨entry, hentry, record, hmem, hrecord, rfl⟩)
    simp only [isRequested, hentry, Bool.and_eq_true] at hcall
    exact hcall.2
  · intro hawaits call hcall
    obtain ⟨entry', hentry', record, hmem, hrecord, rfl⟩ := mem_announceEntry.mp hcall
    obtain rfl : entry = entry' := by
      rw [hentry] at hentry'
      exact Option.some.inj hentry'
    have hlive : hasLiveDownstream now entry := List.any_eq_true.mpr ⟨record, hmem, hrecord⟩
    simp only [isRequested, hentry, Bool.and_eq_true]
    exact ⟨List.any_eq_true.mpr ⟨record, hmem, by simp⟩, hawaits hlive⟩

/-- Nothing compares the announced name with the request, so the calls are what
the request asks for exactly when the sender has seen to it. -/
theorem announced_requested_iff (ctx : Context κ) (inFace : Face) (data : Data) (tables : Tables κ) :
    (∀ call ∈ (onIncomingData ctx inFace data tables).posted, isRequested tables.m_pit call) ↔
      AnnouncesRequested ctx inFace data tables.m_pit := by
  constructor
  · intro hcalls hlocal htype ack hack i hi entry hentry
    refine (announceEntry_requested_iff hentry).mp fun call hcall => hcalls call ?_
    exact mem_posted.mpr ⟨hlocal, htype, ack, hack, i, hi, hcall⟩
  · intro hannounces call hcall
    obtain ⟨hlocal, htype, ack, hack, i, hi, hcall⟩ := mem_posted.mp hcall
    obtain ⟨entry, hentry, -⟩ := mem_announceEntry.mp hcall
    exact (announceEntry_requested_iff hentry).mpr (hannounces hlocal htype ack hack i hi entry hentry) call hcall

section Hijacked

def shortElement (type : UInt8) (value : List UInt8) : List UInt8 :=
  type :: value.length.toUInt8 :: value

def bobAnnouncement : List UInt8 :=
  shortElement 6
    (shortElement 7 (shortElement 8 [98, 111, 98] ++ shortElement 32 [80, 65] ++ shortElement 8 [0xFD, 1] ++
        shortElement 8 [0, 0]) ++
      shortElement 20 (shortElement 24 [5]) ++ shortElement 21 (shortElement 109 [100]) ++
      shortElement 22 (shortElement 27 [0]) ++ shortElement 23 [])

def aliceRequest : Name :=
  [⟨8, [114, 118]⟩, KITE_KEYWORD, ⟨8, [97, 108, 105, 99, 101]⟩, ⟨8, [1]⟩, ⟨8, [2]⟩, ⟨8, [3]⟩, ⟨8, [4]⟩]

def answer (content : List UInt8) : Data :=
  ⟨aliceRequest, ⟨6, 0, none, []⟩, ⟨21, content⟩, some ⟨0, none, []⟩, some ⟨23, []⟩⟩

def upstream : Face := ⟨256, .scopeNonLocal, .pointToPoint⟩

def downstream : Face := ⟨257, .scopeNonLocal, .pointToPoint⟩

def pendingRequest : Tables (List Data) :=
  ⟨0, 0, [⟨⟨aliceRequest, false, none⟩, [⟨downstream, 5, 0, 1000⟩], [⟨upstream, 5, 0, 1000⟩], false, 0, some 1000⟩],
    [], [], []⟩

def forwarder : Context (List Data) where
  now := 1
  fromIsoString _ := .error (.badCast "")
  findAllDataMatches pit data :=
    (List.range pit.length).filter (fun i => pit[i]?.any (fun entry => Name.equals entry.m_interest.m_name data.m_name))
  insertCs data _ cs := data :: cs
  cachesUnsolicited _ _ := false
  findEffectiveStrategy _ := Strategy.base 1
  deadNonceListLifetime := 6000000000

/-- The request is for `/rv/alice`, and the route is for `/bob`. -/
theorem unrequested_prefix_announced :
    (onIncomingData forwarder upstream (answer bobAnnouncement) pendingRequest).posted.map
        (fun call => (call.inFaceId, call.pa.m_announcedName)) = [(257, [⟨8, [98, 111, 98]⟩])] ∧
      ¬ ∀ call ∈ (onIncomingData forwarder upstream (answer bobAnnouncement) pendingRequest).posted,
        isRequested pendingRequest.m_pit call := by
  decide

end Hijacked

end LeoNdn.KiteRoutes
