import LeoNdn.KiteRoutes
import Mathlib.Data.List.Dedup

/-!
What the incoming Data pipeline sends under the hooks of the base strategy, with
one matched entry and with several.
-/

namespace LeoNdn.DataForwarding

open LeoNdn.Tlv LeoNdn.NdnPacket LeoNdn.KiteProtocol LeoNdn.Forwarder

variable {κ : Type}

/-- The faces that the in-records of an entry that have not expired are for. -/
def liveFaces (now : ℤ) (pit : List PitEntry) (i : ℕ) : List Face :=
  match pit[i]? with
  | none => []
  | some entry => pendingDownstreams now entry

def goesOut (data : Data) (face : Face) : Bool := face.id ≠ 0 && ! isViolatingLocalhost face data

/-- The face waits for the Data at a matched entry, is not where it has come from
unless it is ad hoc, and is allowed to have it. -/
def IsDownstream (now : ℤ) (pit : List PitEntry) (pitMatches : List ℕ) (inFace : Face) (data : Data) (face : Face) :
    Prop :=
  (∃ i ∈ pitMatches, ∃ entry, pit[i]? = some entry ∧ ∃ record ∈ entry.m_inRecords,
      now < record.m_expiry ∧ record.m_face = face) ∧
    isBackToSender inFace face = false ∧ goesOut data face = true

section Sending

variable {data : Data}

theorem onOutgoingData_sent (face : Face) (tables : Tables κ) :
    (onOutgoingData data face tables).sent =
      tables.sent ++ ([face].filter (goesOut data)).map (fun face => (face, data)) := by
  unfold onOutgoingData
  by_cases hid : face.id = 0
  · simp [hid, goesOut]
  · cases hlocal : isViolatingLocalhost face data <;> simp [hid, hlocal, goesOut]

theorem foldl_sent {send : Face → Tables κ → Tables κ} (hsend : ∀ face tables, (send face tables).sent =
      tables.sent ++ ([face].filter (goesOut data)).map (fun face => (face, data))) (faces : List Face)
    (tables : Tables κ) : (faces.foldl (fun tables face => send face tables) tables).sent =
      tables.sent ++ (faces.filter (goesOut data)).map (fun face => (face, data)) := by
  induction faces generalizing tables with
  | nil => simp
  | cons face faces ih =>
    rw [List.foldl_cons, ih, hsend, List.append_assoc, ← List.map_append, ← List.filter_append]
    rfl

theorem sendDataToAll_sent (now : ℤ) (i : ℕ) (inFace : Face) (tables : Tables κ) :
    (sendDataToAll now i inFace data tables).sent = tables.sent ++
      (((liveFaces now tables.m_pit i).filter (fun face => ¬ isBackToSender inFace face)).filter
        (goesOut data)).map (fun face => (face, data)) := by
  unfold sendDataToAll liveFaces
  cases tables.m_pit[i]? with
  | none => simp
  | some entry =>
    exact @foldl_sent κ data (fun face tables => sendData i data face tables)
      (fun face tables => onOutgoingData_sent face _) _ tables

theorem insertDeadNonceList_sent (lifetime : ℤ) (i : ℕ) (upstream : Face) (tables : Tables κ) :
    (insertDeadNonceList lifetime i upstream tables).sent = tables.sent ∧
      (insertDeadNonceList lifetime i upstream tables).m_pit = tables.m_pit := by
  unfold insertDeadNonceList
  repeat' split
  all_goals exact ⟨rfl, rfl⟩

theorem mem_liveFaces {now : ℤ} {pit : List PitEntry} {i : ℕ} {face : Face} :
    face ∈ liveFaces now pit i ↔ ∃ entry, pit[i]? = some entry ∧ ∃ record ∈ entry.m_inRecords,
      now < record.m_expiry ∧ record.m_face = face := by
  unfold liveFaces
  cases pit[i]? with
  | none => simp
  | some entry => simp [pendingDownstreams, and_assoc]

theorem nodup_liveFaces (now : ℤ) (pit : List PitEntry) (i : ℕ) : (liveFaces now pit i).Nodup := by
  unfold liveFaces
  cases pit[i]? with
  | none => exact List.nodup_nil
  | some entry => exact List.nodup_dedup _

theorem liveFaces_modify {now : ℤ} {pit : List PitEntry} (i j : ℕ) {f : PitEntry → PitEntry}
    (hf : ∀ entry, (f entry).m_inRecords = entry.m_inRecords) :
    liveFaces now (pit.modify i f) j = liveFaces now pit j := by
  unfold liveFaces
  rw [List.getElem?_modify]
  cases pit[j]? with
  | none => rfl
  | some entry =>
    by_cases h : i = j
    · simp [h, pendingDownstreams, hf]
    · simp [h]

theorem liveFaces_clear {now : ℤ} {pit : List PitEntry} (i j : ℕ) {f : PitEntry → PitEntry}
    (hf : ∀ entry, (f entry).m_inRecords = []) :
    liveFaces now (pit.modify i f) j = if i = j then [] else liveFaces now pit j := by
  unfold liveFaces
  rw [List.getElem?_modify]
  cases pit[j]? with
  | none => simp
  | some entry =>
    by_cases h : i = j
    · simp [h, pendingDownstreams, hf]
    · simp [h]

end Sending

section Satisfying

variable {ctx : Context κ} {inFace : Face} {data : Data}

theorem dispatchToStrategy_base (hbase : ∀ entry, ctx.findEffectiveStrategy entry = Strategy.base ctx.now) (i : ℕ)
    (trigger : Strategy κ → Tables κ → Tables κ) (tables : Tables κ) :
    dispatchToStrategy ctx i trigger tables =
      if i < tables.m_pit.length then trigger (Strategy.base ctx.now) tables else tables := by
  unfold dispatchToStrategy
  by_cases h : i < tables.m_pit.length
  · rw [List.getElem?_eq_getElem h, if_pos h]
    simp only [hbase]
  · rw [List.getElem?_eq_none (by omega), if_neg h]

theorem satisfyOnlyEntry_sent (hbase : ∀ entry, ctx.findEffectiveStrategy entry = Strategy.base ctx.now) (i : ℕ)
    (tables : Tables κ) : (satisfyOnlyEntry ctx inFace data i tables).sent = tables.sent ++
      (((liveFaces ctx.now tables.m_pit i).filter (fun face => ¬ isBackToSender inFace face)).filter
        (goesOut data)).map (fun face => (face, data)) := by
  have hlive : liveFaces ctx.now (setExpiryTimer ctx.now i 0 tables).m_pit i = liveFaces ctx.now tables.m_pit i :=
    liveFaces_modify i i fun _ => rfl
  simp only [satisfyOnlyEntry, Tables.modifyEntry, insertDeadNonceList_sent, dispatchToStrategy_base hbase]
  by_cases h : i < (setExpiryTimer ctx.now i 0 tables).m_pit.length
  · rw [if_pos h]
    rw [← hlive]
    exact sendDataToAll_sent ctx.now i inFace (setExpiryTimer ctx.now i 0 tables)
  · have hnone : liveFaces ctx.now (setExpiryTimer ctx.now i 0 tables).m_pit i = [] := by
      rw [liveFaces, List.getElem?_eq_none (by omega)]
    rw [if_neg h, ← hlive, hnone]
    simp [setExpiryTimer, Tables.modifyEntry]

theorem satisfyEntry_spec (hbase : ∀ entry, ctx.findEffectiveStrategy entry = Strategy.base ctx.now) (i : ℕ)
    (tables : Tables κ) : (satisfyEntry ctx inFace data i tables).sent = tables.sent ∧
      ∀ j, liveFaces ctx.now (satisfyEntry ctx inFace data i tables).m_pit j =
        if i = j then [] else liveFaces ctx.now tables.m_pit j := by
  have hdispatch : ∀ tables : Tables κ, dispatchToStrategy ctx i
      (fun strategy => strategy.beforeSatisfyInterest i inFace data) tables = tables := by
    intro tables
    rw [dispatchToStrategy_base hbase]
    split <;> rfl
  refine ⟨?_, fun j => ?_⟩
  · simp only [satisfyEntry, hdispatch, Tables.modifyEntry, insertDeadNonceList_sent]
    rfl
  · simp only [satisfyEntry, hdispatch, Tables.modifyEntry, insertDeadNonceList_sent]
    rw [liveFaces_clear i j fun _ => rfl]
    split
    · rfl
    · refine (liveFaces_modify i j ?_).trans (liveFaces_modify i j ?_) <;> exact fun _ => rfl

theorem satisfyEntries_spec (hbase : ∀ entry, ctx.findEffectiveStrategy entry = Strategy.base ctx.now)
    (matched : List ℕ) {pending : List Face} (hpending : pending.Nodup) (tables : Tables κ) :
    (satisfyEntries ctx inFace data matched pending tables).2.sent = tables.sent ∧
      (satisfyEntries ctx inFace data matched pending tables).1.Nodup ∧
      ∀ face, face ∈ (satisfyEntries ctx inFace data matched pending tables).1 ↔
        face ∈ pending ∨ ∃ i ∈ matched, face ∈ liveFaces ctx.now tables.m_pit i := by
  induction matched generalizing pending tables with
  | nil => exact ⟨rfl, hpending, fun face => by simp [satisfyEntries]⟩
  | cons i matched ih =>
    obtain ⟨hsent, hlive⟩ := @satisfyEntry_spec κ ctx inFace data hbase i tables
    have hnodup : (pending ++ (liveFaces ctx.now tables.m_pit i).filter (fun face => face ∉ pending)).Nodup := by
      apply hpending.append ((nodup_liveFaces ctx.now tables.m_pit i).filter _)
      intro face hmem hmem'
      exact absurd hmem (by simpa using (List.mem_filter.mp hmem').2)
    obtain ⟨hsent', hnodup', hmem⟩ := ih hnodup (satisfyEntry ctx inFace data i tables)
    refine ⟨hsent'.trans hsent, hnodup', fun face => (hmem face).trans ?_⟩
    simp only [List.mem_append, List.mem_filter, decide_eq_true_eq, List.mem_cons, hlive]
    constructor
    · rintro ((h | ⟨h, -⟩) | ⟨j, hj, h⟩)
      · exact Or.inl h
      · exact Or.inr ⟨i, Or.inl rfl, h⟩
      · split at h
        · cases h
        · exact Or.inr ⟨j, Or.inr hj, h⟩
    · rintro (h | ⟨j, rfl | hj, h⟩)
      · exact Or.inl (Or.inl h)
      · by_cases hin : face ∈ pending
        · exact Or.inl (Or.inl hin)
        · exact Or.inl (Or.inr ⟨h, hin⟩)
      · by_cases hij : i = j
        · subst hij
          by_cases hin : face ∈ pending
          · exact Or.inl (Or.inl hin)
          · exact Or.inl (Or.inr ⟨h, hin⟩)
        · exact Or.inr ⟨j, hj, by rwa [if_neg hij]⟩

theorem satisfyMatches_sent (hbase : ∀ entry, ctx.findEffectiveStrategy entry = Strategy.base ctx.now)
    (pitMatches : List ℕ) (tables : Tables κ) : ∃ faces : List Face,
      (satisfyMatches ctx inFace data pitMatches tables).sent =
        tables.sent ++ faces.map (fun face => (face, data)) ∧
      faces.Nodup ∧ ∀ face, face ∈ faces ↔ IsDownstream ctx.now tables.m_pit pitMatches inFace data face := by
  have hdownstream : ∀ (live : List Face) (face : Face), (face ∈ live ↔ ∃ i ∈ pitMatches,
      face ∈ liveFaces ctx.now tables.m_pit i) →
        (face ∈ (live.filter (fun face => ¬ isBackToSender inFace face)).filter (goesOut data) ↔
          IsDownstream ctx.now tables.m_pit pitMatches inFace data face) := by
    intro live face hlive
    simp only [List.mem_filter, hlive, IsDownstream, mem_liveFaces, and_assoc]
    simp
  have hmulti : ∀ pitMatches', pitMatches = pitMatches' → satisfyMatches ctx inFace data pitMatches tables =
      (((satisfyEntries ctx inFace data pitMatches' []
        { tables with m_cs := ctx.insertCs data false tables.m_cs }).1.filter
          (fun face => ¬ isBackToSender inFace face)).foldl (fun tables face => onOutgoingData data face tables)
            (satisfyEntries ctx inFace data pitMatches' [] { tables with m_cs := ctx.insertCs data false tables.m_cs }).2) →
      ∃ faces : List Face, (satisfyMatches ctx inFace data pitMatches tables).sent =
          tables.sent ++ faces.map (fun face => (face, data)) ∧
        faces.Nodup ∧ ∀ face, face ∈ faces ↔ IsDownstream ctx.now tables.m_pit pitMatches inFace data face := by
    rintro pitMatches' rfl heq
    obtain ⟨hsent, hnodup, hmem⟩ := @satisfyEntries_spec κ ctx inFace data hbase pitMatches [] List.nodup_nil
      { tables with m_cs := ctx.insertCs data false tables.m_cs }
    refine ⟨_, ?_, (hnodup.filter _).filter _, fun face => hdownstream _ face ((hmem face).trans (by simp))⟩
    rw [heq, foldl_sent onOutgoingData_sent, hsent]
  rcases pitMatches with _ | ⟨i, _ | ⟨j, pitMatches⟩⟩
  · exact hmulti [] rfl rfl
  · refine ⟨_, satisfyOnlyEntry_sent hbase i _, ((nodup_liveFaces _ _ _).filter _).filter _, fun face => ?_⟩
    exact hdownstream _ face (by simp)
  · exact hmulti (i :: j :: pitMatches) rfl rfl

end Satisfying

section Pipeline

variable {ctx : Context κ} {inFace : Face} {data : Data}

def inRecords (pit : List PitEntry) (pitMatches : List ℕ) : Set FaceRecord :=
  {record | ∃ i ∈ pitMatches, ∃ entry, pit[i]? = some entry ∧ record ∈ entry.m_inRecords}

theorem isDownstream_inRecords {now : ℤ} {pit : List PitEntry} {pitMatches : List ℕ} {face : Face} :
    IsDownstream now pit pitMatches inFace data face ↔
      (∃ record ∈ inRecords pit pitMatches, now < record.m_expiry ∧ record.m_face = face) ∧
        isBackToSender inFace face = false ∧ goesOut data face = true := by
  refine and_congr_left fun _ => ⟨?_, ?_⟩
  · rintro ⟨i, hi, entry, hentry, record, hrecord, h⟩
    exact ⟨record, ⟨i, hi, entry, hentry, hrecord⟩, h⟩
  · rintro ⟨record, ⟨i, hi, entry, hentry, hrecord⟩, h⟩
    exact ⟨i, hi, entry, hentry, record, hrecord, h⟩

/-- A Data packet that is neither dropped for its scope nor a malformed
acknowledgment goes to the downstreams of the matched entries, once each; and any
other matches that have the same in-records send to the same faces. -/
theorem onIncomingData_sends (ctx : Context κ)
    (hbase : ∀ entry, ctx.findEffectiveStrategy entry = Strategy.base ctx.now) (inFace : Face) (data : Data)
    (tables : Tables κ) (hlocal : isViolatingLocalhost inFace data = false)
    (hmatch : ctx.findAllDataMatches tables.m_pit data ≠ [])
    (hack : data.getContentType = 6 → ∃ ack, Ack.ofData ctx.fromIsoString data = .ok ack) :
    ∃ faces : List Face,
      (onIncomingData ctx inFace data tables).tables.sent = tables.sent ++ faces.map (fun face => (face, data)) ∧
      faces.Nodup ∧
      (∀ face, face ∈ faces ↔
        IsDownstream ctx.now tables.m_pit (ctx.findAllDataMatches tables.m_pit data) inFace data face) ∧
      ∀ (pitMatches : List ℕ) (tables' : Tables κ),
        inRecords tables'.m_pit pitMatches = inRecords tables.m_pit (ctx.findAllDataMatches tables.m_pit data) →
        ∃ faces' : List Face,
          (satisfyMatches ctx inFace data pitMatches tables').sent =
            tables'.sent ++ faces'.map (fun face => (face, data)) ∧
          ∀ face, face ∈ faces' ↔ face ∈ faces := by
  have hpipeline : (onIncomingData ctx inFace data tables).tables =
      satisfyMatches ctx inFace data (ctx.findAllDataMatches tables.m_pit data) tables.countData := by
    by_cases htype : data.getContentType = 6
    · obtain ⟨ack, hack⟩ := hack htype
      rw [onIncomingData_acknowledged hlocal hmatch htype hack]
    · rw [onIncomingData_other hlocal hmatch htype]
  obtain ⟨faces, hsent, hnodup, hmem⟩ := @satisfyMatches_sent κ ctx inFace data hbase
    (ctx.findAllDataMatches tables.m_pit data) tables.countData
  refine ⟨faces, by rw [hpipeline, hsent]; rfl, hnodup, hmem, fun pitMatches tables' hrecords => ?_⟩
  obtain ⟨faces', hsent', -, hmem'⟩ := @satisfyMatches_sent κ ctx inFace data hbase pitMatches tables'
  refine ⟨faces', hsent', fun face => ?_⟩
  rw [hmem', hmem, isDownstream_inRecords, isDownstream_inRecords, hrecords]
  rfl

end Pipeline

section Examples

open LeoNdn.KiteRoutes

def plainData : Data := { answer [] with m_metaInfo := ⟨0, 0, none, []⟩ }

theorem onIncomingData_sends_plain : ∃ faces : List Face,
    (onIncomingData forwarder upstream plainData pendingRequest).tables.sent =
      pendingRequest.sent ++ faces.map (fun face => (face, plainData)) ∧
    faces.Nodup ∧
    (∀ face, face ∈ faces ↔ IsDownstream forwarder.now pendingRequest.m_pit
      (forwarder.findAllDataMatches pendingRequest.m_pit plainData) upstream plainData face) ∧
    ∀ (pitMatches : List ℕ) (tables' : Tables (List Data)),
      inRecords tables'.m_pit pitMatches =
        inRecords pendingRequest.m_pit (forwarder.findAllDataMatches pendingRequest.m_pit plainData) →
      ∃ faces' : List Face,
        (satisfyMatches forwarder upstream plainData pitMatches tables').sent =
          tables'.sent ++ faces'.map (fun face => (face, plainData)) ∧
        ∀ face, face ∈ faces' ↔ face ∈ faces :=
  onIncomingData_sends forwarder (fun _ => rfl) upstream plainData pendingRequest (by decide) (by decide)
    (fun h => absurd h (by decide))

def application : Face := ⟨258, .scopeLocal, .pointToPoint⟩

def pendingLocalhost : Tables (List Data) :=
  ⟨0, 0, [⟨⟨LOCALHOST, false, none⟩, [⟨application, 5, 0, 1000⟩], [], false, 0, some 1000⟩], [], [], []⟩

def localhostData : Data := { plainData with m_name := LOCALHOST }

/-- Data of `/localhost` that comes from another host is dropped, whoever waits for it. -/
theorem localhost_dropped :
    forwarder.findAllDataMatches pendingLocalhost.m_pit localhostData = [0] ∧
      IsDownstream forwarder.now pendingLocalhost.m_pit [0] upstream localhostData application ∧
      (onIncomingData forwarder upstream localhostData pendingLocalhost).tables.sent = [] := by
  refine ⟨by decide, ⟨⟨0, List.mem_cons_self, _, rfl, _, List.mem_cons_self, by decide, rfl⟩, by decide, by decide⟩,
    by decide⟩

end Examples

end LeoNdn.DataForwarding
