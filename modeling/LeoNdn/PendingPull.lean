import LeoNdn.Forwarder

/-!
The face table, and the Interests that are pulled towards a face when a route
through it has been announced.
-/

namespace LeoNdn.PendingPull

open LeoNdn.NdnPacket LeoNdn.Forwarder

structure FaceTable where
  m_faces : List Face
  m_lastFaceId : ℕ
  deriving DecidableEq, Repr

namespace FaceTable

variable (faces : FaceTable)

def get (id : ℕ) : Option Face := faces.m_faces.find? (fun face => face.id = id)

def FACEID_RESERVED_MAX : ℕ := 255

/-- A face without an id, or with one that is not in the table, is given the next id. -/
def add (face : Face) : FaceTable :=
  if face.id ≠ 0 ∧ (faces.get face.id).isSome then faces
  else ⟨faces.m_faces ++ [{ face with id := faces.m_lastFaceId + 1 }], faces.m_lastFaceId + 1⟩

def erase (id : ℕ) : FaceTable := { faces with m_faces := faces.m_faces.filter (fun face => face.id ≠ id) }

end FaceTable

/-- An Interest that will be sent by a face, which is kept as a pointer. -/
structure PendingSend where
  time : ℤ
  outFace : Face
  interest : Interest
  deriving DecidableEq, Repr

/-- What the calls of other parts of the forwarder change; the events of the
scheduler are those that a pull has put there. -/
structure State (κ : Type) where
  m_faceTable : FaceTable
  tables : Tables κ
  scheduled : List PendingSend

variable {κ : Type}

def Tables.cleanup (face : Face) (tables : Tables κ) : Tables κ :=
  { tables with m_pit := tables.m_pit.map (fun entry =>
      { entry with
        m_inRecords := deleteRecord face entry.m_inRecords, m_outRecords := deleteRecord face entry.m_outRecords }) }

/-- `FaceTable::remove` with the signal that goes before it; nothing where the
face is not in the table. -/
def removeFace (id : ℕ) (s : State κ) : Option (State κ) :=
  (s.m_faceTable.get id).map (fun face =>
    { s with tables := Tables.cleanup face s.tables, m_faceTable := s.m_faceTable.erase id })

/-- The loop condition of the pull: the entry has in-records, but no record of the face. -/
def isPulled (outFace : Face) (pitEntry : PitEntry) : Bool :=
  ! pitEntry.m_inRecords.isEmpty && pitEntry.m_inRecords.all (fun record => record.m_face ≠ outFace) &&
    pitEntry.m_outRecords.all (fun record => record.m_face ≠ outFace)

def decrement (cnt : ℕ) : ℕ := if cnt = 0 then 4294967295 else cnt - 1

/-- The loop over the PIT entries of one name; it ends where the counter is 0. -/
def collectPulls (outFace : Face) : List PitEntry → ℕ → List PitEntry → ℕ × List PitEntry
  | [], cnt, pendingPulls => (cnt, pendingPulls)
  | pitEntry :: pitEntries, cnt, pendingPulls =>
    let pulled := isPulled outFace pitEntry
    let cnt := if pulled then decrement cnt else cnt
    let pendingPulls := if pulled then pendingPulls ++ [pitEntry] else pendingPulls
    if cnt = 0 then (cnt, pendingPulls) else collectPulls outFace pitEntries cnt pendingPulls

def lastExpiry (pitEntry : PitEntry) : Option ℤ := (pitEntry.m_inRecords.map FaceRecord.m_expiry).max?

/-- The sends of one round, of the entries whose last in-record has not expired. -/
def schedulePulls (now : ℤ) (outFace : Face) (pendingPulls : List PitEntry) : List PendingSend :=
  (pendingPulls.filter (fun pitEntry => (lastExpiry pitEntry).any (fun expiry => 0 < expiry - now))).map
    (fun pitEntry => ⟨now + 1000000, outFace, pitEntry.m_interest⟩)

/-- The loop over the names; the entries of earlier rounds stay among the pulls. -/
def pullRounds (now : ℤ) (outFace : Face) : List (List PitEntry) → ℕ → List PitEntry → List PendingSend
  | [], _, _ => []
  | pitEntries :: names, cnt, pendingPulls =>
    let (cnt, pendingPulls) := collectPulls outFace pitEntries cnt pendingPulls
    schedulePulls now outFace pendingPulls ++ pullRounds now outFace names cnt pendingPulls

/-- The name tree: the PIT entries of each name under a prefix that has any. -/
structure Pull where
  m_doPull : Bool
  partialEnumerate : List PitEntry → Name → List (List PitEntry)

def doPull (pull : Pull) (now : ℤ) (namePrefix : Name) (outFace : Face) (s : State κ) : State κ :=
  if pull.m_doPull then
    { s with scheduled := s.scheduled ++
        pullRounds now outFace (pull.partialEnumerate s.tables.m_pit namePrefix) 1000 [] }
  else s

section Sends

variable {now : ℤ} {outFace : Face}

theorem schedulePulls_outFace {pendingPulls : List PitEntry} {send : PendingSend}
    (h : send ∈ schedulePulls now outFace pendingPulls) : send.outFace = outFace := by
  obtain ⟨pitEntry, -, rfl⟩ := List.mem_map.mp h
  rfl

theorem pullRounds_outFace {names : List (List PitEntry)} {cnt : ℕ} {pendingPulls : List PitEntry}
    {send : PendingSend} (h : send ∈ pullRounds now outFace names cnt pendingPulls) : send.outFace = outFace := by
  induction names generalizing cnt pendingPulls with
  | nil => cases h
  | cons pitEntries names ih =>
    rcases List.mem_append.mp h with hround | hrest
    · exact schedulePulls_outFace hround
    · exact ih hrest

theorem doPull_scheduled {pull : Pull} {namePrefix : Name} {s : State κ} {send : PendingSend}
    (h : send ∈ (doPull pull now namePrefix outFace s).scheduled) : send ∈ s.scheduled ∨ send.outFace = outFace := by
  unfold doPull at h
  split at h
  · rcases List.mem_append.mp h with hold | hnew
    · exact Or.inl hold
    · exact Or.inr (pullRounds_outFace hnew)
  · exact Or.inl h

end Sends

section Faces

variable {faces : FaceTable} {id : ℕ} {face : Face}

theorem get_id (h : faces.get id = some face) : face.id = id := by
  simpa using List.find?_some h

theorem get_mem (h : faces.get id = some face) : face ∈ faces.m_faces := List.mem_of_find?_eq_some h

theorem get_isSome_of_mem (h : face ∈ faces.m_faces) : (faces.get face.id).isSome = true := by
  rw [FaceTable.get, List.find?_isSome]
  exact ⟨face, h, by simp⟩

theorem get_erase {other : ℕ} (hne : other ≠ id) : (faces.erase id).get other = faces.get other := by
  unfold FaceTable.erase FaceTable.get
  rw [List.find?_filter]
  congr 1
  funext face
  by_cases h : face.id = other
  · simp [h, hne]
  · simp [h]

theorem mem_add (h : face ∈ faces.m_faces) (added : Face) : face ∈ (faces.add added).m_faces := by
  unfold FaceTable.add
  split
  · exact h
  · exact List.mem_append_left _ h

theorem mem_cleanup {tables : Tables κ} {entry : PitEntry} (h : entry ∈ (Tables.cleanup face tables).m_pit) :
    ∃ before ∈ tables.m_pit, entry.m_inRecords = deleteRecord face before.m_inRecords ∧
      entry.m_outRecords = deleteRecord face before.m_outRecords := by
  obtain ⟨before, hbefore, rfl⟩ := List.mem_map.mp h
  exact ⟨before, hbefore, rfl, rfl⟩

end Faces

end LeoNdn.PendingPull
