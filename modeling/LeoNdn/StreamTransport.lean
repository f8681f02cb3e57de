import LeoNdn.Framing
import LeoNdn.TlvEncoding
import Mathlib.Data.Bool.Basic

/-!
Two transports at the ends of a stream connection: packets are written to it one
after the other, the bytes come in pieces of any size, and each end may close or fail.
-/

namespace LeoNdn.StreamTransport

open LeoNdn.Tlv LeoNdn.Loops LeoNdn.Framing

section Buffers

/-- `Block::fromBuffer`: the bytes of the element, and those after it. -/
def fromBuffer (buf : List UInt8) : Option (List UInt8 × List UInt8) :=
  match readElement buf with
  | .ok (_, rest) => some (buf.take (buf.length - rest.length), rest)
  | .error _ => none

theorem readNumber_append {size number : ℕ} {bytes rest : List UInt8} (h : readNumber size bytes = some (number, rest))
    (more : List UInt8) : readNumber size (bytes ++ more) = some (number, rest ++ more) := by
  unfold readNumber at h ⊢
  split at h
  · cases h
  · rename_i hlength
    cases h
    have hle := Nat.not_lt.mp hlength
    rw [if_neg (by rw [List.length_append]; omega), List.take_append_of_le_length hle, List.drop_append_of_le_length hle]

theorem readVarNumber_append {number : ℕ} {bytes rest : List UInt8} (h : readVarNumber bytes = .ok (number, rest))
    (more : List UInt8) : readVarNumber (bytes ++ more) = .ok (number, rest ++ more) := by
  cases bytes with
  | nil => cases h
  | cons firstOctet bytes =>
    rw [List.cons_append]
    simp only [readVarNumber] at h ⊢
    split
    · rename_i hsmall
      rw [if_pos hsmall] at h
      cases h
      rfl
    · rename_i hlarge
      rw [if_neg hlarge] at h
      split at h
      · cases h
      · rename_i read hread
        obtain rfl : read = (number, rest) := Except.ok.inj h
        rw [readNumber_append hread more]

theorem readElement_append {element : Block} {bytes rest : List UInt8} (h : readElement bytes = .ok (element, rest))
    (more : List UInt8) : readElement (bytes ++ more) = .ok (element, rest ++ more) := by
  obtain ⟨⟨type, afterType⟩, htype, h⟩ := ok_of_bind h
  obtain ⟨⟨length, afterLength⟩, hlength, h⟩ := ok_of_bind h
  obtain ⟨hread, hle⟩ := readType_read htype
  have htype' : readType (bytes ++ more) = .ok (type, afterType ++ more) := by
    rw [readType, readVarNumber_append hread more]
    simp only [bind, Except.bind]
    rw [if_neg (Nat.not_lt.mpr hle)]
  simp only at h
  split at h
  · cases h
  · rename_i henough
    cases h
    have hshort := Nat.not_lt.mp henough
    rw [readElement, htype']
    simp only [bind, Except.bind]
    rw [readVarNumber_append hlength more]
    simp only
    rw [if_neg (by rw [List.length_append]; omega), List.take_append_of_le_length hshort,
      List.drop_append_of_le_length hshort]

theorem readVarNumber_suffix {number : ℕ} {bytes rest : List UInt8} (h : readVarNumber bytes = .ok (number, rest)) :
    rest <:+ bytes := by
  cases bytes with
  | nil => cases h
  | cons firstOctet bytes =>
    simp only [readVarNumber] at h
    split at h
    · cases h
      exact List.suffix_cons _ _
    · split at h
      · cases h
      · rename_i read hread
        obtain rfl : read = (number, rest) := Except.ok.inj h
        generalize (if firstOctet = 253 then 2 else if firstOctet = 254 then 4 else 8) = size at hread
        unfold readNumber at hread
        split at hread
        · cases hread
        · cases hread
          exact (List.drop_suffix _ _).trans (List.suffix_cons _ _)

theorem readElement_suffix {element : Block} {bytes rest : List UInt8} (h : readElement bytes = .ok (element, rest)) :
    rest <:+ bytes := by
  obtain ⟨⟨type, afterType⟩, htype, h⟩ := ok_of_bind h
  obtain ⟨⟨length, afterLength⟩, hlength, h⟩ := ok_of_bind h
  have hsuffix := (readVarNumber_suffix hlength).trans (readVarNumber_suffix (readType_read htype).1)
  simp only at h
  split at h
  · cases h
  · cases h
    exact (List.drop_suffix _ _).trans hsuffix

theorem fromBuffer_eq_some {buf frame rest : List UInt8} (h : fromBuffer buf = some (frame, rest)) :
    ∃ element, readElement buf = .ok (element, rest) ∧ buf = frame ++ rest := by
  unfold fromBuffer at h
  split at h
  · rename_i element rest' hread
    obtain ⟨rfl, rfl⟩ := Prod.mk.inj (Option.some.inj h)
    obtain ⟨frame, hframe⟩ := readElement_suffix hread
    refine ⟨element, hread, ?_⟩
    have htake : buf.take (buf.length - rest'.length) = frame := by
      rw [← hframe, List.length_append, Nat.add_sub_cancel, List.take_left]
    rw [htake, hframe]
  · cases h

theorem fromBuffer_ne_nil {buf frame rest : List UInt8} (h : fromBuffer buf = some (frame, rest)) : frame ≠ [] := by
  obtain ⟨element, hread, hsplit⟩ := fromBuffer_eq_some h
  have hlength := readElement_length hread
  rw [hsplit, List.length_append] at hlength
  exact List.length_pos_iff.mp (by omega)

theorem fromBuffer_append {buf frame rest : List UInt8} (more : List UInt8) (h : fromBuffer buf = some (frame, rest)) :
    fromBuffer (buf ++ more) = some (frame, rest ++ more) := by
  obtain ⟨element, hread, hsplit⟩ := fromBuffer_eq_some h
  have hlength : (buf ++ more).length - (rest ++ more).length = frame.length := by
    rw [hsplit]
    simp only [List.length_append]
    omega
  have htake : (buf ++ more).take ((buf ++ more).length - (rest ++ more).length) = frame := by
    rw [hlength, hsplit, List.append_assoc, List.take_left]
  rw [fromBuffer, readElement_append hread more]
  exact congrArg (fun taken => some (taken, rest ++ more)) htake

def elements : Splitter UInt8 where
  split := fromBuffer
  eq_append _ _ _ h := (fromBuffer_eq_some h).choose_spec.2
  ne_nil _ _ _ h := fromBuffer_ne_nil h
  append _ _ _ more h := fromBuffer_append more h

end Buffers

inductive TransportState
  | up
  | down
  | closing
  | failed
  | closed
  deriving DecidableEq, Repr

inductive ErrorCode
  | operationAborted
  | shutDown
  | eof
  | other
  deriving DecidableEq, Repr

def maxNdnPacketSize : ℕ := 8800

/-- A transport; `writing` holds how many bytes of the packet in front an asynchronous
write has handed over, and `posted` counts the calls of `deferredClose` that are due. -/
structure Transport where
  m_state : TransportState
  m_receiveBuffer : List UInt8
  m_sendQueue : List (List UInt8)
  m_sendQueueBytes : ℕ
  writing : Option ℕ
  receiving : Bool
  posted : ℕ
  nOutPackets : ℕ
  nOutBytes : ℕ
  nInPackets : ℕ
  nInBytes : ℕ
  received : List (List UInt8)
  deriving DecidableEq, Repr

namespace Transport

def initial : Transport := ⟨.up, [], [], 0, none, true, 0, 0, 0, 0, 0, []⟩

def isValid : TransportState → TransportState → Bool
  | .up, newState => newState = .down || newState = .closing || newState = .failed
  | .down, newState => newState = .up || newState = .closing || newState = .failed
  | .closing, newState => newState = .closed
  | .failed, newState => newState = .closed
  | .closed, _ => false

variable (s : Transport)

def setState (newState : TransportState) : Except String Transport :=
  if s.m_state = newState then .ok s
  else if isValid s.m_state newState then .ok { s with m_state := newState }
  else .error "invalid state transition"

def doClose : Transport := { s with posted := s.posted + 1 }

def resetSendQueue : Transport := { s with m_sendQueue := [], m_sendQueueBytes := 0 }

def deferredClose : Except String Transport := { s with posted := s.posted - 1 }.resetSendQueue.setState .closed

def close : Except String Transport :=
  if s.m_state ≠ .up ∧ s.m_state ≠ .down then .ok s else (s.setState .closing).map doClose

def sendFromQueue : Transport := { s with writing := some 0 }

def doSend (packet : List UInt8) : Transport :=
  if s.m_state ≠ .up then s
  else
    let wasQueueEmpty := s.m_sendQueue.isEmpty
    let s := { s with
      m_sendQueue := s.m_sendQueue ++ [packet]
      m_sendQueueBytes := s.m_sendQueueBytes + packet.length }
    if wasQueueEmpty then s.sendFromQueue else s

def countOut (packet : List UInt8) : Transport :=
  { s with nOutPackets := s.nOutPackets + 1, nOutBytes := s.nOutBytes + packet.length }

def send (packet : List UInt8) : Transport :=
  if s.m_state ≠ .up ∧ s.m_state ≠ .down then s
  else if s.m_state = .up then (s.countOut packet).doSend packet
  else s.doSend packet

def handleError (error : ErrorCode) : Except String Transport :=
  (s.setState (if error = .eof then .closing else .failed)).map doClose

def processErrorCode (error : ErrorCode) : Except String Transport :=
  if s.m_state = .closing ∨ s.m_state = .failed ∨ s.m_state = .closed ∨ error = .operationAborted ∨ error = .shutDown then
    .ok s
  else s.handleError error

def handleSendError (error : ErrorCode) : Except String Transport := { s with writing := none }.processErrorCode error

def handleSend (nBytesSent : ℕ) : Transport :=
  let s := { s with
    m_sendQueueBytes := s.m_sendQueueBytes - nBytesSent
    m_sendQueue := s.m_sendQueue.tail
    writing := none }
  if s.m_sendQueue ≠ [] then s.sendFromQueue else s

def receive (packet : List UInt8) : Transport :=
  { s with
    nInPackets := s.nInPackets + 1
    nInBytes := s.nInBytes + packet.length
    received := s.received ++ [packet] }

def handleReceiveError (error : ErrorCode) : Except String Transport :=
  { s with receiving := false }.processErrorCode error

/-- The loop of `handleReceive` stops at an element that is not complete. -/
def handleReceive (bytes : List UInt8) : Except String Transport :=
  let buffer := s.m_receiveBuffer ++ bytes
  let packets := (elements.frames buffer).1
  let rest := (elements.frames buffer).2
  let s := packets.foldl receive { s with m_receiveBuffer := rest }
  if rest ≠ [] ∧ buffer.length = maxNdnPacketSize ∧ packets = [] then
    ({ s with receiving := false }.setState .failed).map doClose
  else .ok s

end Transport

structure Packet where
  wire : List UInt8
  isFrame : elements.IsFrame wire

/-- Two transports, the bytes on their way to each, and the packets that each has put
into its queue. -/
structure Connection where
  ends : Bool → Transport
  inFlight : Bool → List UInt8
  accepted : Bool → List (List UInt8)

def Connection.initial : Connection := ⟨fun _ => Transport.initial, fun _ => [], fun _ => []⟩

/-- What happens at one end: bytes of the packet in front are handed over, a write
ends, bytes come in, an operation fails. -/
inductive Event
  | send (packet : Packet)
  | write (count : ℕ)
  | handleSend
  | handleSendError (error : ErrorCode)
  | handleReceive (count : ℕ)
  | handleReceiveError (error : ErrorCode)
  | close
  | deferredClose

open Function (update)

variable (c : Connection) (here : Bool)

def Connection.setEnd (s : Transport) : Connection := { c with ends := update c.ends here s }

def write (count : ℕ) : Option Connection :=
  match (c.ends here).writing, (c.ends here).m_sendQueue with
  | some done, front :: _ =>
    if done + count ≤ front.length then
      some { c.setEnd here { c.ends here with writing := some (done + count) } with
        inFlight := update c.inFlight (! here) (c.inFlight (! here) ++ (front.drop done).take count) }
    else none
  | _, _ => none

def finishWrite : Option Connection :=
  match (c.ends here).writing, (c.ends here).m_sendQueue with
  | some done, front :: _ =>
    if done = front.length then some (c.setEnd here ((c.ends here).handleSend front.length)) else none
  | _, _ => none

def arrive (count : ℕ) : Option Connection :=
  if (c.ends here).receiving ∧ 0 < count ∧ count ≤ (c.inFlight here).length ∧
      count ≤ maxNdnPacketSize - (c.ends here).m_receiveBuffer.length then
    ((c.ends here).handleReceive ((c.inFlight here).take count)).toOption.map (fun s =>
      { c.setEnd here s with inFlight := update c.inFlight here ((c.inFlight here).drop count) })
  else none

/-- The last two errors come from the `cancel` and `shutdown` of `doClose`. -/
def mayFail (s : Transport) (error : ErrorCode) : Bool :=
  error = .eof || error = .other || (s.m_state ≠ .up && s.m_state ≠ .down)

/-- There is no state after an event that cannot happen or throws. -/
def step : Event → Option Connection
  | .send packet => some { c.setEnd here ((c.ends here).send packet.wire) with
      accepted := update c.accepted here
        (c.accepted here ++ if (c.ends here).m_state = .up then [packet.wire] else []) }
  | .write count => write c here count
  | .handleSend => finishWrite c here
  | .handleSendError error =>
    if (c.ends here).writing.isSome ∧ mayFail (c.ends here) error then
      ((c.ends here).handleSendError error).toOption.map (c.setEnd here) else none
  | .handleReceive count => arrive c here count
  | .handleReceiveError error =>
    if (c.ends here).receiving ∧ mayFail (c.ends here) error then
      ((c.ends here).handleReceiveError error).toOption.map (c.setEnd here) else none
  | .close => (c.ends here).close.toOption.map (c.setEnd here)
  | .deferredClose =>
    if 0 < (c.ends here).posted then (c.ends here).deferredClose.toOption.map (c.setEnd here) else none

def run (events : List (Bool × Event)) : Option Connection :=
  events.foldlM (fun c event => step c event.1 event.2) Connection.initial

end LeoNdn.StreamTransport
