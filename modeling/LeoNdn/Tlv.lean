import LeoNdn.Loops
import Mathlib.Data.Nat.Notation

/-!
Reading TLV: numbers of variable length, and an element split into the elements
of its value. The decoders throw, as the code does.
-/

namespace LeoNdn.Tlv

open LeoNdn.Loops

inductive Exception
  | tlvError (what : String)
  | invalidArgument (what : String)
  | badCast (what : String)
  | outOfRange (what : String)
  deriving DecidableEq, Repr

structure Block where
  type : ℕ
  value : List UInt8
  deriving DecidableEq, Repr

def bigEndian (bytes : List UInt8) : ℕ := bytes.foldl (fun number octet => number * 256 + octet.toNat) 0

def readNumber (size : ℕ) (bytes : List UInt8) : Option (ℕ × List UInt8) :=
  if bytes.length < size then none else some (bigEndian (bytes.take size), bytes.drop size)

def readVarNumber : List UInt8 → Except Exception (ℕ × List UInt8)
  | [] => .error (.tlvError "Empty buffer during TLV parsing")
  | firstOctet :: bytes =>
    if firstOctet.toNat < 253 then .ok (firstOctet.toNat, bytes)
    else
      match readNumber (if firstOctet = 253 then 2 else if firstOctet = 254 then 4 else 8) bytes with
      | none => .error (.tlvError "Insufficient data during TLV parsing")
      | some read => .ok read

def readType (bytes : List UInt8) : Except Exception (ℕ × List UInt8) := do
  let (type, bytes) ← readVarNumber bytes
  if type > 4294967295 then .error (.tlvError "TLV-TYPE number exceeds allowed maximum")
  else .ok (type, bytes)

/-- One round of the loop in `Block::parse`. -/
def readElement (bytes : List UInt8) : Except Exception (Block × List UInt8) := do
  let (type, bytes) ← readType bytes
  let (length, bytes) ← readVarNumber bytes
  if length > bytes.length then
    .error (.tlvError ("TLV-LENGTH of sub-element of type " ++ toString type ++
      " exceeds TLV-VALUE boundary of parent block"))
  else .ok (⟨type, bytes.take length⟩, bytes.drop length)

/-- The loop in `Block::parse`, with a bound on its rounds. -/
def readElements : ℕ → List UInt8 → Except Exception (List Block)
  | _, [] => .ok []
  | 0, _ => .ok []
  | rounds + 1, bytes => do
    let (element, bytes) ← readElement bytes
    let elements ← readElements rounds bytes
    .ok (element :: elements)

/-- `parse` followed by `elements`. -/
def Block.parse (block : Block) : Except Exception (List Block) :=
  readElements block.value.length block.value

def Block.blockFromValue (block : Block) : Except Exception Block := do
  let (type, bytes) ← readType block.value
  let (length, bytes) ← readVarNumber bytes
  if length ≠ bytes.length then .error (.tlvError "TLV-LENGTH doesn't match buffer size")
  else .ok ⟨type, bytes⟩

/-- The constructor of a block from a buffer, which may hold more than the block. -/
def Block.ofBuffer (buffer : List UInt8) : Except Exception Block := do
  let (type, bytes) ← readType buffer
  let (length, bytes) ← readVarNumber bytes
  if length > bytes.length then .error (.tlvError "Not enough bytes in the buffer to fully parse TLV")
  else .ok ⟨type, bytes.take length⟩

def find (elements : List Block) (type : ℕ) : Option Block :=
  elements.find? (fun element => element.type = type)

def get (block : Block) (elements : List Block) (type : ℕ) : Except Exception Block :=
  match find elements type with
  | some element => .ok element
  | none => .error (.tlvError ("No sub-element of type " ++ toString type ++ " is found in block of type " ++
      toString block.type))

def readNonNegativeInteger (block : Block) : Except Exception ℕ :=
  if block.value.length ∈ [1, 2, 4, 8] then .ok (bigEndian block.value)
  else .error (.tlvError "Invalid length for nonNegativeInteger (only 1, 2, 4, and 8 are allowed)")

/-- `readNonNegativeIntegerAs<R>`, where `max` is the greatest number of `R`. -/
def readNonNegativeIntegerAs (max : ℕ) (block : Block) : Except Exception ℕ := do
  let value ← readNonNegativeInteger block
  if value > max then .error (.tlvError ("Value in TLV element of type " ++ toString block.type ++ " is too large"))
  else .ok value

/-- A type that the decoder must know. -/
def isCriticalType (type : ℕ) : Bool := type ≤ 31 || type % 2 = 1

section Lengths

theorem readVarNumber_length {bytes bytes' : List UInt8} {number : ℕ}
    (h : readVarNumber bytes = .ok (number, bytes')) : bytes'.length < bytes.length := by
  cases bytes with
  | nil => cases h
  | cons firstOctet bytes =>
    simp only [readVarNumber] at h
    split at h
    · cases h
      simp
    · split at h
      · cases h
      · rename_i read hread
        obtain rfl : read = (number, bytes') := Except.ok.inj h
        generalize (if firstOctet = 253 then 2 else if firstOctet = 254 then 4 else 8) = size at hread
        unfold readNumber at hread
        split at hread
        · cases hread
        · cases hread
          simp only [List.length_drop, List.length_cons]
          omega

theorem readType_read {bytes bytes' : List UInt8} {type : ℕ} (h : readType bytes = .ok (type, bytes')) :
    readVarNumber bytes = .ok (type, bytes') ∧ type ≤ 4294967295 := by
  obtain ⟨⟨number, rest⟩, hread, h⟩ := ok_of_bind h
  simp only at h
  split at h
  · cases h
  · cases h
    exact ⟨hread, by omega⟩

theorem readElement_read {bytes bytes' : List UInt8} {element : Block} (h : readElement bytes = .ok (element, bytes')) :
    ∃ rest, readType bytes = .ok (element.type, rest) ∧ bytes'.length < rest.length := by
  obtain ⟨⟨type, rest⟩, htype, h⟩ := ok_of_bind h
  obtain ⟨⟨length, rest'⟩, hlength, h⟩ := ok_of_bind h
  simp only at h
  split at h
  · cases h
  · cases h
    have hshorter := readVarNumber_length hlength
    refine ⟨rest, htype, ?_⟩
    rw [List.length_drop]
    omega

theorem readElement_length {bytes bytes' : List UInt8} {element : Block}
    (h : readElement bytes = .ok (element, bytes')) : bytes'.length < bytes.length := by
  obtain ⟨rest, htype, hshorter⟩ := readElement_read h
  exact Nat.lt_trans hshorter (readVarNumber_length (readType_read htype).1)

theorem readElements_rounds {bytes : List UInt8} {rounds rounds' : ℕ} (h : bytes.length ≤ rounds)
    (h' : bytes.length ≤ rounds') : readElements rounds bytes = readElements rounds' bytes := by
  induction rounds generalizing bytes rounds' with
  | zero =>
    obtain rfl : bytes = [] := List.length_eq_zero_iff.mp (by omega)
    rw [readElements, readElements]
  | succ rounds ih =>
    cases bytes with
    | nil => rw [readElements, readElements]
    | cons octet bytes =>
      cases rounds' with
      | zero => simp at h'
      | succ rounds' =>
        simp only [readElements]
        cases hread : readElement (octet :: bytes) with
        | error e => rfl
        | ok read =>
          have hlength := readElement_length hread
          simp only [List.length_cons] at h h' hlength
          simp only [bind, Except.bind]
          rw [@ih read.2 rounds' (by omega) (by omega)]

theorem parse_cons (type : ℕ) {bytes : List UInt8} (hne : bytes ≠ []) : (Block.mk type bytes).parse = (do
    let (element, rest) ← readElement bytes
    let elements ← (Block.mk type rest).parse
    .ok (element :: elements)) := by
  cases bytes with
  | nil => exact absurd rfl hne
  | cons octet bytes =>
    simp only [Block.parse, List.length_cons, readElements]
    cases hread : readElement (octet :: bytes) with
    | error e => rfl
    | ok read =>
      have hlength := readElement_length hread
      simp only [List.length_cons] at hlength
      simp only [bind, Except.bind]
      rw [@readElements_rounds read.2 _ read.2.length (by omega) (by omega)]

end Lengths

section Types

theorem readElement_type_le {bytes bytes' : List UInt8} {element : Block}
    (h : readElement bytes = .ok (element, bytes')) : element.type ≤ 4294967295 := by
  obtain ⟨rest, htype, -⟩ := readElement_read h
  exact (readType_read htype).2

theorem readElements_types_le {rounds : ℕ} {bytes : List UInt8} {elements : List Block}
    (h : readElements rounds bytes = .ok elements) : ∀ element ∈ elements, element.type ≤ 4294967295 := by
  induction rounds generalizing bytes elements with
  | zero =>
    cases bytes <;> cases h <;> exact fun element helement => absurd helement List.not_mem_nil
  | succ rounds ih =>
    cases bytes with
    | nil =>
      cases h
      exact fun element helement => absurd helement List.not_mem_nil
    | cons octet bytes =>
      obtain ⟨⟨element, rest⟩, hread, h⟩ := ok_of_bind h
      obtain ⟨elements', hrest, h⟩ := ok_of_bind h
      cases h
      intro other hother
      rcases List.mem_cons.mp hother with rfl | hmem
      · exact readElement_type_le hread
      · exact ih hrest other hmem

theorem parse_types_le {block : Block} {elements : List Block} (h : block.parse = .ok elements) :
    ∀ element ∈ elements, element.type ≤ 4294967295 :=
  readElements_types_le h

end Types

section Errors

variable {α β : Type} {p : Exception → Prop}

/-- Whatever the decoder throws satisfies the predicate. -/
def OnlyThrows (p : Exception → Prop) (result : Except Exception α) : Prop := ∀ e, result = .error e → p e

def Exception.isTlvError : Exception → Bool
  | .tlvError _ => true
  | _ => false

theorem OnlyThrows.ok (a : α) : OnlyThrows p (.ok a : Except Exception α) := by
  intro e h
  cases h

theorem OnlyThrows.error {e : Exception} (he : p e) : OnlyThrows p (.error e : Except Exception α) := by
  intro e' h
  cases h
  exact he

theorem OnlyThrows.bind {result : Except Exception α} {next : α → Except Exception β} (hresult : OnlyThrows p result)
    (hnext : ∀ a, OnlyThrows p (next a)) : OnlyThrows p (result >>= next) := by
  cases result with
  | error e => exact OnlyThrows.error (hresult e rfl)
  | ok a => exact hnext a

theorem OnlyThrows.discard {result : Except Exception α} (h : OnlyThrows p result) :
    OnlyThrows p (Functor.discard result) := by
  cases result with
  | error e => exact OnlyThrows.error (h e rfl)
  | ok a => exact OnlyThrows.ok ()

theorem OnlyThrows.ite {c : Prop} [Decidable c] {result other : Except Exception α} (h : OnlyThrows p result)
    (h' : OnlyThrows p other) : OnlyThrows p (if c then result else other) := by
  split
  · exact h
  · exact h'

/-- The decoder throws nothing but `tlv::Error`. -/
abbrev OnlyTlvErrors (result : Except Exception α) : Prop := OnlyThrows (fun e => e.isTlvError = true) result

theorem onlyTlvErrors_tlvError (what : String) : OnlyTlvErrors (.error (.tlvError what) : Except Exception α) :=
  OnlyThrows.error rfl

theorem OnlyThrows.tlvError {result : Except Exception α} (h : OnlyTlvErrors result) {e : Exception}
    (hresult : result = .error e) : ∃ what, e = .tlvError what := by
  have he := h e hresult
  cases e with
  | tlvError what => exact ⟨what, rfl⟩
  | _ => cases he

theorem readVarNumber_errors (bytes : List UInt8) : OnlyTlvErrors (readVarNumber bytes) := by
  cases bytes with
  | nil => exact onlyTlvErrors_tlvError _
  | cons firstOctet bytes =>
    unfold readVarNumber
    refine OnlyThrows.ite (OnlyThrows.ok _) ?_
    split
    · exact onlyTlvErrors_tlvError _
    · exact OnlyThrows.ok _

theorem readType_errors (bytes : List UInt8) : OnlyTlvErrors (readType bytes) :=
  (readVarNumber_errors bytes).bind fun _ => OnlyThrows.ite (onlyTlvErrors_tlvError _) (OnlyThrows.ok _)

theorem readElement_errors (bytes : List UInt8) : OnlyTlvErrors (readElement bytes) :=
  (readType_errors bytes).bind fun _ => (readVarNumber_errors _).bind fun _ =>
    OnlyThrows.ite (onlyTlvErrors_tlvError _) (OnlyThrows.ok _)

theorem readElements_errors (rounds : ℕ) (bytes : List UInt8) : OnlyTlvErrors (readElements rounds bytes) := by
  induction rounds generalizing bytes with
  | zero => cases bytes <;> exact OnlyThrows.ok _
  | succ rounds ih =>
    cases bytes with
    | nil => exact OnlyThrows.ok _
    | cons octet bytes =>
      exact (readElement_errors _).bind fun _ => (ih _).bind fun _ => OnlyThrows.ok _

theorem parse_errors (block : Block) : OnlyTlvErrors block.parse := readElements_errors _ _

end Errors

end LeoNdn.Tlv
