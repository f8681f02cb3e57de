import LeoNdn.Forwarder

/-!
The receive path of the link service of a face, down to the forwarder. What
keeps link-layer packets reliable and puts their fragments together is a
parameter, and so is what handles an Interest.
-/

namespace LeoNdn.LinkService

open LeoNdn.Tlv LeoNdn.NdnPacket LeoNdn.KiteProtocol LeoNdn.Forwarder

section LpPackets

structure FieldInfo where
  tlvType : ℕ
  isRecognized : Bool
  canIgnore : Bool
  isRepeatable : Bool
  locationSortOrder : ℕ
  deriving DecidableEq, Repr

/-- The fields of `FieldSet` that are headers. -/
def headerFields : List ℕ := [81, 82, 83, 84, 800, 816, 817, 820, 832, 836, 840, 844, 848]

def FieldInfo.ofType (type : ℕ) : FieldInfo :=
  if type = 80 then ⟨type, true, false, false, 2⟩
  else if type ∈ headerFields then ⟨type, true, false, type = 836, 1⟩
  else ⟨type, false, 800 ≤ type && type ≤ 959 && type % 4 = 0, false, 1⟩

def compareFieldSortOrder (first second : FieldInfo) : Bool :=
  first.locationSortOrder < second.locationSortOrder ||
    (first.locationSortOrder = second.locationSortOrder && first.tlvType < second.tlvType)

structure LpPacket where
  elements : List Block
  deriving DecidableEq, Repr

/-- The loop over the fields; `prev` is the field before, if there is one. -/
def checkFields : Option FieldInfo → List Block → Except Exception Unit
  | _, [] => .ok ()
  | prev, element :: elements =>
    let info := FieldInfo.ofType element.type
    if ¬ info.isRecognized ∧ ¬ info.canIgnore then
      .error (.tlvError ("unrecognized field " ++ toString element.type ++ " cannot be ignored"))
    else
      match prev with
      | none => checkFields (some info) elements
      | some prev =>
        if info.tlvType = prev.tlvType ∧ ¬ info.isRepeatable then
          .error (.tlvError ("non-repeatable field " ++ toString element.type ++ " cannot be repeated"))
        else if info.tlvType ≠ prev.tlvType ∧ ¬ compareFieldSortOrder prev info then
          .error (.tlvError "fields are not in correct sort order")
        else checkFields (some info) elements

/-- A packet that the transport has received, and its own encoding. -/
structure TransportPacket where
  packet : Block
  wire : List UInt8
  remoteEndpoint : ℕ

/-- An Interest or a Data packet is a packet whose only field is its fragment. -/
def LpPacket.wireDecode (packet : TransportPacket) : Except Exception LpPacket :=
  if packet.packet.type = 5 ∨ packet.packet.type = 6 then .ok ⟨[⟨80, packet.wire⟩]⟩
  else if packet.packet.type ≠ 100 then
    .error (.tlvError ("unrecognized TLV-TYPE " ++ toString packet.packet.type))
  else do
    let elements ← packet.packet.parse
    checkFields none elements
    .ok ⟨elements⟩

def LpPacket.has (pkt : LpPacket) (type : ℕ) : Bool := pkt.elements.any (fun element => element.type = type)

def LpPacket.get {α : Type} (pkt : LpPacket) (type : ℕ) (decode : Block → Except Exception α) : Except Exception α :=
  match find pkt.elements type with
  | some element => decode element
  | none => .error (.outOfRange "Index out of range")

/-- Decodes a field where there is one. -/
def LpPacket.checkField {α : Type} (pkt : LpPacket) (type : ℕ) (decode : Block → Except Exception α) :
    Except Exception Unit :=
  if pkt.has type then discard (pkt.get type decode) else .ok ()

end LpPackets

section Fields

def decodeUint64 (wire : Block) : Except Exception ℕ :=
  if wire.value.length ≠ 8 then
    .error (.tlvError ("NDNLP field of TLV-TYPE " ++ toString wire.type ++ " should contain a 64-bit integer"))
  else .ok (bigEndian wire.value)

def decodeFragment (wire : Block) : Except Exception (List UInt8) :=
  if wire.value = [] then
    .error (.tlvError ("NDNLP field of TLV-TYPE " ++ toString wire.type ++ " cannot be empty"))
  else .ok wire.value

/-- The number is cut to the 32 bits of the enumeration, of which only
`NO_CACHE` is known. -/
def CachePolicy.wireDecode (wire : Block) : Except Exception ℕ :=
  if wire.type ≠ 820 then .error (.tlvError "expecting CachePolicy block")
  else do
    let elements ← wire.parse
    match elements with
    | [] => .error (.tlvError "expecting CachePolicyType block")
    | element :: _ =>
      if element.type ≠ 821 then .error (.tlvError "expecting CachePolicyType block")
      else do
        let policy ← readNonNegativeInteger element
        if policy % 4294967296 ≠ 1 then .error (.tlvError "unknown CachePolicyType") else .ok (policy % 4294967296)

def PrefixAnnouncementHeader.wireDecode (fromIsoString : List UInt8 → Except Exception ℤ) (wire : Block) :
    Except Exception PrefixAnnouncement :=
  if wire.type ≠ 848 then .error (.tlvError ("Unexpected TLV-TYPE " ++ toString wire.type))
  else do
    let elements ← wire.parse
    let element ← get wire elements 6
    let data ← Data.wireDecode element
    PrefixAnnouncement.ofData fromIsoString data

end Fields

variable {σ κ : Type}

/-- The counters and the state of the link service, and the forwarder above it. -/
structure Node (σ κ : Type) where
  nInLpInvalid : ℕ
  nInNetInvalid : ℕ
  nInData : ℕ
  lp : σ
  tables : Tables κ
  posted : List SlAnnounce

def Node.countLpInvalid (node : Node σ κ) : Node σ κ := { node with nInLpInvalid := node.nInLpInvalid + 1 }

def Node.countNetInvalid (node : Node σ κ) : Node σ κ := { node with nInNetInvalid := node.nInNetInvalid + 1 }

structure LinkContext (σ κ : Type) where
  forwarder : Context κ
  reliabilityIsEnabled : Bool
  allowReassembly : Bool
  allowSelfLearning : Bool
  nMaxFragments : ℕ
  processIncomingPacket : LpPacket → σ → Option Exception × σ
  addToPartialPacket : ℕ → LpPacket → σ → Except Exception (Option (Block × LpPacket)) × σ
  receiveInterest : Block → LpPacket → Node σ κ → Option Exception × Node σ κ

section Decoding

/-- What `decodeData` does with the fields of the header: whether it goes on to
receive the Data. -/
def admitsData (ctx : LinkContext σ κ) (firstPkt : LpPacket) : Except Exception Bool := do
  firstPkt.checkField 84 decodeUint64
  if firstPkt.has 800 ∨ firstPkt.has 816 then .ok false
  else do
    firstPkt.checkField 820 CachePolicy.wireDecode
    firstPkt.checkField 832 readNonNegativeInteger
    if firstPkt.has 844 then .ok false
    else if ctx.allowSelfLearning then do
      firstPkt.checkField 848 (PrefixAnnouncementHeader.wireDecode ctx.forwarder.fromIsoString)
      .ok true
    else .ok true

def receiveData (ctx : LinkContext σ κ) (face : Face) (data : Data) (node : Node σ κ) : Option Exception × Node σ κ :=
  let outcome := onIncomingData ctx.forwarder face data node.tables
  (outcome.thrown,
    { node with nInData := node.nInData + 1, tables := outcome.tables, posted := node.posted ++ outcome.posted })

def decodeData (ctx : LinkContext σ κ) (face : Face) (netPkt : Block) (firstPkt : LpPacket) (node : Node σ κ) :
    Option Exception × Node σ κ :=
  match Data.wireDecode netPkt with
  | .error e => (some e, node)
  | .ok data =>
    match admitsData ctx firstPkt with
    | .error e => (some e, node)
    | .ok false => (none, node.countNetInvalid)
    | .ok true => receiveData ctx face data node

/-- A handler of `tlv::Error`; other exceptions go on. -/
def catchTlvError (handler : Node σ κ → Node σ κ) (result : Option Exception × Node σ κ) :
    Option Exception × Node σ κ :=
  match result.1 with
  | some (.tlvError _) => (none, handler result.2)
  | _ => result

def decodeNetPacket (ctx : LinkContext σ κ) (face : Face) (netPkt : Block) (firstPkt : LpPacket) (node : Node σ κ) :
    Option Exception × Node σ κ :=
  catchTlvError Node.countNetInvalid
    (if netPkt.type = 5 then ctx.receiveInterest netPkt firstPkt node
    else if netPkt.type = 6 then decodeData ctx face netPkt firstPkt node
    else (none, node.countNetInvalid))

inductive Fragmentation
  | dropped
  | whole (netPkt : Block)
  | incomplete
  deriving DecidableEq, Repr

/-- The part of `receiveFragment` before it looks at partial packets. -/
def readFragment (nMaxFragments : ℕ) (packet : LpPacket) : Except Exception Fragmentation := do
  let fragIndex ← if packet.has 82 then packet.get 82 readNonNegativeInteger else .ok 0
  let fragCount ← if packet.has 83 then packet.get 83 readNonNegativeInteger else .ok 1
  if fragIndex ≥ fragCount ∨ fragCount > nMaxFragments then .ok .dropped
  else if fragIndex = 0 ∧ fragCount = 1 then do
    let fragment ← packet.get 80 decodeFragment
    let netPkt ← Block.ofBuffer fragment
    .ok (.whole netPkt)
  else .ok .incomplete

/-- The part of `doReceivePacket` that ends with `receiveFragment`. -/
def receiveLpPacket (ctx : LinkContext σ κ) (packet : TransportPacket) (lp : σ) :
    Except Exception (Option (Block × LpPacket)) × σ :=
  match LpPacket.wireDecode packet with
  | .error e => (.error e, lp)
  | .ok pkt =>
    match if ctx.reliabilityIsEnabled then ctx.processIncomingPacket pkt lp else (none, lp) with
    | (some e, lp) => (.error e, lp)
    | (none, lp) =>
      if ¬ pkt.has 80 then (.ok none, lp)
      else if (pkt.has 82 ∨ pkt.has 83) ∧ ¬ ctx.allowReassembly then (.ok none, lp)
      else
        match readFragment ctx.nMaxFragments pkt with
        | .error e => (.error e, lp)
        | .ok .dropped => (.ok none, lp)
        | .ok (.whole netPkt) => (.ok (some (netPkt, pkt)), lp)
        | .ok .incomplete => ctx.addToPartialPacket packet.remoteEndpoint pkt lp

def doReceivePacket (ctx : LinkContext σ κ) (face : Face) (packet : TransportPacket) (node : Node σ κ) :
    Option Exception × Node σ κ :=
  catchTlvError Node.countLpInvalid
    (match receiveLpPacket ctx packet node.lp with
    | (.error e, lp) => (some e, { node with lp := lp })
    | (.ok none, lp) => (none, { node with lp := lp })
    | (.ok (some (netPkt, firstPkt)), lp) => decodeNetPacket ctx face netPkt firstPkt { node with lp := lp })

end Decoding

end LeoNdn.LinkService
