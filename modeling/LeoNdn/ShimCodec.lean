import LeoNdn.HandoverManager
import LeoNdn.NdnEncoding

/-!
The shim packets on the wire: how a block with elements that are not encoded yet
is written, and how `ProcessPacket` reads the blocks that come in.
-/

namespace LeoNdn.ShimCodec

open LeoNdn.Loops LeoNdn.Tlv LeoNdn.TlvEncoding LeoNdn.NdnEncoding
open LeoNdn.HandoverManager (ShimPacket)

/-- A block that has its value, or only elements that have been pushed to it. -/
inductive BlockTree
  | valued (block : Block)
  | nested (type : ℕ) (m_elements : List BlockTree)

mutual

/-- `Block::encode` with an `EncodingBuffer`: a block with a value is written as it is, whatever its wire was. -/
def encode : BlockTree → Block
  | .valued block => block
  | .nested type elements => ⟨type, encodeElements elements⟩

def encodeElements : List BlockTree → List UInt8
  | [] => []
  | element :: elements => wire (encode element) ++ encodeElements elements

end

/-- A block that an encoder has just written. -/
def written (block : Block) : BlockTree := .valued block

def makeStringBlock (type : ℕ) (value : List UInt8) : Block := ⟨type, value⟩

def readString (block : Block) : List UInt8 := block.value

section Types

abbrev AdaptationPacket : ℕ := 600
abbrev PacketType : ℕ := 601
abbrev LinkId : ℕ := 602
abbrev HopLimit : ℕ := 603
abbrev TunnelId : ℕ := 604
abbrev Payload : ℕ := 605

abbrev Type_LinkPayload : ℕ := 0
abbrev Type_TunnelReq : ℕ := 1
abbrev Type_TunnelAck : ℕ := 2

end Types

/-- Each `wireEncode` pushes the type of the packet first. -/
def adaptationPacket (type : ℕ) (elements : List BlockTree) : BlockTree :=
  .nested AdaptationPacket (written (makeNonNegativeIntegerBlock PacketType type) :: elements)

def TunnelReq.wireEncode (m_linkId : List UInt8) (m_hopLimit : UInt64) : Block :=
  encode (adaptationPacket Type_TunnelReq
    [written (makeStringBlock LinkId m_linkId), written (makeNonNegativeIntegerBlock HopLimit m_hopLimit.toNat)])

def TunnelAck.wireEncode (m_linkId : List UInt8) : Block :=
  encode (adaptationPacket Type_TunnelAck [written (makeStringBlock LinkId m_linkId)])

/-- The payload block is pushed without being encoded before. -/
def LinkPayload.wireEncode (m_tunnelId : List UInt8) (m_payload : BlockTree) : Block :=
  encode (adaptationPacket Type_LinkPayload [written (makeStringBlock TunnelId m_tunnelId), .nested Payload [m_payload]])

/-- The branch that `ProcessPacket` takes, with what it reads: a hop limit and a payload only where the branch needs them. -/
inductive Branch
  | LinkPayload (id : List UInt8) (payload : Except Exception Block)
  | TunnelReq (id : List UInt8) (hopLimit : Except Exception ℕ)
  | TunnelAck (id : List UInt8)
  | unrecognized

def branchAt (wire : Block) (elements : List Block) (type : ℕ) : Except Exception Branch :=
  if type = Type_LinkPayload then do
    let id ← get wire elements TunnelId
    .ok (.LinkPayload (readString id) (do
      let payload ← get wire elements Payload
      payload.blockFromValue))
  else if type = Type_TunnelReq then do
    let id ← get wire elements LinkId
    .ok (.TunnelReq (readString id) (do
      let hopLimit ← get wire elements HopLimit
      readNonNegativeInteger hopLimit))
  else if type = Type_TunnelAck then do
    let id ← get wire elements LinkId
    .ok (.TunnelAck (readString id))
  else .ok .unrecognized

/-- The start of `ProcessPacket`, up to the branch. -/
def dispatch (wire : Block) : Except Exception Branch := do
  let elements ← wire.parse
  let type ← get wire elements PacketType
  let type ← readNonNegativeInteger type
  branchAt wire elements type

/-- The branch of a packet from which everything can be read. -/
def branchOf : ShimPacket (List UInt8) Block → Branch
  | .LinkPayload id payload => .LinkPayload id (.ok payload)
  | .TunnelReq id hopLimit => .TunnelReq id (.ok hopLimit)
  | .TunnelAck id => .TunnelAck id
  | .unrecognized => .unrecognized

section Encoder

theorem encodeElements_eq (elements : List BlockTree) :
    encodeElements elements = (elements.map encode).flatMap wire := by
  induction elements with
  | nil => rfl
  | cons element elements ih => rw [encodeElements, ih, List.map_cons, List.flatMap_cons]

theorem encode_nested (type : ℕ) (elements : List BlockTree) :
    encode (.nested type elements) = makeBlock type (elements.map encode) := by
  rw [encode, encodeElements_eq]
  rfl

end Encoder

section RoundTrip

theorem parse_encode {type : ℕ} {elements : List BlockTree}
    (htypes : ∀ element ∈ elements, (encode element).type ≤ 4294967295)
    (hlength : (encode (.nested type elements)).value.length < 18446744073709551616) :
    (encode (.nested type elements)).parse = .ok (elements.map encode) := by
  rw [encode_nested] at hlength ⊢
  refine parse_elements ?_ hlength
  intro element helement
  obtain ⟨tree, htree, rfl⟩ := List.mem_map.mp helement
  exact htypes tree htree

/-- A packet is dispatched by the type that is pushed first. -/
theorem dispatch_encode {type : ℕ} {elements : List BlockTree} (htype : type < 18446744073709551616)
    (htypes : ∀ element ∈ elements, (encode element).type ≤ 4294967295)
    (hlength : (encode (adaptationPacket type elements)).value.length < 18446744073709551616) :
    dispatch (encode (adaptationPacket type elements)) = branchAt (encode (adaptationPacket type elements))
      (makeNonNegativeIntegerBlock PacketType type :: elements.map encode) type := by
  have hall : ∀ element ∈ written (makeNonNegativeIntegerBlock PacketType type) :: elements,
      (encode element).type ≤ 4294967295 := by
    intro element helement
    rcases List.mem_cons.mp helement with rfl | hmem
    · exact (by decide : PacketType ≤ 4294967295)
    · exact htypes element hmem
  have hnumber : readNonNegativeInteger (makeNonNegativeIntegerBlock PacketType type) = .ok type :=
    readNonNegativeInteger_encode htype PacketType
  have hget : get (encode (adaptationPacket type elements))
      (makeNonNegativeIntegerBlock PacketType type :: elements.map encode) PacketType =
        .ok (makeNonNegativeIntegerBlock PacketType type) := rfl
  have hparse : (encode (adaptationPacket type elements)).parse =
      .ok (makeNonNegativeIntegerBlock PacketType type :: elements.map encode) := parse_encode hall hlength
  simp only [dispatch, hparse, hget, hnumber, bind, Except.bind]

theorem dispatch_TunnelReq (id : List UInt8) (hopLimit : UInt64)
    (hlength : (TunnelReq.wireEncode id hopLimit).value.length < 18446744073709551616) :
    dispatch (TunnelReq.wireEncode id hopLimit) = .ok (branchOf (.TunnelReq id hopLimit.toNat)) := by
  have hhop : readNonNegativeInteger (makeNonNegativeIntegerBlock HopLimit hopLimit.toNat) = .ok hopLimit.toNat :=
    readNonNegativeInteger_encode hopLimit.toNat_lt HopLimit
  rw [branchOf, ← hhop]
  refine dispatch_encode (by decide) ?_ hlength
  simp only [List.forall_mem_cons, List.not_mem_nil, false_implies, implies_true, and_true]
  exact ⟨(by decide : LinkId ≤ 4294967295), (by decide : HopLimit ≤ 4294967295)⟩

theorem dispatch_TunnelAck (id : List UInt8)
    (hlength : (TunnelAck.wireEncode id).value.length < 18446744073709551616) :
    dispatch (TunnelAck.wireEncode id) = .ok (branchOf (.TunnelAck id)) := by
  refine dispatch_encode (by decide) ?_ hlength
  simp only [List.forall_mem_cons, List.not_mem_nil, false_implies, implies_true, and_true]
  exact (by decide : LinkId ≤ 4294967295)

theorem dispatch_LinkPayload (id : List UInt8) (payload : BlockTree) (htype : (encode payload).type ≤ 4294967295)
    (hlength : (LinkPayload.wireEncode id payload).value.length < 18446744073709551616) :
    dispatch (LinkPayload.wireEncode id payload) = .ok (branchOf (.LinkPayload id (encode payload))) := by
  have houter : (encode (.nested Payload [payload])).value.length ≤ (LinkPayload.wireEncode id payload).value.length := by
    rw [LinkPayload.wireEncode, adaptationPacket, encode_nested AdaptationPacket]
    exact length_le_makeBlock _ (by simp)
  have hinner : (encode payload).value.length ≤ (encode (.nested Payload [payload])).value.length := by
    rw [encode_nested]
    exact length_le_makeBlock _ (by simp)
  have hpayload : (encode (.nested Payload [payload])).blockFromValue = .ok (encode payload) := by
    rw [encode_nested]
    exact blockFromValue_makeBlock ⟨htype, (hinner.trans houter).trans_lt hlength⟩
  rw [branchOf, ← hpayload]
  refine dispatch_encode (by decide) ?_ hlength
  simp only [List.forall_mem_cons, List.not_mem_nil, false_implies, implies_true, and_true]
  exact ⟨(by decide : TunnelId ≤ 4294967295), (by decide : Payload ≤ 4294967295)⟩

theorem ofBuffer_adaptationPacket {type : ℕ} {elements : List BlockTree}
    (hlength : (encode (adaptationPacket type elements)).value.length < 18446744073709551616) :
    Block.ofBuffer (wire (encode (adaptationPacket type elements))) = .ok (encode (adaptationPacket type elements)) :=
  ofBuffer_wire ⟨(by decide : AdaptationPacket ≤ 4294967295), hlength⟩

theorem wireEncode_length_le (id : List UInt8) (hopLimit : UInt64) :
    (TunnelAck.wireEncode id).value.length ≤ (TunnelReq.wireEncode id hopLimit).value.length := by
  have htype : (wire (makeNonNegativeIntegerBlock PacketType Type_TunnelAck)).length =
      (wire (makeNonNegativeIntegerBlock PacketType Type_TunnelReq)).length := by decide
  simp only [TunnelAck.wireEncode, TunnelReq.wireEncode, adaptationPacket, written, encode, encodeElements,
    List.length_append, htype]
  omega

/-- The octets of each packet lead `ProcessPacket` to its own branch, with everything that went into it. -/
theorem shim_roundTrip (id : List UInt8) (hopLimit : UInt64) (payload : BlockTree)
    (htype : (encode payload).type ≤ 4294967295)
    (hrequest : (TunnelReq.wireEncode id hopLimit).value.length < 18446744073709551616)
    (hpayload : (LinkPayload.wireEncode id payload).value.length < 18446744073709551616) :
    (Block.ofBuffer (wire (TunnelReq.wireEncode id hopLimit)) >>= dispatch) =
      .ok (branchOf (.TunnelReq id hopLimit.toNat)) ∧
    (Block.ofBuffer (wire (TunnelAck.wireEncode id)) >>= dispatch) = .ok (branchOf (.TunnelAck id)) ∧
    (Block.ofBuffer (wire (LinkPayload.wireEncode id payload)) >>= dispatch) =
      .ok (branchOf (.LinkPayload id (encode payload))) := by
  have hack := (wireEncode_length_le id hopLimit).trans_lt hrequest
  refine ⟨?_, ?_, ?_⟩
  · rw [TunnelReq.wireEncode, ofBuffer_adaptationPacket hrequest]
    exact dispatch_TunnelReq id hopLimit hrequest
  · rw [TunnelAck.wireEncode, ofBuffer_adaptationPacket hack]
    exact dispatch_TunnelAck id hack
  · rw [LinkPayload.wireEncode, ofBuffer_adaptationPacket hpayload]
    exact dispatch_LinkPayload id payload htype hpayload

/-- An LpPacket with one field; its TLV-LENGTH and that of the field have three octets. -/
def longPayload : BlockTree := .nested 100 [.valued ⟨80, List.replicate 300 7⟩]

/-- The id is "sat". -/
theorem shim_roundTrip_sat :
    (Block.ofBuffer (wire (TunnelReq.wireEncode [115, 97, 116] 6)) >>= dispatch) =
      .ok (branchOf (.TunnelReq [115, 97, 116] 6)) ∧
    (Block.ofBuffer (wire (TunnelAck.wireEncode [115, 97, 116])) >>= dispatch) =
      .ok (branchOf (.TunnelAck [115, 97, 116])) ∧
    (Block.ofBuffer (wire (LinkPayload.wireEncode [115, 97, 116] longPayload)) >>= dispatch) =
      .ok (branchOf (.LinkPayload [115, 97, 116] ⟨100, [80, 253, 1, 44] ++ List.replicate 300 7⟩)) := by
  have hencode : encode longPayload = ⟨100, [80, 253, 1, 44] ++ List.replicate 300 7⟩ := by decide +kernel
  rw [← hencode]
  exact shim_roundTrip [115, 97, 116] 6 longPayload (by decide) (by decide) (by decide +kernel)

end RoundTrip

end LeoNdn.ShimCodec
