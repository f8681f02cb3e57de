import LeoNdn.InterestCodec
import LeoNdn.LinkService
import LeoNdn.ShimCodec

/-!
The counts that the tracer of a node keeps of the packets that go out, and the
packets that the node forwards inside of others.
-/

namespace LeoNdn.TunnelledTraffic

open LeoNdn.Loops LeoNdn.Tlv LeoNdn.TlvEncoding LeoNdn.NdnEncoding LeoNdn.ShimCodec LeoNdn.HandoverManager
open LeoNdn.SimulatedNetwork (Fault deref)
open LeoNdn.NdnPacket (Name Data)
open LeoNdn.LinkService (LpPacket readFragment)

section Tracer

inductive Counter
  | inInterests
  | outInterests
  | inData
  | outData
  | inNack
  | outNack
  | satisfiedInterests
  | timedOutInterests
  | outSatisfiedInterests
  | outTimedOutInterests
  deriving DecidableEq, Repr

structure TracedFace where
  id : ℕ
  localUri : String
  deriving DecidableEq, Repr

/-- Packets and octets by face and prefix, and the faces that have been seen. -/
structure L3TrafficTracer where
  m_stats : ℕ × Name → Counter → ℕ
  m_statsRaw : ℕ × Name → Counter → ℕ
  m_faceInfos : ℕ → Option String

def INVALID_FACEID : ℕ := 0

/-- `getPrefix(-1)`. -/
def prefixOf (name : Name) : Name := name.dropLast

namespace L3TrafficTracer

def initial : L3TrafficTracer := ⟨fun _ _ => 0, fun _ _ => 0, fun _ => none⟩

variable (t : L3TrafficTracer)

def AddInfo (face : TracedFace) : L3TrafficTracer :=
  if (t.m_faceInfos face.id).isNone then
    { t with m_faceInfos := Function.update t.m_faceInfos face.id (some face.localUri) }
  else t

/-- The name and the size of a packet; a packet that has not been encoded has none. -/
def add (index : ℕ × Name) (counter : Counter) (size : Option ℕ) : L3TrafficTracer :=
  { t with
    m_stats := Function.update t.m_stats index
      (Function.update (t.m_stats index) counter (t.m_stats index counter + 1))
    m_statsRaw := Function.update t.m_statsRaw index
      (Function.update (t.m_statsRaw index) counter (t.m_statsRaw index counter + size.getD 0)) }

/-- What the callbacks for single packets, and the loops of the others, have in common. -/
def count (counter : Counter) (face : TracedFace) (name : Name) (size : Option ℕ) : L3TrafficTracer :=
  (t.AddInfo face).add (face.id, prefixOf name) counter size

def OutInterests (name : Name) (size : Option ℕ) (face : TracedFace) : L3TrafficTracer :=
  t.count .outInterests face name size

def InInterests (name : Name) (size : Option ℕ) (face : TracedFace) : L3TrafficTracer :=
  t.count .inInterests face name size

def OutData (name : Name) (size : Option ℕ) (face : TracedFace) : L3TrafficTracer := t.count .outData face name size

def InData (name : Name) (size : Option ℕ) (face : TracedFace) : L3TrafficTracer := t.count .inData face name size

def OutNack (name : Name) (size : Option ℕ) (face : TracedFace) : L3TrafficTracer := t.count .outNack face name size

def InNack (name : Name) (size : Option ℕ) (face : TracedFace) : L3TrafficTracer := t.count .inNack face name size

def SatisfiedInterests (name : Name) (inRecords outRecords : List TracedFace) : L3TrafficTracer :=
  let t := t.add (INVALID_FACEID, []) .satisfiedInterests none
  let t := inRecords.foldl (fun t face => t.count .satisfiedInterests face name none) t
  outRecords.foldl (fun t face => t.count .outSatisfiedInterests face name none) t

def TimedOutInterests (name : Name) (inRecords outRecords : List TracedFace) : L3TrafficTracer :=
  let t := t.add (INVALID_FACEID, []) .timedOutInterests none
  let t := inRecords.foldl (fun t face => t.count .timedOutInterests face name none) t
  outRecords.foldl (fun t face => t.count .outTimedOutInterests face name none) t

/-- The nonce that a decoded Interest may be given is not read. -/
def ForwardPayloads (face : TracedFace) (payload : Block) : Except Exception L3TrafficTracer :=
  let t := t.AddInfo face
  if payload.type = 5 then do
    let interest ← InterestCodec.Interest.ofWire 0 payload
    .ok (t.add (face.id, prefixOf interest.m_name) .outInterests none)
  else if payload.type = 6 then do
    let data ← Data.wireDecode payload
    .ok (t.add (face.id, prefixOf data.m_name) .outData none)
  else .ok t

end L3TrafficTracer

/-- The traces of the forwarder that the tracer is connected to. -/
inductive Callback
  | OutInterests (name : Name) (size : Option ℕ) (face : TracedFace)
  | InInterests (name : Name) (size : Option ℕ) (face : TracedFace)
  | OutData (name : Name) (size : Option ℕ) (face : TracedFace)
  | InData (name : Name) (size : Option ℕ) (face : TracedFace)
  | OutNack (name : Name) (size : Option ℕ) (face : TracedFace)
  | InNack (name : Name) (size : Option ℕ) (face : TracedFace)
  | SatisfiedInterests (name : Name) (inRecords outRecords : List TracedFace)
  | TimedOutInterests (name : Name) (inRecords outRecords : List TracedFace)
  deriving DecidableEq, Repr

def L3TrafficTracer.handle (t : L3TrafficTracer) : Callback → L3TrafficTracer
  | .OutInterests name size face => t.OutInterests name size face
  | .InInterests name size face => t.InInterests name size face
  | .OutData name size face => t.OutData name size face
  | .InData name size face => t.InData name size face
  | .OutNack name size face => t.OutNack name size face
  | .InNack name size face => t.InNack name size face
  | .SatisfiedInterests name inRecords outRecords => t.SatisfiedInterests name inRecords outRecords
  | .TimedOutInterests name inRecords outRecords => t.TimedOutInterests name inRecords outRecords

end Tracer

section Nodes

variable {δ : Type} [DecidableEq δ]

inductive Failure
  | fault (fault : Fault)
  | exception (exception : Exception)
  deriving DecidableEq, Repr

structure Surroundings (δ : Type) where
  host : Host δ
  localUri : ℕ → String

/-- With a log of the Interests and Data that the forwarder has sent, by face and name, and
of the payloads that the manager has forwarded, by face. -/
structure Node (δ : Type) where
  manager : Manager (List UInt8) δ (Except Exception Block)
  tracer : L3TrafficTracer
  sent : List (Counter × ℕ × Name)
  forwarded : List (ℕ × Block)

def Node.initial : Node δ := ⟨Manager.initial, .initial, [], []⟩

/-- `wire.get(tlv::Payload)`, which is only read where it is used. -/
def payloadBlock (wire : Block) : Except Exception Block := do
  let elements ← wire.parse
  get wire elements Payload

def payloadOf (packet : Block) : Block := encode (.nested Payload [written packet])

/-- The first branch of `ProcessPacket`, with the callback for a payload that traverses the tunnel. -/
def Node.receiveLinkPayload (s : Surroundings δ) (id : List UInt8) (wire : Block) (lasthop : δ) (node : Node δ) :
    Except Failure (Node δ) := do
  let (manager, outs) ← (processLinkPayload s.host id (payloadBlock wire) lasthop node.manager).mapError .fault
  match outs with
  | [.emit nexthop (.LinkPayload _ payload)] => do
    let payload ← payload.mapError .exception
    let face ← (deref (s.host.faces.find? (fun face => face.netDevice = nexthop))).mapError .fault
    let tracer ← (node.tracer.ForwardPayloads ⟨face.id, s.localUri face.id⟩ payload).mapError .exception
    .ok { node with manager := manager, tracer := tracer, forwarded := node.forwarded ++ [(face.id, payload)] }
  | [.inject _ payload] => do
    let payload ← payload.mapError .exception
    let _ ← payload.blockFromValue.mapError .exception
    .ok { node with manager := manager }
  | _ => .ok { node with manager := manager }

/-- The hop limit is only read where the request is broadcast. -/
def Node.readHopLimit (id : List UInt8) (hopLimit : Except Exception ℕ) (node : Node δ) : Except Failure ℕ :=
  if id ∈ node.manager.m_idList ∨ (node.manager.m_prt id).isSome then .ok 0 else hopLimit.mapError .exception

/-- `ProcessPacket` of a packet as it comes in. -/
def Node.receive (s : Surroundings δ) (wire : Block) (lasthop : δ) (node : Node δ) : Except Failure (Node δ) := do
  let branch ← (dispatch wire).mapError .exception
  match branch with
  | .LinkPayload id _ => node.receiveLinkPayload s id wire lasthop
  | .TunnelReq id hopLimit => do
    let hopLimit ← node.readHopLimit id hopLimit
    let (manager, _) ← (processTunnelReq s.host id hopLimit lasthop node.manager).mapError .fault
    .ok { node with manager := manager }
  | .TunnelAck id => do
    let (manager, _) ← (processTunnelAck s.host id lasthop node.manager).mapError .fault
    .ok { node with manager := manager }
  | .unrecognized => .ok node

inductive Event (δ : Type)
  | TunnelPacket (packet : Block) (tunnelId : List UInt8)
  | AddUserLink (id : List UInt8) (faceId : ℕ)
  | BroadcastReq (id : List UInt8)
  | receive (wire : Block) (lasthop : δ)
  | traced (callback : Callback)
  deriving DecidableEq, Repr

def sentBy : Callback → List (Counter × ℕ × Name)
  | .OutInterests name _ face => [(.outInterests, face.id, name)]
  | .OutData name _ face => [(.outData, face.id, name)]
  | _ => []

def step (node : Node δ) (event : Surroundings δ × Event δ) : Except Failure (Node δ) :=
  match event.2 with
  | .TunnelPacket packet tunnelId => do
    let (manager, _) ← (TunnelPacket (.ok (payloadOf packet)) tunnelId node.manager).mapError .fault
    .ok { node with manager := manager }
  | .AddUserLink id faceId => .ok { node with manager := AddUserLink id faceId node.manager }
  | .BroadcastReq id => .ok { node with manager := (BroadcastReq event.1.host id 0 none node.manager).1 }
  | .receive wire lasthop => node.receive event.1 wire lasthop
  | .traced callback => .ok { node with tracer := node.tracer.handle callback, sent := node.sent ++ sentBy callback }

end Nodes

section Specification

/-- The network-layer packet in a link-layer packet; a fragment of a packet is none, nor is what a Nack returns. -/
def networkPacket (packet : Block) : Option Block :=
  match LpPacket.wireDecode ⟨packet, wire packet, 0⟩ with
  | .error _ => none
  | .ok pkt =>
    if pkt.has 800 then none
    else
      match readFragment 1 pkt with
      | .ok (.whole netPkt) => some netPkt
      | _ => none

def classify (netPkt : Block) : Option (Counter × Name) :=
  if netPkt.type = 5 then
    (InterestCodec.Interest.ofWire 0 netPkt).toOption.map (fun interest => (.outInterests, interest.m_name))
  else if netPkt.type = 6 then (Data.wireDecode netPkt).toOption.map (fun data => (.outData, data.m_name))
  else none

/-- The Interest or Data in a payload, whatever link-layer header it has. -/
def carried (payload : Block) : Option (Counter × Name) :=
  (payload.blockFromValue.toOption.bind networkPacket).bind classify

def countOf (counter : Counter) (index : ℕ × Name) (entries : List (Counter × ℕ × Name)) : ℕ :=
  entries.countP (fun entry => entry.1 = counter ∧ (entry.2.1, prefixOf entry.2.2) = index)

variable {δ : Type}

def Node.forwardedPackets (node : Node δ) : List (Counter × ℕ × Name) :=
  node.forwarded.filterMap (fun entry => (carried entry.2).map (fun packet => (packet.1, entry.1, packet.2)))

/-- The counts include the forwarded packets, each once. -/
def CountsForwarded (node : Node δ) : Prop :=
  ∀ counter, counter = .outInterests ∨ counter = .outData → ∀ index,
    node.tracer.m_stats index counter = countOf counter index node.sent + countOf counter index node.forwardedPackets

end Specification

section Stats

variable {t : L3TrafficTracer} {counter counter' : Counter} {index : ℕ × Name} {face : TracedFace} {name : Name}
  {size : Option ℕ}

theorem AddInfo_stats (t : L3TrafficTracer) (face : TracedFace) : (t.AddInfo face).m_stats = t.m_stats := by
  unfold L3TrafficTracer.AddInfo
  split_ifs <;> rfl

theorem add_stats (t : L3TrafficTracer) (index index' : ℕ × Name) (counter counter' : Counter) (size : Option ℕ) :
    (t.add index' counter' size).m_stats index counter =
      t.m_stats index counter + if counter' = counter ∧ index' = index then 1 else 0 := by
  unfold L3TrafficTracer.add
  by_cases hindex : index' = index
  · subst hindex
    by_cases hcounter : counter' = counter
    · subst hcounter
      simp
    · simp [hcounter, Function.update_of_ne (Ne.symm hcounter)]
  · simp [hindex, Function.update_of_ne (Ne.symm hindex)]

theorem count_stats (t : L3TrafficTracer) (counter counter' : Counter) (index : ℕ × Name) (face : TracedFace)
    (name : Name) (size : Option ℕ) : (t.count counter' face name size).m_stats index counter =
      t.m_stats index counter + countOf counter index [(counter', face.id, name)] := by
  rw [L3TrafficTracer.count, add_stats, AddInfo_stats]
  by_cases hsame : counter' = counter ∧ (face.id, prefixOf name) = index
  · simp [countOf, hsame.1, hsame.2]
  · simp [countOf, hsame]

theorem countOf_append (counter : Counter) (index : ℕ × Name) (entries entries' : List (Counter × ℕ × Name)) :
    countOf counter index (entries ++ entries') = countOf counter index entries + countOf counter index entries' :=
  List.countP_append

theorem countOf_other (hne : counter' ≠ counter) (index : ℕ × Name) (faceId : ℕ) (name : Name) :
    countOf counter index [(counter', faceId, name)] = 0 := by
  simp [countOf, hne]

theorem count_other (hne : counter' ≠ counter) (t : L3TrafficTracer) (index : ℕ × Name) (face : TracedFace)
    (name : Name) (size : Option ℕ) :
    (t.count counter' face name size).m_stats index counter = t.m_stats index counter := by
  rw [count_stats, countOf_other hne, Nat.add_zero]

theorem records_stats (hne : counter' ≠ counter) (records : List TracedFace) (t : L3TrafficTracer) :
    (records.foldl (fun t face => t.count counter' face name size) t).m_stats index counter =
      t.m_stats index counter := by
  induction records generalizing t with
  | nil => rfl
  | cons face records ih => rw [List.foldl_cons, ih, count_other hne]

theorem handle_stats (hout : counter = .outInterests ∨ counter = .outData) (t : L3TrafficTracer) (callback : Callback)
    (index : ℕ × Name) :
    (t.handle callback).m_stats index counter = t.m_stats index counter + countOf counter index (sentBy callback) := by
  have hother (counter' : Counter) (hinterests : counter' ≠ .outInterests) (hdata : counter' ≠ .outData) :
      counter' ≠ counter := by
    rcases hout with rfl | rfl
    · exact hinterests
    · exact hdata
  cases callback with
  | OutInterests name size face => exact count_stats t _ _ _ _ _ _
  | OutData name size face => exact count_stats t _ _ _ _ _ _
  | InInterests name size face => exact count_other (hother _ (by decide) (by decide)) t _ _ _ _
  | InData name size face => exact count_other (hother _ (by decide) (by decide)) t _ _ _ _
  | OutNack name size face => exact count_other (hother _ (by decide) (by decide)) t _ _ _ _
  | InNack name size face => exact count_other (hother _ (by decide) (by decide)) t _ _ _ _
  | SatisfiedInterests name inRecords outRecords =>
    change (L3TrafficTracer.SatisfiedInterests t name inRecords outRecords).m_stats index counter = _
    unfold L3TrafficTracer.SatisfiedInterests
    dsimp only
    rw [records_stats (hother _ (by decide) (by decide)), records_stats (hother _ (by decide) (by decide)), add_stats,
      if_neg (fun h => hother _ (by decide) (by decide) h.1)]
    rfl
  | TimedOutInterests name inRecords outRecords =>
    change (L3TrafficTracer.TimedOutInterests t name inRecords outRecords).m_stats index counter = _
    unfold L3TrafficTracer.TimedOutInterests
    dsimp only
    rw [records_stats (hother _ (by decide) (by decide)), records_stats (hother _ (by decide) (by decide)), add_stats,
      if_neg (fun h => hother _ (by decide) (by decide) h.1)]
    rfl

end Stats

section Payloads

theorem payloadBlock_type {wire payload : Block} (h : payloadBlock wire = .ok payload) : payload.type = Payload := by
  obtain ⟨elements, -, h⟩ := ok_of_bind h
  unfold Tlv.get at h
  cases hfind : find elements Payload with
  | none =>
    rw [hfind] at h
    cases h
  | some element =>
    rw [hfind] at h
    cases h
    simpa using List.find?_some hfind

/-- A payload is neither an Interest nor a Data packet: only what is in it may be. -/
theorem ForwardPayloads_payload {payload : Block} (h : payload.type = Payload) (t : L3TrafficTracer)
    (face : TracedFace) :
    t.ForwardPayloads face payload = .ok (t.AddInfo face) := by
  unfold L3TrafficTracer.ForwardPayloads
  rw [if_neg (by rw [h]; decide), if_neg (by rw [h]; decide)]

end Payloads

section Runs

variable {δ : Type} [DecidableEq δ] {node node' : Node δ}

theorem ok_of_mapError {ε ε' α : Type} {x : Except ε α} {f : ε → ε'} {a : α} (h : x.mapError f = .ok a) :
    x = .ok a := by
  cases x with
  | error e => cases h
  | ok b => exact congrArg Except.ok (Except.ok.inj h)

theorem processLinkPayload_outs {π : Type} {host : Host δ} {id : List UInt8} {payload : π} {lasthop : δ}
    {m m' : Manager (List UInt8) δ π} {outs : List (Output (List UInt8) δ π)}
    (h : processLinkPayload host id payload lasthop m = .ok (m', outs)) :
    outs = [] ∨ (∃ faceId, outs = [.inject faceId payload]) ∨
      ∃ nexthop, outs = [.emit nexthop (.LinkPayload id payload)] := by
  simp only [processLinkPayload] at h
  split at h
  · cases h
    exact Or.inl rfl
  · split at h
    · obtain ⟨face, -, h⟩ := ok_of_bind h
      cases h
      exact Or.inr (Or.inl ⟨_, rfl⟩)
    · obtain ⟨out, hout, h⟩ := ok_of_bind h
      obtain ⟨nexthop, -, rfl⟩ := emitThrough_ok hout
      cases h
      exact Or.inr (Or.inr ⟨nexthop, rfl⟩)

/-- The counts of what goes out do not change, nor does the log of what the forwarder has sent. -/
def Uncounted (node node' : Node δ) : Prop := node'.tracer.m_stats = node.tracer.m_stats ∧ node'.sent = node.sent

theorem receiveLinkPayload_uncounted {s : Surroundings δ} {id : List UInt8} {wire : Block} {lasthop : δ}
    (h : node.receiveLinkPayload s id wire lasthop = .ok node') : Uncounted node node' := by
  obtain ⟨⟨manager, outs⟩, houts, h⟩ := ok_of_bind h
  rcases processLinkPayload_outs (ok_of_mapError houts) with rfl | ⟨faceId, rfl⟩ | ⟨nexthop, rfl⟩
  · cases h
    exact ⟨rfl, rfl⟩
  · obtain ⟨payload, -, h⟩ := ok_of_bind h
    obtain ⟨packet, -, h⟩ := ok_of_bind h
    cases h
    exact ⟨rfl, rfl⟩
  · obtain ⟨payload, hpayload, h⟩ := ok_of_bind h
    obtain ⟨face, -, h⟩ := ok_of_bind h
    obtain ⟨tracer, htracer, h⟩ := ok_of_bind h
    rw [ForwardPayloads_payload (payloadBlock_type (ok_of_mapError hpayload))] at htracer
    cases htracer
    cases h
    exact ⟨AddInfo_stats _ _, rfl⟩

theorem receive_uncounted {s : Surroundings δ} {wire : Block} {lasthop : δ}
    (h : node.receive s wire lasthop = .ok node') :
    Uncounted node node' := by
  obtain ⟨branch, -, h⟩ := ok_of_bind h
  cases branch with
  | LinkPayload id payload => exact receiveLinkPayload_uncounted h
  | TunnelReq id hopLimit =>
    obtain ⟨hops, -, h⟩ := ok_of_bind h
    obtain ⟨⟨manager, outs⟩, -, h⟩ := ok_of_bind h
    cases h
    exact ⟨rfl, rfl⟩
  | TunnelAck id =>
    obtain ⟨⟨manager, outs⟩, -, h⟩ := ok_of_bind h
    cases h
    exact ⟨rfl, rfl⟩
  | unrecognized =>
    cases h
    exact ⟨rfl, rfl⟩

def CountsSent (node : Node δ) : Prop :=
  ∀ counter, counter = .outInterests ∨ counter = .outData → ∀ index,
    node.tracer.m_stats index counter = countOf counter index node.sent

omit [DecidableEq δ] in
theorem CountsSent.congr (h : CountsSent node) (hsame : Uncounted node node') : CountsSent node' := by
  intro counter hout index
  rw [hsame.1, hsame.2]
  exact h counter hout index

theorem CountsSent.step (h : CountsSent node) {event : Surroundings δ × Event δ}
    (hstep : step node event = .ok node') : CountsSent node' := by
  obtain ⟨s, event⟩ := event
  cases event with
  | TunnelPacket packet tunnelId =>
    obtain ⟨⟨manager, outs⟩, -, hstep⟩ := ok_of_bind hstep
    cases hstep
    exact h.congr ⟨rfl, rfl⟩
  | AddUserLink id faceId =>
    cases hstep
    exact h.congr ⟨rfl, rfl⟩
  | BroadcastReq id =>
    cases hstep
    exact h.congr ⟨rfl, rfl⟩
  | receive wire lasthop => exact h.congr (receive_uncounted hstep)
  | traced callback =>
    cases hstep
    intro counter hout index
    rw [handle_stats hout, h counter hout index, countOf_append]

theorem CountsSent.run {events : List (Surroundings δ × Event δ)} (h : CountsSent node)
    (hrun : events.foldlM TunnelledTraffic.step node = .ok node') : CountsSent node' :=
  foldlM_preserves (R := fun node node' => CountsSent node → CountsSent node') (fun _ h => h)
    (fun _ _ _ h h' hnode => h' (h hnode)) (fun _ _ _ _ hstep h => h.step hstep) hrun h

omit [DecidableEq δ] in
/-- Where a payload carries a packet, the count of its name lacks it. -/
theorem countsForwarded_iff_of_countsSent (h : CountsSent node) :
    CountsForwarded node ↔ ∀ entry ∈ node.forwarded, carried entry.2 = none := by
  constructor
  · intro hcounts entry hentry
    by_contra hcarried
    obtain ⟨⟨counter, name⟩, hpacket⟩ := Option.ne_none_iff_exists'.mp hcarried
    have hout : counter = .outInterests ∨ counter = .outData := by
      obtain ⟨netPkt, -, hclassify⟩ := Option.bind_eq_some_iff.mp hpacket
      unfold classify at hclassify
      split_ifs at hclassify
      · obtain ⟨interest, -, heq⟩ := Option.map_eq_some_iff.mp hclassify
        cases heq
        exact Or.inl rfl
      · obtain ⟨data, -, heq⟩ := Option.map_eq_some_iff.mp hclassify
        cases heq
        exact Or.inr rfl
    have hmem : (counter, entry.1, name) ∈ node.forwardedPackets :=
      List.mem_filterMap.mpr ⟨entry, hentry, by rw [hpacket]; rfl⟩
    have hpos : 0 < countOf counter (entry.1, prefixOf name) node.forwardedPackets :=
      List.countP_pos_iff.mpr ⟨_, hmem, by simp⟩
    have hsum := hcounts counter hout (entry.1, prefixOf name)
    rw [h counter hout] at hsum
    omega
  · intro hnone counter hout index
    have hempty : node.forwardedPackets = [] := by
      rw [Node.forwardedPackets, List.filterMap_eq_nil_iff]
      intro entry hentry
      rw [hnone entry hentry]
      rfl
    rw [h counter hout index, hempty]
    rfl

theorem countsForwarded_iff {events : List (Surroundings δ × Event δ)}
    (hrun : events.foldlM step Node.initial = .ok node) :
    CountsForwarded node ↔ ∀ entry ∈ node.forwarded, carried entry.2 = none := by
  have hinitial : CountsSent (Node.initial : Node δ) := fun _ _ _ => rfl
  exact countsForwarded_iff_of_countsSent (hinitial.run hrun)

end Runs

section Tunnel

/-- An Interest for /a, in a packet of the link layer with a hop count. -/
def tunnelledInterest : Block :=
  ⟨100, [84, 8, 0, 0, 0, 0, 0, 0, 0, 0, 80, 13, 5, 11, 7, 3, 8, 1, 97, 10, 4, 1, 2, 3, 4]⟩

def tunnelSurroundings : Surroundings ℕ := ⟨⟨5, [⟨257, 1, false⟩, ⟨258, 2, false⟩]⟩, fun _ => "netdev://"⟩

/-- A request from one link, its acknowledgement from the other, and a payload after it. -/
def tunnelEvents : List (Surroundings ℕ × Event ℕ) :=
  [(tunnelSurroundings, .receive (TunnelReq.wireEncode [115] 2) 1),
    (tunnelSurroundings, .receive (TunnelAck.wireEncode [115]) 2),
    (tunnelSurroundings, .receive (LinkPayload.wireEncode [115] (written tunnelledInterest)) 2)]

theorem countsForwarded_iff_tunnel : ∃ node, tunnelEvents.foldlM step Node.initial = .ok node ∧
    (CountsForwarded node ↔ ∀ entry ∈ node.forwarded, carried entry.2 = none) := by
  have hrun : ∃ node, tunnelEvents.foldlM step Node.initial = .ok node := ⟨_, rfl⟩
  obtain ⟨node, hrun⟩ := hrun
  exact ⟨node, hrun, countsForwarded_iff hrun⟩

/-- The Interest goes out through face 257, whose counts stay 0. -/
theorem forwarded_uncounted : ∃ node, tunnelEvents.foldlM step Node.initial = .ok node ∧
    node.forwarded = [(257, payloadOf tunnelledInterest)] ∧
    carried (payloadOf tunnelledInterest) = some (.outInterests, [⟨8, [97]⟩]) ∧
    node.tracer.m_stats (257, []) .outInterests = 0 ∧ ¬ CountsForwarded node := by
  refine ⟨_, rfl, by decide, by decide, rfl, fun hcounts => ?_⟩
  exact absurd (hcounts .outInterests (Or.inl rfl) (257, [])) (by decide)

end Tunnel

end LeoNdn.TunnelledTraffic
