import LeoNdn.SimulatedNetwork

/-!
The shim layer of a node: the tables of its `HandoverManager` and what it does
with the packets that reach it. Tunnel ids `ι`, devices `δ` and payloads `π` are
any types.
-/

namespace LeoNdn.HandoverManager

open LeoNdn.Loops
open LeoNdn.SimulatedNetwork (Fault deref deref_ok)

inductive ShimPacket (ι π : Type)
  | LinkPayload (id : ι) (payload : π)
  | TunnelReq (id : ι) (hopLimit : ℕ)
  | TunnelAck (id : ι)
  | unrecognized
  deriving DecidableEq, Repr

/-- What leaves the manager: a packet sent on a device, or a payload handed up
through a face. -/
inductive Output (ι δ π : Type)
  | emit (device : δ) (packet : ShimPacket ι π)
  | inject (face : ℕ) (payload : π)
  deriving DecidableEq, Repr

/-- A non-local face of the node, with its `UserLinkTransport`. -/
structure NodeFace (δ : Type) where
  id : ℕ
  netDevice : δ
  m_isGone : Bool
  deriving DecidableEq, Repr

/-- What the manager reads of its node; `faces` in the order of the face table. -/
structure Host (δ : Type) where
  m_hopLimit : ℕ
  faces : List (NodeFace δ)

structure Manager (ι δ π : Type) where
  m_inReqs : ℕ
  m_outReqs : ℕ
  m_inAcks : ℕ
  m_outAcks : ℕ
  m_inPayloads : ℕ
  m_outPayloads : ℕ
  m_idList : List ι
  m_prt : ι → Option (Option δ)
  m_tib : ι → Option (Option δ × Option δ)
  m_faceIdTable : ι → Option ℕ
  m_dt : ι → Option (List π)

variable {ι δ π : Type}

def Manager.initial : Manager ι δ π where
  m_inReqs := 0
  m_outReqs := 0
  m_inAcks := 0
  m_outAcks := 0
  m_inPayloads := 0
  m_outPayloads := 0
  m_idList := []
  m_prt _ := none
  m_tib _ := none
  m_faceIdTable _ := none
  m_dt _ := none

variable [DecidableEq ι] [DecidableEq δ]

/-- `emit` on the transport of the face of a device; no face has a null device. -/
def emitThrough (host : Host δ) (device : Option δ) (packet : ShimPacket ι π) :
    Except Fault (Output ι δ π) := do
  let device ← deref device
  let face ← deref (host.faces.find? (fun face => face.netDevice = device))
  .ok (.emit face.netDevice packet)

def TunnelPacket (packet : π) (tunnelId : ι) (m : Manager ι δ π) :
    Except Fault (Manager ι δ π × List (Output ι δ π)) :=
  match m.m_tib tunnelId with
  | none =>
    let buffered := (m.m_dt tunnelId).getD [] ++ [packet]
    .ok ({ m with m_dt := Function.update m.m_dt tunnelId (some buffered) }, [])
  | some (first, second) => do
    let nexthop ← deref (first.or second)
    .ok (m, [.emit nexthop (.LinkPayload tunnelId packet)])

/-- Hop limits are natural numbers here: `uint64_t` agrees with them, since the
only sum that can wrap around is followed by the difference that undoes it. -/
def BroadcastReq (host : Host δ) (id : ι) (hopLimit : ℕ) (lasthop : Option δ) (m : Manager ι δ π) :
    Manager ι δ π × List (Output ι δ π) :=
  let hopLimit := if hopLimit = 0 then host.m_hopLimit + 1 else hopLimit
  if hopLimit - 1 = 0 then (m, [])
  else
    let faces := host.faces.filter (fun face => ¬ (some face.netDevice = lasthop ∨ face.m_isGone))
    let m := { m with m_outReqs := m.m_outReqs + faces.length }
    (if lasthop = none then { m with m_prt := Function.update m.m_prt id (some none) } else m,
      faces.map (fun face => .emit face.netDevice (.TunnelReq id (hopLimit - 1))))

def AddUserLink (id : ι) (faceId : ℕ) (m : Manager ι δ π) : Manager ι δ π :=
  { m with
    m_idList := m.m_idList ++ [id]
    m_faceIdTable := Function.update m.m_faceIdTable id (some faceId) }

/-- `for (auto& packet : m_dt[id]) TunnelPacket(packet, id)`. -/
def tunnelAll (tunnelId : ι) : List π → Manager ι δ π → Except Fault (Manager ι δ π × List (Output ι δ π))
  | [], m => .ok (m, [])
  | packet :: packets, m => do
    let (m, sent) ← TunnelPacket packet tunnelId m
    let (m, rest) ← tunnelAll tunnelId packets m
    .ok (m, sent ++ rest)

def processLinkPayload (host : Host δ) (id : ι) (payload : π) (lasthop : δ) (m : Manager ι δ π) :
    Except Fault (Manager ι δ π × List (Output ι δ π)) :=
  let m := { m with m_inPayloads := m.m_inPayloads + 1 }
  match m.m_tib id with
  | none => .ok (m, [])
  | some (first, second) =>
    if (first, second) = (none, some lasthop) ∨ (first, second) = (some lasthop, none) then do
      -- `m_faceIdTable[id]` creates the entry 0, of which there is no face
      let faceId := (m.m_faceIdTable id).getD 0
      let face ← deref (host.faces.find? (fun face => face.id = faceId))
      .ok ({ m with m_faceIdTable := Function.update m.m_faceIdTable id (some faceId) },
        [.inject face.id payload])
    else do
      let nexthop := if first = some lasthop then second else first
      let out ← emitThrough host nexthop (.LinkPayload id payload)
      .ok ({ m with m_outPayloads := m.m_outPayloads + 1 }, [out])

def processTunnelReq (host : Host δ) (id : ι) (hopLimit : ℕ) (lasthop : δ) (m : Manager ι δ π) :
    Except Fault (Manager ι δ π × List (Output ι δ π)) :=
  let m := { m with m_inReqs := m.m_inReqs + 1 }
  if id ∈ m.m_idList then do
    let m := { m with m_tib := Function.update m.m_tib id (some (none, some lasthop)) }
    let (m, sent) ← tunnelAll id ((m.m_dt id).getD []) m
    let m := { m with m_dt := Function.update m.m_dt id none, m_idList := m.m_idList.erase id }
    let ack ← emitThrough host (some lasthop) (.TunnelAck id)
    .ok ({ m with m_outAcks := m.m_outAcks + 1 }, sent ++ [ack])
  else if (m.m_prt id).isSome then .ok (m, [])
  else
    .ok (BroadcastReq host id hopLimit (some lasthop)
      { m with m_prt := Function.update m.m_prt id (some (some lasthop)) })

/-- An acknowledgement goes on to where the request came from, if anywhere. -/
def forwardAck (host : Host δ) (id : ι) (rLasthop : Option δ) : Except Fault (List (Output ι δ π)) :=
  match rLasthop with
  | none => .ok []
  | some d => do
    let ack ← emitThrough host (some d) (.TunnelAck id)
    .ok [ack]

def processTunnelAck (host : Host δ) (id : ι) (lasthop : δ) (m : Manager ι δ π) :
    Except Fault (Manager ι δ π × List (Output ι δ π)) :=
  let m := { m with m_inAcks := m.m_inAcks + 1 }
  match m.m_prt id with
  | none => .ok (m, [])
  | some rLasthop => do
    let sent ← forwardAck host id rLasthop
    .ok ({ m with
      m_outAcks := m.m_outAcks + sent.length
      m_tib := Function.update m.m_tib id (some (some lasthop, rLasthop))
      m_prt := Function.update m.m_prt id none }, sent)

def ProcessPacket (host : Host δ) (packet : ShimPacket ι π) (lasthop : δ) (m : Manager ι δ π) :
    Except Fault (Manager ι δ π × List (Output ι δ π)) :=
  match packet with
  | .LinkPayload id payload => processLinkPayload host id payload lasthop m
  | .TunnelReq id hopLimit => processTunnelReq host id hopLimit lasthop m
  | .TunnelAck id => processTunnelAck host id lasthop m
  | .unrecognized => .ok (m, [])

/-- What the rest of the node asks of the manager: `doSend` on a face that is
gone, `Update` when it moves a user link, and a device that has received. -/
inductive Event (ι δ π : Type)
  | TunnelPacket (packet : π) (tunnelId : ι)
  | AddUserLink (id : ι) (faceId : ℕ)
  | BroadcastReq (id : ι)
  | ProcessPacket (packet : ShimPacket ι π) (lasthop : δ)
  deriving DecidableEq, Repr

def handle (host : Host δ) (event : Event ι δ π) (m : Manager ι δ π) :
    Except Fault (Manager ι δ π × List (Output ι δ π)) :=
  match event with
  | .TunnelPacket packet tunnelId => TunnelPacket packet tunnelId m
  | .AddUserLink id faceId => .ok (AddUserLink id faceId m, [])
  | .BroadcastReq id => .ok (BroadcastReq host id 0 none m)
  | .ProcessPacket packet lasthop => ProcessPacket host packet lasthop m

section Specifications

variable {host : Host δ} {id : ι} {m m' : Manager ι δ π} {outs : List (Output ι δ π)} {lasthop : δ}

omit [DecidableEq ι] in
theorem emitThrough_ok {device : Option δ} {packet : ShimPacket ι π} {out : Output ι δ π}
    (h : emitThrough host device packet = .ok out) : ∃ d, device = some d ∧ out = .emit d packet := by
  obtain ⟨d, hd, h⟩ := ok_of_bind h
  obtain ⟨face, hface, h⟩ := ok_of_bind h
  cases h
  have hnet : face.netDevice = d := by simpa using List.find?_some (deref_ok hface)
  exact ⟨d, deref_ok hd, by rw [hnet]⟩

omit [DecidableEq δ] in
theorem tunnelAll_established (d : δ) (packets : List π) (h : m.m_tib id = some (none, some d)) :
    tunnelAll id packets m = .ok (m, packets.map (fun packet => .emit d (.LinkPayload id packet))) := by
  induction packets with
  | nil => rfl
  | cons packet packets ih =>
    have hfirst : TunnelPacket packet id m = .ok (m, [.emit d (.LinkPayload id packet)]) := by
      simp [TunnelPacket, h, deref, bind, Except.bind]
    simp [tunnelAll, hfirst, ih, bind, Except.bind]

theorem processTunnelReq_answered {hopLimit : ℕ} (hid : id ∈ m.m_idList)
    (h : processTunnelReq host id hopLimit lasthop m = .ok (m', outs)) :
    outs = ((m.m_dt id).getD []).map (fun packet => .emit lasthop (.LinkPayload id packet)) ++
      [.emit lasthop (.TunnelAck id)] ∧
    m'.m_tib = Function.update m.m_tib id (some (none, some lasthop)) ∧ m'.m_prt = m.m_prt ∧
    m'.m_idList = m.m_idList.erase id ∧ m'.m_dt = Function.update m.m_dt id none ∧
    m'.m_faceIdTable = m.m_faceIdTable := by
  simp only [processTunnelReq, if_pos hid] at h
  rw [tunnelAll_established lasthop _ (by simp)] at h
  obtain ⟨⟨m₁, sent⟩, hsent, h⟩ := ok_of_bind h
  cases hsent
  obtain ⟨ack, hack, h⟩ := ok_of_bind h
  obtain ⟨d, hd, rfl⟩ := emitThrough_ok hack
  cases hd
  cases h
  exact ⟨rfl, rfl, rfl, rfl, rfl, rfl⟩

theorem processTunnelReq_discarded {hopLimit : ℕ} (hid : id ∉ m.m_idList) (hprt : (m.m_prt id).isSome)
    (h : processTunnelReq host id hopLimit lasthop m = .ok (m', outs)) :
    m' = { m with m_inReqs := m.m_inReqs + 1 } ∧ outs = [] := by
  simp only [processTunnelReq, if_neg hid, if_pos hprt] at h
  cases h
  exact ⟨rfl, rfl⟩

def floodFaces (host : Host δ) (lasthop : Option δ) : List (NodeFace δ) :=
  host.faces.filter (fun face => ¬ (some face.netDevice = lasthop ∨ face.m_isGone))

def remainingHops (host : Host δ) (hopLimit : ℕ) : ℕ :=
  if hopLimit = 0 then host.m_hopLimit else hopLimit - 1

def floodOutputs (host : Host δ) (id : ι) (hopLimit : ℕ) (lasthop : Option δ) : List (Output ι δ π) :=
  if remainingHops host hopLimit = 0 then []
  else (floodFaces host lasthop).map (fun face =>
    .emit face.netDevice (.TunnelReq id (remainingHops host hopLimit)))

theorem BroadcastReq_eq (host : Host δ) (id : ι) (hopLimit : ℕ) (lasthop : Option δ) (m : Manager ι δ π) :
    BroadcastReq host id hopLimit lasthop m =
      if remainingHops host hopLimit = 0 then (m, [])
      else ({ m with
        m_outReqs := m.m_outReqs + (floodFaces host lasthop).length
        m_prt := if lasthop = none then Function.update m.m_prt id (some none) else m.m_prt },
        floodOutputs host id hopLimit lasthop) := by
  have hlimit : (if hopLimit = 0 then host.m_hopLimit + 1 else hopLimit) - 1 =
      remainingHops host hopLimit := by
    unfold remainingHops
    split <;> rfl
  simp only [BroadcastReq, hlimit]
  by_cases hend : remainingHops host hopLimit = 0
  · rw [if_pos hend, if_pos hend]
  · rw [if_neg hend, if_neg hend, floodOutputs, if_neg hend]
    cases lasthop <;> rfl

theorem BroadcastReq_outs (host : Host δ) (id : ι) (hopLimit : ℕ) (lasthop : Option δ) (m : Manager ι δ π) :
    (BroadcastReq host id hopLimit lasthop m).2 = floodOutputs host id hopLimit lasthop := by
  rw [BroadcastReq_eq]
  split
  · rename_i hend
    rw [floodOutputs, if_pos hend]
  · rfl

theorem BroadcastReq_tables (host : Host δ) (id : ι) (hopLimit : ℕ) (lasthop : Option δ) (m : Manager ι δ π) :
    (BroadcastReq host id hopLimit lasthop m).1.m_tib = m.m_tib ∧
    (BroadcastReq host id hopLimit lasthop m).1.m_idList = m.m_idList ∧
    (BroadcastReq host id hopLimit lasthop m).1.m_dt = m.m_dt ∧
    (BroadcastReq host id hopLimit lasthop m).1.m_faceIdTable = m.m_faceIdTable := by
  rw [BroadcastReq_eq]
  split <;> exact ⟨rfl, rfl, rfl, rfl⟩

theorem BroadcastReq_prt (host : Host δ) (id : ι) (hopLimit : ℕ) (lasthop : Option δ) (m : Manager ι δ π) :
    (BroadcastReq host id hopLimit lasthop m).1.m_prt =
      if lasthop = none ∧ remainingHops host hopLimit ≠ 0
      then Function.update m.m_prt id (some none) else m.m_prt := by
  rw [BroadcastReq_eq]
  by_cases hend : remainingHops host hopLimit = 0
  · rw [if_pos hend, if_neg (by simp [hend])]
  · rw [if_neg hend]
    simp [hend]

theorem processTunnelReq_flooded {hopLimit : ℕ} (hid : id ∉ m.m_idList) (hprt : m.m_prt id = none)
    (h : processTunnelReq host id hopLimit lasthop m = .ok (m', outs)) :
    outs = floodOutputs host id hopLimit (some lasthop) ∧
    m'.m_prt = Function.update m.m_prt id (some (some lasthop)) ∧ m'.m_tib = m.m_tib ∧
    m'.m_idList = m.m_idList ∧ m'.m_dt = m.m_dt ∧ m'.m_faceIdTable = m.m_faceIdTable := by
  have hnone : ¬ (m.m_prt id).isSome = true := by simp [hprt]
  simp only [processTunnelReq, if_neg hid, if_neg hnone, Except.ok.injEq] at h
  have hm' := congrArg Prod.fst h
  have houts := congrArg Prod.snd h
  simp only at hm' houts
  subst hm' houts
  refine ⟨BroadcastReq_outs _ _ _ _ _, ?_, BroadcastReq_tables _ _ _ _ _⟩
  rw [BroadcastReq_prt, if_neg (by simp)]

theorem processTunnelAck_discarded (hprt : m.m_prt id = none)
    (h : processTunnelAck host id lasthop m = .ok (m', outs)) :
    m' = { m with m_inAcks := m.m_inAcks + 1 } ∧ outs = [] := by
  simp only [processTunnelAck, hprt] at h
  cases h
  exact ⟨rfl, rfl⟩

theorem processTunnelAck_accepted {rLasthop : Option δ} (hprt : m.m_prt id = some rLasthop)
    (h : processTunnelAck host id lasthop m = .ok (m', outs)) :
    outs = (rLasthop.map (fun d => .emit d (.TunnelAck id))).toList ∧
    m'.m_tib = Function.update m.m_tib id (some (some lasthop, rLasthop)) ∧
    m'.m_prt = Function.update m.m_prt id none ∧ m'.m_idList = m.m_idList ∧ m'.m_dt = m.m_dt ∧
    m'.m_faceIdTable = m.m_faceIdTable := by
  simp only [processTunnelAck, hprt] at h
  obtain ⟨sent, hsent, h⟩ := ok_of_bind h
  cases h
  cases rLasthop with
  | none =>
    cases hsent
    exact ⟨rfl, rfl, rfl, rfl, rfl, rfl⟩
  | some d =>
    obtain ⟨ack, hack, hsent⟩ := ok_of_bind hsent
    obtain ⟨d', hd, rfl⟩ := emitThrough_ok hack
    cases hd
    cases hsent
    exact ⟨rfl, rfl, rfl, rfl, rfl, rfl⟩

theorem processLinkPayload_tables {payload : π}
    (h : processLinkPayload host id payload lasthop m = .ok (m', outs)) :
    m'.m_tib = m.m_tib ∧ m'.m_prt = m.m_prt ∧ m'.m_idList = m.m_idList ∧ m'.m_dt = m.m_dt ∧
      ∀ d packet, .emit d packet ∈ outs → packet = .LinkPayload id payload := by
  simp only [processLinkPayload] at h
  split at h
  · cases h
    exact ⟨rfl, rfl, rfl, rfl, by simp⟩
  · split at h
    · obtain ⟨face, -, h⟩ := ok_of_bind h
      cases h
      exact ⟨rfl, rfl, rfl, rfl, by simp⟩
    · obtain ⟨out, hout, h⟩ := ok_of_bind h
      obtain ⟨d, -, rfl⟩ := emitThrough_ok hout
      cases h
      exact ⟨rfl, rfl, rfl, rfl, by simp⟩

omit [DecidableEq δ] in
theorem TunnelPacket_tables {packet : π} (h : TunnelPacket packet id m = .ok (m', outs)) :
    m'.m_tib = m.m_tib ∧ m'.m_prt = m.m_prt ∧ m'.m_idList = m.m_idList ∧
      m'.m_faceIdTable = m.m_faceIdTable ∧ ∀ d p, .emit d p ∈ outs → p = .LinkPayload id packet := by
  unfold TunnelPacket at h
  split at h
  · cases h
    exact ⟨rfl, rfl, rfl, rfl, by simp⟩
  · obtain ⟨nexthop, -, h⟩ := ok_of_bind h
    cases h
    exact ⟨rfl, rfl, rfl, rfl, by simp⟩

end Specifications

end LeoNdn.HandoverManager
