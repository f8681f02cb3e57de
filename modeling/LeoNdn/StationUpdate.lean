import LeoNdn.SimulatedNetwork
import LeoNdn.Timeline

/-!
`Update`: at every tick it moves the user links of the host stations to the
satellites predicted at the tick before, applies the route tables, and predicts
the attachments of the next tick.
-/

namespace LeoNdn.StationUpdate

open LeoNdn.Loops LeoNdn.SimulatedNetwork

structure Satellite where
  name : String
  node : Option NodeId
  satPrefix : String
  p2pDevice : Option NetDevice
  deriving DecidableEq, Repr

inductive Role
  | unset
  | consumer
  | producer
  | m_producer
  deriving DecidableEq, Repr

structure Station where
  name : String
  node : NodeId
  isHost : Bool
  role : Role
  prefixes : List String
  p2pDevice : Option NetDevice
  attachments : List (ℤ × String)
  curAttachmentIdx : ℕ
  lastAttachmentIdx : ℕ
  handover : Bool
  deriving DecidableEq, Repr

inductive Task
  | ShimResend (node : NodeId) (tunnelId : UserLinkId)
  | OnAssociation (node : NodeId)
  | Resume (node : NodeId)
  | Pause (node : NodeId)
  deriving DecidableEq, Repr

/-- What `Update` asks of the rest of the node: a broadcast at once, or a task
after a delay in milliseconds. -/
inductive Action
  | BroadcastReq (node : NodeId) (id : UserLinkId)
  | Schedule (delay : ℤ) (task : Task)
  deriving DecidableEq, Repr

/-- The changes of a producer's routes at one epoch, by operation. -/
structure RouteDelta where
  add : List (String × String)
  remove : List (String × String)
  deriving DecidableEq, Repr

/-- The static switches of the shim layer, and what an element access past the
end of a vector reads. -/
structure Config where
  m_doShim : Bool
  m_hopLimit : ℕ
  pastAttachments : ℤ × String
  pastRoutes : ℤ × List String
  pastProducerRoutes : ℤ × RouteDelta

/-- `curTime` and `interval` in minutes, `period` in milliseconds. -/
structure UpdateParams where
  interval : ℤ
  curTime : ℤ
  period : ℤ

/-- What the loops of `Update` share. -/
structure World where
  satellites : String → Option Satellite
  net : Network
  actions : List Action
  m_lastSatPrefix : NodeId → String

structure RouteItem where
  consumer : String
  producer : String
  table : List (ℤ × List String)

structure ProducerItem where
  producer : String
  table : List (ℤ × RouteDelta)

structure Sim where
  world : World
  stations : List Station
  routes : List RouteItem
  producerRoutes : List ProducerItem

namespace World

variable (w : World)

/-- `satellites[name]`: a missing satellite is created, without a node. -/
def satelliteAt (name : String) : Satellite × World :=
  match w.satellites name with
  | some sat => (sat, w)
  | none =>
    let sat : Satellite := ⟨"", none, "", none⟩
    (sat, { w with satellites := Function.update w.satellites name (some sat) })

def setSatellite (name : String) (sat : Satellite) : World :=
  { w with satellites := Function.update w.satellites name (some sat) }

def perform (actions : List Action) : World := { w with actions := w.actions ++ actions }

end World

/-- Add the routes for the station's prefixes to its access satellite. -/
def AttachPrefix (satN : NodeId) (sat : Satellite) (st : Station) (net : Network) :
    Except Fault Network :=
  st.prefixes.foldlM (fun net namePrefix => do
    let face ← deref (net.getFaceByNetDevice satN sat.p2pDevice)
    .ok (net.AddRoute satN namePrefix face.id 1)) net

def DetachPrefix (st : Station) (sat : Satellite) (net : Network) : Except Fault Network := do
  let stFace ← deref (net.getFaceByNetDevice st.node st.p2pDevice)
  let net := net.modifyFace st.node stFace.netDevice (fun f => { f with m_isGone := true })
  let net := net.RemoveRoute st.node "/" stFace.id
  let satN ← deref sat.node
  let satFace ← deref (net.getFaceByNetDevice satN sat.p2pDevice)
  let net := net.modifyFace satN satFace.netDevice (fun f => { f with m_isGone := true })
  let net := net.RemoveRoute satN "/" satFace.id
  .ok (st.prefixes.foldl (fun net namePrefix => net.RemoveRoute satN namePrefix satFace.id) net)

/-- The part of the first loop that takes down the link of the last attachment;
it returns the id of that link, empty when there was none. -/
def detachLast (cfg : Config) (st : Station) (w : World) :
    Except Fault (Option UserLinkId × Station × World) :=
  if st.handover then
    match st.p2pDevice with
    | none => .ok (none, st, w)
    | some d => do
      let oldStFace ← assertNonNull (w.net.getFaceByNetDevice st.node (some d))
      let lastSatName := (st.attachments.getD st.lastAttachmentIdx cfg.pastAttachments).2
      let oldSat := (w.satelliteAt lastSatName).1
      let w := (w.satelliteAt lastSatName).2
      let net ← DetachPrefix st oldSat w.net
      .ok (oldStFace.m_id, { st with p2pDevice := none },
        { w with net := net }.setSatellite lastSatName { oldSat with p2pDevice := none })
  else .ok (none, st, w)

def connect (stN satN : NodeId) (net : Network) :
    Except Fault ((NetDevice × NetDevice) × Network) := do
  let (devices, net) := net.Install stN satN
  let net := net.createAndRegisterFace stN devices.1
  let net := net.createAndRegisterFace satN devices.2
  let userLinkId := (devices.1.address, devices.2.address)
  let mark : Face → Face := fun f => { f with m_isUserLink := true, m_id := some userLinkId }
  let stFace ← deref (net.getFaceByNetDevice stN (some devices.1))
  let net := (net.modifyFace stN devices.1 mark).AddUserLink stN userLinkId stFace.id
  let satFace ← deref (net.getFaceByNetDevice satN (some devices.2))
  let net := (net.modifyFace satN devices.2 mark).AddUserLink satN userLinkId satFace.id
  .ok (devices, net)

/-- The tunnel request and the KITE update that follow an attachment. -/
def attachActions (cfg : Config) (st : Station) (oldId : Option UserLinkId) : List Action :=
  (match oldId with
    | none => []
    | some id =>
      if (st.role = .consumer ∨ st.role = .m_producer) ∧ cfg.m_doShim then
        .BroadcastReq st.node id ::
          if st.role = .consumer then [.Schedule (cfg.m_hopLimit * 10 * 2 + 5) (.ShimResend st.node id)]
          else []
      else []) ++
  if st.role = .m_producer then [.Schedule 1 (.OnAssociation st.node)] else []

def attach (cfg : Config) (curSatName : String) (oldId : Option UserLinkId) (st : Station) (w : World) :
    Except Fault (Station × World) := do
  let sat := (w.satelliteAt curSatName).1
  let w := (w.satelliteAt curSatName).2
  let satN ← deref sat.node
  let (devices, net) ← connect st.node satN w.net
  let st := { st with p2pDevice := some devices.1 }
  let sat := { sat with p2pDevice := some devices.2 }
  let net ← AttachPrefix satN sat st net
  .ok (st, ({ w with net := net }.setSatellite curSatName sat).perform (attachActions cfg st oldId))

/-- The body of the first loop over the stations. -/
def moveUserLink (cfg : Config) (curTime : ℤ) (st : Station) (w : World) :
    Except Fault (Station × World) :=
  if st.isHost = false ∨ st.attachments.length ≤ st.curAttachmentIdx then .ok (st, w)
  else do
    let (oldId, st, w) ← detachLast cfg st w
    let curSatName := (st.attachments.getD st.curAttachmentIdx cfg.pastAttachments).2
    if curSatName = "-" then .ok (st, w)
    else if st.handover = false ∧ 0 < curTime then .ok (st, w)
    else attach cfg curSatName oldId st w

def routeLinks (links : List String) : List (String × String) := links.zip links.tail

/-- Both loops of `ApplyRoutes` and of `RemoveRoutes`, with the route operation. -/
def changeRoutes (op : Network → NodeId → String → FaceId → Network) (prefixes : List String)
    (links : List (String × String)) (w : World) : Except Fault World :=
  links.foldlM (fun w link => do
    let sat1 := (w.satelliteAt link.1).1
    let w := (w.satelliteAt link.1).2
    let sat2 := (w.satelliteAt link.2).1
    let w := (w.satelliteAt link.2).2
    prefixes.foldlM (fun w namePrefix => do
      let node1 ← deref sat1.node
      let node2 ← deref sat2.node
      let face ← w.net.faceTowards node1 node2
      .ok { w with net := op w.net node1 namePrefix face.id }) w) w

def addRoute (net : Network) (n : NodeId) (namePrefix : String) (face : FaceId) : Network :=
  net.AddRoute n namePrefix face Network.maxMetric

def ApplyRoutes (prefixes links : List String) (w : World) : Except Fault World :=
  if 1 < links.length then changeRoutes addRoute prefixes (routeLinks links) w
  else .error .assertion

def RemoveRoutes (prefixes links : List String) (w : World) : Except Fault World :=
  if 1 < links.length then changeRoutes Network.RemoveRoute prefixes (routeLinks links) w
  else .error .assertion

def UpdateRoutes (prefixes : List String) (routes : RouteDelta) (w : World) : Except Fault World := do
  let w ← changeRoutes addRoute prefixes routes.add w
  changeRoutes Network.RemoveRoute prefixes routes.remove w

def producerPrefixes (stations : List Station) (name : String) : List String :=
  ((stations.find? (fun st => st.name = name)).map Station.prefixes).getD []

/-- The part of the second loop for a table with at least two entries left. -/
def advanceRoutes (cfg : Config) (curTime : ℤ) (prefixes : List String)
    (e0 e1 : ℤ × List String) (rest : List (ℤ × List String)) (w : World) :
    Except Fault (List (ℤ × List String) × World) :=
  let table := e0 :: e1 :: rest
  let (curIdx, nextTime) := Timeline.seek curTime (fun _ => cfg.pastRoutes.1) rest 1 e1.1
  if table.length ≤ curIdx then .ok ([], w)
  else
    let update := (curTime < nextTime ∧ curIdx ≠ 1) ∨ curTime = nextTime
    let curIdx := if curTime < nextTime ∧ curIdx ≠ 1 then curIdx - 1 else curIdx
    if update then do
      let w ← RemoveRoutes prefixes e0.2 w
      let w ← ApplyRoutes prefixes (table.getD curIdx cfg.pastRoutes).2 w
      .ok (table.drop (curIdx - 1), w)
    else .ok (table, w)

/-- The body of the second loop: the route table of a consumer/producer pair. -/
def updatePairRoutes (cfg : Config) (curTime : ℤ) (prefixes : List String)
    (table : List (ℤ × List String)) (w : World) : Except Fault (List (ℤ × List String) × World) :=
  match table with
  | [] => .ok ([], w)
  | e0 :: rest =>
    if e0.1 = 0 then do
      let w ← ApplyRoutes prefixes e0.2 w
      let table := (-1, e0.2) :: rest
      .ok (if table.length < 2 then [] else table, w)
    else
      match rest with
      | [] => .ok ([], w)
      | e1 :: rest =>
        if curTime ≤ e0.1 then .ok (e0 :: e1 :: rest, w)
        else do
          let (table, w) ← advanceRoutes cfg curTime prefixes e0 e1 rest w
          .ok (if table.length < 2 then [] else table, w)

/-- The body of the third loop: the route changes of a producer. -/
def updateProducerRoutes (cfg : Config) (curTime : ℤ) (prefixes : List String)
    (table : List (ℤ × RouteDelta)) (w : World) : Except Fault (List (ℤ × RouteDelta) × World) :=
  match table with
  | [] => .ok ([], w)
  | e0 :: rest =>
    let (nextIdx, nextTime) := Timeline.seek curTime (fun _ => cfg.pastProducerRoutes.1) rest 0 e0.1
    let update := curTime = nextTime ∨ (curTime < nextTime ∧ 0 < nextIdx)
    let nextIdx := if curTime < nextTime then nextIdx - 1 else nextIdx
    if update then do
      let w ← UpdateRoutes prefixes ((e0 :: rest).getD nextIdx cfg.pastProducerRoutes).2 w
      .ok ((e0 :: rest).drop nextIdx, w)
    else if curTime < nextTime then .ok (e0 :: rest, w)
    else .ok ([], w)

/-- The cursor part of the last loop: the attachment at the next tick. -/
def predictAttachment (cfg : Config) (curTime : ℤ) (st : Station) : Station :=
  let first := (st.attachments.getD st.curAttachmentIdx cfg.pastAttachments).1
  if curTime ≤ first ∨ st.attachments.length ≤ st.curAttachmentIdx then { st with handover := false }
  else
    let lastAttachmentIdx := st.curAttachmentIdx
    let (idx, nextTime) :=
      Timeline.seek curTime id (st.attachments.drop (st.curAttachmentIdx + 1)) st.curAttachmentIdx first
    if curTime < nextTime then
      if idx - 1 ≠ lastAttachmentIdx then
        { st with
          curAttachmentIdx := idx - 1, lastAttachmentIdx := lastAttachmentIdx, handover := true }
      else { st with curAttachmentIdx := idx - 1, handover := false }
    else if curTime = nextTime then
      { st with curAttachmentIdx := idx, lastAttachmentIdx := lastAttachmentIdx, handover := true }
    else { st with curAttachmentIdx := idx, handover := false }

/-- The effects of a predicted handover between two satellites. -/
def announceHandover (cfg : Config) (params : UpdateParams) (st : Station) (w : World) : World :=
  let curSatName := (st.attachments.getD st.curAttachmentIdx cfg.pastAttachments).2
  let lastSatName := (st.attachments.getD st.lastAttachmentIdx cfg.pastAttachments).2
  if st.handover ∧ curSatName ≠ "-" ∧ lastSatName ≠ "-" then
    if st.role = .consumer then
      let w := w.perform [.Schedule (params.interval * 60 * 1000 - params.period) (.Resume st.node),
        .Schedule (params.interval * 60 * 1000 + params.period) (.Pause st.node)]
      let lastSat := (w.satelliteAt lastSatName).1
      let w := (w.satelliteAt lastSatName).2
      { w with m_lastSatPrefix := Function.update w.m_lastSatPrefix st.node lastSat.satPrefix }
    else if st.role = .m_producer then w.perform [.Schedule 1 (.OnAssociation st.node)]
    else w
  else w

/-- The body of the last loop over the stations. -/
def updateAttachment (cfg : Config) (params : UpdateParams) (st : Station) (w : World) :
    Except Fault (Station × World) :=
  if st.isHost = false then .ok (st, w)
  else
    let st := predictAttachment cfg (params.curTime + params.interval) st
    .ok (st, announceHandover cfg params st w)

/-- One call of `Update`; the parameters returned are those of the next call,
which it schedules one interval later. -/
def Update (cfg : Config) (params : UpdateParams) (sim : Sim) : Except Fault (UpdateParams × Sim) := do
  let (stations, world) ← forEach (moveUserLink cfg params.curTime) sim.stations sim.world
  let (routes, world) ← forEach (fun item w => do
    let (table, w) ← updatePairRoutes cfg params.curTime (producerPrefixes stations item.producer)
      item.table w
    .ok ({ item with table := table }, w)) sim.routes world
  let (producerRoutes, world) ← forEach (fun item w => do
    let (table, w) ← updateProducerRoutes cfg params.curTime (producerPrefixes stations item.producer)
      item.table w
    .ok ({ item with table := table }, w)) sim.producerRoutes world
  let (stations, world) ← forEach (updateAttachment cfg params) stations world
  .ok ({ params with curTime := params.curTime + params.interval },
    ⟨world, stations, routes, producerRoutes⟩)

theorem Update_ok {cfg : Config} {params params' : UpdateParams} {sim sim' : Sim}
    (h : Update cfg params sim = .ok (params', sim')) :
    ∃ stations w₁ routes w₂ producerRoutes w₃ stations' w₄,
      forEach (moveUserLink cfg params.curTime) sim.stations sim.world = .ok (stations, w₁) ∧
      forEach (fun item w => do
        let (table, w) ← updatePairRoutes cfg params.curTime (producerPrefixes stations item.producer)
          item.table w
        .ok ({ item with table := table }, w)) sim.routes w₁ = .ok (routes, w₂) ∧
      forEach (fun item w => do
        let (table, w) ← updateProducerRoutes cfg params.curTime (producerPrefixes stations item.producer)
          item.table w
        .ok ({ item with table := table }, w)) sim.producerRoutes w₂ = .ok (producerRoutes, w₃) ∧
      forEach (updateAttachment cfg params) stations w₃ = .ok (stations', w₄) ∧
      params' = { params with curTime := params.curTime + params.interval } ∧
      sim' = ⟨w₄, stations', routes, producerRoutes⟩ := by
  obtain ⟨⟨stations, w₁⟩, hmove, h⟩ := ok_of_bind h
  obtain ⟨⟨routes, w₂⟩, hroutes, h⟩ := ok_of_bind h
  obtain ⟨⟨producerRoutes, w₃⟩, hproducers, h⟩ := ok_of_bind h
  obtain ⟨⟨stations', w₄⟩, hpredict, h⟩ := ok_of_bind h
  cases h
  exact ⟨stations, w₁, routes, w₂, producerRoutes, w₃, stations', w₄, hmove, hroutes, hproducers, hpredict, rfl, rfl⟩

/-- The state after the call at time 0 and `n` more calls, with the parameters
of the next one. -/
def updates (cfg : Config) (params : UpdateParams) (sim : Sim) : ℕ → Except Fault (UpdateParams × Sim)
  | 0 => Update cfg params sim
  | n + 1 => do
    let (params, sim) ← updates cfg params sim n
    Update cfg params sim

end LeoNdn.StationUpdate
