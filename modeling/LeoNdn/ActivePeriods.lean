import LeoNdn.AttachmentTracking
import LeoNdn.CbrConsumer

/-!
The periods around the handovers of a consumer station in which its application
sends Interests: the calls of `Resume` and `Pause` that `Update` schedules, in
the order in which the simulator makes them.
-/

namespace LeoNdn.ActivePeriods

open LeoNdn.Loops LeoNdn.SimulatedNetwork LeoNdn.StationUpdate LeoNdn.AttachmentTracking

section Definitions

/-- An event of the simulator, with its time in milliseconds; the events are numbered
by the tick that schedules them and their place among those of the tick. -/
structure SimEvent where
  ts : ℤ
  tick : ℕ
  place : ℕ
  task : Task
  deriving DecidableEq, Repr

/-- The order in which events are executed: at the same time, in that of their numbers. -/
def SimEvent.before (event event' : SimEvent) : Bool :=
  event.ts < event'.ts ∨ (event.ts = event'.ts ∧
    (event.tick < event'.tick ∨ (event.tick = event'.tick ∧ event.place ≤ event'.place)))

def taskEvent (now : ℤ) (tick : ℕ) (action : Action × ℕ) : Option SimEvent :=
  match action.1 with
  | .Schedule delay task => some ⟨now + delay, tick, action.2, task⟩
  | .BroadcastReq _ _ => none

variable (cfg : Config) (params : UpdateParams) (sim : Sim)

def simAt : ℕ → Except Fault Sim
  | 0 => .ok sim
  | k + 1 => (updates cfg params sim k).map Prod.snd

def tickEvents (k : ℕ) : List SimEvent :=
  match simAt cfg params sim k, simAt cfg params sim (k + 1) with
  | .ok sim, .ok sim' => (sim'.world.actions.drop sim.world.actions.length).zipIdx.filterMap
      (taskEvent (k * (params.interval * 60 * 1000)) k)
  | _, _ => []

/-- The events that the ticks up to the one with number `n` schedule and that are
executed by the time `t`, in order. -/
def executed (n : ℕ) (t : ℤ) : List SimEvent :=
  (((List.range (n + 1)).flatMap (tickEvents cfg params sim)).filter (fun event => event.ts ≤ t)).mergeSort
    SimEvent.before

/-- What a task sets `m_pause` of the consumer on a node to. -/
def setsPause (node : NodeId) : Task → Option Bool
  | .Resume n => if n = node then some false else none
  | .Pause n => if n = node then some true else none
  | _ => none

/-- `m_pause` of the consumer on a node at the time `t`, after the calls made then. -/
def pausedAt (node : NodeId) (n : ℕ) (t : ℤ) : Bool :=
  (executed cfg params sim n t).foldl (fun m_pause event => (setsPause node event.task).getD m_pause) true

/-- `Update` has predicted a handover of the consumer station between two satellites. -/
def Predicts (st : Station) : Prop :=
  st.isHost = true ∧ st.role = .consumer ∧ st.handover = true ∧
    (st.attachments.getD st.curAttachmentIdx cfg.pastAttachments).2 ≠ "-" ∧
    (st.attachments.getD st.lastAttachmentIdx cfg.pastAttachments).2 ≠ "-"

instance (st : Station) : Decidable (Predicts cfg st) :=
  inferInstanceAs (Decidable (_ ∧ _ ∧ _ ∧ _ ∧ _))

def PredictedAt (i k : ℕ) : Prop :=
  ∃ params' sim', updates cfg params sim k = .ok (params', sim') ∧
    ∃ st, sim'.stations[i]? = some st ∧ Predicts cfg st

def handoverTime (k : ℕ) : ℤ := (k + 1 : ℕ) * (params.interval * 60 * 1000)

/-- Within a period of a handover that one of the ticks up to `n` has predicted. -/
def InWindow (i n : ℕ) (t : ℤ) : Prop :=
  ∃ k ≤ n, PredictedAt cfg params sim i k ∧
    handoverTime params k - params.period ≤ t ∧ t < handoverTime params k + params.period

end Definitions

section Actions

variable {node : NodeId} {w w' w'' : World} {cfg : Config} {params params' : UpdateParams} {sim sim' : Sim}

def concerns (node : NodeId) : Action → Bool
  | .Schedule _ task => (setsPause node task).isSome
  | .BroadcastReq _ _ => false

/-- Actions have been added, and `actions` are those that concern the node. -/
def Adds (node : NodeId) (actions : List Action) (w w' : World) : Prop :=
  ∃ new, w'.actions = w.actions ++ new ∧ new.filter (concerns node) = actions

theorem Adds.refl (node : NodeId) (w : World) : Adds node [] w w := ⟨[], (List.append_nil _).symm, rfl⟩

theorem Adds.of_eq (h : w'.actions = w.actions) : Adds node [] w w' := ⟨[], by rw [h, List.append_nil], rfl⟩

theorem Adds.trans {actions actions' : List Action} (h : Adds node actions w w') (h' : Adds node actions' w' w'') :
    Adds node (actions ++ actions') w w'' := by
  obtain ⟨new, hw', rfl⟩ := h
  obtain ⟨new', hw'', rfl⟩ := h'
  exact ⟨new ++ new', by rw [hw'', hw', List.append_assoc], List.filter_append _ _⟩

theorem satelliteAt_actions (w : World) (name : String) : (w.satelliteAt name).2.actions = w.actions := by
  unfold World.satelliteAt
  split <;> rfl

theorem changeRoutes_adds {op : Network → NodeId → String → FaceId → Network} {prefixes : List String}
    {links : List (String × String)} (h : changeRoutes op prefixes links w = .ok w') : Adds node [] w w' := by
  refine foldlM_preserves (Adds.refl node) (fun _ _ _ => Adds.trans) ?_ h
  intro link _ w w' hlink
  have hsatellites : Adds node [] w ((w.satelliteAt link.1).2.satelliteAt link.2).2 :=
    Adds.of_eq (by rw [satelliteAt_actions, satelliteAt_actions])
  apply hsatellites.trans
  refine foldlM_preserves (Adds.refl node) (fun _ _ _ => Adds.trans) ?_ hlink
  intro namePrefix _ w w' hroute
  obtain ⟨node1, -, hroute⟩ := ok_of_bind hroute
  obtain ⟨node2, -, hroute⟩ := ok_of_bind hroute
  obtain ⟨face, -, hroute⟩ := ok_of_bind hroute
  cases hroute
  exact Adds.of_eq rfl

theorem updatePairRoutes_adds {curTime : ℤ} {prefixes : List String} {table table' : List (ℤ × List String)}
    (h : updatePairRoutes cfg curTime prefixes table w = .ok (table', w')) : Adds node [] w w' := by
  rcases updatePairRoutes_cases h with rfl | ⟨links, w₁, rfl | ⟨old, hremove⟩, happly⟩
  · exact Adds.refl _ _
  · exact changeRoutes_adds (ApplyRoutes_ok happly).2
  · exact (changeRoutes_adds (RemoveRoutes_ok hremove).2).trans (changeRoutes_adds (ApplyRoutes_ok happly).2)

theorem updateProducerRoutes_adds {curTime : ℤ} {prefixes : List String} {table table' : List (ℤ × RouteDelta)}
    (h : updateProducerRoutes cfg curTime prefixes table w = .ok (table', w')) : Adds node [] w w' := by
  rcases updateProducerRoutes_cases h with rfl | ⟨delta, w₁, hadd, hremove⟩
  · exact Adds.refl _ _
  · exact (changeRoutes_adds hadd).trans (changeRoutes_adds hremove)

theorem attachActions_concerns (cfg : Config) (st : Station) (oldId : Option UserLinkId) :
    (attachActions cfg st oldId).filter (concerns node) = [] := by
  unfold attachActions
  rw [List.filter_append, List.append_eq_nil_iff]
  constructor
  · split
    · rfl
    · split_ifs <;> rfl
  · split_ifs <;> rfl

theorem detachLast_adds {st st' : Station} {oldId : Option UserLinkId}
    (h : detachLast cfg st w = .ok (oldId, st', w')) : Adds node [] w w' := by
  unfold detachLast at h
  split at h
  · split at h
    · cases h
      exact Adds.refl _ w
    · obtain ⟨oldStFace, -, h⟩ := ok_of_bind h
      obtain ⟨net, -, h⟩ := ok_of_bind h
      cases h
      exact Adds.of_eq (satelliteAt_actions w _)
  · cases h
    exact Adds.refl _ w

theorem moveUserLink_adds {curTime : ℤ} {st st' : Station} (h : moveUserLink cfg curTime st w = .ok (st', w')) :
    Adds node [] w w' := by
  unfold moveUserLink at h
  split_ifs at h with hskip
  · cases h
    exact Adds.refl _ w
  · obtain ⟨⟨oldId, st₁, w₁⟩, hdetach, h⟩ := ok_of_bind h
    have hadds : Adds node [] w w₁ := detachLast_adds hdetach
    dsimp only at h
    split_ifs at h with hnone hsame
    · cases h
      exact hadds
    · cases h
      exact hadds
    · obtain ⟨satN, -, h⟩ := ok_of_bind h
      obtain ⟨⟨devices, net⟩, -, h⟩ := ok_of_bind h
      obtain ⟨net', -, h⟩ := ok_of_bind h
      cases h
      exact hadds.trans ⟨_, congrArg (· ++ _) (satelliteAt_actions w₁ _), attachActions_concerns cfg _ oldId⟩

/-- What `Update` schedules on the node of a station, by the station after its prediction. -/
def periodActions (cfg : Config) (params : UpdateParams) (st : Station) : List Action :=
  if Predicts cfg st then
    [.Schedule (params.interval * 60 * 1000 - params.period) (.Resume st.node),
      .Schedule (params.interval * 60 * 1000 + params.period) (.Pause st.node)]
  else []

theorem predictAttachment_same (cfg : Config) (curTime : ℤ) (st : Station) :
    (predictAttachment cfg curTime st).node = st.node ∧ (predictAttachment cfg curTime st).isHost = st.isHost := by
  unfold predictAttachment
  dsimp only
  split_ifs <;> exact ⟨rfl, rfl⟩

theorem announceHandover_adds (cfg : Config) (params : UpdateParams) {st : Station} (hhost : st.isHost = true)
    (w : World) : Adds node (if st.node = node then periodActions cfg params st else []) w
      (announceHandover cfg params st w) := by
  unfold announceHandover periodActions
  dsimp only
  by_cases hpredicts : Predicts cfg st
  · rw [if_pos hpredicts]
    obtain ⟨-, hrole, hhandover, hsatellites⟩ := hpredicts
    have hannounced := And.intro hhandover hsatellites
    rw [if_pos hannounced, if_pos hrole]
    refine ⟨_, satelliteAt_actions _ _, ?_⟩
    by_cases hnode : st.node = node
    · simp [concerns, setsPause, hnode]
    · simp [concerns, setsPause, hnode]
  · rw [if_neg hpredicts, ite_self]
    split_ifs with hhandover hconsumer hproducer
    · exact absurd ⟨hhost, hconsumer, hhandover.1, hhandover.2.1, hhandover.2.2⟩ hpredicts
    · exact ⟨_, rfl, rfl⟩
    · exact Adds.refl _ w
    · exact Adds.refl _ w

theorem updateAttachment_adds (node : NodeId) {st st' : Station}
    (h : updateAttachment cfg params st w = .ok (st', w')) :
    st'.node = st.node ∧ Adds node (if st.node = node then periodActions cfg params st' else []) w w' := by
  unfold updateAttachment at h
  split_ifs at h with hhost
  · cases h
    have hnot : ¬ Predicts cfg st := fun hpredicts => absurd hpredicts.1 (by rw [hhost]; decide)
    rw [periodActions, if_neg hnot, ite_self]
    exact ⟨rfl, Adds.refl _ w⟩
  · cases h
    obtain ⟨hnode, hsame⟩ := predictAttachment_same cfg (params.curTime + params.interval) st
    rw [← hnode]
    exact ⟨rfl, announceHandover_adds cfg params (hsame.trans (Bool.not_eq_false _ ▸ hhost)) w⟩

theorem moveUserLink_node {curTime : ℤ} {st st' : Station} (h : moveUserLink cfg curTime st w = .ok (st', w')) :
    st'.node = st.node := by
  rw [(moveUserLink_grows h).2]

theorem forEach_updateAttachment_adds {stations stations' : List Station}
    (h : forEach (updateAttachment cfg params) stations w = .ok (stations', w'))
    (hnodes : (stations.map Station.node).Nodup) {i : ℕ} {st : Station} (hst : stations[i]? = some st) :
    ∃ st', stations'[i]? = some st' ∧ st'.node = st.node ∧ Adds st.node (periodActions cfg params st') w w' := by
  obtain ⟨st', t, t', hbefore, hpass, hafter, hst'⟩ := forEach_split h i st hst
  obtain ⟨hi, rfl⟩ := List.getElem?_eq_some_iff.mp hst
  have hsplit : stations = stations.take i ++ stations[i] :: stations.drop (i + 1) := by
    rw [← List.drop_eq_getElem_cons hi, List.take_append_drop]
  rw [hsplit, List.map_append, List.map_cons, List.nodup_append, List.nodup_cons] at hnodes
  obtain ⟨-, ⟨hlater, -⟩, hearlier⟩ := hnodes
  have hothers : ∀ (l l' : List Station) (w w' : World), (∀ other ∈ l, other.node ≠ stations[i].node) →
      forEach (updateAttachment cfg params) l w = .ok (l', w') → Adds stations[i].node [] w w' := by
    intro l l' w w' hne hl
    refine forEach_preserves (Adds.refl stations[i].node) (fun _ _ _ => Adds.trans) ?_ hl
    intro other hmem s other' s' hother
    have hadds := (updateAttachment_adds stations[i].node hother).2
    rwa [if_neg (hne other hmem)] at hadds
  obtain ⟨hnode, hadds⟩ := updateAttachment_adds stations[i].node hpass
  rw [if_pos rfl] at hadds
  refine ⟨st', hst', hnode, ?_⟩
  have hbefore' := hothers _ _ _ _ (fun other hmem =>
    hearlier _ (List.mem_map_of_mem hmem) _ List.mem_cons_self) hbefore
  have hafter' := hothers _ _ _ _ (fun other hmem heq => hlater (heq ▸ List.mem_map_of_mem hmem)) hafter
  have hall := (hbefore'.trans hadds).trans hafter'
  rwa [List.nil_append, List.append_nil] at hall

theorem Update_adds (h : Update cfg params sim = .ok (params', sim'))
    (hnodes : (sim.stations.map Station.node).Nodup) {i : ℕ} {st : Station} (hst : sim.stations[i]? = some st) :
    params' = { params with curTime := params.curTime + params.interval } ∧
      sim'.stations.map Station.node = sim.stations.map Station.node ∧
      ∃ st', sim'.stations[i]? = some st' ∧ st'.node = st.node ∧
        Adds st.node (periodActions cfg params st') sim.world sim'.world := by
  obtain ⟨stations, w₁, routes, w₂, producerRoutes, w₃, stations', w₄, hmove, hroutes, hproducers, hpredict, rfl, rfl⟩ :=
    Update_ok h
  have hadds₁ : Adds st.node [] sim.world w₁ :=
    forEach_preserves (Adds.refl st.node) (fun _ _ _ => Adds.trans)
      (fun _ _ _ _ _ h => moveUserLink_adds h) hmove
  have hadds₂ : Adds st.node [] w₁ w₂ := by
    refine forEach_preserves (Adds.refl st.node) (fun _ _ _ => Adds.trans) ?_ hroutes
    intro item _ w item' w' hitem
    obtain ⟨⟨table, w₀⟩, hitem, heq⟩ := ok_of_bind hitem
    cases heq
    exact updatePairRoutes_adds hitem
  have hadds₃ : Adds st.node [] w₂ w₃ := by
    refine forEach_preserves (Adds.refl st.node) (fun _ _ _ => Adds.trans) ?_ hproducers
    intro item _ w item' w' hitem
    obtain ⟨⟨table, w₀⟩, hitem, heq⟩ := ok_of_bind hitem
    cases heq
    exact updateProducerRoutes_adds hitem
  have hsame : stations.map Station.node = sim.stations.map Station.node :=
    forEach_map (fun _ _ _ _ h => moveUserLink_node h) hmove
  have hsame' : stations'.map Station.node = stations.map Station.node :=
    forEach_map (fun st w st' w' h => (updateAttachment_adds st.node h).1) hpredict
  obtain ⟨st₁, t, t', -, hmoved, -, hst₁⟩ := forEach_split hmove i st hst
  obtain ⟨st', hst', hnode, hadds₄⟩ := forEach_updateAttachment_adds hpredict (hsame ▸ hnodes) hst₁
  rw [moveUserLink_node hmoved] at hnode hadds₄
  exact ⟨rfl, hsame'.trans hsame, st', hst', hnode, ((hadds₁.trans hadds₂).trans hadds₃).trans hadds₄⟩

theorem updates_adds (hnodes : (sim.stations.map Station.node).Nodup) {i : ℕ} {st : Station}
    (hst : sim.stations[i]? = some st) (k : ℕ) (hrun : updates cfg params sim k = .ok (params', sim')) :
    (∃ curTime, params' = { params with curTime := curTime }) ∧
      sim'.stations.map Station.node = sim.stations.map Station.node ∧
      ∃ before st', simAt cfg params sim k = .ok before ∧ sim'.stations[i]? = some st' ∧ st'.node = st.node ∧
        Adds st.node (periodActions cfg params st') before.world sim'.world := by
  induction k generalizing params' sim' with
  | zero =>
    obtain ⟨hparams, hsame, st', hst', hnode, hadds⟩ := Update_adds hrun hnodes hst
    exact ⟨⟨_, hparams⟩, hsame, sim, st', rfl, hst', hnode, hadds⟩
  | succ k ih =>
    obtain ⟨⟨mid, before⟩, hmid, hstep⟩ := ok_of_bind hrun
    obtain ⟨⟨curTime, rfl⟩, hbefore, -, st₁, -, hst₁, hnode₁, -⟩ := ih hmid
    obtain ⟨hparams, hsame, st', hst', hnode, hadds⟩ := Update_adds hstep (hbefore ▸ hnodes) hst₁
    rw [hnode₁] at hnode hadds
    have hat : simAt cfg params sim (k + 1) = .ok before := congrArg (Except.map Prod.snd) hmid
    exact ⟨⟨_, hparams⟩, hsame.trans hbefore, before, st', hat, hst', hnode, hadds⟩

end Actions

section Calls

variable {node : NodeId}

def calls (node : NodeId) (events : List SimEvent) : List SimEvent :=
  events.filter (fun event => (setsPause node event.task).isSome)

theorem calls_quiet (now : ℤ) (tick start : ℕ) {new : List Action} (h : ∀ action ∈ new, ¬ concerns node action) :
    calls node ((new.zipIdx start).filterMap (taskEvent now tick)) = [] := by
  rw [calls, List.filter_eq_nil_iff]
  intro event hmem
  obtain ⟨⟨action, place⟩, haction, hevent⟩ := List.mem_filterMap.mp hmem
  have hquiet := h action (List.fst_mem_of_mem_zipIdx haction)
  cases action with
  | BroadcastReq => cases hevent
  | Schedule delay task =>
    cases hevent
    exact hquiet

theorem calls_two (now : ℤ) (tick : ℕ) {delay delay' : ℤ} {task task' : Task} {new : List Action}
    (h : new.filter (concerns node) = [.Schedule delay task, .Schedule delay' task']) :
    ∃ place place', place < place' ∧ calls node (new.zipIdx.filterMap (taskEvent now tick)) =
      [⟨now + delay, tick, place, task⟩, ⟨now + delay', tick, place', task'⟩] := by
  obtain ⟨before, rest, rfl, hbefore, hfirst, h⟩ := List.filter_eq_cons_iff.mp h
  obtain ⟨between, after, rfl, hbetween, hsecond, h⟩ := List.filter_eq_cons_iff.mp h
  have hafter := List.filter_eq_nil_iff.mp h
  refine ⟨before.length, before.length + 1 + between.length, by omega, ?_⟩
  have hquiet := calls_quiet now tick 0 hbefore
  have hquiet' := calls_quiet now tick (before.length + 1) hbetween
  have hquiet'' := calls_quiet now tick (before.length + 1 + between.length + 1) hafter
  unfold calls at hquiet hquiet' hquiet'' ⊢
  rw [List.zipIdx_append, List.zipIdx_cons, List.zipIdx_append, List.zipIdx_cons, Nat.zero_add,
    List.filterMap_append, List.filter_append, hquiet, List.nil_append]
  have hfirst' : (setsPause node task).isSome = true := hfirst
  have hsecond' : (setsPause node task').isSome = true := hsecond
  simp only [List.filterMap_cons, taskEvent, List.filterMap_append, List.filter_cons, List.filter_append, hfirst',
    hsecond', hquiet', hquiet'', if_true, List.nil_append]

variable {cfg : Config} {params params' : UpdateParams} {sim sim' : Sim} {i : ℕ} {st : Station}

theorem calls_tickEvents (hnodes : (sim.stations.map Station.node).Nodup) (hst : sim.stations[i]? = some st) (k : ℕ)
    (hrun : updates cfg params sim k = .ok (params', sim')) :
    ∃ place place', place < place' ∧ ∀ event, event ∈ calls st.node (tickEvents cfg params sim k) ↔
      PredictedAt cfg params sim i k ∧
        (event = ⟨handoverTime params k - params.period, k, place, .Resume st.node⟩ ∨
          event = ⟨handoverTime params k + params.period, k, place', .Pause st.node⟩) := by
  obtain ⟨-, -, before, st', hbefore, hst', hnode, new, hnew, hactions⟩ := updates_adds hnodes hst k hrun
  have hafter : simAt cfg params sim (k + 1) = .ok sim' := congrArg (Except.map Prod.snd) hrun
  have hevents : tickEvents cfg params sim k =
      new.zipIdx.filterMap (taskEvent (k * (params.interval * 60 * 1000)) k) := by
    unfold tickEvents
    simp only [hbefore, hafter, hnew, List.drop_left]
  have hpredicted : PredictedAt cfg params sim i k ↔ Predicts cfg st' := by
    constructor
    · rintro ⟨params'', sim'', hrun', st'', hst'', hpredicts⟩
      cases hrun.symm.trans hrun'
      cases hst'.symm.trans hst''
      exact hpredicts
    · exact fun hpredicts => ⟨params', sim', hrun, st', hst', hpredicts⟩
  rw [hevents]
  unfold periodActions at hactions
  split_ifs at hactions with hpredicts
  · obtain ⟨place, place', hlt, hcalls⟩ := calls_two (k * (params.interval * 60 * 1000)) k hactions
    refine ⟨place, place', hlt, fun event => ?_⟩
    have hresume : handoverTime params k - params.period =
        k * (params.interval * 60 * 1000) + (params.interval * 60 * 1000 - params.period) := by
      unfold handoverTime
      push_cast
      ring
    have hpause : handoverTime params k + params.period =
        k * (params.interval * 60 * 1000) + (params.interval * 60 * 1000 + params.period) := by
      unfold handoverTime
      push_cast
      ring
    rw [hcalls, hresume, hpause, hnode]
    simp [hpredicted.mpr hpredicts]
  · refine ⟨0, 1, by omega, fun event => ?_⟩
    have hquiet : calls st.node (new.zipIdx.filterMap (taskEvent (k * (params.interval * 60 * 1000)) k)) = [] :=
      calls_quiet _ k 0 (fun action hmem => List.filter_eq_nil_iff.mp hactions action hmem)
    simp [hquiet, hpredicted, hpredicts]

end Calls

section Order

theorem before_trans (a b c : SimEvent) (h : a.before b) (h' : b.before c) : a.before c := by
  simp only [SimEvent.before, decide_eq_true_eq] at h h' ⊢
  omega

theorem before_total (a b : SimEvent) : a.before b || b.before a := by
  simp only [SimEvent.before, Bool.or_eq_true, decide_eq_true_eq]
  omega

variable (node : NodeId)

theorem foldl_setsPause (events : List SimEvent) (m_pause : Bool) :
    events.foldl (fun m_pause event => (setsPause node event.task).getD m_pause) m_pause =
      ((calls node events).getLast?.bind (fun event => setsPause node event.task)).getD m_pause := by
  induction events using List.reverseRecOn with
  | nil => rfl
  | append_singleton events event ih =>
    have happend : calls node (events ++ [event]) = calls node events ++ calls node [event] := List.filter_append _ _
    rw [List.foldl_append, ih, happend]
    cases hsets : setsPause node event.task with
    | none => simp [hsets, calls]
    | some value => simp [hsets, calls]

variable (cfg : Config) (params : UpdateParams) (sim : Sim)

theorem mem_calls_executed (n : ℕ) (t : ℤ) (event : SimEvent) :
    event ∈ calls node (executed cfg params sim n t) ↔
      event.ts ≤ t ∧ ∃ k ≤ n, event ∈ calls node (tickEvents cfg params sim k) := by
  simp only [calls, executed, List.mem_filter, List.mem_mergeSort, List.mem_flatMap, List.mem_range,
    decide_eq_true_eq, Nat.lt_succ_iff]
  tauto

theorem pausedAt_eq_false_iff (n : ℕ) (t : ℤ) : pausedAt cfg params sim node n t = false ↔
    ∃ event, (calls node (executed cfg params sim n t)).getLast? = some event ∧
      setsPause node event.task = some false := by
  rw [pausedAt, foldl_setsPause]
  cases (calls node (executed cfg params sim n t)).getLast? with
  | none => simp
  | some event => cases hsets : setsPause node event.task <;> simp [hsets]

theorem before_getLast {n : ℕ} {t : ℤ} {last event : SimEvent}
    (hlast : (calls node (executed cfg params sim n t)).getLast? = some last)
    (hmem : event ∈ calls node (executed cfg params sim n t)) : event.before last := by
  have hsorted : (calls node (executed cfg params sim n t)).Pairwise (fun a b => a.before b) :=
    (List.pairwise_mergeSort before_trans before_total _).filter _
  obtain ⟨earlier, hearlier⟩ := List.getLast?_eq_some_iff.mp hlast
  rw [hearlier] at hsorted hmem
  rcases List.mem_append.mp hmem with hmem | hmem
  · exact (List.pairwise_append.mp hsorted).2.2 event hmem last List.mem_cons_self
  · rw [List.mem_singleton.mp hmem]
    simp [SimEvent.before]

end Order

section Periods

variable {cfg : Config} {params : UpdateParams} {sim : Sim} {i : ℕ} {st : Station} {n : ℕ} {last : UpdateParams × Sim}

theorem handoverTime_lt (hinterval : 0 < params.interval) {j k : ℕ} (h : j < k) :
    handoverTime params j + params.interval * 60 * 1000 ≤ handoverTime params k := by
  have hle : ((j + 1 : ℕ) : ℤ) + 1 ≤ (k + 1 : ℕ) := by omega
  calc handoverTime params j + params.interval * 60 * 1000
      = (((j + 1 : ℕ) : ℤ) + 1) * (params.interval * 60 * 1000) := by
        unfold handoverTime
        ring
    _ ≤ handoverTime params k := Int.mul_le_mul_of_nonneg_right hle (by omega)

theorem handoverTime_le (hinterval : 0 < params.interval) {j k : ℕ} (h : j ≤ k) :
    handoverTime params j ≤ handoverTime params k := by
  rcases Nat.lt_or_eq_of_le h with hlt | rfl
  · have := handoverTime_lt hinterval hlt
    omega
  · exact le_rfl

theorem calls_executed (hnodes : (sim.stations.map Station.node).Nodup) (hst : sim.stations[i]? = some st)
    (hrun : updates cfg params sim n = .ok last) :
    ∃ place place' : ℕ → ℕ, (∀ k ≤ n, place k < place' k) ∧ ∀ t event,
      event ∈ calls st.node (executed cfg params sim n t) ↔ event.ts ≤ t ∧ ∃ k ≤ n, PredictedAt cfg params sim i k ∧
        (event = ⟨handoverTime params k - params.period, k, place k, .Resume st.node⟩ ∨
          event = ⟨handoverTime params k + params.period, k, place' k, .Pause st.node⟩) := by
  have hticks : ∀ k, ∃ place place' : ℕ, k ≤ n → place < place' ∧ ∀ event,
      event ∈ calls st.node (tickEvents cfg params sim k) ↔ PredictedAt cfg params sim i k ∧
        (event = ⟨handoverTime params k - params.period, k, place, .Resume st.node⟩ ∨
          event = ⟨handoverTime params k + params.period, k, place', .Pause st.node⟩) := by
    intro k
    by_cases hk : k ≤ n
    · obtain ⟨params', sim', hrun'⟩ := updates_ok_of_le hrun hk
      obtain ⟨place, place', hspec⟩ := calls_tickEvents hnodes hst k hrun'
      exact ⟨place, place', fun _ => hspec⟩
    · exact ⟨0, 0, fun hle => absurd hle hk⟩
  choose place place' hspec using hticks
  refine ⟨place, place', fun k hk => (hspec k hk).1, fun t event => ?_⟩
  rw [mem_calls_executed]
  refine and_congr_right fun _ => exists_congr fun k => and_congr_right fun hk => (hspec k hk).2 event

theorem inWindow_of_active (hnonneg : 0 ≤ params.period) (hnodes : (sim.stations.map Station.node).Nodup)
    (hst : sim.stations[i]? = some st) (hrun : updates cfg params sim n = .ok last) {t : ℤ}
    (hactive : pausedAt cfg params sim st.node n t = false) : InWindow cfg params sim i n t := by
  obtain ⟨place, place', hplaces, hcalls⟩ := calls_executed hnodes hst hrun
  obtain ⟨event, hlast, hsets⟩ := (pausedAt_eq_false_iff _ _ _ _ n t).mp hactive
  obtain ⟨hts, k, hk, hpredicted, rfl | rfl⟩ := (hcalls t event).mp (List.mem_of_getLast? hlast)
  · refine ⟨k, hk, hpredicted, hts, ?_⟩
    by_contra hpassed
    have hpause := (hcalls t _).mpr ⟨not_lt.mp hpassed, k, hk, hpredicted, Or.inr rfl⟩
    have hbefore := before_getLast _ _ _ _ hlast hpause
    have hplace := hplaces k hk
    simp only [SimEvent.before, decide_eq_true_eq] at hbefore
    omega
  · simp [setsPause] at hsets

/-- A consumer is paused in the window of a handover only by the one at the tick before. -/
theorem predicted_of_paused (hinterval : 0 < params.interval) (hperiod : params.period < params.interval * 60 * 1000)
    (hnodes : (sim.stations.map Station.node).Nodup) (hst : sim.stations[i]? = some st)
    (hrun : updates cfg params sim n = .ok last) {t : ℤ} (hwindow : InWindow cfg params sim i n t)
    (hpaused : pausedAt cfg params sim st.node n t = true) :
    params.interval * 60 * 1000 < 2 * params.period ∧
      ∃ k < n, PredictedAt cfg params sim i k ∧ PredictedAt cfg params sim i (k + 1) := by
  obtain ⟨place, place', hplaces, hcalls⟩ := calls_executed hnodes hst hrun
  obtain ⟨k, hk, hpredicted, hfrom, hto⟩ := hwindow
  have hresume := (hcalls t _).mpr ⟨hfrom, k, hk, hpredicted, Or.inl rfl⟩
  obtain ⟨event, hlast⟩ := Option.isSome_iff_exists.mp (List.getLast?_isSome.mpr (List.ne_nil_of_mem hresume))
  have hbefore := before_getLast _ _ _ _ hlast hresume
  obtain ⟨hts, j, hj, hpredicted', rfl | rfl⟩ := (hcalls t event).mp (List.mem_of_getLast? hlast)
  · have hactive := (pausedAt_eq_false_iff st.node cfg params sim n t).mpr ⟨_, hlast, if_pos rfl⟩
    rw [hactive] at hpaused
    cases hpaused
  · simp only [SimEvent.before, decide_eq_true_eq] at hbefore hts
    have hlt : j < k := by
      by_contra hge
      have := handoverTime_le hinterval (not_lt.mp hge)
      omega
    have hnext : k = j + 1 := by
      by_contra hne
      have hstep := handoverTime_lt hinterval (Nat.lt_add_one j)
      have hstep' : handoverTime params (j + 1) + params.interval * 60 * 1000 ≤ handoverTime params k :=
        handoverTime_lt hinterval (by omega)
      omega
    subst hnext
    have hstep := handoverTime_lt hinterval hlt
    exact ⟨by omega, j, by omega, hpredicted', hpredicted⟩

theorem handoverTime_succ (params : UpdateParams) (k : ℕ) :
    handoverTime params (k + 1) = handoverTime params k + params.interval * 60 * 1000 := by
  unfold handoverTime
  push_cast
  ring

theorem paused_between (hinterval : 0 < params.interval) (hoverlap : params.interval * 60 * 1000 < 2 * params.period)
    (hnodes : (sim.stations.map Station.node).Nodup) (hst : sim.stations[i]? = some st)
    (hrun : updates cfg params sim n = .ok last) {k : ℕ} (hk : k < n) (hpredicted : PredictedAt cfg params sim i k)
    (hpredicted' : PredictedAt cfg params sim i (k + 1)) {t : ℤ} (hfrom : handoverTime params k + params.period ≤ t)
    (hto : t < handoverTime params (k + 1) + params.period)
    (hnext : t < handoverTime params (k + 1 + 1) - params.period) :
    InWindow cfg params sim i n t ∧ pausedAt cfg params sim st.node n t = true := by
  have hsucc := handoverTime_succ params k
  refine ⟨⟨k + 1, hk, hpredicted', by omega, hto⟩, ?_⟩
  obtain ⟨place, place', hplaces, hcalls⟩ := calls_executed hnodes hst hrun
  have hpause := (hcalls t _).mpr ⟨hfrom, k, hk.le, hpredicted, Or.inr rfl⟩
  by_contra hactive
  obtain ⟨event, hlast, hsets⟩ := (pausedAt_eq_false_iff _ _ _ _ n _).mp (Bool.not_eq_true _ ▸ hactive)
  have hbefore := before_getLast _ _ _ _ hlast hpause
  obtain ⟨hts, j, hj, -, rfl | rfl⟩ := (hcalls _ event).mp (List.mem_of_getLast? hlast)
  · simp only [SimEvent.before, decide_eq_true_eq] at hbefore hts
    have hle : handoverTime params j ≤ handoverTime params (k + 1) := by
      refine handoverTime_le hinterval (Nat.lt_succ_iff.mp ?_)
      by_contra hge
      have hlater : handoverTime params (k + 1 + 1) ≤ handoverTime params j := handoverTime_le hinterval (not_lt.mp hge)
      omega
    omega
  · simp [setsPause] at hsets

theorem activePeriods_right_iff (hinterval : 0 < params.interval) (hnonneg : 0 ≤ params.period)
    (hperiod : params.period < params.interval * 60 * 1000) (hnodes : (sim.stations.map Station.node).Nodup)
    (hst : sim.stations[i]? = some st) (hrun : updates cfg params sim n = .ok last) :
    (∀ t < handoverTime params n, pausedAt cfg params sim st.node n t = false ↔ InWindow cfg params sim i n t) ↔
      (2 * params.period ≤ params.interval * 60 * 1000 ∨
        ∀ k < n, ¬ (PredictedAt cfg params sim i k ∧ PredictedAt cfg params sim i (k + 1))) := by
  constructor
  · intro hright
    refine or_iff_not_imp_left.mpr fun hoverlap k hk => ?_
    rintro ⟨hpredicted, hpredicted'⟩
    have hsucc := handoverTime_succ params k
    have hsucc' := handoverTime_succ params (k + 1)
    obtain ⟨hwindow, hpaused⟩ := paused_between hinterval (not_le.mp hoverlap) hnodes hst hrun hk hpredicted hpredicted'
      le_rfl (by omega) (by omega)
    have hnext := handoverTime_lt hinterval hk
    have hactive := (hright _ (by omega)).mpr hwindow
    rw [hactive] at hpaused
    cases hpaused
  · intro hcondition t _
    refine ⟨inWindow_of_active hnonneg hnodes hst hrun, fun hwindow => ?_⟩
    by_contra hpaused
    obtain ⟨hoverlap, k, hk, hpredicted⟩ :=
      predicted_of_paused hinterval hperiod hnodes hst hrun hwindow (Bool.not_eq_false _ ▸ hpaused)
    rcases hcondition with hfits | hapart
    · omega
    · exact hapart k hk hpredicted

end Periods

section Overlap

def overlapTerminal : Station :=
  { lateTerminal with
    role := .consumer
    attachments := [(0, "sat-0-0"), (1, "sat-0-1"), (2, "sat-0-0"), (3, "sat-0-1")] }

def overlapSim : Sim := ⟨lateWorld, [overlapTerminal], [], []⟩

theorem overlapSim_runs : ∃ last, updates lateConfig ⟨1, 0, 40000⟩ overlapSim 1 = .ok last := ⟨_, rfl⟩

theorem overlapSim_predicted : PredictedAt lateConfig ⟨1, 0, 40000⟩ overlapSim 0 0 ∧
    PredictedAt lateConfig ⟨1, 0, 40000⟩ overlapSim 0 1 :=
  ⟨⟨_, _, rfl, _, rfl, by decide⟩, ⟨_, _, rfl, _, rfl, by decide⟩⟩

theorem activePeriods_right_iff_overlap :
    (∀ t < handoverTime ⟨1, 0, 40000⟩ 1, pausedAt lateConfig ⟨1, 0, 40000⟩ overlapSim 2 1 t = false ↔
      InWindow lateConfig ⟨1, 0, 40000⟩ overlapSim 0 1 t) ↔
      ((2 * 40000 : ℤ) ≤ 1 * 60 * 1000 ∨ ∀ k < 1, ¬ (PredictedAt lateConfig ⟨1, 0, 40000⟩ overlapSim 0 k ∧
        PredictedAt lateConfig ⟨1, 0, 40000⟩ overlapSim 0 (k + 1))) := by
  obtain ⟨last, hrun⟩ := overlapSim_runs
  have hst : overlapSim.stations[0]? = some overlapTerminal := rfl
  exact activePeriods_right_iff (by decide) (by decide) (by decide) (by decide) hst hrun

/-- The consumer is paused 10 s before the handover of minute 2. -/
theorem window_cut_short : InWindow lateConfig ⟨1, 0, 40000⟩ overlapSim 0 1 110000 ∧
    pausedAt lateConfig ⟨1, 0, 40000⟩ overlapSim 2 1 110000 = true := by
  obtain ⟨last, hrun⟩ := overlapSim_runs
  obtain ⟨hpredicted, hpredicted'⟩ := overlapSim_predicted
  have hst : overlapSim.stations[0]? = some overlapTerminal := rfl
  exact paused_between (by decide) (by decide) (by decide) hst hrun Nat.zero_lt_one hpredicted hpredicted'
    (by decide) (by decide) (by decide)

end Overlap

end LeoNdn.ActivePeriods
