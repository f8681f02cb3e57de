import LeoNdn.AttachmentTracking

/-!
The names under which the map of satellites is indexed: by the set-up for the
strategy with forwarding hints, and by every call of `Update` after it.
-/

namespace LeoNdn.SatelliteMap

open LeoNdn.Loops LeoNdn.SimulatedNetwork LeoNdn.StationUpdate LeoNdn.AttachmentTracking

/-- What the set-up changes: the satellites, the local prefixes of the global routers
and the region names of the forwarders. -/
structure Setup where
  world : World
  m_localPrefixes : List (NodeId × String)
  regionNames : List (NodeId × String)

def satTopPrefix : String := "/nodes/sats"

def advertise (satName : String) (s : Setup) : Except Fault Setup := do
  let sat := (s.world.satelliteAt satName).1
  let world := (s.world.satelliteAt satName).2
  let satPrefix := satTopPrefix ++ "/" ++ sat.name
  let world := world.setSatellite satName { sat with satPrefix := satPrefix }
  let node ← deref sat.node
  .ok ⟨world, s.m_localPrefixes ++ [(node, satPrefix)], s.regionNames ++ [(node, satPrefix)]⟩

/-- The set-up in `main` for the strategy, without the calculation of routes. -/
def hintSetup (strategy : String) (stations : List Station) (s : Setup) : Except Fault Setup :=
  if strategy = "hint" then
    stations.foldlM (fun s st =>
      if st.role = .consumer then st.attachments.foldlM (fun s att => advertise att.2 s) s else .ok s) s
  else .ok s

section Elsewhere

variable (names : List String) (other : String → Option Satellite)

/-- With other entries in the map under the names that were not read. -/
def worldElsewhere (w : World) : World :=
  { w with satellites := fun name => if name ∈ names then w.satellites name else other name }

def setupElsewhere (s : Setup) : Setup := { s with world := worldElsewhere names other s.world }

def simElsewhere (sim : Sim) : Sim := { sim with world := worldElsewhere names other sim.world }

end Elsewhere

section Conditions

variable (names : List String) (cfg : Config) (params : UpdateParams) (strategy : String) (sim : Sim)

def deltaNames (routes : RouteDelta) : List String := (routes.add ++ routes.remove).flatMap fun link => [link.1, link.2]

/-- What `main` has read: the satellites of nodes.csv under their names, with their nodes,
and files in which these are the satellites. -/
structure FilesRead : Prop where
  nodes : ∀ name ∈ names, ∃ sat node, sim.world.satellites name = some sat ∧ sat.node = some node
  dash : "-" ∉ names
  absent : ∀ name ∉ names, sim.world.satellites name = none
  attachments : ∀ st ∈ sim.stations, ∀ att ∈ st.attachments, att.2 = "-" ∨ att.2 ∈ names
  detached : ∀ st ∈ sim.stations, st.p2pDevice = none
  routes : ∀ item ∈ sim.routes, ∀ e ∈ item.table, e.2 ⊆ names
  producerRoutes : ∀ item ∈ sim.producerRoutes, (∀ e ∈ item.table, deltaNames e.2 ⊆ names) ∧
    deltaNames cfg.pastProducerRoutes.2 ⊆ names

/-- The set-up and every call of `Update` after it leave no entry under a name that was not read,
and would do the same with other entries there: they use none. -/
structure IndexesNames : Prop where
  setup : ∀ other, hintSetup strategy sim.stations (setupElsewhere names other ⟨sim.world, [], []⟩) =
    (hintSetup strategy sim.stations ⟨sim.world, [], []⟩).map (setupElsewhere names other)
  updates : ∀ s, hintSetup strategy sim.stations ⟨sim.world, [], []⟩ = .ok s → ∀ other n,
    updates cfg params (simElsewhere names other { sim with world := s.world }) n =
      (updates cfg params { sim with world := s.world } n).map (Prod.map id (simElsewhere names other))
  absent : ∀ s, hintSetup strategy sim.stations ⟨sim.world, [], []⟩ = .ok s →
    (∀ name ∉ names, s.world.satellites name = none) ∧ ∀ n params' sim',
      StationUpdate.updates cfg params { sim with world := s.world } n = .ok (params', sim') →
        ∀ name ∉ names, sim'.world.satellites name = none

def ConsumersCovered : Prop :=
  ∀ st ∈ sim.stations, st.role = .consumer → ∀ att ∈ st.attachments, att.2 ≠ "-"

end Conditions

section Indexing

variable {names : List String} (other : String → Option Satellite) {name : String}

theorem satelliteAt_elsewhere (hname : name ∈ names) (w : World) : (worldElsewhere names other w).satelliteAt name =
    ((w.satelliteAt name).1, worldElsewhere names other (w.satelliteAt name).2) := by
  have hlookup : (worldElsewhere names other w).satellites name = w.satellites name := if_pos hname
  unfold World.satelliteAt
  rw [hlookup]
  cases w.satellites name with
  | some sat => rfl
  | none =>
    refine congrArg (Prod.mk _) (congrArg (fun satellites => { w with satellites := satellites }) ?_)
    funext name'
    by_cases hsame : name' = name
    · subst hsame
      simp [hname]
    · simp [Function.update_of_ne hsame, worldElsewhere]

theorem setSatellite_elsewhere (hname : name ∈ names) (sat : Satellite) (w : World) :
    (worldElsewhere names other w).setSatellite name sat = worldElsewhere names other (w.setSatellite name sat) := by
  refine congrArg (fun satellites => { w with satellites := satellites }) ?_
  funext name'
  by_cases hsame : name' = name
  · subst hsame
    simp [hname, World.setSatellite]
  · simp [Function.update_of_ne hsame, worldElsewhere, World.setSatellite]

theorem changeRoutes_elsewhere {op : Network → NodeId → String → FaceId → Network} {prefixes : List String}
    {links : List (String × String)} (hlinks : ∀ link ∈ links, link.1 ∈ names ∧ link.2 ∈ names) (w : World) :
    changeRoutes op prefixes links (worldElsewhere names other w) =
      (changeRoutes op prefixes links w).map (worldElsewhere names other) := by
  refine foldlM_commutes (fun link hlink w => ?_) w
  obtain ⟨hfirst, hsecond⟩ := hlinks link hlink
  rw [satelliteAt_elsewhere other hfirst]
  dsimp only
  rw [satelliteAt_elsewhere other hsecond]
  dsimp only
  refine foldlM_commutes (fun namePrefix _ w' => ?_) _
  cases deref (w.satelliteAt link.1).1.node with
  | error e => rfl
  | ok node1 =>
    cases deref ((w.satelliteAt link.1).2.satelliteAt link.2).1.node with
    | error e => rfl
    | ok node2 =>
      have hnet : (worldElsewhere names other w').net = w'.net := rfl
      simp only [bind, Except.bind, hnet]
      cases w'.net.faceTowards node1 node2 <;> rfl

theorem mem_of_routeLinks {links : List String} (hlinks : links ⊆ names) :
    ∀ link ∈ routeLinks links, link.1 ∈ names ∧ link.2 ∈ names := by
  intro link hlink
  obtain ⟨hfirst, hsecond⟩ := List.of_mem_zip hlink
  exact ⟨hlinks hfirst, hlinks (List.mem_of_mem_tail hsecond)⟩

theorem ApplyRoutes_elsewhere {prefixes links : List String} (hlinks : links ⊆ names) (w : World) :
    ApplyRoutes prefixes links (worldElsewhere names other w) =
      (ApplyRoutes prefixes links w).map (worldElsewhere names other) := by
  unfold ApplyRoutes
  split_ifs
  · exact changeRoutes_elsewhere other (mem_of_routeLinks hlinks) w
  · rfl

theorem RemoveRoutes_elsewhere {prefixes links : List String} (hlinks : links ⊆ names) (w : World) :
    RemoveRoutes prefixes links (worldElsewhere names other w) =
      (RemoveRoutes prefixes links w).map (worldElsewhere names other) := by
  unfold RemoveRoutes
  split_ifs
  · exact changeRoutes_elsewhere other (mem_of_routeLinks hlinks) w
  · rfl

theorem UpdateRoutes_elsewhere {prefixes : List String} {routes : RouteDelta} (hnames : deltaNames routes ⊆ names)
    (w : World) : UpdateRoutes prefixes routes (worldElsewhere names other w) =
      (UpdateRoutes prefixes routes w).map (worldElsewhere names other) := by
  have hlinks : ∀ link ∈ routes.add ++ routes.remove, link.1 ∈ names ∧ link.2 ∈ names := by
    intro link hlink
    exact ⟨hnames (List.mem_flatMap.mpr ⟨link, hlink, by simp⟩), hnames (List.mem_flatMap.mpr ⟨link, hlink, by simp⟩)⟩
  unfold UpdateRoutes
  rw [changeRoutes_elsewhere other (fun link hlink => hlinks link (List.mem_append_left _ hlink))]
  exact bind_commutes fun w' _ =>
    changeRoutes_elsewhere other (fun link hlink => hlinks link (List.mem_append_right _ hlink)) w'

end Indexing

section Tables

variable {names : List String} (other : String → Option Satellite) {cfg : Config} {curTime : ℤ} {prefixes : List String}

theorem advanceRoutes_elsewhere {e0 e1 : ℤ × List String} {rest : List (ℤ × List String)}
    (hnames : ∀ e ∈ e0 :: e1 :: rest, e.2 ⊆ names) (w : World) :
    advanceRoutes cfg curTime prefixes e0 e1 rest (worldElsewhere names other w) =
      (advanceRoutes cfg curTime prefixes e0 e1 rest w).map (Prod.map id (worldElsewhere names other)) := by
  unfold advanceRoutes
  generalize Timeline.seek curTime (fun _ => cfg.pastRoutes.1) rest 1 e1.1 = found
  obtain ⟨curIdx, nextTime⟩ := found
  dsimp only
  split_ifs with hpast hupdate hgap
  · rfl
  · have hentry : ((e0 :: e1 :: rest).getD (curIdx - 1) cfg.pastRoutes).2 ⊆ names := by
      rw [List.getD_eq_getElem _ _ (by omega)]
      exact hnames _ (List.getElem_mem _)
    rw [RemoveRoutes_elsewhere other (hnames e0 List.mem_cons_self)]
    refine bind_commutes fun w' _ => ?_
    rw [ApplyRoutes_elsewhere other hentry]
    exact bind_commutes fun w'' _ => rfl
  · have hentry : ((e0 :: e1 :: rest).getD curIdx cfg.pastRoutes).2 ⊆ names := by
      rw [List.getD_eq_getElem _ _ (by omega)]
      exact hnames _ (List.getElem_mem _)
    rw [RemoveRoutes_elsewhere other (hnames e0 List.mem_cons_self)]
    refine bind_commutes fun w' _ => ?_
    rw [ApplyRoutes_elsewhere other hentry]
    exact bind_commutes fun w'' _ => rfl
  · rfl

theorem updatePairRoutes_elsewhere {table : List (ℤ × List String)} (hnames : ∀ e ∈ table, e.2 ⊆ names) (w : World) :
    updatePairRoutes cfg curTime prefixes table (worldElsewhere names other w) =
      (updatePairRoutes cfg curTime prefixes table w).map (Prod.map id (worldElsewhere names other)) := by
  unfold updatePairRoutes
  split
  · rfl
  · rename_i e0 rest
    split_ifs with hfirst hearly
    · rw [ApplyRoutes_elsewhere other (hnames e0 List.mem_cons_self)]
      exact bind_commutes fun w' _ => rfl
    · split <;> rfl
    · split
      · rfl
      · rw [advanceRoutes_elsewhere other hnames]
        exact bind_commutes fun result _ => rfl

theorem updateProducerRoutes_elsewhere {table : List (ℤ × RouteDelta)} (hnames : ∀ e ∈ table, deltaNames e.2 ⊆ names)
    (hpast : deltaNames cfg.pastProducerRoutes.2 ⊆ names) (w : World) :
    updateProducerRoutes cfg curTime prefixes table (worldElsewhere names other w) =
      (updateProducerRoutes cfg curTime prefixes table w).map (Prod.map id (worldElsewhere names other)) := by
  have hentry : ∀ i, deltaNames (table.getD i cfg.pastProducerRoutes).2 ⊆ names := by
    intro i
    rcases Nat.lt_or_ge i table.length with hlt | hge
    · rw [List.getD_eq_getElem _ _ hlt]
      exact hnames _ (List.getElem_mem hlt)
    · rwa [List.getD_eq_default _ _ hge]
  unfold updateProducerRoutes
  split
  · rfl
  · rename_i e0 rest
    generalize Timeline.seek curTime (fun _ => cfg.pastProducerRoutes.1) rest 0 e0.1 = found
    obtain ⟨nextIdx, nextTime⟩ := found
    dsimp only
    split_ifs with hupdate hearly
    · rw [UpdateRoutes_elsewhere other (hentry _)]
      exact bind_commutes fun w' _ => rfl
    · rw [UpdateRoutes_elsewhere other (hentry _)]
      exact bind_commutes fun w' _ => rfl
    · rfl
    · rfl

end Tables

section Stations

variable {names : List String} (other : String → Option Satellite) {cfg : Config} {params : UpdateParams} {curTime : ℤ}
  {st st' : Station} {w w' : World}

def Named (names : List String) (st : Station) : Prop := ∀ att ∈ st.attachments, att.2 = "-" ∨ att.2 ∈ names

def Linked (cfg : Config) (st : Station) : Prop :=
  st.isHost = true → st.p2pDevice.isSome = true → st.curAttachmentIdx < st.attachments.length →
    (st.attachments.getD st.curAttachmentIdx cfg.pastAttachments).2 ≠ "-"

/-- So is the cursor that a handover leaves, which is that of the link. -/
structure Tracked (cfg : Config) (st : Station) : Prop where
  last : st.isHost = true → st.p2pDevice.isSome = true → st.handover = true →
    st.lastAttachmentIdx < st.attachments.length ∧
      (st.attachments.getD st.lastAttachmentIdx cfg.pastAttachments).2 ≠ "-"
  cur : st.handover = false → Linked cfg st

theorem Named.mem (h : Named names st) {i : ℕ} (hi : i < st.attachments.length)
    (hne : (st.attachments.getD i cfg.pastAttachments).2 ≠ "-") :
    (st.attachments.getD i cfg.pastAttachments).2 ∈ names := by
  rw [List.getD_eq_getElem _ _ hi] at hne ⊢
  exact (h _ (List.getElem_mem hi)).resolve_left hne

theorem predictAttachment_cursor (cfg : Config) (curTime : ℤ) (st : Station) :
    ((predictAttachment cfg curTime st).handover = true →
      (predictAttachment cfg curTime st).lastAttachmentIdx = st.curAttachmentIdx ∧
        st.curAttachmentIdx < st.attachments.length) ∧
    ((predictAttachment cfg curTime st).handover = false →
      (predictAttachment cfg curTime st).curAttachmentIdx = st.curAttachmentIdx ∨
        st.attachments.length ≤ (predictAttachment cfg curTime st).curAttachmentIdx) := by
  by_cases hskip : curTime ≤ (st.attachments.getD st.curAttachmentIdx cfg.pastAttachments).1 ∨
      st.attachments.length ≤ st.curAttachmentIdx
  · have hpredict : predictAttachment cfg curTime st = { st with handover := false } := if_pos hskip
    rw [hpredict]
    exact ⟨fun h => (nomatch h), fun _ => Or.inl rfl⟩
  · have hcur : st.curAttachmentIdx < st.attachments.length := by omega
    have hseek := Timeline.seek_spec curTime id st.attachments st.curAttachmentIdx hcur
    unfold predictAttachment
    simp only [if_neg hskip]
    rw [List.getD_eq_getElem _ _ hcur]
    rcases hseek with ⟨j, hj, hle, hseek, hstop, -⟩ | ⟨hseek, hbefore⟩
    · rw [hseek]
      dsimp only
      split_ifs with hgap hsame hhit
      · exact ⟨fun _ => ⟨rfl, hcur⟩, fun h => (nomatch h)⟩
      · exact ⟨fun h => (nomatch h), fun _ => Or.inl (not_not.mp hsame)⟩
      · exact ⟨fun _ => ⟨rfl, hcur⟩, fun h => (nomatch h)⟩
      · omega
    · have hlast := hbefore (st.attachments.length - 1) (by omega) (by omega)
      rw [hseek]
      dsimp only [id]
      rw [if_neg hlast.not_gt, if_neg hlast.ne']
      exact ⟨fun h => (nomatch h), fun _ => Or.inr le_rfl⟩

theorem updateAttachment_tracked (h : Linked cfg st) (hrun : updateAttachment cfg params st w = .ok (st', w')) :
    st'.attachments = st.attachments ∧ Tracked cfg st' := by
  unfold updateAttachment at hrun
  split_ifs at hrun with hhost
  · cases hrun
    exact ⟨rfl, fun hhost' => absurd hhost' (by rw [hhost]; decide), fun _ => h⟩
  · cases hrun
    obtain ⟨hhandover, hsame⟩ := predictAttachment_cursor cfg (params.curTime + params.interval) st
    obtain ⟨cur, last, handover, heq⟩ := predictAttachment_attachments cfg (params.curTime + params.interval) st
    rw [heq] at hhandover hsame ⊢
    refine ⟨rfl, fun hhost' hdevice hpredicted => ?_, fun hnone hhost' hdevice hcur => ?_⟩
    · obtain ⟨rfl, hcur⟩ := hhandover hpredicted
      exact ⟨hcur, h hhost' hdevice hcur⟩
    · rcases hsame hnone with rfl | hpast
      · exact h hhost' hdevice hcur
      · exact absurd hcur (not_lt.mpr hpast)

theorem announceHandover_elsewhere (hnamed : Named names st) (hlast : st.handover = true →
    st.lastAttachmentIdx < st.attachments.length) (w : World) :
    announceHandover cfg params st (worldElsewhere names other w) =
      worldElsewhere names other (announceHandover cfg params st w) := by
  unfold announceHandover
  dsimp only
  split_ifs with hhandover hconsumer hproducer
  · have hname := hnamed.mem (hlast hhandover.1) hhandover.2.2
    have hperform : ∀ actions, (worldElsewhere names other w).perform actions =
        worldElsewhere names other (w.perform actions) := fun actions => rfl
    rw [hperform, satelliteAt_elsewhere other hname]
    rfl
  · rfl
  · rfl
  · rfl

theorem updateAttachment_elsewhere (hnamed : Named names st) (w : World) :
    updateAttachment cfg params st (worldElsewhere names other w) =
      (updateAttachment cfg params st w).map (Prod.map id (worldElsewhere names other)) := by
  unfold updateAttachment
  split_ifs with hhost
  · rfl
  · have hcursor := (predictAttachment_cursor cfg (params.curTime + params.interval) st).1
    obtain ⟨cur, last, handover, heq⟩ := predictAttachment_attachments cfg (params.curTime + params.interval) st
    dsimp only
    rw [heq] at hcursor ⊢
    have hnamed' : Named names { st with
      curAttachmentIdx := cur, lastAttachmentIdx := last, handover := handover } := hnamed
    rw [announceHandover_elsewhere other hnamed' (fun h => (hcursor h).1 ▸ (hcursor h).2)]
    rfl

theorem detachLast_elsewhere (hnamed : Named names st) (hlast : st.p2pDevice.isSome = true → st.handover = true →
    st.lastAttachmentIdx < st.attachments.length ∧
      (st.attachments.getD st.lastAttachmentIdx cfg.pastAttachments).2 ≠ "-") (w : World) :
    detachLast cfg st (worldElsewhere names other w) =
      (detachLast cfg st w).map (Prod.map id (Prod.map id (worldElsewhere names other))) := by
  unfold detachLast
  split_ifs with hhandover
  · split
    · rfl
    · rename_i d hdevice
      obtain ⟨hidx, hne⟩ := hlast (by rw [hdevice]; rfl) hhandover
      have hname := hnamed.mem hidx hne
      have hnet : (worldElsewhere names other w).net = w.net := rfl
      have hnet' : (worldElsewhere names other (w.satelliteAt
        (st.attachments.getD st.lastAttachmentIdx cfg.pastAttachments).2).2).net = (w.satelliteAt
          (st.attachments.getD st.lastAttachmentIdx cfg.pastAttachments).2).2.net := rfl
      rw [hnet]
      cases assertNonNull (w.net.getFaceByNetDevice st.node (some d)) with
      | error e => rfl
      | ok oldStFace =>
        dsimp only [bind, Except.bind]
        rw [satelliteAt_elsewhere other hname]
        dsimp only
        rw [hnet']
        cases DetachPrefix st _ _ with
        | error e => rfl
        | ok net =>
          dsimp only [Except.map, Prod.map, id]
          rw [← setSatellite_elsewhere other hname]
          rfl
  · rfl

theorem attach_elsewhere {satName : String} (hname : satName ∈ names) (oldId : Option UserLinkId) (w : World) :
    attach cfg satName oldId st (worldElsewhere names other w) =
      (attach cfg satName oldId st w).map (Prod.map id (worldElsewhere names other)) := by
  have hnet : (worldElsewhere names other (w.satelliteAt satName).2).net = (w.satelliteAt satName).2.net := rfl
  unfold attach
  rw [satelliteAt_elsewhere other hname]
  dsimp only
  rw [hnet]
  cases deref (w.satelliteAt satName).1.node with
  | error e => rfl
  | ok satN =>
    dsimp only [bind, Except.bind]
    cases connect st.node satN (w.satelliteAt satName).2.net with
    | error e => rfl
    | ok result =>
      obtain ⟨devices, net⟩ := result
      dsimp only
      cases AttachPrefix satN _ _ net with
      | error e => rfl
      | ok net' =>
        have hperform : ∀ (w : World) (actions : List Action), worldElsewhere names other (w.perform actions) =
            (worldElsewhere names other w).perform actions := fun _ _ => rfl
        dsimp only [Except.map, Prod.map, id]
        rw [hperform, ← setSatellite_elsewhere other hname]
        rfl

theorem moveUserLink_elsewhere (hnamed : Named names st) (htracked : Tracked cfg st) (w : World) :
    moveUserLink cfg curTime st (worldElsewhere names other w) =
      (moveUserLink cfg curTime st w).map (Prod.map id (worldElsewhere names other)) := by
  unfold moveUserLink
  split_ifs with hskip
  · rfl
  · obtain ⟨hhost, hcur⟩ := not_or.mp hskip
    rw [detachLast_elsewhere other hnamed (htracked.last (Bool.not_eq_false _ ▸ hhost))]
    refine bind_commutes fun result hdetach => ?_
    obtain ⟨oldId, st₁, w₁⟩ := result
    obtain ⟨-, hsame, -, -⟩ := detachLast_spec hdetach
    dsimp only [Prod.map, id]
    rw [hsame]
    dsimp only
    split_ifs with hnone hstays
    · rfl
    · rfl
    · exact attach_elsewhere other (hnamed.mem (not_le.mp hcur) hnone) oldId w₁

theorem moveUserLink_linked (htracked : Tracked cfg st) (hrun : moveUserLink cfg curTime st w = .ok (st', w')) :
    st'.attachments = st.attachments ∧ Linked cfg st' := by
  unfold moveUserLink at hrun
  split_ifs at hrun with hskip
  · cases hrun
    refine ⟨rfl, fun hhost hdevice hcur => ?_⟩
    rcases hskip with hhost' | hpast
    · rw [hhost] at hhost'
      cases hhost'
    · exact absurd hcur (not_lt.mpr hpast)
  · obtain ⟨⟨oldId, st₁, w₁⟩, hdetach, hrun⟩ := ok_of_bind hrun
    obtain ⟨-, hsame, hdetached, hkept⟩ := detachLast_spec hdetach
    have hlinked : Linked cfg st₁ := by
      cases hhandover : st.handover with
      | true =>
        intro _ hdevice
        rw [hdetached hhandover] at hdevice
        cases hdevice
      | false =>
        rw [hkept hhandover]
        exact htracked.cur hhandover
    have hattachments : st₁.attachments = st.attachments := by rw [hsame]
    dsimp only at hrun
    split_ifs at hrun with hnone hstays
    · cases hrun
      exact ⟨hattachments, hlinked⟩
    · cases hrun
      exact ⟨hattachments, hlinked⟩
    · rw [(attach_spec hrun hnone).2.2]
      exact ⟨hattachments, fun _ _ _ => hnone⟩

end Stations

section Runs

variable {names : List String} {cfg : Config} {params params' : UpdateParams} {sim sim' : Sim} {w w' : World}
  {curTime : ℤ} {prefixes : List String}

theorem advanceRoutes_subset {e0 e1 : ℤ × List String} {rest table : List (ℤ × List String)}
    (h : advanceRoutes cfg curTime prefixes e0 e1 rest w = .ok (table, w')) : table ⊆ e0 :: e1 :: rest := by
  simp only [advanceRoutes] at h
  split at h
  · cases h
    exact List.nil_subset _
  · split at h
    · obtain ⟨w₁, -, h⟩ := ok_of_bind h
      obtain ⟨w₂, -, h⟩ := ok_of_bind h
      cases h
      exact List.drop_subset _ _
    · cases h
      exact List.Subset.refl _

theorem updatePairRoutes_subset {table table' : List (ℤ × List String)}
    (h : updatePairRoutes cfg curTime prefixes table w = .ok (table', w')) :
    table'.map Prod.snd ⊆ table.map Prod.snd := by
  unfold updatePairRoutes at h
  split at h
  · cases h
    exact List.Subset.refl _
  · split at h
    · obtain ⟨w₁, -, h⟩ := ok_of_bind h
      cases h
      split_ifs
      · exact List.nil_subset _
      · exact List.Subset.refl _
    · split at h
      · cases h
        exact List.nil_subset _
      · split at h
        · cases h
          exact List.Subset.refl _
        · obtain ⟨⟨table₁, w₁⟩, hadvance, h⟩ := ok_of_bind h
          cases h
          split_ifs
          · exact List.nil_subset _
          · exact List.map_subset _ (advanceRoutes_subset hadvance)

theorem updateProducerRoutes_subset {table table' : List (ℤ × RouteDelta)}
    (h : updateProducerRoutes cfg curTime prefixes table w = .ok (table', w')) : table' ⊆ table := by
  unfold updateProducerRoutes at h
  split at h
  · cases h
    exact List.Subset.refl _
  · dsimp only at h
    split at h
    · obtain ⟨w₁, -, h⟩ := ok_of_bind h
      cases h
      exact List.drop_subset _ _
    · split at h
      · cases h
        exact List.Subset.refl _
      · cases h
        exact List.nil_subset _

/-- The invariant of the ticks: what the tables name has been read, and so have the satellites of the cursors. -/
structure SimNamed (names : List String) (cfg : Config) (sim : Sim) : Prop where
  stations : ∀ st ∈ sim.stations, Named names st ∧ Tracked cfg st
  routes : ∀ item ∈ sim.routes, ∀ e ∈ item.table, e.2 ⊆ names
  producerRoutes : ∀ item ∈ sim.producerRoutes, (∀ e ∈ item.table, deltaNames e.2 ⊆ names) ∧
    deltaNames cfg.pastProducerRoutes.2 ⊆ names

theorem moved_named (h : ∀ st ∈ sim.stations, Named names st ∧ Tracked cfg st) {stations : List Station}
    (hmove : forEach (moveUserLink cfg curTime) sim.stations w = .ok (stations, w')) :
    ∀ st ∈ stations, Named names st ∧ Linked cfg st := by
  intro st hst
  obtain ⟨before, hmem, t, t', hpass⟩ := forEach_mem hmove hst
  obtain ⟨hnamed, htracked⟩ := h before hmem
  obtain ⟨hattachments, hlinked⟩ := moveUserLink_linked htracked hpass
  refine ⟨?_, hlinked⟩
  unfold Named
  rwa [hattachments]

theorem SimNamed.update (h : SimNamed names cfg sim) (hrun : Update cfg params sim = .ok (params', sim')) :
    SimNamed names cfg sim' := by
  obtain ⟨stations, w₁, routes, w₂, producerRoutes, w₃, stations', w₄, hmove, hroutes, hproducers, hpredict, rfl, rfl⟩ :=
    Update_ok hrun
  refine ⟨fun st hst => ?_, fun item hitem e he => ?_, fun item hitem => ?_⟩
  · obtain ⟨before, hmem, t, t', hpass⟩ := forEach_mem hpredict hst
    obtain ⟨hnamed, hlinked⟩ := moved_named h.stations hmove before hmem
    obtain ⟨hattachments, htracked⟩ := updateAttachment_tracked hlinked hpass
    refine ⟨?_, htracked⟩
    unfold Named
    rwa [hattachments]
  · obtain ⟨before, hmem, t, t', hpass⟩ := forEach_mem hroutes hitem
    obtain ⟨⟨table, w₀⟩, hpair, heq⟩ := ok_of_bind hpass
    cases heq
    obtain ⟨e', he', heq⟩ := List.mem_map.mp (updatePairRoutes_subset hpair (List.mem_map_of_mem he))
    rw [← heq]
    exact h.routes before hmem e' he'
  · obtain ⟨before, hmem, t, t', hpass⟩ := forEach_mem hproducers hitem
    obtain ⟨⟨table, w₀⟩, hproducer, heq⟩ := ok_of_bind hpass
    cases heq
    obtain ⟨htable, hpast⟩ := h.producerRoutes before hmem
    exact ⟨fun e he => htable e (updateProducerRoutes_subset hproducer he), hpast⟩

theorem Update_elsewhere (h : SimNamed names cfg sim) (params : UpdateParams) (other : String → Option Satellite) :
    Update cfg params (simElsewhere names other sim) =
      (Update cfg params sim).map (Prod.map id (simElsewhere names other)) := by
  unfold Update
  dsimp only [simElsewhere]
  rw [forEach_commutes (φ := worldElsewhere names other) (fun st hst w =>
    moveUserLink_elsewhere other (h.stations st hst).1 (h.stations st hst).2 w)]
  refine bind_commutes fun result hmove => ?_
  obtain ⟨stations, w₁⟩ := result
  dsimp only [Prod.map, id]
  rw [forEach_commutes (φ := worldElsewhere names other) (fun item hitem w => by
    rw [updatePairRoutes_elsewhere other (h.routes item hitem)]
    exact bind_commutes fun _ _ => rfl)]
  refine bind_commutes fun result _ => ?_
  obtain ⟨routes, w₂⟩ := result
  dsimp only [Prod.map, id]
  rw [forEach_commutes (φ := worldElsewhere names other) (fun item hitem w => by
    rw [updateProducerRoutes_elsewhere other (h.producerRoutes item hitem).1 (h.producerRoutes item hitem).2]
    exact bind_commutes fun _ _ => rfl)]
  refine bind_commutes fun result _ => ?_
  obtain ⟨producerRoutes, w₃⟩ := result
  dsimp only [Prod.map, id]
  rw [forEach_commutes (φ := worldElsewhere names other) (fun st hst w =>
    updateAttachment_elsewhere other (moved_named h.stations hmove st hst).1 w)]
  exact bind_commutes fun _ _ => rfl

theorem SimNamed.updates (h : SimNamed names cfg sim) (n : ℕ) (hrun : updates cfg params sim n = .ok (params', sim')) :
    SimNamed names cfg sim' := by
  induction n generalizing params' sim' with
  | zero => exact h.update hrun
  | succ n ih =>
    obtain ⟨⟨params₁, sim₁⟩, hmid, hstep⟩ := ok_of_bind hrun
    exact (ih hmid).update hstep

theorem updates_elsewhere (h : SimNamed names cfg sim) (params : UpdateParams) (other : String → Option Satellite)
    (n : ℕ) : updates cfg params (simElsewhere names other sim) n =
      (updates cfg params sim n).map (Prod.map id (simElsewhere names other)) := by
  induction n with
  | zero => exact Update_elsewhere h params other
  | succ n ih =>
    change (StationUpdate.updates cfg params (simElsewhere names other sim) n >>= _) = _
    rw [ih]
    refine bind_commutes fun result hrun => ?_
    obtain ⟨params₁, sim₁⟩ := result
    exact Update_elsewhere (h.updates n hrun) params₁ other

end Runs

section Setups

variable {names : List String} (other : String → Option Satellite) {stations : List Station}

theorem advertise_elsewhere {satName : String} (hname : satName ∈ names) (s : Setup) :
    advertise satName (setupElsewhere names other s) =
      (advertise satName s).map (setupElsewhere names other) := by
  have hworld : (setupElsewhere names other s).world = worldElsewhere names other s.world := rfl
  unfold advertise
  dsimp only
  rw [hworld, satelliteAt_elsewhere other hname]
  dsimp only
  rw [setSatellite_elsewhere other hname]
  cases deref (s.world.satelliteAt satName).1.node <;> rfl

theorem hintSetup_elsewhere (hcovered : ∀ st ∈ stations, st.role = .consumer → ∀ att ∈ st.attachments, att.2 ∈ names)
    (s : Setup) : hintSetup "hint" stations (setupElsewhere names other s) =
      (hintSetup "hint" stations s).map (setupElsewhere names other) := by
  unfold hintSetup
  rw [if_pos rfl, if_pos rfl]
  refine foldlM_commutes (fun st hst s => ?_) s
  split_ifs with hrole
  · exact foldlM_commutes (fun att hatt s => advertise_elsewhere other (hcovered st hst hrole att hatt) s) s
  · rfl

theorem nodeOf_setSatellite {name : String} {sat : Satellite} {w : World} (hnode : sat.node = nodeOf w name) :
    nodeOf (w.setSatellite name sat) = nodeOf w := (grows_setSatellite name hnode).nodes

theorem advertise_ok_iff (satName : String) (s : Setup) :
    (∃ s', advertise satName s = .ok s') ↔ (nodeOf s.world satName).isSome = true := by
  unfold advertise
  dsimp only
  rw [satelliteAt_node]
  cases nodeOf s.world satName with
  | none => exact ⟨fun ⟨s', h⟩ => (nomatch h), fun h => (nomatch h)⟩
  | some node => exact ⟨fun _ => rfl, fun _ => ⟨_, rfl⟩⟩

theorem advertise_nodes {satName : String} {s s' : Setup} (h : advertise satName s = .ok s') :
    nodeOf s'.world = nodeOf s.world := by
  obtain ⟨node, -, h⟩ := ok_of_bind h
  cases h
  rw [nodeOf_setSatellite, nodeOf_satelliteAt]
  rw [nodeOf_satelliteAt]
  exact satelliteAt_node s.world satName

theorem hintSetup_ok_iff (stations : List Station) (s : Setup) : (∃ s', hintSetup "hint" stations s = .ok s') ↔
    ∀ st ∈ stations, st.role = .consumer → ∀ att ∈ st.attachments, (nodeOf s.world att.2).isSome = true := by
  have hatts (l : List (ℤ × String)) (s : Setup) := foldlM_ok_iff (φ := fun s : Setup => nodeOf s.world)
    (P := fun nodes att => (nodes att.2).isSome = true) (fun s (att : ℤ × String) s' h => advertise_nodes h)
    (fun s att => advertise_ok_iff att.2 s) l s
  unfold hintSetup
  rw [if_pos rfl]
  refine (foldlM_ok_iff (φ := fun s : Setup => nodeOf s.world) (P := fun nodes (st : Station) =>
    st.role = .consumer → ∀ att ∈ st.attachments, (nodes att.2).isSome = true) ?_ ?_ stations s).1
  · intro s st s' h
    split_ifs at h
    · exact (hatts st.attachments s).2 s' h
    · cases h
      rfl
  · intro s st
    split_ifs with hrole
    · rw [(hatts st.attachments s).1]
      exact ⟨fun h _ => h, fun h => h hrole⟩
    · exact ⟨fun _ h => absurd h hrole, fun _ => ⟨s, rfl⟩⟩

theorem absent_of_elsewhere {w : World} (h : w = worldElsewhere names (fun _ => none) w) :
    ∀ name ∉ names, w.satellites name = none := by
  intro name hname
  rw [h]
  exact if_neg hname

theorem elsewhere_of_absent {w : World} (h : ∀ name ∉ names, w.satellites name = none) :
    worldElsewhere names (fun _ => none) w = w := by
  refine congrArg (fun satellites => { w with satellites := satellites }) ?_
  funext name
  split_ifs with hname
  · rfl
  · exact (h name hname).symm

variable {cfg : Config} {params : UpdateParams} {sim : Sim} {strategy : String}

/-- A set-up that does the same with other entries elsewhere leaves none there, nor do the calls after it. -/
theorem FilesRead.indexesNames (h : FilesRead names cfg sim)
    (hsetup : ∀ other, hintSetup strategy sim.stations (setupElsewhere names other ⟨sim.world, [], []⟩) =
      (hintSetup strategy sim.stations ⟨sim.world, [], []⟩).map (setupElsewhere names other)) :
    IndexesNames names cfg params strategy sim := by
  have hnamed : ∀ s : Setup, SimNamed names cfg { sim with world := s.world } := by
    refine fun s => ⟨fun st hst => ⟨h.attachments st hst, fun _ hdevice => ?_, fun _ _ hdevice => ?_⟩, h.routes,
      h.producerRoutes⟩
    · rw [h.detached st hst] at hdevice
      cases hdevice
    · rw [h.detached st hst] at hdevice
      cases hdevice
  refine ⟨hsetup, fun s _ other n => updates_elsewhere (hnamed s) params other n, fun s hs => ?_⟩
  have habsent : s.world = worldElsewhere names (fun _ => none) s.world := by
    have hsame := hsetup fun _ => none
    rw [setupElsewhere, elsewhere_of_absent h.absent, hs] at hsame
    exact congrArg Setup.world (Except.ok.inj hsame)
  refine ⟨absent_of_elsewhere habsent, fun n params' sim' hrun => absent_of_elsewhere ?_⟩
  have hsame := updates_elsewhere (hnamed s) params (fun _ => none) n
  rw [simElsewhere, ← habsent, hrun] at hsame
  exact congrArg (fun result => result.2.world) (Except.ok.inj hsame)

theorem indexesNames_iff (h : FilesRead names cfg sim) :
    IndexesNames names cfg params strategy sim ↔ strategy ≠ "hint" ∨ ConsumersCovered sim := by
  constructor
  · intro hindexes
    refine or_iff_not_imp_left.mpr fun hstrategy st hst hrole att hatt hdash => ?_
    obtain rfl := not_not.mp hstrategy
    -- with a satellite under every name, the set-up would run to its end
    obtain ⟨s, hs⟩ := (hintSetup_ok_iff sim.stations (setupElsewhere names
        (fun _ => some ⟨"", some 0, "", none⟩) ⟨sim.world, [], []⟩)).mpr (fun st _ _ att _ => by
      by_cases hname : att.2 ∈ names
      · obtain ⟨sat, node, hsat, hnode⟩ := h.nodes att.2 hname
        simp [setupElsewhere, worldElsewhere, nodeOf, hname, hsat, hnode]
      · simp [setupElsewhere, worldElsewhere, nodeOf, hname])
    rw [hindexes.setup] at hs
    cases hrun : hintSetup "hint" sim.stations ⟨sim.world, [], []⟩ with
    | error e =>
      rw [hrun] at hs
      cases hs
    | ok s' =>
      have hnode := (hintSetup_ok_iff sim.stations ⟨sim.world, [], []⟩).mp ⟨s', hrun⟩ st hst hrole att hatt
      rw [hdash, nodeOf, h.absent "-" h.dash] at hnode
      cases hnode
  · intro hcondition
    refine h.indexesNames fun other => ?_
    by_cases hstrategy : strategy = "hint"
    · subst hstrategy
      have hcovered := hcondition.resolve_left (not_not.mpr rfl)
      exact hintSetup_elsewhere other (fun st hst hrole att hatt =>
        (h.attachments st hst att hatt).resolve_left (hcovered st hst hrole att hatt)) _
    · unfold hintSetup
      rw [if_neg hstrategy, if_neg hstrategy]
      rfl

end Setups

section Gap

def gapSim : Sim where
  world := lateWorld
  stations := [{ lateTerminal with role := .consumer, attachments := [(0, "sat-0-0"), (1, "-"), (2, "sat-0-1")] }]
  routes := []
  producerRoutes := []

theorem gapSim_filesRead : FilesRead ["sat-0-0", "sat-0-1"] lateConfig gapSim where
  nodes := by
    intro name hname
    rcases List.mem_pair.mp hname with rfl | rfl
    · exact ⟨_, 0, rfl, rfl⟩
    · exact ⟨_, 1, rfl, rfl⟩
  dash := by decide
  absent := by
    intro name hname
    obtain ⟨hfirst, hsecond⟩ := not_or.mp (List.mem_pair.not.mp hname)
    exact (if_neg hfirst).trans (if_neg hsecond)
  attachments := by decide
  detached := by decide
  routes := by decide
  producerRoutes := by decide

theorem indexesNames_iff_gap : IndexesNames ["sat-0-0", "sat-0-1"] lateConfig ⟨1, 0, 40⟩ "hint" gapSim ↔
    "hint" ≠ "hint" ∨ ConsumersCovered gapSim :=
  indexesNames_iff gapSim_filesRead

/-- The set-up reads the node of the satellite that it has created under "-". -/
theorem gap_indexed : FilesRead ["sat-0-0", "sat-0-1"] lateConfig gapSim ∧
    hintSetup "hint" gapSim.stations ⟨gapSim.world, [], []⟩ = .error .nullPointer ∧
    ¬ IndexesNames ["sat-0-0", "sat-0-1"] lateConfig ⟨1, 0, 40⟩ "hint" gapSim := by
  refine ⟨gapSim_filesRead, rfl, fun hindexes => ?_⟩
  exact nomatch hindexes.setup fun _ => some ⟨"", some 0, "", none⟩

end Gap

end LeoNdn.SatelliteMap
