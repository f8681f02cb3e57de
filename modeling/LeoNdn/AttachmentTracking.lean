import LeoNdn.StationUpdate
import Mathlib.Data.List.GetD
import Mathlib.Tactic.Positivity

/-!
A station's cursor over its timeline and the user link it leads to, followed
from one tick to the next through all the loops of `Update`.
-/

namespace LeoNdn.AttachmentTracking

open LeoNdn.Loops LeoNdn.SimulatedNetwork LeoNdn.StationUpdate

def Fresh (net : Network) : Prop :=
  ∀ c ∈ net.channels, c.1.address < net.nextAddress ∧ c.2.address < net.nextAddress

def nodeOf (w : World) (name : String) : Option NodeId := (w.satellites name).bind Satellite.node

structure Grows (w w' : World) : Prop where
  peers : ∀ d e, w.net.peer d = some e → w'.net.peer d = some e
  nodes : nodeOf w' = nodeOf w
  fresh : Fresh w.net → Fresh w'.net

theorem Grows.refl (w : World) : Grows w w :=
  ⟨fun _ _ h => h, rfl, id⟩

theorem Grows.trans {w w' w'' : World} (h : Grows w w') (h' : Grows w' w'') : Grows w w'' where
  peers d e hd := h'.peers d e (h.peers d e hd)
  nodes := h'.nodes.trans h.nodes
  fresh hf := h'.fresh (h.fresh hf)

theorem Grows.of_channels {w w' : World} {l : List (NetDevice × NetDevice)}
    (hc : w'.net.channels = w.net.channels ++ l) (hnext : w.net.nextAddress ≤ w'.net.nextAddress)
    (hl : ∀ c ∈ l, c.1.address < w'.net.nextAddress ∧ c.2.address < w'.net.nextAddress)
    (hs : nodeOf w' = nodeOf w) : Grows w w' where
  peers d e hd := by
    unfold Network.peer at hd ⊢
    rw [hc, List.findSome?_append, hd]
    rfl
  nodes := hs
  fresh hf c hc' := by
    rw [hc, List.mem_append] at hc'
    rcases hc' with hc' | hc'
    · have := hf c hc'
      omega
    · exact hl c hc'

theorem grows_net {w : World} {net : Network} (hc : net.channels = w.net.channels)
    (hn : net.nextAddress = w.net.nextAddress) : Grows w { w with net := net } :=
  Grows.of_channels (l := []) (by simp [hc]) hn.ge (by simp) rfl

theorem nodeOf_satelliteAt (w : World) (name : String) : nodeOf (w.satelliteAt name).2 = nodeOf w := by
  unfold World.satelliteAt
  split
  · rfl
  · rename_i hnone
    funext name'
    by_cases hname : name' = name
    · subst hname
      simp [nodeOf, hnone]
    · simp [nodeOf, Function.update_of_ne hname]

theorem satelliteAt_mem (w : World) (name : String) :
    (w.satelliteAt name).2.satellites name = some (w.satelliteAt name).1 := by
  unfold World.satelliteAt
  split
  · assumption
  · simp

theorem satelliteAt_node (w : World) (name : String) : (w.satelliteAt name).1.node = nodeOf w name := by
  rw [← nodeOf_satelliteAt w name, nodeOf, satelliteAt_mem, Option.bind_some]

theorem satelliteAt_net (w : World) (name : String) : (w.satelliteAt name).2.net = w.net := by
  unfold World.satelliteAt
  split <;> rfl

theorem grows_satelliteAt (w : World) (name : String) : Grows w (w.satelliteAt name).2 := by
  refine Grows.of_channels (l := []) ?_ ?_ (by simp) (nodeOf_satelliteAt w name)
  · simp [satelliteAt_net]
  · simp [satelliteAt_net]

theorem grows_setSatellite {w : World} (name : String) {sat : Satellite}
    (hnode : sat.node = nodeOf w name) : Grows w (w.setSatellite name sat) := by
  refine Grows.of_channels (l := []) (by simp [World.setSatellite]) le_rfl (by simp) ?_
  funext name'
  by_cases hname : name' = name
  · subst hname
    simpa [nodeOf, World.setSatellite] using hnode
  · simp [nodeOf, World.setSatellite, Function.update_of_ne hname]

theorem grows_perform (w : World) (actions : List Action) : Grows w (w.perform actions) :=
  Grows.of_channels (l := []) (by simp [World.perform]) le_rfl (by simp) rfl

theorem DetachPrefix_channels {st : Station} {sat : Satellite} {net net' : Network}
    (h : DetachPrefix st sat net = .ok net') :
    net'.channels = net.channels ∧ net'.nextAddress = net.nextAddress := by
  obtain ⟨stFace, -, h⟩ := ok_of_bind h
  obtain ⟨satN, -, h⟩ := ok_of_bind h
  obtain ⟨satFace, -, h⟩ := ok_of_bind h
  cases h
  generalize hnet : Network.RemoveRoute _ satN "/" satFace.id = net₁
  have h₁ : net₁.channels = net.channels ∧ net₁.nextAddress = net.nextAddress := by
    rw [← hnet]
    exact ⟨rfl, rfl⟩
  rw [← h₁.1, ← h₁.2]
  clear hnet h₁
  induction st.prefixes generalizing net₁ with
  | nil => exact ⟨rfl, rfl⟩
  | cons p l ih => exact ih _

theorem AttachPrefix_channels {satN : NodeId} {sat : Satellite} {st : Station} {net net' : Network}
    (h : AttachPrefix satN sat st net = .ok net') :
    net'.channels = net.channels ∧ net'.nextAddress = net.nextAddress := by
  unfold AttachPrefix at h
  generalize st.prefixes = prefixes at h
  induction prefixes generalizing net with
  | nil => cases h; exact ⟨rfl, rfl⟩
  | cons p l ih =>
    rw [List.foldlM_cons] at h
    obtain ⟨net₁, h₁, h⟩ := ok_of_bind h
    obtain ⟨face, -, h₁⟩ := ok_of_bind h₁
    cases h₁
    obtain ⟨hc, hn⟩ := ih h
    exact ⟨hc, hn⟩

theorem connect_spec {stN satN : NodeId} {net net' : Network} {devices : NetDevice × NetDevice}
    (h : connect stN satN net = .ok (devices, net')) :
    devices = (⟨net.nextAddress, stN⟩, ⟨net.nextAddress + 1, satN⟩) ∧
      net'.channels = net.channels ++ [devices] ∧ net'.nextAddress = net.nextAddress + 2 := by
  obtain ⟨stFace, -, h⟩ := ok_of_bind h
  obtain ⟨satFace, -, h⟩ := ok_of_bind h
  cases h
  exact ⟨rfl, rfl, rfl⟩

theorem peer_installed {net net' : Network} {d e : NetDevice} (hf : Fresh net)
    (hd : net.nextAddress ≤ d.address) (hc : net'.channels = net.channels ++ [(d, e)]) :
    net'.peer d = some e := by
  unfold Network.peer
  rw [hc, List.findSome?_append]
  have hnone : net.channels.findSome? (fun c =>
      if c.1 = d then some c.2 else if c.2 = d then some c.1 else none) = none := by
    rw [List.findSome?_eq_none_iff]
    intro c hc'
    have := hf c hc'
    have h1 : c.1 ≠ d := by rintro rfl; omega
    have h2 : c.2 ≠ d := by rintro rfl; omega
    simp [h1, h2]
  simp [hnone]

/-- The station's user link leads to the satellite `name`, and there is none
where `name` is `"-"`. -/
def ConnectedTo (w : World) (st : Station) (name : String) : Prop :=
  match st.p2pDevice with
  | none => name = "-"
  | some d => name ≠ "-" ∧ d.node = st.node ∧ (nodeOf w name).isSome ∧
      (w.net.peer d).map NetDevice.node = nodeOf w name

instance (w : World) (st : Station) (name : String) : Decidable (ConnectedTo w st name) := by
  unfold ConnectedTo
  split <;> infer_instance

theorem connectedTo_iff {w : World} {st : Station} {d : NetDevice} (hd : st.p2pDevice = some d)
    (name : String) : ConnectedTo w st name ↔ name ≠ "-" ∧ d.node = st.node ∧
      (nodeOf w name).isSome ∧ (w.net.peer d).map NetDevice.node = nodeOf w name := by
  unfold ConnectedTo
  rw [hd]

theorem ConnectedTo.grows {w w' : World} {st : Station} {name : String} (h : ConnectedTo w st name)
    (hg : Grows w w') : ConnectedTo w' st name := by
  unfold ConnectedTo at h ⊢
  split at h
  · exact h
  · rename_i d hd
    obtain ⟨hname, hnode, hsome, hmap⟩ := h
    obtain ⟨n, hn⟩ := Option.isSome_iff_exists.mp hsome
    obtain ⟨e, he, hen⟩ := Option.map_eq_some_iff.mp (hmap.trans hn)
    rw [hg.nodes]
    exact ⟨hname, hnode, hsome, by rw [hg.peers d e he, Option.map_some, hen, hn]⟩

def DistinctNodes (w : World) : Prop :=
  ∀ a b, (nodeOf w a).isSome → nodeOf w a = nodeOf w b → a = b

theorem ConnectedTo.unique {w : World} {st : Station} {name name' : String}
    (hdistinct : DistinctNodes w) (h : ConnectedTo w st name) (h' : ConnectedTo w st name') : name = name' := by
  unfold ConnectedTo at h h'
  split at h
  · rename_i hnone
    simp only [hnone] at h'
    rw [h, h']
  · rename_i d hd
    simp only [hd] at h'
    exact hdistinct name name' h.2.2.1 (h.2.2.2.symm.trans h'.2.2.2)

theorem detachLast_spec {cfg : Config} {st st' : Station} {w w' : World} {oldId : Option UserLinkId}
    (h : detachLast cfg st w = .ok (oldId, st', w')) :
    Grows w w' ∧ st' = { st with p2pDevice := st'.p2pDevice } ∧
      (st.handover → st'.p2pDevice = none) ∧ (st.handover = false → st' = st) := by
  unfold detachLast at h
  split at h
  · rename_i hh
    split at h
    · rename_i hd
      cases h
      exact ⟨Grows.refl w, rfl, fun _ => hd, fun _ => rfl⟩
    · rename_i d hd
      obtain ⟨face, -, h⟩ := ok_of_bind h
      obtain ⟨net, hnet, h⟩ := ok_of_bind h
      cases h
      obtain ⟨hc, hn⟩ := DetachPrefix_channels hnet
      refine ⟨?_, rfl, fun _ => rfl, by simp [hh]⟩
      apply (grows_satelliteAt w _).trans
      apply (grows_net hc hn).trans
      apply grows_setSatellite
      rw [satelliteAt_node, ← nodeOf_satelliteAt]
      rfl
  · rename_i hh
    cases h
    exact ⟨Grows.refl w, rfl, fun h => absurd h hh, fun _ => rfl⟩

theorem attach_spec {cfg : Config} {name : String} {oldId : Option UserLinkId} {st st' : Station}
    {w w' : World} (h : attach cfg name oldId st w = .ok (st', w')) (hname : name ≠ "-") :
    Grows w w' ∧ (Fresh w.net → ConnectedTo w' st' name) ∧
      st' = { st with p2pDevice := st'.p2pDevice } := by
  obtain ⟨satN, hsatN, h⟩ := ok_of_bind h
  obtain ⟨⟨devices, net⟩, hconnect, h⟩ := ok_of_bind h
  obtain ⟨net', hattached, h⟩ := ok_of_bind h
  cases h
  obtain ⟨hdev, hc, hn⟩ := connect_spec hconnect
  obtain ⟨hc', hn'⟩ := AttachPrefix_channels hattached
  simp only [satelliteAt_net] at hdev hc hn hc' hn'
  have hlink : Grows (w.satelliteAt name).2 { (w.satelliteAt name).2 with net := net' } := by
    refine Grows.of_channels (l := [devices]) ?_ ?_ ?_ rfl
    · simp [satelliteAt_net, hc', hc]
    · simp [satelliteAt_net, hn', hn]
    · simp [hdev, hn', hn]
  have hnode : (w.satelliteAt name).1.node = nodeOf { (w.satelliteAt name).2 with net := net' } name := by
    rw [satelliteAt_node, ← nodeOf_satelliteAt]
    rfl
  have hset : Grows _ (World.setSatellite _ name { (w.satelliteAt name).1 with p2pDevice := some devices.2 }) :=
    grows_setSatellite name hnode
  have hgrow := ((grows_satelliteAt w name).trans hlink).trans
    (hset.trans (grows_perform _ (attachActions cfg
      { st with p2pDevice := some devices.1 } oldId)))
  refine ⟨hgrow, ?_, rfl⟩
  intro hfresh
  have hpeer : net'.peer devices.1 = some devices.2 :=
    peer_installed hfresh (by simp [hdev]) (by rw [hc', hc])
  have hsat : nodeOf w name = some satN := by rw [← satelliteAt_node]; exact deref_ok hsatN
  rw [connectedTo_iff rfl, hgrow.nodes, hsat]
  refine ⟨hname, by simp [hdev], rfl, ?_⟩
  simp only [World.perform, World.setSatellite, hpeer]
  simp [hdev]

theorem changeRoutes_grows (op : Network → NodeId → String → FaceId → Network)
    (hop : ∀ net n namePrefix face, (op net n namePrefix face).channels = net.channels ∧
      (op net n namePrefix face).nextAddress = net.nextAddress)
    {prefixes : List String} {links : List (String × String)} {w w' : World}
    (h : changeRoutes op prefixes links w = .ok w') : Grows w w' := by
  refine foldlM_preserves Grows.refl (fun _ _ _ => Grows.trans) ?_ h
  intro link _ w w' hlink
  apply ((grows_satelliteAt w link.1).trans (grows_satelliteAt _ link.2)).trans
  refine foldlM_preserves Grows.refl (fun _ _ _ => Grows.trans) ?_ hlink
  intro namePrefix _ w w' hroute
  obtain ⟨node1, -, hroute⟩ := ok_of_bind hroute
  obtain ⟨node2, -, hroute⟩ := ok_of_bind hroute
  obtain ⟨face, -, hroute⟩ := ok_of_bind hroute
  cases hroute
  exact grows_net (hop _ _ _ _).1 (hop _ _ _ _).2

theorem addRoutes_grows {prefixes : List String} {links : List (String × String)} {w w' : World}
    (h : changeRoutes addRoute prefixes links w = .ok w') : Grows w w' :=
  changeRoutes_grows addRoute (fun _ _ _ _ => ⟨rfl, rfl⟩) h

theorem removeRoutes_grows {prefixes : List String} {links : List (String × String)} {w w' : World}
    (h : changeRoutes Network.RemoveRoute prefixes links w = .ok w') : Grows w w' :=
  changeRoutes_grows Network.RemoveRoute (fun _ _ _ _ => ⟨rfl, rfl⟩) h

theorem ApplyRoutes_ok {prefixes links : List String} {w w' : World}
    (h : ApplyRoutes prefixes links w = .ok w') :
    1 < links.length ∧ changeRoutes addRoute prefixes (routeLinks links) w = .ok w' := by
  unfold ApplyRoutes at h
  split_ifs at h with hlen
  exact ⟨hlen, h⟩

theorem RemoveRoutes_ok {prefixes links : List String} {w w' : World}
    (h : RemoveRoutes prefixes links w = .ok w') :
    1 < links.length ∧ changeRoutes Network.RemoveRoute prefixes (routeLinks links) w = .ok w' := by
  unfold RemoveRoutes at h
  split_ifs at h with hlen
  exact ⟨hlen, h⟩

theorem updatePairRoutes_cases {cfg : Config} {curTime : ℤ} {prefixes : List String}
    {table table' : List (ℤ × List String)} {w w' : World}
    (h : updatePairRoutes cfg curTime prefixes table w = .ok (table', w')) :
    w' = w ∨ ∃ links w₁, (w₁ = w ∨ ∃ old, RemoveRoutes prefixes old w = .ok w₁) ∧
      ApplyRoutes prefixes links w₁ = .ok w' := by
  unfold updatePairRoutes at h
  split at h
  · cases h
    exact Or.inl rfl
  · split at h
    · obtain ⟨w₁, happly, h⟩ := ok_of_bind h
      cases h
      exact Or.inr ⟨_, w, Or.inl rfl, happly⟩
    · split at h
      · cases h
        exact Or.inl rfl
      · split at h
        · cases h
          exact Or.inl rfl
        · obtain ⟨⟨table₁, w₁⟩, hadvance, h⟩ := ok_of_bind h
          cases h
          simp only [advanceRoutes] at hadvance
          split at hadvance
          · cases hadvance
            exact Or.inl rfl
          · split at hadvance
            · obtain ⟨w₂, hremove, hadvance⟩ := ok_of_bind hadvance
              obtain ⟨w₃, happly, hadvance⟩ := ok_of_bind hadvance
              cases hadvance
              exact Or.inr ⟨_, w₂, Or.inr ⟨_, hremove⟩, happly⟩
            · cases hadvance
              exact Or.inl rfl

theorem updatePairRoutes_grows {cfg : Config} {curTime : ℤ} {prefixes : List String}
    {table table' : List (ℤ × List String)} {w w' : World}
    (h : updatePairRoutes cfg curTime prefixes table w = .ok (table', w')) : Grows w w' := by
  rcases updatePairRoutes_cases h with rfl | ⟨links, w₁, rfl | ⟨old, hremove⟩, happly⟩
  · exact Grows.refl _
  · exact addRoutes_grows (ApplyRoutes_ok happly).2
  · exact (removeRoutes_grows (RemoveRoutes_ok hremove).2).trans (addRoutes_grows (ApplyRoutes_ok happly).2)

theorem updateProducerRoutes_cases {cfg : Config} {curTime : ℤ} {prefixes : List String}
    {table table' : List (ℤ × RouteDelta)} {w w' : World}
    (h : updateProducerRoutes cfg curTime prefixes table w = .ok (table', w')) :
    w' = w ∨ ∃ routes : RouteDelta, ∃ w₁, changeRoutes addRoute prefixes routes.add w = .ok w₁ ∧
      changeRoutes Network.RemoveRoute prefixes routes.remove w₁ = .ok w' := by
  unfold updateProducerRoutes at h
  split at h
  · cases h
    exact Or.inl rfl
  · simp only at h
    split at h
    · obtain ⟨w₁, hroutes, h⟩ := ok_of_bind h
      cases h
      obtain ⟨w₂, hadd, hremove⟩ := ok_of_bind hroutes
      exact Or.inr ⟨_, w₂, hadd, hremove⟩
    · split at h
      · cases h
        exact Or.inl rfl
      · cases h
        exact Or.inl rfl

theorem updateProducerRoutes_grows {cfg : Config} {curTime : ℤ} {prefixes : List String}
    {table table' : List (ℤ × RouteDelta)} {w w' : World}
    (h : updateProducerRoutes cfg curTime prefixes table w = .ok (table', w')) : Grows w w' := by
  rcases updateProducerRoutes_cases h with rfl | ⟨routes, w₁, hadd, hremove⟩
  · exact Grows.refl _
  · exact (addRoutes_grows hadd).trans (removeRoutes_grows hremove)

theorem announceHandover_grows (cfg : Config) (params : UpdateParams) (st : Station) (w : World) :
    Grows w (announceHandover cfg params st w) := by
  simp only [announceHandover]
  split_ifs with hh hconsumer hproducer
  · apply (grows_perform w _).trans
    apply (grows_satelliteAt _ _).trans
    exact Grows.of_channels (l := []) (by simp) le_rfl (by simp) rfl
  · exact grows_perform w _
  · exact Grows.refl w
  · exact Grows.refl w

theorem updateAttachment_grows {cfg : Config} {params : UpdateParams} {st st' : Station} {w w' : World}
    (h : updateAttachment cfg params st w = .ok (st', w')) : Grows w w' := by
  unfold updateAttachment at h
  split_ifs at h with hhost
  · cases h
    exact Grows.refl w
  · cases h
    exact announceHandover_grows _ _ _ _

theorem moveUserLink_grows {cfg : Config} {curTime : ℤ} {st st' : Station} {w w' : World}
    (h : moveUserLink cfg curTime st w = .ok (st', w')) :
    Grows w w' ∧ st' = { st with p2pDevice := st'.p2pDevice } := by
  unfold moveUserLink at h
  split_ifs at h with hskip
  · cases h
    exact ⟨Grows.refl w, rfl⟩
  · obtain ⟨⟨oldId, st₁, w₁⟩, hdetach, h⟩ := ok_of_bind h
    obtain ⟨hg, hst, -, -⟩ := detachLast_spec hdetach
    simp only at h
    split_ifs at h with h1 h2
    · cases h
      exact ⟨hg, hst⟩
    · cases h
      exact ⟨hg, hst⟩
    · obtain ⟨hg', -, hst'⟩ := attach_spec h h1
      exact ⟨hg.trans hg', hst'.trans (by rw [hst])⟩

/-- What one call of `Update` does for one station: between its two loops over
the stations, the links only grow. -/
theorem Update_station {cfg : Config} {params params' : UpdateParams} {sim sim' : Sim}
    (h : Update cfg params sim = .ok (params', sim')) (i : ℕ) (st : Station)
    (hst : sim.stations[i]? = some st) (hhost : st.isHost) :
    params' = { params with curTime := params.curTime + params.interval } ∧
      ∃ w₁ st₁ w₂, Grows sim.world w₁ ∧ moveUserLink cfg params.curTime st w₁ = .ok (st₁, w₂) ∧
        Grows w₂ sim'.world ∧
        sim'.stations[i]? = some (predictAttachment cfg (params.curTime + params.interval) st₁) := by
  obtain ⟨stations, w₃, routes, w₄, producerRoutes, w₅, stations', w₆, hmove, hroutes, hproducers, hpredict, rfl, rfl⟩ :=
    Update_ok h
  obtain ⟨st₁, w₁, w₂, hbefore, hmove, hafter, hst₁⟩ := forEach_split hmove i st hst
  obtain ⟨st₂, w₇, w₈, -, hpredict', -, hst₂⟩ := forEach_split hpredict i st₁ hst₁
  have hmoves (l l' : List Station) (w w' : World)
      (h : forEach (moveUserLink cfg params.curTime) l w = .ok (l', w')) : Grows w w' :=
    forEach_preserves Grows.refl (fun _ _ _ => Grows.trans)
      (fun _ _ _ _ _ h => (moveUserLink_grows h).1) h
  have hgrow₄ : Grows w₃ w₄ := by
    refine forEach_preserves Grows.refl (fun _ _ _ => Grows.trans) ?_ hroutes
    intro item _ w item' w' hitem
    obtain ⟨⟨table, w₀⟩, hitem, heq⟩ := ok_of_bind hitem
    cases heq
    exact updatePairRoutes_grows hitem
  have hgrow₅ : Grows w₄ w₅ := by
    refine forEach_preserves Grows.refl (fun _ _ _ => Grows.trans) ?_ hproducers
    intro item _ w item' w' hitem
    obtain ⟨⟨table, w₀⟩, hitem, heq⟩ := ok_of_bind hitem
    cases heq
    exact updateProducerRoutes_grows hitem
  have hgrow₆ : Grows w₅ w₆ :=
    forEach_preserves Grows.refl (fun _ _ _ => Grows.trans)
      (fun _ _ _ _ _ h => updateAttachment_grows h) hpredict
  refine ⟨rfl, w₁, st₁, w₂, hmoves _ _ _ _ hbefore, hmove,
    (((hmoves _ _ _ _ hafter).trans hgrow₄).trans hgrow₅).trans hgrow₆, ?_⟩
  have hhost₁ : st₁.isHost := by rw [(moveUserLink_grows hmove).2]; exact hhost
  simp only [updateAttachment, hhost₁, Bool.true_eq_false, if_false] at hpredict'
  cases hpredict'
  exact hst₂

def FollowsTimeline (w : World) (st : Station) (t : ℤ) : Prop :=
  ∃ name, Timeline.valueAt st.attachments t = some name ∧ ConnectedTo w st name

/-- What `storeAttachments` writes for a ground terminal. -/
structure AttachmentTimeline (es : List (ℤ × String)) : Prop extends Timeline.FromZero es where
  changes : es.IsChain (fun a b => a.2 ≠ b.2)

/-- A host station as `main` leaves it, before the first call of `Update`. -/
structure Starting (st : Station) : Prop where
  isHost : st.isHost
  timeline : AttachmentTimeline st.attachments
  p2pDevice : st.p2pDevice = none
  curAttachmentIdx : st.curAttachmentIdx = 0
  handover : st.handover = false

/-- The last tick that is not after the last entry of the timeline. -/
def lastTick (es : List (ℤ × String)) (interval : ℤ) : ℕ :=
  ((es.getLast?.map Prod.fst).getD 0 / interval).toNat

theorem AttachmentTimeline.le_lastTick_iff {es : List (ℤ × String)} (h : AttachmentTimeline es)
    {interval : ℤ} (hinterval : 0 < interval) (k : ℕ) :
    k ≤ lastTick es interval ↔
      k * interval ≤ (getElem es (es.length - 1) h.last_lt).1 := by
  have hnonneg := Int.ediv_nonneg h.last_nonneg hinterval.le
  rw [← Int.le_ediv_iff_mul_le hinterval]
  simp only [lastTick, h.getLast?, Option.map_some, Option.getD_some]
  omega

/-- The cursor after the call of `Update` at tick `k`: it is on the entry in
force at the next tick, or past the end when the timeline ends before that. -/
structure Predicted (interval : ℤ) (k : ℕ) (st : Station) : Prop where
  isHost : st.isHost
  timeline : AttachmentTimeline st.attachments
  within : k < lastTick st.attachments interval →
    st.curAttachmentIdx = Timeline.inForce st.attachments ((k + 1 : ℕ) * interval) ∧
      (st.handover ↔ Timeline.inForce st.attachments ((k + 1 : ℕ) * interval) ≠
        Timeline.inForce st.attachments (k * interval))
  past : lastTick st.attachments interval ≤ k → st.curAttachmentIdx = st.attachments.length

theorem predictAttachment_attachments (cfg : Config) (curTime : ℤ) (st : Station) :
    ∃ cur last handover, predictAttachment cfg curTime st = { st with
      curAttachmentIdx := cur, lastAttachmentIdx := last, handover := handover } := by
  simp only [predictAttachment]
  split_ifs
  all_goals exact ⟨_, _, _, rfl⟩

theorem predictAttachment_within (cfg : Config) {curTime curTime' : ℤ} {st : Station}
    (ht : AttachmentTimeline st.attachments) (hcurTime : 0 ≤ curTime) (hlt : curTime < curTime')
    (hlast : curTime' ≤ (getElem st.attachments (st.attachments.length - 1) ht.last_lt).1)
    (hcur : st.curAttachmentIdx = Timeline.inForce st.attachments curTime) :
    (predictAttachment cfg curTime' st).curAttachmentIdx = Timeline.inForce st.attachments curTime' ∧
      ((predictAttachment cfg curTime' st).handover ↔
        Timeline.inForce st.attachments curTime' ≠ Timeline.inForce st.attachments curTime) := by
  obtain ⟨hi, hle, -⟩ := ht.inForce_spec hcurTime
  simp only [← hcur] at hle
  have hidx : st.curAttachmentIdx < st.attachments.length := by omega
  obtain ⟨j, hj, hij, hseek, hstop⟩ :=
    ht.increasing.seek_within id ht.length_pos hlt hlast hidx hle
  have hgo : ¬ (curTime' ≤ st.attachments[st.curAttachmentIdx].1 ∨
      st.attachments.length ≤ st.curAttachmentIdx) := by omega
  rw [← hcur]
  simp only [predictAttachment, List.getD_eq_getElem _ _ hidx, if_neg hgo, hseek]
  rcases hstop with ⟨hbefore, hforce⟩ | ⟨hhit, hforce⟩
  · rw [if_pos hbefore, hforce]
    by_cases hsame : j - 1 = st.curAttachmentIdx
    · simp [hsame]
    · simp [hsame]
  · rw [if_neg hhit.not_lt, if_pos hhit, hforce]
    simp only [true_and, true_iff]
    omega

theorem predictAttachment_past (cfg : Config) {curTime' : ℤ} {st : Station}
    (ht : AttachmentTimeline st.attachments)
    (hlast : (getElem st.attachments (st.attachments.length - 1) ht.last_lt).1 < curTime')
    (hcur : st.curAttachmentIdx ≤ st.attachments.length) :
    (predictAttachment cfg curTime' st).curAttachmentIdx = st.attachments.length := by
  rcases hcur.lt_or_eq with hidx | hend
  · have hle := (ht.increasing.le_iff hidx ht.last_lt).mpr (by omega)
    have hgo : ¬ (curTime' ≤ st.attachments[st.curAttachmentIdx].1 ∨
        st.attachments.length ≤ st.curAttachmentIdx) := by omega
    have hseek := Timeline.seek_past st.attachments id ht.increasing hidx hlast
    simp only [predictAttachment, List.getD_eq_getElem _ _ hidx, if_neg hgo, hseek, id]
    rw [if_neg hlast.not_gt, if_neg hlast.ne']
  · simp [predictAttachment, hend]

theorem predictAttachment_predicted (cfg : Config) {interval : ℤ} (hinterval : 0 < interval) (k : ℕ)
    (st : Station) (hhost : st.isHost) (ht : AttachmentTimeline st.attachments)
    (hwithin : k ≤ lastTick st.attachments interval →
      st.curAttachmentIdx = Timeline.inForce st.attachments (k * interval))
    (hpast : lastTick st.attachments interval < k → st.curAttachmentIdx = st.attachments.length) :
    Predicted interval k (predictAttachment cfg (k * interval + interval) st) := by
  have hnext : (k : ℤ) * interval + interval = (k + 1 : ℕ) * interval := by push_cast; ring
  have hk : 0 ≤ (k : ℤ) * interval := by positivity
  have hidx : st.curAttachmentIdx ≤ st.attachments.length := by
    by_cases hle : k ≤ lastTick st.attachments interval
    · rw [hwithin hle]
      exact (ht.inForce_spec hk).1.le
    · rw [hpast (by omega)]
  have htick := ht.le_lastTick_iff hinterval (k + 1)
  obtain ⟨cur, last, handover, hpredict⟩ :=
    predictAttachment_attachments cfg (k * interval + interval) st
  have hatt : (predictAttachment cfg (k * interval + interval) st).attachments = st.attachments := by
    rw [hpredict]
  refine ⟨by rw [hpredict]; exact hhost, by rw [hatt]; exact ht, ?_, ?_⟩
  · rw [hatt]
    intro hlt
    rw [← hnext]
    exact predictAttachment_within cfg ht hk (by omega) (by rw [hnext]; exact htick.mp hlt)
      (hwithin hlt.le)
  · rw [hatt]
    intro hle
    refine predictAttachment_past cfg ht ?_ hidx
    rw [hnext]
    by_contra hlast
    exact absurd (htick.mpr (not_lt.mp hlast)) (by omega)

theorem FollowsTimeline.grows {w w' : World} {st st' : Station} {t : ℤ} (h : FollowsTimeline w st t)
    (hg : Grows w w') (hd : st'.p2pDevice = st.p2pDevice) (hn : st'.node = st.node)
    (ha : st'.attachments = st.attachments) : FollowsTimeline w' st' t := by
  obtain ⟨name, hname, hconnected⟩ := h
  refine ⟨name, by rw [ha]; exact hname, ?_⟩
  have := hconnected.grows hg
  unfold ConnectedTo at this ⊢
  rw [hd, hn]
  exact this

theorem moveUserLink_connects {cfg : Config} {curTime : ℤ} {st st' : Station} {w w' : World}
    (h : moveUserLink cfg curTime st w = .ok (st', w')) (hhost : st.isHost) (hfresh : Fresh w.net)
    (hidx : st.curAttachmentIdx < st.attachments.length)
    (hkeep : st.handover = false → (0 < curTime ∧ ConnectedTo w st st.attachments[st.curAttachmentIdx].2) ∨
      (curTime = 0 ∧ st.p2pDevice = none)) :
    ConnectedTo w' st' st.attachments[st.curAttachmentIdx].2 := by
  have hgo : ¬ (st.isHost = false ∨ st.attachments.length ≤ st.curAttachmentIdx) := by
    simp [hhost, hidx]
  simp only [moveUserLink, if_neg hgo] at h
  obtain ⟨⟨oldId, st₁, w₁⟩, hdetach, h⟩ := ok_of_bind h
  obtain ⟨hg, hst₁, hnew, hsame⟩ := detachLast_spec hdetach
  have hcur : (st₁.attachments.getD st₁.curAttachmentIdx cfg.pastAttachments).2 =
      st.attachments[st.curAttachmentIdx].2 := by
    rw [hst₁]
    exact congrArg Prod.snd (List.getD_eq_getElem _ _ hidx)
  have hhandover : st₁.handover = st.handover := by rw [hst₁]
  simp only [hcur, hhandover] at h
  split at h
  · rename_i hnone
    cases h
    rw [hnone]
    cases hh : st.handover with
    | true => simp [ConnectedTo, hnew hh]
    | false =>
      rw [hsame hh]
      rcases hkeep hh with ⟨-, hconnected⟩ | ⟨-, hdevice⟩
      · rw [hnone] at hconnected
        exact hconnected.grows hg
      · simp [ConnectedTo, hdevice]
  · rename_i hname
    split at h
    · rename_i hh
      cases h
      rw [hsame hh.1]
      rcases hkeep hh.1 with ⟨-, hconnected⟩ | ⟨hzero, -⟩
      · exact hconnected.grows hg
      · omega
    · exact (attach_spec h hname).2.1 (hg.fresh hfresh)

theorem Update_follows {cfg : Config} {params params' : UpdateParams} {sim sim' : Sim}
    (h : Update cfg params sim = .ok (params', sim')) (hinterval : 0 < params.interval) (i k : ℕ)
    (hcurTime : params.curTime = k * params.interval) (hfresh : Fresh sim.world.net) (st : Station)
    (hst : sim.stations[i]? = some st) (hhost : st.isHost) (ht : AttachmentTimeline st.attachments)
    (hwithin : k ≤ lastTick st.attachments params.interval →
      st.curAttachmentIdx = Timeline.inForce st.attachments (k * params.interval) ∧
      (st.handover = false → (0 < k ∧ FollowsTimeline sim.world st (k * params.interval)) ∨
        (k = 0 ∧ st.p2pDevice = none)))
    (hpast : lastTick st.attachments params.interval < k →
      st.curAttachmentIdx = st.attachments.length ∧
      FollowsTimeline sim.world st (lastTick st.attachments params.interval * params.interval)) :
    ∃ st', sim'.stations[i]? = some st' ∧ st'.attachments = st.attachments ∧
      Predicted params.interval k st' ∧ FollowsTimeline sim'.world st'
        ((min k (lastTick st.attachments params.interval) : ℕ) * params.interval) := by
  obtain ⟨-, w₁, st₁, w₂, hbefore, hmove, hafter, hst'⟩ := Update_station h i st hst hhost
  obtain ⟨hmoved, hst₁⟩ := moveUserLink_grows hmove
  obtain ⟨cur, last, handover, hpredict⟩ :=
    predictAttachment_attachments cfg (params.curTime + params.interval) st₁
  have hatt : st₁.attachments = st.attachments := by rw [hst₁]
  refine ⟨_, hst', by rw [hpredict, hst₁], ?_, ?_⟩
  · rw [hcurTime]
    apply predictAttachment_predicted cfg hinterval k st₁
    · rw [hst₁]
      exact hhost
    · rw [hatt]
      exact ht
    · rw [hatt, hst₁]
      exact fun hle => (hwithin hle).1
    · rw [hatt, hst₁]
      exact fun hlt => (hpast hlt).1
  · have hnow : FollowsTimeline w₂ st₁
        ((min k (lastTick st.attachments params.interval) : ℕ) * params.interval) := by
      by_cases hle : k ≤ lastTick st.attachments params.interval
      · obtain ⟨hcur, hkeep⟩ := hwithin hle
        have hk : 0 ≤ (k : ℤ) * params.interval := by positivity
        have hidx : st.curAttachmentIdx < st.attachments.length := by
          rw [hcur]
          exact (ht.inForce_spec hk).1
        have hvalue : Timeline.valueAt st.attachments (k * params.interval) =
            some st.attachments[st.curAttachmentIdx].2 := by
          rw [ht.valueAt_eq hk]
          simp only [hcur]
        rw [min_eq_left hle]
        refine ⟨_, by rw [hatt]; exact hvalue, ?_⟩
        apply moveUserLink_connects hmove hhost (hbefore.fresh hfresh) hidx
        intro hh
        rcases hkeep hh with ⟨hpos, name, hname, hconnected⟩ | ⟨hzero, hdevice⟩
        · refine Or.inl ⟨?_, ?_⟩
          · rw [hcurTime]
            positivity
          · rw [hvalue] at hname
            cases hname
            exact hconnected.grows hbefore
        · exact Or.inr ⟨by rw [hcurTime, hzero]; simp, hdevice⟩
      · obtain ⟨hcur, hfollows⟩ := hpast (by omega)
        have hskip : st.isHost = false ∨ st.attachments.length ≤ st.curAttachmentIdx :=
          Or.inr hcur.ge
        simp only [moveUserLink, if_pos hskip] at hmove
        cases hmove
        rw [min_eq_right (by omega)]
        exact hfollows.grows hbefore rfl rfl rfl
    exact hnow.grows hafter (by rw [hpredict]) (by rw [hpredict]) (by rw [hpredict])

/-- The link after tick `n` is the one for the last tick up to `n` that is not
after the timeline's last entry. -/
theorem updates_station {cfg : Config} {params : UpdateParams} {sim : Sim} (hzero : params.curTime = 0)
    (hinterval : 0 < params.interval) (hfresh : Fresh sim.world.net) (i : ℕ) (st : Station)
    (hst : sim.stations[i]? = some st) (hstart : Starting st) (n : ℕ) (params' : UpdateParams)
    (sim' : Sim) (hrun : updates cfg params sim n = .ok (params', sim')) :
    params' = { params with curTime := (n + 1 : ℕ) * params.interval } ∧ Grows sim.world sim'.world ∧
      ∃ st', sim'.stations[i]? = some st' ∧ st'.attachments = st.attachments ∧
        Predicted params.interval n st' ∧ FollowsTimeline sim'.world st'
          ((min n (lastTick st.attachments params.interval) : ℕ) * params.interval) := by
  induction n generalizing params' sim' with
  | zero =>
    obtain ⟨hparams, w₁, st₁, w₂, hbefore, hmove, hafter, -⟩ := Update_station hrun i st hst hstart.isHost
    refine ⟨?_, (hbefore.trans (moveUserLink_grows hmove).1).trans hafter, ?_⟩
    · rw [hparams, hzero]
      simp
    · apply Update_follows hrun hinterval i 0 (by simp [hzero]) hfresh st hst hstart.isHost hstart.timeline
      · intro _
        refine ⟨by simp [hstart.curAttachmentIdx, hstart.timeline.inForce_zero], fun _ => Or.inr ⟨rfl, hstart.p2pDevice⟩⟩
      · omega
  | succ n ih =>
    obtain ⟨⟨params₁, sim₁⟩, hrun₁, hstep⟩ := ok_of_bind hrun
    obtain ⟨hparams₁, hgrow₁, st₁, hst₁, hatt, hpredicted, hfollows⟩ := ih _ _ hrun₁
    have hcurTime : params₁.curTime = (n + 1 : ℕ) * params₁.interval := by rw [hparams₁]
    have hinterval₁ : params₁.interval = params.interval := by rw [hparams₁]
    obtain ⟨hparams, w₁, st₂, w₂, hbefore, hmove, hafter, -⟩ :=
      Update_station hstep i st₁ hst₁ hpredicted.isHost
    refine ⟨?_, hgrow₁.trans ((hbefore.trans (moveUserLink_grows hmove).1).trans hafter), ?_⟩
    · rw [hparams, hparams₁]
      simp only [UpdateParams.mk.injEq, true_and, and_true]
      push_cast
      ring
    · rw [← hatt, ← hinterval₁]
      have hnext : ∃ st', sim'.stations[i]? = some st' ∧ st'.attachments = st₁.attachments ∧
          Predicted params₁.interval (n + 1) st' ∧ FollowsTimeline sim'.world st'
            ((min (n + 1) (lastTick st₁.attachments params₁.interval) : ℕ) * params₁.interval) := by
        rw [← hinterval₁, ← hatt] at hfollows
        rw [← hinterval₁] at hpredicted hinterval
        apply Update_follows hstep hinterval i (n + 1) hcurTime (hgrow₁.fresh hfresh) st₁ hst₁
          hpredicted.isHost hpredicted.timeline
        · intro hle
          obtain ⟨hcur, hhandover⟩ := hpredicted.within hle
          refine ⟨hcur, ?_⟩
          intro hh
          have hsame : Timeline.inForce st₁.attachments ((n + 1 : ℕ) * params₁.interval) =
              Timeline.inForce st₁.attachments (n * params₁.interval) := by
            by_contra hne
            exact absurd (hhandover.mpr hne) (by simp [hh])
          refine Or.inl ⟨Nat.succ_pos n, ?_⟩
          obtain ⟨name, hname, hconnected⟩ := hfollows
          refine ⟨name, ?_, hconnected⟩
          rw [min_eq_left (by omega), hpredicted.timeline.valueAt_eq (by positivity)] at hname
          rw [hpredicted.timeline.valueAt_eq (by positivity), ← hname]
          simp only [hsame]
        · intro hlt
          refine ⟨hpredicted.past (by omega), ?_⟩
          rwa [min_eq_right (by omega)] at hfollows
      exact hnext

/-- The run ends before the last entry begins, or that entry names the
satellite already in force at the last tick before it. -/
def LastEntryCaught (es : List (ℤ × String)) (interval : ℤ) (n : ℕ) : Prop :=
  n ≤ lastTick es interval ∨
    Timeline.valueAt es (lastTick es interval * interval) = es.getLast?.map Prod.snd

def FollowsAt (cfg : Config) (params : UpdateParams) (sim : Sim) (i k : ℕ) : Prop :=
  ∃ params' sim' st', updates cfg params sim k = .ok (params', sim') ∧
    sim'.stations[i]? = some st' ∧ FollowsTimeline sim'.world st' (k * params.interval)

theorem updates_ok_of_le {cfg : Config} {params : UpdateParams} {sim : Sim} {n : ℕ}
    {last : UpdateParams × Sim} (hrun : updates cfg params sim n = .ok last) {k : ℕ} (hk : k ≤ n) :
    ∃ params' sim', updates cfg params sim k = .ok (params', sim') := by
  induction n generalizing last with
  | zero =>
    obtain rfl : k = 0 := by omega
    exact ⟨last.1, last.2, hrun⟩
  | succ n ih =>
    rcases Nat.eq_or_lt_of_le hk with rfl | hlt
    · exact ⟨last.1, last.2, hrun⟩
    · obtain ⟨mid, hmid, -⟩ := ok_of_bind hrun
      exact ih hmid (by omega)

theorem attachments_followed_iff (cfg : Config) (params : UpdateParams) (sim : Sim)
    (hzero : params.curTime = 0) (hinterval : 0 < params.interval) (hfresh : Fresh sim.world.net)
    (hdistinct : DistinctNodes sim.world) (i : ℕ) (st : Station) (hst : sim.stations[i]? = some st)
    (hstart : Starting st) (n : ℕ) (last : UpdateParams × Sim)
    (hrun : updates cfg params sim n = .ok last) :
    (∀ k ≤ n, FollowsAt cfg params sim i k) ↔ LastEntryCaught st.attachments params.interval n := by
  have ht := hstart.timeline
  -- beyond the last tick the timeline demands the last entry, whose index is `es.length - 1`
  have hend (k : ℕ) (hk : lastTick st.attachments params.interval < k) :
      Timeline.valueAt st.attachments (k * params.interval) = st.attachments.getLast?.map Prod.snd := by
    have hpast := (ht.le_lastTick_iff hinterval k).not.mp (by omega)
    rw [ht.valueAt_eq (by positivity), ht.getLast?]
    simp only [ht.inForce_last (not_le.mp hpast).le, Option.map_some]
  constructor
  · intro hall
    by_cases hle : n ≤ lastTick st.attachments params.interval
    · exact Or.inl hle
    · obtain ⟨params', sim', st', hrun', hst', name, hname, hconnected⟩ := hall n le_rfl
      obtain ⟨-, hgrow, st'', hst'', hatt, -, name', hname', hconnected'⟩ :=
        updates_station hzero hinterval hfresh i st hst hstart n params' sim' hrun'
      rw [hst', Option.some.injEq] at hst''
      subst hst''
      have hdistinct' : DistinctNodes sim'.world := by
        unfold DistinctNodes
        rw [hgrow.nodes]
        exact hdistinct
      rw [hatt, min_eq_right (by omega)] at hname'
      rw [hatt, hend n (by omega)] at hname
      exact Or.inr (by rw [hname, hname', hconnected.unique hdistinct' hconnected'])
  · intro hcaught k hk
    obtain ⟨params', sim', hrun'⟩ := updates_ok_of_le hrun hk
    obtain ⟨-, -, st', hst', hatt, -, name, hname, hconnected⟩ :=
      updates_station hzero hinterval hfresh i st hst hstart k params' sim' hrun'
    refine ⟨params', sim', st', hrun', hst', name, ?_, hconnected⟩
    rw [hatt] at hname ⊢
    by_cases hle : k ≤ lastTick st.attachments params.interval
    · rwa [min_eq_left hle] at hname
    · rw [min_eq_right (by omega)] at hname
      rcases hcaught with hn | hsame
      · omega
      · rw [hend k (by omega), ← hsame, hname]

section LateEntry

def lateTerminal : Station where
  name := "city-a"
  node := 2
  isHost := true
  role := .unset
  prefixes := []
  p2pDevice := none
  attachments := [(0, "sat-0-0"), (1, "sat-0-1")]
  curAttachmentIdx := 0
  lastAttachmentIdx := 0
  handover := false

def lateWorld : World where
  satellites name :=
    if name = "sat-0-0" then some ⟨name, some 0, "", none⟩
    else if name = "sat-0-1" then some ⟨name, some 1, "", none⟩ else none
  net := ⟨0, fun _ => 257, [], fun _ => [], fun _ _ _ => none, fun _ => []⟩
  actions := []
  m_lastSatPrefix _ := ""

def lateConfig : Config := ⟨false, 5, (0, ""), (0, []), (0, ⟨[], []⟩)⟩

def lateSim : Sim := ⟨lateWorld, [lateTerminal], [], []⟩

theorem lateTerminal_starting : Starting lateTerminal where
  isHost := rfl
  timeline := ⟨⟨by decide, rfl⟩, by decide⟩
  p2pDevice := rfl
  curAttachmentIdx := rfl
  handover := rfl

theorem lateWorld_distinctNodes : DistinctNodes lateWorld := by
  intro a b hsome hsame
  by_cases ha0 : a = "sat-0-0" <;> by_cases ha1 : a = "sat-0-1" <;>
    by_cases hb0 : b = "sat-0-0" <;> by_cases hb1 : b = "sat-0-1" <;>
    simp_all [nodeOf, lateWorld]

theorem lateSim_runs : ∃ last, updates lateConfig ⟨2, 0, 40⟩ lateSim 1 = .ok last :=
  ⟨_, rfl⟩

theorem attachments_followed_iff_lateSim :
    (∀ k ≤ 1, FollowsAt lateConfig ⟨2, 0, 40⟩ lateSim 0 k) ↔ LastEntryCaught lateTerminal.attachments 2 1 := by
  obtain ⟨last, hrun⟩ := lateSim_runs
  exact attachments_followed_iff lateConfig ⟨2, 0, 40⟩ lateSim rfl (by decide) (by simp [Fresh, lateSim, lateWorld])
    lateWorld_distinctNodes 0 lateTerminal rfl lateTerminal_starting 1 last hrun

/-- At minute 2 the station is still linked to the satellite of minute 0. -/
theorem late_entry_not_followed :
    Starting lateTerminal ∧ Timeline.valueAt lateTerminal.attachments 2 = some "sat-0-1" ∧
      (∃ params sim st, updates lateConfig ⟨2, 0, 40⟩ lateSim 1 = .ok (params, sim) ∧
        sim.stations[0]? = some st ∧ ConnectedTo sim.world st "sat-0-0") ∧
      ¬ FollowsAt lateConfig ⟨2, 0, 40⟩ lateSim 0 1 := by
  refine ⟨lateTerminal_starting, by decide, ⟨_, _, _, rfl, rfl, by decide⟩, ?_⟩
  rintro ⟨params, sim, st, hrun, hst, name, hname, hconnected⟩
  cases hrun
  cases hst
  cases hname
  revert hconnected
  decide

end LateEntry

end LeoNdn.AttachmentTracking
