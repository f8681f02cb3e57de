import LeoNdn.UserLinks
import LeoNdn.RouteTables

/-!
The pairing of the stations' devices with those that the satellites remember,
over all runs, and what each station takes down when it leaves a satellite.
-/

namespace LeoNdn.LinkPairing

open LeoNdn.Loops LeoNdn.SimulatedNetwork LeoNdn.StationUpdate LeoNdn.AttachmentTracking LeoNdn.SatelliteFibs
open LeoNdn.UserLinks

section Statement

variable (cfg : Config)

def lastSatName (st : Station) : String := (st.attachments.getD st.lastAttachmentIdx cfg.pastAttachments).2

def curSatName (st : Station) : String := (st.attachments.getD st.curAttachmentIdx cfg.pastAttachments).2

/-- `Update` takes down the user link of the station. -/
def Detaches (st : Station) : Prop :=
  st.isHost = true ∧ st.curAttachmentIdx < st.attachments.length ∧ st.handover = true ∧ st.p2pDevice.isSome = true

/-- The faces of both devices of a link are as they were, and the routes through them. -/
def LinkKept (net net' : Network) (d e : NetDevice) : Prop :=
  ∀ x, x = d ∨ x = e → net'.getFaceByNetDevice x.node (some x) = net.getFaceByNetDevice x.node (some x) ∧
    ∀ p face, HasFace net x face → net'.fib x.node p face = net.fib x.node p face

/-- What detaching the station should do: the satellite is addressed by the other
end of the station's channel, only that link is taken down, and those of the
other stations are left as they were. -/
def DetachesOwnLink (others : List Station) (st : Station) (w : World) : Prop :=
  ∀ d, st.p2pDevice = some d → ∃ e oldId w', w.net.peer d = some e ∧ deviceOf w (lastSatName cfg st) = some e ∧
    detachLast cfg st w = .ok (oldId, { st with p2pDevice := none }, w') ∧
    LinkDown st.prefixes d e w.net w'.net ∧
    ∀ other ∈ others, ∀ d', other.p2pDevice = some d' → ∃ e', w.net.peer d' = some e' ∧ LinkKept w.net w'.net d' e'

def Newest (net : Network) (e : NetDevice) : Prop :=
  ∀ c ∈ net.channels, c.2.node = e.node → c.2.address ≤ e.address

/-- The station is the last that has attached to the satellite of its link. -/
def LastAttached (st : Station) (w : World) : Prop :=
  ∀ d e, st.p2pDevice = some d → w.net.peer d = some e → Newest w.net e

/-- The parameters and the state before the call of `Update` at tick `k`. -/
def before (params : UpdateParams) (sim : Sim) : ℕ → Except Fault (UpdateParams × Sim)
  | 0 => .ok (params, sim)
  | k + 1 => updates cfg params sim k

/-- At tick `k` the loop comes to the station `st` in the world `w`, after the
stations `done` and before the stations `todo`. -/
def MovedAt (params : UpdateParams) (sim : Sim) (k : ℕ) (done : List Station) (st : Station) (todo : List Station)
    (w : World) : Prop :=
  ∃ params' sim' earlier, before cfg params sim k = .ok (params', sim') ∧ sim'.stations = earlier ++ st :: todo ∧
    forEach (moveUserLink cfg params'.curTime) earlier sim'.world = .ok (done, w)

/-- The simulation before the first call of `Update`: no station is attached. -/
structure Starts (sim : Sim) : Prop where
  installed : Installed sim.world.net
  distinctNodes : DistinctNodes sim.world
  devices : ∀ name, deviceOf sim.world name = none
  stations : ∀ st ∈ sim.stations, st.p2pDevice = none ∧ st.handover = false

end Statement

section Invariant

def linkOf (st : Station) : NodeId × Option NetDevice := (st.node, st.p2pDevice)

/-- The links of all stations, and the devices that the satellites remember: the
one of the link that was installed last, as long as its station has it. -/
structure Linked (w : World) (links : List (NodeId × Option NetDevice)) : Prop where
  installed : Installed w.net
  distinctNodes : DistinctNodes w
  link : ∀ n d, (n, some d) ∈ links →
    ∃ e, (d, e) ∈ w.net.channels ∧ d.node = n ∧ FaceExists w.net d ∧ FaceExists w.net e
  distinct : links.Pairwise (fun link link' => ∀ d, link.2 = some d → link'.2 ≠ some d)
  newest : ∀ name e, deviceOf w name = some e → nodeOf w name = some e.node ∧ Newest w.net e
  paired : ∀ n d e name, (n, some d) ∈ links → (d, e) ∈ w.net.channels → nodeOf w name = some e.node →
    Newest w.net e → deviceOf w name = some e

def Leads (w : World) (d : NetDevice) (name : String) : Prop :=
  ∃ e, (d, e) ∈ w.net.channels ∧ nodeOf w name = some e.node

structure Extends (w w' : World) : Prop where
  channels : ∀ c ∈ w.net.channels, c ∈ w'.net.channels
  nodes : nodeOf w' = nodeOf w

theorem Extends.refl (w : World) : Extends w w := ⟨fun _ hc => hc, rfl⟩

theorem Extends.trans {w w' w'' : World} (h : Extends w w') (h' : Extends w' w'') : Extends w w'' :=
  ⟨fun c hc => h'.channels c (h.channels c hc), h'.nodes.trans h.nodes⟩

theorem Leads.extends {w w' : World} {d : NetDevice} {name : String} (h : Leads w d name) (he : Extends w w') :
    Leads w' d name := by
  obtain ⟨e, hmem, hnode⟩ := h
  exact ⟨e, he.channels _ hmem, by rw [he.nodes]; exact hnode⟩

variable {w w' : World} {links before after : List (NodeId × Option NetDevice)} {link link' : NodeId × Option NetDevice}

theorem pairwise_replace (h : (before ++ link :: after).Pairwise (fun a b => ∀ d, a.2 = some d → b.2 ≠ some d))
    (hnew : ∀ other ∈ before ++ after, ∀ d, link'.2 = some d → other.2 ≠ some d) :
    (before ++ link' :: after).Pairwise (fun a b => ∀ d, a.2 = some d → b.2 ≠ some d) := by
  rw [List.pairwise_append, List.pairwise_cons] at h ⊢
  obtain ⟨hbefore, ⟨-, hafter⟩, hcross⟩ := h
  refine ⟨hbefore, ⟨fun other hother => hnew other (List.mem_append_right _ hother), hafter⟩, ?_⟩
  intro other hother x hx d hd
  rcases List.mem_cons.mp hx with rfl | hx
  · intro hlink
    exact hnew other (List.mem_append_left _ hother) d hlink hd
  · exact hcross other hother x (List.mem_cons_of_mem _ hx) d hd

theorem Linked.distinct_of (h : Linked w (before ++ link :: after)) {d : NetDevice} (hd : link.2 = some d)
    {other : NodeId × Option NetDevice} (hother : other ∈ before ++ after) : other.2 ≠ some d := by
  have hpairwise := h.distinct
  rw [List.pairwise_append, List.pairwise_cons] at hpairwise
  obtain ⟨-, ⟨hafter, -⟩, hcross⟩ := hpairwise
  rcases List.mem_append.mp hother with hbefore | hlater
  · intro hsame
    exact hcross other hbefore link List.mem_cons_self d hsame hd
  · exact hafter other hlater d hd

theorem mem_replace {other : NodeId × Option NetDevice} (h : other ∈ before ++ link' :: after) :
    other = link' ∨ other ∈ before ++ after := by
  rcases List.mem_append.mp h with hbefore | hafter
  · exact Or.inr (List.mem_append_left _ hbefore)
  · rcases List.mem_cons.mp hafter with rfl | hlater
    · exact Or.inl rfl
    · exact Or.inr (List.mem_append_right _ hlater)

theorem mem_of_others {other : NodeId × Option NetDevice} (h : other ∈ before ++ after) :
    other ∈ before ++ link :: after := by
  rcases List.mem_append.mp h with hbefore | hafter
  · exact List.mem_append_left _ hbefore
  · exact List.mem_append_right _ (List.mem_cons_of_mem _ hafter)

theorem Linked.channel_unique (h : Linked w links) {d e e' : NetDevice} (he : (d, e) ∈ w.net.channels)
    (he' : (d, e') ∈ w.net.channels) : e = e' :=
  congrArg Prod.snd (h.installed.channels (d, e) he (d, e') he' d (Or.inl rfl) (Or.inl rfl))

theorem Linked.same (h : Linked w links) (hnet : SameLinks w.net w'.net) (hnodes : nodeOf w' = nodeOf w)
    (hdevices : deviceOf w' = deviceOf w) : Linked w' links where
  installed := hnet.installed h.installed
  distinctNodes := by
    unfold DistinctNodes
    rw [hnodes]
    exact h.distinctNodes
  link := by
    intro n d hd
    obtain ⟨e, hmem, hnode, hdface, heface⟩ := h.link n d hd
    exact ⟨e, by rw [hnet.channels]; exact hmem, hnode, hnet.faceExists hdface, hnet.faceExists heface⟩
  distinct := h.distinct
  newest := by
    intro name e he
    rw [hdevices] at he
    rw [hnodes]
    unfold Newest
    rw [hnet.channels]
    exact h.newest name e he
  paired := by
    intro n d e name hd hmem hnode hnewest
    rw [hnet.channels] at hmem
    rw [hnodes] at hnode
    unfold Newest at hnewest
    rw [hnet.channels] at hnewest
    rw [hdevices]
    exact h.paired n d e name hd hmem hnode hnewest

theorem Linked.down (h : Linked w (before ++ link :: after)) {d e : NetDevice} {name : String}
    (hd : link.2 = some d) (hmem : (d, e) ∈ w.net.channels) (hdevice : deviceOf w name = some e)
    (hnet : SameLinks w.net w'.net) (hnodes : nodeOf w' = nodeOf w)
    (hdevices : deviceOf w' = Function.update (deviceOf w) name none) :
    Linked w' (before ++ (link.1, none) :: after) := by
  refine ⟨hnet.installed h.installed, ?_, ?_, ?_, ?_, ?_⟩
  · unfold DistinctNodes
    rw [hnodes]
    exact h.distinctNodes
  · intro n d' hd'
    have hother : (n, some d') ∈ before ++ after := by
      rcases mem_replace hd' with heq | hother
      · cases heq
      · exact hother
    obtain ⟨e', hmem', hnode, hdface, heface⟩ := h.link n d' (mem_of_others hother)
    exact ⟨e', by rw [hnet.channels]; exact hmem', hnode, hnet.faceExists hdface, hnet.faceExists heface⟩
  · exact pairwise_replace h.distinct (by rintro other - d' ⟨⟩)
  · intro name' e' he'
    rw [hdevices] at he'
    have hne : name' ≠ name := by
      rintro rfl
      rw [Function.update_self] at he'
      cases he'
    rw [Function.update_of_ne hne] at he'
    rw [hnodes]
    unfold Newest
    rw [hnet.channels]
    exact h.newest name' e' he'
  · intro n d' e' name' hd' hmem' hnode' hnewest
    have hother : (n, some d') ∈ before ++ after := by
      rcases mem_replace hd' with heq | hother
      · cases heq
      · exact hother
    rw [hnet.channels] at hmem'
    rw [hnodes] at hnode'
    unfold Newest at hnewest
    rw [hnet.channels] at hnewest
    have hpaired := h.paired n d' e' name' (mem_of_others hother) hmem' hnode' hnewest
    have hne : name' ≠ name := by
      rintro rfl
      rw [hdevice] at hpaired
      obtain rfl := Option.some.inj hpaired
      have hchannel := h.installed.channels (d, e) hmem (d', e) hmem' e (Or.inr rfl) (Or.inr rfl)
      have hsame : d = d' := congrArg Prod.fst hchannel
      exact h.distinct_of hd hother (by rw [hsame])
    rw [hdevices, Function.update_of_ne hne]
    exact hpaired

theorem fresh_channel {net : Network} (h : Installed net) {d e d' e' : NetDevice}
    (hd : net.nextAddress ≤ d.address) (he : net.nextAddress ≤ e.address) (hmem : (d', e') ∈ net.channels) :
    d' ≠ d ∧ e'.address < e.address := by
  have haddress := h.fresh (d', e') hmem
  refine ⟨?_, lt_of_lt_of_le haddress.2 he⟩
  rintro rfl
  exact absurd haddress.1 (not_lt.mpr hd)

theorem newest_append {net net' : Network} {d e e' : NetDevice} (hchannels : net'.channels = net.channels ++ [(d, e)])
    (hne : e'.node ≠ e.node) : Newest net' e' ↔ Newest net e' := by
  unfold Newest
  rw [hchannels]
  constructor
  · exact fun hnewest c hc => hnewest c (List.mem_append_left _ hc)
  · intro hnewest c hc hnode
    rcases List.mem_append.mp hc with hc | hc
    · exact hnewest c hc hnode
    · rw [List.mem_singleton.mp hc] at hnode
      exact absurd hnode.symm hne

theorem newest_last {net net' : Network} {d e : NetDevice} (hchannels : net'.channels = net.channels ++ [(d, e)])
    (hle : ∀ c ∈ net.channels, c.2.address ≤ e.address) : Newest net' e := by
  unfold Newest
  rw [hchannels]
  intro c hc _
  rcases List.mem_append.mp hc with hc | hc
  · exact hle c hc
  · rw [List.mem_singleton.mp hc]

theorem Linked.up (h : Linked w (before ++ link :: after)) {d e : NetDevice} {name : String}
    (hinstalled : Installed w'.net) (hchannels : w'.net.channels = w.net.channels ++ [(d, e)])
    (hfaces : ∀ x, FaceExists w.net x → FaceExists w'.net x) (hdface : FaceExists w'.net d)
    (heface : FaceExists w'.net e) (hdnew : w.net.nextAddress ≤ d.address) (henew : w.net.nextAddress ≤ e.address)
    (hdnode : d.node = link.1) (henode : nodeOf w name = some e.node) (hnodes : nodeOf w' = nodeOf w)
    (hdevices : deviceOf w' = Function.update (deviceOf w) name (some e)) :
    Linked w' (before ++ (link.1, some d) :: after) := by
  have hold : ∀ n d', (n, some d') ∈ before ++ after →
      ∃ e', (d', e') ∈ w.net.channels ∧ d'.node = n ∧ FaceExists w.net d' ∧ FaceExists w.net e' :=
    fun n d' hd' => h.link n d' (mem_of_others hd')
  have hfresh : ∀ d' e', (d', e') ∈ w.net.channels → d' ≠ d ∧ e'.address < e.address :=
    fun d' e' hmem => fresh_channel h.installed hdnew henew hmem
  have hold_newest : ∀ e', e'.node ≠ e.node → (Newest w'.net e' ↔ Newest w.net e') :=
    fun e' hne => newest_append hchannels hne
  refine ⟨hinstalled, ?_, ?_, ?_, ?_, ?_⟩
  · unfold DistinctNodes
    rw [hnodes]
    exact h.distinctNodes
  · intro n d' hd'
    rw [hchannels]
    rcases mem_replace hd' with heq | hother
    · cases heq
      exact ⟨e, List.mem_append_right _ List.mem_cons_self, hdnode, hdface, heface⟩
    · obtain ⟨e', hmem', hnode, hdface', heface'⟩ := hold n d' hother
      exact ⟨e', List.mem_append_left _ hmem', hnode, hfaces d' hdface', hfaces e' heface'⟩
  · refine pairwise_replace h.distinct ?_
    rintro ⟨n, other⟩ hother d' hd' hsame
    obtain ⟨e', hmem', -⟩ := hold n d (by rw [← Option.some.inj hd'] at hsame; rw [← hsame]; exact hother)
    exact (hfresh d e' hmem').1 rfl
  · intro name' e' he'
    rw [hdevices] at he'
    rw [hnodes]
    by_cases hname : name' = name
    · subst hname
      rw [Function.update_self] at he'
      obtain rfl := Option.some.inj he'
      exact ⟨henode, newest_last hchannels fun c hc => (hfresh c.1 c.2 hc).2.le⟩
    · rw [Function.update_of_ne hname] at he'
      obtain ⟨hnode, hnewest⟩ := h.newest name' e' he'
      refine ⟨hnode, (hold_newest e' ?_).mpr hnewest⟩
      intro hsame
      refine hname (h.distinctNodes name' name ?_ ?_)
      · rw [hnode]
        rfl
      · rw [hnode, henode, hsame]
  · intro n d' e' name' hd' hmem' hnode' hnewest
    rw [hchannels] at hmem'
    rw [hnodes] at hnode'
    rw [hdevices]
    rcases mem_replace hd' with heq | hother
    · cases heq
      have hlast : e' = e := by
        rcases List.mem_append.mp hmem' with hmem | hmem
        · exact absurd rfl (hfresh d e' hmem).1
        · exact congrArg Prod.snd (List.mem_singleton.mp hmem)
      subst hlast
      have hname : name' = name := by
        refine h.distinctNodes name' name ?_ (hnode'.trans henode.symm)
        rw [hnode']
        rfl
      rw [hname, Function.update_self]
    · obtain ⟨e'', hmem'', -⟩ := hold n d' hother
      have hmem : (d', e') ∈ w.net.channels := by
        rcases List.mem_append.mp hmem' with hmem | hmem
        · exact hmem
        · exact absurd (congrArg Prod.fst (List.mem_singleton.mp hmem)) (hfresh d' e'' hmem'').1
      have hne : e'.node ≠ e.node := by
        intro hsame
        have hle := hnewest (d, e) (by rw [hchannels]; exact List.mem_append_right _ List.mem_cons_self) hsame.symm
        exact absurd hle (not_le.mpr (hfresh d' e' hmem).2)
      have hname : name' ≠ name := by
        rintro rfl
        exact hne (Option.some.inj (hnode'.symm.trans henode))
      rw [Function.update_of_ne hname]
      exact h.paired n d' e' name' (mem_of_others hother) hmem hnode' ((hold_newest e' hne).mp hnewest)

end Invariant

section Moving

variable {cfg : Config} {st st' : Station} {w w' : World} {done todo : List (NodeId × Option NetDevice)}

theorem deviceOf_setSatellite (w : World) (name : String) (sat : Satellite) :
    deviceOf (w.setSatellite name sat) = Function.update (deviceOf w) name sat.p2pDevice := by
  funext name'
  by_cases hname : name' = name
  · subst hname
    simp [deviceOf, World.setSatellite]
  · simp [deviceOf, World.setSatellite, Function.update_of_ne hname]

theorem detachLast_eq (h : Linked w (done ++ linkOf st :: todo)) (hhandover : st.handover = true) {d e : NetDevice}
    (hd : st.p2pDevice = some d) (hmem : (d, e) ∈ w.net.channels) (hnode : nodeOf w (lastSatName cfg st) = some e.node)
    (hdevice : deviceOf w (lastSatName cfg st) = some e) :
    ∃ oldId w', detachLast cfg st w = .ok (oldId, { st with p2pDevice := none }, w') ∧
      LinkDown st.prefixes d e w.net w'.net ∧ nodeOf w' = nodeOf w ∧
      deviceOf w' = Function.update (deviceOf w) (lastSatName cfg st) none := by
  have hlink : (st.node, some d) ∈ done ++ linkOf st :: todo := by
    rw [← hd]
    exact List.mem_append_right _ List.mem_cons_self
  obtain ⟨e', hmem', hdnode, hdface, heface'⟩ := h.link st.node d hlink
  have heface : FaceExists w.net e := by
    rw [h.channel_unique hmem hmem']
    exact heface'
  let oldSat := (w.satelliteAt (lastSatName cfg st)).1
  have hsatDevice : oldSat.p2pDevice = some e := (satelliteAt_device w _).trans hdevice
  have hsatNode : oldSat.node = some e.node := (satelliteAt_node w _).trans hnode
  obtain ⟨net', hrun, hdown⟩ := DetachPrefix_linkDown hd hdnode hsatDevice hsatNode hdface heface
  obtain ⟨stFace, hstFace, -⟩ := faceExists_spec hdface
  rw [hdnode] at hstFace
  refine ⟨stFace.m_id, World.setSatellite { (w.satelliteAt (lastSatName cfg st)).2 with net := net' }
    (lastSatName cfg st) { oldSat with p2pDevice := none }, ?_, hdown, ?_, ?_⟩
  · unfold detachLast
    rw [if_pos hhandover, hd]
    have hrun' : DetachPrefix st (w.satelliteAt (st.attachments.getD st.lastAttachmentIdx cfg.pastAttachments).2).1
        w.net = .ok net' := hrun
    simp only [hstFace, assertNonNull, bind, Except.bind, satelliteAt_net, hrun']
    rfl
  · let w₁ : World := { (w.satelliteAt (lastSatName cfg st)).2 with net := net' }
    have hgrow : Grows w₁ (w₁.setSatellite (lastSatName cfg st) { oldSat with p2pDevice := none }) := by
      refine grows_setSatellite (lastSatName cfg st) ?_
      rw [hsatNode, ← hnode, ← nodeOf_satelliteAt]
      rfl
    exact hgrow.nodes.trans (nodeOf_satelliteAt w _)
  · rw [deviceOf_setSatellite]
    congr 1
    exact deviceOf_satelliteAt w _

theorem linkDown_kept_other (h : Linked w (done ++ linkOf st :: todo)) {net' : Network} {d e d' e' : NetDevice}
    (hdown : LinkDown st.prefixes d e w.net net') (hd : st.p2pDevice = some d) (hmem : (d, e) ∈ w.net.channels)
    (hdface : FaceExists w.net d) (heface : FaceExists w.net e) {n : NodeId} (hother : (n, some d') ∈ done ++ todo)
    (hmem' : (d', e') ∈ w.net.channels) : LinkKept w.net net' d' e' := by
  have hlink : (linkOf st).2 = some d := hd
  have hne : d' ≠ d := fun hsame => h.distinct_of hlink hother (by rw [hsame])
  intro x hx
  have hxd : x ≠ d := by
    rintro rfl
    have hchannel := h.installed.channels (d', e') hmem' (x, e) hmem x (hx.imp id id) (Or.inl rfl)
    exact hne (congrArg Prod.fst hchannel)
  have hxe : x ≠ e := by
    rintro rfl
    have hchannel := h.installed.channels (d', e') hmem' (d, x) hmem x (hx.imp id id) (Or.inr rfl)
    exact hne (congrArg Prod.fst hchannel)
  have hkeepsDevice : ∀ (n : NodeId) (f : Face), (if (n = d.node ∧ f.netDevice = d) ∨ (n = e.node ∧ f.netDevice = e)
      then { f with m_isGone := true } else f).netDevice = f.netDevice := by
    intro n f
    split <;> rfl
  refine ⟨?_, ?_⟩
  · rw [getFaceByNetDevice_map hdown.faces hkeepsDevice]
    cases hface : w.net.getFaceByNetDevice x.node (some x) with
    | none => rfl
    | some face =>
      have hfind : (w.net.faces x.node).find? (fun f => f.netDevice = x) = some face := hface
      have hdev : face.netDevice = x := by simpa using List.find?_some hfind
      rw [Option.map_some, if_neg]
      rw [hdev]
      rintro (⟨-, hsame⟩ | ⟨-, hsame⟩)
      · exact hxd hsame
      · exact hxe hsame
  · intro p face hface
    refine hdown.kept x.node p face ?_
    have hsame_face : ∀ y, FaceExists w.net y → x.node = y.node → HasFace w.net y face → x = y := by
      intro y hy hnode hyface
      obtain ⟨xFace, hxFace, rfl⟩ := Option.map_eq_some_iff.mp hface
      obtain ⟨yFace, hyFace, hid⟩ := Option.map_eq_some_iff.mp hyface
      have hxfind : (w.net.faces x.node).find? (fun f => f.netDevice = x) = some xFace := hxFace
      have hyfind : (w.net.faces y.node).find? (fun f => f.netDevice = y) = some yFace := hyFace
      have hxdev : xFace.netDevice = x := by simpa using List.find?_some hxfind
      have hydev : yFace.netDevice = y := by simpa using List.find?_some hyfind
      have hymem : yFace ∈ w.net.faces x.node := by
        rw [hnode]
        exact List.mem_of_find?_eq_some hyfind
      have heq := h.installed.faceIds x.node xFace (List.mem_of_find?_eq_some hxfind) yFace hymem hid.symm
      rw [← hxdev, ← hydev, heq]
    rintro (⟨hnode, hdf, -⟩ | ⟨hnode, hef, -⟩)
    · exact hxd (hsame_face d hdface hnode hdf)
    · exact hxe (hsame_face e heface hnode hef)

/-- Before the pass over a station: where it will leave a satellite its channel
leads there, and where it keeps its link that leads to its satellite. -/
def Ready (cfg : Config) (w : World) (curTime : ℤ) (st : Station) : Prop :=
  st.isHost = true → ∀ d, st.p2pDevice = some d →
    (st.handover = true → Leads w d (lastSatName cfg st)) ∧
      (st.handover = false → st.curAttachmentIdx < st.attachments.length → 0 < curTime ∧ Leads w d (curSatName cfg st))

def Moved (cfg : Config) (w : World) (st : Station) : Prop :=
  st.isHost = true → st.curAttachmentIdx < st.attachments.length → ∀ d, st.p2pDevice = some d →
    Leads w d (curSatName cfg st)

theorem Ready.extends {curTime : ℤ} (h : Ready cfg w curTime st) (he : Extends w w') : Ready cfg w' curTime st :=
  fun hhost d hd => ⟨fun hh => ((h hhost d hd).1 hh).extends he,
    fun hh hidx => ⟨((h hhost d hd).2 hh hidx).1, ((h hhost d hd).2 hh hidx).2.extends he⟩⟩

theorem Moved.extends (h : Moved cfg w st) (he : Extends w w') : Moved cfg w' st :=
  fun hhost hidx d hd => (h hhost hidx d hd).extends he

theorem detachesOwnLink_iff {done todo : List Station} {curTime : ℤ}
    (h : Linked w (done.map linkOf ++ linkOf st :: todo.map linkOf)) (hready : Ready cfg w curTime st)
    (hdetaches : Detaches st) : DetachesOwnLink cfg (done ++ todo) st w ↔ LastAttached st w := by
  obtain ⟨hhost, -, hhandover, hdevice⟩ := hdetaches
  obtain ⟨d, hd⟩ := Option.isSome_iff_exists.mp hdevice
  obtain ⟨e, hmem, hnode⟩ := (hready hhost d hd).1 hhandover
  have hpeer := peer_of_channel h.installed hmem
  have hlink : (st.node, some d) ∈ done.map linkOf ++ linkOf st :: todo.map linkOf := by
    rw [← hd]
    exact List.mem_append_right _ List.mem_cons_self
  constructor
  · intro hown d' e' hd' hpeer'
    obtain ⟨e₁, -, -, hpeer₁, hslot, -⟩ := hown d' hd'
    rw [hpeer'] at hpeer₁
    obtain rfl := Option.some.inj hpeer₁
    exact (h.newest _ e' hslot).2
  · intro hlast d' hd'
    rw [hd] at hd'
    obtain rfl := Option.some.inj hd'
    have hslot := h.paired st.node d e (lastSatName cfg st) hlink hmem hnode (hlast d e hd hpeer)
    obtain ⟨oldId, w', hrun, hdown, -, -⟩ := detachLast_eq h hhandover hd hmem hnode hslot
    refine ⟨e, oldId, w', hpeer, hslot, hrun, hdown, ?_⟩
    intro other hother x hx
    obtain ⟨e₁, hmem₁, -, hdface, heface⟩ := h.link st.node d hlink
    rw [← h.channel_unique hmem hmem₁] at heface
    have hothers : (other.node, some x) ∈ done.map linkOf ++ todo.map linkOf := by
      rw [← List.map_append, ← hx]
      exact List.mem_map_of_mem hother
    obtain ⟨y, hy, -⟩ := h.link other.node x (mem_of_others hothers)
    exact ⟨y, peer_of_channel h.installed hy, linkDown_kept_other h hdown hd hmem hdface heface hothers hy⟩

theorem AttachPrefix_sameLinks {satN : NodeId} {sat : Satellite} {net net' : Network}
    (hrun : AttachPrefix satN sat st net = .ok net') : SameLinks net net' := by
  unfold AttachPrefix at hrun
  generalize st.prefixes = prefixes at hrun
  induction prefixes generalizing net with
  | nil =>
    cases hrun
    exact SameLinks.of_faces rfl rfl rfl rfl
  | cons p prefixes ih =>
    rw [List.foldlM_cons] at hrun
    obtain ⟨net₁, hstep, hrun⟩ := ok_of_bind hrun
    obtain ⟨face, -, hstep⟩ := ok_of_bind hstep
    cases hstep
    have hfirst : SameLinks net (net.AddRoute satN p face.id 1) := SameLinks.of_faces rfl rfl rfl rfl
    exact hfirst.trans (ih hrun)

theorem connect_links {stN satN : NodeId} {net net' : Network} {devices : NetDevice × NetDevice}
    (h : Installed net) (hrun : connect stN satN net = .ok (devices, net')) :
    Installed net' ∧ (∀ x, FaceExists net x → FaceExists net' x) ∧ FaceExists net' devices.1 ∧
      FaceExists net' devices.2 := by
  obtain ⟨stFace, -, hrun⟩ := ok_of_bind hrun
  obtain ⟨satFace, -, hrun⟩ := ok_of_bind hrun
  cases hrun
  let d : NetDevice := ⟨net.nextAddress, stN⟩
  let e : NetDevice := ⟨net.nextAddress + 1, satN⟩
  let net₁ := (net.Install stN satN).2
  let net₂ := net₁.createAndRegisterFace stN d
  let net₃ := net₂.createAndRegisterFace satN e
  have h₁ : Installed net₁ := install_installed h stN satN
  have hroute : ∀ (net : Network) n p f m, SameLinks net (net.AddRoute n p f m) :=
    fun _ _ _ _ _ => SameLinks.of_faces rfl rfl rfl rfl
  have h₂ : Installed net₂ := (hroute _ _ _ _ _).installed (addFace_installed h₁ stN (Nat.lt_add_of_pos_right (by decide)))
  have h₃ : Installed net₃ := (hroute _ _ _ _ _).installed (addFace_installed h₂ satN (Nat.lt_succ_self _))
  have hd₂ : FaceExists net₂ d := (hroute _ _ _ _ _).faceExists (addFace_own stN ⟨_, d, false, false, none⟩ rfl)
  have hd₃ : FaceExists net₃ d := (hroute _ _ _ _ _).faceExists (addFace_faceExists satN _ hd₂)
  have he₃ : FaceExists net₃ e := (hroute _ _ _ _ _).faceExists (addFace_own satN ⟨_, e, false, false, none⟩ rfl)
  have hold : ∀ x, FaceExists net x → FaceExists net₃ x := fun x hx =>
    (hroute _ _ _ _ _).faceExists (addFace_faceExists satN _
      ((hroute _ _ _ _ _).faceExists (addFace_faceExists stN _ hx)))
  let mark : Face → Face := fun f => { f with m_isUserLink := true, m_id := some (d.address, e.address) }
  have hmarks : ∀ (net : Network) n d' id face, SameLinks net ((net.modifyFace n d' mark).AddUserLink n id face) := by
    intro net n d' id face
    have hmark : SameLinks net (net.modifyFace n d' mark) :=
      modifyFace_sameLinks net n d' (fun _ => rfl) (fun _ => rfl)
    exact hmark.trans (SameLinks.of_faces rfl rfl rfl rfl)
  have hlast := (hmarks net₃ stN d (d.address, e.address) stFace.id).trans
    (hmarks _ satN e (d.address, e.address) satFace.id)
  exact ⟨hlast.installed h₃, fun x hx => hlast.faceExists (hold x hx), hlast.faceExists hd₃, hlast.faceExists he₃⟩

theorem attach_links {name : String} {oldId : Option UserLinkId} (h : Linked w (done ++ linkOf st :: todo))
    (hrun : attach cfg name oldId st w = .ok (st', w')) :
    ∃ d, st' = { st with p2pDevice := some d } ∧ Linked w' (done ++ linkOf st' :: todo) ∧ Leads w' d name ∧
      Extends w w' := by
  obtain ⟨satN, hsatN, hrun⟩ := ok_of_bind hrun
  obtain ⟨⟨devices, net⟩, hconnect, hrun⟩ := ok_of_bind hrun
  obtain ⟨net', hattached, hrun⟩ := ok_of_bind hrun
  cases hrun
  rw [satelliteAt_net] at hconnect
  have hnode : nodeOf w name = some satN := by
    rw [← satelliteAt_node]
    exact deref_ok hsatN
  obtain ⟨hdev, hc, -⟩ := connect_spec hconnect
  obtain ⟨hinstalled, hfaces, hdface, heface⟩ := connect_links h.installed hconnect
  have hprefixes := AttachPrefix_sameLinks hattached
  have hchannels : net'.channels = w.net.channels ++ [devices] := hprefixes.channels.trans hc
  let sat : Satellite := { (w.satelliteAt name).1 with p2pDevice := some devices.2 }
  let w₁ : World := { (w.satelliteAt name).2 with net := net' }
  have hnodes : nodeOf (w₁.setSatellite name sat) = nodeOf w := by
    have hgrow : Grows w₁ (w₁.setSatellite name sat) := grows_setSatellite name
      ((satelliteAt_node w name).trans (congrFun (nodeOf_satelliteAt w name) name).symm)
    exact hgrow.nodes.trans (nodeOf_satelliteAt w name)
  have hdevices : deviceOf (w₁.setSatellite name sat) = Function.update (deviceOf w) name (some devices.2) := by
    rw [deviceOf_setSatellite]
    exact congrArg (fun f => Function.update f name (some devices.2)) (deviceOf_satelliteAt w name)
  have henode : nodeOf w name = some devices.2.node := by
    rw [hnode, hdev]
  refine ⟨devices.1, rfl, ?_, ?_, ?_⟩
  · refine Linked.up (d := devices.1) (e := devices.2) h (hprefixes.installed hinstalled) hchannels
      (fun x hx => hprefixes.faceExists (hfaces x hx)) (hprefixes.faceExists hdface) (hprefixes.faceExists heface)
      ?_ ?_ ?_ henode hnodes hdevices
    · rw [hdev]
    · rw [hdev]
      exact Nat.le_succ _
    · rw [hdev]
      rfl
  · refine ⟨devices.2, ?_, ?_⟩
    · change devices ∈ net'.channels
      rw [hchannels]
      exact List.mem_append_right _ List.mem_cons_self
    · exact (congrFun hnodes name).trans henode
  · refine ⟨?_, hnodes⟩
    intro c hmem
    change c ∈ net'.channels
    rw [hchannels]
    exact List.mem_append_left _ hmem

theorem detachLast_links {oldId : Option UserLinkId} {curTime : ℤ} (h : Linked w (done ++ linkOf st :: todo))
    (hhost : st.isHost = true) (hready : Ready cfg w curTime st)
    (hlast : st.handover = true → st.p2pDevice.isSome = true → LastAttached st w)
    (hrun : detachLast cfg st w = .ok (oldId, st', w')) : Linked w' (done ++ linkOf st' :: todo) ∧ Extends w w' := by
  by_cases hhandover : st.handover = true
  · cases hd : st.p2pDevice with
    | none =>
      unfold detachLast at hrun
      rw [if_pos hhandover, hd] at hrun
      cases hrun
      exact ⟨h, Extends.refl w⟩
    | some d =>
      obtain ⟨e, hmem, hnode⟩ := (hready hhost d hd).1 hhandover
      have hlink : (st.node, some d) ∈ done ++ linkOf st :: todo := by
        rw [← hd]
        exact List.mem_append_right _ List.mem_cons_self
      have hnewest := hlast hhandover (by rw [hd]; rfl) d e hd (peer_of_channel h.installed hmem)
      have hslot := h.paired st.node d e (lastSatName cfg st) hlink hmem hnode hnewest
      obtain ⟨oldId', w'', hrun', hdown, hnodes, hdevices⟩ := detachLast_eq h hhandover hd hmem hnode hslot
      rw [hrun] at hrun'
      cases hrun'
      have hdevice : (linkOf st).2 = some d := hd
      refine ⟨h.down hdevice hmem hslot hdown.sameLinks hnodes hdevices, ?_, hnodes⟩
      intro c hc
      rw [hdown.sameLinks.channels]
      exact hc
  · unfold detachLast at hrun
    rw [if_neg hhandover] at hrun
    cases hrun
    exact ⟨h, Extends.refl w⟩

theorem moveUserLink_links {curTime : ℤ} (h : Linked w (done ++ linkOf st :: todo)) (hready : Ready cfg w curTime st)
    (hlast : Detaches st → LastAttached st w) (hrun : moveUserLink cfg curTime st w = .ok (st', w')) :
    Linked w' (done ++ linkOf st' :: todo) ∧ Moved cfg w' st' ∧ Extends w w' := by
  unfold moveUserLink at hrun
  split at hrun
  · rename_i hskip
    cases hrun
    refine ⟨h, ?_, Extends.refl w⟩
    intro hhost hidx
    rcases hskip with hno | hpast
    · rw [hhost] at hno
      cases hno
    · exact absurd hidx (not_lt.mpr hpast)
  · rename_i hgo
    rw [not_or, Bool.not_eq_false, not_le] at hgo
    obtain ⟨hhost, hidx⟩ := hgo
    obtain ⟨⟨oldId, st₁, w₁⟩, hdetach, hrun⟩ := ok_of_bind hrun
    obtain ⟨-, hst₁, hnone, hkept⟩ := detachLast_spec hdetach
    obtain ⟨hlinked, hextends⟩ := detachLast_links h hhost hready
      (fun hhandover hdevice => hlast ⟨hhost, hidx, hhandover, hdevice⟩) hdetach
    have hstays : st₁.p2pDevice = none ∨ (st₁ = st ∧ st.handover = false) := by
      cases hh : st.handover with
      | true => exact Or.inl (hnone hh)
      | false => exact Or.inr ⟨hkept hh, rfl⟩
    have hmoved : Moved cfg w₁ st₁ := by
      rcases hstays with hnone | ⟨rfl, hhandover⟩
      · intro _ _ d hd
        rw [hnone] at hd
        cases hd
      · intro _ _ d hd
        exact ((hready hhost d hd).2 hhandover hidx).2.extends hextends
    dsimp only at hrun
    split at hrun
    · cases hrun
      exact ⟨hlinked, hmoved, hextends⟩
    · split at hrun
      · cases hrun
        exact ⟨hlinked, hmoved, hextends⟩
      · obtain ⟨d, hst', hlinked', hleads, hextends'⟩ := attach_links hlinked hrun
        refine ⟨hlinked', ?_, hextends.trans hextends'⟩
        intro _ _ d' hd'
        rw [hst'] at hd' ⊢
        obtain rfl := Option.some.inj hd'
        exact hleads

theorem predictAttachment_ready {curTime : ℤ} (hmoved : Moved cfg w st) (hpositive : 0 < curTime) :
    Ready cfg w curTime (predictAttachment cfg curTime st) := by
  simp only [predictAttachment]
  by_cases hidle : curTime ≤ (st.attachments.getD st.curAttachmentIdx cfg.pastAttachments).1 ∨
      st.attachments.length ≤ st.curAttachmentIdx
  · rw [if_pos hidle]
    intro hhost d hd
    refine ⟨fun hh => absurd hh Bool.false_ne_true, fun _ hidx => ⟨hpositive, ?_⟩⟩
    exact hmoved hhost hidx d hd
  · rw [if_neg hidle]
    rw [not_or, not_le, not_le] at hidle
    obtain ⟨-, hidx⟩ := hidle
    have hfirst : st.attachments.getD st.curAttachmentIdx cfg.pastAttachments = st.attachments[st.curAttachmentIdx] :=
      List.getD_eq_getElem _ _ hidx
    rw [hfirst]
    rcases Timeline.seek_spec curTime id st.attachments st.curAttachmentIdx hidx with
      ⟨j, hj, -, hseek, hle, -⟩ | ⟨hseek, hall⟩
    · simp only [hseek]
      split_ifs with hlt hne heq
      · intro hhost d hd
        exact ⟨fun _ => hmoved hhost hidx d hd, fun hh => absurd hh.symm Bool.false_ne_true⟩
      · intro hhost d hd
        refine ⟨fun hh => absurd hh Bool.false_ne_true, fun _ _ => ⟨hpositive, ?_⟩⟩
        have hcur : j - 1 = st.curAttachmentIdx := not_not.mp hne
        simp only [hcur]
        exact hmoved hhost hidx d hd
      · intro hhost d hd
        exact ⟨fun _ => hmoved hhost hidx d hd, fun hh => absurd hh.symm Bool.false_ne_true⟩
      · exact absurd (lt_or_eq_of_le hle) (not_or.mpr ⟨hlt, heq⟩)
    · have hlast := hall (st.attachments.length - 1) (by omega) (by omega)
      simp only [hseek, id]
      rw [if_neg (not_lt.mpr hlast.le), if_neg (ne_of_gt hlast)]
      intro hhost d hd
      exact ⟨fun hh => absurd hh Bool.false_ne_true, fun _ hpast => absurd hpast (lt_irrefl _)⟩

end Moving

section Ticks

variable {cfg : Config} {params params' : UpdateParams} {sim sim' : Sim} {w w' : World}

/-- Only routes, marks of faces, and satellites without a node have changed. -/
structure Unmoved (w w' : World) : Prop where
  net : SameLinks w.net w'.net
  nodes : nodeOf w' = nodeOf w
  devices : deviceOf w' = deviceOf w

theorem Unmoved.refl (w : World) : Unmoved w w := ⟨SameLinks.of_faces rfl rfl rfl rfl, rfl, rfl⟩

theorem Unmoved.trans {w'' : World} (h : Unmoved w w') (h' : Unmoved w' w'') : Unmoved w w'' :=
  ⟨h.net.trans h'.net, h'.nodes.trans h.nodes, h'.devices.trans h.devices⟩

theorem Unmoved.extends (h : Unmoved w w') : Extends w w' := by
  refine ⟨?_, h.nodes⟩
  intro c hc
  rw [h.net.channels]
  exact hc

theorem RoutesSet.unmoved {v : Option ℤ} {prefixes : List String} {through : NodeId → FaceId → Prop}
    (h : RoutesSet v prefixes through w w') : Unmoved w w' := by
  refine ⟨SameLinks.of_faces ?_ ?_ ?_ ?_, h.nodes, h.devices⟩
  all_goals rw [h.net]

theorem Quiet.unmoved {p : String} (h : Quiet p w w') : Unmoved w w' := by
  refine ⟨SameLinks.of_faces ?_ ?_ ?_ ?_, h.nodes, h.devices⟩
  all_goals rw [h.net]

theorem updatePairRoutes_unmoved {curTime : ℤ} {prefixes : List String} {table table' : List (ℤ × List String)}
    (hrun : updatePairRoutes cfg curTime prefixes table w = .ok (table', w')) : Unmoved w w' := by
  rcases updatePairRoutes_cases hrun with rfl | ⟨links, w₁, rfl | ⟨old, hremove⟩, happly⟩
  · exact Unmoved.refl _
  · exact RoutesSet.unmoved (changeRoutes_spec addRoute_sets (ApplyRoutes_ok happly).2)
  · have hset := changeRoutes_spec removeRoute_sets (RemoveRoutes_ok hremove).2
    have hset' := changeRoutes_spec addRoute_sets (ApplyRoutes_ok happly).2
    exact (RoutesSet.unmoved hset).trans (RoutesSet.unmoved hset')

theorem updateProducerRoutes_unmoved {curTime : ℤ} {prefixes : List String} {table table' : List (ℤ × RouteDelta)}
    (hrun : updateProducerRoutes cfg curTime prefixes table w = .ok (table', w')) : Unmoved w w' := by
  rcases updateProducerRoutes_cases hrun with rfl | ⟨routes, w₁, hadd, hremove⟩
  · exact Unmoved.refl _
  · have hset := changeRoutes_spec addRoute_sets hadd
    have hset' := changeRoutes_spec removeRoute_sets hremove
    exact (RoutesSet.unmoved hset).trans (RoutesSet.unmoved hset')

theorem moveUserLinks_links {curTime : ℤ} {earlier later done : List Station}
    (h : Linked w ((earlier ++ later).map linkOf)) (hready : ∀ st ∈ earlier ++ later, Ready cfg w curTime st)
    (hlast : ∀ before st after done w', earlier = before ++ st :: after →
      forEach (moveUserLink cfg curTime) before w = .ok (done, w') →
      Linked w' (done.map linkOf ++ linkOf st :: (after ++ later).map linkOf) → Ready cfg w' curTime st →
      Detaches st → LastAttached st w')
    (hrun : forEach (moveUserLink cfg curTime) earlier w = .ok (done, w')) :
    Linked w' (done.map linkOf ++ later.map linkOf) ∧ (∀ st ∈ done, Moved cfg w' st) ∧
      ∀ st ∈ later, Ready cfg w' curTime st := by
  induction earlier using List.reverseRecOn generalizing later done w' with
  | nil =>
    cases hrun
    exact ⟨h, fun st hst => (List.not_mem_nil hst).elim, hready⟩
  | append_singleton earlier st ih =>
    obtain ⟨done₁, w₁, m, hearlier, hone, rfl⟩ := forEach_append hrun
    obtain ⟨st', m', w₂, hpass, hnil, rfl⟩ := forEach_cons hone
    cases hnil
    rw [List.append_assoc] at h hready
    have hbefore : ∀ before x after done w', earlier = before ++ x :: after →
        forEach (moveUserLink cfg curTime) before w = .ok (done, w') →
        Linked w' (done.map linkOf ++ linkOf x :: (after ++ st :: later).map linkOf) → Ready cfg w' curTime x →
        Detaches x → LastAttached x w' := by
      intro before x after done' w' hsplit
      rw [hsplit] at hlast
      have hthis := hlast before x (after ++ [st]) done' w' (by rw [List.append_assoc]; rfl)
      rw [List.append_assoc] at hthis
      exact hthis
    obtain ⟨hlinked, hmoved, hready₁⟩ := ih h hready hbefore hearlier
    have hready_st := hready₁ st List.mem_cons_self
    obtain ⟨hlinked', hmoved', hextends⟩ := moveUserLink_links hlinked hready_st
      (hlast earlier st [] done₁ w₁ rfl hearlier hlinked hready_st) hpass
    refine ⟨?_, ?_, ?_⟩
    · rw [List.map_append, List.append_assoc]
      exact hlinked'
    · intro x hx
      rcases List.mem_append.mp hx with hx | hx
      · exact (hmoved x hx).extends hextends
      · rw [List.mem_singleton.mp hx]
        exact hmoved'
    · intro x hx
      exact (hready₁ x (List.mem_cons_of_mem _ hx)).extends hextends

/-- The links before one call of `Update`, and what its predictions for the
next call rest on. -/
structure Prepared (cfg : Config) (params : UpdateParams) (sim : Sim) : Prop where
  nonneg : 0 ≤ params.curTime
  interval : 0 < params.interval
  linked : Linked sim.world (sim.stations.map linkOf)
  ready : ∀ st ∈ sim.stations, Ready cfg sim.world params.curTime st

/-- In this call every station that leaves a satellite is the last that has
attached to it. -/
def LeavesLast (cfg : Config) (params : UpdateParams) (sim : Sim) : Prop :=
  ∀ before st after done w, sim.stations = before ++ st :: after →
    forEach (moveUserLink cfg params.curTime) before sim.world = .ok (done, w) →
    Linked w (done.map linkOf ++ linkOf st :: after.map linkOf) → Ready cfg w params.curTime st →
    Detaches st → LastAttached st w

theorem Update_prepared (h : Prepared cfg params sim) (hlast : LeavesLast cfg params sim)
    (hrun : Update cfg params sim = .ok (params', sim')) : Prepared cfg params' sim' := by
  obtain ⟨stations, w₁, routes, w₂, producerRoutes, w₃, stations', w₄, hmove, hpairs, hproducers, hpredict, rfl, rfl⟩ :=
    Update_ok hrun
  have hpos : 0 < params.curTime + params.interval := by
    have := h.nonneg
    have := h.interval
    omega
  have hlinked₀ : Linked sim.world ((sim.stations ++ []).map linkOf) := by
    rw [List.append_nil]
    exact h.linked
  have hlast' : ∀ before st after done w, sim.stations = before ++ st :: after →
      forEach (moveUserLink cfg params.curTime) before sim.world = .ok (done, w) →
      Linked w (done.map linkOf ++ linkOf st :: (after ++ []).map linkOf) → Ready cfg w params.curTime st →
      Detaches st → LastAttached st w := by
    intro before st after done w hsplit hbefore hlinked
    rw [List.append_nil] at hlinked
    exact hlast before st after done w hsplit hbefore hlinked
  obtain ⟨hlinked, hmoved, -⟩ := moveUserLinks_links hlinked₀ (by rw [List.append_nil]; exact h.ready) hlast' hmove
  rw [List.map_nil, List.append_nil] at hlinked
  have hroutes : Unmoved w₁ w₂ := by
    refine forEach_preserves Unmoved.refl (fun _ _ _ => Unmoved.trans) ?_ hpairs
    intro item _ w item' w' hstep
    obtain ⟨⟨table, w''⟩, hpass, heq⟩ := ok_of_bind hstep
    cases heq
    exact updatePairRoutes_unmoved hpass
  have hproducerRoutes : Unmoved w₂ w₃ := by
    refine forEach_preserves Unmoved.refl (fun _ _ _ => Unmoved.trans) ?_ hproducers
    intro item _ w item' w' hstep
    obtain ⟨⟨table, w''⟩, hpass, heq⟩ := ok_of_bind hstep
    cases heq
    exact updateProducerRoutes_unmoved hpass
  have hannounced : Unmoved w₃ w₄ := by
    refine forEach_preserves Unmoved.refl (fun _ _ _ => Unmoved.trans) ?_ hpredict
    intro st _ w st' w' hstep
    exact Quiet.unmoved (RouteTables.updateAttachment_quiet (p := "") hstep).1
  have hall : Unmoved w₁ w₄ := (hroutes.trans hproducerRoutes).trans hannounced
  have hlinks : stations'.map linkOf = stations.map linkOf := by
    refine forEach_map ?_ hpredict
    intro st w st' w' hstep
    unfold updateAttachment at hstep
    split at hstep
    · cases hstep
      rfl
    · cases hstep
      obtain ⟨cur, last, handover, heq⟩ :=
        predictAttachment_attachments cfg (params.curTime + params.interval) st
      rw [heq]
      rfl
  refine ⟨hpos.le, h.interval, ?_, ?_⟩
  · change Linked w₄ (stations'.map linkOf)
    rw [hlinks]
    exact hlinked.same hall.net hall.nodes hall.devices
  · intro st' hst'
    obtain ⟨st, hst, w, w', hstep⟩ := forEach_mem hpredict hst'
    have hmoved' : Moved cfg w₄ st := (hmoved st hst).extends hall.extends
    unfold updateAttachment at hstep
    split at hstep
    · rename_i hnohost
      cases hstep
      intro hhost
      rw [hhost] at hnohost
      cases hnohost
    · cases hstep
      exact predictAttachment_ready hmoved' hpos

theorem before_prepared (h : Prepared cfg params sim)
    (hlast : ∀ k params' sim', before cfg params sim k = .ok (params', sim') → LeavesLast cfg params' sim') (k : ℕ)
    (hrun : before cfg params sim k = .ok (params', sim')) : Prepared cfg params' sim' := by
  induction k generalizing params' sim' with
  | zero =>
    cases hrun
    exact h
  | succ k ih =>
    have hstep : ∃ params₁ sim₁, before cfg params sim k = .ok (params₁, sim₁) ∧
        Update cfg params₁ sim₁ = .ok (params', sim') := by
      cases k with
      | zero => exact ⟨params, sim, rfl, hrun⟩
      | succ k =>
        obtain ⟨⟨params₁, sim₁⟩, hrun₁, hupdate⟩ := ok_of_bind hrun
        exact ⟨params₁, sim₁, hrun₁, hupdate⟩
    obtain ⟨params₁, sim₁, hrun₁, hupdate⟩ := hstep
    exact Update_prepared (ih hrun₁) (hlast k params₁ sim₁ hrun₁) hupdate

theorem Starts.prepared (h : Starts sim) (hzero : params.curTime = 0) (hinterval : 0 < params.interval) :
    Prepared cfg params sim := by
  have hnone : ∀ link ∈ sim.stations.map linkOf, link.2 = none := by
    intro link hlink
    obtain ⟨st, hst, rfl⟩ := List.mem_map.mp hlink
    exact (h.stations st hst).1
  refine ⟨hzero.ge, hinterval, ⟨h.installed, h.distinctNodes, ?_, ?_, ?_, ?_⟩, ?_⟩
  · intro n d hd
    cases hnone _ hd
  · refine List.pairwise_of_forall_mem_list ?_
    intro link hlink link' _ d hd
    rw [hnone link hlink] at hd
    cases hd
  · intro name e he
    rw [h.devices] at he
    cases he
  · intro n d e name hd
    cases hnone _ hd
  · intro st hst _ d hd
    rw [(h.stations st hst).1] at hd
    cases hd

theorem MovedAt.prepared (hzero : params.curTime = 0) (hinterval : 0 < params.interval) (hstart : Starts sim)
    (hlast : ∀ k done st todo w curTime, MovedAt cfg params sim k done st todo w →
      Linked w (done.map linkOf ++ linkOf st :: todo.map linkOf) → Ready cfg w curTime st → Detaches st →
      LastAttached st w)
    {k : ℕ} {done todo : List Station} {st : Station} (hmoved : MovedAt cfg params sim k done st todo w) :
    Linked w (done.map linkOf ++ linkOf st :: todo.map linkOf) ∧ ∃ curTime, Ready cfg w curTime st := by
  have hleaves : ∀ k params' sim', before cfg params sim k = .ok (params', sim') →
      LeavesLast cfg params' sim' := by
    intro k params' sim' hrun earlier st after done w hsplit hearlier hlinked hready
    exact hlast k done st after w params'.curTime ⟨params', sim', earlier, hrun, hsplit, hearlier⟩ hlinked hready
  obtain ⟨params', sim', earlier, hrun, hsplit, hearlier⟩ := hmoved
  have hprepared := before_prepared (hstart.prepared hzero hinterval) hleaves k hrun
  have hlinked₀ := hprepared.linked
  have hready₀ := hprepared.ready
  rw [hsplit] at hlinked₀ hready₀
  have hbefore : ∀ before x after done w, earlier = before ++ x :: after →
      forEach (moveUserLink cfg params'.curTime) before sim'.world = .ok (done, w) →
      Linked w (done.map linkOf ++ linkOf x :: (after ++ st :: todo).map linkOf) → Ready cfg w params'.curTime x →
      Detaches x → LastAttached x w := by
    intro before x after done' w' hsplit' hpass
    refine hleaves k params' sim' hrun before x (after ++ st :: todo) done' w' ?_ hpass
    rw [hsplit, hsplit', List.append_assoc]
    rfl
  obtain ⟨hlinked, -, hready⟩ := moveUserLinks_links hlinked₀ hready₀ hbefore hearlier
  exact ⟨hlinked, params'.curTime, hready st List.mem_cons_self⟩

end Ticks

/-- In every run each station takes down its own link, and none of another
station, just when each station that leaves a satellite is the last that has
attached to it. -/
theorem detaches_own_link_iff (cfg : Config) (params : UpdateParams) (sim : Sim) (hzero : params.curTime = 0)
    (hinterval : 0 < params.interval) (hstart : Starts sim) :
    (∀ k done st todo w, MovedAt cfg params sim k done st todo w → Detaches st →
      DetachesOwnLink cfg (done ++ todo) st w) ↔
    ∀ k done st todo w, MovedAt cfg params sim k done st todo w → Detaches st → LastAttached st w := by
  constructor
  · intro hown k done st todo w hmoved hdetaches
    obtain ⟨hlinked, curTime, hready⟩ := hmoved.prepared hzero hinterval hstart
      (fun k done st todo w curTime hm hl hr hd => (detachesOwnLink_iff hl hr hd).mp (hown k done st todo w hm hd))
    exact (detachesOwnLink_iff hlinked hready hdetaches).mp (hown k done st todo w hmoved hdetaches)
  · intro hlast k done st todo w hmoved hdetaches
    obtain ⟨hlinked, curTime, hready⟩ := hmoved.prepared hzero hinterval hstart
      (fun k done st todo w curTime hm _ _ hd => hlast k done st todo w hm hd)
    exact (detachesOwnLink_iff hlinked hready hdetaches).mpr (hlast k done st todo w hmoved hdetaches)

section SharedSatellite

def sharedStations : List Station :=
  [⟨"city-a", 2, true, .unset, ["/sat/city-a"], none, [(0, "sat-0-0"), (2, "sat-0-1")], 0, 0, false⟩,
    ⟨"city-b", 3, true, .unset, ["/sat/city-b"], none, [(0, "sat-0-0")], 0, 0, false⟩]

def sharedSim : Sim := ⟨lateWorld, sharedStations, [], []⟩

theorem sharedSim_starts : Starts sharedSim where
  installed := ⟨by simp [Fresh, sharedSim, lateWorld], by simp [sharedSim, lateWorld],
    by simp [sharedSim, lateWorld], by simp [sharedSim, lateWorld]⟩
  distinctNodes := lateWorld_distinctNodes
  devices name := by
    simp only [deviceOf, sharedSim, lateWorld]
    split_ifs <;> rfl
  stations := by simp [sharedSim, sharedStations]

theorem detaches_own_link_iff_sharedSim :
    (∀ k done st todo w, MovedAt lateConfig ⟨2, 0, 40⟩ sharedSim k done st todo w → Detaches st →
      DetachesOwnLink lateConfig (done ++ todo) st w) ↔
    ∀ k done st todo w, MovedAt lateConfig ⟨2, 0, 40⟩ sharedSim k done st todo w → Detaches st → LastAttached st w :=
  detaches_own_link_iff lateConfig ⟨2, 0, 40⟩ sharedSim rfl (by decide) sharedSim_starts

/-- The first station leaves at minute 2, when the satellite has the device of
the second station's link. -/
theorem other_link_taken_down : Starts sharedSim ∧
    ∃ st todo w, MovedAt lateConfig ⟨2, 0, 40⟩ sharedSim 1 [] st todo w ∧ Detaches st ∧
      ¬ DetachesOwnLink lateConfig ([] ++ todo) st w := by
  refine ⟨sharedSim_starts, _, _, _, ⟨_, _, [], rfl, rfl, rfl⟩, ⟨rfl, by decide, rfl, rfl⟩, ?_⟩
  intro hown
  obtain ⟨e, oldId, w', hpeer, hdevice, -⟩ := hown _ rfl
  have hpeer' : some (⟨1, 0⟩ : NetDevice) = some e := hpeer
  have hdevice' : some (⟨3, 0⟩ : NetDevice) = some e := hdevice
  rw [← hpeer'] at hdevice'
  revert hdevice'
  decide

end SharedSatellite

end LeoNdn.LinkPairing
