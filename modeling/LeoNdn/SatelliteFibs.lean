import LeoNdn.AttachmentTracking

/-!
The next hops that the loops of `Update` leave in the FIBs of the satellites:
what `ApplyRoutes` and `RemoveRoutes` change, and what attaching and detaching
stations leaves alone.
-/

namespace LeoNdn.SatelliteFibs

open LeoNdn.Loops LeoNdn.SimulatedNetwork LeoNdn.StationUpdate LeoNdn.AttachmentTracking

/-- The face that `FibHelper` finds from one node to another, and its node. -/
def faceBetween (net : Network) (a b : Option NodeId) : Option (NodeId × FaceId) :=
  a.bind (fun n => b.bind (fun m => (net.faceTowards n m).toOption.map (fun face => (n, face.id))))

def linkFace (w : World) (link : String × String) : Option (NodeId × FaceId) :=
  faceBetween w.net (nodeOf w link.1) (nodeOf w link.2)

/-- The first satellite of the link has a next hop for the prefix to the second. -/
def HasRoute (w : World) (namePrefix : String) (link : String × String) : Prop :=
  ∃ n f, linkFace w link = some (n, f) ∧ (w.net.fib n namePrefix f).isSome

instance (w : World) (namePrefix : String) (link : String × String) :
    Decidable (HasRoute w namePrefix link) :=
  decidable_of_iff ((linkFace w link).any (fun e => (w.net.fib e.1 namePrefix e.2).isSome)) (by
    simp [HasRoute, Option.any_eq_true])

def deviceOf (w : World) (name : String) : Option NetDevice := (w.satellites name).bind Satellite.p2pDevice

theorem deviceOf_satelliteAt (w : World) (name : String) :
    deviceOf (w.satelliteAt name).2 = deviceOf w := by
  unfold World.satelliteAt
  split
  · rfl
  · rename_i hnone
    funext name'
    by_cases hname : name' = name
    · subst hname
      simp [deviceOf, hnone]
    · simp [deviceOf, Function.update_of_ne hname]

theorem satelliteAt_device (w : World) (name : String) :
    (w.satelliteAt name).1.p2pDevice = deviceOf w name := by
  rw [← deviceOf_satelliteAt w name, deviceOf, satelliteAt_mem, Option.bind_some]

theorem faceBetween_congr {net net' : Network} (hc : net'.channels = net.channels)
    (hf : net'.faces = net.faces) (a b : Option NodeId) : faceBetween net' a b = faceBetween net a b := by
  simp only [faceBetween, Network.faceTowards, Network.deviceTowards, Network.getFaceByNetDevice, hc, hf]

theorem faceBetween_of_ok {net : Network} {a b : Option NodeId} {n m : NodeId} {face : Face}
    (ha : a = some n) (hb : b = some m) (hface : net.faceTowards n m = .ok face) :
    faceBetween net a b = some (n, face.id) := by
  simp [faceBetween, ha, hb, hface, Except.toOption]

theorem update_nextHop (fib : NodeId → String → FaceId → Option ℤ) (n n' : NodeId) (p p' : String)
    (f f' : FaceId) (v : Option ℤ) :
    Function.update fib n (Function.update (fib n) p (Function.update (fib n p) f v)) n' p' f' =
      if n' = n ∧ p' = p ∧ f' = f then v else fib n' p' f' := by
  by_cases hn : n' = n
  · subst hn
    by_cases hp : p' = p
    · subst hp
      by_cases hf : f' = f
      · subst hf
        simp
      · simp [hf]
    · simp [hp]
  · simp [hn]

/-- The routes for `prefixes` through the faces with `through` are set to `v`,
and nothing else has changed. -/
structure RoutesSet (v : Option ℤ) (prefixes : List String) (through : NodeId → FaceId → Prop)
    (w w' : World) : Prop where
  nodes : nodeOf w' = nodeOf w
  devices : deviceOf w' = deviceOf w
  net : w'.net = { w.net with fib := w'.net.fib }
  set : ∀ n p f, p ∈ prefixes → through n f → w'.net.fib n p f = v
  kept : ∀ n p f, ¬ (p ∈ prefixes ∧ through n f) → w'.net.fib n p f = w.net.fib n p f

theorem RoutesSet.linkFace_eq {v : Option ℤ} {prefixes : List String} {through : NodeId → FaceId → Prop}
    {w w' : World} (h : RoutesSet v prefixes through w w') (link : String × String) :
    linkFace w' link = linkFace w link := by
  unfold linkFace
  rw [h.nodes]
  exact faceBetween_congr (by rw [h.net]) (by rw [h.net]) _ _

section ChangeRoutes

variable {op : Network → NodeId → String → FaceId → Network} {v : Option ℤ}

/-- What `AddRoute` and `RemoveRoute` have in common. -/
structure SetsRoute (op : Network → NodeId → String → FaceId → Network) (v : Option ℤ) : Prop where
  net : ∀ net n p f, op net n p f = { net with fib := (op net n p f).fib }
  fib : ∀ net n n' p p' f f', (op net n p f).fib n' p' f' =
    if n' = n ∧ p' = p ∧ f' = f then v else net.fib n' p' f'

theorem AddRoute_sets (metric : ℤ) : SetsRoute (fun net n p f => net.AddRoute n p f metric) (some metric) :=
  ⟨fun _ _ _ _ => rfl, fun net n n' p p' f f' => update_nextHop net.fib n n' p p' f f' _⟩

theorem addRoute_sets : SetsRoute addRoute (some Network.maxMetric) := AddRoute_sets Network.maxMetric

theorem removeRoute_sets : SetsRoute Network.RemoveRoute none :=
  ⟨fun _ _ _ _ => rfl, fun net n n' p p' f f' => update_nextHop net.fib n n' p p' f f' _⟩

theorem setPrefixes_spec (hop : SetsRoute op v) {sat1 sat2 : Satellite} {prefixes : List String}
    {w w' : World}
    (h : prefixes.foldlM (fun w namePrefix => do
      let node1 ← deref sat1.node
      let node2 ← deref sat2.node
      let face ← w.net.faceTowards node1 node2
      .ok { w with net := op w.net node1 namePrefix face.id }) w = .ok w') :
    RoutesSet v prefixes (fun n f => faceBetween w.net sat1.node sat2.node = some (n, f)) w w' := by
  induction prefixes generalizing w with
  | nil =>
    cases h
    exact ⟨rfl, rfl, rfl, by simp, fun _ _ _ _ => rfl⟩
  | cons namePrefix prefixes ih =>
    rw [List.foldlM_cons] at h
    obtain ⟨w₁, hstep, h⟩ := ok_of_bind h
    obtain ⟨node1, hnode1, hstep⟩ := ok_of_bind hstep
    obtain ⟨node2, hnode2, hstep⟩ := ok_of_bind hstep
    obtain ⟨face, hface, hstep⟩ := ok_of_bind hstep
    cases hstep
    have hbetween := faceBetween_of_ok (deref_ok hnode1) (deref_ok hnode2) hface
    have hnet := hop.net w.net node1 namePrefix face.id
    have hsame := @faceBetween_congr w.net (op w.net node1 namePrefix face.id)
      (by rw [hnet]) (by rw [hnet]) sat1.node sat2.node
    have hrest := ih h
    simp only [hsame] at hrest
    refine ⟨hrest.nodes, hrest.devices, by rw [hrest.net, hnet], ?_, ?_⟩
    · intro n p f hp hthrough
      by_cases hrec : p ∈ prefixes
      · exact hrest.set n p f hrec hthrough
      · obtain rfl : p = namePrefix := by simpa [hrec] using hp
        rw [hrest.kept n p f (by simp [hrec]), hop.fib]
        rw [hbetween] at hthrough
        cases hthrough
        simp
    · intro n p f hout
      rw [hrest.kept n p f (fun hin => hout ⟨List.mem_cons_of_mem _ hin.1, hin.2⟩), hop.fib, if_neg]
      rintro ⟨rfl, rfl, rfl⟩
      exact hout ⟨by simp, hbetween⟩

theorem changeRoutes_spec (hop : SetsRoute op v) {prefixes : List String} {links : List (String × String)}
    {w w' : World} (h : changeRoutes op prefixes links w = .ok w') :
    RoutesSet v prefixes (fun n f => ∃ link ∈ links, linkFace w link = some (n, f)) w w' := by
  induction links generalizing w with
  | nil =>
    cases h
    exact ⟨rfl, rfl, rfl, by simp, fun _ _ _ _ => rfl⟩
  | cons link links ih =>
    unfold changeRoutes at h
    rw [List.foldlM_cons] at h
    obtain ⟨w₁, hstep, h⟩ := ok_of_bind h
    have hfirst := setPrefixes_spec hop hstep
    simp only [satelliteAt_node, satelliteAt_net, nodeOf_satelliteAt] at hfirst
    have hfirst' : RoutesSet v prefixes (fun n f => linkFace w link = some (n, f)) w w₁ := by
      refine ⟨?_, ?_, ?_, hfirst.set, ?_⟩
      · rw [hfirst.nodes, nodeOf_satelliteAt, nodeOf_satelliteAt]
      · rw [hfirst.devices, deviceOf_satelliteAt, deviceOf_satelliteAt]
      · rw [hfirst.net, satelliteAt_net, satelliteAt_net]
      · intro n p f hout
        rw [hfirst.kept n p f hout, satelliteAt_net, satelliteAt_net]
    have hrest := ih h
    simp only [hfirst'.linkFace_eq] at hrest
    refine ⟨hrest.nodes.trans hfirst'.nodes, hrest.devices.trans hfirst'.devices,
      by rw [hrest.net, hfirst'.net], ?_, ?_⟩
    · rintro n p f hp ⟨link', hmem, hthrough⟩
      by_cases hrec : ∃ link ∈ links, linkFace w link = some (n, f)
      · exact hrest.set n p f hp hrec
      · rw [hrest.kept n p f (fun hin => hrec hin.2)]
        rcases List.mem_cons.mp hmem with rfl | hmem
        · exact hfirst'.set n p f hp hthrough
        · exact absurd ⟨link', hmem, hthrough⟩ hrec
    · intro n p f hout
      rw [hrest.kept n p f, hfirst'.kept n p f]
      · exact fun hin => hout ⟨hin.1, link, by simp, hin.2⟩
      · rintro ⟨hp, link', hmem, hthrough⟩
        exact hout ⟨hp, link', List.mem_cons_of_mem _ hmem, hthrough⟩

end ChangeRoutes

section UserLinks

variable {net₀ net net' net'' : Network}

/-- The network `net₀` of inter-satellite links, with user links added to it. -/
structure KeepsISLs (net₀ net : Network) : Prop where
  channels : net₀.channels <+: net.channels
  address : net₀.nextAddress ≤ net.nextAddress
  faceId : ∀ n, net₀.nextFaceId n ≤ net.nextFaceId n
  faces : ∀ n d, d.address < net₀.nextAddress →
    (net.getFaceByNetDevice n (some d)).map Face.id = (net₀.getFaceByNetDevice n (some d)).map Face.id
  userFaces : ∀ n, ∀ f ∈ net.faces n, net₀.nextAddress ≤ f.netDevice.address → net₀.nextFaceId n ≤ f.id

structure UserChange (net₀ net net' : Network) : Prop where
  keeps : KeepsISLs net₀ net'
  fib : ∀ n p f, f < net₀.nextFaceId n → net'.fib n p f = net.fib n p f

theorem UserChange.trans (h : UserChange net₀ net net') (h' : UserChange net₀ net' net'') :
    UserChange net₀ net net'' :=
  ⟨h'.keeps, fun n p f hf => (h'.fib n p f hf).trans (h.fib n p f hf)⟩

theorem UserChange.refl (h : KeepsISLs net₀ net) : UserChange net₀ net net :=
  ⟨h, fun _ _ _ _ => rfl⟩

theorem KeepsISLs.congr (h : KeepsISLs net₀ net) (hc : net'.channels = net.channels)
    (ha : net'.nextAddress = net.nextAddress) (hi : net'.nextFaceId = net.nextFaceId)
    (hf : net'.faces = net.faces) : KeepsISLs net₀ net' := by
  refine ⟨by rw [hc]; exact h.channels, by rw [ha]; exact h.address, by rw [hi]; exact h.faceId, ?_, ?_⟩
  · intro n d hd
    simp only [Network.getFaceByNetDevice, hf]
    exact h.faces n d hd
  · rw [hf]
    exact h.userFaces

theorem setsRoute_userChange {op : Network → NodeId → String → FaceId → Network} {v : Option ℤ}
    (hop : SetsRoute op v) (h : KeepsISLs net₀ net) {n : NodeId} (p : String) {f : FaceId}
    (hf : net₀.nextFaceId n ≤ f) : UserChange net₀ net (op net n p f) := by
  have hnet := hop.net net n p f
  refine ⟨h.congr (by rw [hnet]) (by rw [hnet]) (by rw [hnet]) (by rw [hnet]), ?_⟩
  intro n' p' f' hf'
  rw [hop.fib, if_neg]
  rintro ⟨rfl, -, rfl⟩
  exact absurd hf' (not_lt.mpr hf)

theorem addRoute_userChange (h : KeepsISLs net₀ net) {n : NodeId} (p : String) {f : FaceId} (metric : ℤ)
    (hf : net₀.nextFaceId n ≤ f) : UserChange net₀ net (net.AddRoute n p f metric) :=
  setsRoute_userChange (AddRoute_sets metric) h p hf

theorem modifyFace_userChange (h : KeepsISLs net₀ net) (n : NodeId) (d : NetDevice) {g : Face → Face}
    (hid : ∀ f, (g f).id = f.id) (hdev : ∀ f, (g f).netDevice = f.netDevice) :
    UserChange net₀ net (net.modifyFace n d g) := by
  refine ⟨⟨h.channels, h.address, h.faceId, ?_, ?_⟩, fun _ _ _ _ => rfl⟩
  · intro n' d' hd'
    rw [← h.faces n' d' hd']
    by_cases hn : n' = n
    · subst hn
      have hcomp : ((fun f : Face => decide (f.netDevice = d')) ∘
          fun f => if f.netDevice = d then g f else f) = fun f => decide (f.netDevice = d') := by
        funext f
        simp only [Function.comp]
        split <;> simp [hdev]
      simp only [Network.getFaceByNetDevice, Network.modifyFace, Option.bind_some, Function.update_self,
        List.find?_map, hcomp, Option.map_map]
      congr 1
      funext f
      simp only [Function.comp]
      split <;> simp [hid]
    · simp [Network.getFaceByNetDevice, Network.modifyFace, Function.update_of_ne hn]
  · intro n' f hf
    by_cases hn : n' = n
    · subst hn
      simp only [Network.modifyFace, Function.update_self, List.mem_map] at hf
      obtain ⟨f', hf', rfl⟩ := hf
      have := h.userFaces n' f' hf'
      split <;> simpa [hid, hdev] using this
    · simp only [Network.modifyFace, Function.update_of_ne hn] at hf
      exact h.userFaces n' f hf

theorem addUserLink_userChange (h : KeepsISLs net₀ net) (n : NodeId) (id : UserLinkId) (face : FaceId) :
    UserChange net₀ net (net.AddUserLink n id face) :=
  ⟨h.congr rfl rfl rfl rfl, fun _ _ _ _ => rfl⟩

theorem install_userChange (h : KeepsISLs net₀ net) (a b : NodeId) :
    UserChange net₀ net (net.Install a b).2 := by
  refine ⟨⟨h.channels.trans (List.prefix_append _ _), ?_, h.faceId, h.faces, h.userFaces⟩,
    fun _ _ _ _ => rfl⟩
  have := h.address
  simp only [Network.Install]
  omega

theorem createAndRegisterFace_userChange (h : KeepsISLs net₀ net) (n : NodeId) {d : NetDevice}
    (hd : net₀.nextAddress ≤ d.address) : UserChange net₀ net (net.createAndRegisterFace n d) := by
  have hadd : UserChange net₀ net (net.addFace n { id := net.nextFaceId n, netDevice := d }) := by
    refine ⟨⟨h.channels, h.address, ?_, ?_, ?_⟩, fun _ _ _ _ => rfl⟩
    · intro n'
      have := h.faceId n'
      simp only [Network.addFace, Function.update_apply]
      split
      · rename_i hn
        subst hn
        exact this.trans (Nat.le_succ _)
      · exact this
    · intro n' d' hd'
      rw [← h.faces n' d' hd']
      have hne : d ≠ d' := by rintro rfl; omega
      by_cases hn : n' = n
      · subst hn
        simp [Network.getFaceByNetDevice, Network.addFace, List.find?_append, hne]
      · simp [Network.getFaceByNetDevice, Network.addFace, Function.update_of_ne hn]
    · intro n' f hf
      by_cases hn : n' = n
      · subst hn
        simp only [Network.addFace, Function.update_self, List.mem_append, List.mem_singleton] at hf
        rcases hf with hf | rfl
        · exact h.userFaces n' f hf
        · exact fun _ => h.faceId n'
      · simp only [Network.addFace, Function.update_of_ne hn] at hf
        exact h.userFaces n' f hf
  exact hadd.trans (addRoute_userChange hadd.keeps _ _ (h.faceId n))

def UserDevice (net₀ : Network) (d : Option NetDevice) : Prop :=
  ∀ d', d = some d' → net₀.nextAddress ≤ d'.address

theorem KeepsISLs.userFace_id (h : KeepsISLs net₀ net) {n : NodeId} {d : Option NetDevice} {face : Face}
    (hd : UserDevice net₀ d) (hface : net.getFaceByNetDevice n d = some face) :
    net₀.nextFaceId n ≤ face.id := by
  obtain ⟨d', rfl, hfind⟩ := Option.bind_eq_some_iff.mp hface
  have hdev := List.find?_some hfind
  apply h.userFaces n face (List.mem_of_find?_eq_some hfind)
  rw [of_decide_eq_true hdev]
  exact hd d' rfl

theorem removeRoutes_userChange (h : KeepsISLs net₀ net) {n : NodeId} (prefixes : List String) {f : FaceId}
    (hf : net₀.nextFaceId n ≤ f) :
    UserChange net₀ net (prefixes.foldl (fun net namePrefix => net.RemoveRoute n namePrefix f) net) := by
  induction prefixes generalizing net with
  | nil => exact UserChange.refl h
  | cons p prefixes ih =>
    have hfirst := setsRoute_userChange removeRoute_sets h p hf
    exact hfirst.trans (ih hfirst.keeps)

theorem DetachPrefix_userChange (h : KeepsISLs net₀ net) {st : Station} {sat : Satellite}
    (hst : UserDevice net₀ st.p2pDevice) (hsat : UserDevice net₀ sat.p2pDevice)
    (hrun : DetachPrefix st sat net = .ok net') : UserChange net₀ net net' := by
  obtain ⟨stFace, hstFace, hrun⟩ := ok_of_bind hrun
  obtain ⟨satN, -, hrun⟩ := ok_of_bind hrun
  obtain ⟨satFace, hsatFace, hrun⟩ := ok_of_bind hrun
  cases hrun
  have h₁ := modifyFace_userChange h st.node stFace.netDevice (g := fun f => { f with m_isGone := true })
    (fun _ => rfl) (fun _ => rfl)
  have h₂ := h₁.trans (setsRoute_userChange removeRoute_sets h₁.keeps "/"
    (h.userFace_id hst (deref_ok hstFace)))
  have hid := h₂.keeps.userFace_id hsat (deref_ok hsatFace)
  have h₃ := h₂.trans (modifyFace_userChange h₂.keeps satN satFace.netDevice
    (g := fun f => { f with m_isGone := true }) (fun _ => rfl) (fun _ => rfl))
  have h₄ := h₃.trans (setsRoute_userChange removeRoute_sets h₃.keeps "/" hid)
  exact h₄.trans (removeRoutes_userChange h₄.keeps st.prefixes hid)

theorem AttachPrefix_userChange (h : KeepsISLs net₀ net) {satN : NodeId} {sat : Satellite} {st : Station}
    (hsat : UserDevice net₀ sat.p2pDevice) (hrun : AttachPrefix satN sat st net = .ok net') :
    UserChange net₀ net net' := by
  unfold AttachPrefix at hrun
  generalize st.prefixes = prefixes at hrun
  induction prefixes generalizing net with
  | nil =>
    cases hrun
    exact UserChange.refl h
  | cons p prefixes ih =>
    rw [List.foldlM_cons] at hrun
    obtain ⟨net₁, hstep, hrun⟩ := ok_of_bind hrun
    obtain ⟨face, hface, hstep⟩ := ok_of_bind hstep
    cases hstep
    have hfirst := addRoute_userChange h p 1 (h.userFace_id hsat (deref_ok hface))
    exact hfirst.trans (ih hfirst.keeps hrun)

theorem connect_userChange (h : KeepsISLs net₀ net) {stN satN : NodeId} {devices : NetDevice × NetDevice}
    (hrun : connect stN satN net = .ok (devices, net')) :
    UserChange net₀ net net' ∧ UserDevice net₀ (some devices.1) ∧ UserDevice net₀ (some devices.2) := by
  obtain ⟨stFace, -, hrun⟩ := ok_of_bind hrun
  obtain ⟨satFace, -, hrun⟩ := ok_of_bind hrun
  cases hrun
  have haddr := h.address
  have h₁ := install_userChange h stN satN
  have h₂ := h₁.trans (createAndRegisterFace_userChange h₁.keeps stN (d := ⟨net.nextAddress, stN⟩) haddr)
  have h₃ := h₂.trans (createAndRegisterFace_userChange h₂.keeps satN (d := ⟨net.nextAddress + 1, satN⟩)
    (haddr.trans (Nat.le_succ _)))
  have h₄ := h₃.trans (modifyFace_userChange h₃.keeps stN ⟨net.nextAddress, stN⟩
    (g := fun f => { f with m_isUserLink := true, m_id := some (net.nextAddress, net.nextAddress + 1) })
    (fun _ => rfl) (fun _ => rfl))
  have h₅ := h₄.trans (addUserLink_userChange h₄.keeps stN (net.nextAddress, net.nextAddress + 1) stFace.id)
  have h₆ := h₅.trans (modifyFace_userChange h₅.keeps satN ⟨net.nextAddress + 1, satN⟩
    (g := fun f => { f with m_isUserLink := true, m_id := some (net.nextAddress, net.nextAddress + 1) })
    (fun _ => rfl) (fun _ => rfl))
  refine ⟨h₆.trans (addUserLink_userChange h₆.keeps satN _ _), ?_, ?_⟩
  · rintro d ⟨rfl⟩
    exact haddr
  · rintro d ⟨rfl⟩
    exact haddr.trans (Nat.le_succ _)

def UserDevices (net₀ : Network) (w : World) : Prop := ∀ name, UserDevice net₀ (deviceOf w name)

theorem setSatellite_userDevices {w : World} (h : UserDevices net₀ w) {name : String} {sat : Satellite}
    (hsat : UserDevice net₀ sat.p2pDevice) : UserDevices net₀ (w.setSatellite name sat) := by
  intro name'
  by_cases hname : name' = name
  · subst hname
    simpa [deviceOf, World.setSatellite] using hsat
  · simpa [deviceOf, World.setSatellite, Function.update_of_ne hname] using h name'

theorem satelliteAt_userDevices {w : World} (h : UserDevices net₀ w) (name : String) :
    UserDevices net₀ (w.satelliteAt name).2 := by
  unfold UserDevices
  rw [deviceOf_satelliteAt]
  exact h

theorem detachLast_userChange {cfg : Config} {st st' : Station} {w w' : World}
    {oldId : Option UserLinkId} (h : KeepsISLs net₀ w.net) (hsat : UserDevices net₀ w)
    (hst : UserDevice net₀ st.p2pDevice) (hrun : detachLast cfg st w = .ok (oldId, st', w')) :
    UserChange net₀ w.net w'.net ∧ UserDevices net₀ w' ∧ UserDevice net₀ st'.p2pDevice := by
  unfold detachLast at hrun
  split at hrun
  · split at hrun
    · cases hrun
      exact ⟨UserChange.refl h, hsat, hst⟩
    · obtain ⟨face, -, hrun⟩ := ok_of_bind hrun
      obtain ⟨net, hnet, hrun⟩ := ok_of_bind hrun
      cases hrun
      rw [satelliteAt_net] at hnet
      refine ⟨?_, ?_, ?_⟩
      · apply DetachPrefix_userChange h hst _ hnet
        rw [satelliteAt_device]
        exact hsat _
      · apply setSatellite_userDevices
        · exact satelliteAt_userDevices hsat _
        · exact fun d hd => by cases hd
      · exact fun d hd => by cases hd
  · cases hrun
    exact ⟨UserChange.refl h, hsat, hst⟩

theorem attach_userChange {cfg : Config} {name : String} {oldId : Option UserLinkId} {st st' : Station}
    {w w' : World} (h : KeepsISLs net₀ w.net) (hsat : UserDevices net₀ w)
    (hrun : attach cfg name oldId st w = .ok (st', w')) :
    UserChange net₀ w.net w'.net ∧ UserDevices net₀ w' ∧ UserDevice net₀ st'.p2pDevice := by
  obtain ⟨satN, -, hrun⟩ := ok_of_bind hrun
  obtain ⟨⟨devices, net⟩, hconnect, hrun⟩ := ok_of_bind hrun
  obtain ⟨net', hattached, hrun⟩ := ok_of_bind hrun
  cases hrun
  rw [satelliteAt_net] at hconnect
  obtain ⟨hchange, hdev1, hdev2⟩ := connect_userChange h hconnect
  refine ⟨hchange.trans (AttachPrefix_userChange hchange.keeps hdev2 hattached), ?_, hdev1⟩
  exact setSatellite_userDevices (w := { (w.satelliteAt name).2 with net := net' })
    (satelliteAt_userDevices hsat name) hdev2

theorem moveUserLink_userChange {cfg : Config} {curTime : ℤ} {st st' : Station} {w w' : World}
    (h : KeepsISLs net₀ w.net) (hsat : UserDevices net₀ w) (hst : UserDevice net₀ st.p2pDevice)
    (hrun : moveUserLink cfg curTime st w = .ok (st', w')) :
    UserChange net₀ w.net w'.net ∧ UserDevices net₀ w' ∧ UserDevice net₀ st'.p2pDevice := by
  unfold moveUserLink at hrun
  split at hrun
  · cases hrun
    exact ⟨UserChange.refl h, hsat, hst⟩
  · obtain ⟨⟨oldId, st₁, w₁⟩, hdetach, hrun⟩ := ok_of_bind hrun
    obtain ⟨hchange, hsat₁, hst₁⟩ := detachLast_userChange h hsat hst hdetach
    simp only at hrun
    split at hrun
    · cases hrun
      exact ⟨hchange, hsat₁, hst₁⟩
    · split at hrun
      · cases hrun
        exact ⟨hchange, hsat₁, hst₁⟩
      · obtain ⟨hchange', hsat₂, hst₂⟩ := attach_userChange hchange.keeps hsat₁ hrun
        exact ⟨hchange.trans hchange', hsat₂, hst₂⟩

end UserLinks

/-- A network as the helpers build it: every device is on one channel, and the
faces of a node have their own ids. -/
structure Installed (net : Network) : Prop where
  fresh : Fresh net
  channels : ∀ c ∈ net.channels, ∀ c' ∈ net.channels, ∀ d, (d = c.1 ∨ d = c.2) → (d = c'.1 ∨ d = c'.2) → c = c'
  faceIds : ∀ n, ∀ f ∈ net.faces n, ∀ f' ∈ net.faces n, f.id = f'.id → f = f'
  faces : ∀ n, ∀ f ∈ net.faces n, f.netDevice.address < net.nextAddress ∧ f.id < net.nextFaceId n

theorem Installed.keepsISLs {net : Network} (h : Installed net) : KeepsISLs net net where
  channels := List.prefix_rfl
  address := le_rfl
  faceId _ := le_rfl
  faces _ _ _ := rfl
  userFaces n f hf hd := absurd (h.faces n f hf).1 (not_lt.mpr hd)

theorem deviceTowards_spec {net : Network} {n m : NodeId} {d : NetDevice}
    (h : net.deviceTowards n m = some d) :
    ∃ c ∈ net.channels, (c.1.node = m ∨ c.2.node = m) ∧ (d = c.1 ∨ d = c.2) ∧ d.node = n := by
  obtain ⟨c, hc, hd⟩ := List.exists_of_findSome?_eq_some h
  split_ifs at hd with hm h1 h2
  · cases hd
    exact ⟨c, hc, hm, Or.inl rfl, h1⟩
  · cases hd
    exact ⟨c, hc, hm, Or.inr rfl, h2⟩

theorem faceTowards_spec {net : Network} {n m : NodeId} {face : Face} (h : net.faceTowards n m = .ok face) :
    ∃ d, net.deviceTowards n m = some d ∧ net.getFaceByNetDevice n (some d) = some face ∧
      face ∈ net.faces n ∧ face.netDevice = d := by
  unfold Network.faceTowards at h
  split at h
  · cases h
  · rename_i d hd
    have hget : net.getFaceByNetDevice n (some d) = some face := by
      cases hface : net.getFaceByNetDevice n (some d) with
      | none => rw [hface] at h; cases h
      | some f => rw [hface] at h; cases h; rfl
    have hfind : (net.faces n).find? (fun f => f.netDevice = d) = some face := hget
    exact ⟨d, hd, hget, List.mem_of_find?_eq_some hfind,
      by simpa using List.find?_some hfind⟩

theorem linkFace_spec {w : World} {link : String × String} {n : NodeId} {f : FaceId}
    (h : linkFace w link = some (n, f)) :
    ∃ m face, nodeOf w link.1 = some n ∧ nodeOf w link.2 = some m ∧
      w.net.faceTowards n m = .ok face ∧ face.id = f := by
  obtain ⟨n', hn, h⟩ := Option.bind_eq_some_iff.mp h
  obtain ⟨m, hm, h⟩ := Option.bind_eq_some_iff.mp h
  obtain ⟨face, hface, heq⟩ := Option.map_eq_some_iff.mp h
  cases heq
  refine ⟨m, face, hn, hm, ?_, rfl⟩
  cases hrun : w.net.faceTowards n m with
  | error e => rw [hrun] at hface; cases hface
  | ok a => rw [hrun] at hface; cases hface; rfl

/-- An inter-satellite link of the world `w`, with a face at its first satellite. -/
def IsISL (w : World) (link : String × String) : Prop := link.1 ≠ link.2 ∧ (linkFace w link).isSome

instance (w : World) (link : String × String) : Decidable (IsISL w link) :=
  inferInstanceAs (Decidable (link.1 ≠ link.2 ∧ (linkFace w link).isSome))

theorem linkFace_injective {w : World} (hw : Installed w.net) (hdistinct : DistinctNodes w)
    {link link' : String × String} (h : IsISL w link) (h' : IsISL w link')
    (hsame : linkFace w link = linkFace w link') : link = link' := by
  obtain ⟨⟨n, f⟩, hlink⟩ := Option.isSome_iff_exists.mp h.2
  obtain ⟨m, face, hn, hm, hface, hf⟩ := linkFace_spec hlink
  obtain ⟨m', face', hn', hm', hface', hf'⟩ := linkFace_spec (hsame.symm.trans hlink)
  have hnm : n ≠ m := by
    rintro rfl
    exact h.1 (hdistinct link.1 link.2 (by simp [hn]) (hn.trans hm.symm))
  have hnm' : n ≠ m' := by
    rintro rfl
    exact h'.1 (hdistinct link'.1 link'.2 (by simp [hn']) (hn'.trans hm'.symm))
  obtain ⟨d, hd, -, hmem, hdev⟩ := faceTowards_spec hface
  obtain ⟨d', hd', -, hmem', hdev'⟩ := faceTowards_spec hface'
  have hfaces := hw.faceIds n face hmem face' hmem' (hf.trans hf'.symm)
  obtain rfl : d = d' := by rw [← hdev, hfaces, hdev']
  obtain ⟨c, hc, hcm, hcd, hdn⟩ := deviceTowards_spec hd
  obtain ⟨c', hc', hcm', hcd', -⟩ := deviceTowards_spec hd'
  obtain rfl : c = c' := hw.channels c hc c' hc' d hcd hcd'
  -- the end of the channel that is not `d` is on both nodes
  have hmm : m = m' := by
    rcases hcd with rfl | rfl
    · rcases hcm with hcm | hcm
      · exact absurd (hdn.symm.trans hcm) hnm
      · rcases hcm' with hcm' | hcm'
        · exact absurd (hdn.symm.trans hcm') hnm'
        · exact hcm.symm.trans hcm'
    · rcases hcm with hcm | hcm
      · rcases hcm' with hcm' | hcm'
        · exact hcm.symm.trans hcm'
        · exact absurd (hdn.symm.trans hcm') hnm'
      · exact absurd (hdn.symm.trans hcm) hnm
  have h1 := hdistinct link.1 link'.1 (by simp [hn]) (hn.trans hn'.symm)
  have h2 := hdistinct link.2 link'.2 (by simp [hm]) (by rw [hm, hm', hmm])
  exact Prod.ext h1 h2

structure Later (w₀ w : World) : Prop where
  keeps : KeepsISLs w₀.net w.net
  nodes : nodeOf w = nodeOf w₀
  devices : UserDevices w₀.net w

theorem Later.linkFace_eq {w₀ w : World} (hw : Fresh w₀.net) (h : Later w₀ w) {link : String × String}
    (hlink : IsISL w₀ link) : linkFace w link = linkFace w₀ link := by
  obtain ⟨⟨n, f⟩, hsome⟩ := Option.isSome_iff_exists.mp hlink.2
  obtain ⟨m, face, hn, hm, hface, hf⟩ := linkFace_spec hsome
  obtain ⟨d, hd, hget, -, -⟩ := faceTowards_spec hface
  obtain ⟨c, hc, -, hcd, -⟩ := deviceTowards_spec hd
  obtain ⟨l, hl⟩ := h.keeps.channels
  have hdevice : w.net.deviceTowards n m = some d := by
    unfold Network.deviceTowards at hd ⊢
    rw [← hl, List.findSome?_append, hd]
    rfl
  have haddress : d.address < w₀.net.nextAddress := by
    rcases hcd with rfl | rfl
    · exact (hw c hc).1
    · exact (hw c hc).2
  have hid := h.keeps.faces n d haddress
  rw [hget, Option.map_some, Option.map_eq_some_iff] at hid
  obtain ⟨face', hget', hid⟩ := hid
  have hface' : w.net.faceTowards n m = .ok face' := by
    simp only [Network.faceTowards, hdevice, hget', assertNonNull]
  rw [hsome, linkFace, h.nodes, faceBetween_of_ok hn hm hface', hid, hf]

section Routes

variable {w₀ w w' : World} {p : String} {link : String × String}

theorem Later.hasRoute_iff (hw : Fresh w₀.net) (h : Later w₀ w) {n : NodeId} {f : FaceId}
    (hlink : IsISL w₀ link) (hface : linkFace w₀ link = some (n, f)) :
    HasRoute w p link ↔ (w.net.fib n p f).isSome := by
  simp [HasRoute, h.linkFace_eq hw hlink, hface]

theorem Later.userChange (h : Later w₀ w) (hchange : UserChange w₀.net w.net w'.net)
    (hnodes : nodeOf w' = nodeOf w) (hdevices : UserDevices w₀.net w') : Later w₀ w' :=
  ⟨hchange.keeps, hnodes.trans h.nodes, hdevices⟩

theorem UserChange.hasRoute_iff (hw : Installed w₀.net) (h : Later w₀ w) (h' : Later w₀ w')
    (hchange : UserChange w₀.net w.net w'.net) (hlink : IsISL w₀ link) :
    HasRoute w' p link ↔ HasRoute w p link := by
  obtain ⟨⟨n, f⟩, hface⟩ := Option.isSome_iff_exists.mp hlink.2
  rw [h.hasRoute_iff hw.fresh hlink hface, h'.hasRoute_iff hw.fresh hlink hface]
  obtain ⟨m, face, -, -, hto, hf⟩ := linkFace_spec hface
  obtain ⟨d, -, -, hmem, -⟩ := faceTowards_spec hto
  rw [hchange.fib n p f (by rw [← hf]; exact (hw.faces n face hmem).2)]

theorem RoutesSet.later {v : Option ℤ} {prefixes : List String} {through : NodeId → FaceId → Prop}
    (h : Later w₀ w) (hset : RoutesSet v prefixes through w w') : Later w₀ w' := by
  refine ⟨h.keeps.congr ?_ ?_ ?_ ?_, hset.nodes.trans h.nodes, ?_⟩
  · rw [hset.net]
  · rw [hset.net]
  · rw [hset.net]
  · rw [hset.net]
  · unfold UserDevices
    rw [hset.devices]
    exact h.devices

theorem RoutesSet.hasRoute_iff (hw : Installed w₀.net) (hdistinct : DistinctNodes w₀) (h : Later w₀ w)
    {v : Option ℤ} {prefixes : List String} {links : List (String × String)}
    (hlinks : ∀ link ∈ links, IsISL w₀ link)
    (hset : RoutesSet v prefixes (fun n f => ∃ link ∈ links, linkFace w link = some (n, f)) w w')
    (hlink : IsISL w₀ link) : HasRoute w' p link ↔
      if p ∈ prefixes ∧ link ∈ links then v.isSome = true else HasRoute w p link := by
  obtain ⟨⟨n, f⟩, hface⟩ := Option.isSome_iff_exists.mp hlink.2
  have hthrough : (∃ link ∈ links, linkFace w link = some (n, f)) ↔ link ∈ links := by
    constructor
    · rintro ⟨link', hmem, hlink'⟩
      rw [h.linkFace_eq hw.fresh (hlinks link' hmem), ← hface] at hlink'
      rwa [← linkFace_injective hw hdistinct (hlinks link' hmem) hlink hlink']
    · intro hmem
      exact ⟨link, hmem, by rw [h.linkFace_eq hw.fresh hlink, hface]⟩
  rw [(hset.later h).hasRoute_iff hw.fresh hlink hface, h.hasRoute_iff hw.fresh hlink hface]
  split_ifs with hin
  · rw [hset.set n p f hin.1 (hthrough.mpr hin.2)]
  · rw [hset.kept n p f (by rwa [hthrough])]

theorem ApplyRoutes_hasRoute (hw : Installed w₀.net) (hdistinct : DistinctNodes w₀) (h : Later w₀ w)
    {prefixes links : List String} (hlinks : ∀ link ∈ routeLinks links, IsISL w₀ link)
    (hrun : ApplyRoutes prefixes links w = .ok w') (hp : p ∈ prefixes) :
    Later w₀ w' ∧ ∀ link, IsISL w₀ link →
      (HasRoute w' p link ↔ HasRoute w p link ∨ link ∈ routeLinks links) := by
  have hset := changeRoutes_spec addRoute_sets (ApplyRoutes_ok hrun).2
  refine ⟨hset.later h, ?_⟩
  intro link hlink
  rw [hset.hasRoute_iff hw hdistinct h hlinks hlink]
  by_cases hmem : link ∈ routeLinks links <;> simp [hp, hmem]

theorem RemoveRoutes_hasRoute (hw : Installed w₀.net) (hdistinct : DistinctNodes w₀) (h : Later w₀ w)
    {prefixes links : List String} (hlinks : ∀ link ∈ routeLinks links, IsISL w₀ link)
    (hrun : RemoveRoutes prefixes links w = .ok w') (hp : p ∈ prefixes) :
    Later w₀ w' ∧ ∀ link, IsISL w₀ link →
      (HasRoute w' p link ↔ HasRoute w p link ∧ link ∉ routeLinks links) := by
  have hset := changeRoutes_spec removeRoute_sets (RemoveRoutes_ok hrun).2
  refine ⟨hset.later h, ?_⟩
  intro link hlink
  rw [hset.hasRoute_iff hw hdistinct h hlinks hlink]
  by_cases hmem : link ∈ routeLinks links <;> simp [hp, hmem]

structure Quiet (p : String) (w w' : World) : Prop where
  nodes : nodeOf w' = nodeOf w
  devices : deviceOf w' = deviceOf w
  net : w'.net = { w.net with fib := w'.net.fib }
  fib : ∀ n f, w'.net.fib n p f = w.net.fib n p f

theorem Quiet.refl (p : String) (w : World) : Quiet p w w := ⟨rfl, rfl, rfl, fun _ _ => rfl⟩

theorem Quiet.trans {w'' : World} (h : Quiet p w w') (h' : Quiet p w' w'') : Quiet p w w'' where
  nodes := h'.nodes.trans h.nodes
  devices := h'.devices.trans h.devices
  net := by rw [h'.net, h.net]
  fib n f := (h'.fib n f).trans (h.fib n f)

theorem RoutesSet.quiet {v : Option ℤ} {prefixes : List String} {through : NodeId → FaceId → Prop}
    (hset : RoutesSet v prefixes through w w') (hp : p ∉ prefixes) : Quiet p w w' :=
  ⟨hset.nodes, hset.devices, hset.net, fun n f => hset.kept n p f (fun hin => hp hin.1)⟩

theorem Quiet.later (h : Later w₀ w) (hquiet : Quiet p w w') : Later w₀ w' := by
  refine ⟨h.keeps.congr ?_ ?_ ?_ ?_, hquiet.nodes.trans h.nodes, ?_⟩
  · rw [hquiet.net]
  · rw [hquiet.net]
  · rw [hquiet.net]
  · rw [hquiet.net]
  · unfold UserDevices
    rw [hquiet.devices]
    exact h.devices

theorem Quiet.hasRoute_iff (hquiet : Quiet p w w') (link : String × String) :
    HasRoute w' p link ↔ HasRoute w p link := by
  have hface : linkFace w' link = linkFace w link := by
    unfold linkFace
    rw [hquiet.nodes]
    exact faceBetween_congr (by rw [hquiet.net]) (by rw [hquiet.net]) _ _
  simp only [HasRoute, hface, hquiet.fib]

end Routes

end LeoNdn.SatelliteFibs
