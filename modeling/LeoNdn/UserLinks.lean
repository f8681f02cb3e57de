import LeoNdn.SatelliteFibs

/-!
The user links that stations leave: whether `DetachPrefix` takes down the link
of its station, and what it leaves alone.
-/

namespace LeoNdn.UserLinks

open LeoNdn.Loops LeoNdn.SimulatedNetwork LeoNdn.StationUpdate LeoNdn.AttachmentTracking LeoNdn.SatelliteFibs

section Links

def HasFace (net : Network) (d : NetDevice) (face : FaceId) : Prop :=
  (net.getFaceByNetDevice d.node (some d)).map Face.id = some face

/-- A default route through one of the two faces of a link, or a route for a
prefix through the second. -/
def IsOwnRoute (net : Network) (prefixes : List String) (d e : NetDevice) (n : NodeId) (p : String) (face : FaceId) :
    Prop :=
  (n = d.node ∧ HasFace net d face ∧ p = "/") ∨ (n = e.node ∧ HasFace net e face ∧ (p = "/" ∨ p ∈ prefixes))

/-- The two faces of a link are marked, its routes are removed, and nothing else
has changed. -/
structure LinkDown (prefixes : List String) (d e : NetDevice) (net net' : Network) : Prop where
  faces : ∀ n, net'.faces n = (net.faces n).map (fun f =>
    if (n = d.node ∧ f.netDevice = d) ∨ (n = e.node ∧ f.netDevice = e) then { f with m_isGone := true } else f)
  removed : ∀ n p face, IsOwnRoute net prefixes d e n p face → net'.fib n p face = none
  kept : ∀ n p face, ¬ IsOwnRoute net prefixes d e n p face → net'.fib n p face = net.fib n p face
  rest : net' = { net with faces := net'.faces, fib := net'.fib }

end Links

section Networks

variable {net net' : Network}

theorem peer_of_channel (h : Installed net) {d e : NetDevice} (hmem : (d, e) ∈ net.channels) :
    net.peer d = some e := by
  have hsome : (net.peer d).isSome = true := by
    rw [Network.peer, List.findSome?_isSome_iff]
    exact ⟨(d, e), hmem, by simp⟩
  obtain ⟨x, hx⟩ := Option.isSome_iff_exists.mp hsome
  obtain ⟨c, hc, hcx⟩ := List.exists_of_findSome?_eq_some hx
  have hown : d = c.1 ∨ d = c.2 := by
    split_ifs at hcx with h1 h2
    · exact Or.inl h1.symm
    · exact Or.inr h2.symm
  obtain rfl := h.channels c hc (d, e) hmem d hown (Or.inl rfl)
  rw [hx]
  simpa using hcx.symm

theorem getFaceByNetDevice_map {g : NodeId → Face → Face} (hfaces : ∀ n, net'.faces n = (net.faces n).map (g n))
    (hdev : ∀ n f, (g n f).netDevice = f.netDevice) (n : NodeId) (d : NetDevice) :
    net'.getFaceByNetDevice n (some d) = (net.getFaceByNetDevice n (some d)).map (g n) := by
  have hcomp : ((fun f : Face => decide (f.netDevice = d)) ∘ g n) = fun f => decide (f.netDevice = d) := by
    funext f
    simp only [Function.comp_apply, hdev]
  simp only [Network.getFaceByNetDevice, Option.bind_some, hfaces, List.find?_map, hcomp]

/-- A network with the same links and faces, but for marks of the faces and for routes. -/
structure SameLinks (net net' : Network) : Prop where
  channels : net'.channels = net.channels
  address : net'.nextAddress = net.nextAddress
  faceId : net'.nextFaceId = net.nextFaceId
  faces : ∃ g : NodeId → Face → Face, (∀ n, net'.faces n = (net.faces n).map (g n)) ∧
    ∀ n f, (g n f).netDevice = f.netDevice ∧ (g n f).id = f.id

theorem SameLinks.of_faces (hc : net'.channels = net.channels) (ha : net'.nextAddress = net.nextAddress)
    (hi : net'.nextFaceId = net.nextFaceId) (hf : net'.faces = net.faces) : SameLinks net net' := by
  refine ⟨hc, ha, hi, fun _ f => f, ?_, fun _ _ => ⟨rfl, rfl⟩⟩
  intro n
  rw [hf, List.map_id']

theorem SameLinks.trans {net'' : Network} (h : SameLinks net net') (h' : SameLinks net' net'') :
    SameLinks net net'' := by
  obtain ⟨g, hg, hkeep⟩ := h.faces
  obtain ⟨g', hg', hkeep'⟩ := h'.faces
  refine ⟨h'.channels.trans h.channels, h'.address.trans h.address, h'.faceId.trans h.faceId,
    fun n f => g' n (g n f), ?_, ?_⟩
  · intro n
    rw [hg', hg, List.map_map]
    rfl
  · intro n f
    exact ⟨(hkeep' n _).1.trans (hkeep n f).1, (hkeep' n _).2.trans (hkeep n f).2⟩

theorem SameLinks.installed (h : SameLinks net net') (hnet : Installed net) : Installed net' := by
  obtain ⟨g, hg, hkeep⟩ := h.faces
  refine ⟨?_, ?_, ?_, ?_⟩
  · intro c hc
    rw [h.channels] at hc
    rw [h.address]
    exact hnet.fresh c hc
  · rw [h.channels]
    exact hnet.channels
  · intro n f hf f' hf' hid
    rw [hg] at hf hf'
    obtain ⟨f₀, hf₀, rfl⟩ := List.mem_map.mp hf
    obtain ⟨f₀', hf₀', rfl⟩ := List.mem_map.mp hf'
    rw [(hkeep n f₀).2, (hkeep n f₀').2] at hid
    rw [hnet.faceIds n f₀ hf₀ f₀' hf₀' hid]
  · intro n f hf
    rw [hg] at hf
    obtain ⟨f₀, hf₀, rfl⟩ := List.mem_map.mp hf
    rw [(hkeep n f₀).1, (hkeep n f₀).2, h.address, h.faceId]
    exact hnet.faces n f₀ hf₀

def FaceExists (net : Network) (d : NetDevice) : Prop := (net.getFaceByNetDevice d.node (some d)).isSome = true

theorem SameLinks.faceExists (h : SameLinks net net') {d : NetDevice} (hface : FaceExists net d) :
    FaceExists net' d := by
  obtain ⟨g, hg, hkeep⟩ := h.faces
  unfold FaceExists
  rw [getFaceByNetDevice_map hg (fun n f => (hkeep n f).1), Option.isSome_map]
  exact hface

theorem modifyFace_sameLinks (net : Network) (n : NodeId) (d : NetDevice) {g : Face → Face}
    (hdev : ∀ f, (g f).netDevice = f.netDevice) (hid : ∀ f, (g f).id = f.id) :
    SameLinks net (net.modifyFace n d g) := by
  refine ⟨rfl, rfl, rfl, fun m f => if m = n ∧ f.netDevice = d then g f else f, ?_, ?_⟩
  · intro m
    by_cases hm : m = n
    · subst hm
      simp [Network.modifyFace]
    · simp [Network.modifyFace, hm]
  · intro m f
    dsimp only
    split
    · exact ⟨hdev f, hid f⟩
    · exact ⟨rfl, rfl⟩

theorem install_installed (h : Installed net) (a b : NodeId) : Installed (net.Install a b).2 := by
  refine ⟨?_, ?_, h.faceIds, ?_⟩
  · intro c hc
    change c.1.address < net.nextAddress + 2 ∧ c.2.address < net.nextAddress + 2
    rcases List.mem_append.mp hc with hold | hnew
    · have := h.fresh c hold
      omega
    · obtain rfl := List.mem_singleton.mp hnew
      change net.nextAddress < net.nextAddress + 2 ∧ net.nextAddress + 1 < net.nextAddress + 2
      omega
  · intro c hc c' hc' d hd hd'
    have hnew : ∀ x ∈ net.channels, ∀ y, (y = x.1 ∨ y = x.2) →
        ¬ (y = (⟨net.nextAddress, a⟩ : NetDevice) ∨ y = (⟨net.nextAddress + 1, b⟩ : NetDevice)) := by
      rintro x hx y hy hcontra
      have hfresh := h.fresh x hx
      have haddress : y.address < net.nextAddress := by
        rcases hy with rfl | rfl
        · exact hfresh.1
        · exact hfresh.2
      rcases hcontra with rfl | rfl <;> simp only at haddress <;> omega
    rcases List.mem_append.mp hc with hold | hlast <;> rcases List.mem_append.mp hc' with hold' | hlast'
    · exact h.channels c hold c' hold' d hd hd'
    · rw [List.mem_singleton.mp hlast'] at hd'
      exact absurd hd' (hnew c hold d hd)
    · rw [List.mem_singleton.mp hlast] at hd
      exact absurd hd (hnew c' hold' d hd')
    · rw [List.mem_singleton.mp hlast, List.mem_singleton.mp hlast']
  · intro n f hf
    have hface := h.faces n f hf
    refine ⟨?_, hface.2⟩
    change f.netDevice.address < net.nextAddress + 2
    omega

theorem addFace_installed (h : Installed net) (n : NodeId) {d : NetDevice} (hd : d.address < net.nextAddress) :
    Installed (net.addFace n { id := net.nextFaceId n, netDevice := d }) := by
  have hfaces : ∀ m, ∀ f ∈ (net.addFace n { id := net.nextFaceId n, netDevice := d }).faces m,
      f ∈ net.faces m ∨ (m = n ∧ f = { id := net.nextFaceId n, netDevice := d }) := by
    intro m f hf
    by_cases hm : m = n
    · subst hm
      simp only [Network.addFace, Function.update_self, List.mem_append, List.mem_singleton] at hf
      exact hf.imp_right fun hf => ⟨rfl, hf⟩
    · simp only [Network.addFace, Function.update_of_ne hm] at hf
      exact Or.inl hf
  refine ⟨h.fresh, h.channels, ?_, ?_⟩
  · intro m f hf f' hf' hid
    rcases hfaces m f hf with hold | ⟨rfl, rfl⟩ <;> rcases hfaces m f' hf' with hold' | ⟨hm, rfl⟩
    · exact h.faceIds m f hold f' hold' hid
    · subst hm
      exact absurd hid (ne_of_lt (h.faces m f hold).2)
    · exact absurd hid.symm (ne_of_lt (h.faces m f' hold').2)
    · rfl
  · intro m f hf
    rcases hfaces m f hf with hold | ⟨rfl, rfl⟩
    · refine ⟨(h.faces m f hold).1, (h.faces m f hold).2.trans_le ?_⟩
      simp only [Network.addFace, Function.update_apply]
      split
      · rename_i hm
        rw [hm]
        exact Nat.le_succ _
      · exact le_rfl
    · refine ⟨hd, ?_⟩
      simp only [Network.addFace, Function.update_self]
      exact Nat.lt_succ_self _

theorem addFace_faceExists (n : NodeId) (face : Face) {x : NetDevice} (h : FaceExists net x) :
    FaceExists (net.addFace n face) x := by
  unfold FaceExists Network.getFaceByNetDevice Network.addFace at *
  by_cases hx : x.node = n
  · subst hx
    simp only [Option.bind_some, Function.update_self, List.find?_append] at h ⊢
    rw [Option.isSome_or, h, Bool.true_or]
  · simp only [Option.bind_some, Function.update_of_ne hx] at h ⊢
    exact h

theorem addFace_own (n : NodeId) (face : Face) (h : face.netDevice.node = n) :
    FaceExists (net.addFace n face) face.netDevice := by
  subst h
  simp [FaceExists, Network.getFaceByNetDevice, Network.addFace, List.find?_append]

end Networks

section Detaching

variable {net net' : Network} {st : Station} {sat : Satellite} {d e : NetDevice}

theorem modifyFace_faces (net : Network) (n : NodeId) (d : NetDevice) (g : Face → Face) (m : NodeId) :
    (net.modifyFace n d g).faces m = (net.faces m).map (fun f => if m = n ∧ f.netDevice = d then g f else f) := by
  by_cases hm : m = n
  · subst hm
    simp [Network.modifyFace]
  · simp [Network.modifyFace, hm]

theorem removePrefixes_spec (n : NodeId) (prefixes : List String) (face : FaceId) (net : Network) :
    ∃ fib, prefixes.foldl (fun net namePrefix => net.RemoveRoute n namePrefix face) net = { net with fib := fib } ∧
      ∀ n' p' face', fib n' p' face' =
        if n' = n ∧ p' ∈ prefixes ∧ face' = face then none else net.fib n' p' face' := by
  induction prefixes generalizing net with
  | nil => exact ⟨net.fib, rfl, fun _ _ _ => by simp⟩
  | cons p prefixes ih =>
    obtain ⟨fib, hrest, hfib⟩ := ih (net.RemoveRoute n p face)
    refine ⟨fib, hrest, ?_⟩
    intro n' p' face'
    rw [hfib, removeRoute_sets.fib]
    by_cases hrec : n' = n ∧ p' ∈ prefixes ∧ face' = face
    · rw [if_pos hrec, if_pos ⟨hrec.1, List.mem_cons_of_mem _ hrec.2.1, hrec.2.2⟩]
    · rw [if_neg hrec]
      by_cases hfirst : n' = n ∧ p' = p ∧ face' = face
      · rw [if_pos hfirst, if_pos ⟨hfirst.1, hfirst.2.1 ▸ List.mem_cons_self, hfirst.2.2⟩]
      · rw [if_neg hfirst, if_neg]
        rintro ⟨hn, hmem, hface⟩
        rcases List.mem_cons.mp hmem with hp | hmem
        · exact hfirst ⟨hn, hp, hface⟩
        · exact hrec ⟨hn, hmem, hface⟩

theorem faceExists_spec (h : FaceExists net d) :
    ∃ face, net.getFaceByNetDevice d.node (some d) = some face ∧ face.netDevice = d ∧ HasFace net d face.id := by
  obtain ⟨face, hface⟩ := Option.isSome_iff_exists.mp h
  have hdev : face.netDevice = d := by
    have hfind : (net.faces d.node).find? (fun f => f.netDevice = d) = some face := hface
    simpa using List.find?_some hfind
  exact ⟨face, hface, hdev, by rw [HasFace, hface]; rfl⟩

theorem hasFace_unique {face face' : FaceId} (h : HasFace net d face) (h' : HasFace net d face') : face = face' :=
  Option.some.inj (h.symm.trans h')

theorem isOwnRoute_iff {stId satId : FaceId} (hst : HasFace net d stId) (hsat : HasFace net e satId)
    (prefixes : List String) (n : NodeId) (p : String) (face : FaceId) : IsOwnRoute net prefixes d e n p face ↔
      (n = e.node ∧ p ∈ prefixes ∧ face = satId) ∨ (n = e.node ∧ p = "/" ∧ face = satId) ∨
        (n = d.node ∧ p = "/" ∧ face = stId) := by
  have hst' : HasFace net d face ↔ face = stId := ⟨fun h => hasFace_unique h hst, fun h => h ▸ hst⟩
  have hsat' : HasFace net e face ↔ face = satId := ⟨fun h => hasFace_unique h hsat, fun h => h ▸ hsat⟩
  unfold IsOwnRoute
  rw [hst', hsat']
  constructor
  · rintro (⟨hn, hf, hp⟩ | ⟨hn, hf, hp | hp⟩)
    · exact Or.inr (Or.inr ⟨hn, hp, hf⟩)
    · exact Or.inr (Or.inl ⟨hn, hp, hf⟩)
    · exact Or.inl ⟨hn, hp, hf⟩
  · rintro (⟨hn, hp, hf⟩ | ⟨hn, hp, hf⟩ | ⟨hn, hp, hf⟩)
    · exact Or.inr ⟨hn, hf, Or.inr hp⟩
    · exact Or.inr ⟨hn, hf, Or.inl hp⟩
    · exact Or.inl ⟨hn, hf, hp⟩

def markGone (face : Face) : Face := { face with m_isGone := true }

theorem DetachPrefix_eq {stFace satFace : Face} {satN : NodeId} (hsat : sat.node = some satN)
    (hstFace : net.getFaceByNetDevice st.node st.p2pDevice = some stFace)
    (hsatFace : ((net.modifyFace st.node stFace.netDevice markGone).RemoveRoute st.node "/"
      stFace.id).getFaceByNetDevice satN sat.p2pDevice = some satFace) :
    DetachPrefix st sat net = .ok (st.prefixes.foldl (fun net namePrefix => net.RemoveRoute satN namePrefix satFace.id)
      ((((net.modifyFace st.node stFace.netDevice markGone).RemoveRoute st.node "/" stFace.id).modifyFace satN
        satFace.netDevice markGone).RemoveRoute satN "/" satFace.id)) := by
  have hsatFace' : ((net.modifyFace st.node stFace.netDevice (fun f => { f with m_isGone := true })).RemoveRoute
      st.node "/" stFace.id).getFaceByNetDevice satN sat.p2pDevice = some satFace := hsatFace
  unfold DetachPrefix
  rw [hstFace, hsat]
  simp only [deref, bind, Except.bind, hsatFace']
  rfl

theorem DetachPrefix_linkDown (hd : st.p2pDevice = some d) (hnode : d.node = st.node) (he : sat.p2pDevice = some e)
    (hsat : sat.node = some e.node) (hdface : FaceExists net d) (heface : FaceExists net e) :
    ∃ net', DetachPrefix st sat net = .ok net' ∧ LinkDown st.prefixes d e net net' := by
  obtain ⟨stFace, hstFace, hstDevice, hstId⟩ := faceExists_spec hdface
  obtain ⟨satFace, hsatFace, hsatDevice, hsatId⟩ := faceExists_spec heface
  let g : NodeId → Face → Face := fun n f => if n = d.node ∧ f.netDevice = d then markGone f else f
  have hdev : ∀ n f, (g n f).netDevice = f.netDevice := by
    intro n f
    dsimp only [g]
    split <;> rfl
  have hid : (g e.node satFace).id = satFace.id := by
    dsimp only [g]
    split <;> rfl
  generalize hnet₁ : (net.modifyFace d.node d markGone).RemoveRoute d.node "/" stFace.id = net₁
  have hfaces₁ : ∀ n, net₁.faces n = (net.faces n).map (g n) := by
    intro n
    rw [← hnet₁]
    exact modifyFace_faces net d.node d markGone n
  have hfib₁ : ∀ n p face, net₁.fib n p face =
      if n = d.node ∧ p = "/" ∧ face = stFace.id then none else net.fib n p face := by
    intro n p face
    rw [← hnet₁]
    exact removeRoute_sets.fib (net.modifyFace d.node d markGone) d.node n "/" p stFace.id face
  have hsatFace₁ : net₁.getFaceByNetDevice e.node (some e) = some (g e.node satFace) := by
    rw [getFaceByNetDevice_map hfaces₁ hdev, hsatFace]
    rfl
  have hstFace' : net.getFaceByNetDevice st.node st.p2pDevice = some stFace := by
    rw [hd, ← hnode]
    exact hstFace
  have hrun := DetachPrefix_eq hsat hstFace' (by rw [hstDevice, ← hnode, hnet₁, he]; exact hsatFace₁)
  rw [hstDevice, ← hnode, hnet₁, (hdev e.node satFace).trans hsatDevice, hid] at hrun
  generalize hnet₂ : (net₁.modifyFace e.node e markGone).RemoveRoute e.node "/" satFace.id = net₂ at hrun
  have hfib₂ : ∀ n p face, net₂.fib n p face =
      if n = e.node ∧ p = "/" ∧ face = satFace.id then none else net₁.fib n p face := by
    intro n p face
    rw [← hnet₂]
    exact removeRoute_sets.fib (net₁.modifyFace e.node e markGone) e.node n "/" p satFace.id face
  obtain ⟨fib, hrest, hfib⟩ := removePrefixes_spec e.node st.prefixes satFace.id net₂
  rw [hrest] at hrun
  have hown := isOwnRoute_iff hstId hsatId st.prefixes
  refine ⟨_, hrun, ?_, ?_, ?_, ?_⟩
  · intro n
    have hfaces₂ : net₂.faces n = (net₁.faces n).map
        (fun f => if n = e.node ∧ f.netDevice = e then markGone f else f) := by
      rw [← hnet₂]
      exact modifyFace_faces net₁ e.node e markGone n
    change net₂.faces n = _
    rw [hfaces₂, hfaces₁, List.map_map]
    refine List.map_congr_left fun f _ => ?_
    simp only [Function.comp_apply, hdev]
    dsimp only [g]
    by_cases h1 : n = d.node ∧ f.netDevice = d
    · rw [if_pos h1, if_pos (Or.inl h1)]
      split <;> rfl
    · rw [if_neg h1]
      by_cases h2 : n = e.node ∧ f.netDevice = e
      · rw [if_pos h2, if_pos (Or.inr h2)]
        rfl
      · rw [if_neg h2, if_neg (not_or.mpr ⟨h1, h2⟩)]
  · intro n p face h
    change fib n p face = none
    rw [hfib, hfib₂, hfib₁]
    rcases (hown n p face).mp h with hpre | hsecond | hfirst
    · rw [if_pos hpre]
    · rw [if_pos hsecond, ite_self]
    · rw [if_pos hfirst, ite_self, ite_self]
  · intro n p face h
    rw [hown, not_or, not_or] at h
    change fib n p face = net.fib n p face
    rw [hfib, if_neg h.1, hfib₂, if_neg h.2.1, hfib₁, if_neg h.2.2]
  · rw [← hnet₂, ← hnet₁]
    rfl

theorem LinkDown.sameLinks {prefixes : List String} {d e : NetDevice} {net net' : Network}
    (h : LinkDown prefixes d e net net') : SameLinks net net' := by
  refine ⟨by rw [h.rest], by rw [h.rest], by rw [h.rest], _, h.faces, ?_⟩
  intro n f
  split <;> exact ⟨rfl, rfl⟩

end Detaching

end LeoNdn.UserLinks
