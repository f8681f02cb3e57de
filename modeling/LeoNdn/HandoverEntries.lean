import LeoNdn.HandoverTunnel
import LeoNdn.Runs

/-!
The ends of the tunnel entries of one manager, and where it forwards payloads to,
over everything that can happen to it.
-/

namespace LeoNdn.HandoverEntries

open LeoNdn.Loops LeoNdn.Runs LeoNdn.HandoverManager
open LeoNdn.SimulatedNetwork (deref)
open LeoNdn.HandoverNetwork (Topology Record Label run deliveries handover attached)

variable {ι δ π : Type}

/-- With the faces of the user links that have been added, the last of each id. -/
structure Node (ι δ π : Type) where
  manager : Manager ι δ π
  userLinks : ι → Option ℕ

def Node.initial : Node ι δ π := ⟨Manager.initial, fun _ => none⟩

structure Turn (ι δ π : Type) where
  host : Host δ
  event : Event ι δ π

variable [DecidableEq ι] [DecidableEq δ]

def linksAfter (event : Event ι δ π) (userLinks : ι → Option ℕ) : ι → Option ℕ :=
  match event with
  | .AddUserLink id faceId => Function.update userLinks id (some faceId)
  | _ => userLinks

/-- A node that crashes does nothing. -/
def next (node : Node ι δ π) (turn : Turn ι δ π) : Node ι δ π :=
  match handle turn.host turn.event node.manager with
  | .error _ => node
  | .ok (m, _) => ⟨m, linksAfter turn.event node.userLinks⟩

/-- `Update` broadcasts the id of a user link that it has added before, and a packet comes in on the device of a face. -/
def Driven (node : Node ι δ π) (turn : Turn ι δ π) : Prop :=
  match turn.event with
  | .BroadcastReq id => (node.userLinks id).isSome
  | .ProcessPacket _ lasthop => ∃ face ∈ turn.host.faces, face.netDevice = lasthop
  | _ => True

/-- The device, null or not, that a payload is forwarded to, if it is forwarded. -/
def forwardedTo (m : Manager ι δ π) (id : ι) (lasthop : δ) : Option (Option δ) :=
  match m.m_tib id with
  | none => none
  | some (first, second) =>
    if (first, second) = (none, some lasthop) ∨ (first, second) = (some lasthop, none) then none
    else some (if first = some lasthop then second else first)

/-- The entries with a null end are of user links, with their face; the others have two distinct ends. -/
structure WellFormed (node : Node ι δ π) : Prop where
  ended : ∀ id first second, node.manager.m_tib id = some (first, second) → first = none ∨ second = none →
    (node.userLinks id).isSome ∧ node.manager.m_faceIdTable id = node.userLinks id
  joined : ∀ id first second, node.manager.m_tib id = some (first, second) → first ≠ none → second ≠ none →
    first ≠ second

/-- A payload is forwarded to another device than it has come from. -/
def ForwardsOn (node : Node ι δ π) (turn : Turn ι δ π) : Prop :=
  match turn.event with
  | .ProcessPacket (.LinkPayload id _) lasthop =>
    ∀ nexthop, forwardedTo node.manager id lasthop = some nexthop → nexthop ≠ none ∧ nexthop ≠ some lasthop
  | _ => True

def Sound (node : Node ι δ π) (turn : Turn ι δ π) : Prop := WellFormed (next node turn) ∧ ForwardsOn node turn

/-- An acknowledgement comes from another device than the request, and a payload for the node that has answered comes
from where the request came. -/
def Expected (node : Node ι δ π) (turn : Turn ι δ π) : Prop :=
  match turn.event with
  | .ProcessPacket (.TunnelAck id) lasthop => node.manager.m_prt id ≠ some (some lasthop)
  | .ProcessPacket (.LinkPayload id _) lasthop => ∀ d, node.manager.m_tib id = some (none, some d) → d = lasthop
  | _ => True

structure Kept (node : Node ι δ π) : Prop where
  wellFormed : WellFormed node
  faceIdTable : node.manager.m_faceIdTable = node.userLinks
  idList : ∀ id ∈ node.manager.m_idList, (node.userLinks id).isSome
  requested : ∀ id, node.manager.m_prt id = some none → (node.userLinks id).isSome
  occupied : ∀ id, node.manager.m_tib id ≠ some (none, none)

section Forwarding

variable {host : Host δ} {id : ι} {payload : π} {lasthop : δ} {m m' : Manager ι δ π} {outs : List (Output ι δ π)}

def IsEnd (first second : Option δ) (lasthop : δ) : Prop :=
  (first, second) = (none, some lasthop) ∨ (first, second) = (some lasthop, none)

omit [DecidableEq ι] in
theorem forwardedTo_some {first second : Option δ} (hentry : m.m_tib id = some (first, second)) :
    (IsEnd first second lasthop ∧ forwardedTo m id lasthop = none) ∨
      (¬ IsEnd first second lasthop ∧
        forwardedTo m id lasthop = some (if first = some lasthop then second else first)) := by
  by_cases hends : IsEnd first second lasthop
  · refine Or.inl ⟨hends, ?_⟩
    simp only [forwardedTo, hentry]
    exact if_pos hends
  · refine Or.inr ⟨hends, ?_⟩
    simp only [forwardedTo, hentry]
    exact if_neg hends

theorem processLinkPayload_cases (h : processLinkPayload host id payload lasthop m = .ok (m', outs)) :
    (m.m_tib id = none ∧ outs = [] ∧ m'.m_faceIdTable = m.m_faceIdTable) ∨
    ∃ first second, m.m_tib id = some (first, second) ∧
      ((IsEnd first second lasthop ∧ (∃ face, outs = [.inject face payload]) ∧
        m'.m_faceIdTable = Function.update m.m_faceIdTable id (some ((m.m_faceIdTable id).getD 0))) ∨
      (¬ IsEnd first second lasthop ∧ m'.m_faceIdTable = m.m_faceIdTable ∧
        ∃ d, (if first = some lasthop then second else first) = some d ∧ outs = [.emit d (.LinkPayload id payload)])) := by
  rcases hentry : m.m_tib id with _ | ⟨first, second⟩
  · simp only [processLinkPayload, hentry] at h
    cases h
    exact Or.inl ⟨rfl, rfl, rfl⟩
  · simp only [processLinkPayload, hentry] at h
    refine Or.inr ⟨first, second, rfl, ?_⟩
    split at h
    · rename_i hends
      obtain ⟨face, -, h⟩ := ok_of_bind h
      cases h
      exact Or.inl ⟨hends, ⟨_, rfl⟩, rfl⟩
    · rename_i hends
      obtain ⟨out, hout, h⟩ := ok_of_bind h
      obtain ⟨d, hd, rfl⟩ := emitThrough_ok hout
      cases h
      exact Or.inr ⟨hends, rfl, d, hd, rfl⟩

end Forwarding

section Turns

variable {node : Node ι δ π} {turn : Turn ι δ π}

omit [DecidableEq ι] in
theorem forwardedTo_iff {m : Manager ι δ π} {id : ι} {lasthop : δ} (hoccupied : m.m_tib id ≠ some (none, none))
    (hjoined : ∀ first second, m.m_tib id = some (first, second) → first ≠ none → second ≠ none → first ≠ second) :
    (∀ nexthop, forwardedTo m id lasthop = some nexthop → nexthop ≠ none ∧ nexthop ≠ some lasthop) ↔
      ∀ d, m.m_tib id = some (none, some d) → d = lasthop := by
  constructor
  · intro hforwards d hentry
    rcases @forwardedTo_some _ _ _ _ id lasthop m _ _ hentry with ⟨hend, -⟩ | ⟨-, hnull⟩
    · rcases hend with heq | heq
      · exact Option.some.inj (congrArg Prod.snd heq)
      · cases congrArg Prod.fst heq
    · exact absurd rfl (hforwards none hnull).1
  · intro hend nexthop hnexthop
    rcases hentry : m.m_tib id with _ | ⟨first, second⟩
    · simp [forwardedTo, hentry] at hnexthop
    · rcases @forwardedTo_some _ _ _ _ id lasthop m _ _ hentry with ⟨-, hnone⟩ | ⟨hends, hforwarded⟩
      · rw [hnone] at hnexthop
        cases hnexthop
      · rw [hforwarded] at hnexthop
        cases hnexthop
        by_cases hfirst : first = some lasthop
        · rw [if_pos hfirst]
          have hsecond : second ≠ none := by
            rintro rfl
            exact hends (Or.inr (by rw [hfirst]))
          refine ⟨hsecond, ?_⟩
          rw [← hfirst]
          exact (hjoined first second hentry (by simp [hfirst]) hsecond).symm
        · rw [if_neg hfirst]
          refine ⟨?_, hfirst⟩
          rintro rfl
          cases second with
          | none => exact hoccupied hentry
          | some d => exact hends (Or.inl (by rw [hend d hentry]))

omit [DecidableEq ι] in
theorem forwardsOn_iff (h : Kept node) : ForwardsOn node turn ↔
    ∀ id payload lasthop, turn.event = .ProcessPacket (.LinkPayload id payload) lasthop →
      ∀ d, node.manager.m_tib id = some (none, some d) → d = lasthop := by
  have hiff (id : ι) (lasthop : δ) := @forwardedTo_iff _ _ _ _ node.manager id lasthop (h.occupied id)
    (h.wellFormed.joined id)
  unfold ForwardsOn
  split
  · rename_i id payload lasthop heq
    rw [hiff, heq]
    constructor
    · rintro hends id' payload' lasthop' hsame
      cases hsame
      exact hends
    · exact fun hends => hends id payload lasthop rfl
  · rename_i hother
    exact iff_of_true trivial fun id payload lasthop heq => absurd heq (hother id payload lasthop)

omit [DecidableEq ι] [DecidableEq δ] in
theorem Kept.of_tables {node node' : Node ι δ π} (h : Kept node) (hlinks : node'.userLinks = node.userLinks)
    (htib : node'.manager.m_tib = node.manager.m_tib) (hface : node'.manager.m_faceIdTable = node.manager.m_faceIdTable)
    (hlist : ∀ id ∈ node'.manager.m_idList, id ∈ node.manager.m_idList)
    (hprt : ∀ id, node'.manager.m_prt id = some none → (node.userLinks id).isSome) : Kept node' where
  wellFormed :=
    { ended := by
        rw [htib, hface, hlinks]
        exact h.wellFormed.ended
      joined := by
        rw [htib]
        exact h.wellFormed.joined }
  faceIdTable := by rw [hface, hlinks, h.faceIdTable]
  idList id hid := by
    rw [hlinks]
    exact h.idList id (hlist id hid)
  requested := by
    rw [hlinks]
    exact hprt
  occupied := by
    rw [htib]
    exact h.occupied

omit [DecidableEq δ] in
theorem Kept.of_entry {node node' : Node ι δ π} (h : Kept node) {id : ι} {first second : Option δ}
    (hlinks : node'.userLinks = node.userLinks)
    (htib : node'.manager.m_tib = Function.update node.manager.m_tib id (some (first, second)))
    (hface : node'.manager.m_faceIdTable = node.manager.m_faceIdTable)
    (hlist : ∀ id ∈ node'.manager.m_idList, id ∈ node.manager.m_idList)
    (hprt : ∀ id, node'.manager.m_prt id = some none → node.manager.m_prt id = some none)
    (hended : first = none ∨ second = none → (node.userLinks id).isSome) (hsome : (first, second) ≠ (none, none))
    (hne : first ≠ none → second ≠ none → first ≠ second) : Kept node' where
  wellFormed :=
    { ended := by
        intro id' first' second' hentry hnull
        rw [hlinks, hface, h.faceIdTable]
        refine ⟨?_, rfl⟩
        rw [htib] at hentry
        by_cases hid : id' = id
        · subst hid
          rw [Function.update_self] at hentry
          cases hentry
          exact hended hnull
        · rw [Function.update_of_ne hid] at hentry
          exact (h.wellFormed.ended id' _ _ hentry hnull).1
      joined := by
        intro id' first' second' hentry
        rw [htib] at hentry
        by_cases hid : id' = id
        · subst hid
          rw [Function.update_self] at hentry
          cases hentry
          exact hne
        · rw [Function.update_of_ne hid] at hentry
          exact h.wellFormed.joined id' _ _ hentry }
  faceIdTable := by rw [hface, hlinks, h.faceIdTable]
  idList id hid := by
    rw [hlinks]
    exact h.idList id (hlist id hid)
  requested id hid := by
    rw [hlinks]
    exact h.requested id (hprt id hid)
  occupied id' hentry := by
    rw [htib] at hentry
    by_cases hid : id' = id
    · subst hid
      rw [Function.update_self] at hentry
      exact hsome (Option.some.inj hentry)
    · rw [Function.update_of_ne hid] at hentry
      exact h.occupied id' hentry

theorem Kept.packet {host : Host δ} {packet : ShimPacket ι π} {lasthop : δ} {m : Manager ι δ π}
    {outs : List (Output ι δ π)} (h : Kept node)
    (hack : ∀ id, packet = .TunnelAck id → node.manager.m_prt id ≠ some (some lasthop))
    (hrun : ProcessPacket host packet lasthop node.manager = .ok (m, outs)) : Kept ⟨m, node.userLinks⟩ := by
  cases packet with
  | unrecognized =>
    cases hrun
    exact h
  | LinkPayload id payload =>
    obtain ⟨htib, hprt, hlist, -, -⟩ := processLinkPayload_tables hrun
    refine h.of_tables rfl htib ?_ (fun id' hid => hlist ▸ hid) (fun id' hid => h.requested id' (hprt ▸ hid))
    rcases processLinkPayload_cases hrun with ⟨-, -, hface⟩ | ⟨first, second, hentry, ⟨hends, -, hface⟩ | ⟨-, hface, -⟩⟩
    · exact hface
    · have hnull : first = none ∨ second = none := by
        rcases hends with heq | heq
        · exact Or.inl (congrArg Prod.fst heq)
        · exact Or.inr (congrArg Prod.snd heq)
      obtain ⟨hsome, hsame⟩ := h.wellFormed.ended id first second hentry hnull
      obtain ⟨faceId, hfaceId⟩ := Option.isSome_iff_exists.mp hsome
      rw [hface, hsame, hfaceId, Option.getD_some, ← hfaceId, ← hsame, Function.update_eq_self]
    · exact hface
  | TunnelReq id hopLimit =>
    by_cases hid : id ∈ node.manager.m_idList
    · obtain ⟨-, htib, hprt, hlist, -, hface⟩ := processTunnelReq_answered hid hrun
      exact h.of_entry rfl htib hface (fun id' hid' => List.mem_of_mem_erase (hlist ▸ hid'))
        (fun id' hid' => hprt ▸ hid') (fun _ => h.idList id hid) (by simp) (fun hfirst => absurd rfl hfirst)
    · by_cases hprt : (node.manager.m_prt id).isSome
      · obtain ⟨rfl, -⟩ := processTunnelReq_discarded hid hprt hrun
        exact h.of_tables rfl rfl rfl (fun _ => fun hid => hid) h.requested
      · obtain ⟨-, hprt', htib, hlist, -, hface⟩ := processTunnelReq_flooded hid (by simpa using hprt) hrun
        refine h.of_tables rfl htib hface (fun id' hid' => hlist ▸ hid') (fun id' hid' => ?_)
        simp only [hprt'] at hid'
        by_cases heq : id' = id
        · subst heq
          simp at hid'
        · rw [Function.update_of_ne heq] at hid'
          exact h.requested id' hid'
  | TunnelAck id =>
    cases hprt : node.manager.m_prt id with
    | none =>
      obtain ⟨rfl, -⟩ := processTunnelAck_discarded hprt hrun
      exact h.of_tables rfl rfl rfl (fun _ => fun hid => hid) h.requested
    | some rLasthop =>
      obtain ⟨-, htib, hprt', hlist, -, hface⟩ := processTunnelAck_accepted hprt hrun
      refine h.of_entry rfl htib hface (fun id' hid' => hlist ▸ hid') (fun id' hid' => ?_) ?_ (by simp) ?_
      · simp only [hprt'] at hid'
        by_cases heq : id' = id
        · subst heq
          simp at hid'
        · rwa [Function.update_of_ne heq] at hid'
      · intro hnull
        exact h.requested id (by rw [hprt, hnull.resolve_left (by simp)])
      · rintro - - rfl
        exact hack id rfl hprt

omit [DecidableEq δ] in
theorem Kept.added (h : Kept node) (id : ι) (faceId : ℕ) :
    Kept ⟨AddUserLink id faceId node.manager, Function.update node.userLinks id (some faceId)⟩ := by
  have hstays (id' : ι) (hsome : (node.userLinks id').isSome) :
      (Function.update node.userLinks id (some faceId) id').isSome := by
    by_cases hid : id' = id
    · subst hid
      simp
    · rwa [Function.update_of_ne hid]
  have hface : Function.update node.manager.m_faceIdTable id (some faceId) =
      Function.update node.userLinks id (some faceId) := by rw [h.faceIdTable]
  exact
    { wellFormed :=
        { ended := fun id' first second hentry hnull =>
            ⟨hstays id' (h.wellFormed.ended id' first second hentry hnull).1, congrFun hface id'⟩
          joined := h.wellFormed.joined }
      faceIdTable := hface
      idList := by
        intro id' hid'
        rcases List.mem_append.mp hid' with hold | hnew
        · exact hstays id' (h.idList id' hold)
        · cases List.mem_singleton.mp hnew
          simp
      requested := fun id' hid' => hstays id' (h.requested id' hid')
      occupied := h.occupied }

omit [DecidableEq δ] in
theorem Kept.buffered {packet : π} {id : ι} {m : Manager ι δ π} {outs : List (Output ι δ π)} (h : Kept node)
    (hrun : TunnelPacket packet id node.manager = .ok (m, outs)) : Kept ⟨m, node.userLinks⟩ := by
  obtain ⟨htib, hprt, hlist, hface, -⟩ := TunnelPacket_tables hrun
  exact h.of_tables rfl htib hface (fun id' hid => hlist ▸ hid) (fun id' hid => h.requested id' (hprt ▸ hid))

theorem Kept.broadcast {host : Host δ} {id : ι} (h : Kept node) (hid : (node.userLinks id).isSome) :
    Kept ⟨(BroadcastReq host id 0 none node.manager).1, node.userLinks⟩ := by
  obtain ⟨htib, hlist, -, hface⟩ := BroadcastReq_tables host id 0 none node.manager
  refine h.of_tables rfl htib hface (fun id' hid' => hlist ▸ hid') (fun id' hid' => ?_)
  simp only [BroadcastReq_prt] at hid'
  split at hid'
  · by_cases heq : id' = id
    · rwa [heq]
    · rw [Function.update_of_ne heq] at hid'
      exact h.requested id' hid'
  · exact h.requested id' hid'

theorem Kept.step (h : Kept node) (hdriven : Driven node turn) (hexpected : Expected node turn) :
    Kept (next node turn) := by
  obtain ⟨host, event⟩ := turn
  rcases hrun : handle host event node.manager with fault | ⟨m, outs⟩
  · simp only [next, hrun]
    exact h
  · simp only [next, hrun]
    cases event with
    | TunnelPacket packet id => exact h.buffered hrun
    | AddUserLink id faceId =>
      cases hrun
      exact h.added id faceId
    | BroadcastReq id =>
      obtain rfl : (BroadcastReq host id 0 none node.manager).1 = m := congrArg Prod.fst (Except.ok.inj hrun)
      exact h.broadcast hdriven
    | ProcessPacket packet lasthop =>
      refine h.packet ?_ hrun
      rintro id rfl
      exact hexpected

omit [DecidableEq ι] in
theorem emitThrough_of_face {host : Host δ} {d : δ} {packet : ShimPacket ι π}
    (h : ∃ face ∈ host.faces, face.netDevice = d) : ∃ out, emitThrough host (some d) packet = .ok out := by
  obtain ⟨face, hmem, hface⟩ := h
  obtain ⟨found, hfound⟩ : ∃ found, host.faces.find? (fun face => face.netDevice = d) = some found := by
    refine Option.isSome_iff_exists.mp (List.find?_isSome.mpr ⟨face, hmem, ?_⟩)
    exact decide_eq_true hface
  refine ⟨.emit found.netDevice packet, ?_⟩
  have hsome : deref (some d) = .ok d := rfl
  have hderef : deref (some found) = .ok found := rfl
  simp only [emitThrough, hsome, hfound, hderef, bind, Except.bind]

theorem joined_by_own_ack {host : Host δ} {id : ι} {lasthop : δ}
    (hface : ∃ face ∈ host.faces, face.netDevice = lasthop) (hprt : node.manager.m_prt id = some (some lasthop)) :
    (next node ⟨host, .ProcessPacket (.TunnelAck id) lasthop⟩).manager.m_tib id = some (some lasthop, some lasthop) := by
  obtain ⟨out, hout⟩ := @emitThrough_of_face ι δ π _ host lasthop (.TunnelAck id) hface
  have hrun : ∃ m outs, handle host (.ProcessPacket (.TunnelAck id) lasthop) node.manager = .ok (m, outs) := by
    simp only [handle, ProcessPacket, processTunnelAck, hprt, forwardAck, hout, bind, Except.bind]
    exact ⟨_, _, rfl⟩
  obtain ⟨m, outs, hrun⟩ := hrun
  simp only [next, hrun]
  obtain ⟨-, htib, -, -, -, -⟩ := processTunnelAck_accepted hprt hrun
  rw [htib, Function.update_self]

theorem sound_iff (h : Kept node) (hdriven : Driven node turn) : Sound node turn ↔ Expected node turn := by
  constructor
  · rintro ⟨hformed, hforwards⟩
    rw [forwardsOn_iff h] at hforwards
    obtain ⟨host, event⟩ := turn
    unfold Expected
    split
    · rename_i id lasthop heq
      cases heq
      intro hprt
      exact hformed.joined id _ _ (joined_by_own_ack hdriven hprt) (by simp) (by simp) rfl
    · rename_i id payload lasthop heq
      exact hforwards id payload lasthop heq
    · trivial
  · intro hexpected
    refine ⟨(h.step hdriven hexpected).wellFormed, (forwardsOn_iff h).mpr ?_⟩
    intro id payload lasthop heq
    unfold Expected at hexpected
    rw [heq] at hexpected
    exact hexpected

omit [DecidableEq ι] [DecidableEq δ] in
theorem initial_kept : Kept (Node.initial : Node ι δ π) where
  wellFormed :=
    { ended := by
        intro id first second hentry
        cases hentry
      joined := by
        intro id first second hentry
        cases hentry }
  faceIdTable := rfl
  idList := by
    intro id hid
    cases hid
  requested := by
    intro id hid
    cases hid
  occupied := by
    intro id hentry
    cases hentry

end Turns

/-- The entries stay as they should and every payload is forwarded on, as long as no acknowledgement comes from the
device of its request, and no payload that is not for this end comes to an end that has answered. -/
theorem entries_sound_iff (turns : List (Turn ι δ π)) (hdriven : EachStep next Driven Node.initial turns) :
    EachStep next Sound Node.initial turns ↔ EachStep next Expected Node.initial turns := by
  have hstep (node : Node ι δ π) (turn : Turn ι δ π) (hkept : Kept node) (hdriven : Driven node turn)
      (hsound : Sound node turn) : Kept (next node turn) :=
    hkept.step hdriven ((sound_iff hkept hdriven).mp hsound)
  exact eachStep_iff hstep (fun _ _ hkept hdriven => sound_iff hkept hdriven) initial_kept hdriven

section Example

def oneFace : Host ℕ := ⟨6, [⟨256, 1, false⟩]⟩

def answering : List (Turn ℕ ℕ ℕ) :=
  [⟨oneFace, .AddUserLink 0 256⟩, ⟨oneFace, .ProcessPacket (.TunnelReq 0 5) 1⟩,
    ⟨oneFace, .ProcessPacket (.LinkPayload 0 7) 1⟩]

theorem entries_sound_iff_answering :
    EachStep next Sound Node.initial answering ↔ EachStep next Expected Node.initial answering :=
  entries_sound_iff answering
    ⟨trivial, ⟨⟨256, 1, false⟩, by decide, rfl⟩, ⟨⟨256, 1, false⟩, by decide, rfl⟩, trivial⟩

def turnsOf {ν : Type} [DecidableEq ν] (T : Topology ν δ) (n : ν) (trace : List (Record ν δ ι π)) : List (Turn ι δ π) :=
  trace.filterMap (fun record => if record.node = n then some ⟨T.host n, record.event⟩ else none)

/-- One of the nodes receives the request again, from another node, when it has been acknowledged. -/
def lateRequest {ν : Type} (requester : ν) : List (Label ν δ ℕ ℕ) :=
  .call requester (.BroadcastReq 0) :: deliveries [0, 1, 1, 2, 2, 2, 2, 1, 2, 3, 0, 2]

def relayed (host : Host δ) (first answering late : δ) : List (Turn ℕ δ ℕ) :=
  [⟨host, .ProcessPacket (.TunnelReq 0 4) first⟩, ⟨host, .ProcessPacket (.TunnelAck 0) answering⟩,
    ⟨host, .ProcessPacket (.TunnelReq 0 5) late⟩, ⟨host, .ProcessPacket (.TunnelAck 0) late⟩]

/-- The request comes to 2 from 3, and then from 1. -/
theorem relayed_not_sound :
    (run handover (lateRequest 0) attached).map (fun r => turnsOf handover 2 r.1) =
      some (relayed (handover.host 2) (2, 3) (2, 4) (2, 1)) ∧
    EachStep next Driven Node.initial (relayed (handover.host 2) (2, 3) (2, 4) (2, 1)) ∧
    ¬ EachStep next Sound Node.initial (relayed (handover.host 2) (2, 3) (2, 4) (2, 1)) := by
  have hface : ∀ n, n = 1 ∨ n = 3 ∨ n = 4 → ∃ face ∈ (handover.host 2).faces, face.netDevice = (2, n) := by decide
  refine ⟨rfl, ⟨hface 3 (by decide), hface 4 (by decide), hface 1 (by decide), hface 1 (by decide), trivial⟩, ?_⟩
  rintro ⟨-, -, -, ⟨hformed, -⟩, -⟩
  exact hformed.joined 0 (some (2, 1)) (some (2, 1)) (by decide) (by decide) (by decide) rfl

end Example

end LeoNdn.HandoverEntries
