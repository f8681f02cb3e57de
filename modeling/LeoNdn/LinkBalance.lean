import Mathlib.Logic.Relation
import LeoNdn.FlowBalance

/-!
A network of forwarders. A link may lose, delay and reorder packets, but delivers
none twice; whatever the strategies do and in whatever order packets arrive, the
Data and Nacks that a node is given on a link answer Interests of its own that it
has sent there.
-/

namespace LeoNdn.LinkBalance

open LeoNdn.NdnPacket LeoNdn.PitPipelines LeoNdn.FlowBalance
open LeoNdn.Forwarder (Face)

section Relations

variable {α β : Type} {r : α → β → Prop} {s : Multiset α} {t t' : Multiset β}

theorem rel_of_forall₂ {as : List α} {bs : List β} (h : List.Forall₂ r as bs) : Multiset.Rel r as bs := by
  induction h with
  | nil => exact Multiset.Rel.zero
  | cons hfirst _ ih => exact Multiset.Rel.cons hfirst ih

theorem exists_rel_of_le (h : Multiset.Rel r s t) (hle : t' ≤ t) : ∃ s' ≤ s, Multiset.Rel r s' t' := by
  obtain ⟨rest, rfl⟩ := Multiset.le_iff_exists_add.mp hle
  obtain ⟨s', s'', hs', -, rfl⟩ := Multiset.rel_add_right.mp h
  exact ⟨s', Multiset.le_add_right _ _, hs'⟩

theorem rel_filter {p : α → Prop} {q : β → Prop} [DecidablePred p] [DecidablePred q] (hpq : ∀ a b, r a b → (p a ↔ q b))
    (h : Multiset.Rel r s t) : Multiset.Rel r (s.filter p) (t.filter q) := by
  induction h with
  | zero => exact Multiset.Rel.zero
  | @cons a b s t hab _ ih =>
    by_cases hq : q b
    · rw [Multiset.filter_cons_of_pos _ ((hpq a b hab).mpr hq), Multiset.filter_cons_of_pos _ hq]
      exact Multiset.Rel.cons hab ih
    · rw [Multiset.filter_cons_of_neg _ (mt (hpq a b hab).mp hq), Multiset.filter_cons_of_neg _ hq]
      exact ih

end Relations

/-- The faces that links join, of a node each. -/
structure Wiring (ν : Type) where
  peer : ν × Face → Option (ν × Face)
  peer_peer : ∀ source target, peer source = some target → peer target = some source

/-- A packet in flight stands with the face that it was sent on, one that has been
delivered with the face that it came in on. -/
structure Network (ν σ κ δ : Type) where
  nodes : ν → State σ κ δ
  inFlight : Multiset ((ν × Face) × Packet σ)
  delivered : Multiset ((ν × Face) × Packet σ)

variable {ν σ κ δ : Type}

/-- A link does not carry the tag of the next hop. -/
def untagged (interest : Interest σ) : Interest σ := { interest with nextHopFaceIdTag := none }

inductive Arrives (face : Face) : Packet σ → Event σ κ δ → Prop
  | interest {interest : Interest σ} {actions : List (Action σ)} :
    Arrives face (.interest interest) (.incomingInterest face (untagged interest) actions)
  | data {data : Data} {actions : ℕ → List (Action σ)} : Arrives face (.data data) (.incomingData face data actions)
  | nack {reason : ℕ} {interest : Interest σ} {actions : List (Action σ)} :
    Arrives face (.nack reason interest) (.incomingNack face reason (untagged interest) actions)

def arrivalFace : Event σ κ δ → Option Face
  | .incomingInterest inFace _ _ => some inFace
  | .incomingData inFace _ _ => some inFace
  | .incomingNack inFace _ _ _ => some inFace
  | _ => none

def sentBy (n : ν) (sent : List (Face × Packet σ)) : Multiset ((ν × Face) × Packet σ) :=
  sent.map (fun sent => ((n, sent.1), sent.2))

/-- A node takes a step of its own, with packets that come from no link, a packet is
delivered, or it is lost. -/
inductive Step [DecidableEq ν] [DecidableEq σ] (W : Wiring ν) (ctx : ν → Context σ κ δ) (network : Network ν σ κ δ) :
    Network ν σ κ δ → Prop
  | own (n : ν) (event : Event σ κ δ) (s : State σ κ δ) (sent : List (Face × Packet σ))
    (hface : ∀ face, arrivalFace event = some face → W.peer (n, face) = none)
    (hreturns : Returns (ctx n) (network.nodes n) event) (hstep : step (ctx n) (network.nodes n) event = some s)
    (hsent : s.sent = (network.nodes n).sent ++ sent) :
    Step W ctx network { network with
      nodes := Function.update network.nodes n s
      inFlight := network.inFlight + sentBy n sent }
  | deliver (source target : ν × Face) (packet : Packet σ) (rest : Multiset ((ν × Face) × Packet σ))
    (event : Event σ κ δ) (s : State σ κ δ) (sent : List (Face × Packet σ))
    (hflight : network.inFlight = (source, packet) ::ₘ rest) (hpeer : W.peer source = some target)
    (harrives : Arrives target.2 packet event)
    (hreturns : Returns (ctx target.1) (network.nodes target.1) event)
    (hstep : step (ctx target.1) (network.nodes target.1) event = some s)
    (hsent : s.sent = (network.nodes target.1).sent ++ sent) :
    Step W ctx network { network with
      nodes := Function.update network.nodes target.1 s
      inFlight := rest + sentBy target.1 sent
      delivered := (target, packet) ::ₘ network.delivered }
  | lose (source : ν × Face) (packet : Packet σ) (rest : Multiset ((ν × Face) × Packet σ))
    (hflight : network.inFlight = (source, packet) ::ₘ rest) :
    Step W ctx network { network with inFlight := rest }

def Network.initial (m_cs : ν → κ) (m_deadNonceList : ν → δ) : Network ν σ κ δ :=
  ⟨fun n => State.initial (m_cs n) (m_deadNonceList n), 0, 0⟩

section Packets

variable [DecidableEq ν]

def packetsAt (place : ν × Face) (packets : Multiset ((ν × Face) × Packet σ)) : Multiset (Packet σ) :=
  (packets.filter (fun packet => packet.1 = place)).map Prod.snd

def sentOn (face : Face) (sent : List (Face × Packet σ)) : Multiset (Packet σ) :=
  (Multiset.filter (fun sent => sent.1 = face) (Multiset.ofList sent)).map Prod.snd

def stripped (interest : Interest σ) : Interest σ :=
  { interest with m_forwardingHint := [], nextHopFaceIdTag := none }

def interestOf : Packet σ → Option (Interest σ)
  | .interest interest => some (stripped interest)
  | _ => none

def interestsIn (packets : Multiset (Packet σ)) : Multiset (Interest σ) := packets.filterMap interestOf

def repliesOf (packets : Multiset (Packet σ)) : Multiset (Packet σ) :=
  packets.filter (fun packet : Packet σ => isReply packet = true)

inductive IsAnswer (ctx : Context σ κ δ) : Interest σ → Packet σ → Prop
  | data {interest : Interest σ} {data : Data} (hmatches : ctx.matchesData interest data = true) :
    IsAnswer ctx interest (.data data)
  | nack {interest : Interest σ} {reason : ℕ} : IsAnswer ctx (stripped interest) (.nack reason interest)

variable {place : ν × Face} {n : ν} {packet : Packet σ} {packets packets' : Multiset ((ν × Face) × Packet σ)}

@[simp]
theorem packetsAt_add : packetsAt place (packets + packets') = packetsAt place packets + packetsAt place packets' := by
  rw [packetsAt, Multiset.filter_add, Multiset.map_add]
  rfl

theorem packetsAt_cons_self : packetsAt place ((place, packet) ::ₘ packets) = packet ::ₘ packetsAt place packets := by
  simp [packetsAt]

theorem packetsAt_cons_of_ne {other : ν × Face} (hne : other ≠ place) :
    packetsAt place ((other, packet) ::ₘ packets) = packetsAt place packets := by
  simp [packetsAt, hne]

theorem packetsAt_sentBy_self (face : Face) (sent : List (Face × Packet σ)) :
    packetsAt (n, face) (sentBy n sent) = sentOn face sent := by
  induction sent with
  | nil => rfl
  | cons first sent ih =>
    have hcons : sentBy n (first :: sent) = ((n, first.1), first.2) ::ₘ sentBy n sent := rfl
    rw [hcons]
    by_cases hface : first.1 = face
    · rw [hface, packetsAt_cons_self, ih]
      simp [sentOn, hface]
    · rw [packetsAt_cons_of_ne (fun heq => hface (Prod.mk.inj heq).2), ih]
      simp [sentOn, hface]

theorem packetsAt_sentBy_of_ne (hne : n ≠ place.1) (sent : List (Face × Packet σ)) :
    packetsAt place (sentBy n sent) = 0 := by
  induction sent with
  | nil => rfl
  | cons first sent ih =>
    have hcons : sentBy n (first :: sent) = ((n, first.1), first.2) ::ₘ sentBy n sent := rfl
    rw [hcons, packetsAt_cons_of_ne (fun heq => hne (congrArg Prod.fst heq)), ih]

theorem sentOn_append (face : Face) (sent sent' : List (Face × Packet σ)) :
    sentOn face (sent ++ sent') = sentOn face sent + sentOn face sent' := by
  rw [sentOn, ← Multiset.coe_add, Multiset.filter_add, Multiset.map_add]
  rfl

theorem sentOn_update {nodes : ν → State σ κ δ} {s : State σ κ δ} {sent : List (Face × Packet σ)}
    (hsent : s.sent = (nodes n).sent ++ sent) (place : ν × Face) :
    sentOn place.2 (Function.update nodes n s place.1).sent =
      sentOn place.2 (nodes place.1).sent + packetsAt place (sentBy n sent) := by
  obtain ⟨m, face⟩ := place
  by_cases hn : n = m
  · subst hn
    rw [Function.update_self, hsent, sentOn_append, packetsAt_sentBy_self]
  · rw [Function.update_of_ne (Ne.symm hn), packetsAt_sentBy_of_ne hn, add_zero]

end Packets

section Conservation

variable [DecidableEq ν] {W : Wiring ν} {ctx : ν → Context σ κ δ} {network network' : Network ν σ κ δ}

def requestsOn (face : Face) (requests : Multiset (Request σ)) : Multiset (Interest σ) :=
  (requests.filter (fun request => request.1 = face)).map (fun request => stripped request.2)

/-- What has been delivered and what is in flight have been sent, and the Interests
that have come in from a link have been delivered. -/
structure Conserved (W : Wiring ν) (ctx : ν → Context σ κ δ) (requests : ν → Multiset (Request σ))
    (network : Network ν σ κ δ) : Prop where
  balanced : ∀ n, Balanced (ctx n) (network.nodes n, requests n)
  carried : ∀ source target, W.peer source = some target →
    packetsAt target network.delivered + packetsAt source network.inFlight ≤
      sentOn source.2 (network.nodes source.1).sent
  requested : ∀ source target, W.peer source = some target →
    requestsOn target.2 (requests target.1) ≤ interestsIn (packetsAt target network.delivered)

theorem conserved_initial (m_cs : ν → κ) (m_deadNonceList : ν → δ) :
    Conserved W ctx (fun _ => 0) (Network.initial m_cs m_deadNonceList) where
  balanced n := Balanced.initial (m_cs n) (m_deadNonceList n)
  carried _ _ _ := Multiset.zero_le _
  requested _ _ _ := Multiset.zero_le _

variable {requests : ν → Multiset (Request σ)} {n : ν} {s : State σ κ δ} {sent : List (Face × Packet σ)}
  {event : Event σ κ δ}

theorem Conserved.node [DecidableEq σ] (h : Conserved W ctx requests network) (hctx : ∀ n, Sound (ctx n))
    (hreturns : Returns (ctx n) (network.nodes n) event) (hstep : step (ctx n) (network.nodes n) event = some s)
    (hsent : s.sent = (network.nodes n).sent ++ sent)
    {inFlight delivered : Multiset ((ν × Face) × Packet σ)}
    (hmoved : ∀ source target, W.peer source = some target →
      packetsAt target delivered + packetsAt source inFlight ≤
        packetsAt target network.delivered + packetsAt source network.inFlight)
    (hgrown : ∀ place, packetsAt place network.delivered ≤ packetsAt place delivered)
    (harrived : ∀ source face, W.peer source = some (n, face) →
      requestsOn face (requests n) + requestsOn face (received event) ≤ interestsIn (packetsAt (n, face) delivered)) :
    Conserved W ctx (Function.update requests n (requests n + received event))
      ⟨Function.update network.nodes n s, inFlight + sentBy n sent, delivered⟩ where
  balanced m := by
    dsimp only
    by_cases hm : m = n
    · subst hm
      rw [Function.update_self, Function.update_self]
      exact (h.balanced m).settles (settles_step (hctx m) (h.balanced m).valid hreturns hstep)
    · rw [Function.update_of_ne hm, Function.update_of_ne hm]
      exact h.balanced m
  carried source target hpeer := by
    dsimp only
    rw [sentOn_update hsent, packetsAt_add, ← add_assoc]
    gcongr
    exact (hmoved source target hpeer).trans (h.carried source target hpeer)
  requested source target hpeer := by
    by_cases hn : target.1 = n
    · obtain ⟨m, face⟩ := target
      dsimp only at hn
      subst hn
      rw [Function.update_self, requestsOn, Multiset.filter_add, Multiset.map_add]
      exact harrived source face hpeer
    · rw [Function.update_of_ne hn]
      exact (h.requested source target hpeer).trans (Multiset.filterMap_le_filterMap _ (hgrown target))

theorem requestsOn_received_none {face : Face} (hface : arrivalFace event ≠ some face) :
    requestsOn face (received event) = 0 := by
  cases event with
  | incomingInterest inFace interest actions =>
    have hne : inFace ≠ face := fun heq => hface (by rw [arrivalFace, heq])
    simp [received, requestsOn, request, hne]
  | _ => rfl

theorem requestsOn_received {face : Face} {packet : Packet σ} (harrives : Arrives face packet event) :
    requestsOn face (received event) ≤ interestsIn {packet} := by
  cases harrives with
  | @interest interest actions =>
    have hinterest : interestsIn {Packet.interest interest} = {stripped interest} :=
      Multiset.filterMap_cons_some interestOf _ 0 rfl
    rw [hinterest]
    simp [received, requestsOn, request, stripped, untagged, Multiset.filter_singleton]
  | data => exact Multiset.zero_le _
  | nack => exact Multiset.zero_le _

theorem conserved_step [DecidableEq σ] (h : Conserved W ctx requests network) (hctx : ∀ n, Sound (ctx n))
    (hstep : Step W ctx network network') : ∃ requests', Conserved W ctx requests' network' := by
  cases hstep with
  | own n event s sent hface hreturns hnext hsent =>
    refine ⟨_, h.node hctx hreturns hnext hsent (fun _ _ _ => le_refl _) (fun _ => le_refl _) ?_⟩
    intro source face hpeer
    have hnone : arrivalFace event ≠ some face := by
      intro harrival
      have hback := W.peer_peer source (n, face) hpeer
      rw [hface face harrival] at hback
      cases hback
    rw [requestsOn_received_none hnone, add_zero]
    exact h.requested source (n, face) hpeer
  | deliver source target packet rest event s sent hflight hpeer harrives hreturns hnext hsent =>
    refine ⟨_, h.node hctx hreturns hnext hsent ?_ ?_ ?_⟩
    · intro source' target' hpeer'
      by_cases htarget : target = target'
      · subst htarget
        have hsource : source' = source := by
          have heq := (W.peer_peer source' target hpeer').symm.trans (W.peer_peer source target hpeer)
          exact Option.some.inj heq
        rw [hsource, hflight, packetsAt_cons_self, packetsAt_cons_self, Multiset.cons_add, Multiset.add_cons]
      · have hsource : source ≠ source' := by
          rintro rfl
          rw [hpeer] at hpeer'
          exact htarget (Option.some.inj hpeer')
        rw [hflight, packetsAt_cons_of_ne htarget, packetsAt_cons_of_ne hsource]
    · intro place
      by_cases htarget : target = place
      · rw [htarget, packetsAt_cons_self]
        exact Multiset.le_cons_self _ _
      · rw [packetsAt_cons_of_ne htarget]
    · intro source' face hpeer'
      by_cases hface : target.2 = face
      · have htarget : target = (target.1, face) := Prod.ext rfl hface
        rw [← htarget, packetsAt_cons_self, ← Multiset.singleton_add, interestsIn, Multiset.filterMap_add, add_comm]
        rw [← htarget] at hpeer'
        rw [← hface]
        exact add_le_add (requestsOn_received harrives) (h.requested source' target hpeer')
      · have hnone : arrivalFace event ≠ some face := by
          intro harrival
          cases harrives <;> exact hface (Option.some.inj harrival)
        rw [requestsOn_received_none hnone, add_zero, packetsAt_cons_of_ne (fun heq => hface (congrArg Prod.snd heq))]
        exact h.requested source' (target.1, face) hpeer'
  | lose source packet rest hflight =>
    refine ⟨requests, h.balanced, ?_, h.requested⟩
    intro source' target' hpeer'
    refine le_trans ?_ (h.carried source' target' hpeer')
    rw [hflight, ← Multiset.singleton_add, packetsAt_add]
    gcongr
    exact Multiset.le_add_left _ _

theorem exists_conserved [DecidableEq σ] (hctx : ∀ n, Sound (ctx n)) (m_cs : ν → κ) (m_deadNonceList : ν → δ)
    (hrun : Relation.ReflTransGen (Step W ctx) (Network.initial m_cs m_deadNonceList) network) :
    ∃ requests, Conserved W ctx requests network := by
  induction hrun with
  | refl => exact ⟨_, conserved_initial m_cs m_deadNonceList⟩
  | tail _ hstep ih =>
    obtain ⟨requests, h⟩ := ih
    exact conserved_step h hctx hstep

end Conservation

section Answers

variable {ctx : Context σ κ δ} {s : State σ κ δ} {requests : Multiset (Request σ)} {face : Face}

theorem repliesOf_sentOn (face : Face) (sent : List (Face × Packet σ)) :
    repliesOf (sentOn face sent) =
      (Multiset.filter (fun reply => reply.1 = face) (Multiset.ofList (repliesIn sent))).map Prod.snd := by
  have hreplies : Multiset.ofList (repliesIn sent) =
      Multiset.filter (fun sent : Face × Packet σ => isReply sent.2 = true) (Multiset.ofList sent) := by
    simp [repliesIn]
  rw [repliesOf, sentOn, hreplies, Multiset.filter_map, Multiset.filter_filter, Multiset.filter_filter]
  simp only [Function.comp_apply, and_comm]

theorem rel_isAnswer (h : Balanced ctx (s, requests)) (hctx : Sound ctx) (face : Face) :
    ∃ answered ≤ requestsOn face requests, Multiset.Rel (IsAnswer ctx) answered (repliesOf (sentOn face s.sent)) := by
  obtain ⟨answered, hanswers, hle⟩ := h.answered
  have hface (request : Request σ) (reply : Face × Packet σ) (hanswer : Answers ctx request reply) :
      request.1 = face ↔ reply.1 = face := by cases hanswer <;> exact Iff.rfl
  have hrel := rel_filter hface (rel_of_forall₂ hanswers)
  refine ⟨requestsOn face answered, ?_, ?_⟩
  · exact Multiset.map_le_map (Multiset.filter_le_filter _ ((Multiset.le_add_right _ _).trans hle))
  · rw [repliesOf_sentOn, requestsOn]
    refine Multiset.rel_map.mpr (hrel.mono fun request _ reply _ hanswer => ?_)
    cases hanswer with
    | @data face interest data hmatches =>
      refine IsAnswer.data ?_
      rw [← hmatches]
      exact hctx.matchesData_eq _ _ data rfl rfl
    | @nack face interest reason =>
      change IsAnswer ctx (stripped interest) (.nack reason interest)
      exact IsAnswer.nack

end Answers

section Links

variable [DecidableEq ν] [DecidableEq σ] {W : Wiring ν} {ctx : ν → Context σ κ δ} {network : Network ν σ κ δ}

/-- Each Data and each Nack that a node has been given on a link answers an Interest
of its own that the node has sent there. -/
theorem delivered_replies_answer_interests (hctx : ∀ n, Sound (ctx n)) (m_cs : ν → κ) (m_deadNonceList : ν → δ)
    (hrun : Relation.ReflTransGen (Step W ctx) (Network.initial m_cs m_deadNonceList) network) {source target : ν × Face}
    (hpeer : W.peer source = some target) :
    ∃ answered ≤ interestsIn (sentOn target.2 (network.nodes target.1).sent),
      Multiset.Rel (IsAnswer (ctx source.1)) answered (repliesOf (packetsAt target network.delivered)) := by
  obtain ⟨requests, hconserved⟩ := exists_conserved hctx m_cs m_deadNonceList hrun
  obtain ⟨answered, hanswered, hrel⟩ :=
    rel_isAnswer (hconserved.balanced source.1) (hctx source.1) source.2
  have hback := W.peer_peer source target hpeer
  have hdelivered : packetsAt target network.delivered ≤ sentOn source.2 (network.nodes source.1).sent :=
    (Multiset.le_add_right _ _).trans (hconserved.carried source target hpeer)
  have hsent : packetsAt source network.delivered ≤ sentOn target.2 (network.nodes target.1).sent :=
    (Multiset.le_add_right _ _).trans (hconserved.carried target source hback)
  obtain ⟨answered', hle, hrel'⟩ := exists_rel_of_le hrel (Multiset.filter_le_filter _ hdelivered)
  refine ⟨answered', ?_, hrel'⟩
  calc answered' ≤ answered := hle
    _ ≤ requestsOn source.2 (requests source.1) := hanswered
    _ ≤ interestsIn (packetsAt source network.delivered) := hconserved.requested target source hback
    _ ≤ interestsIn (sentOn target.2 (network.nodes target.1).sent) := Multiset.filterMap_le_filterMap _ hsent

end Links

section Example

open PitTimers (plainContext faceOf)

def linkPeer (place : Bool × Face) : Option (Bool × Face) :=
  if place = (false, faceOf 257) then some (true, faceOf 258)
  else if place = (true, faceOf 258) then some (false, faceOf 257)
  else none

theorem linkPeer_linkPeer (source target : Bool × Face) (h : linkPeer source = some target) :
    linkPeer target = some source := by
  unfold linkPeer at h
  split at h
  · rename_i hsource
    cases h
    rw [hsource]
    decide
  · split at h
    · rename_i hsource
      cases h
      rw [hsource]
      decide
    · cases h

def link : Wiring Bool := ⟨linkPeer, linkPeer_linkPeer⟩

/-- An Interest that goes on to the link, to the application at its other end, and
the Data that comes back. -/
def asks : Event Unit Unit (List (Name × ℕ)) :=
  .incomingInterest (faceOf 256) (PitTimers.interestOf 1) [.sendInterest (faceOf 257) (PitTimers.interestOf 1)]

def passes : Event Unit Unit (List (Name × ℕ)) :=
  .incomingInterest (faceOf 258) (PitTimers.interestOf 1) [.sendInterest (faceOf 259) (PitTimers.interestOf 1)]

def answers : Event Unit Unit (List (Name × ℕ)) := .incomingData (faceOf 259) answerOf (returnTo (faceOf 258))

def returns : Event Unit Unit (List (Name × ℕ)) := .incomingData (faceOf 257) answerOf (returnTo (faceOf 256))

def start : State Unit Unit (List (Name × ℕ)) := State.initial () []

def after (s : State Unit Unit (List (Name × ℕ))) (event : Event Unit Unit (List (Name × ℕ))) :
    State Unit Unit (List (Name × ℕ)) := (step plainContext s event).getD s

def askedNetwork : Network Bool Unit Unit (List (Name × ℕ)) :=
  ⟨Function.update (fun _ => start) false (after start asks),
    0 + sentBy false [(faceOf 257, .interest (PitTimers.interestOf 1))], 0⟩

def passedNetwork : Network Bool Unit Unit (List (Name × ℕ)) :=
  ⟨Function.update askedNetwork.nodes true (after start passes),
    0 + sentBy true [(faceOf 259, .interest (PitTimers.interestOf 1))],
    ((true, faceOf 258), .interest (PitTimers.interestOf 1)) ::ₘ 0⟩

def answeredNetwork : Network Bool Unit Unit (List (Name × ℕ)) :=
  { passedNetwork with
    nodes := Function.update passedNetwork.nodes true (after (after start passes) answers)
    inFlight := passedNetwork.inFlight + sentBy true [(faceOf 258, .data answerOf)] }

def returnedNetwork : Network Bool Unit Unit (List (Name × ℕ)) :=
  ⟨Function.update answeredNetwork.nodes false (after (after start asks) returns),
    passedNetwork.inFlight + sentBy false [(faceOf 256, .data answerOf)],
    ((false, faceOf 257), .data answerOf) ::ₘ answeredNetwork.delivered⟩

theorem returns_sendInterest (s : State Unit Unit (List (Name × ℕ))) (inFace outFace : Face) :
    Returns plainContext s (.incomingInterest inFace (PitTimers.interestOf 1)
      [.sendInterest outFace (PitTimers.interestOf 1)]) := by
  refine Or.inl fun action haction => ?_
  rw [List.mem_singleton.mp haction]
  rfl

theorem unlinked {n : Bool} {inFace : Face} (hnone : linkPeer (n, inFace) = none) (face : Face)
    (hface : some inFace = some face) : link.peer (n, face) = none := by
  rw [← Option.some.inj hface]
  exact hnone

theorem delivered_replies_answer_interests_link :
    repliesOf (packetsAt (false, faceOf 257) returnedNetwork.delivered) = {.data answerOf} ∧
      ∃ answered ≤ interestsIn (sentOn (faceOf 257) (returnedNetwork.nodes false).sent),
        Multiset.Rel (IsAnswer plainContext) answered
          (repliesOf (packetsAt (false, faceOf 257) returnedNetwork.delivered)) := by
  have hanswers : Returns plainContext (after start passes) answers :=
    isDataHook_returnTo (by decide) (by decide)
  have hreturns : Returns plainContext (after start asks) returns :=
    isDataHook_returnTo (by decide) (by decide)
  have hask : Step link (fun _ => plainContext) (Network.initial (fun _ => ()) (fun _ => [])) askedNetwork :=
    Step.own false asks (after start asks) _ (unlinked (by decide)) (returns_sendInterest _ _ _) rfl rfl
  have hpass : Step link (fun _ => plainContext) askedNetwork passedNetwork :=
    Step.deliver (false, faceOf 257) (true, faceOf 258) _ 0 passes (after start passes) _ (by decide) rfl
      Arrives.interest (returns_sendInterest _ _ _) rfl rfl
  have hanswer : Step link (fun _ => plainContext) passedNetwork answeredNetwork :=
    Step.own true answers (after (after start passes) answers) _ (unlinked (by decide)) hanswers rfl rfl
  have hreturn : Step link (fun _ => plainContext) answeredNetwork returnedNetwork :=
    Step.deliver (true, faceOf 258) (false, faceOf 257) (.data answerOf) passedNetwork.inFlight returns
      (after (after start asks) returns) _ (Multiset.add_comm _ _) rfl Arrives.data hreturns rfl rfl
  have hrun := (((Relation.ReflTransGen.single hask).tail hpass).tail hanswer).tail hreturn
  have hpeer : link.peer (true, faceOf 258) = some (false, faceOf 257) := by decide
  have hanswered := delivered_replies_answer_interests (fun _ => sound_plainContext) (fun _ => ()) (fun _ => []) hrun hpeer
  have hdata : packetsAt (false, faceOf 257) returnedNetwork.delivered = {.data answerOf} := by
    rw [returnedNetwork, packetsAt_cons_self]
    change _ ::ₘ packetsAt _ (((true, faceOf 258), .interest (PitTimers.interestOf 1)) ::ₘ 0) = _
    rw [packetsAt_cons_of_ne (by decide)]
    rfl
  refine ⟨?_, ?_⟩
  · rw [hdata]
    rfl
  · exact hanswered

end Example

end LeoNdn.LinkBalance
