import LeoNdn.HandoverFlood
import LeoNdn.HopLimits

/-!
How far the copies of a tunnel request come, and how many of them there are.
-/

namespace LeoNdn.HandoverHops

open LeoNdn.HandoverManager LeoNdn.ReversePath LeoNdn.HandoverNetwork LeoNdn.HandoverFlood LeoNdn.HopLimits

variable {ν δ ι π : Type} [DecidableEq ν] [DecidableEq δ] [DecidableEq ι]

def IsUp (T : Topology ν δ) (d : δ) : Prop := ∃ face ∈ T.faces (T.owner d), face.netDevice = d ∧ face.m_isGone = false

/-- A request goes to all faces that are not gone but the one that it has come from. -/
def relayOf (T : Topology ν δ) : Relay ν δ where
  limit := T.m_hopLimit
  devices n lasthop := (floodFaces (T.host n) lasthop).map NodeFace.netDevice

section Relays

variable {T : Topology ν δ} {id : ι} {label : Label ν δ ι π} {net net' : Net ν δ ι π} {record : Record ν δ ι π}

omit [DecidableEq ν] in
theorem relayOf_isUp (n : ν) (lasthop : Option δ) : ∀ d ∈ (relayOf T).devices n lasthop, IsUp T d := by
  intro d hd
  obtain ⟨face, hface, rfl⟩ := List.mem_map.mp hd
  obtain ⟨hmem, hkept⟩ := List.mem_filter.mp hface
  have howner := T.owner_face n face hmem
  refine ⟨face, by rwa [howner], rfl, ?_⟩
  cases hgone : face.m_isGone with
  | false => rfl
  | true => simp [hgone] at hkept

omit [DecidableEq ν] in
theorem copiesOf_floodOutputs (n : ν) (hopLimit : ℕ) (lasthop : Option δ) :
    copiesOf id (floodOutputs (π := π) (T.host n) id hopLimit lasthop) = (relayOf T).copies n lasthop hopLimit := by
  have hleft : (relayOf T).left hopLimit = remainingHops (T.host n) hopLimit := rfl
  unfold floodOutputs Relay.copies
  rw [hleft]
  split
  · rfl
  · rw [copiesOf, emissions, List.filterMap_map, List.filterMap_filterMap, relayOf, List.map_map]
    simp [requestOf, Function.comp_def]

theorem perform_handle {n : ν} {event : Event ι δ π} (h : perform T n event net = some (record, net')) :
    ∃ m, handle (T.host record.node) record.event record.before = .ok (m, record.outs) := by
  unfold perform at h
  split at h
  · cases h
  · rename_i m outs hhandle
    cases h
    exact ⟨m, hhandle⟩

theorem step_handle (h : step T label net = some (record, net')) :
    ∃ m, handle (T.host record.node) record.event record.before = .ok (m, record.outs) := by
  cases label with
  | call n event =>
    simp only [step] at h
    split at h
    · cases h
    · exact perform_handle h
  | deliver i =>
    simp only [step] at h
    split at h
    · cases h
    · exact perform_handle h

theorem actOf_sends (h : step T label net = some (record, net')) :
    ∀ a, actOf T id record = some a → (relayOf T).Sends T.toWiring a := by
  intro a ha
  obtain ⟨m, hhandle⟩ := step_handle h
  have hnext (packet : ShimPacket ι π) (lasthop : δ) := step_next packet lasthop h
  obtain ⟨n, event, before, outs⟩ := record
  cases event with
  | TunnelPacket packet tunnelId => cases ha
  | AddUserLink id' faceId =>
    simp only [actOf] at ha
    split at ha <;> cases ha
    trivial
  | BroadcastReq id' =>
    simp only [actOf] at ha
    split at ha
    · rename_i hstart
      cases ha
      have houts : (BroadcastReq (T.host n) id' 0 none before).2 = outs := congrArg Prod.snd (Except.ok.inj hhandle)
      rw [BroadcastReq_outs, hstart.1] at houts
      rw [← houts]
      exact copiesOf_floodOutputs n 0 none
    · cases ha
  | ProcessPacket packet lasthop =>
    have hnode := hnext packet lasthop rfl
    cases packet with
    | LinkPayload id' payload => cases ha
    | unrecognized => cases ha
    | TunnelAck id' =>
      simp only [actOf] at ha
      split_ifs at ha <;> cases ha <;> trivial
    | TunnelReq id' hopLimit =>
      simp only [actOf] at ha
      split_ifs at ha with hid hmem hprt
      · cases ha
        trivial
      · cases ha
        trivial
      · cases ha
        obtain rfl := hid
        have houts := (processTunnelReq_flooded hmem (by simpa using hprt) hhandle).1
        simp only at houts hnode
        rw [houts]
        simp only [Relay.Sends, T.peer_peer, hnode]
        exact copiesOf_floodOutputs n hopLimit (some lasthop)

end Relays

section Runs

variable {T : Topology ν δ} {id : ι} {labels : List (Label ν δ ι π)} {net net' : Net ν δ ι π}
  {trace : List (Record ν δ ι π)}

theorem acts_sends (id : ι) (hrun : run T labels net = some (trace, net')) :
    ∀ a ∈ trace.filterMap (actOf T id), (relayOf T).Sends T.toWiring a := by
  intro a ha
  obtain ⟨record, hrecord, ha⟩ := List.mem_filterMap.mp ha
  obtain ⟨label, -, before, after, hstep⟩ := run_records hrun record hrecord
  exact actOf_sends hstep a ha

theorem actOf_start {label : Label ν δ ι π} {record : Record ν δ ι π} {n : ν} {copies : List (δ × ℕ)}
    (h : step T label net = some (record, net')) (hact : actOf T id record = some (.start n copies)) :
    label = .call n (.BroadcastReq id) := by
  rcases actOf_cases id h with
    ⟨-, -, -, hact' | ⟨d, hact'⟩ | ⟨-, hact'⟩ | ⟨hevent, hact'⟩⟩ |
    ⟨d, k, -, -, -, ⟨-, hact'⟩ | ⟨-, hact' | hact'⟩⟩ | ⟨d, -, -, -, -, hact'⟩
  case inl.inr.inr.inr =>
    rw [hact'] at hact
    cases hact
    exact call_of_event h rfl hevent
  all_goals
    rw [hact'] at hact
    cases hact

omit [DecidableEq ν] [DecidableEq δ] in
theorem Fresh.limited (R : Relay ν δ) (h : Fresh id net) : Limited R (abstracted id net) := by
  intro c hc
  rw [h.idle.requests] at hc
  exact absurd hc (Multiset.notMem_zero c)

omit [DecidableEq ν] in
theorem Fresh.near (used : δ → Prop) (requester : ν) (h : Fresh id net) :
    Near T.toWiring used requester (relayOf T) (abstracted id net) := by
  refine ⟨fun c hc => ?_, fun n hn => ?_⟩
  · rw [h.idle.requests] at hc
    exact absurd hc (Multiset.notMem_zero c)
  · rw [h.idle.pending n] at hn
    cases hn

omit [DecidableEq ν] [DecidableEq δ] in
theorem mem_requests {d : δ} {hopLimit : ℕ} (h : (d, .TunnelReq id hopLimit) ∈ net.inFlight) :
    (d, hopLimit) ∈ (abstracted id net).requests :=
  Multiset.mem_coe.mpr (List.mem_filterMap.mpr ⟨_, h, if_pos rfl⟩)

def receptions (id : ι) (trace : List (Record ν δ ι π)) : ℕ := trace.countP (isRequest id)

theorem receptions_eq (hrun : run T labels net = some (trace, net')) :
    receptions id trace = ((trace.filterMap (actOf T id)).filterMap received).length := by
  rw [receptions, List.filterMap_filterMap, List.length_filterMap_eq_countP]
  apply List.countP_congr
  intro record hrecord
  obtain ⟨label, -, before, after, hstep⟩ := run_records hrun record hrecord
  rcases actOf_cases id hstep with
    ⟨hreq, -, -, hact | ⟨d, hact⟩ | ⟨-, hact⟩ | ⟨-, hact⟩⟩ |
    ⟨d, k, -, hreq, -, ⟨-, hact⟩ | ⟨-, hact | hact⟩⟩ | ⟨d, -, hreq, -, -, hact⟩
  all_goals simp [hact, hreq, received]

def isBroadcast (id : ι) : Label ν δ ι π → Bool
  | .call _ (.BroadcastReq id') => decide (id' = id)
  | _ => false

def broadcasts (id : ι) (labels : List (Label ν δ ι π)) : ℕ := labels.countP (isBroadcast id)

theorem starts_le (hrun : run T labels net = some (trace, net')) :
    (trace.filterMap (actOf T id)).countP Act.isStart ≤ broadcasts id labels := by
  induction labels generalizing net trace with
  | nil =>
    cases hrun
    exact Nat.le_refl 0
  | cons label labels ih =>
    obtain ⟨record, mid, trace', hstep, hrest, rfl⟩ := run_cons hrun
    have hlater : broadcasts id labels ≤ broadcasts id (label :: labels) := by
      rw [broadcasts, broadcasts, List.countP_cons]
      exact Nat.le_add_right _ _
    rw [List.filterMap_cons]
    split
    · exact (ih hrest).trans hlater
    · rename_i a hact
      rw [List.countP_cons]
      cases hstart : a.isStart with
      | false => simpa using (ih hrest).trans hlater
      | true =>
        cases a with
        | start n copies =>
          have hih := ih hrest
          rw [actOf_start hstep hact, broadcasts, List.countP_cons_of_pos (by simp [isBroadcast])]
          exact Nat.succ_le_succ hih
        | _ => cases hstart

theorem copiesOf_left {label : Label ν δ ι π} {record : Record ν δ ι π} {hopLimit : ℕ} {lasthop : δ}
    (h : step T label net = some (record, net')) (hevent : record.event = .ProcessPacket (.TunnelReq id hopLimit) lasthop) :
    ∀ c ∈ copiesOf id record.outs, c.2 = (relayOf T).left hopLimit := by
  intro c hc
  obtain ⟨m, hhandle⟩ := step_handle h
  rw [hevent] at hhandle
  have hprocess : ProcessPacket (T.host record.node) (.TunnelReq id hopLimit) lasthop record.before =
      .ok (m, record.outs) := hhandle
  obtain ⟨k, hpacket, hmem, hprt, -⟩ := copiesOf_receive hprocess (List.ne_nil_of_mem hc)
  cases hpacket
  have houts := (processTunnelReq_flooded hmem hprt hprocess).1
  rw [houts, copiesOf_floodOutputs] at hc
  exact (mem_copies hc).2.1

theorem received_limited (hlimited : Limited (relayOf T) (abstracted id net)) (hrun : run T labels net = some (trace, net'))
    {record : Record ν δ ι π} (hrecord : record ∈ trace) {hopLimit : ℕ} {lasthop : δ}
    (hevent : record.event = .ProcessPacket (.TunnelReq id hopLimit) lasthop) :
    1 ≤ hopLimit ∧ hopLimit ≤ T.m_hopLimit := by
  have hreceived : ∃ a, actOf T id record = some a ∧ received a = some hopLimit := by
    simp only [actOf, hevent, if_true]
    split_ifs
    · exact ⟨_, rfl, rfl⟩
    · exact ⟨_, rfl, rfl⟩
    · exact ⟨_, rfl, rfl⟩
  obtain ⟨a, hact, ha⟩ := hreceived
  exact (run_limited (run_refines id hrun) (acts_sends id hrun) hlimited).2 a
    (List.mem_filterMap.mpr ⟨record, hrecord, hact⟩) hopLimit ha

/-- In every run the requests in flight and those received have between one hop and the limit left, and what a node sends
on has one hop less; an id that one node broadcasts is pending only at nodes within the limit, and the copies that are
received of it are finitely many. -/
theorem flood_bounded (T : Topology ν δ) (id : ι) (requester : ν) (net net' : Net ν δ ι π)
    (labels : List (Label ν δ ι π)) (trace : List (Record ν δ ι π)) (hfresh : ∀ id, Fresh id net)
    (hcalls : ∀ n, .call n (.BroadcastReq id) ∈ labels → n = requester) (hrun : run T labels net = some (trace, net')) :
    (∀ d id' hopLimit, (d, .TunnelReq id' hopLimit) ∈ net'.inFlight → 1 ≤ hopLimit ∧ hopLimit ≤ T.m_hopLimit) ∧
    (∀ record ∈ trace, ∀ id' hopLimit lasthop, record.event = .ProcessPacket (.TunnelReq id' hopLimit) lasthop →
      1 ≤ hopLimit ∧ hopLimit ≤ T.m_hopLimit ∧ ∀ c ∈ copiesOf id' record.outs, c.2 + 1 = hopLimit) ∧
    (∀ n, ((net'.managers n).m_prt id).isSome → Within T.toWiring (IsUp T) requester T.m_hopLimit n) ∧
    receptions id trace ≤ broadcasts id labels * floodSize T.toWiring (relayOf T) requester := by
  have hlimited (id' : ι) : Limited (relayOf T) (abstracted id' net) := Fresh.limited _ (hfresh id')
  have hroot : ∀ n copies, .start n copies ∈ trace.filterMap (actOf T id) → n = requester := by
    intro n copies ha
    obtain ⟨record, hrecord, hact⟩ := List.mem_filterMap.mp ha
    obtain ⟨label, hlabel, before, after, hstep⟩ := run_records hrun record hrecord
    rw [actOf_start hstep hact] at hlabel
    exact hcalls n hlabel
  refine ⟨?_, ?_, ?_, ?_⟩
  · intro d id' hopLimit hmem
    exact (run_limited (run_refines id' hrun) (acts_sends id' hrun) (hlimited id')).1 _ (mem_requests hmem)
  · intro record hrecord id' hopLimit lasthop hevent
    obtain ⟨hpos, hle⟩ := received_limited (hlimited id') hrun hrecord hevent
    obtain ⟨label, -, before, after, hstep⟩ := run_records hrun record hrecord
    refine ⟨hpos, hle, fun c hc => ?_⟩
    rw [copiesOf_left hstep hevent c hc]
    exact left_of_pos hpos
  · exact (run_near (run_refines id hrun) (acts_sends id hrun) hroot (hlimited id) relayOf_isUp
      (Fresh.near _ _ (hfresh id))).pending
  · have hbound := run_received_le (run_refines id hrun) (acts_sends id hrun) hroot (hlimited id)
    have hstarts := Nat.mul_le_mul_right (floodSize T.toWiring (relayOf T) requester) (@starts_le _ _ _ _ _ _ _ T id _ _ _ _ hrun)
    have hempty : total T.toWiring (relayOf T) (abstracted id net).requests = 0 := by
      rw [(hfresh id).idle.requests]
      rfl
    rw [receptions_eq hrun]
    omega

end Runs

theorem flood_bounded_overtaking :
    ∃ trace net', run handover overtaking attached = some (trace, net') ∧
      (∀ n, ((net'.managers n).m_prt 0).isSome → Within handover.toWiring (IsUp handover) 0 6 n) ∧
      receptions 0 trace ≤ floodSize handover.toWiring (relayOf handover) 0 := by
  obtain ⟨⟨trace, net'⟩, hrun⟩ : ∃ r, run handover overtaking attached = some r := Option.isSome_iff_exists.mp (by decide)
  have hcalls : ∀ n, .call n (.BroadcastReq 0) ∈ overtaking → n = 0 := by
    intro n hn
    rcases List.mem_cons.mp hn with heq | hmem
    · cases heq
      rfl
    · exact absurd hmem ((deliveries_uncalled 0 _ n).1)
  obtain ⟨-, -, hnear, hcount⟩ := flood_bounded handover 0 0 attached net' overtaking trace
    (fun id => Net.initial_fresh id _) hcalls hrun
  have hone : broadcasts 0 overtaking = 1 := by decide
  rw [hone, Nat.one_mul] at hcount
  exact ⟨trace, net', hrun, hnear, hcount⟩

end LeoNdn.HandoverHops
