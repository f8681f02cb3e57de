import LeoNdn.HandoverNetwork

/-!
Which nodes send copies of a request, and which nodes originate an
acknowledgement for it, over a whole run.
-/

namespace LeoNdn.HandoverFlood

open LeoNdn.HandoverManager LeoNdn.ReversePath LeoNdn.HandoverNetwork

variable {ν δ ι π : Type} [DecidableEq ν] [DecidableEq δ] [DecidableEq ι]

def senders (id : ι) (trace : List (Record ν δ ι π)) : List ν :=
  (trace.filter (fun record => !(copiesOf id record.outs).isEmpty)).map Record.node

/-- A copy of the request with hops left reaches a node that neither has the id
nor has it in `m_prt`. -/
def isNewRequest (T : Topology ν δ) (id : ι) (record : Record ν δ ι π) : Bool :=
  match record.event with
  | .ProcessPacket (.TunnelReq id' hopLimit) _ =>
    decide (id' = id ∧ id ∉ record.before.m_idList) && (record.before.m_prt id).isNone &&
      decide (remainingHops (T.host record.node) hopLimit ≠ 0)
  | _ => false

/-- No such copy reaches a node that has accepted the acknowledgement before. -/
def NotOvertaken (T : Topology ν δ) (id : ι) (trace : List (Record ν δ ι π)) : Prop :=
  trace.Pairwise (fun earlier later =>
    acceptsAck id earlier = true → isNewRequest T id later = true → earlier.node ≠ later.node)

instance (T : Topology ν δ) (id : ι) (trace : List (Record ν δ ι π)) : Decidable (NotOvertaken T id trace) :=
  inferInstanceAs (Decidable (List.Pairwise _ trace))

section Senders

variable {T : Topology ν δ} {id : ι} {label : Label ν δ ι π} {net net' : Net ν δ ι π}
  {record : Record ν δ ι π}

theorem copiesOf_receive {host : Host δ} {packet : ShimPacket ι π} {lasthop : δ}
    {m m' : Manager ι δ π} {outs : List (Output ι δ π)} (h : ProcessPacket host packet lasthop m = .ok (m', outs))
    (hcopies : copiesOf id outs ≠ []) :
    ∃ hopLimit, packet = .TunnelReq id hopLimit ∧ id ∉ m.m_idList ∧ m.m_prt id = none ∧
      remainingHops host hopLimit ≠ 0 := by
  cases packet with
  | LinkPayload id' payload =>
    obtain ⟨htib, hprt, hlist, -, houts⟩ := processLinkPayload_tables h
    exact absurd (silent_of_payloads id htib hprt hlist
      (fun d packet hmem => ⟨_, _, houts d packet hmem⟩)).copies hcopies
  | unrecognized =>
    cases h
    exact absurd rfl hcopies
  | TunnelAck id' =>
    refine absurd (copiesOf_eq_nil ?_) hcopies
    intro d packet hmem
    cases hprt : m.m_prt id' with
    | none =>
      obtain ⟨-, rfl⟩ := processTunnelAck_discarded hprt h
      cases hmem
    | some rLasthop =>
      obtain ⟨rfl, -⟩ := processTunnelAck_accepted hprt h
      cases rLasthop with
      | none => cases hmem
      | some d' =>
        cases List.mem_singleton.mp hmem
        rfl
  | TunnelReq id' hopLimit =>
    by_cases hne : id' = id
    · subst hne
      by_cases hmem : id' ∈ m.m_idList
      · obtain ⟨rfl, -⟩ := processTunnelReq_answered hmem h
        refine absurd (copiesOf_eq_nil ?_) hcopies
        intro d packet hout
        rcases List.mem_append.mp hout with hout | hout
        · obtain ⟨payload, -, heq⟩ := List.mem_map.mp hout
          cases heq
          rfl
        · cases List.mem_singleton.mp hout
          rfl
      · by_cases hprt : (m.m_prt id').isSome
        · obtain ⟨-, rfl⟩ := processTunnelReq_discarded hmem hprt h
          exact absurd rfl hcopies
        · refine ⟨hopLimit, rfl, hmem, by simpa using hprt, ?_⟩
          intro hend
          obtain ⟨rfl, -⟩ := processTunnelReq_flooded hmem (by simpa using hprt) h
          rw [floodOutputs, if_pos hend] at hcopies
          exact hcopies rfl
    · exact absurd (processTunnelReq_silent hne h).copies hcopies

theorem copiesOf_step (h : step T label net = some (record, net')) (hcopies : copiesOf id record.outs ≠ []) :
    (∃ n, label = .call n (.BroadcastReq id)) ∨ isNewRequest T id record = true := by
  cases label with
  | call n event =>
    obtain ⟨hcall, -, -⟩ := step_call h
    simp only [step, hcall, Bool.false_eq_true, if_false] at h
    obtain ⟨m, outs, hhandle, rfl, -⟩ := abstracted_perform id h
    cases event with
    | TunnelPacket packet tunnelId =>
      obtain ⟨htib, hprt, hlist, -, houts⟩ := TunnelPacket_tables hhandle
      exact absurd (silent_of_payloads id htib hprt hlist
        (fun d packet hmem => ⟨_, _, houts d packet hmem⟩)).copies hcopies
    | AddUserLink id' faceId =>
      cases hhandle
      exact absurd rfl hcopies
    | BroadcastReq id' =>
      by_cases hid : id' = id
      · exact Or.inl ⟨n, by rw [hid]⟩
      · have heq : BroadcastReq (T.host n) id' 0 none (net.managers n) = (m, outs) :=
          Except.ok.inj hhandle
        have hsilent := BroadcastReq_silent (T.host n) hid (net.managers n)
        rw [heq] at hsilent
        exact absurd hsilent.copies hcopies
    | ProcessPacket packet lasthop => cases hcall
  | deliver i =>
    refine Or.inr ?_
    simp only [step] at h
    split at h
    · cases h
    · obtain ⟨m, outs, hhandle, rfl, -⟩ := abstracted_perform id h
      obtain ⟨hopLimit, rfl, hlist, hprt, hhops⟩ := copiesOf_receive hhandle hcopies
      simp only at hlist hprt
      simp [isNewRequest, hlist, hprt, hhops]

theorem actOf_newRequest (h : step T label net = some (record, net'))
    (hnew : isNewRequest T id record = true) :
    ∃ d k, T.next d = record.node ∧ actOf T id record = some (.flood d k (copiesOf id record.outs)) := by
  have hnext (packet : ShimPacket ι π) (lasthop : δ) := step_next packet lasthop h
  obtain ⟨n, event, before, outs⟩ := record
  simp only [isNewRequest] at hnew
  split at hnew
  · rename_i id' hopLimit lasthop
    simp only [Bool.and_eq_true, decide_eq_true_eq, Option.isNone_iff_eq_none] at hnew
    obtain ⟨⟨⟨rfl, hlist⟩, hprt⟩, -⟩ := hnew
    exact ⟨T.peer lasthop, hopLimit, hnext _ lasthop rfl, by simp [actOf, hlist, hprt]⟩
  · cases hnew

theorem forwardedBy_actOf (id : ι) (h : step T label net = some (record, net'))
    (hcall : ∀ n, label ≠ .call n (.BroadcastReq id)) :
    (actOf T id record).bind (Act.forwardedBy T.toWiring) =
      if copiesOf id record.outs = [] then none else some record.node := by
  by_cases hcopies : copiesOf id record.outs = []
  · rw [if_pos hcopies]
    rcases actOf_cases id h with ⟨-, -, -, hact | ⟨d, hact⟩ | ⟨-, hact⟩ | ⟨-, hact⟩⟩ |
      ⟨d, k, -, -, -, ⟨-, hact⟩ | ⟨-, hact | hact⟩⟩ | ⟨d, -, -, -, -, hact⟩
    all_goals simp [hact, Act.forwardedBy, hcopies]
  · rw [if_neg hcopies]
    rcases copiesOf_step h hcopies with ⟨n, rfl⟩ | hnew
    · exact absurd rfl (hcall n)
    · obtain ⟨d, k, hnode, hact⟩ := actOf_newRequest h hnew
      simp [hact, Act.forwardedBy, hcopies, hnode]

theorem senders_eq {labels : List (Label ν δ ι π)} {trace : List (Record ν δ ι π)}
    (hrun : run T labels net = some (trace, net')) (hcalls : ∀ n, .call n (.BroadcastReq id) ∉ labels) :
    senders id trace = (trace.filterMap (actOf T id)).filterMap (Act.forwardedBy T.toWiring) := by
  induction labels generalizing net trace with
  | nil =>
    cases hrun
    rfl
  | cons label labels ih =>
    obtain ⟨record, mid, trace', hstep, hrest, rfl⟩ := run_cons hrun
    have hforwarded := forwardedBy_actOf id hstep
      (fun n heq => hcalls n (by rw [heq]; exact List.mem_cons_self))
    have hih := ih hrest (fun n hn => hcalls n (List.mem_cons_of_mem _ hn))
    rw [List.filterMap_filterMap] at hih ⊢
    rw [List.filterMap_cons, hforwarded, ← hih, senders, List.filter_cons]
    by_cases hcopies : copiesOf id record.outs = []
    · simp [hcopies, senders]
    · simp [hcopies, senders]

theorem timely_of_notOvertaken {labels : List (Label ν δ ι π)} {trace : List (Record ν δ ι π)}
    (hrun : run T labels net = some (trace, net')) (hcalls : ∀ n, .call n (.BroadcastReq id) ∉ labels)
    (h : NotOvertaken T id trace) : Timely T.toWiring (trace.filterMap (actOf T id)) := by
  unfold Timely
  rw [List.pairwise_filterMap]
  refine h.imp_of_mem ?_
  intro earlier later hearlier hlater himp a ha b hb n haccept hforward
  obtain ⟨label, -, before, after, hstep⟩ := run_records hrun earlier hearlier
  obtain ⟨label', hlabel', before', after', hstep'⟩ := run_records hrun later hlater
  have hnode := acceptedBy_actOf id hstep
  have hnode' := forwardedBy_actOf id hstep'
    (fun n heq => hcalls n (by rwa [heq] at hlabel'))
  rw [ha, Option.bind_some, haccept] at hnode
  rw [hb, Option.bind_some, hforward] at hnode'
  split at hnode
  · rename_i hack
    split at hnode'
    · cases hnode'
    · rename_i hcopies
      have hnew : isNewRequest T id later = true := by
        rcases copiesOf_step hstep' hcopies with ⟨m, rfl⟩ | hnew
        · exact absurd hlabel' (hcalls m)
        · exact hnew
      apply himp hack hnew
      rw [← Option.some.inj hnode, ← Option.some.inj hnode']
  · cases hnode

end Senders

theorem pending_of_broadcast {T : Topology ν δ} {id : ι} {n : ν} {net net' : Net ν δ ι π}
    {record : Record ν δ ι π} (h : step T (.call n (.BroadcastReq id)) net = some (record, net'))
    (hcopies : copiesOf id record.outs ≠ []) : ((abstracted id net').pending n).isSome := by
  obtain ⟨-, hnode, hevent⟩ := step_call h
  have hlimit : T.m_hopLimit ≠ 0 := by
    intro hlimit
    simp only [step, isReceive, Bool.false_eq_true, if_false] at h
    obtain ⟨m, outs, hhandle, rfl, -⟩ := abstracted_perform id h
    have houts : (BroadcastReq (T.host n) id 0 none (net.managers n)).2 = outs :=
      congrArg Prod.snd (Except.ok.inj hhandle)
    rw [BroadcastReq_outs, floodOutputs, if_pos (by simpa [remainingHops, Topology.host] using hlimit)] at houts
    rw [← houts] at hcopies
    exact hcopies rfl
  have hrefines := step_refines id h
  rw [actOf_broadcast hevent, if_pos hlimit, hnode] at hrefines
  exact (Step.of_start hrefines).1

/-- In a run after one broadcast of the id, each node sends copies of the request
at most once, if no copy of it reaches a node that has accepted the
acknowledgement and dropped the id from `m_prt`. -/
theorem broadcast_once (T : Topology ν δ) (id : ι) (requester : ν) (net net' : Net ν δ ι π)
    (labels : List (Label ν δ ι π)) (trace : List (Record ν δ ι π))
    (hcalls : ∀ n, .call n (.BroadcastReq id) ∉ labels)
    (hrun : run T (.call requester (.BroadcastReq id) :: labels) net = some (trace, net'))
    (htimely : NotOvertaken T id trace) : (senders id trace).Nodup := by
  obtain ⟨record, mid, trace', hstep, hrest, rfl⟩ := run_cons hrun
  obtain ⟨-, htimely'⟩ := List.pairwise_cons.mp htimely
  obtain ⟨-, hnode, hevent⟩ := step_call hstep
  have hsenders : senders id (record :: trace') =
      senders id [record] ++ (trace'.filterMap (actOf T id)).filterMap (Act.forwardedBy T.toWiring) := by
    rw [← senders_eq hrest hcalls, senders, senders, senders, ← List.map_append, ← List.filter_append]
    rfl
  rw [hsenders]
  have hsent : senders id [record] = if copiesOf id record.outs = [] then [] else [requester] := by
    by_cases hcopies : copiesOf id record.outs = []
    · simp [senders, hcopies]
    · simp [senders, hcopies, hnode]
  rw [hsent]
  refine ((run_refines id hrest).forwarded_once (acts_unstarted hcalls hrest)
    (timely_of_notOvertaken hrest hcalls htimely') _ ?_ ?_).1
  · split <;> simp
  · intro n hn
    split at hn
    · cases hn
    · rw [List.mem_singleton.mp hn]
      exact pending_of_broadcast hstep (by assumption)

theorem broadcast_once_overtaking :
    ∃ trace net', run handover overtaking attached = some (trace, net') ∧ NotOvertaken handover 0 trace ∧
      (senders 0 trace).Nodup := by
  have hchecked : (run handover overtaking attached).any (fun r => decide (NotOvertaken handover 0 r.1)) = true := by
    decide
  obtain ⟨⟨trace, net'⟩, hrun, h⟩ := (Option.any_eq_true _ _).mp hchecked
  have htimely : NotOvertaken handover 0 trace := by simpa using h
  exact ⟨trace, net', hrun, htimely, broadcast_once handover 0 0 attached net' _ trace
    (fun n => (deliveries_uncalled 0 _ n).1) hrun htimely⟩

/-- The late copy is new to 3, and again to 2 and 1, which send it on a second time. -/
theorem late_copy_sent_twice :
    Fresh 0 attached ∧ (run handover (overtaking ++ lateCopy) attached).map (fun r => senders 0 r.1) =
      some [0, 1, 2, 3, 2, 1] :=
  ⟨Net.initial_fresh 0 _, by decide⟩

section Acknowledgements

def originates (id : ι) (record : Record ν δ ι π) : Bool :=
  match record.event with
  | .ProcessPacket (.TunnelAck _) _ => false
  | _ => !(acksOf id record.outs).isEmpty

def originators (id : ι) (trace : List (Record ν δ ι π)) : List ν :=
  (trace.filter (originates id)).map Record.node

def receivers (id : ι) (trace : List (Record ν δ ι π)) : List ν :=
  (trace.filter (isRequest id)).map Record.node

variable {T : Topology ν δ} {id : ι} {label : Label ν δ ι π} {net net' : Net ν δ ι π}
  {record : Record ν δ ι π} {labels : List (Label ν δ ι π)} {trace : List (Record ν δ ι π)}

theorem originates_eq (h : step T label net = some (record, net')) :
    originates id record = reachesHolder id record := by
  have hperform : ∃ net₁ : Net ν δ ι π, perform T record.node record.event net₁ = some (record, net') := by
    cases label with
    | call n event =>
      obtain ⟨hcall, hnode, hevent⟩ := step_call h
      rw [hnode, hevent]
      simp only [step, hcall, Bool.false_eq_true, if_false] at h
      exact ⟨net, h⟩
    | deliver i =>
      simp only [step] at h
      split at h
      · cases h
      · obtain ⟨hnode, hevent, -⟩ := perform_record h
        rw [hnode, hevent]
        exact ⟨_, h⟩
  obtain ⟨net₁, h⟩ := hperform
  obtain ⟨m, outs, hhandle, hrecord, -⟩ := abstracted_perform id h
  generalize record.node = n at hrecord hhandle
  generalize record.event = event at hrecord hhandle
  subst hrecord
  cases event with
  | TunnelPacket packet tunnelId =>
    obtain ⟨htib, hprt, hlist, -, houts⟩ := TunnelPacket_tables hhandle
    have hacks := (silent_of_payloads id htib hprt hlist
      (fun d packet hmem => ⟨_, _, houts d packet hmem⟩)).acks
    simp [originates, reachesHolder, hacks]
  | AddUserLink id' faceId =>
    cases hhandle
    rfl
  | BroadcastReq id' =>
    have houts : (BroadcastReq (T.host n) id' 0 none (net₁.managers n)).2 = outs :=
      congrArg Prod.snd (Except.ok.inj hhandle)
    rw [BroadcastReq_outs] at houts
    simp [originates, reachesHolder, ← houts, acksOf_floodOutputs]
  | ProcessPacket packet lasthop =>
    cases packet with
    | unrecognized =>
      cases hhandle
      rfl
    | TunnelAck id' => rfl
    | LinkPayload id' payload =>
      obtain ⟨htib, hprt, hlist, -, houts⟩ := processLinkPayload_tables hhandle
      have hacks := (silent_of_payloads id htib hprt hlist
        (fun d packet hmem => ⟨_, _, houts d packet hmem⟩)).acks
      simp [originates, reachesHolder, hacks]
    | TunnelReq id' hopLimit =>
      by_cases hid : id' = id
      · subst hid
        by_cases hmem : id' ∈ (net₁.managers n).m_idList
        · obtain ⟨rfl, -⟩ := processTunnelReq_answered hmem hhandle
          simp [originates, reachesHolder, hmem, acksOf, emissions, ackOf]
        · by_cases hprt : ((net₁.managers n).m_prt id').isSome
          · obtain ⟨-, rfl⟩ := processTunnelReq_discarded hmem hprt hhandle
            simp [originates, reachesHolder, hmem, acksOf, emissions]
          · obtain ⟨rfl, -⟩ := processTunnelReq_flooded hmem (by simpa using hprt) hhandle
            simp [originates, reachesHolder, hmem, acksOf_floodOutputs]
      · simp [originates, reachesHolder, hid, (processTunnelReq_silent hid hhandle).acks]

theorem originators_eq (hrun : run T labels net = some (trace, net')) :
    originators id trace = (trace.filterMap (actOf T id)).filterMap (Act.answeredBy T.toWiring) := by
  induction labels generalizing net trace with
  | nil =>
    cases hrun
    rfl
  | cons label labels ih =>
    obtain ⟨record, mid, trace', hstep, hrest, rfl⟩ := run_cons hrun
    have hih := ih hrest
    rw [List.filterMap_filterMap] at hih ⊢
    rw [List.filterMap_cons, answeredBy_actOf id hstep, ← originates_eq hstep, ← hih, originators, List.filter_cons]
    split <;> rfl

theorem receivers_eq (hrun : run T labels net = some (trace, net')) :
    receivers id trace = (trace.filterMap (actOf T id)).filterMap (Act.receivedBy T.toWiring) := by
  induction labels generalizing net trace with
  | nil =>
    cases hrun
    rfl
  | cons label labels ih =>
    obtain ⟨record, mid, trace', hstep, hrest, rfl⟩ := run_cons hrun
    have hih := ih hrest
    rw [List.filterMap_filterMap] at hih ⊢
    rw [List.filterMap_cons, receivedBy_actOf hstep, ← hih, receivers, List.filter_cons]
    split <;> rfl

/-- A node originates an acknowledgement for each copy that reaches it, as long
as `m_idList` has the id. -/
theorem originators_count (hrun : run T labels net = some (trace, net')) (hcalls : Uncalled id labels) (n : ν) :
    (originators id trace).count n =
      min ((net.managers n).m_idList.count id) ((receivers id trace).count n) := by
  rw [originators_eq hrun, receivers_eq hrun]
  exact ((run_refines id hrun).answers_count (acts_remote hcalls hrun) n).2

theorem broadcast_silent {requester : ν} (h : step T (.call requester (.BroadcastReq id)) net = some (record, net'))
    (trace : List (Record ν δ ι π)) :
    originators id (record :: trace) = originators id trace ∧ receivers id (record :: trace) = receivers id trace := by
  obtain ⟨-, -, hevent⟩ := step_call h
  have hholder : originates id record = false := by
    rw [originates_eq h, reachesHolder, hevent]
  have hrequest : isRequest id record = false := by
    rw [isRequest, hevent]
  simp [originators, receivers, hholder, hrequest]

theorem broadcast_targets {requester : ν}
    (h : step T (.call requester (.BroadcastReq id)) net = some (record, net')) :
    (abstracted id net').targets = (abstracted id net).targets := by
  obtain ⟨-, -, hevent⟩ := step_call h
  have hrefines := step_refines id h
  rw [actOf_broadcast hevent] at hrefines
  split at hrefines
  · exact (Step.of_start hrefines).2
  · rw [show abstracted id net' = abstracted id net from hrefines]

/-- In a run after one broadcast of an id that the requester and the old
satellite have, exactly the old satellite originates an acknowledgement, and
once, if and only if a copy of the request reaches it and none comes back to the
requester. -/
theorem originators_eq_oldSat_iff (T : Topology ν δ) (id : ι) (requester oldSat : ν) (hne : requester ≠ oldSat)
    (net net' : Net ν δ ι π) (labels : List (Label ν δ ι π)) (trace : List (Record ν δ ι π))
    (hids : ∀ n, (net.managers n).m_idList.count id = if n = requester ∨ n = oldSat then 1 else 0)
    (hcalls : Uncalled id labels)
    (hrun : run T (.call requester (.BroadcastReq id) :: labels) net = some (trace, net')) :
    originators id trace = [oldSat] ↔ oldSat ∈ receivers id trace ∧ requester ∉ receivers id trace := by
  obtain ⟨record, mid, trace', hstep, hrest, rfl⟩ := run_cons hrun
  obtain ⟨horiginators, hreceivers⟩ := broadcast_silent hstep trace'
  have hcount (n : ν) : (originators id trace').count n =
      min (if n = requester ∨ n = oldSat then 1 else 0) ((receivers id trace').count n) := by
    rw [originators_count hrest hcalls, ← hids]
    exact congrArg (fun f => min (f n) _) (broadcast_targets hstep)
  have hold := hcount oldSat
  have hreq := hcount requester
  simp only [or_true, true_or, if_true] at hold hreq
  rw [horiginators, hreceivers]
  constructor
  · intro hone
    rw [hone, List.count_singleton_self] at hold
    rw [hone, List.count_singleton, if_neg (by simpa using hne.symm)] at hreq
    refine ⟨List.count_pos_iff.mp (by omega), List.count_eq_zero.mp (by omega)⟩
  · rintro ⟨hreached, hnot⟩
    have hreached' := List.count_pos_iff.mpr hreached
    have hnot' := List.count_eq_zero.mpr hnot
    apply List.perm_singleton.mp
    rw [List.perm_iff_count]
    intro n
    rw [hcount n, List.count_singleton]
    by_cases hn : n = oldSat
    · subst hn
      simp only [or_true, if_true, beq_self_eq_true]
      omega
    · have hbeq : (oldSat == n) = false := by simpa using fun h : oldSat = n => hn h.symm
      rw [hbeq]
      by_cases hn' : n = requester
      · subst hn'
        simp [hnot']
      · simp [hn, hn']

theorem originators_eq_oldSat_iff_overtaking :
    ∃ trace net', run handover overtaking attached = some (trace, net') ∧
      (originators 0 trace = [4] ↔ 4 ∈ receivers 0 trace ∧ 0 ∉ receivers 0 trace) := by
  have hchecked : (run handover overtaking attached).isSome = true := by
    decide
  obtain ⟨⟨trace, net'⟩, hrun⟩ := Option.isSome_iff_exists.mp hchecked
  exact ⟨trace, net', hrun, originators_eq_oldSat_iff handover 0 0 4 (by decide) attached net' _ trace
    (by decide) (deliveries_uncalled 0 _) hrun⟩

/-- The late copy comes back to the station, which answers it. -/
theorem late_copy_answered_by_requester :
    (∀ n, (attached.managers n).m_idList.count 0 = if n = 0 ∨ n = 4 then 1 else 0) ∧
      (run handover (overtaking ++ lateCopy) attached).map (fun r => originators 0 r.1) = some [4, 0] :=
  ⟨by decide, by decide⟩

end Acknowledgements

end LeoNdn.HandoverFlood
