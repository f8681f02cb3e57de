import LeoNdn.HandoverNetwork

/-!
What the tunnel table entries of an id look like, from the node that has
answered the request to the requester.
-/

namespace LeoNdn.HandoverTunnel

open LeoNdn.HandoverManager LeoNdn.ReversePath LeoNdn.HandoverNetwork

variable {ν δ ι π : Type} [DecidableEq ν] [DecidableEq δ] [DecidableEq ι]

/-- At most one copy of the request reaches a node that has the id, and that
node is not the requester. -/
structure OneHolder (id : ι) (requester : ν) (trace : List (Record ν δ ι π)) : Prop where
  once : (trace.filter (reachesHolder id)).length ≤ 1
  elsewhere : ∀ record ∈ trace, reachesHolder id record = true → record.node ≠ requester

instance (id : ι) (requester : ν) (trace : List (Record ν δ ι π)) : Decidable (OneHolder id requester trace) :=
  decidable_of_iff ((trace.filter (reachesHolder id)).length ≤ 1 ∧
    ∀ record ∈ trace, reachesHolder id record = true → record.node ≠ requester)
    ⟨fun h => ⟨h.1, h.2⟩, fun h => ⟨h.once, h.elsewhere⟩⟩

def pairsOf (id : ι) (net : Net ν δ ι π) (n : ν) : Option (Option δ × Option δ) := (net.managers n).m_tib id

section Answers

variable {T : Topology ν δ} {id : ι} {labels : List (Label ν δ ι π)} {net net' : Net ν δ ι π}
  {trace : List (Record ν δ ι π)}

theorem mem_answers {e : δ × ℕ} (hrun : run T labels net = some (trace, net'))
    (h : e ∈ answers (trace.filterMap (actOf T id))) :
    ∃ record ∈ trace, record.node = T.next e.1 ∧ reachesHolder id record = true := by
  rw [answers, List.filterMap_filterMap] at h
  obtain ⟨record, hrecord, hanswered⟩ := List.mem_filterMap.mp h
  obtain ⟨label, -, before, after, hstep⟩ := run_records hrun record hrecord
  obtain ⟨a, hact, ha⟩ := Option.bind_eq_some_iff.mp hanswered
  have hnode := answeredBy_actOf id hstep
  rw [hact, Option.bind_some, Act.answeredBy_eq, ha, Option.map_some] at hnode
  split at hnode
  · exact ⟨record, hrecord, (Option.some.inj hnode).symm, by assumption⟩
  · cases hnode

theorem answers_length (hrun : run T labels net = some (trace, net')) :
    (answers (trace.filterMap (actOf T id))).length = (trace.filter (reachesHolder id)).length := by
  rw [answers, List.filterMap_filterMap, List.length_filterMap_eq_countP, ← List.countP_eq_length_filter]
  apply List.countP_congr
  intro record hrecord
  obtain ⟨label, -, before, after, hstep⟩ := run_records hrun record hrecord
  have hnode := answeredBy_actOf id hstep
  cases hact : actOf T id record with
  | none =>
    rw [hact, Option.bind_none] at hnode
    split at hnode
    · cases hnode
    · simp_all
  | some a =>
    rw [hact, Option.bind_some, Act.answeredBy_eq] at hnode
    cases ha : a.answered with
    | none =>
      rw [ha, Option.map_none] at hnode
      split at hnode
      · cases hnode
      · simp_all
    | some e =>
      rw [ha, Option.map_some] at hnode
      split at hnode
      · simp_all
      · cases hnode

theorem answeredOnce_of_oneHolder {requester : ν} (hrun : run T labels net = some (trace, net'))
    (h : OneHolder id requester trace) :
    AnsweredOnce T.toWiring requester (trace.filterMap (actOf T id)) := by
  refine ⟨by rw [answers_length hrun]; exact h.once, ?_⟩
  intro e he
  obtain ⟨record, hrecord, hnode, hreaches⟩ := mem_answers hrun he
  rw [← hnode]
  exact h.elsewhere record hrecord hreaches

end Answers

theorem flooding_of_broadcast {T : Topology ν δ} {id : ι} {requester : ν} {net net' : Net ν δ ι π}
    {record : Record ν δ ι π} (hfresh : Fresh id net)
    (h : step T (.call requester (.BroadcastReq id)) net = some (record, net')) :
    Flooding T.toWiring requester (abstracted id net') ∧ reachesHolder id record = false := by
  have hrefines := step_refines id h
  obtain ⟨-, hnode, hevent⟩ := step_call h
  refine ⟨?_, by simp [reachesHolder, hevent]⟩
  rw [actOf_broadcast hevent, hnode] at hrefines
  split at hrefines
  · exact hfresh.idle.start hrefines
  · rw [show abstracted id net' = abstracted id net from hrefines]
    exact hfresh.idle.flooding

/-- In every run after one broadcast of the id in which at most one copy of the
request reaches a node that has it, and not the requester: once the requester
has an entry, the entries make a tunnel from the node that has answered, and
nothing that happens later changes an entry of the id. -/
theorem tunnel_wellFormed (T : Topology ν δ) (id : ι) (requester : ν) (net net' : Net ν δ ι π)
    (labels : List (Label ν δ ι π)) (trace : List (Record ν δ ι π)) (hfresh : Fresh id net)
    (hcalls : Uncalled id labels)
    (hrun : run T (.call requester (.BroadcastReq id) :: labels) net = some (trace, net'))
    (hholder : OneHolder id requester trace) (hentry : (pairsOf id net' requester).isSome) :
    ∃ answering before last,
      (∃ record ∈ trace, record.node = answering ∧ reachesHolder id record = true) ∧
      Tunnel T.toWiring requester (pairsOf id net') answering before last ∧
      (∀ k, follow T.toWiring (pairsOf id net') (before.length + 2 + k) none requester =
        (nodes T.toWiring answering (before ++ [last])).reverse) ∧
      (∀ k, follow T.toWiring (pairsOf id net') (before.length + 2 + k) none answering =
        nodes T.toWiring answering (before ++ [last])) ∧
      ∀ later trace' net'', Uncalled id later → run T later net' = some (trace', net'') →
        OneHolder id requester (trace ++ trace') → pairsOf id net'' = pairsOf id net' := by
  obtain ⟨record, mid, trace', hstep, hrest, rfl⟩ := run_cons hrun
  obtain ⟨hflooding, hnot⟩ := flooding_of_broadcast hfresh hstep
  have hfilter : (record :: trace').filter (reachesHolder id) = trace'.filter (reachesHolder id) := by
    rw [List.filter_cons, if_neg (by simp [hnot])]
  have hholder' : OneHolder id requester trace' :=
    ⟨by rw [← hfilter]; exact hholder.once,
      fun r hr => hholder.elsewhere r (List.mem_cons_of_mem _ hr)⟩
  have habstract := run_refines id hrest
  rcases habstract.phase hflooding (acts_remote hcalls hrest) (answeredOnce_of_oneHolder hrest hholder')
    with ⟨-, hflooding'⟩ | ⟨d, k, before, last, hanswers, ⟨rest, hreturning⟩ | hestablished⟩
  · simp [pairsOf, show (net'.managers requester).m_tib id = none from hflooding'.pairs requester] at hentry
  · simp [pairsOf, show (net'.managers requester).m_tib id = none from hreturning.atRoot] at hentry
  · have htunnel : Tunnel T.toWiring requester (pairsOf id net') (T.next d) before last := hestablished.tunnel
    refine ⟨T.next d, before, last, ?_, htunnel, htunnel.follow_back, htunnel.follow_forth, ?_⟩
    · have hmem : (d, k) ∈ answers (trace'.filterMap (actOf T id)) := by
        rw [hanswers]
        exact List.mem_singleton_self _
      obtain ⟨r, hr, hnode, hreaches⟩ := mem_answers hrest hmem
      exact ⟨r, List.mem_cons_of_mem _ hr, hnode, hreaches⟩
    · intro later trace'' net'' hlater hrun' hone
      have honce := hone.once
      rw [List.filter_append, hfilter, List.length_append, ← answers_length hrest, hanswers,
        ← answers_length hrun', List.length_singleton] at honce
      have hnone : answers (trace''.filterMap (actOf T id)) = [] :=
        List.length_eq_zero_iff.mp (by omega)
      have habstract' := run_refines id hrun'
      exact (habstract'.established_stable hestablished (acts_remote hlater hrun') hnone).2

theorem tunnel_wellFormed_overtaking :
    ∃ trace net', run handover overtaking attached = some (trace, net') ∧ OneHolder 0 0 trace ∧
      ∃ answering before last,
        (∃ record ∈ trace, record.node = answering ∧ reachesHolder 0 record = true) ∧
        Tunnel handover.toWiring 0 (pairsOf 0 net') answering before last := by
  have hchecked : (run handover overtaking attached).any
      (fun r => decide (OneHolder 0 0 r.1) && (pairsOf 0 r.2 0).isSome) = true := by
    decide
  obtain ⟨⟨trace, net'⟩, hrun, h⟩ := (Option.any_eq_true _ _).mp hchecked
  obtain ⟨hholder, hentry⟩ : OneHolder 0 0 trace ∧ (pairsOf 0 net' 0).isSome = true := by
    simpa using h
  obtain ⟨answering, before, last, hanswering, htunnel, -, -, -⟩ := tunnel_wellFormed handover 0 0 attached
    net' _ trace (Net.initial_fresh 0 _) (deliveries_uncalled 0 _) hrun hholder hentry
  exact ⟨trace, net', hrun, hholder, answering, before, last, hanswering, htunnel⟩

/-- The late copy reaches 2 and 1 after they have dropped the id from `m_prt`,
and the station, which answers its own request: the entry of the station, set
before, changes, and the entries lead into a cycle. -/
theorem late_copy_rewires_tunnel :
    Fresh 0 attached ∧
    (run handover overtaking attached).map (fun r => pairsOf 0 r.2 0) = some (some (some (0, 1), none)) ∧
    (run handover (overtaking ++ lateCopy) attached).map (fun r =>
      (pairsOf 0 r.2 0, follow handover.toWiring (pairsOf 0 r.2) 4 none 0)) =
        some (some (none, some (0, 1)), [0, 1, 2, 3, 1]) :=
  ⟨Net.initial_fresh 0 _, by decide, by decide⟩

end LeoNdn.HandoverTunnel
