import LeoNdn.HandoverTunnel

/-!
Links that deliver in order: what becomes of the payloads that the old satellite
has buffered when the request reaches it.
-/

namespace LeoNdn.HandoverDelivery

open LeoNdn.HandoverManager LeoNdn.ReversePath LeoNdn.HandoverNetwork LeoNdn.HandoverTunnel

variable {ν δ ι π : Type} [DecidableEq ν] [DecidableEq δ] [DecidableEq ι]

section Queues

def onDevice (inFlight : List (δ × ShimPacket ι π)) (d : δ) : List (ShimPacket ι π) :=
  inFlight.filterMap (fun e => if e.1 = d then some e.2 else none)

def queue (net : Net ν δ ι π) (d : δ) : List (ShimPacket ι π) := onDevice net.inFlight d

def isOldest (label : Label ν δ ι π) (net : Net ν δ ι π) : Bool :=
  match label with
  | .call _ _ => true
  | .deliver i =>
    match net.inFlight[i]? with
    | none => true
    | some (d, _) => (net.inFlight.take i).all (fun e => e.1 ≠ d)

def inOrder (T : Topology ν δ) : List (Label ν δ ι π) → Net ν δ ι π → Bool
  | [], _ => true
  | label :: labels, net =>
    isOldest label net &&
      match step T label net with
      | none => true
      | some (_, net') => inOrder T labels net'

omit [DecidableEq ι] in
theorem onDevice_append (inFlight inFlight' : List (δ × ShimPacket ι π)) (d : δ) :
    onDevice (inFlight ++ inFlight') d = onDevice inFlight d ++ onDevice inFlight' d := by
  simp [onDevice]

omit [DecidableEq ι] in
theorem onDevice_cons (d' : δ) (packet : ShimPacket ι π) (inFlight : List (δ × ShimPacket ι π)) (d : δ) :
    onDevice ((d', packet) :: inFlight) d =
      if d' = d then packet :: onDevice inFlight d else onDevice inFlight d := by
  by_cases hd : d' = d
  · simp [onDevice, hd]
  · simp [onDevice, hd]

omit [DecidableEq ι] in
theorem exists_oldest {d : δ} {packet : ShimPacket ι π} {rest : List (ShimPacket ι π)}
    {inFlight : List (δ × ShimPacket ι π)} (h : onDevice inFlight d = packet :: rest) :
    ∃ i, inFlight[i]? = some (d, packet) ∧ (inFlight.take i).all (fun e => e.1 ≠ d) = true ∧
      ∀ d', onDevice (inFlight.eraseIdx i) d' = if d' = d then rest else onDevice inFlight d' := by
  induction inFlight with
  | nil => cases h
  | cons e inFlight ih =>
    by_cases he : e.1 = d
    · simp only [onDevice, List.filterMap_cons, if_pos he, List.cons.injEq] at h
      refine ⟨0, by simp [← he, ← h.1], by simp, ?_⟩
      intro d'
      by_cases hd : d' = d
      · rw [if_pos hd, hd]
        exact h.2
      · have hne : ¬ e.1 = d' := fun heq => hd (heq.symm.trans he)
        simp [onDevice, hd, hne]
    · simp only [onDevice, List.filterMap_cons, if_neg he] at h
      obtain ⟨i, hi, hall, herase⟩ := ih h
      refine ⟨i + 1, by simpa using hi, by simpa [he] using hall, ?_⟩
      intro d'
      have hrest := herase d'
      simp only [List.eraseIdx_cons_succ, onDevice, List.filterMap_cons] at hrest ⊢
      by_cases hd : d' = d
      · subst hd
        simpa [he] using hrest
      · rw [if_neg hd] at hrest ⊢
        rw [hrest]

omit [DecidableEq ι] in
theorem mem_onDevice {inFlight : List (δ × ShimPacket ι π)} {d : δ} {packet : ShimPacket ι π} :
    packet ∈ onDevice inFlight d ↔ (d, packet) ∈ inFlight := by
  simp [onDevice]

end Queues

section Deliveries

variable {T : Topology ν δ} {id : ι}

/-- Deliveries in order, and nothing else, lead from one state to the other;
nothing is handed up on the way. -/
def Leads (T : Topology ν δ) (net net' : Net ν δ ι π) : Prop :=
  ∃ is trace, inOrder T (deliveries is) net = true ∧ run T (deliveries is) net = some (trace, net') ∧
    ∀ record ∈ trace, injections record.node record.outs = []

theorem Leads.refl (net : Net ν δ ι π) : Leads T net net :=
  ⟨[], [], rfl, rfl, by simp⟩

theorem inOrder_append {labels labels' : List (Label ν δ ι π)} {net mid : Net ν δ ι π}
    {trace : List (Record ν δ ι π)} (hrun : run T labels net = some (trace, mid))
    (h : inOrder T labels net = true) (h' : inOrder T labels' mid = true) :
    inOrder T (labels ++ labels') net = true := by
  induction labels generalizing net trace with
  | nil =>
    cases hrun
    exact h'
  | cons label labels ih =>
    obtain ⟨record, next, trace', hstep, hrest, rfl⟩ := run_cons hrun
    simp only [inOrder, hstep, Bool.and_eq_true] at h
    simp only [List.cons_append, inOrder, hstep, Bool.and_eq_true]
    exact ⟨h.1, ih hrest h.2⟩

theorem Leads.trans {net mid net' : Net ν δ ι π} (h : Leads T net mid) (h' : Leads T mid net') :
    Leads T net net' := by
  obtain ⟨is, trace, horder, hrun, hnone⟩ := h
  obtain ⟨is', trace', horder', hrun', hnone'⟩ := h'
  refine ⟨is ++ is', trace ++ trace', ?_, ?_, ?_⟩
  · rw [deliveries, List.map_append]
    exact inOrder_append hrun horder horder'
  · rw [deliveries, List.map_append]
    exact run_append hrun hrun'
  · intro record hrecord
    rcases List.mem_append.mp hrecord with hrecord | hrecord
    · exact hnone record hrecord
    · exact hnone' record hrecord

theorem Leads.deliver {net : Net ν δ ι π} {d : δ} {packet : ShimPacket ι π} {rest : List (ShimPacket ι π)}
    {m : Manager ι δ π} {outs : List (Output ι δ π)} (hqueue : queue net d = packet :: rest)
    (hhandle : ProcessPacket (T.host (T.next d)) packet (T.peer d) (net.managers (T.next d)) = .ok (m, outs))
    (houts : injections (T.next d) outs = []) :
    ∃ net', Leads T net net' ∧ net'.managers = Function.update net.managers (T.next d) m ∧
      ∀ d', queue net' d' = (if d' = d then rest else queue net d') ++ onDevice (emissions outs) d' := by
  obtain ⟨i, hi, hall, herase⟩ := exists_oldest hqueue
  let net' : Net ν δ ι π :=
    { managers := Function.update net.managers (T.next d) m
      inFlight := net.inFlight.eraseIdx i ++ emissions outs
      injected := net.injected ++ injections (T.next d) outs }
  have hstep : step T (.deliver i) net =
      some (⟨T.next d, .ProcessPacket packet (T.peer d), net.managers (T.next d), outs⟩, net') := by
    simp only [step, hi, perform, handle, hhandle, net']
  refine ⟨net', ⟨[i], [⟨T.next d, .ProcessPacket packet (T.peer d), net.managers (T.next d), outs⟩],
    ?_, ?_, ?_⟩, rfl, ?_⟩
  · simp only [deliveries, List.map_cons, List.map_nil, inOrder, isOldest, hi, hall, hstep, Bool.and_self]
  · simp only [deliveries, List.map_cons, List.map_nil, run, hstep, Option.bind_eq_bind, Option.bind_some]
  · intro record hrecord
    rw [List.mem_singleton.mp hrecord]
    exact houts
  · intro d'
    rw [queue, onDevice_append, herase]
    rfl

end Deliveries

section Nodes

variable {id : ι} {host : Host δ} {m : Manager ι δ π} {lasthop : δ}

def HasFace (host : Host δ) (d : δ) : Prop := ∃ face ∈ host.faces, face.netDevice = d

omit [DecidableEq ι] in
theorem emitThrough_of_hasFace {d : δ} (h : HasFace host d) (packet : ShimPacket ι π) :
    emitThrough host (some d) packet = .ok (.emit d packet) := by
  obtain ⟨face, hface, hd⟩ := h
  have hfind : ∃ found, host.faces.find? (fun face => face.netDevice = d) = some found := by
    rw [← Option.isSome_iff_exists, List.find?_isSome]
    exact ⟨face, hface, by simpa using hd⟩
  obtain ⟨found, hfound⟩ := hfind
  have hnet : found.netDevice = d := by simpa using List.find?_some hfound
  have hok : emitThrough host (some d) packet = .ok (.emit found.netDevice packet) := by
    unfold emitThrough
    simp only [LeoNdn.SimulatedNetwork.deref, bind, Except.bind]
    rw [hfound]
  rw [hok, hnet]

theorem processTunnelReq_answers (hopLimit : ℕ) (hid : id ∈ m.m_idList) (hface : HasFace host lasthop) :
    ∃ m' outs, processTunnelReq host id hopLimit lasthop m = .ok (m', outs) := by
  simp only [processTunnelReq, if_pos hid]
  rw [tunnelAll_established lasthop _ (by simp)]
  simp only [bind, Except.bind, emitThrough_of_hasFace hface]
  exact ⟨_, _, rfl⟩

theorem processTunnelReq_floods (host : Host δ) (hopLimit : ℕ) (lasthop : δ) (hid : id ∉ m.m_idList)
    (hprt : m.m_prt id = none) :
    ∃ m' outs, processTunnelReq host id hopLimit lasthop m = .ok (m', outs) := by
  have hnone : ¬ (m.m_prt id).isSome = true := by simp [hprt]
  simp only [processTunnelReq, if_neg hid, if_neg hnone]
  exact ⟨_, _, rfl⟩

theorem processTunnelAck_accepts (lasthop : δ) {r : Option δ} (hprt : m.m_prt id = some r)
    (hface : ∀ d ∈ r, HasFace host d) :
    ∃ m' outs, processTunnelAck host id lasthop m = .ok (m', outs) := by
  simp only [processTunnelAck, hprt]
  cases r with
  | none => exact ⟨_, _, rfl⟩
  | some d =>
    simp only [forwardAck, bind, Except.bind, emitThrough_of_hasFace (hface d rfl)]
    exact ⟨_, _, rfl⟩

theorem processLinkPayload_discarded {payload : π} (htib : m.m_tib id = none) :
    processLinkPayload host id payload lasthop m = .ok ({ m with m_inPayloads := m.m_inPayloads + 1 }, []) := by
  simp only [processLinkPayload, htib]

omit [DecidableEq ι] in
theorem onDevice_floodOutputs (hopLimit : ℕ) (source : Option δ) (d : δ) :
    onDevice (emissions (floodOutputs (π := π) host id hopLimit source)) d =
      if remainingHops host hopLimit = 0 then []
      else ((floodFaces host source).filter (fun face => face.netDevice = d)).map
        (fun _ => .TunnelReq id (remainingHops host hopLimit)) := by
  unfold floodOutputs
  split
  · rfl
  · induction floodFaces host source with
    | nil => rfl
    | cons face faces ih =>
      by_cases hd : face.netDevice = d
      · simpa [onDevice, emissions, hd] using ih
      · simpa [onDevice, emissions, hd] using ih

omit [DecidableEq ι] in
theorem onDevice_flood_head (id : ι) {hopLimit : ℕ} {source : Option δ} {d : δ}
    (hhops : remainingHops host hopLimit ≠ 0)
    (hsource : source ≠ some d) (hface : ∃ face ∈ host.faces, face.netDevice = d ∧ face.m_isGone = false) :
    ∃ rest, onDevice (emissions (floodOutputs (π := π) host id hopLimit source)) d =
      .TunnelReq id (remainingHops host hopLimit) :: rest := by
  obtain ⟨face, hmem, hd, hgone⟩ := hface
  have hface : face ∈ (floodFaces host source).filter (fun face => face.netDevice = d) := by
    simp [floodFaces, hmem, hd, hgone, Ne.symm hsource]
  rw [onDevice_floodOutputs, if_neg hhops]
  obtain ⟨first, faces, hfaces⟩ := List.exists_cons_of_ne_nil (List.ne_nil_of_mem hface)
  rw [hfaces]
  exact ⟨_, rfl⟩

omit [DecidableEq ι] in
theorem onDevice_flood_source {hopLimit : ℕ} {d : δ} :
    onDevice (emissions (floodOutputs (π := π) host id hopLimit (some d))) d = [] := by
  rw [onDevice_floodOutputs]
  split
  · rfl
  · have hnone : (floodFaces host (some d)).filter (fun face => face.netDevice = d) = [] := by
      rw [List.filter_eq_nil_iff]
      intro face hface hd
      simp [floodFaces] at hface hd
      exact hface.2.1 hd
    rw [hnone, List.map_nil]

omit [DecidableEq ι] in
theorem not_payload_of_flood {hopLimit : ℕ} {source : Option δ} {d : δ} {id' : ι} {payload : π} :
    .LinkPayload id' payload ∉ onDevice (emissions (floodOutputs (π := π) host id hopLimit source)) d := by
  rw [onDevice_floodOutputs]
  split
  · simp
  · simp

omit [DecidableEq ν] [DecidableEq ι] in
theorem onDevice_flood_other {T : Topology ν δ} {n : ν} {hopLimit : ℕ} {source : Option δ} {d : δ}
    (hd : T.owner d ≠ n) :
    onDevice (emissions (floodOutputs (ι := ι) (π := π) (T.host n) id hopLimit source)) d = [] := by
  rw [List.eq_nil_iff_forall_not_mem]
  intro packet hmem
  obtain ⟨⟨face, hface, rfl⟩, -⟩ := mem_floodOutputs (mem_emissions.mp (mem_onDevice.mp hmem))
  exact hd (T.owner_face n face hface)

omit [DecidableEq ν] [DecidableEq δ] [DecidableEq ι] in
theorem injections_flood {n : ν} {hopLimit : ℕ} {source : Option δ} [DecidableEq δ] :
    injections n (floodOutputs (ι := ι) (π := π) host id hopLimit source) = [] := by
  unfold floodOutputs
  split
  · rfl
  · simp [injections]

omit [DecidableEq ι] in
theorem onDevice_answer (payloads : List π) (d : δ) :
    onDevice (emissions (payloads.map (fun packet => Output.emit lasthop (.LinkPayload id packet)) ++
      [Output.emit lasthop (.TunnelAck id)])) d =
        if d = lasthop then payloads.map (.LinkPayload id) ++ [.TunnelAck id] else [] := by
  induction payloads with
  | nil =>
    by_cases hd : d = lasthop
    · simp [hd, onDevice, emissions]
    · simp [hd, onDevice, emissions, Ne.symm hd]
  | cons payload payloads ih =>
    have hcons : emissions ((payload :: payloads).map (fun packet =>
        Output.emit lasthop (.LinkPayload id packet)) ++ [Output.emit lasthop (.TunnelAck id)]) =
        (lasthop, .LinkPayload id payload) :: emissions (payloads.map (fun packet =>
          Output.emit lasthop (.LinkPayload id packet)) ++ [Output.emit lasthop (.TunnelAck id)]) := rfl
    rw [hcons, onDevice_cons, ih]
    by_cases hd : d = lasthop
    · simp [hd]
    · simp [hd, Ne.symm hd]

end Nodes

section Path

variable {T : Topology ν δ} {id : ι}

theorem leads_accept {net : Net ν δ ι π} {d : δ} {r : Option δ} (payloads : List π)
    (hqueue : queue net (T.peer d) = payloads.map (.LinkPayload id) ++ [.TunnelAck id])
    (htib : (net.managers (T.owner d)).m_tib id = none) (hprt : (net.managers (T.owner d)).m_prt id = some r)
    (hface : ∀ x ∈ r, HasFace (T.host (T.owner d)) x) :
    ∃ net', Leads T net net' ∧ (∀ n ≠ T.owner d, net'.managers n = net.managers n) ∧
      (net'.managers (T.owner d)).m_tib id = some (some d, r) ∧
      ∀ e, queue net' e = (if e = T.peer d then [] else queue net e) ++
        (if r = some e then [.TunnelAck id] else []) := by
  have hnext : T.next (T.peer d) = T.owner d := by simp [Wiring.next, T.peer_peer]
  induction payloads generalizing net with
  | nil =>
    obtain ⟨m, outs, hack⟩ := processTunnelAck_accepts (T.peer (T.peer d)) hprt hface
    obtain ⟨rfl, hpair, -⟩ := processTunnelAck_accepted hprt hack
    rw [← hnext] at hack
    obtain ⟨net', hleads, hmanagers, hqueues⟩ := Leads.deliver hqueue hack
      (by cases r <;> rfl)
    rw [hnext] at hmanagers
    refine ⟨net', hleads, ?_, ?_, ?_⟩
    · intro n hn
      rw [hmanagers, Function.update_of_ne hn]
    · rw [hmanagers, Function.update_self, hpair, Function.update_self, T.peer_peer]
    · intro e
      rw [hqueues]
      congr 1
      cases r with
      | none => simp [onDevice, emissions]
      | some x =>
        simp only [Option.map_some, Option.toList_some, emissions, List.filterMap_cons, List.filterMap_nil,
          onDevice_cons, Option.some.injEq]
        rfl
  | cons payload payloads ih =>
    have hdiscard : ProcessPacket (T.host (T.owner d)) (.LinkPayload id payload) (T.peer (T.peer d))
        (net.managers (T.owner d)) = .ok (_, []) := processLinkPayload_discarded htib
    rw [← hnext] at hdiscard
    obtain ⟨mid, hleads, hmanagers, hqueues⟩ := Leads.deliver hqueue hdiscard rfl
    rw [hnext] at hmanagers
    have hself := congrFun hmanagers (T.owner d)
    rw [Function.update_self] at hself
    obtain ⟨net', hleads', hothers, hpair, hqueues'⟩ := @ih mid (by simp [hqueues, onDevice, emissions])
      (by rw [hself]; exact htib) (by rw [hself]; exact hprt)
    refine ⟨net', hleads.trans hleads', ?_, hpair, ?_⟩
    · intro n hn
      rw [hothers n hn, hmanagers, Function.update_of_ne hn]
    · intro e
      rw [hqueues', hqueues]
      by_cases he : e = T.peer d
      · simp [he]
      · simp [he, onDevice, emissions]

/-- The request is the oldest packet on `d`; further along the path nobody has
heard of the id, and nothing is on the links. -/
structure Awaiting (T : Topology ν δ) (id : ι) (oldSat : ν) (net : Net ν δ ι π) (d : δ) (ds : List δ)
    (hopLimit : ℕ) : Prop where
  path : Path T.toWiring (T.owner d) oldSat (d :: ds)
  nodup : (nodes T.toWiring (T.owner d) (d :: ds)).Nodup
  request : ∃ rest, queue net d = .TunnelReq id hopLimit :: rest
  hops : ds.length < hopLimit
  up : ∀ e ∈ ds, ∃ face ∈ T.faces (T.owner e), face.netDevice = e ∧ face.m_isGone = false
  back : ∀ e ∈ d :: ds, HasFace (T.host (T.next e)) (T.peer e)
  empty : ∀ e ∈ ds, queue net e = []
  emptyBack : ∀ e ∈ d :: ds, queue net (T.peer e) = []
  holder : id ∈ (net.managers oldSat).m_idList
  between : ∀ e ∈ ds, id ∉ (net.managers (T.owner e)).m_idList ∧ (net.managers (T.owner e)).m_prt id = none ∧
    (net.managers (T.owner e)).m_tib id = none

/-- The acknowledgement has come back on `d`, behind what has been buffered or
behind nothing; no node but those on the path has done anything. -/
structure Returned (T : Topology ν δ) (id : ι) (net net' : Net ν δ ι π) (d : δ) (ds : List δ) : Prop where
  leads : Leads T net net'
  ack : ∃ payloads : List π, queue net' (T.peer d) = payloads.map (.LinkPayload id) ++ [.TunnelAck id]
  others : ∀ n ∉ (d :: ds).map T.next, net'.managers n = net.managers n
  queues : ∀ e, T.owner e ∉ (d :: ds).map T.next → e ≠ d → queue net' e = queue net e
  payloads : ∀ e ≠ T.peer d, ∀ payload, .LinkPayload id payload ∈ queue net' e →
    .LinkPayload id payload ∈ queue net e

theorem Awaiting.answer {oldSat : ν} {net : Net ν δ ι π} {d : δ} {hopLimit : ℕ}
    (h : Awaiting T id oldSat net d [] hopLimit) : ∃ net', Returned T id net net' d [] := by
  obtain ⟨-, hend⟩ := h.path
  obtain rfl : T.next d = oldSat := hend
  obtain ⟨rest, hrequest⟩ := h.request
  have hne : T.peer d ≠ d := by
    intro heq
    have hnodup := h.nodup
    have hsame : T.owner d = T.next d := by rw [Wiring.next, heq]
    simp [nodes, hsame] at hnodup
  obtain ⟨m, outs, hanswer⟩ := processTunnelReq_answers hopLimit h.holder (h.back d (by simp))
  obtain ⟨rfl, -⟩ := processTunnelReq_answered h.holder hanswer
  obtain ⟨net', hleads, hmanagers, hqueues⟩ := Leads.deliver hrequest hanswer (by simp [injections])
  refine ⟨net', hleads, ⟨((net.managers (T.next d)).m_dt id).getD [], ?_⟩, ?_, ?_, ?_⟩
  · rw [hqueues, onDevice_answer, if_neg hne, if_pos rfl, h.emptyBack d (by simp), List.nil_append]
  · intro n hn
    rw [hmanagers, Function.update_of_ne (by simpa using hn)]
  · intro e he hed
    have hep : e ≠ T.peer d := by
      rintro rfl
      exact he (by simp [Wiring.next])
    rw [hqueues, onDevice_answer, if_neg hed, if_neg hep, List.append_nil]
  · intro e he payload hmem
    rw [hqueues, onDevice_answer, if_neg he, List.append_nil] at hmem
    split at hmem
    · rename_i hed
      rw [hed, hrequest]
      exact List.mem_cons_of_mem _ hmem
    · exact hmem

omit [DecidableEq ν] [DecidableEq ι] in
theorem Awaiting.peer_ne {oldSat : ν} {ds : List δ} {net : Net ν δ ι π} {d e : δ} {hopLimit : ℕ}
    (h : Awaiting T id oldSat net d (e :: ds) hopLimit) : T.peer d ≠ e := by
  rintro rfl
  have hnodup := h.nodup
  have hback : T.next (T.peer d) = T.owner d := by simp [Wiring.next, T.peer_peer]
  simp [nodes, hback] at hnodup

omit [DecidableEq ν] [DecidableEq ι] in
theorem Awaiting.nodup_nodes {oldSat : ν} {ds : List δ} {net : Net ν δ ι π} {d e : δ} {hopLimit : ℕ}
    (h : Awaiting T id oldSat net d (e :: ds) hopLimit) :
    T.owner d ∉ T.next d :: nodes T.toWiring (T.next e) ds ∧ T.next d ∉ nodes T.toWiring (T.next e) ds ∧
      (nodes T.toWiring (T.next e) ds).Nodup := by
  have hnodup := h.nodup
  have hsplit : nodes T.toWiring (T.owner d) (d :: e :: ds) =
      T.owner d :: T.next d :: nodes T.toWiring (T.next e) ds := by
    simp [nodes]
  rwa [hsplit, List.nodup_cons, List.nodup_cons] at hnodup

omit [DecidableEq ν] [DecidableEq ι] in
theorem Awaiting.advance {oldSat : ν} {ds : List δ} {net mid : Net ν δ ι π} {d e : δ} {hopLimit : ℕ}
    (h : Awaiting T id oldSat net d (e :: ds) hopLimit)
    (hothers : ∀ n ≠ T.next d, mid.managers n = net.managers n)
    (hquiet : ∀ x ≠ d, T.owner x ≠ T.next d → queue mid x = queue net x)
    (hrequest : ∃ rest, queue mid e = .TunnelReq id (hopLimit - 1) :: rest) :
    Awaiting T id oldSat mid e ds (hopLimit - 1) := by
  obtain ⟨-, hpath⟩ := h.path
  have howner : T.owner e = T.next d := hpath.1
  have hhops := h.hops
  rw [List.length_cons] at hhops
  obtain ⟨hfirst, hsecond, hlater⟩ := h.nodup_nodes
  have hpathnode (n : ν) (hn : n ∈ nodes T.toWiring (T.next e) ds) : n ≠ T.next d ∧ n ≠ T.owner d := by
    refine ⟨?_, ?_⟩
    · rintro rfl
      exact hsecond hn
    · rintro rfl
      exact hfirst (List.mem_cons_of_mem _ hn)
  have hpathqueue (x : δ) (hx : T.owner x ∈ nodes T.toWiring (T.next e) ds) : queue mid x = queue net x := by
    obtain ⟨hxn, hxo⟩ := hpathnode _ hx
    exact hquiet x (fun heq => hxo (by rw [heq])) hxn
  have hbehind (x : δ) (hx : x ∈ ds) : T.owner x ∈ nodes T.toWiring (T.next e) ds :=
    List.dropLast_subset _ (hpath.2.owners x hx)
  refine ⟨⟨rfl, hpath.2⟩, ?_, hrequest, by omega, ?_, ?_, ?_, ?_, ?_, ?_⟩
  · have hnodes : nodes T.toWiring (T.owner e) (e :: ds) = T.next d :: nodes T.toWiring (T.next e) ds := by
      simp [nodes, howner]
    rw [hnodes]
    exact List.nodup_cons.mpr ⟨hsecond, hlater⟩
  · exact fun x hx => h.up x (List.mem_cons_of_mem _ hx)
  · exact fun x hx => h.back x (List.mem_cons_of_mem _ hx)
  · intro x hx
    rw [hpathqueue x (hbehind x hx)]
    exact h.empty x (List.mem_cons_of_mem _ hx)
  · intro x hx
    have hmem : T.owner (T.peer x) ∈ nodes T.toWiring (T.next e) ds := by
      rcases List.mem_cons.mp hx with rfl | hx
      · exact List.mem_cons_self
      · exact List.mem_cons_of_mem _ (List.mem_map_of_mem hx)
    rw [hpathqueue _ hmem]
    exact h.emptyBack x (List.mem_cons_of_mem _ hx)
  · rw [hothers _ (hpathnode _ hpath.2.end_mem).1]
    exact h.holder
  · intro x hx
    rw [hothers _ (hpathnode _ (hbehind x hx)).1]
    exact h.between x (List.mem_cons_of_mem _ hx)

theorem Awaiting.forward {oldSat : ν} {ds : List δ} {net : Net ν δ ι π} {d e : δ} {hopLimit : ℕ}
    (h : Awaiting T id oldSat net d (e :: ds) hopLimit) :
    ∃ mid, Leads T net mid ∧ Awaiting T id oldSat mid e ds (hopLimit - 1) ∧
      (∀ n ≠ T.next d, mid.managers n = net.managers n) ∧
      (mid.managers (T.next d)).m_prt id = some (some (T.peer d)) ∧
      (mid.managers (T.next d)).m_tib id = none ∧ queue mid (T.peer d) = [] ∧
      (∀ x ≠ d, T.owner x ≠ T.next d → queue mid x = queue net x) ∧
      ∀ x payload, .LinkPayload id payload ∈ queue mid x → .LinkPayload id payload ∈ queue net x := by
  obtain ⟨-, hpath⟩ := h.path
  have howner : T.owner e = T.next d := hpath.1
  obtain ⟨rest, hrequest⟩ := h.request
  have hhops := h.hops
  rw [List.length_cons] at hhops
  obtain ⟨hlist, hprt, htib⟩ := h.between e (by simp)
  rw [howner] at hlist hprt htib
  obtain ⟨hfirst, -, -⟩ := h.nodup_nodes
  have hsecond : T.owner d ≠ T.next d := fun heq => hfirst (by rw [heq]; exact List.mem_cons_self)
  have hdown := h.peer_ne
  have hturn : T.peer d ≠ d := fun heq => hsecond (by rw [Wiring.next, heq])
  have hed : e ≠ d := fun heq => hsecond (by rw [← heq, howner, heq])
  obtain ⟨m, outs, hflood⟩ := processTunnelReq_floods (T.host (T.next d)) hopLimit (T.peer d) hlist hprt
  obtain ⟨rfl, hprt', htib', -⟩ := processTunnelReq_flooded hlist hprt hflood
  obtain ⟨mid, hleads, hmanagers, hqueues⟩ := Leads.deliver hrequest hflood injections_flood
  have hothers (n : ν) (hn : n ≠ T.next d) : mid.managers n = net.managers n := by
    rw [hmanagers, Function.update_of_ne hn]
  have hquiet (x : δ) (hx : x ≠ d) (hxn : T.owner x ≠ T.next d) : queue mid x = queue net x := by
    rw [hqueues, if_neg hx, onDevice_flood_other hxn, List.append_nil]
  have hremaining : remainingHops (T.host (T.next d)) hopLimit = hopLimit - 1 := by
    rw [remainingHops, if_neg (by omega)]
  refine ⟨mid, hleads, h.advance hothers hquiet ?_, hothers, ?_, ?_, ?_, hquiet, ?_⟩
  · have hup := h.up e (by simp)
    rw [howner] at hup
    obtain ⟨others, hhead⟩ := onDevice_flood_head (π := π) id (by rw [hremaining]; omega)
      (show some (T.peer d) ≠ some e from fun heq => hdown (Option.some.inj heq)) hup
    exact ⟨others, by rw [hqueues, if_neg hed, h.empty e (by simp), hhead, hremaining, List.nil_append]⟩
  · rw [hmanagers, Function.update_self, hprt', Function.update_self]
  · rw [hmanagers, Function.update_self, htib', htib]
  · rw [hqueues, if_neg hturn, h.emptyBack d (by simp), onDevice_flood_source, List.append_nil]
  · intro x payload hmem
    rw [hqueues] at hmem
    rcases List.mem_append.mp hmem with hmem | hmem
    · split at hmem
      · rename_i hx
        rw [hx, hrequest]
        exact List.mem_cons_of_mem _ hmem
      · exact hmem
    · exact absurd hmem not_payload_of_flood

theorem Awaiting.returned {oldSat : ν} (ds : List δ) {net : Net ν δ ι π} {d : δ} {hopLimit : ℕ}
    (h : Awaiting T id oldSat net d ds hopLimit) : ∃ net', Returned T id net net' d ds := by
  induction ds generalizing net d hopLimit with
  | nil => exact h.answer
  | cons e ds ih =>
    obtain ⟨mid, hleads, hawaiting, hothers, hprt, htib, hempty, hquiet, hpayloads⟩ := h.forward
    have howner : T.owner e = T.next d := h.path.2.1
    obtain ⟨net₂, hreturned⟩ := ih hawaiting
    have hnodup := hawaiting.nodup
    have hnodes : nodes T.toWiring (T.owner e) (e :: ds) = T.next d :: (e :: ds).map T.next := by
      simp [nodes, howner]
    rw [hnodes, List.nodup_cons] at hnodup
    have hsame : net₂.managers (T.next d) = mid.managers (T.next d) := hreturned.others _ hnodup.1
    have hdown := h.peer_ne
    have hempty₂ : queue net₂ (T.peer d) = [] := by
      rw [hreturned.queues _ hnodup.1 hdown, hempty]
    obtain ⟨payloads, hack⟩ := hreturned.ack
    obtain ⟨net₃, hleads₃, hothers₃, -, hqueues₃⟩ := leads_accept payloads hack
      (by rw [howner, hsame]; exact htib) (by rw [howner, hsame]; exact hprt)
      (by
        intro x hx
        cases hx
        rw [howner]
        exact h.back d (by simp))
    refine ⟨net₃, (hleads.trans hreturned.leads).trans hleads₃, ⟨[], ?_⟩, ?_, ?_, ?_⟩
    · rw [hqueues₃, hempty₂, ite_self, if_pos rfl]
      rfl
    · intro n hn
      rw [List.map_cons, List.mem_cons, not_or] at hn
      rw [hothers₃ n (by rw [howner]; exact hn.1), hreturned.others n hn.2, hothers n hn.1]
    · intro x hx hxd
      rw [List.map_cons, List.mem_cons, not_or] at hx
      have hxe : x ≠ e := fun heq => hx.1 (by rw [heq, howner])
      have hxp : x ≠ T.peer e := by
        rintro rfl
        exact hx.2 (by simp [Wiring.next])
      have hxq : some (T.peer d) ≠ some x := by
        intro heq
        exact hx.1 (by rw [← Option.some.inj heq]; rfl)
      rw [hqueues₃, if_neg hxp, if_neg hxq, List.append_nil, hreturned.queues x hx.2 hxe, hquiet x hxd hx.1]
    · intro x hx payload hmem
      rw [hqueues₃, if_neg (fun heq => hx (Option.some.inj heq).symm), List.append_nil] at hmem
      split at hmem
      · cases hmem
      · exact hpayloads x payload (hreturned.payloads x (by assumption) payload hmem)

end Path

section Lossless

def isPayload (id : ι) (record : Record ν δ ι π) : Bool :=
  match record.event with
  | .ProcessPacket (.LinkPayload id' _) _ => decide (id' = id)
  | _ => false

def handedUp (id : ι) (n : ν) (trace : List (Record ν δ ι π)) : List π :=
  trace.flatMap (fun record =>
    if isPayload id record = true ∧ record.node = n then (injections n record.outs).map (fun e => e.2.2) else [])

def Drained (id : ι) (net : Net ν δ ι π) : Prop := ∀ d payload, (d, .LinkPayload id payload) ∉ net.inFlight

def Unsent (id : ι) (labels : List (Label ν δ ι π)) : Prop :=
  ∀ n packet, .call n (.TunnelPacket packet id) ∉ labels

/-- In every run after one broadcast of the id in which the links deliver in
order, the requester has injected just these payloads when the tunnel has been
established and is empty. -/
def Lossless (T : Topology ν δ) (id : ι) (requester : ν) (buffered : List π) (net : Net ν δ ι π) : Prop :=
  ∀ labels trace net', Uncalled id labels → Unsent id labels →
    inOrder T (.call requester (.BroadcastReq id) :: labels) net = true →
    run T (.call requester (.BroadcastReq id) :: labels) net = some (trace, net') →
    (pairsOf id net' requester).isSome → Drained id net' → handedUp id requester trace = buffered

/-- The old satellite has the packets buffered for the id; a path of live links
that is no longer than the hop limit leads from the requester to it. No node has
heard of the id, no other node on the way has it, and the links of the path are
empty. -/
structure Ready (T : Topology ν δ) (id : ι) (requester oldSat : ν) (buffered : List π) (net : Net ν δ ι π)
    (ds : List δ) : Prop where
  path : Path T.toWiring requester oldSat ds
  nodup : (nodes T.toWiring requester ds).Nodup
  apart : requester ≠ oldSat
  hops : ds.length ≤ T.m_hopLimit
  up : ∀ d ∈ ds, ∃ face ∈ T.faces (T.owner d), face.netDevice = d ∧ face.m_isGone = false
  back : ∀ d ∈ ds, HasFace (T.host (T.next d)) (T.peer d)
  fresh : Fresh id net
  drained : Drained id net
  empty : ∀ d ∈ ds, queue net d = [] ∧ queue net (T.peer d) = []
  holder : id ∈ (net.managers oldSat).m_idList
  between : ∀ n ∈ nodes T.toWiring requester ds, n ≠ requester → n ≠ oldSat → id ∉ (net.managers n).m_idList
  buffer : ((net.managers oldSat).m_dt id).getD [] = buffered
  unbuffered : ∀ n ≠ oldSat, ((net.managers n).m_dt id).getD [] = []

variable {T : Topology ν δ} {id : ι} {requester oldSat : ν} {buffered : List π} {net net' : Net ν δ ι π}

theorem Ready.awaiting {d : δ} {ds : List δ} (h : Ready T id requester oldSat buffered net (d :: ds)) :
    ∃ record mid, step T (.call requester (.BroadcastReq id)) net = some (record, mid) ∧
      Awaiting T id oldSat mid d ds T.m_hopLimit ∧ (mid.managers requester).m_prt id = some none ∧
      (mid.managers requester).m_tib id = none ∧ Drained id mid := by
  have hhops := h.hops
  rw [List.length_cons] at hhops
  have howner : T.owner d = requester := h.path.1
  have hremaining : remainingHops (T.host requester) 0 = T.m_hopLimit := rfl
  have hsplit : nodes T.toWiring requester (d :: ds) = requester :: (d :: ds).map T.next := rfl
  have hnodup := h.nodup
  rw [hsplit, List.nodup_cons] at hnodup
  have hnode (n : ν) (hn : n ∈ (d :: ds).map T.next) : n ≠ requester := fun heq => hnodup.1 (heq ▸ hn)
  have hnodes : nodes T.toWiring (T.next d) ds = (d :: ds).map T.next := rfl
  have hbehind (x : δ) (hx : x ∈ ds) : T.owner x ∈ (d :: ds).map T.next := by
    rw [← hnodes]
    exact List.dropLast_subset _ (h.path.2.owners x hx)
  let started := BroadcastReq (T.host requester) id 0 none (net.managers requester)
  let mid : Net ν δ ι π :=
    { managers := Function.update net.managers requester started.1
      inFlight := net.inFlight ++ emissions started.2
      injected := net.injected ++ injections requester started.2 }
  have hstep : step T (.call requester (.BroadcastReq id)) net =
      some (⟨requester, .BroadcastReq id, net.managers requester, started.2⟩, mid) := rfl
  have hqueues (x : δ) : queue mid x = queue net x ++
      onDevice (emissions (floodOutputs (π := π) (T.host requester) id 0 none)) x := by
    rw [queue, onDevice_append, ← BroadcastReq_outs]
    rfl
  have hquiet (x : δ) (hx : T.owner x ∈ (d :: ds).map T.next) : queue mid x = queue net x := by
    rw [hqueues, onDevice_flood_other (hnode _ hx), List.append_nil]
  have hothers (n : ν) (hn : n ∈ (d :: ds).map T.next) : mid.managers n = net.managers n :=
    Function.update_of_ne (hnode n hn) _ _
  have hself : mid.managers requester = started.1 := Function.update_self _ _ _
  have hend : oldSat ∈ (d :: ds).map T.next := by
    rw [← hnodes]
    exact h.path.2.end_mem
  refine ⟨_, mid, hstep, ?_, ?_, ?_, ?_⟩
  · refine ⟨⟨rfl, h.path.2⟩, ?_, ?_, by omega, ?_, h.back, ?_, ?_, ?_, ?_⟩
    · rw [howner]
      exact h.nodup
    · have hup := h.up d (by simp)
      rw [howner] at hup
      obtain ⟨rest, hhead⟩ := onDevice_flood_head (π := π) id (by rw [hremaining]; omega)
        (show none ≠ some d by simp) hup
      exact ⟨rest, by rw [hqueues, (h.empty d (by simp)).1, hhead, hremaining, List.nil_append]⟩
    · exact fun x hx => h.up x (List.mem_cons_of_mem _ hx)
    · intro x hx
      rw [hquiet x (hbehind x hx)]
      exact (h.empty x (List.mem_cons_of_mem _ hx)).1
    · intro x hx
      rw [hquiet (T.peer x) (List.mem_map_of_mem hx)]
      exact (h.empty x hx).2
    · rw [hothers oldSat hend]
      exact h.holder
    · intro x hx
      have hmem := hbehind x hx
      rw [hothers _ hmem]
      refine ⟨h.between _ (List.mem_cons_of_mem _ hmem) (hnode _ hmem) ?_, h.fresh.pending _, h.fresh.pairs _⟩
      exact h.path.2.owner_ne_end hnodup.2 x hx
  · rw [hself, BroadcastReq_prt, if_pos ⟨rfl, by rw [hremaining]; omega⟩, Function.update_self]
  · rw [hself, (BroadcastReq_tables _ _ 0 none _).1]
    exact h.fresh.pairs requester
  · intro x payload hmem
    have hqueue := mem_onDevice.mpr hmem
    rw [← queue, hqueues] at hqueue
    rcases List.mem_append.mp hqueue with hqueue | hqueue
    · exact h.drained x payload (mem_onDevice.mp hqueue)
    · exact not_payload_of_flood hqueue

theorem Ready.exists_run {ds : List δ} (h : Ready T id requester oldSat buffered net ds) :
    ∃ is trace net', inOrder T (.call requester (.BroadcastReq id) :: deliveries is) net = true ∧
      run T (.call requester (.BroadcastReq id) :: deliveries is) net = some (trace, net') ∧
      (pairsOf id net' requester).isSome ∧ Drained id net' ∧ handedUp id requester trace = [] := by
  cases ds with
  | nil => exact absurd h.path h.apart
  | cons d ds =>
    obtain ⟨record, mid, hstep, hawaiting, hprt, htib, hdrained⟩ := h.awaiting
    obtain ⟨net₂, hreturned⟩ := hawaiting.returned
    have howner : T.owner d = requester := h.path.1
    have hnot : requester ∉ (d :: ds).map T.next := (List.nodup_cons.mp h.nodup).1
    have hsame : net₂.managers (T.owner d) = mid.managers requester := by
      rw [howner, hreturned.others _ hnot]
    obtain ⟨payloads, hack⟩ := hreturned.ack
    obtain ⟨net₃, hleads, -, hpair, hqueues⟩ := leads_accept payloads hack (by rw [hsame]; exact htib)
      (by rw [hsame]; exact hprt) (by simp)
    obtain ⟨is, trace, horder, hrun, hnone⟩ := hreturned.leads.trans hleads
    refine ⟨is, record :: trace, net₃, ?_, ?_, ?_, ?_, ?_⟩
    · simp only [inOrder, isOldest, hstep, horder, Bool.and_self]
    · simp only [run, hstep, hrun, Option.bind_eq_bind, Option.bind_some]
    · rw [pairsOf, ← howner, hpair]
      rfl
    · intro e payload hmem
      have hqueue := mem_onDevice.mpr hmem
      have hnone : (none : Option δ) ≠ some e := by simp
      rw [← queue, hqueues, if_neg hnone, List.append_nil] at hqueue
      split at hqueue
      · cases hqueue
      · have hmid := hreturned.payloads e (by assumption) payload hqueue
        exact hdrained e payload (mem_onDevice.mp hmid)
    · obtain ⟨-, -, hevent⟩ := step_call hstep
      rw [handedUp, List.flatMap_eq_nil_iff]
      intro r hr
      rcases List.mem_cons.mp hr with rfl | hr
      · simp [isPayload, hevent]
      · split
        · rename_i hn
          rw [← hn.2, hnone r hr]
          rfl
        · rfl

/-- Nothing is buffered for the id, and no payload of the tunnel is in flight. -/
structure Bare (id : ι) (net : Net ν δ ι π) : Prop where
  buffers : ∀ n, ((net.managers n).m_dt id).getD [] = []
  drained : Drained id net

theorem processTunnelReq_bare {host : Host δ} {id' : ι} {hopLimit : ℕ} {lasthop : δ} {m m' : Manager ι δ π}
    {outs : List (Output ι δ π)} (h : handle host (.ProcessPacket (.TunnelReq id' hopLimit) lasthop) m = .ok (m', outs))
    (hbuffer : (m.m_dt id).getD [] = []) :
    (m'.m_dt id).getD [] = [] ∧ ∀ d payload, .emit d (.LinkPayload id payload) ∉ outs := by
  by_cases hmem : id' ∈ m.m_idList
  · obtain ⟨rfl, -, -, -, hdt, -⟩ := processTunnelReq_answered hmem h
    refine ⟨?_, ?_⟩
    · rw [hdt]
      by_cases hid : id = id'
      · simp [hid]
      · rw [Function.update_of_ne hid]
        exact hbuffer
    · intro d payload hout
      rcases List.mem_append.mp hout with hout | hout
      · obtain ⟨packet, hpacket, heq⟩ := List.mem_map.mp hout
        cases heq
        rw [hbuffer] at hpacket
        cases hpacket
      · cases List.mem_singleton.mp hout
  · by_cases hprt : (m.m_prt id').isSome
    · obtain ⟨rfl, rfl⟩ := processTunnelReq_discarded hmem hprt h
      exact ⟨hbuffer, by simp⟩
    · obtain ⟨rfl, -, -, -, hdt, -⟩ := processTunnelReq_flooded hmem (by simpa using hprt) h
      refine ⟨by rw [hdt]; exact hbuffer, ?_⟩
      intro d payload hout
      obtain ⟨-, hops, hpacket⟩ := mem_floodOutputs hout
      cases hpacket

theorem processTunnelAck_bare {host : Host δ} {id' : ι} {lasthop : δ} {m m' : Manager ι δ π}
    {outs : List (Output ι δ π)} (h : handle host (.ProcessPacket (.TunnelAck id') lasthop) m = .ok (m', outs))
    (hbuffer : (m.m_dt id).getD [] = []) :
    (m'.m_dt id).getD [] = [] ∧ ∀ d payload, .emit d (.LinkPayload id payload) ∉ outs := by
  cases hprt : m.m_prt id' with
  | none =>
    obtain ⟨rfl, rfl⟩ := processTunnelAck_discarded hprt h
    exact ⟨hbuffer, by simp⟩
  | some r =>
    obtain ⟨rfl, -, -, -, hdt, -⟩ := processTunnelAck_accepted hprt h
    refine ⟨by rw [hdt]; exact hbuffer, ?_⟩
    intro d payload hout
    cases r with
    | none => cases hout
    | some x => cases List.mem_singleton.mp hout

theorem handle_bare {host : Host δ} {event : Event ι δ π} {m m' : Manager ι δ π} {outs : List (Output ι δ π)}
    (h : handle host event m = .ok (m', outs)) (hbuffer : (m.m_dt id).getD [] = [])
    (hcall : ∀ packet, event ≠ .TunnelPacket packet id)
    (hpayload : ∀ payload lasthop, event ≠ .ProcessPacket (.LinkPayload id payload) lasthop) :
    (m'.m_dt id).getD [] = [] ∧ ∀ d payload, .emit d (.LinkPayload id payload) ∉ outs := by
  cases event with
  | TunnelPacket packet id' =>
    have hne : id' ≠ id := fun heq => hcall packet (by rw [heq])
    obtain ⟨-, -, -, -, houts⟩ := TunnelPacket_tables h
    refine ⟨?_, ?_⟩
    · simp only [handle, TunnelPacket] at h
      split at h
      · cases h
        simpa [Function.update_of_ne hne.symm] using hbuffer
      · obtain ⟨nexthop, -, h⟩ := LeoNdn.Loops.ok_of_bind h
        cases h
        exact hbuffer
    · intro d payload hmem
      cases houts d _ hmem
      exact hne rfl
  | AddUserLink id' faceId =>
    cases h
    exact ⟨hbuffer, by simp⟩
  | BroadcastReq id' =>
    have heq : BroadcastReq host id' 0 none m = (m', outs) := Except.ok.inj h
    have htables := BroadcastReq_tables host id' 0 none m
    have houts := BroadcastReq_outs host id' 0 none m
    rw [heq] at htables houts
    simp only at houts
    refine ⟨by rw [htables.2.2.1]; exact hbuffer, ?_⟩
    intro d payload hmem
    rw [houts] at hmem
    obtain ⟨-, hops, hpacket⟩ := mem_floodOutputs hmem
    cases hpacket
  | ProcessPacket packet lasthop =>
    cases packet with
    | unrecognized =>
      cases h
      exact ⟨hbuffer, by simp⟩
    | LinkPayload id' payload =>
      have hne : id' ≠ id := fun heq => hpayload payload lasthop (by rw [heq])
      obtain ⟨-, -, -, hdt, houts⟩ := processLinkPayload_tables h
      refine ⟨by rw [hdt]; exact hbuffer, ?_⟩
      intro d payload' hmem
      cases houts d _ hmem
      exact hne rfl
    | TunnelReq id' hopLimit => exact processTunnelReq_bare h hbuffer
    | TunnelAck id' => exact processTunnelAck_bare h hbuffer

theorem perform_bare {n : ν} {event : Event ι δ π} {record : Record ν δ ι π} (hbare : Bare id net)
    (h : perform T n event net = some (record, net')) (hcall : ∀ packet, event ≠ .TunnelPacket packet id)
    (hpayload : ∀ payload lasthop, event ≠ .ProcessPacket (.LinkPayload id payload) lasthop) :
    Bare id net' ∧ isPayload id record = false := by
  unfold perform at h
  split at h
  · cases h
  · rename_i m outs hhandle
    cases h
    obtain ⟨hbuffer, houts⟩ := handle_bare hhandle (hbare.buffers n) hcall hpayload
    refine ⟨⟨?_, ?_⟩, ?_⟩
    · intro n'
      by_cases hn : n' = n
      · subst hn
        simpa using hbuffer
      · simpa [Function.update_of_ne hn] using hbare.buffers n'
    · intro d payload hmem
      rcases List.mem_append.mp hmem with hmem | hmem
      · exact hbare.drained d payload hmem
      · exact houts d payload (mem_emissions.mp hmem)
    · cases event with
      | ProcessPacket packet lasthop =>
        cases packet with
        | LinkPayload id' payload =>
          have hne : id' ≠ id := fun heq => hpayload payload lasthop (by rw [heq])
          simp [isPayload, hne]
        | _ => rfl
      | _ => rfl

theorem step_bare {label : Label ν δ ι π} {record : Record ν δ ι π} (hbare : Bare id net)
    (h : step T label net = some (record, net')) (hcall : ∀ n packet, label ≠ .call n (.TunnelPacket packet id)) :
    Bare id net' ∧ isPayload id record = false := by
  cases label with
  | call n event =>
    obtain ⟨hreceive, -, -⟩ := step_call h
    simp only [step, hreceive, Bool.false_eq_true, if_false] at h
    apply perform_bare hbare h
    · rintro packet rfl
      exact hcall n packet rfl
    · rintro payload lasthop rfl
      cases hreceive
  | deliver i =>
    simp only [step] at h
    split at h
    · cases h
    · rename_i d packet hi
      have hbase : Bare id { net with inFlight := net.inFlight.eraseIdx i } :=
        ⟨hbare.buffers, fun d' payload hmem => hbare.drained d' payload (List.mem_of_mem_eraseIdx hmem)⟩
      apply perform_bare hbase h
      · simp
      · rintro payload lasthop heq
        cases heq
        exact hbare.drained d payload (List.mem_of_getElem? hi)

theorem run_bare {labels : List (Label ν δ ι π)} {trace : List (Record ν δ ι π)} (hbare : Bare id net)
    (hcalls : Unsent id labels) (h : run T labels net = some (trace, net')) :
    ∀ record ∈ trace, isPayload id record = false := by
  induction labels generalizing net trace with
  | nil =>
    cases h
    simp
  | cons label labels ih =>
    obtain ⟨record, mid, trace', hstep, hrest, rfl⟩ := run_cons h
    obtain ⟨hmid, hrecord⟩ := step_bare hbare hstep
      (fun n packet heq => hcalls n packet (by rw [heq]; exact List.mem_cons_self))
    have hlater := ih hmid (fun n packet hmem => hcalls n packet (List.mem_cons_of_mem _ hmem)) hrest
    intro r hr
    rcases List.mem_cons.mp hr with rfl | hr
    · exact hrecord
    · exact hlater r hr

/-- A handover loses nothing if and only if nothing has been buffered: the
payloads leave the old satellite before the acknowledgement, and the next node
discards them. -/
theorem lossless_iff (T : Topology ν δ) (id : ι) (requester oldSat : ν) (buffered : List π) (net : Net ν δ ι π)
    (ds : List δ) (h : Ready T id requester oldSat buffered net ds) :
    Lossless T id requester buffered net ↔ buffered = [] := by
  constructor
  · intro hlossless
    obtain ⟨is, trace, net', horder, hrun, hentry, hdrained, hnone⟩ := h.exists_run
    rw [← hlossless (deliveries is) trace net' (deliveries_uncalled id is) (by simp [Unsent, deliveries]) horder
      hrun hentry hdrained, hnone]
  · rintro rfl labels trace net' - hunsent - hrun - -
    have hbare : Bare id net := by
      refine ⟨?_, h.drained⟩
      intro n
      by_cases hn : n = oldSat
      · rw [hn]
        exact h.buffer
      · exact h.unbuffered n hn
    have hcalls : Unsent id (.call requester (.BroadcastReq id) :: labels) := by
      intro n packet hmem
      rcases List.mem_cons.mp hmem with heq | hmem
      · cases heq
      · exact hunsent n packet hmem
    have hnone := run_bare hbare hcalls hrun
    rw [handedUp, List.flatMap_eq_nil_iff]
    intro record hrecord
    simp [hnone record hrecord]

theorem lossless_iff_buffering : Lossless handover 0 0 [7, 8] buffering ↔ ([7, 8] : List ℕ) = [] := by
  apply lossless_iff handover 0 0 4 [7, 8] buffering [(0, 1), (1, 2), (2, 4)]
  exact {
    path := ⟨rfl, rfl, rfl, rfl⟩
    nodup := by decide
    apart := by decide
    hops := by decide
    up := by decide
    back := by
      unfold HasFace
      decide
    fresh := ⟨by decide, by decide, by simp [buffering]⟩
    drained := by simp [Drained, buffering]
    empty := by decide
    holder := by decide
    between := by decide
    buffer := by decide
    unbuffered := by decide }

/-- The packets reach 2 before the acknowledgement does. -/
theorem payloads_lost :
    inOrder handover (.call 0 (.BroadcastReq 0) :: deliveries [0, 0, 2, 2, 2, 2, 2, 2]) buffering = true ∧
    (run handover (.call 0 (.BroadcastReq 0) :: deliveries [0, 0, 2, 2, 2, 2, 2, 2]) buffering).map (fun r =>
      (pairsOf 0 r.2 0, handedUp 0 0 r.1, r.2.inFlight)) =
        some (some (some (0, 1), none), [], [((1, 3), .TunnelReq 0 5), ((2, 3), .TunnelReq 0 4)]) :=
  ⟨by decide, rfl⟩

end Lossless

end LeoNdn.HandoverDelivery
