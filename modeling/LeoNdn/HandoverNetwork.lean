import LeoNdn.HandoverManager
import LeoNdn.ReversePath

/-!
The managers of all nodes and the shim packets in flight between them. Packets
may be delivered in any order. For one tunnel id, the network refines the flood
and the reverse path of `ReversePath`.
-/

namespace LeoNdn.HandoverNetwork

open LeoNdn.HandoverManager LeoNdn.ReversePath

/-- The devices and faces of the nodes, while no user link changes. -/
structure Topology (ν δ : Type) extends Wiring ν δ where
  m_hopLimit : ℕ
  faces : ν → List (NodeFace δ)
  owner_face : ∀ n, ∀ face ∈ faces n, owner face.netDevice = n

def Topology.host {ν δ : Type} (T : Topology ν δ) (n : ν) : Host δ := ⟨T.m_hopLimit, T.faces n⟩

/-- Packets in flight stand with the device they were sent on, oldest first;
`injected` are the payloads handed up, with the node and the face. -/
structure Net (ν δ ι π : Type) where
  managers : ν → Manager ι δ π
  inFlight : List (δ × ShimPacket ι π)
  injected : List (ν × ℕ × π)

inductive Label (ν δ ι π : Type)
  | call (n : ν) (event : Event ι δ π)
  | deliver (i : ℕ)

/-- What one step was: the event, its node, the node's manager before it, and
what it put out. -/
structure Record (ν δ ι π : Type) where
  node : ν
  event : Event ι δ π
  before : Manager ι δ π
  outs : List (Output ι δ π)

variable {ν δ ι π : Type}

def emissions (outs : List (Output ι δ π)) : List (δ × ShimPacket ι π) :=
  outs.filterMap (fun out =>
    match out with
    | .emit d packet => some (d, packet)
    | .inject _ _ => none)

def injections (n : ν) (outs : List (Output ι δ π)) : List (ν × ℕ × π) :=
  outs.filterMap (fun out =>
    match out with
    | .emit _ _ => none
    | .inject face payload => some (n, face, payload))

def isReceive : Event ι δ π → Bool
  | .ProcessPacket _ _ => true
  | _ => false

variable [DecidableEq ν] [DecidableEq δ] [DecidableEq ι]

def perform (T : Topology ν δ) (n : ν) (event : Event ι δ π) (net : Net ν δ ι π) :
    Option (Record ν δ ι π × Net ν δ ι π) :=
  match handle (T.host n) event (net.managers n) with
  | .error _ => none
  | .ok (m, outs) =>
    some (⟨n, event, net.managers n, outs⟩,
      { managers := Function.update net.managers n m
        inFlight := net.inFlight ++ emissions outs
        injected := net.injected ++ injections n outs })

/-- A call from the rest of a node, or the delivery of the packet at index `i`;
there is no step when a node crashes. -/
def step (T : Topology ν δ) : Label ν δ ι π → Net ν δ ι π → Option (Record ν δ ι π × Net ν δ ι π)
  | .call n event, net => if isReceive event then none else perform T n event net
  | .deliver i, net =>
    match net.inFlight[i]? with
    | none => none
    | some (d, packet) =>
      perform T (T.next d) (.ProcessPacket packet (T.peer d)) { net with inFlight := net.inFlight.eraseIdx i }

def run (T : Topology ν δ) :
    List (Label ν δ ι π) → Net ν δ ι π → Option (List (Record ν δ ι π) × Net ν δ ι π)
  | [], net => some ([], net)
  | label :: labels, net => do
    let (record, net) ← step T label net
    let (trace, net) ← run T labels net
    some (record :: trace, net)

theorem run_cons {T : Topology ν δ} {label : Label ν δ ι π} {labels : List (Label ν δ ι π)}
    {net net' : Net ν δ ι π} {trace : List (Record ν δ ι π)}
    (h : run T (label :: labels) net = some (trace, net')) :
    ∃ record mid trace', step T label net = some (record, mid) ∧ run T labels mid = some (trace', net') ∧
      trace = record :: trace' := by
  obtain ⟨⟨record, mid⟩, hstep, h⟩ := Option.bind_eq_some_iff.mp h
  obtain ⟨⟨trace', last⟩, hrun, h⟩ := Option.bind_eq_some_iff.mp h
  cases h
  exact ⟨record, mid, trace', hstep, hrun, rfl⟩

section Refinement

variable (T : Topology ν δ) (id : ι)

def requestOf : δ × ShimPacket ι π → Option (δ × ℕ)
  | (d, .TunnelReq id' hopLimit) => if id' = id then some (d, hopLimit) else none
  | _ => none

def ackOf : δ × ShimPacket ι π → Option δ
  | (d, .TunnelAck id') => if id' = id then some d else none
  | _ => none

/-- What the network is for one tunnel id. -/
def abstracted (net : Net ν δ ι π) : State ν δ where
  targets n := (net.managers n).m_idList.count id
  pending n := (net.managers n).m_prt id
  pairs n := (net.managers n).m_tib id
  requests := net.inFlight.filterMap (requestOf id)
  acks := net.inFlight.filterMap (ackOf id)

def copiesOf (outs : List (Output ι δ π)) : List (δ × ℕ) := (emissions outs).filterMap (requestOf id)

/-- What the step does for one tunnel id, if anything. -/
def actOf (record : Record ν δ ι π) : Option (Act ν δ) :=
  match record.event with
  | .TunnelPacket _ _ => none
  | .AddUserLink id' _ => if id' = id then some (.register record.node) else none
  | .BroadcastReq id' =>
    if id' = id ∧ T.m_hopLimit ≠ 0 then some (.start record.node (copiesOf id record.outs)) else none
  | .ProcessPacket (.TunnelReq id' hopLimit) lasthop =>
    if id' = id then
      if id ∈ record.before.m_idList then some (.answer (T.peer lasthop) hopLimit)
      else if (record.before.m_prt id).isSome then some (.discard (T.peer lasthop) hopLimit)
      else some (.flood (T.peer lasthop) hopLimit (copiesOf id record.outs))
    else none
  | .ProcessPacket (.TunnelAck id') lasthop =>
    if id' = id then
      if (record.before.m_prt id).isSome then some (.accept (T.peer lasthop))
      else some (.drop (T.peer lasthop))
    else none
  | .ProcessPacket (.LinkPayload _ _) _ => none
  | .ProcessPacket .unrecognized _ => none

def acksOf (outs : List (Output ι δ π)) : List δ := (emissions outs).filterMap (ackOf id)

variable {T id}

omit [DecidableEq δ] [DecidableEq ι] in
theorem mem_emissions {outs : List (Output ι δ π)} {d : δ} {packet : ShimPacket ι π} :
    (d, packet) ∈ emissions outs ↔ .emit d packet ∈ outs := by
  simp only [emissions, List.mem_filterMap]
  constructor
  · rintro ⟨out, hout, hsome⟩
    cases out with
    | emit d' packet' =>
      cases hsome
      exact hout
    | inject face payload => cases hsome
  · intro hout
    exact ⟨_, hout, rfl⟩

omit [DecidableEq δ] in
theorem copiesOf_eq_nil {outs : List (Output ι δ π)}
    (h : ∀ d packet, .emit d packet ∈ outs → requestOf id (d, packet) = none) : copiesOf id outs = [] := by
  unfold copiesOf
  rw [List.filterMap_eq_nil_iff]
  rintro ⟨d, packet⟩ hmem
  exact h d packet (mem_emissions.mp hmem)

omit [DecidableEq δ] in
theorem acksOf_eq_nil {outs : List (Output ι δ π)}
    (h : ∀ d packet, .emit d packet ∈ outs → ackOf id (d, packet) = none) : acksOf id outs = [] := by
  unfold acksOf
  rw [List.filterMap_eq_nil_iff]
  rintro ⟨d, packet⟩ hmem
  exact h d packet (mem_emissions.mp hmem)

omit [DecidableEq ι] in
theorem mem_floodOutputs {host : Host δ} {id' : ι} {hopLimit : ℕ} {lasthop : Option δ} {d : δ}
    {packet : ShimPacket ι π} (h : .emit d packet ∈ floodOutputs (π := π) host id' hopLimit lasthop) :
    (∃ face ∈ host.faces, face.netDevice = d) ∧ ∃ hops, packet = .TunnelReq id' hops := by
  unfold floodOutputs at h
  split at h
  · cases h
  · obtain ⟨face, hface, heq⟩ := List.mem_map.mp h
    cases heq
    exact ⟨⟨face, List.mem_of_mem_filter hface, rfl⟩, _, rfl⟩

omit [DecidableEq ν] in
theorem copiesOf_owner {n : ν} {hopLimit : ℕ} {lasthop : Option δ} :
    ∀ c ∈ copiesOf id (floodOutputs (π := π) (T.host n) id hopLimit lasthop), T.owner c.1 = n := by
  intro c hc
  obtain ⟨⟨d, packet⟩, hmem, hsome⟩ := List.mem_filterMap.mp hc
  obtain ⟨⟨face, hface, rfl⟩, hops, rfl⟩ := mem_floodOutputs (mem_emissions.mp hmem)
  simp only [requestOf, if_true, Option.some.injEq] at hsome
  rw [← hsome]
  exact T.owner_face n face hface

theorem acksOf_floodOutputs {host : Host δ} {id' : ι} {hopLimit : ℕ} {lasthop : Option δ} :
    acksOf id (floodOutputs (π := π) host id' hopLimit lasthop) = [] := by
  apply acksOf_eq_nil
  intro d packet hmem
  obtain ⟨-, hops, rfl⟩ := mem_floodOutputs hmem
  rfl

theorem copiesOf_floodOutputs_ne {host : Host δ} {id' : ι} {hopLimit : ℕ} {lasthop : Option δ}
    (hne : id' ≠ id) : copiesOf id (floodOutputs (π := π) host id' hopLimit lasthop) = [] := by
  apply copiesOf_eq_nil
  intro d packet hmem
  obtain ⟨-, hops, rfl⟩ := mem_floodOutputs hmem
  simp [requestOf, hne]

theorem abstracted_perform (id : ι) {n : ν} {event : Event ι δ π} {net net' : Net ν δ ι π} {record : Record ν δ ι π}
    (h : perform T n event net = some (record, net')) :
    ∃ m outs, handle (T.host n) event (net.managers n) = .ok (m, outs) ∧
      record = ⟨n, event, net.managers n, outs⟩ ∧
      abstracted id net' =
        { targets := Function.update (abstracted id net).targets n (m.m_idList.count id)
          pending := Function.update (abstracted id net).pending n (m.m_prt id)
          pairs := Function.update (abstracted id net).pairs n (m.m_tib id)
          requests := (abstracted id net).requests + copiesOf id outs
          acks := (abstracted id net).acks + acksOf id outs } := by
  unfold perform at h
  split at h
  · cases h
  · rename_i m outs hhandle
    cases h
    refine ⟨m, outs, hhandle, rfl, ?_⟩
    have hupdate {α : Type} (f : Manager ι δ π → α) : (fun x => f (Function.update net.managers n m x)) =
        Function.update (fun x => f (net.managers x)) n (f m) := by
      funext x
      by_cases hx : x = n
      · subst hx
        simp
      · simp [Function.update_of_ne hx]
    simp only [abstracted, hupdate (fun m => m.m_idList.count id), hupdate (fun m => m.m_prt id),
      hupdate (fun m => m.m_tib id), List.filterMap_append, copiesOf, acksOf, Multiset.coe_add]

theorem abstracted_taken (id : ι) {n : ν} {event : Event ι δ π} {net base net' : Net ν δ ι π} {record : Record ν δ ι π}
    (hmanagers : net.managers = base.managers) (h : perform T n event base = some (record, net')) :
    ∃ m outs, handle (T.host n) event (net.managers n) = .ok (m, outs) ∧
      record = ⟨n, event, net.managers n, outs⟩ ∧
      abstracted id net' =
        { targets := Function.update (abstracted id net).targets n (m.m_idList.count id)
          pending := Function.update (abstracted id net).pending n (m.m_prt id)
          pairs := Function.update (abstracted id net).pairs n (m.m_tib id)
          requests := (abstracted id base).requests + copiesOf id outs
          acks := (abstracted id base).acks + acksOf id outs } := by
  obtain ⟨m, outs, hhandle, hrecord, habs⟩ := abstracted_perform id h
  rw [hmanagers]
  refine ⟨m, outs, hhandle, hrecord, ?_⟩
  rw [habs]
  simp only [abstracted, hmanagers]

/-- The tables and the outputs of one node say nothing about the id. -/
structure Silent (id : ι) (m m' : Manager ι δ π) (outs : List (Output ι δ π)) : Prop where
  targets : m'.m_idList.count id = m.m_idList.count id
  pending : m'.m_prt id = m.m_prt id
  pairs : m'.m_tib id = m.m_tib id
  copies : copiesOf id outs = []
  acks : acksOf id outs = []

omit [DecidableEq δ] in
theorem Silent.abstracted_eq {n : ν} {net : Net ν δ ι π} {m : Manager ι δ π} {outs : List (Output ι δ π)}
    (h : Silent id (net.managers n) m outs) :
    ({ targets := Function.update (abstracted id net).targets n (m.m_idList.count id)
       pending := Function.update (abstracted id net).pending n (m.m_prt id)
       pairs := Function.update (abstracted id net).pairs n (m.m_tib id)
       requests := (abstracted id net).requests + copiesOf id outs
       acks := (abstracted id net).acks + acksOf id outs } : State ν δ) = abstracted id net := by
  rw [h.targets, h.pending, h.pairs, h.copies, h.acks]
  simp [abstracted]

omit [DecidableEq δ] in
theorem silent_of_payloads (id : ι) {m m' : Manager ι δ π} {outs : List (Output ι δ π)}
    (htib : m'.m_tib = m.m_tib) (hprt : m'.m_prt = m.m_prt) (hid : m'.m_idList = m.m_idList)
    (houts : ∀ d packet, .emit d packet ∈ outs → ∃ id' payload, packet = .LinkPayload id' payload) :
    Silent id m m' outs := by
  refine ⟨by rw [hid], by rw [hprt], by rw [htib], ?_, ?_⟩
  · apply copiesOf_eq_nil
    intro d packet hmem
    obtain ⟨id', payload, rfl⟩ := houts d packet hmem
    rfl
  · apply acksOf_eq_nil
    intro d packet hmem
    obtain ⟨id', payload, rfl⟩ := houts d packet hmem
    rfl

theorem BroadcastReq_silent (host : Host δ) {id' : ι} (hne : id' ≠ id) (m : Manager ι δ π) :
    Silent id m (BroadcastReq host id' 0 none m).1 (BroadcastReq host id' 0 none m).2 := by
  obtain ⟨htib, hid, -, -⟩ := BroadcastReq_tables host id' 0 none m
  have hprt := BroadcastReq_prt host id' 0 none m
  refine ⟨by rw [hid], ?_, by rw [htib], ?_, ?_⟩
  · rw [hprt]
    split
    · exact Function.update_of_ne hne.symm _ _
    · rfl
  · rw [BroadcastReq_outs]
    exact copiesOf_floodOutputs_ne hne
  · rw [BroadcastReq_outs]
    exact acksOf_floodOutputs

theorem processTunnelReq_silent {host : Host δ} {id' : ι} (hne : id' ≠ id) {hopLimit : ℕ} {lasthop : δ}
    {m m' : Manager ι δ π} {outs : List (Output ι δ π)}
    (h : processTunnelReq host id' hopLimit lasthop m = .ok (m', outs)) : Silent id m m' outs := by
  by_cases hid : id' ∈ m.m_idList
  · obtain ⟨rfl, htib, hprt, hlist, -, -⟩ := processTunnelReq_answered hid h
    have houts (d : δ) (packet : ShimPacket ι π)
        (hmem : Output.emit d packet ∈ ((m.m_dt id').getD []).map (fun packet =>
          Output.emit lasthop (.LinkPayload id' packet)) ++ [Output.emit lasthop (.TunnelAck id')]) :
        (∃ payload, packet = .LinkPayload id' payload) ∨ packet = .TunnelAck id' := by
      rcases List.mem_append.mp hmem with hmem | hmem
      · obtain ⟨payload, -, heq⟩ := List.mem_map.mp hmem
        cases heq
        exact Or.inl ⟨payload, rfl⟩
      · cases List.mem_singleton.mp hmem
        exact Or.inr rfl
    refine ⟨?_, by rw [hprt], by rw [htib, Function.update_of_ne hne.symm], ?_, ?_⟩
    · rw [hlist, List.count_erase_of_ne hne.symm]
    · apply copiesOf_eq_nil
      intro d packet hmem
      rcases houts d packet hmem with ⟨payload, rfl⟩ | rfl <;> rfl
    · apply acksOf_eq_nil
      intro d packet hmem
      rcases houts d packet hmem with ⟨payload, rfl⟩ | rfl
      · rfl
      · simp [ackOf, hne]
  · by_cases hprt : (m.m_prt id').isSome
    · obtain ⟨rfl, rfl⟩ := processTunnelReq_discarded hid hprt h
      exact ⟨rfl, rfl, rfl, rfl, rfl⟩
    · obtain ⟨rfl, hprt', htib, hlist, -, -⟩ := processTunnelReq_flooded hid (by simpa using hprt) h
      exact ⟨by rw [hlist], by rw [hprt', Function.update_of_ne hne.symm], by rw [htib],
        copiesOf_floodOutputs_ne hne, acksOf_floodOutputs⟩

theorem processTunnelAck_silent {host : Host δ} {id' : ι} (hne : id' ≠ id) {lasthop : δ}
    {m m' : Manager ι δ π} {outs : List (Output ι δ π)}
    (h : processTunnelAck host id' lasthop m = .ok (m', outs)) : Silent id m m' outs := by
  cases hprt : m.m_prt id' with
  | none =>
    obtain ⟨rfl, rfl⟩ := processTunnelAck_discarded hprt h
    exact ⟨rfl, rfl, rfl, rfl, rfl⟩
  | some rLasthop =>
    obtain ⟨rfl, htib, hprt', hlist, -, -⟩ := processTunnelAck_accepted hprt h
    refine ⟨by rw [hlist], by rw [hprt', Function.update_of_ne hne.symm],
      by rw [htib, Function.update_of_ne hne.symm], ?_, ?_⟩
    · cases rLasthop <;> rfl
    · cases rLasthop with
      | none => rfl
      | some d => simp [acksOf, emissions, ackOf, hne]

def Refines (W : Wiring ν δ) (a : Option (Act ν δ)) (s s' : State ν δ) : Prop :=
  match a with
  | none => s' = s
  | some a => Step W s a s'

theorem call_refines {n : ν} {event : Event ι δ π} {net net' : Net ν δ ι π} {record : Record ν δ ι π}
    (h : perform T n event net = some (record, net')) (hcall : isReceive event = false) :
    Refines T.toWiring (actOf T id record) (abstracted id net) (abstracted id net') := by
  obtain ⟨m, outs, hhandle, rfl, habs⟩ := abstracted_perform id h
  rw [habs]
  cases event with
  | TunnelPacket packet tunnelId =>
    obtain ⟨htib, hprt, hid, -, houts⟩ := TunnelPacket_tables hhandle
    exact (silent_of_payloads id htib hprt hid
      (fun d packet hmem => ⟨_, _, houts d packet hmem⟩)).abstracted_eq
  | AddUserLink id' faceId =>
    cases hhandle
    by_cases hid : id' = id
    · subst hid
      have hstep := Step.register (W := T.toWiring) (s := abstracted id' net) n
      simp only [actOf, if_true, Refines]
      convert hstep using 1
      simp [abstracted, AddUserLink, copiesOf, acksOf, emissions]
    · have hsilent : Silent id (net.managers n) (AddUserLink id' faceId (net.managers n)) [] :=
        ⟨by simp [AddUserLink, hid], rfl, rfl, rfl, rfl⟩
      simp only [actOf, if_neg hid, Refines]
      exact hsilent.abstracted_eq
  | BroadcastReq id' =>
    simp only [handle, Except.ok.injEq] at hhandle
    obtain ⟨rfl, rfl⟩ : m = (BroadcastReq (T.host n) id' 0 none (net.managers n)).1 ∧
        outs = (BroadcastReq (T.host n) id' 0 none (net.managers n)).2 := by
      rw [hhandle]
      exact ⟨rfl, rfl⟩
    by_cases hid : id' = id
    · subst hid
      by_cases hlimit : T.m_hopLimit = 0
      · have hnone : BroadcastReq (T.host n) id' 0 none (net.managers n) = (net.managers n, []) := by
          rw [BroadcastReq_eq, if_pos (by simpa [remainingHops, Topology.host] using hlimit)]
        simp only [actOf, hlimit, ne_eq, not_true, and_false, if_false, Refines, hnone]
        exact Silent.abstracted_eq ⟨rfl, rfl, rfl, rfl, rfl⟩
      · have hstart := BroadcastReq_eq (T.host n) id' 0 none (net.managers n)
        rw [if_neg (by simpa [remainingHops, Topology.host] using hlimit)] at hstart
        have hstep := Step.start (W := T.toWiring) (s := abstracted id' net) n
          (copiesOf id' (floodOutputs (π := π) (T.host n) id' 0 none)) copiesOf_owner
        simp only [actOf, hlimit, ne_eq, not_false_eq_true, and_self, if_true, Refines, hstart,
          acksOf_floodOutputs]
        convert hstep using 1
        simp [abstracted]
    · simp only [actOf, hid, false_and, if_false, Refines]
      exact (BroadcastReq_silent _ hid _).abstracted_eq
  | ProcessPacket packet lasthop => cases hcall

theorem coe_filterMap_eraseIdx {α β : Type} (f : α → Option β) {l : List α} {i : ℕ} {x : α}
    (h : l[i]? = some x) :
    (l.filterMap f : Multiset β) = (f x).toList + ((l.eraseIdx i).filterMap f : Multiset β) := by
  obtain ⟨hi, hx⟩ := List.getElem?_eq_some_iff.mp h
  have hperm := (List.getElem_cons_eraseIdx_perm hi).filterMap f
  rw [hx] at hperm
  rw [← Multiset.coe_eq_coe.mpr hperm, List.filterMap_cons]
  cases f x with
  | none => simp
  | some y => simp

omit [DecidableEq δ] in
theorem copiesOf_answer (d : δ) (payloads : List π) : copiesOf id (payloads.map (fun packet =>
    Output.emit d (.LinkPayload id packet)) ++ [Output.emit d (.TunnelAck id)]) = [] := by
  apply copiesOf_eq_nil
  intro d' packet hmem
  rcases List.mem_append.mp hmem with hmem | hmem
  · obtain ⟨payload, -, heq⟩ := List.mem_map.mp hmem
    cases heq
    rfl
  · cases List.mem_singleton.mp hmem
    rfl

omit [DecidableEq δ] in
theorem acksOf_answer (d : δ) (payloads : List π) : acksOf id (payloads.map (fun packet =>
    Output.emit d (.LinkPayload id packet)) ++ [Output.emit d (.TunnelAck id)]) = [d] := by
  simp [acksOf, emissions, ackOf, Function.comp_def]

theorem request_refines {d : δ} {hopLimit : ℕ} {net base net' : Net ν δ ι π} {record : Record ν δ ι π}
    (hrequests : (abstracted id net).requests = (d, hopLimit) ::ₘ (abstracted id base).requests)
    (hacks : (abstracted id net).acks = (abstracted id base).acks) (hmanagers : net.managers = base.managers)
    (h : perform T (T.next d) (.ProcessPacket (.TunnelReq id hopLimit) (T.peer d)) base =
      some (record, net')) :
    Refines T.toWiring (actOf T id record) (abstracted id net) (abstracted id net') := by
  obtain ⟨m, outs, hhandle, rfl, habs⟩ := abstracted_taken id hmanagers h
  have hcount : (abstracted id net).targets (T.next d) = (net.managers (T.next d)).m_idList.count id := rfl
  have hsame : (abstracted id net).pending (T.next d) = (net.managers (T.next d)).m_prt id := rfl
  have hpair : (abstracted id net).pairs (T.next d) = (net.managers (T.next d)).m_tib id := rfl
  rw [habs, ← hacks]
  simp only [actOf, if_true, T.peer_peer]
  by_cases hid : id ∈ (net.managers (T.next d)).m_idList
  · obtain ⟨rfl, htib, hprt, hlist, -, -⟩ := processTunnelReq_answered hid hhandle
    have hstep := Step.answer d hopLimit _ hrequests (List.count_pos_iff.mpr hid)
    simp only [if_pos hid, Refines]
    convert hstep using 1
    rw [hlist, htib, hprt, List.count_erase_self, hcount, ← hsame, Function.update_self,
      Function.update_eq_self, copiesOf_answer, acksOf_answer, Multiset.coe_singleton]
    have hadd : (abstracted id net).acks + {T.peer d} = T.peer d ::ₘ (abstracted id net).acks :=
      (Multiset.add_comm _ _).trans (Multiset.singleton_add _ _)
    simp [hadd]
  · have htarget : (abstracted id net).targets (T.next d) = 0 := List.count_eq_zero.mpr hid
    by_cases hprt : ((net.managers (T.next d)).m_prt id).isSome
    · obtain ⟨rfl, rfl⟩ := processTunnelReq_discarded hid hprt hhandle
      have hstep := Step.discard d hopLimit _ hrequests htarget (by rw [hsame]; exact hprt)
      simp only [if_neg hid, if_pos hprt, Refines]
      convert hstep using 1
      rw [← hcount, ← hsame, ← hpair]
      simp [copiesOf, acksOf, emissions]
    · obtain ⟨rfl, hprt', htib, hlist, -, -⟩ := processTunnelReq_flooded hid (by simpa using hprt) hhandle
      have hstep := Step.flood d hopLimit
        (copiesOf id (floodOutputs (π := π) (T.host (T.next d)) id hopLimit (some (T.peer d)))) _ hrequests
        htarget (by rw [hsame]; simpa using hprt) copiesOf_owner
      simp only [if_neg hid, if_neg hprt, Refines]
      convert hstep using 1
      rw [hlist, htib, hprt', ← hcount, ← hpair, Function.update_self, acksOf_floodOutputs]
      simp

theorem ack_refines {d : δ} {net base net' : Net ν δ ι π} {record : Record ν δ ι π}
    (hrequests : (abstracted id net).requests = (abstracted id base).requests)
    (hacks : (abstracted id net).acks = d ::ₘ (abstracted id base).acks) (hmanagers : net.managers = base.managers)
    (h : perform T (T.next d) (.ProcessPacket (.TunnelAck id) (T.peer d)) base = some (record, net')) :
    Refines T.toWiring (actOf T id record) (abstracted id net) (abstracted id net') := by
  obtain ⟨m, outs, hhandle, rfl, habs⟩ := abstracted_taken id hmanagers h
  have hcount : (abstracted id net).targets (T.next d) = (net.managers (T.next d)).m_idList.count id := rfl
  have hsame : (abstracted id net).pending (T.next d) = (net.managers (T.next d)).m_prt id := rfl
  have hpair : (abstracted id net).pairs (T.next d) = (net.managers (T.next d)).m_tib id := rfl
  rw [habs, ← hrequests]
  simp only [actOf, if_true, T.peer_peer]
  cases hprt : (net.managers (T.next d)).m_prt id with
  | none =>
    obtain ⟨rfl, rfl⟩ := processTunnelAck_discarded hprt hhandle
    have hstep := Step.drop d _ hacks (by rw [hsame]; exact hprt)
    simp only [Option.isSome_none, Bool.false_eq_true, if_false, Refines]
    convert hstep using 1
    rw [← hcount, ← hsame, ← hpair]
    simp [copiesOf, acksOf, emissions]
  | some rLasthop =>
    obtain ⟨rfl, htib, hprt', hlist, -, -⟩ := processTunnelAck_accepted hprt hhandle
    have hstep := Step.accept d rLasthop _ hacks (by rw [hsame]; exact hprt)
    have hout : acksOf id (rLasthop.map (fun d => Output.emit (π := π) d (.TunnelAck id))).toList =
        rLasthop.toList := by
      cases rLasthop <;> simp [acksOf, emissions, ackOf]
    have hcopies : copiesOf id (rLasthop.map (fun d => Output.emit (π := π) d (.TunnelAck id))).toList = [] := by
      cases rLasthop <;> simp [copiesOf, emissions, requestOf]
    simp only [Option.isSome_some, if_true, Refines]
    convert hstep using 1
    rw [hlist, htib, hprt', ← hcount, Function.update_self, Function.update_self, hout, hcopies]
    simp [Multiset.add_comm]

def Unrelated (id : ι) (packet : ShimPacket ι π) : Prop :=
  packet ≠ .TunnelAck id ∧ ∀ hopLimit, packet ≠ .TunnelReq id hopLimit

theorem unrelated_refines {d : δ} {packet : ShimPacket ι π} {net base net' : Net ν δ ι π}
    {record : Record ν δ ι π} (hpacket : Unrelated id packet) (hbase : abstracted id net = abstracted id base)
    (h : perform T (T.next d) (.ProcessPacket packet (T.peer d)) base = some (record, net')) :
    Refines T.toWiring (actOf T id record) (abstracted id net) (abstracted id net') := by
  obtain ⟨m, outs, hhandle, rfl, habs⟩ := abstracted_perform id h
  rw [habs, hbase]
  cases packet with
  | LinkPayload id' payload =>
    obtain ⟨htib, hprt, hlist, -, houts⟩ := processLinkPayload_tables hhandle
    exact (silent_of_payloads id htib hprt hlist
      (fun d packet hmem => ⟨_, _, houts d packet hmem⟩)).abstracted_eq
  | TunnelReq id' hopLimit =>
    have hne : id' ≠ id := fun heq => hpacket.2 hopLimit (by rw [heq])
    simp only [actOf, if_neg hne, Refines]
    exact (processTunnelReq_silent hne hhandle).abstracted_eq
  | TunnelAck id' =>
    have hne : id' ≠ id := fun heq => hpacket.1 (by rw [heq])
    simp only [actOf, if_neg hne, Refines]
    exact (processTunnelAck_silent hne hhandle).abstracted_eq
  | unrecognized =>
    cases hhandle
    exact Silent.abstracted_eq ⟨rfl, rfl, rfl, rfl, rfl⟩

/-- One step of the network is one step of the flood, or none. -/
theorem step_refines (id : ι) {label : Label ν δ ι π} {net net' : Net ν δ ι π} {record : Record ν δ ι π}
    (h : step T label net = some (record, net')) :
    Refines T.toWiring (actOf T id record) (abstracted id net) (abstracted id net') := by
  cases label with
  | call n event =>
    simp only [step] at h
    split at h
    · cases h
    · exact call_refines h (by simpa using ‹¬ isReceive event = true›)
  | deliver i =>
    simp only [step] at h
    split at h
    · cases h
    · rename_i d packet hi
      have hrequests := coe_filterMap_eraseIdx (requestOf id) hi
      have hacks := coe_filterMap_eraseIdx (ackOf id) hi
      cases packet with
      | TunnelReq id' hopLimit =>
        by_cases hid : id' = id
        · subst hid
          refine request_refines ?_ ?_ ?_ h
          · simpa [abstracted, requestOf] using hrequests
          · simpa [abstracted, ackOf] using hacks
          · rfl
        · exact unrelated_refines ⟨by simp, by simpa using hid⟩
            (by simp_all [abstracted, requestOf, ackOf]) h
      | TunnelAck id' =>
        by_cases hid : id' = id
        · subst hid
          refine ack_refines ?_ ?_ ?_ h
          · simpa [abstracted, requestOf] using hrequests
          · simpa [abstracted, ackOf] using hacks
          · rfl
        · exact unrelated_refines ⟨by simpa using hid, by simp⟩
            (by simp_all [abstracted, requestOf, ackOf]) h
      | LinkPayload id' payload =>
        exact unrelated_refines ⟨by simp, by simp⟩ (by simp_all [abstracted, requestOf, ackOf]) h
      | unrecognized =>
        exact unrelated_refines ⟨by simp, by simp⟩ (by simp_all [abstracted, requestOf, ackOf]) h

theorem run_refines (id : ι) {labels : List (Label ν δ ι π)} {net net' : Net ν δ ι π}
    {trace : List (Record ν δ ι π)} (h : run T labels net = some (trace, net')) :
    Run T.toWiring (abstracted id net) (trace.filterMap (actOf T id)) (abstracted id net') := by
  induction labels generalizing net trace with
  | nil =>
    cases h
    exact Run.nil
  | cons label labels ih =>
    obtain ⟨record, mid, trace', hstep, hrun, rfl⟩ := run_cons h
    have hrefines := step_refines id hstep
    have hrest := ih hrun
    rw [List.filterMap_cons]
    cases hact : actOf T id record with
    | none =>
      rw [hact] at hrefines
      rw [← show abstracted id mid = abstracted id net from hrefines]
      exact hrest
    | some a =>
      rw [hact] at hrefines
      exact hrest.cons hrefines

end Refinement

theorem run_append {T : Topology ν δ} {labels labels' : List (Label ν δ ι π)} {net mid net' : Net ν δ ι π}
    {trace trace' : List (Record ν δ ι π)} (h : run T labels net = some (trace, mid))
    (h' : run T labels' mid = some (trace', net')) :
    run T (labels ++ labels') net = some (trace ++ trace', net') := by
  induction labels generalizing net trace with
  | nil =>
    cases h
    exact h'
  | cons label labels ih =>
    obtain ⟨record, mid₁, trace₁, hstep, hrun, rfl⟩ := run_cons h
    simp only [List.cons_append, run, hstep, ih hrun, Option.bind_eq_bind, Option.bind_some]

theorem run_records {T : Topology ν δ} {labels : List (Label ν δ ι π)} {net net' : Net ν δ ι π}
    {trace : List (Record ν δ ι π)} (h : run T labels net = some (trace, net')) :
    ∀ record ∈ trace, ∃ label ∈ labels, ∃ before after, step T label before = some (record, after) := by
  induction labels generalizing net trace with
  | nil =>
    cases h
    simp
  | cons label labels ih =>
    obtain ⟨record, mid, trace', hstep, hrun, rfl⟩ := run_cons h
    intro record' hrecord
    rcases List.mem_cons.mp hrecord with rfl | hrecord
    · exact ⟨label, List.mem_cons_self, net, mid, hstep⟩
    · obtain ⟨label', hlabel, hrest⟩ := ih hrun record' hrecord
      exact ⟨label', List.mem_cons_of_mem _ hlabel, hrest⟩

theorem perform_record {T : Topology ν δ} {n : ν} {event : Event ι δ π} {net net' : Net ν δ ι π}
    {record : Record ν δ ι π} (h : perform T n event net = some (record, net')) :
    record.node = n ∧ record.event = event ∧ record.before = net.managers n := by
  unfold perform at h
  split at h
  · cases h
  · cases h
    exact ⟨rfl, rfl, rfl⟩

theorem step_call {T : Topology ν δ} {n : ν} {event : Event ι δ π} {net net' : Net ν δ ι π}
    {record : Record ν δ ι π} (h : step T (.call n event) net = some (record, net')) :
    isReceive event = false ∧ record.node = n ∧ record.event = event := by
  simp only [step] at h
  split at h
  · cases h
  · rename_i hcall
    obtain ⟨hnode, hevent, -⟩ := perform_record h
    exact ⟨by simpa using hcall, hnode, hevent⟩

theorem step_deliver {T : Topology ν δ} {i : ℕ} {net net' : Net ν δ ι π} {record : Record ν δ ι π}
    (h : step T (.deliver i) net = some (record, net')) :
    ∃ packet lasthop, record.event = .ProcessPacket packet lasthop ∧ record.node = T.owner lasthop := by
  simp only [step] at h
  split at h
  · cases h
  · obtain ⟨hnode, hevent, -⟩ := perform_record h
    exact ⟨_, _, hevent, hnode⟩

def isRequest (id : ι) (record : Record ν δ ι π) : Bool :=
  match record.event with
  | .ProcessPacket (.TunnelReq id' _) _ => decide (id' = id)
  | _ => false

def reachesHolder (id : ι) (record : Record ν δ ι π) : Bool :=
  match record.event with
  | .ProcessPacket (.TunnelReq id' _) _ => decide (id' = id ∧ id ∈ record.before.m_idList)
  | _ => false

def acceptsAck (id : ι) (record : Record ν δ ι π) : Bool :=
  match record.event with
  | .ProcessPacket (.TunnelAck id') _ => decide (id' = id ∧ (record.before.m_prt id).isSome)
  | _ => false

section Records

variable {T : Topology ν δ} {id : ι} {label : Label ν δ ι π} {net net' : Net ν δ ι π}
  {record : Record ν δ ι π}

theorem step_next (packet : ShimPacket ι π) (lasthop : δ) (h : step T label net = some (record, net'))
    (hevent : record.event = .ProcessPacket packet lasthop) : T.next (T.peer lasthop) = record.node := by
  cases label with
  | call n event =>
    obtain ⟨hcall, -, hevent'⟩ := step_call h
    rw [← hevent', hevent] at hcall
    cases hcall
  | deliver i =>
    obtain ⟨packet', lasthop', hevent', hnode⟩ := step_deliver h
    rw [hevent] at hevent'
    cases hevent'
    rw [hnode, Wiring.next, T.peer_peer]

theorem actOf_cases (id : ι) (h : step T label net = some (record, net')) :
    (isRequest id record = false ∧ reachesHolder id record = false ∧ acceptsAck id record = false ∧
      (actOf T id record = none ∨ (∃ d, actOf T id record = some (.drop d)) ∨
        ((∃ faceId, record.event = .AddUserLink id faceId) ∧
          actOf T id record = some (.register record.node)) ∨
        (record.event = .BroadcastReq id ∧
          actOf T id record = some (.start record.node (copiesOf id record.outs))))) ∨
    (∃ d k, T.next d = record.node ∧ isRequest id record = true ∧ acceptsAck id record = false ∧
      (reachesHolder id record = true ∧ actOf T id record = some (.answer d k) ∨
        reachesHolder id record = false ∧ (actOf T id record = some (.discard d k) ∨
          actOf T id record = some (.flood d k (copiesOf id record.outs))))) ∨
    (∃ d, T.next d = record.node ∧ isRequest id record = false ∧ reachesHolder id record = false ∧
      acceptsAck id record = true ∧ actOf T id record = some (.accept d)) := by
  have hnext (packet : ShimPacket ι π) (lasthop : δ) := step_next packet lasthop h
  obtain ⟨n, event, before, outs⟩ := record
  cases event with
  | TunnelPacket packet tunnelId => exact Or.inl ⟨rfl, rfl, rfl, Or.inl rfl⟩
  | AddUserLink id' faceId =>
    refine Or.inl ⟨rfl, rfl, rfl, ?_⟩
    by_cases hid : id' = id
    · exact Or.inr (Or.inr (Or.inl ⟨⟨faceId, by rw [hid]⟩, if_pos hid⟩))
    · exact Or.inl (if_neg hid)
  | BroadcastReq id' =>
    refine Or.inl ⟨rfl, rfl, rfl, ?_⟩
    by_cases hstart : id' = id ∧ T.m_hopLimit ≠ 0
    · exact Or.inr (Or.inr (Or.inr ⟨by rw [hstart.1], if_pos hstart⟩))
    · exact Or.inl (if_neg hstart)
  | ProcessPacket packet lasthop =>
    have hnode := hnext packet lasthop rfl
    cases packet with
    | LinkPayload id' payload => exact Or.inl ⟨rfl, rfl, rfl, Or.inl rfl⟩
    | unrecognized => exact Or.inl ⟨rfl, rfl, rfl, Or.inl rfl⟩
    | TunnelReq id' hopLimit =>
      by_cases hid : id' = id
      · refine Or.inr (Or.inl ⟨T.peer lasthop, hopLimit, hnode, by simp [isRequest, hid], rfl, ?_⟩)
        by_cases hmem : id ∈ before.m_idList
        · exact Or.inl ⟨by simp [reachesHolder, hid, hmem], by simp [actOf, hid, hmem]⟩
        · refine Or.inr ⟨by simp [reachesHolder, hmem], ?_⟩
          by_cases hprt : (before.m_prt id).isSome
          · exact Or.inl (by simp [actOf, hid, hmem, hprt])
          · exact Or.inr (by simp [actOf, hid, hmem, hprt])
      · exact Or.inl ⟨by simp [isRequest, hid], by simp [reachesHolder, hid], rfl, Or.inl (if_neg hid)⟩
    | TunnelAck id' =>
      by_cases hid : id' = id
      · by_cases hprt : (before.m_prt id).isSome
        · refine Or.inr (Or.inr ⟨T.peer lasthop, hnode, rfl, rfl, ?_, ?_⟩)
          · simp [acceptsAck, hid, hprt]
          · simp [actOf, hid, hprt]
        · refine Or.inl ⟨rfl, rfl, by simp [acceptsAck, hprt], ?_⟩
          exact Or.inr (Or.inl ⟨T.peer lasthop, by simp [actOf, hid, hprt]⟩)
      · exact Or.inl ⟨rfl, rfl, by simp [acceptsAck, hid], Or.inl (if_neg hid)⟩

theorem receivedBy_actOf (h : step T label net = some (record, net')) :
    (actOf T id record).bind (Act.receivedBy T.toWiring) =
      if isRequest id record = true then some record.node else none := by
  rcases actOf_cases id h with ⟨hreq, -, -, hact | ⟨d, hact⟩ | ⟨-, hact⟩ | ⟨-, hact⟩⟩ |
    ⟨d, k, hnode, hreq, -, ⟨-, hact⟩ | ⟨-, hact | hact⟩⟩ | ⟨d, -, hreq, -, -, hact⟩
  all_goals simp [hact, hreq, Act.receivedBy]
  all_goals exact hnode

theorem answeredBy_actOf (id : ι) (h : step T label net = some (record, net')) :
    (actOf T id record).bind (Act.answeredBy T.toWiring) =
      if reachesHolder id record = true then some record.node else none := by
  rcases actOf_cases id h with ⟨-, hholder, -, hact | ⟨d, hact⟩ | ⟨-, hact⟩ | ⟨-, hact⟩⟩ |
    ⟨d, k, hnode, -, -, ⟨hholder, hact⟩ | ⟨hholder, hact | hact⟩⟩ | ⟨d, -, -, hholder, -, hact⟩
  all_goals simp [hact, hholder, Act.answeredBy]
  exact hnode

theorem acceptedBy_actOf (id : ι) (h : step T label net = some (record, net')) :
    (actOf T id record).bind (Act.acceptedBy T.toWiring) =
      if acceptsAck id record = true then some record.node else none := by
  rcases actOf_cases id h with ⟨-, -, hack, hact | ⟨d, hact⟩ | ⟨-, hact⟩ | ⟨-, hact⟩⟩ |
    ⟨d, k, -, -, hack, ⟨-, hact⟩ | ⟨-, hact | hact⟩⟩ | ⟨d, hnode, -, -, hack, hact⟩
  all_goals simp [hact, hack, Act.acceptedBy]
  exact hnode

end Records

omit [DecidableEq ν] [DecidableEq δ] in
theorem actOf_broadcast {T : Topology ν δ} {id : ι} {record : Record ν δ ι π}
    (hevent : record.event = .BroadcastReq id) : actOf T id record =
      if T.m_hopLimit ≠ 0 then some (.start record.node (copiesOf id record.outs)) else none := by
  simp [actOf, hevent]

structure Fresh (id : ι) (net : Net ν δ ι π) : Prop where
  pending : ∀ n, (net.managers n).m_prt id = none
  pairs : ∀ n, (net.managers n).m_tib id = none
  inFlight : ∀ e ∈ net.inFlight, Unrelated id e.2

omit [DecidableEq ν] [DecidableEq δ] in
theorem Fresh.idle {id : ι} {net : Net ν δ ι π} (h : Fresh id net) : Idle (abstracted id net) := by
  refine ⟨h.pending, h.pairs, ?_, ?_⟩
  · apply (Multiset.coe_eq_zero _).mpr
    rw [List.filterMap_eq_nil_iff]
    rintro ⟨d, packet⟩ hmem
    obtain ⟨-, hreq⟩ := h.inFlight _ hmem
    cases packet with
    | TunnelReq id' hopLimit =>
      have hne : id' ≠ id := fun heq => hreq hopLimit (by rw [heq])
      simp [requestOf, hne]
    | _ => rfl
  · apply (Multiset.coe_eq_zero _).mpr
    rw [List.filterMap_eq_nil_iff]
    rintro ⟨d, packet⟩ hmem
    obtain ⟨hack, -⟩ := h.inFlight _ hmem
    cases packet with
    | TunnelAck id' =>
      have hne : id' ≠ id := fun heq => hack (by rw [heq])
      simp [ackOf, hne]
    | _ => rfl

/-- No call broadcasts a request for the id or adds it as a user link. -/
def Uncalled (id : ι) (labels : List (Label ν δ ι π)) : Prop :=
  ∀ n, .call n (.BroadcastReq id) ∉ labels ∧ ∀ faceId, .call n (.AddUserLink id faceId) ∉ labels

theorem call_of_event {T : Topology ν δ} {label : Label ν δ ι π} {net net' : Net ν δ ι π}
    {record : Record ν δ ι π} {event : Event ι δ π} (h : step T label net = some (record, net'))
    (hreceive : isReceive event = false) (hevent : record.event = event) : label = .call record.node event := by
  cases label with
  | call n event' =>
    obtain ⟨-, hnode, hevent'⟩ := step_call h
    rw [hnode, ← hevent, hevent']
  | deliver i =>
    obtain ⟨packet, lasthop, hevent', -⟩ := step_deliver h
    rw [← hevent, hevent'] at hreceive
    cases hreceive

theorem acts_unstarted {T : Topology ν δ} {id : ι} {labels : List (Label ν δ ι π)} {net net' : Net ν δ ι π}
    {trace : List (Record ν δ ι π)} (hcalls : ∀ n, .call n (.BroadcastReq id) ∉ labels)
    (h : run T labels net = some (trace, net')) :
    ∀ a ∈ trace.filterMap (actOf T id), a.isStart = false := by
  intro a ha
  obtain ⟨record, hrecord, ha⟩ := List.mem_filterMap.mp ha
  obtain ⟨label, hlabel, before, after, hstep⟩ := run_records h record hrecord
  rcases actOf_cases id hstep with
    ⟨-, -, -, hact | ⟨d, hact⟩ | ⟨-, hact⟩ | ⟨hevent, -⟩⟩ |
    ⟨d, k, -, -, -, ⟨-, hact⟩ | ⟨-, hact | hact⟩⟩ | ⟨d, -, -, -, -, hact⟩
  case inl.inr.inr.inr =>
    rw [call_of_event hstep rfl hevent] at hlabel
    exact absurd hlabel (hcalls record.node)
  all_goals
    rw [hact] at ha
    cases ha
  all_goals rfl

theorem acts_remote {T : Topology ν δ} {id : ι} {labels : List (Label ν δ ι π)} {net net' : Net ν δ ι π}
    {trace : List (Record ν δ ι π)} (hcalls : Uncalled id labels)
    (h : run T labels net = some (trace, net')) :
    ∀ a ∈ trace.filterMap (actOf T id), a.isLocal = false := by
  intro a ha
  have hstart := acts_unstarted (fun n => (hcalls n).1) h a ha
  obtain ⟨record, hrecord, ha⟩ := List.mem_filterMap.mp ha
  obtain ⟨label, hlabel, before, after, hstep⟩ := run_records h record hrecord
  cases a with
  | register n =>
    rcases actOf_cases id hstep with
      ⟨-, -, -, hact | ⟨d, hact⟩ | ⟨⟨faceId, hevent⟩, -⟩ | ⟨-, hact⟩⟩ |
      ⟨d, k, -, -, -, ⟨-, hact⟩ | ⟨-, hact | hact⟩⟩ | ⟨d, -, -, -, -, hact⟩
    case inl.inr.inr.inl =>
      rw [call_of_event hstep rfl hevent] at hlabel
      exact absurd hlabel ((hcalls record.node).2 faceId)
    all_goals
      rw [hact] at ha
      cases ha
  | start n copies => cases hstart
  | _ => rfl

/-- The nodes are joined by links, each with a device at both ends; all faces are up. -/
def Topology.ofLinks (m_hopLimit : ℕ) (links : ν → List ν) : Topology ν (ν × ν) where
  owner := Prod.fst
  peer := Prod.swap
  peer_peer := Prod.swap_swap
  m_hopLimit := m_hopLimit
  faces n := (links n).zipIdx.map (fun (m, i) => ⟨256 + i, (n, m), false⟩)
  owner_face := by
    intro n face hface
    obtain ⟨e, -, rfl⟩ := List.mem_map.mp hface
    rfl

/-- The network in which each node has the given user links and nothing else. -/
def Net.initial (userLinks : ν → List (ι × ℕ)) : Net ν δ ι π where
  managers n := (userLinks n).foldl (fun m (id, faceId) => AddUserLink id faceId m) Manager.initial
  inFlight := []
  injected := []

omit [DecidableEq ν] [DecidableEq δ] in
theorem Net.initial_fresh (id : ι) (userLinks : ν → List (ι × ℕ)) :
    Fresh id (Net.initial userLinks : Net ν δ ι π) := by
  have hempty (links : List (ι × ℕ)) (m : Manager ι δ π) :
      (links.foldl (fun m (id, faceId) => AddUserLink id faceId m) m).m_prt = m.m_prt ∧
        (links.foldl (fun m (id, faceId) => AddUserLink id faceId m) m).m_tib = m.m_tib := by
    induction links generalizing m with
    | nil => exact ⟨rfl, rfl⟩
    | cons link links ih => exact ih (AddUserLink link.1 link.2 m)
  refine ⟨?_, ?_, by simp [Net.initial]⟩
  · intro n
    rw [Net.initial, (hempty _ _).1]
    rfl
  · intro n
    rw [Net.initial, (hempty _ _).2]
    rfl

def deliveries (is : List ℕ) : List (Label ν δ ι π) := is.map .deliver

omit [DecidableEq ν] [DecidableEq δ] [DecidableEq ι] in
theorem deliveries_uncalled (id : ι) (is : List ℕ) : Uncalled id (deliveries is : List (Label ν δ ι π)) := by
  intro n
  simp [deliveries]

section Handover

/-- A station 0 on the satellite 1, which closes a cycle with 2 and 3; the old
satellite 4 is next to 2. The station and the old satellite have the user link 0. -/
def handover : Topology (Fin 5) (Fin 5 × Fin 5) := .ofLinks 6 (fun n =>
  match n with
  | 0 => [1]
  | 1 => [0, 2, 3]
  | 2 => [1, 3, 4]
  | 3 => [1, 2]
  | 4 => [2])

def attached : Net (Fin 5) (Fin 5 × Fin 5) ℕ ℕ := .initial (fun n =>
  match n with
  | 0 => [(0, 256)]
  | 4 => [(0, 256)]
  | _ => [])

def buffering : Net (Fin 5) (Fin 5 × Fin 5) ℕ ℕ where
  managers := Function.update attached.managers 4
    { attached.managers 4 with m_dt := Function.update (attached.managers 4).m_dt 0 (some [7, 8]) }
  inFlight := []
  injected := []

def overtaking : List (Label (Fin 5) (Fin 5 × Fin 5) ℕ ℕ) :=
  .call 0 (.BroadcastReq 0) :: deliveries [0, 0, 2, 2, 2, 2]

def lateCopy : List (Label (Fin 5) (Fin 5 × Fin 5) ℕ ℕ) := deliveries [0, 1, 1, 2, 3, 3, 3]

end Handover

end LeoNdn.HandoverNetwork
