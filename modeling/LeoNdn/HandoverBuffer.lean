import LeoNdn.HandoverManager

/-!
The packets that a manager holds back for tunnels that are not there yet, over
any sequence of events at one node.
-/

namespace LeoNdn.HandoverBuffer

open LeoNdn.Loops LeoNdn.HandoverManager
open LeoNdn.SimulatedNetwork (Fault)

variable {ι δ π : Type} [DecidableEq ι] [DecidableEq δ]

def run : List (Host δ × Event ι δ π) → Manager ι δ π → Except Fault (Manager ι δ π)
  | [], m => .ok m
  | (host, event) :: events, m => do
    let (m, _) ← handle host event m
    run events m

theorem run_append (events events' : List (Host δ × Event ι δ π)) (m : Manager ι δ π) :
    run (events ++ events') m = run events m >>= run events' := by
  induction events generalizing m with
  | nil => rfl
  | cons e events ih =>
    simp only [List.cons_append, run, bind_assoc]
    congr 1
    funext r
    exact ih r.1

theorem run_take_succ {events : List (Host δ × Event ι δ π)} {k : ℕ} (hk : k < events.length)
    {m m' : Manager ι δ π} (h : run (events.take (k + 1)) m = .ok m') :
    ∃ m₁ outs, run (events.take k) m = .ok m₁ ∧ handle events[k].1 events[k].2 m₁ = .ok (m', outs) := by
  rw [List.take_succ_eq_append_getElem hk, run_append] at h
  obtain ⟨m₁, hrun, h⟩ := ok_of_bind h
  obtain ⟨⟨m₂, outs⟩, hhandle, h⟩ := ok_of_bind h
  cases h
  exact ⟨m₁, outs, hrun, hhandle⟩

theorem run_take_ok {events : List (Host δ × Event ι δ π)} {m last : Manager ι δ π}
    (h : run events m = .ok last) (k : ℕ) : ∃ m', run (events.take k) m = .ok m' := by
  rw [← List.take_append_drop k events, run_append] at h
  obtain ⟨m', hrun, -⟩ := ok_of_bind h
  exact ⟨m', hrun⟩

def buffered (m : Manager ι δ π) (id : ι) : List π := (m.m_dt id).getD []

def Drained (m : Manager ι δ π) : Prop := ∀ id, (m.m_tib id).isSome → buffered m id = []

def AckOverBuffer (event : Event ι δ π) (m : Manager ι δ π) : Prop :=
  ∃ id lasthop, event = .ProcessPacket (.TunnelAck id) lasthop ∧ (m.m_prt id).isSome ∧ buffered m id ≠ []

omit [DecidableEq ι] [DecidableEq δ] in
theorem drained_of_tables {m m' : Manager ι δ π} (h : Drained m) (htib : m'.m_tib = m.m_tib)
    (hdt : m'.m_dt = m.m_dt) : Drained m' := by
  intro id hid
  rw [htib] at hid
  unfold buffered
  rw [hdt]
  exact h id hid

omit [DecidableEq δ] in
theorem TunnelPacket_drained {m m' : Manager ι δ π} {outs : List (Output ι δ π)} {packet : π}
    {tunnelId : ι} (h : Drained m) (hrun : TunnelPacket packet tunnelId m = .ok (m', outs)) : Drained m' := by
  unfold TunnelPacket at hrun
  split at hrun
  · rename_i hnone
    cases hrun
    intro id hid
    have hne : id ≠ tunnelId := by
      rintro rfl
      rw [hnone] at hid
      cases hid
    simpa [buffered, Function.update_of_ne hne] using h id hid
  · obtain ⟨nexthop, -, hrun⟩ := ok_of_bind hrun
    cases hrun
    exact h

theorem processTunnelReq_drained {host : Host δ} {m m' : Manager ι δ π} {outs : List (Output ι δ π)}
    {reqId : ι} {hopLimit : ℕ} {lasthop : δ} (h : Drained m)
    (hrun : processTunnelReq host reqId hopLimit lasthop m = .ok (m', outs)) : Drained m' := by
  by_cases hmem : reqId ∈ m.m_idList
  · obtain ⟨-, htib, -, -, hdt, -⟩ := processTunnelReq_answered hmem hrun
    intro id hid
    by_cases hsame : id = reqId
    · subst hsame
      simp [buffered, hdt]
    · rw [htib, Function.update_of_ne hsame] at hid
      simpa [buffered, hdt, Function.update_of_ne hsame] using h id hid
  · by_cases hprt : (m.m_prt reqId).isSome
    · obtain ⟨rfl, -⟩ := processTunnelReq_discarded hmem hprt hrun
      exact h
    · obtain ⟨-, -, htib, -, hdt, -⟩ := processTunnelReq_flooded hmem (by simpa using hprt) hrun
      exact drained_of_tables h htib hdt

theorem handle_drained {host : Host δ} {event : Event ι δ π} {m m' : Manager ι δ π}
    {outs : List (Output ι δ π)} (h : Drained m) (hack : ¬ AckOverBuffer event m)
    (hrun : handle host event m = .ok (m', outs)) : Drained m' := by
  cases event with
  | TunnelPacket packet tunnelId => exact TunnelPacket_drained h hrun
  | AddUserLink id faceId =>
    cases hrun
    exact h
  | BroadcastReq id =>
    simp only [handle, Except.ok.injEq] at hrun
    have hm' := congrArg Prod.fst hrun
    obtain ⟨htib, -, hdt, -⟩ := BroadcastReq_tables host id 0 none m
    rw [hm'] at htib hdt
    exact drained_of_tables h htib hdt
  | ProcessPacket packet lasthop =>
    cases packet with
    | LinkPayload id payload =>
      obtain ⟨htib, -, -, hdt, -⟩ := processLinkPayload_tables hrun
      exact drained_of_tables h htib hdt
    | TunnelReq id hopLimit => exact processTunnelReq_drained h hrun
    | TunnelAck ackId =>
      cases hprt : m.m_prt ackId with
      | none =>
        obtain ⟨rfl, -⟩ := processTunnelAck_discarded hprt hrun
        exact h
      | some rLasthop =>
        obtain ⟨-, htib, -, -, hdt, -⟩ := processTunnelAck_accepted hprt hrun
        intro id hid
        by_cases hsame : id = ackId
        · subst hsame
          by_contra hne
          exact hack ⟨id, lasthop, rfl, by simp [hprt], by simpa [buffered, hdt] using hne⟩
        · rw [htib, Function.update_of_ne hsame] at hid
          simpa [buffered, hdt] using h id hid
    | unrecognized =>
      cases hrun
      exact h

theorem ackOverBuffer_strands {host : Host δ} {event : Event ι δ π} {m m' : Manager ι δ π}
    {outs : List (Output ι δ π)} (hack : AckOverBuffer event m)
    (hrun : handle host event m = .ok (m', outs)) : ¬ Drained m' := by
  obtain ⟨id, lasthop, rfl, hprt, hbuffer⟩ := hack
  obtain ⟨rLasthop, hprt⟩ := Option.isSome_iff_exists.mp hprt
  obtain ⟨-, htib, -, -, hdt, -⟩ := processTunnelAck_accepted hprt hrun
  intro hdrained
  have := hdrained id (by simp [htib])
  rw [buffered, hdt] at this
  exact hbuffer this

theorem drained_iff (events : List (Host δ × Event ι δ π)) (last : Manager ι δ π)
    (hrun : run events Manager.initial = .ok last) :
    (∀ k ≤ events.length, ∀ m, run (events.take k) Manager.initial = .ok m → Drained m) ↔
      ∀ k, ∀ hk : k < events.length, ∀ m, run (events.take k) Manager.initial = .ok m →
        ¬ AckOverBuffer events[k].2 m := by
  constructor
  · intro hall k hk m hm hack
    obtain ⟨m', hm'⟩ := run_take_ok hrun (k + 1)
    obtain ⟨m₁, outs, hm₁, hhandle⟩ := run_take_succ hk hm'
    rw [hm] at hm₁
    cases hm₁
    exact ackOverBuffer_strands hack hhandle (hall (k + 1) hk m' hm')
  · intro hacks k
    induction k with
    | zero =>
      intro _ m hm
      cases hm
      intro id hid
      cases hid
    | succ k ih =>
      intro hk m hm
      obtain ⟨m₁, outs, hm₁, hhandle⟩ := run_take_succ hk hm
      exact handle_drained (ih (by omega) m₁ hm₁) (hacks k hk m₁ hm₁) hhandle

section RequesterBuffer

def requesterEvents : List (Host ℕ × Event ℕ ℕ ℕ) :=
  let host : Host ℕ := ⟨2, [⟨257, 0, true⟩, ⟨258, 1, false⟩]⟩
  [(host, .AddUserLink 0 257), (host, .AddUserLink 1 258), (host, .TunnelPacket 7 0),
    (host, .BroadcastReq 0), (host, .ProcessPacket (.TunnelAck 0) 1)]

theorem requesterEvents_run : ∃ last, run requesterEvents Manager.initial = .ok last :=
  ⟨_, rfl⟩

theorem drained_iff_requesterEvents :
    (∀ k ≤ 5, ∀ m, run (requesterEvents.take k) Manager.initial = .ok m → Drained m) ↔
      ∀ k, ∀ hk : k < 5, ∀ m, run (requesterEvents.take k) Manager.initial = .ok m →
        ¬ AckOverBuffer (requesterEvents.get ⟨k, hk⟩).2 m := by
  obtain ⟨last, hrun⟩ := requesterEvents_run
  exact drained_iff requesterEvents last hrun

/-- The acknowledgement installs the tunnel, and the packet stays behind. -/
theorem requester_buffer_stranded :
    ∃ m, run requesterEvents Manager.initial = .ok m ∧ m.m_tib 0 = some (some 1, none) ∧
      buffered m 0 = [7] ∧ ¬ Drained m := by
  refine ⟨_, rfl, rfl, rfl, ?_⟩
  intro hdrained
  exact absurd (hdrained 0 rfl) (by decide)

end RequesterBuffer

end LeoNdn.HandoverBuffer
