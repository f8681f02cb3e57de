import LeoNdn.StreamTransport

/-!
What is received over a connection is what has been sent, however the bytes come.
-/

namespace LeoNdn.StreamTransport

open LeoNdn.Framing

section States

variable {s s' t r : Transport} {flight : List UInt8} {queued : List (List UInt8)}

/-- Only the state of a transport and what it does with errors change. -/
structure Unmoved (s s' : Transport) : Prop where
  queue : s'.m_sendQueue = s.m_sendQueue
  queueBytes : s'.m_sendQueueBytes = s.m_sendQueueBytes
  writing : s'.writing = s.writing
  buffer : s'.m_receiveBuffer = s.m_receiveBuffer
  received : s'.received = s.received
  up : s'.m_state = .up → s.m_state = .up
  closed : s'.m_state = .closed ↔ s.m_state = .closed

theorem Unmoved.refl (s : Transport) : Unmoved s s := ⟨rfl, rfl, rfl, rfl, rfl, id, Iff.rfl⟩

theorem Unmoved.trans {s'' : Transport} (h : Unmoved s s') (h' : Unmoved s' s'') : Unmoved s s'' :=
  ⟨h'.queue.trans h.queue, h'.queueBytes.trans h.queueBytes, h'.writing.trans h.writing, h'.buffer.trans h.buffer,
    h'.received.trans h.received, fun hup => h.up (h'.up hup), h'.closed.trans h.closed⟩

theorem setState_cases {newState : TransportState} (h : s.setState newState = .ok s') :
    s' = { s with m_state := newState } ∧ (s.m_state = newState ∨ Transport.isValid s.m_state newState = true) := by
  unfold Transport.setState at h
  split at h
  · rename_i hsame
    cases h
    exact ⟨by rw [← hsame], Or.inl hsame⟩
  · split at h
    · rename_i hvalid
      cases h
      exact ⟨rfl, Or.inr hvalid⟩
    · cases h

theorem unmoved_setState {newState : TransportState} (hne : newState ≠ .up) (hne' : newState ≠ .closed)
    (h : s.setState newState = .ok s') : Unmoved s s' := by
  obtain ⟨rfl, hvalid⟩ := setState_cases h
  refine ⟨rfl, rfl, rfl, rfl, rfl, fun hup => absurd hup hne, fun hclosed => absurd hclosed hne', fun hclosed => ?_⟩
  rcases hvalid with hsame | hvalid
  · exact hsame.symm.trans hclosed
  · rw [hclosed] at hvalid
    cases hvalid

theorem unmoved_doClose (h : (s.setState .closing).map Transport.doClose = .ok s' ∨
    (s.setState .failed).map Transport.doClose = .ok s') : Unmoved s s' := by
  have hmap {newState : TransportState} (hne : newState ≠ .up) (hne' : newState ≠ .closed)
      (h : (s.setState newState).map Transport.doClose = .ok s') : Unmoved s s' := by
    cases hset : s.setState newState with
    | error what => rw [hset] at h; cases h
    | ok next =>
      rw [hset] at h
      cases h
      exact (unmoved_setState hne hne' hset).trans ⟨rfl, rfl, rfl, rfl, rfl, id, Iff.rfl⟩
  exact h.elim (hmap (by decide) (by decide)) (hmap (by decide) (by decide))

theorem unmoved_processErrorCode {error : ErrorCode} (h : s.processErrorCode error = .ok s') : Unmoved s s' := by
  unfold Transport.processErrorCode Transport.handleError at h
  split at h
  · cases h
    exact Unmoved.refl s
  · split at h
    · exact unmoved_doClose (Or.inl h)
    · exact unmoved_doClose (Or.inr h)

theorem not_up_of_processErrorCode {error : ErrorCode} (hreal : mayFail s error = true)
    (h : s.processErrorCode error = .ok s') : s'.m_state ≠ .up := by
  unfold Transport.processErrorCode Transport.handleError at h
  split at h
  · rename_i hstate
    cases h
    intro hup
    simp only [mayFail, hup] at hreal hstate
    cases error <;> simp at hreal hstate
  · obtain ⟨next, hset, rfl⟩ : ∃ next, s.setState (if error = .eof then .closing else .failed) = .ok next ∧
        next.doClose = s' := by
      cases hset : s.setState (if error = .eof then .closing else .failed) with
      | error what => rw [hset] at h; cases h
      | ok next => rw [hset] at h; exact ⟨next, rfl, by cases h; rfl⟩
    obtain ⟨rfl, -⟩ := setState_cases hset
    unfold Transport.doClose
    split <;> exact fun hup => by cases hup

end States

section Directions

/-- One direction, from `s` to `r`: of the packets that have been accepted, the first
ones have been received, and the others are in the buffer, on their way or still queued. -/
structure Carried (s r : Transport) (flight : List UInt8) (accepted : List (List UInt8)) (later : List (List UInt8))
    (rest : List UInt8) : Prop where
  accepted_eq : accepted = r.received ++ later
  frames : ∀ frame ∈ later, elements.IsFrame frame
  stream : r.m_receiveBuffer ++ (flight ++ rest) = later.flatten
  stuck : elements.Stuck r.m_receiveBuffer
  writing : ∀ done, s.writing = some done → s.m_state ≠ .closed →
    ∃ front queue, s.m_sendQueue = front :: queue ∧ done ≤ front.length ∧ rest = front.drop done ++ queue.flatten
  idle : s.writing = none → s.m_state = .up → s.m_sendQueue = [] ∧ rest = []

variable {s s' r r' : Transport} {flight rest : List UInt8} {accepted later : List (List UInt8)}

theorem Carried.sender (h : Carried s r flight accepted later rest) (hqueue : s'.m_sendQueue = s.m_sendQueue)
    (hwriting : s'.writing = s.writing) (hup : s'.m_state = .up → s.m_state = .up)
    (hclosed : s'.m_state = .closed ↔ s.m_state = .closed) : Carried s' r flight accepted later rest := by
  refine ⟨h.accepted_eq, h.frames, h.stream, h.stuck, ?_, ?_⟩
  · intro done hdone hopen
    rw [hqueue]
    exact h.writing done (hwriting ▸ hdone) (hclosed.not.mp hopen)
  · intro hnone hup'
    rw [hqueue]
    exact h.idle (hwriting ▸ hnone) (hup hup')

theorem Carried.receiver (h : Carried s r flight accepted later rest) (hbuffer : r'.m_receiveBuffer = r.m_receiveBuffer)
    (hreceived : r'.received = r.received) : Carried s r' flight accepted later rest :=
  ⟨hreceived ▸ h.accepted_eq, h.frames, hbuffer ▸ h.stream, hbuffer ▸ h.stuck, h.writing, h.idle⟩

theorem Carried.stop (h : Carried s r flight accepted later rest) (hwriting : s'.writing = none ∨ s'.m_state = .closed)
    (hup : s'.m_state ≠ .up) : Carried s' r flight accepted later rest :=
  ⟨h.accepted_eq, h.frames, h.stream, h.stuck,
    fun done hdone hopen => hwriting.elim (fun hnone => absurd (hnone.symm.trans hdone) (by simp))
      (fun hclosed => absurd hclosed hopen),
    fun _ hup' => absurd hup' hup⟩

theorem Carried.send (h : Carried s r flight accepted later rest) (packet : Packet) :
    ∃ later' rest', Carried (s.send packet.wire) r flight
      (accepted ++ if s.m_state = .up then [packet.wire] else []) later' rest' := by
  by_cases hup : s.m_state = .up
  · have hframes : ∀ frame ∈ later ++ [packet.wire], elements.IsFrame frame := by
      intro frame hframe
      rcases List.mem_append.mp hframe with hold | hnew
      · exact h.frames frame hold
      · exact List.mem_singleton.mp hnew ▸ packet.isFrame
    have haccepted : accepted ++ (if s.m_state = .up then [packet.wire] else []) = r.received ++ (later ++ [packet.wire]) := by
      rw [if_pos hup, h.accepted_eq, List.append_assoc]
    have hstream : r.m_receiveBuffer ++ (flight ++ (rest ++ packet.wire)) = (later ++ [packet.wire]).flatten := by
      rw [List.flatten_append, ← h.stream]
      simp
    cases hwriting : s.writing with
    | none =>
      obtain ⟨hqueue, hrest⟩ := h.idle hwriting hup
      have hsend : s.send packet.wire = { s.countOut packet.wire with
          m_sendQueue := [packet.wire], m_sendQueueBytes := s.m_sendQueueBytes + packet.wire.length,
          writing := some 0 } := by
        simp [Transport.send, Transport.doSend, Transport.countOut, Transport.sendFromQueue, hup, hqueue]
      refine ⟨later ++ [packet.wire], rest ++ packet.wire, haccepted, hframes, hstream, h.stuck, ?_, ?_⟩
      · intro done hdone _
        rw [hsend] at hdone ⊢
        obtain rfl : 0 = done := Option.some.inj hdone
        exact ⟨packet.wire, [], rfl, Nat.zero_le _, by simp [hrest]⟩
      · intro hnone
        rw [hsend] at hnone
        cases hnone
    | some done =>
      obtain ⟨front, queue, hqueue, hdone, hrest⟩ := h.writing done hwriting (by rw [hup]; decide)
      have hsend : s.send packet.wire = { s.countOut packet.wire with
          m_sendQueue := s.m_sendQueue ++ [packet.wire]
          m_sendQueueBytes := s.m_sendQueueBytes + packet.wire.length } := by
        simp [Transport.send, Transport.doSend, Transport.countOut, hup, hqueue]
      refine ⟨later ++ [packet.wire], rest ++ packet.wire, haccepted, hframes, hstream, h.stuck, ?_, ?_⟩
      · intro done' hdone' _
        rw [hsend] at hdone' ⊢
        obtain rfl : done = done' := Option.some.inj (hwriting.symm.trans hdone')
        exact ⟨front, queue ++ [packet.wire], by rw [hqueue]; rfl, hdone, by simp [hrest]⟩
      · intro hnone
        rw [hsend] at hnone
        exact absurd (hwriting.symm.trans hnone) (by simp)
  · have hsend : s.send packet.wire = s := by simp [Transport.send, Transport.doSend, hup]
    rw [hsend, if_neg hup, List.append_nil]
    exact ⟨later, rest, h⟩

theorem Carried.write (h : Carried s r flight accepted later rest) {done count : ℕ} {front : List UInt8}
    {queue : List (List UInt8)} (hwriting : s.writing = some done) (hqueue : s.m_sendQueue = front :: queue)
    (hcount : done + count ≤ front.length) (hopen : s.m_state ≠ .closed) :
    ∃ rest', Carried { s with writing := some (done + count) } r (flight ++ (front.drop done).take count) accepted later
      rest' := by
  obtain ⟨front', queue', hqueue', hdone, hrest⟩ := h.writing done hwriting hopen
  obtain ⟨rfl, rfl⟩ := List.cons.inj (hqueue.symm.trans hqueue')
  have hsplit : front.drop done = (front.drop done).take count ++ front.drop (done + count) := by
    rw [← List.drop_drop, List.take_append_drop]
  refine ⟨front.drop (done + count) ++ queue.flatten, h.accepted_eq, h.frames, ?_, h.stuck, ?_, ?_⟩
  · rw [← h.stream, hrest]
    conv_rhs => rw [hsplit]
    simp only [List.append_assoc]
  · intro done' hdone' _
    obtain rfl : done + count = done' := Option.some.inj hdone'
    exact ⟨front, queue, hqueue, hcount, rfl⟩
  · intro hnone
    cases hnone

theorem Carried.finishWrite (h : Carried s r flight accepted later rest) {front : List UInt8}
    {queue : List (List UInt8)} (hwriting : s.writing = some front.length) (hqueue : s.m_sendQueue = front :: queue)
    (hopen : s.m_state ≠ .closed) : Carried (s.handleSend front.length) r flight accepted later rest := by
  obtain ⟨front', queue', hqueue', hdone, hrest⟩ := h.writing _ hwriting hopen
  obtain ⟨rfl, rfl⟩ := List.cons.inj (hqueue.symm.trans hqueue')
  rw [List.drop_length, List.nil_append] at hrest
  refine ⟨h.accepted_eq, h.frames, h.stream, h.stuck, ?_, ?_⟩
  · intro done hdone _
    cases queue with
    | nil => simp [Transport.handleSend, hqueue] at hdone
    | cons next queue =>
      simp only [Transport.handleSend, hqueue, List.tail_cons, ne_eq, List.cons_ne_nil, not_false_eq_true, if_true,
        Transport.sendFromQueue, Option.some.injEq] at hdone ⊢
      subst hdone
      exact ⟨next, queue, rfl, Nat.zero_le _, hrest⟩
  · intro hnone _
    cases queue with
    | nil => exact ⟨by simp [Transport.handleSend, hqueue], hrest⟩
    | cons next queue => simp [Transport.handleSend, hqueue, Transport.sendFromQueue] at hnone

theorem foldl_receive (packets : List (List UInt8)) (s : Transport) :
    ∃ nInPackets nInBytes, packets.foldl Transport.receive s = { s with
      nInPackets := nInPackets, nInBytes := nInBytes, received := s.received ++ packets } := by
  induction packets generalizing s with
  | nil => exact ⟨s.nInPackets, s.nInBytes, by simp⟩
  | cons packet packets ih =>
    obtain ⟨nInPackets, nInBytes, heq⟩ := ih (s.receive packet)
    refine ⟨nInPackets, nInBytes, ?_⟩
    rw [List.foldl_cons, heq]
    simp [Transport.receive]

theorem handleReceive_eq {bytes : List UInt8} (h : s.handleReceive bytes = .ok s') :
    s'.received = s.received ++ (elements.frames (s.m_receiveBuffer ++ bytes)).1 ∧
      s'.m_receiveBuffer = (elements.frames (s.m_receiveBuffer ++ bytes)).2 ∧
        s'.m_sendQueue = s.m_sendQueue ∧ s'.m_sendQueueBytes = s.m_sendQueueBytes ∧ s'.writing = s.writing ∧
          (s'.m_state = .up → s.m_state = .up) ∧ (s'.m_state = .closed ↔ s.m_state = .closed) := by
  obtain ⟨nInPackets, nInBytes, hfold⟩ := foldl_receive (elements.frames (s.m_receiveBuffer ++ bytes)).1
    { s with m_receiveBuffer := (elements.frames (s.m_receiveBuffer ++ bytes)).2 }
  unfold Transport.handleReceive at h
  dsimp only at h
  rw [hfold] at h
  split at h
  · have hmoved := unmoved_doClose (Or.inr h)
    exact ⟨hmoved.received, hmoved.buffer, hmoved.queue, hmoved.queueBytes, hmoved.writing, hmoved.up, hmoved.closed⟩
  · cases h
    exact ⟨rfl, rfl, rfl, rfl, rfl, id, Iff.rfl⟩

theorem Carried.arrive (h : Carried s r flight accepted later rest) {bytes : List UInt8} {left : List UInt8}
    (hflight : flight = bytes ++ left) (hreceive : r.handleReceive bytes = .ok r') :
    ∃ later', Carried s r' left accepted later' rest := by
  obtain ⟨hreceived, hbuffer, -⟩ := handleReceive_eq hreceive
  have hstream : (r.m_receiveBuffer ++ bytes) ++ (left ++ rest) = later.flatten := by
    rw [← h.stream, hflight]
    simp only [List.append_assoc]
  obtain ⟨later', hlater⟩ := Splitter.frames_isPrefix h.frames hstream
  refine ⟨later', ?_, ?_, ?_, ?_, h.writing, h.idle⟩
  · rw [h.accepted_eq, hreceived, List.append_assoc, ← hlater]
  · intro frame hframe
    exact h.frames frame (hlater ▸ List.mem_append_right _ hframe)
  · have hcut := Splitter.flatten_frames (D := elements) (r.m_receiveBuffer ++ bytes)
    rw [hcut, hlater, List.flatten_append, List.append_assoc] at hstream
    rw [hbuffer]
    exact List.append_cancel_left hstream
  · rw [hbuffer]
    exact Splitter.stuck_frames _

end Directions

section Run

variable {c c' : Connection} {s s' : Transport}

/-- `m_sendQueueBytes` is the size of the queue, and a closed transport has none. -/
structure Counted (s : Transport) : Prop where
  bytes : s.m_sendQueueBytes = (s.m_sendQueue.map List.length).sum
  closed : s.m_state = .closed → s.m_sendQueue = []

theorem Counted.of_same (h : Counted s) (hqueue : s'.m_sendQueue = s.m_sendQueue)
    (hbytes : s'.m_sendQueueBytes = s.m_sendQueueBytes) (hclosed : s'.m_state = .closed ↔ s.m_state = .closed) :
    Counted s' := by
  refine ⟨?_, fun hclosed' => ?_⟩
  · rw [hqueue, hbytes]
    exact h.bytes
  · rw [hqueue]
    exact h.closed (hclosed.mp hclosed')

theorem Counted.send (h : Counted s) (packet : List UInt8) : Counted (s.send packet) := by
  by_cases hup : s.m_state = .up
  · have hsend : (s.send packet).m_sendQueue = s.m_sendQueue ++ [packet] ∧
        (s.send packet).m_sendQueueBytes = s.m_sendQueueBytes + packet.length ∧ (s.send packet).m_state = .up := by
      unfold Transport.send Transport.doSend Transport.countOut Transport.sendFromQueue
      rw [if_neg (by simp [hup]), if_pos hup, if_neg (by simp [hup])]
      dsimp only
      split <;> exact ⟨rfl, rfl, hup⟩
    obtain ⟨hqueue, hbytes, hstate⟩ := hsend
    refine ⟨?_, fun hclosed => ?_⟩
    · rw [hqueue, hbytes, h.bytes]
      simp
    · rw [hstate] at hclosed
      cases hclosed
  · have hsend : s.send packet = s := by simp [Transport.send, Transport.doSend, hup]
    rwa [hsend]

theorem Counted.handleSend (h : Counted s) {front : List UInt8} {queue : List (List UInt8)}
    (hqueue : s.m_sendQueue = front :: queue) : Counted (s.handleSend front.length) := by
  have hbytes := h.bytes
  rw [hqueue, List.map_cons, List.sum_cons] at hbytes
  have hsend : (s.handleSend front.length).m_sendQueue = queue ∧
      (s.handleSend front.length).m_sendQueueBytes = s.m_sendQueueBytes - front.length ∧
        (s.handleSend front.length).m_state = s.m_state := by
    unfold Transport.handleSend Transport.sendFromQueue
    dsimp only
    split <;> simp [hqueue]
  obtain ⟨hqueue', hbytes', hstate⟩ := hsend
  refine ⟨?_, fun hclosed => ?_⟩
  · rw [hqueue', hbytes']
    omega
  · rw [hstate] at hclosed
    exact absurd (hqueue.symm.trans (h.closed hclosed)) (List.cons_ne_nil _ _)

structure Invariant (c : Connection) : Prop where
  carried : ∀ here, ∃ later rest,
    Carried (c.ends (! here)) (c.ends here) (c.inFlight here) (c.accepted (! here)) later rest
  counted : ∀ here, Counted (c.ends here)

theorem invariant_initial : Invariant Connection.initial where
  carried _ := by
    refine ⟨[], [], rfl, fun _ hnil => absurd hnil List.not_mem_nil, rfl, Splitter.stuck_nil, ?_, fun _ _ => ⟨rfl, rfl⟩⟩
    exact fun done hdone => absurd hdone (by simp [Connection.initial, Transport.initial])
  counted _ := ⟨rfl, fun _ => rfl⟩

theorem Invariant.move (h : Invariant c) (here : Bool) {inFlight : Bool → List UInt8} {accepted : Bool → List (List UInt8)}
    (haccepted : accepted (! here) = c.accepted (! here))
    (hto : ∀ later rest, Carried (c.ends (! here)) (c.ends here) (c.inFlight here) (c.accepted (! here)) later rest →
      ∃ later rest, Carried (c.ends (! here)) s (inFlight here) (c.accepted (! here)) later rest)
    (hfrom : ∀ later rest, Carried (c.ends here) (c.ends (! here)) (c.inFlight (! here)) (c.accepted here) later rest →
      ∃ later rest, Carried s (c.ends (! here)) (inFlight (! here)) (accepted here) later rest)
    (hcounted : Counted s) : Invariant ⟨Function.update c.ends here s, inFlight, accepted⟩ := by
  have hother : Function.update c.ends here s (! here) = c.ends (! here) := Function.update_of_ne (Bool.not_ne_self here) _ _
  refine ⟨fun other => ?_, fun other => ?_⟩ <;> dsimp only <;> rcases Bool.eq_or_eq_not other here with rfl | rfl
  · obtain ⟨later, rest, hcarried⟩ := h.carried other
    rw [hother, Function.update_self, haccepted]
    exact hto later rest hcarried
  · obtain ⟨later, rest, hcarried⟩ := h.carried (! here)
    rw [Bool.not_not] at hcarried ⊢
    rw [hother, Function.update_self]
    exact hfrom later rest hcarried
  · rw [Function.update_self]
    exact hcounted
  · rw [hother]
    exact h.counted _

theorem Invariant.setEnd (h : Invariant c) (here : Bool) (hmoved : Unmoved (c.ends here) s) : Invariant (c.setEnd here s) :=
  h.move here rfl (fun later rest hto => ⟨later, rest, hto.receiver hmoved.buffer hmoved.received⟩)
    (fun later rest hfrom => ⟨later, rest, hfrom.sender hmoved.queue hmoved.writing hmoved.up hmoved.closed⟩)
    ((h.counted here).of_same hmoved.queue hmoved.queueBytes hmoved.closed)

theorem Invariant.stop (h : Invariant c) (here : Bool) (hbuffer : s.m_receiveBuffer = (c.ends here).m_receiveBuffer)
    (hreceived : s.received = (c.ends here).received) (hwriting : s.writing = none ∨ s.m_state = .closed)
    (hup : s.m_state ≠ .up) (hcounted : Counted s) : Invariant (c.setEnd here s) :=
  h.move here rfl (fun later rest hto => ⟨later, rest, hto.receiver hbuffer hreceived⟩)
    (fun later rest hfrom => ⟨later, rest, hfrom.stop hwriting hup⟩) hcounted

theorem of_toOption_map {result : Except String Transport} {f : Transport → Connection}
    (h : result.toOption.map f = some c') : ∃ s, result = .ok s ∧ f s = c' := by
  obtain ⟨s, hs, rfl⟩ := Option.map_eq_some_iff.mp h
  cases result with
  | error what => cases hs
  | ok next =>
    cases hs
    exact ⟨_, rfl, rfl⟩

theorem same_send (s : Transport) (packet : List UInt8) : (s.send packet).m_receiveBuffer = s.m_receiveBuffer ∧
    (s.send packet).received = s.received ∧ (s.send packet).m_state = s.m_state ∧ (s.send packet).receiving = s.receiving := by
  unfold Transport.send Transport.doSend Transport.countOut Transport.sendFromQueue
  dsimp only
  repeat' split
  all_goals exact ⟨rfl, rfl, rfl, rfl⟩

theorem same_handleSend (s : Transport) (nBytesSent : ℕ) : (s.handleSend nBytesSent).m_receiveBuffer = s.m_receiveBuffer ∧
    (s.handleSend nBytesSent).received = s.received ∧ (s.handleSend nBytesSent).m_state = s.m_state ∧
      (s.handleSend nBytesSent).receiving = s.receiving := by
  unfold Transport.handleSend Transport.sendFromQueue
  dsimp only
  split <;> exact ⟨rfl, rfl, rfl, rfl⟩

theorem Invariant.send (h : Invariant c) (here : Bool) (packet : Packet) (hstep : step c here (.send packet) = some c') :
    Invariant c' := by
  obtain rfl := Option.some.inj hstep
  obtain ⟨hbuffer, hreceived, -⟩ := same_send (c.ends here) packet.wire
  refine h.move here (Function.update_of_ne (Bool.not_ne_self here) _ _)
    (fun later rest hto => ⟨later, rest, hto.receiver hbuffer hreceived⟩) (fun later rest hfrom => ?_) ((h.counted here).send packet.wire)
  rw [Function.update_self]
  exact hfrom.send packet

theorem Invariant.not_closed (h : Invariant c) {here : Bool} {front : List UInt8} {queue : List (List UInt8)}
    (hqueue : (c.ends here).m_sendQueue = front :: queue) : (c.ends here).m_state ≠ .closed := fun hclosed =>
  absurd (hqueue.symm.trans ((h.counted here).closed hclosed)) (List.cons_ne_nil _ _)

theorem Invariant.write (h : Invariant c) (here : Bool) {count : ℕ} (hstep : write c here count = some c') :
    Invariant c' := by
  unfold StreamTransport.write at hstep
  split at hstep
  · rename_i done front queue hwriting hqueue
    split at hstep
    · rename_i hcount
      obtain rfl := Option.some.inj hstep
      refine h.move here rfl (fun later rest hto => ?_) (fun later rest hfrom => ?_) ((h.counted here).of_same rfl rfl Iff.rfl)
      · rw [Function.update_of_ne (Bool.not_ne_self here).symm]
        exact ⟨later, rest, hto.receiver rfl rfl⟩
      · obtain ⟨rest', hwrite⟩ := hfrom.write hwriting hqueue hcount (h.not_closed hqueue)
        rw [Function.update_self]
        exact ⟨later, rest', hwrite⟩
    · cases hstep
  · cases hstep

theorem Invariant.finishWrite (h : Invariant c) (here : Bool) (hstep : finishWrite c here = some c') : Invariant c' := by
  unfold StreamTransport.finishWrite at hstep
  split at hstep
  · rename_i done front queue hwriting hqueue
    split at hstep
    · rename_i hdone
      subst hdone
      obtain rfl := Option.some.inj hstep
      obtain ⟨hbuffer, hreceived, -⟩ := same_handleSend (c.ends here) front.length
      exact h.move here rfl (fun later rest hto => ⟨later, rest, hto.receiver hbuffer hreceived⟩)
        (fun later rest hfrom => ⟨later, rest, hfrom.finishWrite hwriting hqueue (h.not_closed hqueue)⟩)
        ((h.counted here).handleSend hqueue)
    · cases hstep
  · cases hstep

theorem Invariant.arrive (h : Invariant c) (here : Bool) {count : ℕ} (hstep : arrive c here count = some c') :
    Invariant c' := by
  unfold StreamTransport.arrive at hstep
  split at hstep
  · obtain ⟨s, hreceive, rfl⟩ := of_toOption_map hstep
    obtain ⟨-, -, hqueue, hbytes, hwriting, hup, hclosed⟩ := handleReceive_eq hreceive
    refine h.move here rfl (fun later rest hto => ?_) (fun later rest hfrom => ?_)
      ((h.counted here).of_same hqueue hbytes hclosed)
    · obtain ⟨later', harrive⟩ := hto.arrive (List.take_append_drop count (c.inFlight here)).symm hreceive
      rw [Function.update_self]
      exact ⟨later', rest, harrive⟩
    · rw [Function.update_of_ne (Bool.not_ne_self here)]
      exact ⟨later, rest, hfrom.sender hqueue hwriting hup hclosed⟩
  · cases hstep

theorem unmoved_close (h : s.close = .ok s') : Unmoved s s' := by
  unfold Transport.close at h
  split at h
  · cases h
    exact Unmoved.refl s
  · exact unmoved_doClose (Or.inl h)

theorem Invariant.step (h : Invariant c) (here : Bool) (event : Event) (hstep : step c here event = some c') :
    Invariant c' := by
  cases event with
  | send packet => exact h.send here packet hstep
  | write count => exact h.write here hstep
  | handleSend => exact h.finishWrite here hstep
  | handleSendError error =>
    simp only [StreamTransport.step] at hstep
    split at hstep
    · rename_i hfail
      obtain ⟨s, herror, rfl⟩ := of_toOption_map hstep
      have hmoved := unmoved_processErrorCode herror
      refine h.stop here hmoved.buffer hmoved.received (Or.inl hmoved.writing) ?_ ?_
      · have hreal : mayFail { c.ends here with writing := none } error = true := hfail.2
        exact not_up_of_processErrorCode hreal herror
      · exact (h.counted here).of_same hmoved.queue hmoved.queueBytes hmoved.closed
    · cases hstep
  | handleReceive count => exact h.arrive here hstep
  | handleReceiveError error =>
    simp only [StreamTransport.step] at hstep
    split at hstep
    · obtain ⟨s, herror, rfl⟩ := of_toOption_map hstep
      have hmoved := unmoved_processErrorCode herror
      exact h.setEnd here ⟨hmoved.queue, hmoved.queueBytes, hmoved.writing, hmoved.buffer, hmoved.received, hmoved.up,
        hmoved.closed⟩
    · cases hstep
  | close =>
    obtain ⟨s, hclose, rfl⟩ := of_toOption_map hstep
    exact h.setEnd here (unmoved_close hclose)
  | deferredClose =>
    simp only [StreamTransport.step] at hstep
    split at hstep
    · obtain ⟨s, hclose, rfl⟩ := of_toOption_map hstep
      obtain ⟨rfl, -⟩ := setState_cases hclose
      exact h.stop here rfl rfl (Or.inr rfl) (by simp) ⟨rfl, fun _ => rfl⟩
    · cases hstep

theorem Invariant.run (h : Invariant c) {events : List (Bool × Event)}
    (hrun : events.foldlM (fun c event => StreamTransport.step c event.1 event.2) c = some c') : Invariant c' := by
  induction events generalizing c with
  | nil =>
    obtain rfl := Option.some.inj hrun
    exact h
  | cons event events ih =>
    obtain ⟨next, hnext, hrest⟩ := Option.bind_eq_some_iff.mp hrun
    exact ih (h.step event.1 event.2 hnext) hrest

end Run

section Progress

variable {c c' : Connection}

/-- No packet is too large, and no operation fails. -/
def Regular : Event → Prop
  | .send packet => packet.wire.length ≤ maxNdnPacketSize
  | .write _ => True
  | .handleSend => True
  | .handleReceive _ => True
  | _ => False

/-- Both transports are in use, with packets that fit the buffer. -/
structure Working (c : Connection) : Prop where
  up : ∀ here, (c.ends here).m_state = .up
  receiving : ∀ here, (c.ends here).receiving = true
  fits : ∀ here, ∀ packet ∈ c.accepted here, packet.length ≤ maxNdnPacketSize

theorem Working.move (h : Working c) (here : Bool) {s : Transport} {inFlight : Bool → List UInt8}
    {accepted : Bool → List (List UInt8)} (hup : s.m_state = .up) (hreceiving : s.receiving = true)
    (hfits : ∀ other, ∀ packet ∈ accepted other, packet.length ≤ maxNdnPacketSize) :
    Working ⟨Function.update c.ends here s, inFlight, accepted⟩ := by
  refine ⟨fun other => ?_, fun other => ?_, hfits⟩ <;> dsimp only <;> by_cases hother : other = here
  · rwa [hother, Function.update_self]
  · rw [Function.update_of_ne hother]
    exact h.up other
  · rwa [hother, Function.update_self]
  · rw [Function.update_of_ne hother]
    exact h.receiving other

theorem Carried.length_lt {s r : Transport} {flight rest : List UInt8} {accepted later : List (List UInt8)}
    (h : Carried s r flight accepted later rest) (hfits : ∀ packet ∈ accepted, packet.length ≤ maxNdnPacketSize)
    {bytes left : List UInt8} (hflight : flight = bytes ++ left)
    (hstuck : elements.Stuck (r.m_receiveBuffer ++ bytes)) :
    (r.m_receiveBuffer ++ bytes).length < maxNdnPacketSize := by
  have hstream : (r.m_receiveBuffer ++ bytes) ++ (left ++ rest) = later.flatten := by
    rw [← h.stream, hflight]
    simp only [List.append_assoc]
  refine Splitter.length_lt_of_stuck h.frames hstream hstuck (fun frame hframe => hfits frame ?_) (by decide)
  rw [h.accepted_eq]
  exact List.mem_append_right _ hframe

theorem handleReceive_of_length {s s' : Transport} {bytes : List UInt8}
    (hlength : elements.Stuck (s.m_receiveBuffer ++ bytes) → (s.m_receiveBuffer ++ bytes).length < maxNdnPacketSize)
    (h : s.handleReceive bytes = .ok s') : s'.m_state = s.m_state ∧ s'.receiving = s.receiving := by
  obtain ⟨nInPackets, nInBytes, hfold⟩ := foldl_receive (elements.frames (s.m_receiveBuffer ++ bytes)).1
    { s with m_receiveBuffer := (elements.frames (s.m_receiveBuffer ++ bytes)).2 }
  unfold Transport.handleReceive at h
  dsimp only at h
  rw [hfold, if_neg] at h
  · cases h
    exact ⟨rfl, rfl⟩
  · rintro ⟨-, hfull, hnone⟩
    have hlt := hlength (Splitter.frames_eq_nil_iff.mp hnone)
    omega

theorem handleReceive_isOk {s : Transport} {bytes : List UInt8}
    (hlength : elements.Stuck (s.m_receiveBuffer ++ bytes) → (s.m_receiveBuffer ++ bytes).length < maxNdnPacketSize) :
    ∃ s', s.handleReceive bytes = .ok s' := by
  unfold Transport.handleReceive
  dsimp only
  rw [if_neg]
  · exact ⟨_, rfl⟩
  · rintro ⟨-, hfull, hnone⟩
    have hlt := hlength (Splitter.frames_eq_nil_iff.mp hnone)
    omega

theorem Working.step (h : Working c) (hinvariant : Invariant c) (here : Bool) (event : Event) (hregular : Regular event)
    (hstep : step c here event = some c') : Working c' := by
  cases event with
  | send packet =>
    obtain rfl := Option.some.inj hstep
    obtain ⟨-, -, hstate, hreceiving⟩ := same_send (c.ends here) packet.wire
    refine h.move here (hstate.trans (h.up here)) (hreceiving.trans (h.receiving here)) fun other => ?_
    rcases Bool.eq_or_eq_not other here with rfl | rfl
    · rw [Function.update_self, if_pos (h.up other)]
      intro frame hframe
      rcases List.mem_append.mp hframe with hold | hnew
      · exact h.fits other frame hold
      · exact List.mem_singleton.mp hnew ▸ hregular
    · rw [Function.update_of_ne (Bool.not_ne_self here)]
      exact h.fits _
  | write count =>
    simp only [StreamTransport.step, StreamTransport.write] at hstep
    split at hstep
    · split at hstep
      · obtain rfl := Option.some.inj hstep
        exact h.move here (h.up here) (h.receiving here) h.fits
      · cases hstep
    · cases hstep
  | handleSend =>
    simp only [StreamTransport.step, StreamTransport.finishWrite] at hstep
    split at hstep
    · split at hstep
      · obtain rfl := Option.some.inj hstep
        obtain ⟨-, -, hstate, hreceiving⟩ := same_handleSend (c.ends here) (List.length _)
        exact h.move here (hstate.trans (h.up here)) (hreceiving.trans (h.receiving here)) h.fits
      · cases hstep
    · cases hstep
  | handleReceive count =>
    simp only [StreamTransport.step, StreamTransport.arrive] at hstep
    split at hstep
    · obtain ⟨s, hreceive, rfl⟩ := of_toOption_map hstep
      obtain ⟨later, rest, hto⟩ := hinvariant.carried here
      have hsplit := (List.take_append_drop count (c.inFlight here)).symm
      obtain ⟨hstate, hreceiving⟩ := handleReceive_of_length (hto.length_lt (h.fits _) hsplit) hreceive
      exact h.move here (hstate.trans (h.up here)) (hreceiving.trans (h.receiving here)) h.fits
    · cases hstep
  | handleSendError error => exact hregular.elim
  | handleReceiveError error => exact hregular.elim
  | close => exact hregular.elim
  | deferredClose => exact hregular.elim

theorem Working.run (h : Working c) (hinvariant : Invariant c) {events : List (Bool × Event)}
    (hregular : ∀ event ∈ events, Regular event.2)
    (hrun : events.foldlM (fun c event => StreamTransport.step c event.1 event.2) c = some c') : Working c' := by
  induction events generalizing c with
  | nil =>
    obtain rfl := Option.some.inj hrun
    exact h
  | cons event events ih =>
    obtain ⟨next, hnext, hrest⟩ := Option.bind_eq_some_iff.mp hrun
    exact ih (h.step hinvariant event.1 event.2 (hregular event List.mem_cons_self) hnext)
      (hinvariant.step event.1 event.2 hnext) (fun other hother => hregular other (List.mem_cons_of_mem _ hother)) hrest

/-- A byte for the end can be written or can come in, or a write can end. -/
def CanMove (c : Connection) (here : Bool) : Prop :=
  ∃ next, write c (! here) 1 = some next ∨ finishWrite c (! here) = some next ∨ arrive c here 1 = some next

theorem Working.progress (h : Working c) (hinvariant : Invariant c) (here : Bool) :
    (c.ends here).received = c.accepted (! here) ∨ CanMove c here := by
  obtain ⟨later, rest, hto⟩ := hinvariant.carried here
  cases hflight : c.inFlight here with
  | cons octet left =>
    have hsplit : c.inFlight here = [octet] ++ left := hflight
    have hbuffer := hto.length_lt (h.fits _) (List.nil_append (c.inFlight here)).symm (by simpa using hto.stuck)
    rw [List.append_nil] at hbuffer
    obtain ⟨s, hs⟩ := handleReceive_isOk (hto.length_lt (h.fits _) hsplit)
    have htake : (c.inFlight here).take 1 = [octet] := by rw [hflight]; rfl
    obtain ⟨next, hnext⟩ : ∃ next, StreamTransport.arrive c here 1 = some next := by
      rw [StreamTransport.arrive, if_pos ⟨h.receiving here, Nat.one_pos, by rw [hflight]; simp, by omega⟩, htake, hs]
      exact ⟨_, rfl⟩
    exact Or.inr ⟨next, Or.inr (Or.inr hnext)⟩
  | nil =>
    cases hwriting : (c.ends (! here)).writing with
    | some done =>
      obtain ⟨front, queue, hqueue, hdone, -⟩ := hto.writing done hwriting (by rw [h.up]; decide)
      rcases Nat.lt_or_eq_of_le hdone with hlt | heq
      · obtain ⟨next, hnext⟩ : ∃ next, StreamTransport.write c (! here) 1 = some next := by
          rw [StreamTransport.write, hwriting, hqueue]
          dsimp only
          rw [if_pos (by omega)]
          exact ⟨_, rfl⟩
        exact Or.inr ⟨next, Or.inl hnext⟩
      · obtain ⟨next, hnext⟩ : ∃ next, StreamTransport.finishWrite c (! here) = some next := by
          rw [StreamTransport.finishWrite, hwriting, hqueue]
          dsimp only
          rw [if_pos heq]
          exact ⟨_, rfl⟩
        exact Or.inr ⟨next, Or.inr (Or.inl hnext)⟩
    | none =>
      obtain ⟨-, hrest⟩ := hto.idle hwriting (h.up _)
      left
      have hstream := hto.stream
      rw [hflight, hrest, List.append_nil, List.append_nil] at hstream
      have hnil := Splitter.eq_nil_of_stuck hto.frames (hstream ▸ hto.stuck)
      rw [hto.accepted_eq, hnil, List.append_nil]

end Progress

/-- Each end receives the first of the packets that the other has accepted, unchanged and
in order, however the bytes are cut up and whatever fails; all of them, once nothing is
queued or on its way and the other end is up. A connection on which nothing fails stays up and gets on. -/
theorem received_isPrefix {events : List (Bool × Event)} {c : Connection} (hrun : run events = some c) (here : Bool) :
    (c.ends here).received <+: c.accepted (! here) ∧
      (c.ends here).m_sendQueueBytes = ((c.ends here).m_sendQueue.map List.length).sum ∧
        ((c.ends (! here)).m_state = .up → (c.ends (! here)).m_sendQueue = [] → c.inFlight here = [] →
          (c.ends here).received = c.accepted (! here)) ∧
        ((∀ event ∈ events, Regular event.2) → (c.ends here).m_state = .up ∧
          ((c.ends here).received = c.accepted (! here) ∨ CanMove c here)) := by
  have hinvariant := invariant_initial.run hrun
  obtain ⟨later, rest, hto⟩ := hinvariant.carried here
  refine ⟨?_, (hinvariant.counted here).bytes, fun hup hqueue hflight => ?_, fun hregular => ?_⟩
  · rw [hto.accepted_eq]
    exact List.prefix_append _ _
  · have hwriting : (c.ends (! here)).writing = none := by
      cases hwriting : (c.ends (! here)).writing with
      | none => rfl
      | some done =>
        obtain ⟨front, queue, hsome, -⟩ := hto.writing done hwriting (by rw [hup]; decide)
        exact absurd (hqueue.symm.trans hsome) (List.cons_ne_nil _ _).symm
    obtain ⟨-, hrest⟩ := hto.idle hwriting hup
    have hstream := hto.stream
    rw [hflight, hrest, List.append_nil, List.append_nil] at hstream
    rw [hto.accepted_eq, Splitter.eq_nil_of_stuck hto.frames (hstream ▸ hto.stuck), List.append_nil]
  · have hinitial : Working Connection.initial := ⟨fun _ => rfl, fun _ => rfl, fun _ _ hnil => absurd hnil List.not_mem_nil⟩
    have hworking := hinitial.run invariant_initial hregular hrun
    exact ⟨hworking.up here, hworking.progress hinvariant here⟩

/-- Two packets, the second with a length in three bytes though one would do. -/
def firstPacket : Packet := ⟨[5, 2, 1, 2], by decide⟩

def secondPacket : Packet := ⟨[6, 253, 0, 1, 9], by decide⟩

def twoPackets : List (Bool × Event) :=
  [(false, .send firstPacket), (false, .send secondPacket), (false, .write 4), (false, .handleSend),
    (true, .handleReceive 3), (false, .write 5), (true, .handleReceive 6), (false, .handleSend)]

theorem isSome_run_twoPackets : (run twoPackets).isSome = true := by decide +kernel

theorem received_isPrefix_twoPackets :
    ∃ c, run twoPackets = some c ∧ (c.ends true).received <+: c.accepted false ∧
      (c.ends true).m_sendQueueBytes = ((c.ends true).m_sendQueue.map List.length).sum ∧
        ((c.ends false).m_state = .up → (c.ends false).m_sendQueue = [] → c.inFlight true = [] →
          (c.ends true).received = c.accepted false) ∧
        ((∀ event ∈ twoPackets, Regular event.2) → (c.ends true).m_state = .up ∧
          ((c.ends true).received = c.accepted false ∨ CanMove c true)) := by
  obtain ⟨c, hrun⟩ := Option.isSome_iff_exists.mp isSome_run_twoPackets
  exact ⟨c, hrun, received_isPrefix hrun true⟩

end LeoNdn.StreamTransport
