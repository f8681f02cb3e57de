import LeoNdn.LpReassembler
import Mathlib.Algebra.Ring.Nat

/-!
What one link service sends in fragments and another puts together: every
arrival order, with duplicates, timers and the packets of other endpoints.
-/

namespace LeoNdn.Reassembly

open LeoNdn.Tlv LeoNdn.TlvEncoding LeoNdn.LinkService LeoNdn.LpFragmenter LeoNdn.LpReassembler

section Numbers

variable {sent : List (List LpPacket)} {i i' : ℕ} {frags frags' : List LpPacket}

/-- How many sequence numbers the packets before the packet at `i` take. -/
def offset (sent : List (List LpPacket)) (i : ℕ) : ℕ := ((sent.take i).map assigned).sum

theorem offset_succ (hfrags : sent[i]? = some frags) : offset sent (i + 1) = offset sent i + assigned frags := by
  rw [offset, offset, List.take_add_one, hfrags, List.map_append, List.sum_append]
  simp

theorem offset_mono (h : i ≤ i') : offset sent i ≤ offset sent i' := by
  obtain ⟨more, rfl⟩ := Nat.exists_eq_add_of_le h
  rw [offset, offset, List.take_add, List.map_append, List.sum_append]
  exact Nat.le_add_right _ _

theorem offset_le (sent : List (List LpPacket)) (i : ℕ) : offset sent i ≤ sent.flatten.length := by
  have hle : ∀ packets : List (List LpPacket), (packets.map assigned).sum ≤ packets.flatten.length := by
    intro packets
    induction packets with
    | nil => exact le_rfl
    | cons frags packets ih =>
      have hassigned : assigned frags ≤ frags.length := by
        unfold assigned
        split <;> omega
      rw [List.map_cons, List.sum_cons, List.flatten_cons, List.length_append]
      omega
  have htake : (sent.take i).flatten.length ≤ sent.flatten.length := by
    conv_rhs => rw [← List.take_append_drop i sent, List.flatten_append, List.length_append]
    exact Nat.le_add_right _ _
  exact (hle _).trans htake

theorem position_unique (base j j' : ℕ) (hi : sent[i]? = some frags) (hi' : sent[i']? = some frags')
    (hseveral : 1 < frags.length) (hseveral' : 1 < frags'.length) (htotal : sent.flatten.length < sequenceLimit)
    (hj : j < frags.length) (hj' : j' < frags'.length)
    (h : (base + offset sent i + j) % sequenceLimit = (base + offset sent i' + j') % sequenceLimit) : i = i' := by
  have hnext := offset_succ hi
  have hnext' := offset_succ hi'
  rw [assigned, if_pos hseveral] at hnext
  rw [assigned, if_pos hseveral'] at hnext'
  have hlast := offset_le sent (i + 1)
  have hlast' := offset_le sent (i' + 1)
  simp only [sequenceLimit] at htotal h
  rcases Nat.lt_trichotomy i i' with hlt | heq | hlt
  · have hmono : offset sent (i + 1) ≤ offset sent i' := offset_mono hlt
    omega
  · exact heq
  · have hmono : offset sent (i' + 1) ≤ offset sent i := offset_mono hlt
    omega

end Numbers

section Arrivals

variable {base i i' j' : ℕ} {sent : List (List LpPacket)} {frags frags' : List LpPacket} {packet : LpPacket}

/-- What a link service has sent, its packets taking consecutive sequence numbers. -/
structure Sending (base : ℕ) (sent : List (List LpPacket)) : Prop where
  fragmented : ∀ i frags, sent[i]? = some frags →
    ∃ netPkt, Encodable netPkt ∧ Fragmented (wire netPkt) (base + offset sent i) frags
  total : sent.flatten.length < sequenceLimit

theorem Sending.length_lt (h : Sending base sent) (hi : sent[i]? = some frags) : frags.length < sequenceLimit := by
  have hmem := List.mem_of_getElem? hi
  have hlength := (List.sublist_flatten_of_mem hmem).length_le
  have htotal := h.total
  omega

theorem Sending.pieces (h : Sending base sent) (hi : sent[i]? = some frags) (hseveral : 1 < frags.length) (j : ℕ)
    (frag : LpPacket) (hfrag : frags[j]? = some frag) :
    ∃ octets, Sequenced frag (base + offset sent i) j frags.length octets := by
  obtain ⟨netPkt, -, hfragmented⟩ := h.fragmented i frags hi
  cases hfragmented with
  | dropped => simp at hseveral
  | whole => simp at hseveral
  | cut _ _ pieces => exact pieces j frag hfrag

theorem sequenceField_injective {sequence sequence' : ℕ} (hlt : sequence < sequenceLimit) (hlt' : sequence' < sequenceLimit)
    (h : sequenceField sequence = sequenceField sequence') : sequence = sequence' := by
  have hdecode := decodeUint64_sequenceField hlt
  rw [h, decodeUint64_sequenceField hlt'] at hdecode
  exact (Except.ok.inj hdecode).symm

theorem fragCountField_injective {count count' : ℕ} (hlt : count < sequenceLimit) (hlt' : count' < sequenceLimit)
    (h : fragCountField count = fragCountField count') : count = count' := by
  have hdecode := readNonNegativeInteger_encode hlt 83
  have hdecode' := readNonNegativeInteger_encode hlt' 83
  rw [fragCountField, fragCountField] at h
  rw [h, hdecode'] at hdecode
  exact (Except.ok.inj hdecode).symm

theorem Sending.indexOf_none (h : Sending base sent) (hi : sent[i]? = some frags) (hseveral : 1 < frags.length)
    (hnot : ∀ j < frags.length, ∀ frag octets, sameFragment packet frag →
      Sequenced frag (base + offset sent i) j frags.length octets → False) : indexOf frags packet = none := by
  rw [Option.eq_none_iff_forall_ne_some]
  intro j hindex
  obtain ⟨hj, frag, hfrag, hsame⟩ := indexOf_spec hindex
  obtain ⟨octets, hpiece⟩ := h.pieces hi hseveral j frag hfrag
  exact hnot j hj frag octets hsame hpiece

theorem Sending.arrival_other (h : Sending base sent) (hi : sent[i]? = some frags) (hseveral : 1 < frags.length)
    (hi' : sent[i']? = some frags') (hne : i ≠ i') (hindex' : indexOf frags' packet = some j') :
    indexOf frags packet = none ∧ ∀ (options : Options) (now remoteEndpoint : ℕ) (partials : PartialPackets),
      (receiveFragment options now remoteEndpoint packet partials).2
          (remoteEndpoint, (base + offset sent i) % sequenceLimit) =
        partials (remoteEndpoint, (base + offset sent i) % sequenceLimit) := by
  obtain ⟨hj', frag', hfrag', hsame'⟩ := indexOf_spec hindex'
  have hlength := h.length_lt hi
  have hlength' := h.length_lt hi'
  obtain ⟨netPkt', hencodable', hfragmented'⟩ := h.fragmented i' frags' hi'
  cases hfragmented' with
  | dropped => simp at hj'
  | whole fragment fragIndex fragCount =>
    obtain rfl : j' = 0 := by simpa using hj'
    obtain rfl := Option.some.inj hfrag'
    refine ⟨h.indexOf_none hi hseveral fun j hj frag octets hsame hpiece => ?_, fun options now remoteEndpoint partials => ?_⟩
    · have hcount := (sameFragment_find hsame (by decide)).trans hpiece.fragCount
      rw [← sameFragment_find hsame' (by decide), hcount] at fragCount
      rcases fragCount with hnone | hone
      · cases hnone
      · have := fragCountField_injective hlength (by decide) (Option.some.inj hone)
        omega
    · rw [receiveFragment_whole hencodable' fragment fragIndex fragCount hsame']
  | cut several join pieces =>
    obtain ⟨octets', hpiece'⟩ := pieces j' frag' hfrag'
    have hdistinct : ∀ j < frags.length, (base + offset sent i + j) % sequenceLimit ≠
        (base + offset sent i' + j') % sequenceLimit := fun j hj heq =>
      hne (position_unique base j j' hi hi' hseveral several h.total hj hj' heq)
    refine ⟨h.indexOf_none hi hseveral fun j hj frag octets hsame hpiece => ?_, fun options now remoteEndpoint partials => ?_⟩
    · have hsequence := (sameFragment_find hsame (by decide)).trans hpiece.sequence
      have hsequence' := (sameFragment_find hsame' (by decide)).trans hpiece'.sequence
      rw [hsequence] at hsequence'
      exact hdistinct j hj (sequenceField_injective (Nat.mod_lt _ (by decide)) (Nat.mod_lt _ (by decide))
        (Option.some.inj hsequence'))
    · refine receiveFragment_other hpiece' hsame' hj' hlength' now remoteEndpoint fun heq => ?_
      refine hne (position_unique base 0 0 hi hi' hseveral several h.total (by omega) (by omega) ?_)
      exact (Prod.mk.inj heq).2

end Arrivals

section Runs

variable {base i : ℕ} {sent : List (List LpPacket)} {frags : List LpPacket} {options : Options} {remoteEndpoint : ℕ}
  {partials : PartialPackets} {waiting : List (ℕ × ℕ)}

/-- What arrives from the endpoint has been sent there; other endpoints are free. -/
def Arrives (remoteEndpoint : ℕ) (sent : List (List LpPacket)) : Event → Prop
  | .receive _ endpoint packet => endpoint = remoteEndpoint → ∃ frags ∈ sent, (indexOf frags packet).isSome
  | .timer _ _ => True

theorem Sending.keyOf_eq (h : Sending base sent) (hi : sent[i]? = some frags) (hseveral : 1 < frags.length)
    (remoteEndpoint : ℕ) : keyOf remoteEndpoint frags = (remoteEndpoint, (base + offset sent i) % sequenceLimit) := by
  have hhead : frags[0]? = some (frags.headD ⟨[]⟩) := by
    rw [List.headD_eq_head?_getD, List.head?_eq_getElem?, List.getElem?_eq_getElem (by omega), Option.getD_some]
  obtain ⟨octets, hpiece⟩ := h.pieces hi hseveral 0 _ hhead
  rw [keyOf, get_of_find hpiece.sequence, decodeUint64_sequenceField (Nat.mod_lt _ (by decide))]
  rfl

theorem receive_follows (h : Sending base sent) (hi : sent[i]? = some frags) (hseveral : 1 < frags.length)
    (hmax : frags.length ≤ options.nMaxFragments) {netPkt : Block} (hencodable : Encodable netPkt)
    (hfragmented : Fragmented (wire netPkt) (base + offset sent i) frags) {packet : LpPacket} {j : ℕ}
    (hindex : indexOf frags packet = some j) (hwaiting : Waiting frags waiting)
    (hslot : Slot options frags waiting (partials (remoteEndpoint, (base + offset sent i) % sequenceLimit))) (now : ℕ) :
    (∃ firstPkt, sameFragment firstPkt (frags.headD ⟨[]⟩) ∧
      (receiveFragment options now remoteEndpoint packet partials).1 =
        .ok (if complete frags waiting j then some (netPkt, firstPkt) else none)) ∧
    Waiting frags (nextWaiting frags waiting j now) ∧
    Slot options frags (nextWaiting frags waiting j now)
      ((receiveFragment options now remoteEndpoint packet partials).2
        (remoteEndpoint, (base + offset sent i) % sequenceLimit)) := by
  cases hfragmented with
  | dropped => simp at hseveral
  | whole => simp at hseveral
  | cut several join pieces =>
    obtain ⟨hj, frag, hfrag, hsame⟩ := indexOf_spec hindex
    obtain ⟨octets, hpiece⟩ := pieces j frag hfrag
    rw [receiveFragment_sequenced hpiece hsame hj hseveral hmax (h.length_lt hi)]
    dsimp only
    rw [Function.update_self]
    exact addToSlot_slot hslot hwaiting hencodable pieces join hindex now

theorem step_follows (h : Sending base sent) (hi : sent[i]? = some frags) (hseveral : 1 < frags.length)
    (hmax : frags.length ≤ options.nMaxFragments) {event : Event} (harrives : Arrives remoteEndpoint sent event)
    (hwaiting : Waiting frags waiting)
    (hslot : Slot options frags waiting (partials (remoteEndpoint, (base + offset sent i) % sequenceLimit))) :
    Waiting frags (collect remoteEndpoint frags waiting (event, (step options partials event).1)) ∧
    Slot options frags (collect remoteEndpoint frags waiting (event, (step options partials event).1))
      ((step options partials event).2 (remoteEndpoint, (base + offset sent i) % sequenceLimit)) := by
  cases event with
  | timer now key =>
    simp only [step, runTimer_snd, collect]
    cases hsignal : (runTimer now key partials).1 with
    | none => exact ⟨hwaiting, hslot⟩
    | some signal =>
      dsimp only
      rw [h.keyOf_eq hi hseveral, Option.isSome_some, if_pos rfl]
      by_cases hkey : key = (remoteEndpoint, (base + offset sent i) % sequenceLimit)
      · rw [if_pos hkey, hkey, Function.update_self]
        exact ⟨Waiting.nil (by omega), .empty⟩
      · rw [if_neg hkey, Function.update_of_ne (Ne.symm hkey)]
        exact ⟨hwaiting, hslot⟩
  | receive now endpoint packet =>
    simp only [step]
    by_cases hendpoint : endpoint = remoteEndpoint
    · subst hendpoint
      obtain ⟨frags', hmem, hindex'⟩ := harrives rfl
      obtain ⟨i', hi'⟩ := List.getElem?_of_mem hmem
      obtain ⟨j', hj'⟩ := Option.isSome_iff_exists.mp hindex'
      by_cases heq : i = i'
      · subst heq
        obtain rfl := Option.some.inj (hi.symm.trans hi')
        obtain ⟨netPkt, hencodable, hfragmented⟩ := h.fragmented i frags hi
        obtain ⟨⟨firstPkt, -, hresult⟩, hnext⟩ :=
          receive_follows h hi hseveral hmax hencodable hfragmented hj' hwaiting hslot now
        rw [hresult, collect_indexOf waiting hj']
        exact hnext
      · obtain ⟨hnone, hframe⟩ := h.arrival_other hi hseveral hi' heq hj'
        rw [collect_none fun _ => hnone, hframe]
        exact ⟨hwaiting, hslot⟩
    · rw [collect_none fun heq => absurd heq hendpoint, receiveFragment_frame now packet (Ne.symm hendpoint)]
      exact ⟨hwaiting, hslot⟩

theorem run_follows (partials : PartialPackets) (h : Sending base sent) (hi : sent[i]? = some frags) (hseveral : 1 < frags.length)
    (hmax : frags.length ≤ options.nMaxFragments) (events : List Event)
    (harrives : ∀ event ∈ events, Arrives remoteEndpoint sent event) (hwaiting : Waiting frags waiting)
    (hslot : Slot options frags waiting (partials (remoteEndpoint, (base + offset sent i) % sequenceLimit))) :
    Waiting frags ((run options partials events).1.foldl (collect remoteEndpoint frags) waiting) ∧
    Slot options frags ((run options partials events).1.foldl (collect remoteEndpoint frags) waiting)
      ((run options partials events).2 (remoteEndpoint, (base + offset sent i) % sequenceLimit)) := by
  induction events generalizing partials waiting with
  | nil => exact ⟨hwaiting, hslot⟩
  | cons event events ih =>
    obtain ⟨hwaiting', hslot'⟩ := step_follows h hi hseveral hmax (harrives event List.mem_cons_self) hwaiting hslot
    exact ih _ (fun event' hmem => harrives event' (List.mem_cons_of_mem _ hmem)) hwaiting' hslot'

theorem run_whole {frag : LpPacket} {netPkt : Block} (hencodable : Encodable netPkt) {first : ℕ}
    (hfragmented : Fragmented (wire netPkt) first [frag]) (hmax : 1 ≤ options.nMaxFragments) (events : List Event) :
    (run options partials events).1.foldl (collect remoteEndpoint [frag]) [] = [] := by
  induction events generalizing partials with
  | nil => rfl
  | cons event events ih =>
    have hcollect : collect remoteEndpoint [frag] [] (event, (step options partials event).1) = [] := by
      cases event with
      | timer now key =>
        simp only [step]
        cases (runTimer now key partials).1 with
        | none => rfl
        | some signal => exact ite_self _
      | receive now endpoint packet =>
        by_cases hendpoint : endpoint = remoteEndpoint
        · subst hendpoint
          cases hindex : indexOf [frag] packet with
          | none => exact collect_none (fun _ => hindex) now _
          | some j =>
            obtain ⟨hj, frag', hfrag', hsame⟩ := indexOf_spec hindex
            obtain rfl : j = 0 := by simpa using hj
            obtain rfl := Option.some.inj hfrag'
            cases hfragmented with
            | cut several => simp at several
            | whole fragment fragIndex fragCount =>
              have hresult : receiveFragment options now endpoint packet partials = _ :=
                receiveFragment_whole hencodable fragment fragIndex fragCount hsame now endpoint
              simp only [step, hresult, if_pos hmax]
              exact collect_indexOf [] hindex now (netPkt, packet)
        · exact collect_none (fun heq => absurd heq hendpoint) now _
    show List.foldl _ (collect remoteEndpoint [frag] [] (event, (step options partials event).1)) _ = []
    rw [hcollect]
    exact ih

end Runs

section Delivery

theorem sendNetPackets_sending (options : SendOptions) (pkts : List (Option ℕ × NetPacket)) {lastSeqNo : ℕ}
    (hlast : lastSeqNo < sequenceLimit) :
    ∃ sent, sendNetPackets options (pkts.map (fun p => (p.1, p.2.pkt))) lastSeqNo = .ok sent ∧
      sent.length = pkts.length ∧ (sent.flatten.length < sequenceLimit → Sending (lastSeqNo + 1) sent) ∧
      ∀ i p frags, pkts[i]? = some p → sent[i]? = some frags →
        Fragmented (wire p.2.netPkt) (lastSeqNo + 1 + offset sent i) frags := by
  obtain ⟨sent, hsent, hlength, hfragmented⟩ := sendNetPackets_fragmented options pkts hlast
  refine ⟨sent, hsent, hlength, fun htotal => ⟨fun i frags hi => ?_, htotal⟩, hfragmented⟩
  have hi' : i < pkts.length := by
    rw [← hlength]
    exact (List.getElem?_eq_some_iff.mp hi).1
  exact ⟨pkts[i].2.netPkt, pkts[i].2.encodable, hfragmented i pkts[i] frags (List.getElem?_eq_getElem hi') hi⟩

/-- The packets that one link service sends, to any reassembler that admits their
numbers of fragments, after any run: a fragment that arrives makes the reassembler
deliver just when it completes the set, and what it delivers is the packet; a timer
drops the set just when no fragment has been added for the timeout. -/
theorem fragments_reassembled (options : SendOptions) (pkts : List (Option ℕ × NetPacket)) {lastSeqNo : ℕ}
    (hlast : lastSeqNo < sequenceLimit) :
    ∃ sent, sendNetPackets options (pkts.map (fun p => (p.1, p.2.pkt))) lastSeqNo = .ok sent ∧
      sent.length = pkts.length ∧ (sent.flatten.length < sequenceLimit →
        ∀ (receiver : Options) (remoteEndpoint : ℕ) (events : List Event),
          (∀ event ∈ events, Arrives remoteEndpoint sent event) →
          ∀ (i : ℕ) (p : Option ℕ × NetPacket) (frags : List LpPacket), pkts[i]? = some p → sent[i]? = some frags →
            frags.length ≤ receiver.nMaxFragments →
            let partials := (run receiver noPartialPackets events).2
            let waiting := collected remoteEndpoint frags (run receiver noPartialPackets events).1
            (∀ now packet j, indexOf frags packet = some j →
              ∃ firstPkt, sameFragment firstPkt (frags.headD ⟨[]⟩) ∧
                (receiveFragment receiver now remoteEndpoint packet partials).1 =
                  .ok (if complete frags waiting j then some (p.2.netPkt, firstPkt) else none)) ∧
            (1 < frags.length → ∀ now, (runTimer now (keyOf remoteEndpoint frags) partials).1.isSome ↔
              waiting.head?.map (fun latest => latest.2 + receiver.reassemblyTimeout) = some now)) := by
  obtain ⟨sent, hsent, hlength, hsending, hfragmented⟩ := sendNetPackets_sending options pkts hlast
  refine ⟨sent, hsent, hlength, fun htotal receiver remoteEndpoint events harrives i p frags hp hi hmax => ?_⟩
  have h := hsending htotal
  have hpacket := hfragmented i p frags hp hi
  by_cases hseveral : 1 < frags.length
  · have hempty : Slot receiver frags [] ((fun _ => none : PartialPackets)
        (remoteEndpoint, (lastSeqNo + 1 + offset sent i) % sequenceLimit)) := .empty
    obtain ⟨hwaiting, hslot⟩ := run_follows noPartialPackets h hi hseveral hmax events harrives (Waiting.nil (by omega)) hempty
    refine ⟨fun now packet j hindex => ?_, fun _ now => ?_⟩
    · exact (receive_follows h hi hseveral hmax p.2.encodable hpacket hindex hwaiting hslot now).1
    · rw [runTimer_isSome, h.keyOf_eq hi hseveral]
      exact hslot.due_iff now
  · refine ⟨fun now packet j hindex => ?_, fun hseveral' => absurd hseveral' hseveral⟩
    obtain ⟨hj, frag, hfrag, hsame⟩ := indexOf_spec hindex
    obtain ⟨frag, rfl⟩ : ∃ frag, frags = [frag] := List.length_eq_one_iff.mp (by omega)
    obtain rfl : j = 0 := by simpa using hj
    obtain rfl := Option.some.inj hfrag
    have hone : 1 ≤ receiver.nMaxFragments := hmax
    rw [collected, run_whole p.2.encodable hpacket hone]
    cases hpacket with
    | cut several => simp at several
    | whole fragment fragIndex fragCount =>
      rw [receiveFragment_whole p.2.encodable fragment fragIndex fragCount hsame, if_pos hone]
      exact ⟨packet, hsame, rfl⟩

def alicePacket : NetPacket where
  pkt := add ⟨[fragmentField (wire ⟨6, List.replicate 20 1⟩)]⟩ ⟨84, toBigEndian 8 0⟩
  netPkt := ⟨6, List.replicate 20 1⟩
  encodable := ⟨by decide, by decide⟩
  fragment := by decide +kernel
  unfragmented := by decide +kernel

def aliceOptions : SendOptions := ⟨true, false, false, 400⟩

/-- Three fragments, whose sequence numbers wrap around. -/
def aliceFrags : List LpPacket :=
  ((sendNetPackets aliceOptions [(some 62, alicePacket.pkt)] 18446744073709551614).toOption.getD []).headD []

def aliceEvents : List Event :=
  [.receive 0 7 (aliceFrags.getD 2 ⟨[]⟩), .receive 3 7 (aliceFrags.getD 0 ⟨[]⟩), .receive 4 7 (aliceFrags.getD 2 ⟨[]⟩)]

theorem fragments_reassembled_alice : ∃ firstPkt, sameFragment firstPkt (aliceFrags.headD ⟨[]⟩) ∧
    (receiveFragment ⟨400, 500⟩ 9 7 (aliceFrags.getD 1 ⟨[]⟩) (run ⟨400, 500⟩ noPartialPackets aliceEvents).2).1 =
      .ok (some (alicePacket.netPkt, firstPkt)) := by
  obtain ⟨sent, hsent, -, hdelivery⟩ := fragments_reassembled aliceOptions [(some 62, alicePacket)]
    (by decide : 18446744073709551614 < sequenceLimit)
  have hframes : sendNetPackets aliceOptions [(some 62, alicePacket.pkt)] 18446744073709551614 = .ok [aliceFrags] := rfl
  obtain rfl := Except.ok.inj (hsent.symm.trans hframes)
  have harrives : ∀ event ∈ aliceEvents, Arrives 7 [aliceFrags] event := by
    intro event hmem
    rcases List.mem_cons.mp hmem with rfl | hmem
    · exact fun _ => ⟨aliceFrags, List.mem_singleton_self _, by decide +kernel⟩
    rcases List.mem_cons.mp hmem with rfl | hmem
    · exact fun _ => ⟨aliceFrags, List.mem_singleton_self _, by decide +kernel⟩
    · obtain rfl := List.mem_singleton.mp hmem
      exact fun _ => ⟨aliceFrags, List.mem_singleton_self _, by decide +kernel⟩
  obtain ⟨firstPkt, hfirst, hresult⟩ := (hdelivery (by decide +kernel) ⟨400, 500⟩ 7 aliceEvents harrives 0
    (some 62, alicePacket) aliceFrags rfl rfl (by decide +kernel)).1 9 (aliceFrags.getD 1 ⟨[]⟩) 1 (by decide +kernel)
  have hcomplete : complete aliceFrags (collected 7 aliceFrags (run ⟨400, 500⟩ noPartialPackets aliceEvents).1) 1 = true := by
    decide +kernel
  rw [hcomplete, if_pos rfl] at hresult
  exact ⟨firstPkt, hfirst, hresult⟩

/-- A reassembler that admits two fragments only drops those of a packet of three. -/
theorem not_reassembled_alice :
    sendNetPackets aliceOptions [(some 62, alicePacket.pkt)] 18446744073709551614 = .ok [aliceFrags] ∧
    complete aliceFrags (collected 7 aliceFrags (run ⟨2, 500⟩ noPartialPackets aliceEvents).1) 1 = true ∧
    (receiveFragment ⟨2, 500⟩ 9 7 (aliceFrags.getD 1 ⟨[]⟩) (run ⟨2, 500⟩ noPartialPackets aliceEvents).2).1 = .ok none :=
  ⟨rfl, by decide +kernel, rfl⟩

end Delivery

end LeoNdn.Reassembly
