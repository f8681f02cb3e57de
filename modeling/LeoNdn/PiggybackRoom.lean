import LeoNdn.LinkSending
import LeoNdn.LpPacketSizes

/-!
The space that fragmentation reserves for what `sendLpPacket` adds, and when the Acks
and the congestion mark that it adds go over the MTU.
-/

namespace LeoNdn.PiggybackRoom

open LeoNdn.Tlv LeoNdn.TlvEncoding LeoNdn.LinkService LeoNdn.LpFragmenter LeoNdn.OrderedMaps LeoNdn.LpPacketSizes
open LeoNdn.LinkSending
open LeoNdn.LpReliability (Reliability Failure UnackedFrag NetPkt piggyback piggybackAcks ackSize ackField txSequenceField
  assignTxSequence deleteUnackedFrag storeFrag storeFrags handleOutgoing findLostLpPackets giveUp onLpPacketAcknowledged)

section Acks

variable {pkt : LpPacket}

def addAcks (pkt : LpPacket) (acks : List ℕ) : LpPacket := acks.foldl (fun pkt ackSeq => add pkt (ackField ackSeq)) pkt

theorem size_ackField (ackSeq : ℕ) : size (ackField ackSeq) = 12 := by
  rw [size, length_wire, ackField, toBigEndian_length]
  rfl

theorem valueSize_addAcks (pkt : LpPacket) (acks : List ℕ) :
    valueSize (addAcks pkt acks) = valueSize pkt + 12 * acks.length := by
  induction acks generalizing pkt with
  | nil => rfl
  | cons ackSeq acks ih =>
    have hrest := ih (add pkt (ackField ackSeq))
    rw [valueSize_add, size_ackField] at hrest
    rw [addAcks, List.foldl_cons, List.length_cons]
    rw [addAcks] at hrest
    omega

theorem fieldSize_addAcks {type : ℕ} (hne : 836 ≠ type) (pkt : LpPacket) (acks : List ℕ) :
    fieldSize (addAcks pkt acks) type = fieldSize pkt type := by
  induction acks generalizing pkt with
  | nil => rfl
  | cons ackSeq acks ih => exact (ih (add pkt (ackField ackSeq))).trans (fieldSize_add_ne hne)

/-- The loop of `piggyback` takes an Ack for each 12 octets. -/
theorem piggybackAcks_eq (remainingSpace : ℤ) (pkt : LpPacket) (ackQueue : List ℕ) :
    piggybackAcks remainingSpace pkt ackQueue =
      (addAcks pkt (ackQueue.take (remainingSpace / 12).toNat), ackQueue.drop (remainingSpace / 12).toNat) := by
  induction ackQueue generalizing remainingSpace pkt with
  | nil =>
    rw [List.take_nil, List.drop_nil]
    rfl
  | cons ackSeq ackQueue ih =>
    rw [piggybackAcks, ackSize]
    split
    · have hnone : (remainingSpace / 12).toNat = 0 := by omega
      rw [hnone]
      rfl
    · have hone : (remainingSpace / 12).toNat = ((remainingSpace - 12) / 12).toNat + 1 := by omega
      rw [show remainingSpace - (3 + 1 + 8) = remainingSpace - 12 from rfl, ih, hone]
      rfl

def reservedSpace (pkt : LpPacket) : ℤ := (encodeVarNumber 8800).length - (encodeVarNumber (encodedSize pkt)).length

/-- What `piggyback` has for Acks. -/
def remainingSpace (limit : ℕ) (pkt : LpPacket) : ℤ := limit - reservedSpace pkt - encodedSize pkt

theorem piggyback_eq (mtu : Option ℕ) (pkt : LpPacket) (ackQueue : List ℕ) :
    piggyback mtu pkt ackQueue =
      (addAcks pkt (ackQueue.take (remainingSpace (mtu.getD 8800) pkt / 12).toNat),
        ackQueue.drop (remainingSpace (mtu.getD 8800) pkt / 12).toNat) :=
  piggybackAcks_eq (remainingSpace (mtu.getD 8800) pkt) pkt ackQueue

end Acks

section Room

variable {limit : ℕ} {sending : Sending}

/-- What a congestion mark adds to the packet; one that is there already is replaced. -/
def markGrowth (sending : Sending) : ℤ :=
  if sending.marks then size (congestionMarkField 1) - fieldSize sending.pkt 832 else 0

def nAcks (limit : ℕ) (sending : Sending) : ℤ := min sending.pending.length (remainingSpace limit sending.pkt / 12)

/-- What Acks of twelve octets cannot use of their space. -/
def leftover (limit : ℕ) (pkt : LpPacket) : ℤ := remainingSpace limit pkt % 12

/-- How much of the space Acks must leave once they fill it: as much as the mark takes. Packets of 253 and of 254 octets have
no reserve, and their TLV-LENGTH takes two octets more; one that stays short enough does not use its reserve of two. -/
def needed (limit : ℕ) (sending : Sending) : ℤ :=
  if encodedSize sending.pkt = 253 ∨ encodedSize sending.pkt = 254 then markGrowth sending + 2
  else if encodedSize sending.pkt < 253 ∧ limit + markGrowth sending < 257 + leftover limit sending.pkt then markGrowth sending - 2
  else markGrowth sending

/-- Over a limited MTU fewer Acks are pending than there is space for, or a full space leaves what is needed. -/
def HasRoom (mtu : Option ℕ) (sending : Sending) : Prop :=
  ∀ limit ∈ mtu, (sending.pending.length < remainingSpace limit sending.pkt / 12 ∧ limit < 4294967296) ∨
    (limit < 65536 ∧ needed limit sending ≤ leftover limit sending.pkt)

theorem encodedSize_eq (pkt : LpPacket) :
    encodedSize pkt = 1 + (encodeVarNumber (valueSize pkt)).length + valueSize pkt := size_makeBlock pkt

theorem valueSize_out (hspace : 0 ≤ remainingSpace limit sending.pkt) :
    (valueSize (sending.out (some limit)) : ℤ) = valueSize sending.pkt + (12 * nAcks limit sending + markGrowth sending) := by
  have hacks := valueSize_addAcks sending.pkt (sending.pending.take (remainingSpace limit sending.pkt / 12).toNat)
  have hmark : fieldSize (addAcks sending.pkt (sending.pending.take (remainingSpace limit sending.pkt / 12).toNat)) 832 =
      fieldSize sending.pkt 832 := fieldSize_addAcks (by decide) _ _
  have hclear := valueSize_clear (addAcks sending.pkt (sending.pending.take (remainingSpace limit sending.pkt / 12).toNat)) 832
  rw [List.length_take] at hacks
  simp only [Sending.out, piggyback_eq, Option.getD_some, markGrowth, nAcks]
  split
  · rw [valueSize_set, show (congestionMarkField 1).type = 832 from rfl]
    omega
  · omega

theorem length_encodeVarNumber_pos (number : ℕ) : 1 ≤ (encodeVarNumber number).length :=
  List.length_pos_iff.mpr (encodeVarNumber_ne_nil number)

theorem length_encodeVarNumber_le_five {number : ℕ} (h : number < 4294967296) : (encodeVarNumber number).length ≤ 5 := by
  rw [length_encodeVarNumber]
  split_ifs <;> omega

theorem reservedSpace_eq (pkt : LpPacket) : reservedSpace pkt = 3 - (encodeVarNumber (encodedSize pkt)).length := rfl

theorem size_congestionMarkField : size (congestionMarkField 1) = 5 := rfl

theorem markGrowth_le (sending : Sending) : markGrowth sending ≤ 5 := by
  rw [markGrowth, size_congestionMarkField]
  split_ifs <;> omega

variable (hspare : encodedSize sending.pkt + 12 ≤ limit)
include hspare

theorem remainingSpace_nonneg : 0 ≤ remainingSpace limit sending.pkt := by
  have hpos := length_encodeVarNumber_pos (encodedSize sending.pkt)
  rw [remainingSpace, reservedSpace_eq]
  omega

/-- Twelve octets are left: five for the mark, at most four for the TLV-LENGTH. -/
theorem fits_of_few (hfew : (sending.pending.length : ℤ) < remainingSpace limit sending.pkt / 12) (hlimit : limit < 4294967296) :
    encodedSize (sending.out (some limit)) ≤ limit := by
  have hsize := encodedSize_eq sending.pkt
  have hout := encodedSize_eq (sending.out (some limit))
  have hvalue := valueSize_out (remainingSpace_nonneg hspare)
  have hmark := markGrowth_le sending
  have hreserved := reservedSpace_eq sending.pkt
  have hspace : remainingSpace limit sending.pkt = limit - reservedSpace sending.pkt - encodedSize sending.pkt := rfl
  have hpacket : (encodeVarNumber (encodedSize sending.pkt)).length ≤ 5 := length_encodeVarNumber_le_five (by omega)
  have hpos := length_encodeVarNumber_pos (valueSize sending.pkt)
  have hall : nAcks limit sending = sending.pending.length := by
    rw [nAcks]
    omega
  have hlonger : (encodeVarNumber (valueSize (sending.out (some limit)))).length ≤ 5 := length_encodeVarNumber_le_five (by omega)
  omega

/-- The TLV-LENGTHs of the packet, with and without what is added, have one octet or three, or the packet is too large. -/
theorem fits_iff_of_full (hfull : remainingSpace limit sending.pkt / 12 ≤ (sending.pending.length : ℤ)) (hlimit : limit < 65536) :
    encodedSize (sending.out (some limit)) ≤ limit ↔ needed limit sending ≤ leftover limit sending.pkt := by
  have hsize := encodedSize_eq sending.pkt
  have hout := encodedSize_eq (sending.out (some limit))
  have hvalue := valueSize_out (remainingSpace_nonneg hspare)
  have hmark := markGrowth_le sending
  have hreserved := reservedSpace_eq sending.pkt
  have hspace : remainingSpace limit sending.pkt = limit - reservedSpace sending.pkt - encodedSize sending.pkt := rfl
  have hall : nAcks limit sending = remainingSpace limit sending.pkt / 12 := by
    rw [nAcks]
    omega
  rw [length_encodeVarNumber] at hsize hout hreserved
  rw [needed, leftover]
  generalize valueSize (sending.out (some limit)) = outValue at *
  generalize encodedSize (sending.out (some limit)) = outSize at *
  generalize encodedSize sending.pkt = packetSize at *
  generalize valueSize sending.pkt = packetValue at *
  generalize markGrowth sending = growth at *
  generalize remainingSpace limit sending.pkt = space at *
  split_ifs at * <;> omega

theorem not_isOverMtu_of_hasRoom (h : HasRoom (some limit) sending) : isOverMtu (some limit) (sending.out (some limit)) = false := by
  rw [isOverMtu, Option.any_some, decide_eq_false_iff_not, not_lt]
  rcases h limit rfl with ⟨hfew, hlimit⟩ | ⟨hlimit, hneeded⟩
  · exact fits_of_few hspare hfew hlimit
  · rcases Int.lt_or_le (sending.pending.length : ℤ) (remainingSpace limit sending.pkt / 12) with hfew | hfull
    · exact fits_of_few hspare hfew (by omega)
    · exact (fits_iff_of_full hspare hfull hlimit).mpr hneeded

theorem hasRoom_of_not_isOverMtu (hlimit : limit < 65536) (h : isOverMtu (some limit) (sending.out (some limit)) = false) :
    HasRoom (some limit) sending := by
  rw [isOverMtu, Option.any_some, decide_eq_false_iff_not, not_lt] at h
  intro other hother
  obtain rfl := Option.mem_some.mp hother
  rcases Int.lt_or_le (sending.pending.length : ℤ) (remainingSpace limit sending.pkt / 12) with hfew | hfull
  · exact Or.inl ⟨hfew, by omega⟩
  · exact Or.inr ⟨hlimit, (fits_iff_of_full hspare hfull hlimit).mp h⟩

end Room

section Ensures

variable {α β : Type} {p : α → Prop} {q : β → Prop}

def Ensures (p : α → Prop) (result : Except Failure α) : Prop := ∀ a, result = .ok a → p a

theorem ensures_ok {a : α} (h : p a) : Ensures p (.ok a) := by
  intro a' ha'
  obtain rfl := Except.ok.inj ha'
  exact h

theorem ensures_error (e : Failure) : Ensures p (.error e) := by
  rintro _ ⟨⟩

theorem Ensures.bind {result : Except Failure α} {next : α → Except Failure β} (h : Ensures p result)
    (hnext : ∀ a, p a → Ensures q (next a)) : Ensures q (result >>= next) := by
  cases result with
  | error e => exact ensures_error e
  | ok a => exact hnext a (h a rfl)

theorem Ensures.foldlM {f : α → β → Except Failure α} (hstep : ∀ a item, p a → Ensures p (f a item)) (items : List β) {a : α}
    (ha : p a) : Ensures p (items.foldlM f a) := by
  induction items generalizing a with
  | nil => exact ensures_ok ha
  | cons item items ih =>
    rw [List.foldlM_cons]
    exact (hstep a item ha).bind fun a' ha' => ih ha'

end Ensures

section Stored

variable {p : LpPacket → Prop} {s : Reliability}

def Stored (p : LpPacket → Prop) (s : Reliability) : Prop := ∀ entry ∈ s.unackedFrags, p entry.2.pkt

/-- A fragment as it is sent, with a TxSequence. -/
def Numbered (p : LpPacket → Prop) (pkt : LpPacket) : Prop := ∃ frag txSeq, p frag ∧ pkt = set frag (txSequenceField txSeq)

theorem Stored.congr {s' : Reliability} (h : Stored p s) (hfrags : s'.unackedFrags = s.unackedFrags) : Stored p s' := by
  rw [Stored, hfrags]
  exact h

theorem stored_emplace (h : Stored p s) {txSeq : ℕ} {frag : UnackedFrag} (hfrag : p frag.pkt) {s' : Reliability}
    (hfrags : s'.unackedFrags = emplace s.unackedFrags txSeq frag) : Stored p s' := by
  intro entry hmem
  rw [hfrags] at hmem
  rcases mem_of_mem_emplace hmem with rfl | hmem
  · exact hfrag
  · exact h entry hmem

theorem stored_deleteUnackedFrag (h : Stored p s) (txSeq : ℕ) : Ensures (Stored p) (deleteUnackedFrag s txSeq) := by
  rw [deleteUnackedFrag]
  split
  · exact ensures_ok fun entry hmem => h entry (mem_erase.mp hmem).1
  · exact ensures_error _

theorem numbered_assignTxSequence (h : Stored p s) {frag : LpPacket} (hfrag : p frag) :
    Ensures (fun result => Numbered p result.2.1 ∧ Stored p result.2.2) (assignTxSequence frag s) := by
  rw [assignTxSequence]
  split
  · exact ensures_error _
  · exact ensures_ok ⟨⟨frag, _, hfrag, rfl⟩, h⟩

theorem stored_findLostLpPackets (h : Stored p s) (options : LpReliability.Options) (ackSeq : ℕ) :
    Stored p (findLostLpPackets options ackSeq s).2 := by
  rintro ⟨txSeq, frag⟩ hmem
  rw [findLostLpPackets] at hmem
  dsimp only at hmem
  obtain ⟨old, hold, rfl⟩ := mem_mapValues.mp hmem
  have hkept := h _ hold
  dsimp only
  split
  · exact hkept
  · exact hkept

theorem stored_giveUp (h : Stored p s) (txSeq : ℕ) (netPkt : NetPkt) :
    Ensures (fun result => Stored p result.2) (giveUp txSeq netPkt s) := by
  rw [giveUp]
  refine (Ensures.foldlM (fun _ other hs => stored_deleteUnackedFrag hs other) _ h).bind fun s' hs' => ?_
  refine Ensures.bind (p := Stored p) (stored_deleteUnackedFrag ?_ txSeq) fun _ hs'' => ensures_ok hs''
  exact hs'.congr rfl

theorem stored_onLpPacketAcknowledged (h : Stored p s) (txSeq : ℕ) :
    Ensures (Stored p) (onLpPacketAcknowledged txSeq s) := by
  rw [onLpPacketAcknowledged]
  split
  · exact ensures_error _
  · split
    · exact ensures_error _
    · split
      · exact ensures_error _
      · refine stored_deleteUnackedFrag ?_ txSeq
        exact h.congr rfl

variable (hset : ∀ frag txSeq, p frag → p (set frag (txSequenceField txSeq)))
include hset

theorem Numbered.stays {pkt : LpPacket} (h : Numbered p pkt) : p pkt := by
  obtain ⟨frag, txSeq, hfrag, rfl⟩ := h
  exact hset frag txSeq hfrag

theorem numbered_storeFrags (netPkt fragment : ℕ) (frags : List LpPacket) (h : Stored p s) (hfrags : ∀ frag ∈ frags, p frag) :
    Ensures (fun result => (∀ frag ∈ result.1, Numbered p frag) ∧ Stored p result.2) (storeFrags netPkt fragment frags s) := by
  induction frags generalizing fragment s with
  | nil =>
    rw [storeFrags]
    exact ensures_ok ⟨List.forall_mem_nil _, h⟩
  | cons frag frags ih =>
    obtain ⟨hfrag, hfrags⟩ := List.forall_mem_cons.mp hfrags
    rw [storeFrags]
    refine (numbered_assignTxSequence h hfrag).bind ?_
    rintro ⟨txSeq, numbered, s'⟩ ⟨hnumbered, hs'⟩
    have hstored : Stored p (storeFrag netPkt fragment txSeq numbered s') := stored_emplace hs' (hnumbered.stays hset) rfl
    refine (ih (fragment + 1) hstored hfrags).bind ?_
    rintro ⟨rest, s''⟩ ⟨hrest, hs''⟩
    exact ensures_ok ⟨List.forall_mem_cons.mpr ⟨hnumbered, hrest⟩, hs''⟩

theorem numbered_handleOutgoing (frags : List LpPacket) (pkt : LpPacket) (isInterest : Bool) (h : Stored p s)
    (hfrags : ∀ frag ∈ frags, p frag) :
    Ensures (fun result => (∀ frag ∈ result.1, Numbered p frag) ∧ Stored p result.2) (handleOutgoing frags pkt isInterest s) := by
  rw [handleOutgoing]
  refine numbered_storeFrags hset _ 0 frags ?_ hfrags
  exact h.congr rfl

end Stored

section Links

variable {ctx : Context} {link : Link} {mtu : Option ℕ} {pkt : LpPacket}

/-- A fragment with any TxSequence of its own leaves the twelve octets of a congestion mark. -/
def Spare (mtu : Option ℕ) (pkt : LpPacket) : Prop := ∀ limit ∈ mtu, valueSize (clear pkt 840) + 34 ≤ limit

structure Fitting (mtu : Option ℕ) (pkt : LpPacket) : Prop where
  headed : Headed pkt
  size_le : ∀ limit ∈ mtu, encodedSize pkt + 12 ≤ limit

theorem size_txSequenceField (txSeq : ℕ) : size (txSequenceField txSeq) = 12 := by
  rw [size, length_wire, txSequenceField, toBigEndian_length]
  rfl

theorem Spare.set_txSequence (h : Spare mtu pkt) (txSeq : ℕ) : Spare mtu (set pkt (txSequenceField txSeq)) := by
  intro limit hlimit
  have hclear : clear (set pkt (txSequenceField txSeq)) 840 = clear pkt 840 := clear_set pkt (txSequenceField txSeq)
  rw [hclear]
  exact h limit hlimit

theorem Numbered.fitting (h : Numbered (Spare mtu) pkt) : Fitting mtu pkt := by
  obtain ⟨frag, txSeq, hfrag, rfl⟩ := h
  refine ⟨headed_add (show 840 ≠ 80 by decide) _, fun limit hlimit => ?_⟩
  have hspare := hfrag limit hlimit
  have hvalue : valueSize (set frag (txSequenceField txSeq)) = valueSize (clear frag 840) + 12 := by
    rw [valueSize_set, size_txSequenceField]
    rfl
  have hlength := length_encodeVarNumber_le (valueSize (set frag (txSequenceField txSeq)))
  rw [encodedSize_eq]
  omega

/-- What holds along a run: the fragments that are stored or passed on leave space, and what is over the MTU is counted and
not sent. -/
structure Kept (ctx : Context) (link : Link) : Prop where
  stored : Stored (Spare ctx.options.mtu) link.reliability
  fitting : ∀ sending ∈ link.sendings, Fitting ctx.options.mtu sending.pkt
  transport : link.transport =
    (link.sendings.map (Sending.out ctx.options.mtu)).filter (fun pkt => ! isOverMtu ctx.options.mtu pkt)
  nOutOverMtu : link.nOutOverMtu = (link.sendings.map (Sending.out ctx.options.mtu)).countP (isOverMtu ctx.options.mtu)

theorem kept_initial (ctx : Context) : Kept ctx initial :=
  ⟨List.forall_mem_nil _, List.forall_mem_nil _, rfl, rfl⟩

theorem checkCongestionLevel_fst (options : Options) (reading : Reading) (pkt : LpPacket) (marking : Marking) :
    (checkCongestionLevel options reading pkt marking).1 =
      if marks options reading marking then set pkt (congestionMarkField 1) else pkt := by
  rw [checkCongestionLevel, marks]
  cases reading.sendQueueLength with
  | none => rfl
  | some sendQueueLength =>
    dsimp only [Option.any_some]
    by_cases hcongested : sendQueueLength > congestionThreshold options reading
    · by_cases htime : isMarkTime options reading.now marking = true
      · simp [hcongested, htime]
      · simp [hcongested, htime]
    · simp only [hcongested, decide_false, Bool.false_and, Bool.false_eq_true, if_false]
      split <;> rfl

theorem Kept.congr (h : Kept ctx link) {s : Reliability} (hs : Stored (Spare ctx.options.mtu) s) :
    Kept ctx { link with reliability := s } := ⟨hs, h.fitting, h.transport, h.nOutOverMtu⟩

theorem Kept.passOn (h : Kept ctx link) (hpkt : Fitting ctx.options.mtu pkt) {s : Reliability}
    (hs : Stored (Spare ctx.options.mtu) s) : Kept ctx (passOn ctx pkt s link) := by
  have hout : (checkCongestionLevel ctx.options (ctx.readings link.sendings.length)
      (piggyback ctx.options.mtu pkt link.reliability.ackQueue).1 link.marking).1 =
        Sending.out ctx.options.mtu ⟨pkt, link.reliability.ackQueue,
          marks ctx.options (ctx.readings link.sendings.length) link.marking⟩ := checkCongestionLevel_fst _ _ _ _
  refine ⟨hs, ?_, ?_, ?_⟩
  · intro sending hsending
    rcases List.mem_append.mp hsending with hsending | hsending
    · exact h.fitting sending hsending
    · obtain rfl := List.mem_singleton.mp hsending
      exact hpkt
  · simp only [LinkSending.passOn, hout, List.map_append, List.map_cons, List.map_nil, List.filter_append, h.transport]
    split
    · rename_i hover
      simp [hover]
    · rename_i hfits
      simp [hfits]
  · simp only [LinkSending.passOn, hout, List.map_append, List.map_cons, List.map_nil, List.countP_append, h.nOutOverMtu]
    split
    · rename_i hover
      simp [hover]
    · rename_i hfits
      simp [hfits]

theorem Kept.sendLpPackets (h : Kept ctx link) (netPkt fragment : ℕ) (frags : List LpPacket)
    (hfrags : ∀ frag ∈ frags, Fitting ctx.options.mtu frag) : Kept ctx (sendLpPackets ctx netPkt fragment frags link) := by
  induction frags generalizing fragment link with
  | nil => exact h
  | cons frag frags ih =>
    obtain ⟨hfrag, hfrags⟩ := List.forall_mem_cons.mp hfrags
    have hsent : Kept ctx (sendLpPacket ctx netPkt fragment frag link) := h.passOn hfrag (h.stored.congr rfl)
    exact ih hsent (fragment + 1) hfrags

theorem Kept.sendFragments (h : Kept ctx link) (frags : List LpPacket) (pkt : LpPacket) (isInterest : Bool)
    (hfrags : ∀ frag ∈ frags, Spare ctx.options.mtu frag) : Ensures (Kept ctx) (sendFragments ctx frags pkt isInterest link) := by
  rw [LinkSending.sendFragments]
  split
  · refine (numbered_handleOutgoing (fun _ txSeq hfrag => hfrag.set_txSequence txSeq) frags pkt isInterest h.stored hfrags).bind ?_
    rintro ⟨sent, s⟩ ⟨hsent, hs⟩
    exact ensures_ok ((h.congr hs).sendLpPackets _ 0 sent fun frag hfrag => (hsent frag hfrag).fitting)
  · exact ensures_ok h

theorem Kept.retransmit (h : Kept ctx link) {txSeq : ℕ} {txFrag : UnackedFrag} (hfrag : Spare ctx.options.mtu txFrag.pkt)
    (netPkt : NetPkt) : Ensures (fun result => Kept ctx result.2) (retransmit ctx txSeq txFrag netPkt link) := by
  rw [LinkSending.retransmit]
  refine (numbered_assignTxSequence h.stored hfrag).bind ?_
  rintro ⟨newTxSeq, pkt, s⟩ ⟨hpkt, hs⟩
  dsimp only
  split
  · exact ensures_error _
  · have hspare : Spare ctx.options.mtu pkt := hpkt.stays fun _ txSeq hfrag => hfrag.set_txSequence txSeq
    refine Ensures.bind (p := Stored (Spare ctx.options.mtu)) (stored_deleteUnackedFrag ?_ txSeq) fun s' hs' => ?_
    · exact stored_emplace hs hspare rfl
    · exact ensures_ok ((h.congr hs').passOn hpkt.fitting (hs'.congr rfl))

theorem Kept.onLpPacketLost (h : Kept ctx link) (txSeq : ℕ) :
    Ensures (fun result => Kept ctx result.2) (onLpPacketLost ctx txSeq link) := by
  rw [LinkSending.onLpPacketLost]
  split
  · exact ensures_error _
  · rename_i txFrag hlookup
    split
    · exact ensures_error _
    · rename_i netPkt _
      split
      · exact (stored_giveUp h.stored txSeq netPkt).bind fun result hresult => ensures_ok (h.congr hresult)
      · exact h.retransmit (h.stored _ (mem_of_lookup hlookup)) netPkt

theorem Kept.resendLost (h : Kept ctx link) (lost removed : List ℕ) : Ensures (Kept ctx) (resendLost ctx lost removed link) := by
  induction lost generalizing removed link with
  | nil => exact ensures_ok h
  | cons txSeq lost ih =>
    rw [LinkSending.resendLost]
    split
    · exact ih h removed
    · exact (h.onLpPacketLost txSeq).bind fun result hresult => ih hresult _

theorem Kept.processAck (h : Kept ctx link) (ackSeq : ℕ) : Ensures (Kept ctx) (processAck ctx link ackSeq) := by
  rw [LinkSending.processAck]
  split
  · exact ensures_ok h
  · have hlost := stored_findLostLpPackets h.stored ctx.options.toOptions ackSeq
    exact (stored_onLpPacketAcknowledged hlost ackSeq).bind fun s hs => (h.congr hs).resendLost _ []

theorem Kept.processIncomingPacket (h : Kept ctx link) (pkt : LpPacket) :
    Ensures (fun result => Kept ctx result.2) (processIncomingPacket ctx pkt link) := by
  rw [LinkSending.processIncomingPacket]
  split
  · exact ensures_ok h
  · refine (Ensures.foldlM (fun _ ackSeq hlink => Kept.processAck hlink ackSeq) _ h).bind fun link' hlink => ?_
    split
    · split
      · exact ensures_ok hlink
      · exact ensures_ok (hlink.congr (hlink.stored.congr rfl))
    · exact ensures_ok hlink

end Links

section Runs

variable {ctx : Context} {link link' : Link}

theorem makeFragments_small {options : Options} {mtu : Option ℕ} {p : NetPacket} {frags : List LpPacket}
    (h : makeFragments options.sendOptions mtu p.pkt = .ok (some frags)) :
    ∀ frag ∈ frags, ∀ limit ∈ mtu, valueSize frag + 44 ≤ limit := by
  intro frag hfrag limit hlimit
  obtain rfl := Option.mem_def.mp hlimit
  have hsmall := @fragmentPacket_small (Unfragmented.ofNetPacket p) options.nMaxFragments (limit - 12 - 12) frags h frag hfrag
  omega

theorem mem_assignSequences {lastSeqNo : ℕ} {frags : List LpPacket} {frag : LpPacket}
    (h : frag ∈ (assignSequences lastSeqNo frags).1) : ∃ old ∈ frags, ∃ sequence, frag = set old (sequenceField sequence) := by
  rw [assignSequences_fst] at h
  obtain ⟨i, hi, rfl⟩ := List.mem_mapIdx.mp h
  exact ⟨frags[i], List.getElem_mem hi, _, rfl⟩

theorem Kept.sendNetPacket (h : Kept ctx link) (p : NetPacket) (isInterest : Bool) :
    Ensures (Kept ctx) (sendNetPacket ctx p.pkt isInterest link) := by
  rw [LinkSending.sendNetPacket]
  split
  · exact ensures_error _
  · exact ensures_ok ⟨h.stored, h.fitting, h.transport, h.nOutOverMtu⟩
  · rename_i frags hfrags
    have hsmall := makeFragments_small hfrags
    split
    · have hlink : Kept ctx { link with m_lastSeqNo := (assignSequences link.m_lastSeqNo frags).2 } :=
        ⟨h.stored, h.fitting, h.transport, h.nOutOverMtu⟩
      refine hlink.sendFragments _ p.pkt isInterest fun frag hfrag limit hlimit => ?_
      obtain ⟨old, hold, sequence, rfl⟩ := mem_assignSequences hfrag
      have hspace := hsmall old hold limit hlimit
      have hcleared := valueSize_clear_le (set old (sequenceField sequence)) 840
      have hold := valueSize_clear_le old 81
      rw [valueSize_set, size_sequenceField, sequenceField_type] at hcleared
      omega
    · refine h.sendFragments frags p.pkt isInterest fun frag hfrag limit hlimit => ?_
      have hspace := hsmall frag hfrag limit hlimit
      have hcleared := valueSize_clear_le frag 840
      omega

/-- The MTU is one for which fragmentation succeeds, be it for a single network packet. -/
def Fragments (options : Options) : Prop :=
  ∃ (p : NetPacket) (frags : List LpPacket), makeFragments options.sendOptions options.mtu p.pkt = .ok (some frags)

theorem Fragments.limit_ge (h : Fragments ctx.options) : ∀ limit ∈ ctx.options.mtu, 44 ≤ limit := by
  obtain ⟨p, frags, hfrags⟩ := h
  intro limit hlimit
  obtain ⟨made, hmade, hcut⟩ := makeFragments_cut ctx.options.sendOptions ctx.options.mtu p
  obtain rfl : made = some frags := Except.ok.inj (hmade.symm.trans hfrags)
  have hne : frags ≠ [] := by
    rcases hcut frags rfl with rfl | ⟨hne, -⟩
    · exact List.cons_ne_nil _ _
    · exact hne
  have hsmall := makeFragments_small hfrags _ (List.head_mem hne) limit hlimit
  omega

theorem fitting_idle (hmtu : ∀ limit ∈ ctx.options.mtu, 44 ≤ limit) : Fitting ctx.options.mtu ⟨[]⟩ := by
  refine ⟨Or.inl rfl, fun limit hlimit => ?_⟩
  have hlarge := hmtu limit hlimit
  have hsize : encodedSize ⟨[]⟩ = 2 := rfl
  omega

theorem Kept.requestIdlePacket (hmtu : ∀ limit ∈ ctx.options.mtu, 44 ≤ limit) (h : Kept ctx link) :
    Kept ctx (requestIdlePacket ctx link) := h.passOn (fitting_idle hmtu) (h.stored.congr rfl)

theorem Kept.sendIdlePackets (hmtu : ∀ limit ∈ ctx.options.mtu, 44 ≤ limit) (rounds : ℕ) (h : Kept ctx link)
    (hsent : sendIdlePackets ctx rounds link = some link') : Kept ctx link' := by
  induction rounds generalizing link with
  | zero =>
    rw [LinkSending.sendIdlePackets, Option.ite_none_right_eq_some] at hsent
    obtain rfl := Option.some.inj hsent.2
    exact h
  | succ rounds ih =>
    rw [LinkSending.sendIdlePackets] at hsent
    split at hsent
    · obtain rfl := Option.some.inj hsent
      exact h
    · exact ih (h.requestIdlePacket hmtu) hsent

theorem kept_of_reachable (hmtu : ∀ limit ∈ ctx.options.mtu, 44 ≤ limit) (h : Reachable ctx link) : Kept ctx link := by
  induction h with
  | initial => exact kept_initial ctx
  | step h hstep ih =>
    cases hstep with
    | sendNetPacket p isInterest hsent => exact ih.sendNetPacket p isInterest _ hsent
    | receive pkt hreceived => exact ih.processIncomingPacket pkt _ hreceived
    | rtoTimer txSeq hlost => exact ih.onLpPacketLost txSeq _ hlost
    | idleAckTimer rounds hsent => exact ih.sendIdlePackets hmtu rounds hsent

theorem ackQueue_requestIdlePacket (hmtu : ∀ limit ∈ ctx.options.mtu, 44 ≤ limit) (link : Link) :
    ∃ taken, 1 ≤ taken ∧ (requestIdlePacket ctx link).reliability.ackQueue = link.reliability.ackQueue.drop taken := by
  have hlimit : 44 ≤ ctx.options.mtu.getD 8800 := by
    cases hmtu' : ctx.options.mtu with
    | none => decide
    | some limit => exact hmtu limit hmtu'
  have hspace : remainingSpace (ctx.options.mtu.getD 8800) ⟨[]⟩ = ctx.options.mtu.getD 8800 - 2 - 2 := rfl
  refine ⟨(remainingSpace (ctx.options.mtu.getD 8800) ⟨[]⟩ / 12).toNat, by omega, ?_⟩
  change (piggyback ctx.options.mtu ⟨[]⟩ link.reliability.ackQueue).2 = _
  rw [piggyback_eq]

theorem sendIdlePackets_ends (hmtu : ∀ limit ∈ ctx.options.mtu, 44 ≤ limit) (n : ℕ) (link : Link)
    (hn : link.reliability.ackQueue.length ≤ n) :
    ∃ link', sendIdlePackets ctx n link = some link' ∧ link'.reliability.ackQueue = [] := by
  induction n generalizing link with
  | zero =>
    have hempty := List.length_eq_zero_iff.mp (Nat.le_zero.mp hn)
    exact ⟨link, by rw [LinkSending.sendIdlePackets, if_pos hempty], hempty⟩
  | succ n ih =>
    rw [LinkSending.sendIdlePackets]
    split
    · rename_i hempty
      exact ⟨link, rfl, hempty⟩
    · obtain ⟨taken, htaken, hdrop⟩ := ackQueue_requestIdlePacket hmtu link
      refine ih _ ?_
      rw [hdrop, List.length_drop]
      omega

/-- Every packet that was passed on fits the MTU with its Acks and its mark, and was handed to the transport. -/
structure NothingDropped (ctx : Context) (link : Link) : Prop where
  fits : ∀ sending ∈ link.sendings, isOverMtu ctx.options.mtu (sending.out ctx.options.mtu) = false
  transport : link.transport = link.sendings.map (Sending.out ctx.options.mtu)
  nOutOverMtu : link.nOutOverMtu = 0

def IdlePacketsEnd (ctx : Context) (link : Link) : Prop :=
  ∃ rounds link', sendIdlePackets ctx rounds link = some link' ∧ link'.reliability.ackQueue = []

theorem Kept.fits_of_hasRoom (h : Kept ctx link) (hroom : ∀ sending ∈ link.sendings, HasRoom ctx.options.mtu sending) :
    ∀ sending ∈ link.sendings, isOverMtu ctx.options.mtu (sending.out ctx.options.mtu) = false := by
  intro sending hsending
  have hfitting := h.fitting sending hsending
  have hroom := hroom sending hsending
  cases hmtu : ctx.options.mtu with
  | none => rfl
  | some limit =>
    rw [hmtu] at hroom
    exact not_isOverMtu_of_hasRoom (hfitting.size_le limit hmtu) hroom

theorem Kept.hasRoom_of_fits (h : Kept ctx link) (hlimit : ∀ limit ∈ ctx.options.mtu, limit < 65536)
    (hfits : ∀ sending ∈ link.sendings, isOverMtu ctx.options.mtu (sending.out ctx.options.mtu) = false) :
    ∀ sending ∈ link.sendings, HasRoom ctx.options.mtu sending := by
  intro sending hsending
  have hfitting := h.fitting sending hsending
  have hfits := hfits sending hsending
  cases hmtu : ctx.options.mtu with
  | none =>
    intro limit hlimit
    cases hlimit
  | some limit =>
    rw [hmtu] at hfits
    exact hasRoom_of_not_isOverMtu (hfitting.size_le limit hmtu) (hlimit limit hmtu) hfits

theorem Kept.nothingDropped (h : Kept ctx link)
    (hfits : ∀ sending ∈ link.sendings, isOverMtu ctx.options.mtu (sending.out ctx.options.mtu) = false) :
    NothingDropped ctx link := by
  have hall : ∀ pkt ∈ link.sendings.map (Sending.out ctx.options.mtu), isOverMtu ctx.options.mtu pkt = false :=
    List.forall_mem_map.mpr hfits
  refine ⟨hfits, ?_, ?_⟩
  · rw [h.transport, List.filter_eq_self.mpr fun pkt hpkt => by rw [hall pkt hpkt]; rfl]
  · rw [h.nOutOverMtu, List.countP_eq_zero.mpr fun pkt hpkt => by simp [hall pkt hpkt]]

theorem sendings_fit (hmtu : Fragments ctx.options) (h : Reachable ctx link) :
    ((∀ sending ∈ link.sendings, HasRoom ctx.options.mtu sending) → NothingDropped ctx link ∧ IdlePacketsEnd ctx link) ∧
    ((∀ limit ∈ ctx.options.mtu, limit < 65536) → NothingDropped ctx link →
      ∀ sending ∈ link.sendings, HasRoom ctx.options.mtu sending) := by
  have hkept := kept_of_reachable hmtu.limit_ge h
  constructor
  · intro hroom
    exact ⟨hkept.nothingDropped (hkept.fits_of_hasRoom hroom), link.reliability.ackQueue.length,
      sendIdlePackets_ends hmtu.limit_ge _ link (Nat.le_refl _)⟩
  · intro hlimit hnone
    exact hkept.hasRoom_of_fits hlimit hnone.fits

end Runs

section Example

def congestedContext : Context := ⟨⟨⟨3, 3, some 83⟩, 400, 100000000, fun _ => 100000000, 65536⟩, fun _ => ⟨some 70000, none, 1000⟩⟩

/-- The Interest `/a` with its hop count. -/
def interest : NetPacket where
  pkt := ⟨[⟨84, [0, 0, 0, 0, 0, 0, 0, 0]⟩, fragmentField (wire ⟨5, [7, 3, 8, 1, 97]⟩)]⟩
  netPkt := ⟨5, [7, 3, 8, 1, 97]⟩
  encodable := ⟨by decide, by decide⟩
  fragment := rfl
  unfragmented := by decide

theorem congested_fragments : Fragments congestedContext.options := ⟨interest, [interest.pkt], rfl⟩

def pending (ackQueue : List ℕ) : Link := { initial with reliability := { LpReliability.initial with ackQueue := ackQueue } }

def incoming (txSeq : ℕ) : LpPacket := ⟨[txSequenceField txSeq, fragmentField [5, 0]]⟩

theorem pending_three : Reachable congestedContext (pending [0, 1, 2]) :=
  .step (.step (.step .initial (.receive (incoming 0) rfl)) (.receive (incoming 1) rfl)) (.receive (incoming 2) rfl)

/-- Three Acks leave twelve octets of their space, and the mark is added to the Interest. -/
theorem sendings_fit_three : ∃ link, Reachable congestedContext link ∧ link.nCongestionMarked = 1 ∧
    link.transport.length = 1 ∧ NothingDropped congestedContext link ∧ IdlePacketsEnd congestedContext link := by
  have hsent := Reachable.step pending_three (.sendNetPacket interest true rfl)
  refine ⟨_, hsent, by decide, by decide, (sendings_fit congested_fragments hsent).1 fun sending hsending limit hlimit => ?_⟩
  obtain rfl := List.mem_singleton.mp hsending
  obtain rfl := Option.mem_some.mp hlimit
  exact Or.inl (by decide)

/-- The fourth Ack fills the space, and the mark goes over the MTU: the Interest and the Acks are dropped. -/
theorem interest_dropped_with_acks : ∃ link, Reachable congestedContext link ∧ Fragments congestedContext.options ∧
    link.reliability.ackQueue = [] ∧ link.transport = [] ∧ link.nOutOverMtu = 1 ∧
    ¬ (NothingDropped congestedContext link ∧ IdlePacketsEnd congestedContext link) := by
  refine ⟨_, .step (.step pending_three (.receive (incoming 3) rfl)) (.sendNetPacket interest true rfl), congested_fragments,
    by decide, by decide, by decide, fun h => ?_⟩
  have hnone := h.1.nOutOverMtu
  revert hnone
  decide

end Example

end LeoNdn.PiggybackRoom
