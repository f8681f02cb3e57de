import LeoNdn.LinkService
import LeoNdn.TlvEncoding

/-!
The sending side of the link service: a network packet is cut into fragments
that fit the MTU, and the fragments of one packet get consecutive sequence
numbers, which wrap around at 2^64.
-/

namespace LeoNdn.LpFragmenter

open LeoNdn.Tlv LeoNdn.TlvEncoding LeoNdn.LinkService

section Fields

def comparePos (first : ℕ) (second : Block) : Bool :=
  compareFieldSortOrder (FieldInfo.ofType first) (FieldInfo.ofType second.type)

/-- Adds a field where there is none of its type, so that `std::length_error` does
not come up. -/
def add (pkt : LpPacket) (block : Block) : LpPacket :=
  ⟨pkt.elements.takeWhile (fun element => ! comparePos block.type element) ++
    block :: pkt.elements.dropWhile (fun element => ! comparePos block.type element)⟩

def clear (pkt : LpPacket) (type : ℕ) : LpPacket := ⟨pkt.elements.filter (fun element => element.type ≠ type)⟩

def set (pkt : LpPacket) (block : Block) : LpPacket := add (clear pkt block.type) block

def sequenceField (sequence : ℕ) : Block := ⟨81, toBigEndian 8 sequence⟩

def fragIndexField (fragIndex : ℕ) : Block := makeNonNegativeIntegerBlock 82 fragIndex

def fragCountField (fragCount : ℕ) : Block := makeNonNegativeIntegerBlock 83 fragCount

def fragmentField (octets : List UInt8) : Block := ⟨80, octets⟩

/-- A packet without headers is the bare network packet; the front of no elements
is undefined in the source. -/
def wireEncode (pkt : LpPacket) : Except Exception Block :=
  match pkt.elements with
  | [fragment] =>
    if fragment.type = 80 then do
      let elements ← fragment.parse
      match elements with
      | [] => .error (.outOfRange "front")
      | netPkt :: _ => .ok netPkt
    else .ok (makeBlock 100 [fragment])
  | elements => .ok (makeBlock 100 elements)

def size (block : Block) : ℕ := (wire block).length

end Fields

section Fragmenting

def maxSingleFragOverhead : ℕ := 1 + 9 + (1 + 1 + 8) + (1 + 9)

def maxFragOverhead : ℕ := 1 + 9 + (1 + 1 + 8) + (1 + 1 + 8) + (1 + 1 + 8) + (1 + 9)

def firstHeaderSize (packet : LpPacket) (packetWire : Block) : ℕ :=
  if packetWire.type = 100 then
    ((packet.elements.filter (fun element => element.type ≠ 80)).map size).foldl (· + ·) 0
  else 0

def fragCount (netPktSize firstPayloadSize payloadSize : ℕ) : ℕ :=
  1 + (netPktSize - firstPayloadSize) / payloadSize +
    (if (netPktSize - firstPayloadSize) % payloadSize ≠ 0 then 1 else 0)

/-- The loop over `frags`: the octets that are left, how many of them the next
fragment takes, and its index. -/
def populateFragments (fragCount payloadSize : ℕ) : ℕ → ℕ → List UInt8 → List LpPacket → List LpPacket
  | _, _, _, [] => []
  | fragIndex, fragSize, octets, frag :: frags =>
    if octets = [] then frag :: frags
    else
      set (add (add frag (fragIndexField fragIndex)) (fragCountField fragCount)) (fragmentField (octets.take fragSize)) ::
        populateFragments fragCount payloadSize (fragIndex + 1) payloadSize (octets.drop fragSize) frags

/-- The fragments, or nothing where fragmentation fails. -/
def fragmentPacket (nMaxFragments mtu : ℕ) (packet : LpPacket) : Except Exception (Option (List LpPacket)) := do
  let packetWire ← wireEncode packet
  if maxSingleFragOverhead + size packetWire ≤ mtu then .ok (some [packet])
  else do
    let netPkt ← packet.get 80 decodeFragment
    let firstHeaderSize := firstHeaderSize packet packetWire
    if maxFragOverhead + firstHeaderSize + 1 > mtu then .ok none
    else
      let firstPayloadSize := min netPkt.length (mtu - firstHeaderSize - maxFragOverhead)
      let payloadSize := mtu - maxFragOverhead
      let fragCount := fragCount netPkt.length firstPayloadSize payloadSize
      if fragCount > nMaxFragments then .ok none
      else
        .ok (some (populateFragments fragCount payloadSize 0 firstPayloadSize netPkt
          (packet :: List.replicate (fragCount - 1) ⟨[]⟩)))

end Fragmenting

section Sending

def sequenceLimit : ℕ := 18446744073709551616

/-- The packet and the new `m_lastSeqNo`. -/
def assignSequence (lastSeqNo : ℕ) (pkt : LpPacket) : LpPacket × ℕ :=
  (set pkt (sequenceField ((lastSeqNo + 1) % sequenceLimit)), (lastSeqNo + 1) % sequenceLimit)

def assignSequences : ℕ → List LpPacket → List LpPacket × ℕ
  | lastSeqNo, [] => ([], lastSeqNo)
  | lastSeqNo, pkt :: pkts =>
    let (pkt, lastSeqNo) := assignSequence lastSeqNo pkt
    let (pkts, lastSeqNo) := assignSequences lastSeqNo pkts
    (pkt :: pkts, lastSeqNo)

structure SendOptions where
  allowFragmentation : Bool
  reliabilityIsEnabled : Bool
  allowCongestionMarking : Bool
  nMaxFragments : ℕ

/-- The MTU, if there is a limit, less the space for the fields that are added later;
the source asserts that some of it is left. -/
def reservedMtu (options : SendOptions) (mtu : Option ℕ) : Option ℕ :=
  mtu.map (fun mtu => mtu - (if options.reliabilityIsEnabled then 3 + 1 + 8 else 0) -
    (if options.allowCongestionMarking then 3 + 1 + 8 else 0))

/-- The fragments that `sendNetPacket` makes, or nothing where fragmentation fails. -/
def makeFragments (options : SendOptions) (mtu : Option ℕ) (pkt : LpPacket) : Except Exception (Option (List LpPacket)) :=
  match options.allowFragmentation, reservedMtu options mtu with
  | true, some mtu => fragmentPacket options.nMaxFragments mtu pkt
  | _, _ => .ok (some [pkt])

/-- `sendNetPacket` up to the fragments that go out, and the new `m_lastSeqNo`. -/
def sendNetPacket (options : SendOptions) (mtu : Option ℕ) (pkt : LpPacket) (lastSeqNo : ℕ) :
    Except Exception (List LpPacket × ℕ) := do
  let frags ← makeFragments options mtu pkt
  match frags with
  | none => .ok ([], lastSeqNo)
  | some frags => if frags.length > 1 then .ok (assignSequences lastSeqNo frags) else .ok (frags, lastSeqNo)

/-- The fragments of each packet that is sent, the MTU being read for each. -/
def sendNetPackets (options : SendOptions) : List (Option ℕ × LpPacket) → ℕ → Except Exception (List (List LpPacket))
  | [], _ => .ok []
  | (mtu, pkt) :: pkts, lastSeqNo => do
    let (frags, lastSeqNo) ← sendNetPacket options mtu pkt lastSeqNo
    let sent ← sendNetPackets options pkts lastSeqNo
    .ok (frags :: sent)

end Sending

section FieldLemmas

@[simp] theorem sequenceField_type (sequence : ℕ) : (sequenceField sequence).type = 81 := rfl

@[simp] theorem fragIndexField_type (fragIndex : ℕ) : (fragIndexField fragIndex).type = 82 := rfl

@[simp] theorem fragCountField_type (fragCount : ℕ) : (fragCountField fragCount).type = 83 := rfl

@[simp] theorem fragmentField_type (octets : List UInt8) : (fragmentField octets).type = 80 := rfl

variable {pkt : LpPacket} {block : Block} {type : ℕ}

theorem find_insert {before after : List Block} (block : Block) (type : ℕ) :
    find (before ++ block :: after) type =
      if block.type = type ∧ find before type = none then some block else find (before ++ after) type := by
  unfold find
  rw [List.find?_append, List.find?_append, List.find?_cons]
  cases before.find? (fun element => element.type = type) with
  | some element => simp
  | none => by_cases htype : block.type = type <;> simp [htype]

theorem elements_split (pkt : LpPacket) (type : ℕ) :
    pkt.elements.takeWhile (fun element => ! comparePos type element) ++
      pkt.elements.dropWhile (fun element => ! comparePos type element) = pkt.elements :=
  List.takeWhile_append_dropWhile

theorem find_add_ne (hne : block.type ≠ type) : find (add pkt block).elements type = find pkt.elements type := by
  rw [add, find_insert, if_neg (fun h => hne h.1), elements_split]

theorem find_add (hnone : find pkt.elements block.type = none) :
    find (add pkt block).elements block.type = some block := by
  rw [add, find_insert, if_pos]
  refine ⟨rfl, ?_⟩
  rw [← elements_split pkt block.type, find, List.find?_append, Option.or_eq_none_iff] at hnone
  exact hnone.1

theorem find_clear_ne {cleared : ℕ} (hne : cleared ≠ type) :
    find (clear pkt cleared).elements type = find pkt.elements type := by
  rw [clear, find, find, List.find?_filter]
  congr 1
  funext element
  by_cases htype : element.type = type
  · simp [htype, hne.symm]
  · simp [htype]

theorem find_clear (pkt : LpPacket) (type : ℕ) : find (clear pkt type).elements type = none := by
  rw [clear, find, List.find?_filter]
  simp

theorem find_set (pkt : LpPacket) (block : Block) : find (set pkt block).elements block.type = some block :=
  find_add (find_clear pkt block.type)

theorem find_set_ne (hne : block.type ≠ type) : find (set pkt block).elements type = find pkt.elements type := by
  rw [set, find_add_ne hne, find_clear_ne hne]

end FieldLemmas

section Pieces

/-- A fragment with its part of the network packet, before it has a sequence number. -/
structure Cut (frag : LpPacket) (index count : ℕ) (octets : List UInt8) : Prop where
  fragment : find frag.elements 80 = some (fragmentField octets)
  ne_nil : octets ≠ []
  fragIndex : find frag.elements 82 = some (fragIndexField index)
  fragCount : find frag.elements 83 = some (fragCountField count)

def fragmentOctets (pkt : LpPacket) : List UInt8 := (find pkt.elements 80).elim [] Block.value

theorem Cut.octets_eq {frag : LpPacket} {index count : ℕ} {octets : List UInt8} (h : Cut frag index count octets) :
    fragmentOctets frag = octets := by
  rw [fragmentOctets, h.fragment]
  rfl

theorem cut_set {frag : LpPacket} (index count : ℕ) {octets : List UInt8} (hindex : find frag.elements 82 = none)
    (hcount : find frag.elements 83 = none) (hne : octets ≠ []) :
    Cut (set (add (add frag (fragIndexField index)) (fragCountField count)) (fragmentField octets)) index count octets where
  fragment := find_set _ (fragmentField octets)
  ne_nil := hne
  fragIndex := by
    rw [find_set_ne (by simp), find_add_ne (by simp)]
    exact find_add hindex
  fragCount := by
    rw [find_set_ne (by simp)]
    refine find_add ?_
    rw [find_add_ne (by simp)]
    exact hcount

variable {payloadSize : ℕ}

theorem populateFragments_cut (fragCount : ℕ) {frags : List LpPacket}
    (hplain : ∀ frag ∈ frags, find frag.elements 82 = none ∧ find frag.elements 83 = none) (hpayload : 0 < payloadSize)
    (fragIndex fragSize : ℕ) (octets : List UInt8) (hsize : 0 < fragSize) (hne : octets ≠ [])
    (henough : octets.length ≤ fragSize + payloadSize * (frags.length - 1))
    (hneeded : frags.length ≤ 1 ∨ fragSize + payloadSize * (frags.length - 2) < octets.length) (hfrags : frags ≠ []) :
    (populateFragments fragCount payloadSize fragIndex fragSize octets frags).flatMap fragmentOctets = octets ∧
      (populateFragments fragCount payloadSize fragIndex fragSize octets frags).length = frags.length ∧
      ∀ j frag, (populateFragments fragCount payloadSize fragIndex fragSize octets frags)[j]? = some frag →
        ∃ part, Cut frag (fragIndex + j) fragCount part := by
  induction frags generalizing fragIndex fragSize octets with
  | nil => exact absurd rfl hfrags
  | cons frag frags ih =>
    have htake : octets.take fragSize ≠ [] := by
      rw [Ne, List.take_eq_nil_iff]
      exact fun h => h.elim (by omega) hne
    have hcut := cut_set fragIndex fragCount (hplain frag List.mem_cons_self).1
      (hplain frag List.mem_cons_self).2 htake
    rw [populateFragments, if_neg hne]
    cases frags with
    | nil =>
      have hall : octets.take fragSize = octets := List.take_of_length_le (by simpa using henough)
      refine ⟨?_, rfl, ?_⟩
      · rw [populateFragments, List.flatMap_cons, hcut.octets_eq, hall]
        simp
      · rintro (_ | j) frag' hfrag'
        · obtain rfl := Option.some.inj hfrag'
          exact ⟨_, hcut⟩
        · simp [populateFragments] at hfrag'
    | cons next frags =>
      simp only [List.length_cons, Nat.add_sub_cancel, Nat.mul_add, Nat.mul_one] at henough hneeded
      have hneeded' : fragSize + payloadSize * frags.length < octets.length := by
        rcases hneeded with h | h
        · omega
        · exact h
      have hlength : (octets.drop fragSize).length = octets.length - fragSize := List.length_drop
      obtain ⟨hjoin, hcount, hcuts⟩ := ih (fun frag hmem => hplain frag (List.mem_cons_of_mem _ hmem)) (fragIndex + 1)
        payloadSize (octets.drop fragSize) hpayload (by rw [Ne, List.drop_eq_nil_iff]; omega)
        (by simp only [List.length_cons, Nat.add_sub_cancel]; omega)
        (by
          cases frags with
          | nil => exact Or.inl le_rfl
          | cons _ frags =>
            have hmul : payloadSize * (frags.length + 1) = payloadSize * frags.length + payloadSize := Nat.mul_succ _ _
            refine Or.inr (show payloadSize + payloadSize * frags.length < _ from ?_)
            rw [List.length_cons, hmul] at hneeded'
            omega)
        (List.cons_ne_nil _ _)
      refine ⟨?_, by simp [hcount], ?_⟩
      · rw [List.flatMap_cons, hcut.octets_eq, hjoin, List.take_append_drop]
      · rintro (_ | j) frag' hfrag'
        · obtain rfl := Option.some.inj hfrag'
          exact ⟨_, hcut⟩
        · obtain ⟨part, hpart⟩ := hcuts j frag' hfrag'
          exact ⟨part, by rwa [show fragIndex + (j + 1) = fragIndex + 1 + j by omega]⟩

end Pieces

section Sequences

theorem assignSequences_fst (lastSeqNo : ℕ) (pkts : List LpPacket) : (assignSequences lastSeqNo pkts).1 =
    pkts.mapIdx (fun j pkt => set pkt (sequenceField ((lastSeqNo + 1 + j) % sequenceLimit))) := by
  induction pkts generalizing lastSeqNo with
  | nil => rfl
  | cons pkt pkts ih =>
    rw [assignSequences, List.mapIdx_cons]
    simp only [assignSequence, ih, Nat.add_zero]
    congr 3
    funext j
    rw [show ((lastSeqNo + 1) % sequenceLimit + 1 + j) % sequenceLimit = (lastSeqNo + 1 + (j + 1)) % sequenceLimit by
      simp only [sequenceLimit]; omega]

theorem assignSequences_snd {lastSeqNo : ℕ} {pkts : List LpPacket} (hne : pkts ≠ []) :
    (assignSequences lastSeqNo pkts).2 = (lastSeqNo + pkts.length) % sequenceLimit := by
  induction pkts generalizing lastSeqNo with
  | nil => exact absurd rfl hne
  | cons pkt pkts ih =>
    rw [assignSequences]
    simp only [assignSequence]
    cases pkts with
    | nil => rfl
    | cons next pkts =>
      rw [ih (List.cons_ne_nil _ _), List.length_cons, List.length_cons, List.length_cons]
      simp only [sequenceLimit]
      omega

/-- A fragment with its sequence number, `first` being that of the first fragment. -/
structure Sequenced (frag : LpPacket) (first index count : ℕ) (octets : List UInt8) : Prop
    extends Cut frag index count octets where
  sequence : find frag.elements 81 = some (sequenceField ((first + index) % sequenceLimit))

theorem Cut.set_sequence {frag : LpPacket} {index count : ℕ} {octets : List UInt8} (h : Cut frag index count octets)
    (first : ℕ) :
    Sequenced (set frag (sequenceField ((first + index) % sequenceLimit))) first index count octets where
  fragment := by rw [find_set_ne (by simp), h.fragment]
  ne_nil := h.ne_nil
  fragIndex := by rw [find_set_ne (by simp), h.fragIndex]
  fragCount := by rw [find_set_ne (by simp), h.fragCount]
  sequence := find_set _ (sequenceField _)

end Sequences

section Packets

/-- A network packet in a link-layer packet that is not a fragment of it. -/
structure NetPacket where
  pkt : LpPacket
  netPkt : Block
  encodable : Encodable netPkt
  fragment : find pkt.elements 80 = some (fragmentField (wire netPkt))
  unfragmented : ∀ type ∈ [81, 82, 83], find pkt.elements type = none

/-- What the link service makes of a network packet whose encoding is `content`. -/
inductive Fragmented (content : List UInt8) (first : ℕ) : List LpPacket → Prop
  | dropped : Fragmented content first []
  | whole {frag : LpPacket} (fragment : find frag.elements 80 = some (fragmentField content))
      (fragIndex : find frag.elements 82 = none ∨ find frag.elements 82 = some (fragIndexField 0))
      (fragCount : find frag.elements 83 = none ∨ find frag.elements 83 = some (fragCountField 1)) :
      Fragmented content first [frag]
  | cut {frags : List LpPacket} (several : 1 < frags.length) (join : frags.flatMap fragmentOctets = content)
      (pieces : ∀ j frag, frags[j]? = some frag → ∃ octets, Sequenced frag first j frags.length octets) :
      Fragmented content first frags

theorem parse_fragment (p : NetPacket) : (fragmentField (wire p.netPkt)).parse = .ok [p.netPkt] := by
  have hblock : (makeBlock 80 [p.netPkt]).parse = .ok [p.netPkt] := parse_makeBlock 80 (by simpa using p.encodable)
  simpa [makeBlock, fragmentField] using hblock

theorem wireEncode_ok (p : NetPacket) : ∃ block, wireEncode p.pkt = .ok block := by
  have hfragment := p.fragment
  unfold wireEncode
  cases helements : p.pkt.elements with
  | nil => exact ⟨_, rfl⟩
  | cons fragment elements =>
    cases elements with
    | cons next elements => exact ⟨_, rfl⟩
    | nil =>
      by_cases htype : fragment.type = 80
      · rw [helements, find, List.find?_cons_of_pos (by simpa using htype)] at hfragment
        obtain rfl := Option.some.inj hfragment
        simp only [fragmentField_type, if_true, parse_fragment p]
        exact ⟨_, rfl⟩
      · simp only [if_neg htype]
        exact ⟨_, rfl⟩

theorem get_fragment (p : NetPacket) : p.pkt.get 80 decodeFragment = .ok (wire p.netPkt) := by
  rw [LpPacket.get, p.fragment]
  exact if_neg (wire_ne_nil _)

theorem NetPacket.whole (p : NetPacket) (first : ℕ) : Fragmented (wire p.netPkt) first [p.pkt] :=
  .whole p.fragment (Or.inl (p.unfragmented 82 (by decide))) (Or.inl (p.unfragmented 83 (by decide)))

theorem fragCount_bounds (netPktSize firstPayloadSize : ℕ) {payloadSize : ℕ} (hpayload : 0 < payloadSize) :
    ∃ rounds, fragCount netPktSize firstPayloadSize payloadSize = rounds + 1 ∧
      netPktSize ≤ firstPayloadSize + payloadSize * rounds ∧
      (rounds = 0 ∨ firstPayloadSize + payloadSize * (rounds - 1) < netPktSize) := by
  generalize hleft : netPktSize - firstPayloadSize = left
  have hdiv := Nat.div_add_mod left payloadSize
  have hmod : left % payloadSize < payloadSize := Nat.mod_lt _ hpayload
  rw [fragCount, hleft]
  split
  · refine ⟨left / payloadSize + 1, by omega, ?_, Or.inr ?_⟩
    · rw [Nat.mul_add]
      omega
    · rw [Nat.add_sub_cancel]
      omega
  · refine ⟨left / payloadSize, by omega, by omega, ?_⟩
    cases hquot : left / payloadSize with
    | zero => exact Or.inl rfl
    | succ quot =>
      rw [hquot, Nat.mul_add] at hdiv
      rw [Nat.add_sub_cancel]
      exact Or.inr (by omega)

theorem fragmentPacket_cut {p : NetPacket} {nMaxFragments mtu : ℕ} {frags : List LpPacket}
    (h : fragmentPacket nMaxFragments mtu p.pkt = .ok (some frags)) :
    frags = [p.pkt] ∨ frags ≠ [] ∧ frags.flatMap fragmentOctets = wire p.netPkt ∧
      ∀ j frag, frags[j]? = some frag → ∃ octets, Cut frag j frags.length octets := by
  obtain ⟨packetWire, hwire⟩ := wireEncode_ok p
  simp only [fragmentPacket, hwire, get_fragment p, bind, Except.bind] at h
  split at h
  · exact Or.inl (Option.some.inj (Except.ok.inj h)).symm
  split at h
  · cases h
  rename_i hmtu
  split at h
  · cases h
  obtain rfl := Option.some.inj (Except.ok.inj h)
  refine Or.inr ?_
  have hlength : 0 < (wire p.netPkt).length := List.length_pos_iff.mpr (wire_ne_nil _)
  generalize hfirst : min (wire p.netPkt).length (mtu - firstHeaderSize p.pkt packetWire - maxFragOverhead) = first
  generalize hpayload : mtu - maxFragOverhead = payload
  obtain ⟨rounds, hrounds, henough, hneeded⟩ := fragCount_bounds (wire p.netPkt).length first (by omega : 0 < payload)
  rw [hrounds, Nat.add_sub_cancel]
  have hplain : ∀ frag ∈ p.pkt :: List.replicate rounds ⟨[]⟩,
      find frag.elements 82 = none ∧ find frag.elements 83 = none := by
    intro frag hmem
    rcases List.mem_cons.mp hmem with rfl | hmem
    · exact ⟨p.unfragmented 82 (by decide), p.unfragmented 83 (by decide)⟩
    · obtain rfl := List.eq_of_mem_replicate hmem
      exact ⟨rfl, rfl⟩
  have hlengths : (p.pkt :: List.replicate rounds ⟨[]⟩).length = rounds + 1 := by simp
  obtain ⟨hjoin, hcount, hcuts⟩ := populateFragments_cut (rounds + 1) hplain (by omega : 0 < payload) 0 first
    (wire p.netPkt) (by omega) (wire_ne_nil _) (by rwa [hlengths, Nat.add_sub_cancel])
    (by
      rw [hlengths, show rounds + 1 - 2 = rounds - 1 by omega]
      omega)
    (List.cons_ne_nil _ _)
  rw [hlengths] at hcount
  refine ⟨fun hnil => ?_, hjoin, fun j frag hfrag => ?_⟩
  · rw [hnil] at hcount
    cases hcount
  · obtain ⟨octets, hcut⟩ := hcuts j frag hfrag
    rw [Nat.zero_add] at hcut
    exact ⟨octets, by rwa [hcount]⟩

theorem fragmentPacket_ok (p : NetPacket) (nMaxFragments mtu : ℕ) :
    ∃ frags, fragmentPacket nMaxFragments mtu p.pkt = .ok frags := by
  obtain ⟨packetWire, hwire⟩ := wireEncode_ok p
  simp only [fragmentPacket, hwire, get_fragment p, bind, Except.bind]
  split
  · exact ⟨_, rfl⟩
  · split
    · exact ⟨_, rfl⟩
    · split <;> exact ⟨_, rfl⟩

end Packets

section Sent

variable {lastSeqNo : ℕ}

def assigned (frags : List LpPacket) : ℕ := if 1 < frags.length then frags.length else 0

theorem fragmented_assignSequences {content : List UInt8} {frags : List LpPacket} (hseveral : 1 < frags.length)
    (hjoin : frags.flatMap fragmentOctets = content)
    (hcuts : ∀ j frag, frags[j]? = some frag → ∃ octets, Cut frag j frags.length octets) :
    Fragmented content (lastSeqNo + 1) (assignSequences lastSeqNo frags).1 := by
  have hlength : (assignSequences lastSeqNo frags).1.length = frags.length := by
    rw [assignSequences_fst, List.length_mapIdx]
  have hoctets : ∀ (pkt : LpPacket) (sequence : ℕ),
      fragmentOctets (set pkt (sequenceField sequence)) = fragmentOctets pkt := by
    intro pkt sequence
    rw [fragmentOctets, find_set_ne (by simp)]
    rfl
  refine .cut (by rwa [hlength]) ?_ fun j frag hfrag => ?_
  · rw [← hjoin, List.flatMap_def, List.flatMap_def, assignSequences_fst]
    congr 1
    refine List.ext_getElem? fun j => ?_
    simp only [List.getElem?_map, List.getElem?_mapIdx, Option.map_map, Function.comp_def, hoctets]
  · rw [hlength]
    rw [assignSequences_fst, List.getElem?_mapIdx, Option.map_eq_some_iff] at hfrag
    obtain ⟨cut, hcut, rfl⟩ := hfrag
    obtain ⟨octets, hoctets⟩ := hcuts j cut hcut
    exact ⟨octets, hoctets.set_sequence (lastSeqNo + 1)⟩

theorem makeFragments_cut (options : SendOptions) (mtu : Option ℕ) (p : NetPacket) :
    ∃ frags, makeFragments options mtu p.pkt = .ok frags ∧ ∀ pkts, frags = some pkts → pkts = [p.pkt] ∨ pkts ≠ [] ∧
      pkts.flatMap fragmentOctets = wire p.netPkt ∧
      ∀ j frag, pkts[j]? = some frag → ∃ octets, Cut frag j pkts.length octets := by
  unfold makeFragments
  split
  · rename_i limit _ _
    obtain ⟨frags, hfrags⟩ := fragmentPacket_ok p options.nMaxFragments limit
    refine ⟨frags, hfrags, fun pkts hpkts => ?_⟩
    subst hpkts
    exact fragmentPacket_cut hfrags
  · exact ⟨_, rfl, fun pkts hpkts => Or.inl (Option.some.inj hpkts).symm⟩

theorem sendNetPacket_fragmented (options : SendOptions) (mtu : Option ℕ) (p : NetPacket) (hlast : lastSeqNo < sequenceLimit) :
    ∃ frags, sendNetPacket options mtu p.pkt lastSeqNo = .ok (frags, (lastSeqNo + assigned frags) % sequenceLimit) ∧
      Fragmented (wire p.netPkt) (lastSeqNo + 1) frags := by
  have hstay : lastSeqNo = (lastSeqNo + 0) % sequenceLimit := (Nat.mod_eq_of_lt hlast).symm
  obtain ⟨frags, hfrags, hcut⟩ := makeFragments_cut options mtu p
  simp only [sendNetPacket, hfrags, bind, Except.bind]
  cases frags with
  | none => exact ⟨[], by rw [assigned, if_neg (by simp), ← hstay], .dropped⟩
  | some pkts =>
    dsimp only
    rcases hcut pkts rfl with rfl | ⟨hne, hjoin, hcuts⟩
    · exact ⟨[p.pkt], by rw [if_neg (by simp), assigned, if_neg (by simp), ← hstay], p.whole _⟩
    · by_cases hseveral : 1 < pkts.length
      · refine ⟨_, ?_, fragmented_assignSequences hseveral hjoin hcuts⟩
        have hlength : (assignSequences lastSeqNo pkts).1.length = pkts.length := by
          rw [assignSequences_fst, List.length_mapIdx]
        rw [if_pos hseveral, assigned, if_pos (by rwa [hlength]), hlength, ← assignSequences_snd hne]
      · obtain ⟨pkt, rfl⟩ : ∃ pkt, pkts = [pkt] :=
          List.length_eq_one_iff.mp (by have := List.length_pos_iff.mpr hne; omega)
        refine ⟨[pkt], by rw [if_neg hseveral, assigned, if_neg hseveral, ← hstay], ?_⟩
        obtain ⟨octets, hcut⟩ := hcuts 0 pkt rfl
        have hoctets := hcut.octets_eq
        rw [List.flatMap_cons, List.flatMap_nil, List.append_nil, hoctets] at hjoin
        subst hjoin
        exact .whole hcut.fragment (Or.inr hcut.fragIndex) (Or.inr hcut.fragCount)

theorem Fragmented.congr {content : List UInt8} {first first' : ℕ} {frags : List LpPacket}
    (hfirst : first % sequenceLimit = first' % sequenceLimit) (h : Fragmented content first frags) :
    Fragmented content first' frags := by
  cases h with
  | dropped => exact .dropped
  | whole fragment fragIndex fragCount => exact .whole fragment fragIndex fragCount
  | cut several join pieces =>
    refine .cut several join fun j frag hfrag => ?_
    obtain ⟨octets, hpiece⟩ := pieces j frag hfrag
    have hmod : (first + j) % sequenceLimit = (first' + j) % sequenceLimit := by
      rw [Nat.add_mod, hfirst, ← Nat.add_mod]
    exact ⟨octets, hpiece.toCut, by rw [← hmod, hpiece.sequence]⟩

theorem sendNetPackets_fragmented (options : SendOptions) (pkts : List (Option ℕ × NetPacket))
    (hlast : lastSeqNo < sequenceLimit) :
    ∃ sent, sendNetPackets options (pkts.map (fun p => (p.1, p.2.pkt))) lastSeqNo = .ok sent ∧
      sent.length = pkts.length ∧ ∀ i p frags, pkts[i]? = some p → sent[i]? = some frags →
        Fragmented (wire p.2.netPkt) (lastSeqNo + 1 + ((sent.take i).map assigned).sum) frags := by
  induction pkts generalizing lastSeqNo with
  | nil => exact ⟨[], rfl, rfl, fun i p frags hp => by cases hp⟩
  | cons p pkts ih =>
    obtain ⟨frags, hfrags, hfragmented⟩ := sendNetPacket_fragmented options p.1 p.2 hlast
    obtain ⟨sent, hsent, hlength, hrest⟩ :=
      @ih ((lastSeqNo + assigned frags) % sequenceLimit) (Nat.mod_lt _ (by decide))
    refine ⟨frags :: sent, ?_, by rw [List.length_cons, hlength, List.length_cons], ?_⟩
    · simp only [List.map_cons, sendNetPackets, hfrags, hsent, bind, Except.bind]
    · rintro (_ | i) p' frags' hp' hfrags'
      · obtain rfl := Option.some.inj hp'
        obtain rfl := Option.some.inj hfrags'
        exact hfragmented
      · refine (hrest i p' frags' hp' hfrags').congr ?_
        rw [List.take_succ_cons, List.map_cons, List.sum_cons]
        simp only [sequenceLimit]
        omega

end Sent

end LeoNdn.LpFragmenter
