import LeoNdn.LpFragmenter
import Mathlib.Tactic.SplitIfs

/-!
The sizes of link-layer packets, field by field, and the space that the fragments of
a network packet leave below the MTU.
-/

namespace LeoNdn.LpPacketSizes

open LeoNdn.Tlv LeoNdn.TlvEncoding LeoNdn.LinkService LeoNdn.LpFragmenter
open LeoNdn.Loops (ok_of_bind)

variable {pkt : LpPacket} {block : Block} {type : ℕ}

section Fields

/-- The TLV-LENGTH of the encoded packet. -/
def valueSize (pkt : LpPacket) : ℕ := (pkt.elements.flatMap wire).length

def fieldSize (pkt : LpPacket) (type : ℕ) : ℕ := ((pkt.elements.filter (fun element => element.type = type)).flatMap wire).length

theorem size_makeBlock (pkt : LpPacket) :
    size (makeBlock 100 pkt.elements) = 1 + (encodeVarNumber (valueSize pkt)).length + valueSize pkt := length_wire _

theorem valueSize_add (pkt : LpPacket) (block : Block) : valueSize (add pkt block) = valueSize pkt + size block := by
  rw [valueSize, valueSize, ← elements_split pkt block.type, add]
  simp only [List.flatMap_append, List.flatMap_cons, List.length_append, size]
  omega

theorem fieldSize_add_ne (hne : block.type ≠ type) : fieldSize (add pkt block) type = fieldSize pkt type := by
  rw [fieldSize, add, List.filter_append, List.filter_cons_of_neg (by simpa using hne), ← List.filter_append, elements_split]
  rfl

theorem valueSize_clear (pkt : LpPacket) (type : ℕ) : valueSize (clear pkt type) + fieldSize pkt type = valueSize pkt := by
  have hperm := List.filter_append_perm (fun element => decide (element.type = type)) pkt.elements
  have hlength := (hperm.flatMap_right wire).length_eq
  rw [List.flatMap_append, List.length_append] at hlength
  simp only [valueSize, fieldSize, clear, ne_eq, decide_not]
  omega

theorem valueSize_set (pkt : LpPacket) (block : Block) :
    valueSize (set pkt block) = valueSize (clear pkt block.type) + size block := valueSize_add _ _

theorem valueSize_clear_le (pkt : LpPacket) (type : ℕ) : valueSize (clear pkt type) ≤ valueSize pkt := by
  have hclear := valueSize_clear pkt type
  omega

theorem clear_set (pkt : LpPacket) (block : Block) : clear (set pkt block) block.type = clear pkt block.type := by
  have hplain : (clear pkt block.type).elements.filter (fun element => element.type ≠ block.type) =
      (clear pkt block.type).elements := by
    rw [clear, List.filter_filter]
    simp
  rw [LpFragmenter.set, add, clear, List.filter_append, List.filter_cons_of_neg (by simp), ← List.filter_append,
    elements_split, hplain]

def Headed (pkt : LpPacket) : Prop := pkt.elements = [] ∨ ∃ element ∈ pkt.elements, element.type ≠ 80

theorem headed_add (hne : block.type ≠ 80) (pkt : LpPacket) : Headed (add pkt block) :=
  Or.inr ⟨block, by simp [add], hne⟩

theorem Headed.wireEncode_eq (h : Headed pkt) : wireEncode pkt = .ok (makeBlock 100 pkt.elements) := by
  unfold wireEncode
  split
  · rename_i fragment helements
    split
    · rename_i htype
      rcases h with hnil | ⟨element, hmem, hne⟩
      · rw [helements] at hnil
        cases hnil
      · rw [helements, List.mem_singleton] at hmem
        rw [hmem] at hne
        exact absurd htype hne
    · rw [helements]
  · rfl

end Fields

section FieldSizes

theorem size_sequenceField (sequence : ℕ) : size (sequenceField sequence) = 10 := by
  rw [size, length_wire, sequenceField, toBigEndian_length]
  rfl

theorem length_encodeNonNegativeInteger_le (value : ℕ) : (encodeNonNegativeInteger value).length ≤ 8 := by
  unfold encodeNonNegativeInteger
  split_ifs <;> rw [toBigEndian_length] <;> decide

theorem size_number_le (htype : type < 253) (value : ℕ) : size (makeNonNegativeIntegerBlock type value) ≤ 10 := by
  have hlength := length_encodeNonNegativeInteger_le value
  rw [size, length_wire, makeNonNegativeIntegerBlock, length_encodeVarNumber, length_encodeVarNumber, if_pos htype,
    if_pos (by dsimp only; omega)]
  dsimp only
  omega

theorem length_encodeVarNumber_le (number : ℕ) : (encodeVarNumber number).length ≤ 9 := by
  rw [length_encodeVarNumber]
  split_ifs <;> decide

theorem size_fragmentField_le (octets : List UInt8) : size (fragmentField octets) ≤ 10 + octets.length := by
  have hlength := length_encodeVarNumber_le octets.length
  have htype : (encodeVarNumber 80).length = 1 := rfl
  rw [size, length_wire, fragmentField]
  dsimp only
  omega

end FieldSizes

section Fragments

variable {payloadSize : ℕ}

theorem valueSize_cut_le (frag : LpPacket) (fragIndex fragCount : ℕ) (octets : List UInt8) :
    valueSize (set (add (add frag (fragIndexField fragIndex)) (fragCountField fragCount)) (fragmentField octets)) ≤
      valueSize (clear frag 80) + 30 + octets.length := by
  have hindex : size (fragIndexField fragIndex) ≤ 10 := size_number_le (by decide) fragIndex
  have hcount : size (fragCountField fragCount) ≤ 10 := size_number_le (by decide) fragCount
  have hfragment := size_fragmentField_le octets
  have hadded : valueSize (add (add frag (fragIndexField fragIndex)) (fragCountField fragCount)) =
      valueSize frag + size (fragIndexField fragIndex) + size (fragCountField fragCount) := by
    rw [valueSize_add, valueSize_add]
  have hfields : fieldSize (add (add frag (fragIndexField fragIndex)) (fragCountField fragCount)) 80 = fieldSize frag 80 := by
    rw [fieldSize_add_ne (by simp), fieldSize_add_ne (by simp)]
  have hbefore := valueSize_clear frag 80
  have hafter := valueSize_clear (add (add frag (fragIndexField fragIndex)) (fragCountField fragCount)) 80
  rw [valueSize_set, fragmentField_type]
  omega

theorem populateFragments_small (fragCount fragIndex : ℕ) (octets : List UInt8) {frags : List LpPacket}
    (hempty : ∀ frag ∈ frags, frag = ⟨[]⟩) :
    ∀ frag ∈ populateFragments fragCount payloadSize fragIndex payloadSize octets frags, valueSize frag ≤ 30 + payloadSize := by
  induction frags generalizing fragIndex octets with
  | nil =>
    intro frag hfrag
    cases hfrag
  | cons next frags ih =>
    obtain rfl := hempty next List.mem_cons_self
    have hrest := fun frag hfrag => hempty frag (List.mem_cons_of_mem _ hfrag)
    rw [populateFragments]
    split
    · rintro frag (_ | ⟨_, hfrag⟩)
      · exact Nat.zero_le _
      · rw [hrest frag hfrag]
        exact Nat.zero_le _
    · rintro frag (_ | ⟨_, hfrag⟩)
      · have hcut := valueSize_cut_le ⟨[]⟩ fragIndex fragCount (octets.take payloadSize)
        have hnone : valueSize (clear ⟨[]⟩ 80) = 0 := rfl
        rw [hnone, List.length_take] at hcut
        omega
      · exact ih (fragIndex + 1) (octets.drop payloadSize) hrest frag hfrag

theorem firstHeaderSize_eq {packetWire : Block} (h : wireEncode pkt = .ok packetWire) :
    firstHeaderSize pkt packetWire = valueSize (clear pkt 80) := by
  have hsum (elements : List Block) (n : ℕ) :
      (elements.map size).foldl (· + ·) n = n + (elements.flatMap wire).length := by
    induction elements generalizing n with
    | nil => rfl
    | cons element elements ih =>
      rw [List.map_cons, List.foldl_cons, ih, List.flatMap_cons, List.length_append, size]
      omega
  rw [firstHeaderSize, hsum, Nat.zero_add, valueSize, clear]
  split
  · rfl
  · rename_i htype
    obtain ⟨elements⟩ := pkt
    unfold wireEncode at h
    split at h
    · rename_i fragment helements
      obtain rfl : elements = [fragment] := helements
      split at h
      · rename_i hfragment
        simp [hfragment]
      · obtain rfl := Except.ok.inj h
        exact absurd rfl htype
    · obtain rfl := Except.ok.inj h
      exact absurd rfl htype

/-- A packet with a fragment that is no part of a network packet yet; without other
headers it is the network packet itself. -/
structure Unfragmented where
  pkt : LpPacket
  octets : List UInt8
  fragment : find pkt.elements 80 = some (fragmentField octets)
  unindexed : ∀ type ∈ [82, 83], find pkt.elements type = none
  bare : pkt.elements = [fragmentField octets] → ∃ netPkt, Encodable netPkt ∧ octets = wire netPkt

def Unfragmented.ofNetPacket (p : NetPacket) : Unfragmented where
  pkt := p.pkt
  octets := wire p.netPkt
  fragment := p.fragment
  unindexed type htype := p.unfragmented type (List.mem_cons_of_mem 81 htype)
  bare _ := ⟨p.netPkt, p.encodable, rfl⟩

theorem Unfragmented.get_fragment (p : Unfragmented) {netPkt : List UInt8} (h : p.pkt.get 80 decodeFragment = .ok netPkt) :
    netPkt = p.octets ∧ p.octets ≠ [] := by
  rw [LpPacket.get, p.fragment] at h
  dsimp only at h
  rw [decodeFragment] at h
  split at h
  · cases h
  · rename_i hne
    exact ⟨(Except.ok.inj h).symm, hne⟩

theorem Unfragmented.wireEncode_cases (p : Unfragmented) {packetWire : Block} (h : wireEncode p.pkt = .ok packetWire) :
    packetWire = makeBlock 100 p.pkt.elements ∨
      p.pkt.elements = [fragmentField p.octets] ∧ p.octets = wire packetWire := by
  have hfragment := p.fragment
  unfold wireEncode at h
  split at h
  · rename_i fragment helements
    split at h
    · rename_i htype
      rw [helements, find, List.find?_cons_of_pos (by simpa using htype)] at hfragment
      obtain rfl := Option.some.inj hfragment
      obtain ⟨netPkt, hencodable, hoctets⟩ := p.bare helements
      have hparse : (fragmentField p.octets).parse = .ok [netPkt] := by
        have hblock : (makeBlock 80 [netPkt]).parse = .ok [netPkt] := parse_makeBlock 80 (by simpa using hencodable)
        simpa [makeBlock, fragmentField, hoctets] using hblock
      rw [hparse] at h
      obtain rfl := Except.ok.inj h
      exact Or.inr ⟨helements, hoctets⟩
    · rw [helements]
      exact Or.inl (Except.ok.inj h).symm
  · exact Or.inl (Except.ok.inj h).symm

theorem valueSize_le_size {p : Unfragmented} {packetWire : Block} (h : wireEncode p.pkt = .ok packetWire) :
    valueSize p.pkt ≤ size packetWire + 10 := by
  rcases p.wireEncode_cases h with rfl | ⟨helements, hoctets⟩
  · have hsize := size_makeBlock p.pkt
    omega
  · have hsize := size_fragmentField_le p.octets
    rw [valueSize, helements, List.flatMap_cons, List.flatMap_nil, List.append_nil]
    rw [hoctets, size] at hsize
    rw [hoctets, size]
    omega

def firstSize (p : Unfragmented) (mtu : ℕ) : ℕ :=
  min p.octets.length (mtu - valueSize (clear p.pkt 80) - maxFragOverhead)

def countOf (p : Unfragmented) (mtu : ℕ) : ℕ := fragCount p.octets.length (firstSize p mtu) (mtu - maxFragOverhead)

theorem fragmentPacket_cases {p : Unfragmented} {nMaxFragments mtu : ℕ} {frags : List LpPacket}
    (h : fragmentPacket nMaxFragments mtu p.pkt = .ok (some frags)) :
    ∃ packetWire, wireEncode p.pkt = .ok packetWire ∧
      ((maxSingleFragOverhead + size packetWire ≤ mtu ∧ frags = [p.pkt]) ∨
        (mtu < maxSingleFragOverhead + size packetWire ∧ p.octets ≠ [] ∧
          maxFragOverhead + valueSize (clear p.pkt 80) < mtu ∧
          frags = populateFragments (countOf p mtu) (mtu - maxFragOverhead) 0 (firstSize p mtu) p.octets
            (p.pkt :: List.replicate (countOf p mtu - 1) ⟨[]⟩))) := by
  obtain ⟨packetWire, hwire, h⟩ := ok_of_bind h
  refine ⟨packetWire, hwire, ?_⟩
  split at h
  · rename_i hfast
    exact Or.inl ⟨hfast, (Option.some.inj (Except.ok.inj h)).symm⟩
  rename_i hslow
  obtain ⟨netPkt, hget, h⟩ := ok_of_bind h
  obtain ⟨rfl, hne⟩ := p.get_fragment hget
  rw [firstHeaderSize_eq hwire] at h
  dsimp only at h
  split at h
  · cases h
  rename_i hmtu
  split at h
  · cases h
  exact Or.inr ⟨by omega, hne, by omega, (Option.some.inj (Except.ok.inj h)).symm⟩

theorem fragmentPacket_small {p : Unfragmented} {nMaxFragments mtu : ℕ} {frags : List LpPacket}
    (h : fragmentPacket nMaxFragments mtu p.pkt = .ok (some frags)) : ∀ frag ∈ frags, valueSize frag + 20 ≤ mtu := by
  obtain ⟨packetWire, hwire, ⟨hfast, rfl⟩ | ⟨-, hne, hmtu, rfl⟩⟩ := fragmentPacket_cases h
  · intro frag hfrag
    obtain rfl := List.mem_singleton.mp hfrag
    have hsize := valueSize_le_size hwire
    rw [maxSingleFragOverhead] at hfast
    omega
  · rw [maxFragOverhead] at hmtu
    rw [populateFragments, if_neg hne]
    rintro frag (_ | ⟨_, hfrag⟩)
    · have hcut := valueSize_cut_le p.pkt 0 (countOf p mtu) (p.octets.take (firstSize p mtu))
      rw [List.length_take] at hcut
      have hfirst : firstSize p mtu ≤ mtu - valueSize (clear p.pkt 80) - 50 := Nat.min_le_right _ _
      omega
    · have hsmall := populateFragments_small _ _ _ (fun frag => List.eq_of_mem_replicate) frag hfrag
      rw [maxFragOverhead] at hsmall
      omega

end Fragments

end LeoNdn.LpPacketSizes
