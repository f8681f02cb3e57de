import LeoNdn.LpPacketSizes

/-!
What `fragmentPacket` makes of a link-layer packet: fragments that fit the MTU
with a sequence number, carry the payload in order, and leave the other headers
to the first of them.
-/

namespace LeoNdn.FragmentedPackets

open LeoNdn.Tlv LeoNdn.TlvEncoding LeoNdn.LinkService LeoNdn.LpFragmenter LeoNdn.LpPacketSizes

/-- A field that is not repeatable, such as the fragment, is there once. -/
structure LinkPacket extends Unfragmented where
  single : pkt.elements.filter (fun element => element.type = 80) = [fragmentField octets]

section Headers

def otherHeaders (pkt : LpPacket) : List Block := pkt.elements.filter (fun element => element.type ∉ [80, 82, 83])

variable {pkt : LpPacket} {block : Block}

theorem otherHeaders_add (h : block.type ∈ [80, 82, 83]) (pkt : LpPacket) :
    otherHeaders (add pkt block) = otherHeaders pkt := by
  rw [otherHeaders, add, List.filter_append, List.filter_cons_of_neg (by simpa only [decide_eq_true_eq, not_not] using h),
    ← List.filter_append, elements_split, otherHeaders]

theorem otherHeaders_clear (pkt : LpPacket) : otherHeaders (clear pkt 80) = otherHeaders pkt := by
  rw [otherHeaders, clear, List.filter_filter, otherHeaders]
  congr 1
  funext element
  by_cases htype : element.type = 80 <;> simp [htype]

theorem otherHeaders_cut (frag : LpPacket) (fragIndex fragCount : ℕ) (octets : List UInt8) :
    otherHeaders (set (add (add frag (fragIndexField fragIndex)) (fragCountField fragCount)) (fragmentField octets)) =
      otherHeaders frag := by
  rw [LpFragmenter.set, otherHeaders_add (by simp), fragmentField_type, otherHeaders_clear, otherHeaders_add (by simp),
    otherHeaders_add (by simp)]

theorem populateFragments_otherHeaders (fragCount payloadSize fragIndex fragSize : ℕ) (octets : List UInt8)
    (frags : List LpPacket) :
    (populateFragments fragCount payloadSize fragIndex fragSize octets frags).map otherHeaders =
      frags.map otherHeaders := by
  induction frags generalizing fragIndex fragSize octets with
  | nil => rfl
  | cons frag frags ih =>
    rw [populateFragments]
    split
    · rfl
    · rw [List.map_cons, List.map_cons, otherHeaders_cut, ih]

end Headers

section Fitting

variable {p : LinkPacket} {mtu : ℕ} {packetWire : Block}

theorem valueSize_eq (p : LinkPacket) : valueSize p.pkt = valueSize (clear p.pkt 80) + size (fragmentField p.octets) := by
  have hclear := valueSize_clear p.pkt 80
  have hfield : fieldSize p.pkt 80 = size (fragmentField p.octets) := by
    rw [fieldSize, p.single, List.flatMap_singleton, size]
  omega

theorem size_le (h : wireEncode p.pkt = .ok packetWire) :
    size packetWire ≤ 20 + valueSize (clear p.pkt 80) + p.octets.length := by
  rcases p.wireEncode_cases h with rfl | ⟨-, hoctets⟩
  · have hsize := size_makeBlock p.pkt
    have hvalue := valueSize_eq p
    have hfragment := size_fragmentField_le p.octets
    have hlength := length_encodeVarNumber_le (valueSize p.pkt)
    omega
  · rw [hoctets, size]
    omega

theorem countOf_slow (h : wireEncode p.pkt = .ok packetWire) (hslow : mtu < maxSingleFragOverhead + size packetWire)
    (hmtu : maxFragOverhead + valueSize (clear p.pkt 80) < mtu) :
    ∃ rounds, countOf p.toUnfragmented mtu = rounds + 2 ∧
      p.octets.length ≤ firstSize p.toUnfragmented mtu + (mtu - maxFragOverhead) * (rounds + 1) ∧
      firstSize p.toUnfragmented mtu + (mtu - maxFragOverhead) * rounds < p.octets.length := by
  have hsize := size_le h
  rw [maxSingleFragOverhead] at hslow
  rw [maxFragOverhead] at hmtu
  have hfirst : firstSize p.toUnfragmented mtu < p.octets.length := by
    rw [firstSize, maxFragOverhead]
    omega
  obtain ⟨rounds, hrounds, henough, hneeded⟩ := fragCount_bounds p.octets.length (firstSize p.toUnfragmented mtu)
    (by rw [maxFragOverhead]; omega : 0 < mtu - maxFragOverhead)
  cases rounds with
  | zero =>
    rw [Nat.mul_zero] at henough
    omega
  | succ rounds =>
    refine ⟨rounds, hrounds, henough, ?_⟩
    rw [Nat.add_sub_cancel] at hneeded
    exact hneeded.resolve_left (Nat.succ_ne_zero rounds)

theorem fits_sequence {frag : LpPacket} (hsmall : valueSize frag + 20 ≤ mtu) (sequence : ℕ) :
    ∃ block, wireEncode (set frag (sequenceField sequence)) = .ok block ∧ size block ≤ mtu := by
  have hheaded : Headed (set frag (sequenceField sequence)) := headed_add (by simp) _
  refine ⟨_, hheaded.wireEncode_eq, ?_⟩
  have hset := valueSize_set frag (sequenceField sequence)
  have hclear := valueSize_clear_le frag (sequenceField sequence).type
  have hsequence := size_sequenceField sequence
  have hlength := length_encodeVarNumber_le (valueSize (set frag (sequenceField sequence)))
  rw [size_makeBlock]
  omega

end Fitting

section Results

def FastPath (pkt : LpPacket) (mtu : ℕ) : Prop :=
  ∃ packetWire, wireEncode pkt = .ok packetWire ∧ maxSingleFragOverhead + size packetWire ≤ mtu

structure Fragments (p : LinkPacket) (mtu : ℕ) (frags : List LpPacket) : Prop where
  fits : ∀ frag ∈ frags, ∀ sequence, ∃ block, wireEncode (set frag (sequenceField sequence)) = .ok block ∧ size block ≤ mtu
  single_iff : frags.length = 1 ↔ FastPath p.pkt mtu
  unindexed : FastPath p.pkt mtu → ∀ frag ∈ frags, ∀ type ∈ [82, 83], find frag.elements type = none
  indexed : ¬ FastPath p.pkt mtu → 2 ≤ frags.length ∧ ∀ j frag, frags[j]? = some frag →
    find frag.elements 82 = some (fragIndexField j) ∧ find frag.elements 83 = some (fragCountField frags.length)
  join : frags.flatMap fragmentOctets = p.octets
  headers : frags.map otherHeaders = otherHeaders p.pkt :: List.replicate (frags.length - 1) []

variable {p : LinkPacket} {nMaxFragments mtu : ℕ} {frags : List LpPacket}

theorem fragments_whole (hfast : FastPath p.pkt mtu) (hfits : valueSize p.pkt + 20 ≤ mtu) : Fragments p mtu [p.pkt] where
  fits frag hfrag := by
    obtain rfl := List.mem_singleton.mp hfrag
    exact fits_sequence hfits
  single_iff := iff_of_true rfl hfast
  unindexed _ frag hfrag := by
    obtain rfl := List.mem_singleton.mp hfrag
    exact p.unindexed
  indexed hslow := absurd hfast hslow
  join := by
    rw [List.flatMap_singleton, fragmentOctets, p.fragment]
    rfl
  headers := rfl

theorem fragments_cut {packetWire : Block} (hwire : wireEncode p.pkt = .ok packetWire)
    (hslow : mtu < maxSingleFragOverhead + size packetWire) (hne : p.octets ≠ [])
    (hmtu : maxFragOverhead + valueSize (clear p.pkt 80) < mtu)
    (hfrags : frags = populateFragments (countOf p.toUnfragmented mtu) (mtu - maxFragOverhead) 0
      (firstSize p.toUnfragmented mtu) p.octets
      (p.pkt :: List.replicate (countOf p.toUnfragmented mtu - 1) ⟨[]⟩))
    (hsmall : ∀ frag ∈ frags, valueSize frag + 20 ≤ mtu) : Fragments p mtu frags := by
  obtain ⟨rounds, hcount, henough, hneeded⟩ := countOf_slow hwire hslow hmtu
  have hnotFast : ¬ FastPath p.pkt mtu := by
    rintro ⟨packetWire', hwire', hfast⟩
    rw [hwire] at hwire'
    rw [← Except.ok.inj hwire'] at hfast
    omega
  have hfirst : 0 < firstSize p.toUnfragmented mtu := by
    have hpos := List.length_pos_iff.mpr hne
    rw [firstSize]
    omega
  rw [hcount, show rounds + 2 - 1 = rounds + 1 from rfl] at hfrags
  have hlengths : (p.pkt :: List.replicate (rounds + 1) ⟨[]⟩).length = rounds + 2 := by
    rw [List.length_cons, List.length_replicate]
  have hplain : ∀ frag ∈ p.pkt :: List.replicate (rounds + 1) ⟨[]⟩,
      find frag.elements 82 = none ∧ find frag.elements 83 = none := by
    intro frag hmem
    rcases List.mem_cons.mp hmem with rfl | hmem
    · exact ⟨p.unindexed 82 (by decide), p.unindexed 83 (by decide)⟩
    · obtain rfl := List.eq_of_mem_replicate hmem
      exact ⟨rfl, rfl⟩
  obtain ⟨hjoin, hlength, hcuts⟩ := populateFragments_cut (rounds + 2) hplain
    (by omega : 0 < mtu - maxFragOverhead) 0 (firstSize p.toUnfragmented mtu) p.octets hfirst hne
    (by rwa [hlengths]) (by rw [hlengths]; exact Or.inr hneeded) (List.cons_ne_nil _ _)
  have hheaders := populateFragments_otherHeaders (rounds + 2) (mtu - maxFragOverhead) 0
    (firstSize p.toUnfragmented mtu) p.octets (p.pkt :: List.replicate (rounds + 1) ⟨[]⟩)
  rw [← hfrags] at hjoin hlength hcuts hheaders
  rw [hlengths] at hlength
  refine ⟨fun frag hfrag => fits_sequence (hsmall frag hfrag), ?_, fun hfast => absurd hfast hnotFast, fun _ => ?_,
    hjoin, ?_⟩
  · rw [hlength]
    exact iff_of_false (by omega) hnotFast
  · refine ⟨by omega, fun j frag hfrag => ?_⟩
    obtain ⟨octets, hcut⟩ := hcuts j frag hfrag
    rw [hlength, ← Nat.zero_add j]
    exact ⟨hcut.fragIndex, hcut.fragCount⟩
  · rw [hheaders, hlength, List.map_cons, List.map_replicate]
    rfl

theorem fragmentPacket_fragments (p : LinkPacket) (nMaxFragments mtu : ℕ) (frags : List LpPacket)
    (h : fragmentPacket nMaxFragments mtu p.pkt = .ok (some frags)) : Fragments p mtu frags := by
  have hsmall := fragmentPacket_small h
  obtain ⟨packetWire, hwire, ⟨hfast, rfl⟩ | ⟨hslow, hne, hmtu, hfrags⟩⟩ := fragmentPacket_cases h
  · exact fragments_whole ⟨packetWire, hwire, hfast⟩ (hsmall p.pkt List.mem_cons_self)
  · exact fragments_cut hwire hslow hne hmtu hfrags hsmall

def markedPacket : LinkPacket where
  pkt := ⟨[⟨832, [1]⟩, fragmentField (List.replicate 60 7)]⟩
  octets := List.replicate 60 7
  fragment := rfl
  unindexed := by decide
  bare h := by cases h
  single := rfl

theorem fragmentPacket_fragments_marked : ∃ frags, fragmentPacket 400 80 markedPacket.pkt = .ok (some frags) ∧
    Fragments markedPacket 80 frags :=
  ⟨_, rfl, fragmentPacket_fragments markedPacket 400 80 _ rfl⟩

end Results

end LeoNdn.FragmentedPackets
