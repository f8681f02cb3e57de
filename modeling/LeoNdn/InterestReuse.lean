import LeoNdn.InterestCodec

/-!
Decoding a wire into an Interest that already holds another packet.
-/

namespace LeoNdn.InterestReuse

open LeoNdn.Tlv LeoNdn.NdnEncoding LeoNdn.TlvEncoding LeoNdn.InterestSelectors LeoNdn.InterestCodec LeoNdn.DelegationLists
open LeoNdn.NdnPacket hiding Interest
open LeoNdn.Loops (ok_of_bind)

section Format

/-- The elements are those of the old format, in its order. -/
def InOldFormat (elements : List Block) : Prop :=
  (elements.map Block.type).Sublist [7, 9, 10, 12, 30] ∧ 7 ∈ elements.map Block.type ∧ 10 ∈ elements.map Block.type

theorem takeType_some {type : ℕ} {elements rest : List Block} {element : Block}
    (h : takeType type elements = (some element, rest)) : element.type = type ∧ elements = element :: rest := by
  cases elements with
  | nil => cases h
  | cons first elements =>
    rw [takeType] at h
    split at h
    · rename_i htype
      cases h
      exact ⟨htype, rfl⟩
    · cases h

theorem takeType_none_eq {type : ℕ} {elements rest : List Block} (h : takeType type elements = (none, rest)) :
    rest = elements := by
  cases elements with
  | nil => cases h; rfl
  | cons first elements =>
    rw [takeType] at h
    split at h
    · cases h
    · cases h; rfl

theorem takeType_sublist (type : ℕ) (elements : List Block) (types : List ℕ) :
    (elements.map Block.type).Sublist (type :: types) ↔ ((takeType type elements).2.map Block.type).Sublist types := by
  cases elements with
  | nil => simp [takeType]
  | cons first elements =>
    rw [takeType]
    split
    · rename_i htype
      rw [List.map_cons, htype, List.cons_sublist_cons]
    · rename_i htype
      rw [List.map_cons, List.sublist_cons_iff]
      constructor
      · rintro (h | ⟨rest, heq, -⟩)
        · exact h
        · exact absurd (List.cons.inj heq).1 htype
      · exact Or.inl

end Format

section Decoding

variable {old interest : Interest} {elements : List Block}

theorem not_inOldFormat {type : ℕ} {rest : List Block} {types : List ℕ} (hnot : type ∉ types)
    (hsublist : InOldFormat elements → (rest.map Block.type).Sublist types ∧ type ∈ rest.map Block.type) :
    ¬ InOldFormat elements := by
  intro hformat
  obtain ⟨hrest, hmem⟩ := hsublist hformat
  exact hnot (hrest.subset hmem)

/-- Whether the packet is of the old format is told by the types of its elements,
and the fields are read from the elements alone. -/
theorem decode02_spec {isFormat02 : Bool} (h : old.decode02 elements = .ok (isFormat02, interest)) :
    (isFormat02 = true ↔ InOldFormat elements) ∧ ∀ other : Interest, ∃ interest' : Interest,
      other.decode02 elements = .ok (isFormat02, interest') ∧ interest'.m_wire = other.m_wire ∧
      (isFormat02 = true → interest' = { interest with m_parameters := other.m_parameters, m_wire := other.m_wire }) := by
  have hfirst := takeType_sublist 7 elements [9, 10, 12, 30]
  rcases hname : takeType 7 elements with ⟨_ | nameElement, afterName⟩
  · simp only [Interest.decode02, hname] at h ⊢
    cases h
    rw [hname] at hfirst
    obtain rfl := takeType_none_eq hname
    refine ⟨iff_of_false Bool.false_ne_true ?_, fun other => ⟨other, rfl, rfl, fun h => absurd h Bool.false_ne_true⟩⟩
    exact not_inOldFormat (by decide) fun hformat => ⟨hfirst.mp hformat.1, hformat.2.1⟩
  obtain ⟨htype, rfl⟩ := takeType_some hname
  rw [hname] at hfirst
  have hsecond := takeType_sublist 9 afterName [10, 12, 30]
  rcases hselectors : takeType 9 afterName with ⟨selectorsElement, afterSelectors⟩
  rw [hselectors] at hsecond
  have htypes : 10 ∈ (nameElement :: afterName).map Block.type ↔ 10 ∈ afterSelectors.map Block.type := by
    rw [List.map_cons, List.mem_cons, htype, or_iff_right (by decide)]
    cases selectorsElement with
    | none => rw [takeType_none_eq hselectors]
    | some element =>
      obtain ⟨htype', rfl⟩ := takeType_some hselectors
      rw [List.map_cons, List.mem_cons, htype', or_iff_right (by decide)]
  simp only [Interest.decode02, hname, hselectors] at h ⊢
  obtain ⟨name, hdecodeName, h⟩ := ok_of_bind h
  obtain ⟨selectors, hdecodeSelectors, h⟩ := ok_of_bind h
  simp only [hdecodeName, hdecodeSelectors, bind, Except.bind]
  have hthird := takeType_sublist 10 afterSelectors [12, 30]
  rcases hnonce : takeType 10 afterSelectors with ⟨_ | nonceElement, afterNonce⟩
  · rw [hnonce] at h hthird
    cases h
    obtain rfl := takeType_none_eq hnonce
    refine ⟨iff_of_false Bool.false_ne_true ?_, fun other => ⟨_, rfl, rfl, fun h => absurd h Bool.false_ne_true⟩⟩
    exact not_inOldFormat (by decide) fun hformat =>
      ⟨hthird.mp (hsecond.mp (hfirst.mp hformat.1)), htypes.mp hformat.2.2⟩
  obtain ⟨htype', rfl⟩ := takeType_some hnonce
  rw [hnonce] at hthird
  have hfourth := takeType_sublist 12 afterNonce [30]
  rcases hlifetime : takeType 12 afterNonce with ⟨lifetimeElement, afterLifetime⟩
  rw [hlifetime] at hfourth
  have hlast := takeType_sublist 30 afterLifetime []
  rcases hhint : takeType 30 afterLifetime with ⟨hintElement, afterHint⟩
  rw [hhint] at hlast
  simp only [hnonce, hlifetime, hhint] at h ⊢
  obtain ⟨nonce, hdecodeNonce, h⟩ := ok_of_bind h
  obtain ⟨lifetime, hdecodeLifetime, h⟩ := ok_of_bind h
  obtain ⟨forwardingHint, hdecodeHint, h⟩ := ok_of_bind h
  simp only [hdecodeNonce, hdecodeLifetime, hdecodeHint]
  cases h
  refine ⟨?_, fun other => ⟨_, rfl, rfl, fun _ => rfl⟩⟩
  have hten : 10 ∈ (nonceElement :: afterNonce).map Block.type := by
    rw [List.map_cons, htype']
    exact List.mem_cons_self
  have hseven : 7 ∈ (nameElement :: afterName).map Block.type := by
    rw [List.map_cons, htype]
    exact List.mem_cons_self
  rw [List.isEmpty_iff, InOldFormat, hfirst, hsecond, hthird, hfourth, hlast, List.sublist_nil, List.map_eq_nil_iff]
  exact ⟨fun hnil => ⟨hnil, hseven, htypes.mpr hten⟩, And.left⟩

theorem decode03_congr {other : Interest} (hwire : old.m_wire = other.m_wire) (elements : List Block) :
    old.decode03 elements = other.decode03 elements := by
  rw [Interest.decode03, Interest.decode03, hwire]

theorem decodeElements_cons {lastElement : ℕ} {element : Block}
    (h : Interest.decodeElements lastElement old (element :: elements) = .ok interest) :
    ∃ lastElement' next, Interest.decodeElements lastElement' next elements = .ok interest ∧
      next.m_parameters = if element.type = 35 then some element else old.m_parameters := by
  rw [Interest.decodeElements] at h
  split at h
  · rename_i htype
    split at h
    · cases h
    split at h
    · cases h
    exact ⟨_, _, h, by rw [htype]; rfl⟩
  split at h
  · rename_i htype
    split at h
    · cases h
    split at h
    · cases h
    exact ⟨_, _, h, by rw [htype]; rfl⟩
  split at h
  · rename_i htype
    split at h
    · cases h
    obtain ⟨forwardingHint, -, h⟩ := ok_of_bind h
    exact ⟨_, _, h, by rw [htype]; rfl⟩
  split at h
  · rename_i htype
    split at h
    · cases h
    obtain ⟨nonce, -, h⟩ := ok_of_bind h
    exact ⟨_, _, h, by rw [htype]; rfl⟩
  split at h
  · rename_i htype
    split at h
    · cases h
    obtain ⟨lifetime, -, h⟩ := ok_of_bind h
    exact ⟨_, _, h, by rw [htype]; rfl⟩
  split at h
  · rename_i htype
    split at h
    · exact ⟨_, _, h, by rw [htype]; rfl⟩
    split at h
    · cases h
    exact ⟨_, _, h, by rw [htype]; rfl⟩
  split at h
  · rename_i htype
    split at h
    · cases h
    exact ⟨_, _, h, by rw [if_pos htype]⟩
  · rename_i htype
    split at h
    · cases h
    exact ⟨_, _, h, by rw [if_neg htype]⟩

theorem decodeElements_parameters {lastElement : ℕ} (h : Interest.decodeElements lastElement old elements = .ok interest) :
    interest.m_parameters.isSome ↔ old.m_parameters.isSome ∨ 35 ∈ elements.map Block.type := by
  induction elements generalizing lastElement old with
  | nil =>
    cases h
    simp
  | cons element elements ih =>
    obtain ⟨lastElement', next, hrest, hparameters⟩ := decodeElements_cons h
    rw [ih hrest, hparameters, List.map_cons, List.mem_cons]
    by_cases htype : element.type = 35
    · simp [htype]
    · rw [if_neg htype, or_iff_right (Ne.symm htype)]

theorem decode03_parameters (h : old.decode03 elements = .ok interest) :
    interest.m_parameters.isSome ↔ 35 ∈ elements.map Block.type := by
  rw [Interest.decode03] at h
  rcases hname : takeType 7 elements with ⟨_ | nameElement, afterName⟩
  · rw [hname] at h
    cases h
  · obtain ⟨htype, rfl⟩ := takeType_some hname
    rw [hname] at h
    obtain ⟨name, -, h⟩ := ok_of_bind h
    split at h
    · cases h
    · rw [decodeElements_parameters h, List.map_cons, List.mem_cons, htype]
      simp

theorem not_parameters_of_inOldFormat (h : InOldFormat elements) : 35 ∉ elements.map Block.type :=
  fun hmem => absurd (h.1.subset hmem) (by decide)

end Decoding

section Wires

def HasElements (P : List Block → Prop) (wire : Block) : Prop := ∃ elements, wire.parse = .ok elements ∧ P elements

def HasParameters : Block → Prop := HasElements (fun elements => 35 ∈ elements.map Block.type)

variable {old interest first fresh : Interest} {generateWord32 generateWord32' : UInt32} {wire wire' : Block}

theorem hasElements_iff {P : List Block → Prop} {elements : List Block} (h : wire.parse = .ok elements) :
    HasElements P wire ↔ P elements := by
  constructor
  · rintro ⟨elements', h', hP⟩
    rw [h] at h'
    exact Except.ok.inj h' ▸ hP
  · exact fun hP => ⟨elements, h, hP⟩

theorem wireDecode_spec (h : old.wireDecode generateWord32 wire = .ok interest) (other : Interest) :
    ∃ interest', other.wireDecode generateWord32 wire = .ok interest' ∧
      (HasElements InOldFormat wire → interest.m_parameters = old.m_parameters ∧
        interest' = { interest with m_parameters := other.m_parameters }) ∧
      (¬ HasElements InOldFormat wire → interest' = interest ∧ (interest.m_parameters.isSome ↔ HasParameters wire)) := by
  obtain ⟨elements, hparse, h⟩ := ok_of_bind h
  rw [hasElements_iff hparse, HasParameters, hasElements_iff hparse]
  split at h
  · cases h
  rename_i htype
  obtain ⟨⟨isFormat02, between⟩, hdecode02, h⟩ := ok_of_bind h
  obtain ⟨hformat, hany⟩ := decode02_spec hdecode02
  obtain ⟨between', hdecode02', hwire', hsame⟩ := hany { other with m_wire := some wire }
  obtain ⟨again, hagain, hwire, hself⟩ := hany { old with m_wire := some wire }
  obtain ⟨-, rfl⟩ := Prod.mk.inj (Except.ok.inj (hagain.symm.trans hdecode02))
  simp only [Interest.wireDecode, hparse, if_neg htype, hdecode02', bind, Except.bind]
  cases isFormat02 with
  | true =>
    cases h
    refine ⟨between', rfl, fun _ => ?_, fun hnot => absurd (hformat.mp rfl) hnot⟩
    have hparameters : interest.m_parameters = old.m_parameters := by rw [hself rfl]
    rw [hsame rfl, hwire]
    exact ⟨hparameters, rfl⟩
  | false =>
    have hnot : ¬ InOldFormat elements := fun hold => Bool.false_ne_true (hformat.mpr hold)
    rw [decode03_congr (hwire'.trans hwire.symm)]
    obtain ⟨decoded, hdecode03, h⟩ := ok_of_bind h
    have hparameters := decode03_parameters hdecode03
    rw [hdecode03]
    split at h
    · rename_i hnonce
      cases h
      simp only [hnonce, Bool.false_eq_true, if_false, if_true]
      exact ⟨_, rfl, fun hold => absurd hold hnot, fun _ => ⟨rfl, hparameters⟩⟩
    · rename_i hnonce
      cases h
      simp only [hnonce, Bool.false_eq_true, if_false]
      exact ⟨_, rfl, fun hold => absurd hold hnot, fun _ => ⟨rfl, hparameters⟩⟩

structure SameObservable (interest interest' : Interest) : Prop where
  name : interest.m_name = interest'.m_name
  selectors : interest.m_selectors = interest'.m_selectors
  nonce : interest.m_nonce = interest'.m_nonce
  lifetime : interest.m_interestLifetime = interest'.m_interestLifetime
  forwardingHint : interest.m_forwardingHint = interest'.m_forwardingHint
  parameters : interest.m_parameters = interest'.m_parameters
  encoding : ∀ (setter : Interest.Setter) (generateWord32 : UInt32),
    interest.set setter >>= Interest.wireEncode generateWord32 = interest'.set setter >>= Interest.wireEncode generateWord32

/-- The second wire makes the same of an Interest that holds the first as of a new one. -/
def NothingSurvives (generateWord32 : UInt32) (first fresh : Interest) (wire : Block) : Prop :=
  ∃ reused, first.wireDecode generateWord32 wire = .ok reused ∧ SameObservable reused fresh

theorem ofWire_parameters (hfirst : Interest.ofWire generateWord32 wire = .ok first) :
    first.m_parameters.isSome ↔ HasParameters wire := by
  obtain ⟨_, -, hold, hnew⟩ := wireDecode_spec hfirst first
  by_cases hformat : HasElements InOldFormat wire
  · obtain ⟨elements, hparse, hin⟩ := hformat
    rw [(hold ⟨elements, hparse, hin⟩).1, HasParameters, hasElements_iff hparse]
    exact iff_of_false nofun (not_parameters_of_inOldFormat hin)
  · exact (hnew hformat).2

theorem nothingSurvives_iff (hfirst : Interest.ofWire generateWord32 wire = .ok first)
    (hfresh : Interest.ofWire generateWord32' wire' = .ok fresh) :
    NothingSurvives generateWord32' first fresh wire' ↔ ¬ HasParameters wire ∨ ¬ HasElements InOldFormat wire' := by
  obtain ⟨reused, hreused, hold, hnew⟩ := wireDecode_spec hfresh first
  have hsame : ∀ reused', first.wireDecode generateWord32' wire' = .ok reused' → reused' = reused := fun _ h =>
    Except.ok.inj (h.symm.trans hreused)
  by_cases hformat : HasElements InOldFormat wire'
  · obtain ⟨hnone, hreusedEq⟩ : fresh.m_parameters = none ∧ _ := hold hformat
    rw [or_iff_left (not_not.mpr hformat), ← ofWire_parameters hfirst, Option.not_isSome_iff_eq_none]
    constructor
    · rintro ⟨reused', hreused', hobservable⟩
      obtain rfl := hsame reused' hreused'
      have hparameters := hobservable.parameters
      rw [hreusedEq, hnone] at hparameters
      exact hparameters
    · intro hparameters
      refine ⟨reused, hreused, ?_⟩
      rw [hreusedEq, hparameters, ← hnone]
      exact ⟨rfl, rfl, rfl, rfl, rfl, rfl, fun _ _ => rfl⟩
  · refine iff_of_true ⟨reused, hreused, ?_⟩ (Or.inr hformat)
    rw [(hnew hformat).1]
    exact ⟨rfl, rfl, rfl, rfl, rfl, rfl, fun _ _ => rfl⟩

def aliceWire : Block := makeBlock 5 [⟨7, [8, 1, 97]⟩, ⟨10, [1, 2, 3, 4]⟩, ⟨35, [192]⟩]

def bobWire : Block := makeBlock 5 [⟨7, [8, 1, 98]⟩, ⟨10, [5, 6, 7, 8]⟩]

theorem parse_aliceWire : aliceWire.parse = .ok [⟨7, [8, 1, 97]⟩, ⟨10, [1, 2, 3, 4]⟩, ⟨35, [192]⟩] :=
  parse_elements (by decide) (by decide)

theorem parse_bobWire : bobWire.parse = .ok [⟨7, [8, 1, 98]⟩, ⟨10, [5, 6, 7, 8]⟩] :=
  parse_elements (by decide) (by decide)

theorem exists_of_isOk {ε α : Type} {x : Except ε α} (h : x.isOk = true) : ∃ a, x = .ok a := by
  cases x with
  | error e => cases h
  | ok a => exact ⟨a, rfl⟩

theorem ofWire_aliceWire : ∃ first, Interest.ofWire 9 aliceWire = .ok first := exists_of_isOk (by decide +kernel)

theorem ofWire_bobWire : ∃ fresh, Interest.ofWire 9 bobWire = .ok fresh := exists_of_isOk (by decide +kernel)

theorem nothingSurvives_iff_bob : ∃ first fresh, Interest.ofWire 9 bobWire = .ok first ∧
    Interest.ofWire 9 aliceWire = .ok fresh ∧ NothingSurvives 9 first fresh aliceWire := by
  obtain ⟨first, hfirst⟩ := ofWire_bobWire
  obtain ⟨fresh, hfresh⟩ := ofWire_aliceWire
  refine ⟨first, fresh, hfirst, hfresh, (nothingSurvives_iff hfirst hfresh).mpr (Or.inl ?_)⟩
  rw [HasParameters, hasElements_iff parse_bobWire]
  decide

theorem not_nothingSurvives_alice : ¬ ∀ (generateWord32 : UInt32) (wire wire' : Block) (first fresh : Interest),
    Interest.ofWire generateWord32 wire = .ok first → Interest.ofWire generateWord32 wire' = .ok fresh →
      NothingSurvives generateWord32 first fresh wire' := by
  intro h
  obtain ⟨first, hfirst⟩ := ofWire_aliceWire
  obtain ⟨fresh, hfresh⟩ := ofWire_bobWire
  obtain ⟨reused, hreused, hsame⟩ := h 9 aliceWire bobWire first fresh hfirst hfresh
  have hformat : HasElements InOldFormat bobWire := (hasElements_iff parse_bobWire).mpr (by unfold InOldFormat; decide)
  have hparameters : HasParameters aliceWire := (hasElements_iff parse_aliceWire).mpr (by decide)
  obtain ⟨reused', hreused', hold, -⟩ := wireDecode_spec hfresh first
  obtain ⟨hnone, rfl⟩ := hold hformat
  obtain rfl := Except.ok.inj (hreused.symm.trans hreused')
  have hsome := (ofWire_parameters hfirst).mpr hparameters
  have hsurvives : first.m_parameters = fresh.m_parameters := hsame.parameters
  rw [hsurvives, hnone] at hsome
  cases hsome

end Wires

end LeoNdn.InterestReuse
