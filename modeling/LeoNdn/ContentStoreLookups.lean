import LeoNdn.ContentStoreScans
import LeoNdn.PriorityFifo

/-!
The lookups of the Content Store: exactly when the Data that is found is the one that the
selectors of the Interest ask for.
-/

namespace LeoNdn.ContentStoreSearch

open Std
open LeoNdn.Tlv LeoNdn.NdnPacket LeoNdn.InterestSelectors LeoNdn.ContentStoreTable LeoNdn.EntryOrder
open LeoNdn.DataMatches (ValidName name_of_matches)
open LeoNdn.ForwardingTables (hasDigest)
open LeoNdn.SortedLists (prefix_takeWhile find?_first)

section Starts

variable {computeDigest : Data → Vector UInt8 32} {matching : Stored → Bool} {name : Name} {table : List Stored}
  {stored : Stored} {comp : Component}

theorem take_lastOf (hne : name ≠ []) : table.take (lastOf computeDigest table name) =
    table.takeWhile (isBefore computeDigest (.query (Name.getSuccessor name))) := by
  rw [lastOf, if_pos (List.length_pos_iff.mpr hne), lowerBound]
  exact (List.prefix_iff_eq_take.mp (List.takeWhile_prefix _)).symm

theorem take_lastOf_nil : table.take (lastOf computeDigest table []) = table := by
  rw [lastOf, if_neg (by decide), List.take_length]

theorem mem_lastOf (hsorted : Sorted computeDigest table) : stored ∈ table.take (lastOf computeDigest table name) ↔
    stored ∈ table ∧ (name = [] ∨ isBefore computeDigest (.query (Name.getSuccessor name)) stored = true) := by
  by_cases hne : name = []
  · rw [hne, take_lastOf_nil]
    exact (and_iff_left (Or.inl rfl)).symm
  · rw [take_lastOf hne, (initial_isBefore hsorted _).mem_takeWhile, or_iff_right hne]

theorem not_mem_drop (hsorted : Sorted computeDigest table) {last : ℕ} (htake : stored ∈ table.take last) :
    stored ∉ table.drop last := by
  intro hdrop
  rw [← List.take_append_drop last table] at hsorted
  have hless := precedes_iff.mp ((List.pairwise_append.mp hsorted).2.2 stored htake stored hdrop)
  exact OrientedCmp.not_lt_of_lt hless hless

theorem isBefore_getSuccessor (hcomp : Component.ensureValid comp = .ok comp)
    (h : isBefore computeDigest (.query (name ++ [comp])) stored = true) :
    isBefore computeDigest (.query (Name.getSuccessor (name ++ [comp]))) stored = true := by
  have hnext : compareNames (name ++ [Component.getSuccessor comp]) (name ++ [comp]) = .gt := by
    rw [compareNames_append]
    exact compareNames_cons_gt.mpr (Or.inl (getSuccessor_gt comp))
  rw [isBefore_iff_gt] at h ⊢
  refine TransCmp.gt_trans ?_ h
  rw [getSuccessor_append, nameKey_append, nameKey_append]
  cases hdigest : isImplicitSha256Digest comp with
  | false =>
    rw [isImplicitSha256Digest_getSuccessor hcomp hdigest, if_neg Bool.false_ne_true, if_neg Bool.false_ne_true,
      compareKeys_plain_gt]
    exact hnext
  | true =>
    rw [if_pos rfl]
    split
    · rw [compareKeys_gt, compareNames_self]
      exact Or.inr ⟨rfl, compareNames_cons_gt.mpr (Or.inl (getSuccessor_gt comp))⟩
    · rw [compareKeys_plain_gt]
      exact compareNames_longer (List.prefix_refl _)

theorem inRange_full (h : name = getFullName computeDigest stored.entry.m_data)
    (hname : ValidName name) (hvalid : ValidName (nameOf stored)) : InRange computeDigest name stored := by
  have happend : name = nameOf stored ++ [digestOf computeDigest stored.entry.m_data] := h
  rw [happend]
  exact (inRange_digest (hname _ (happend ▸ by simp)) (isImplicitSha256Digest_digestOf _) hvalid).mpr (Or.inl rfl)

theorem mem_lastOf_of_inRange (hsorted : Sorted computeDigest table) (hstored : stored ∈ table)
    (h : InRange computeDigest name stored) : stored ∈ table.take (lastOf computeDigest table name) :=
  (mem_lastOf hsorted).mpr ⟨hstored, Or.inr (isBefore_iff_gt.mpr h.2)⟩

theorem inRange_under (hname : ValidName name) (hne : name ≠ []) (hvalid : ValidName (nameOf stored))
    (hdigest : ∀ comp ∈ name.getLast?, isImplicitSha256Digest comp = true → (incremented comp.value).1 = true)
    (h : name <+: nameOf stored) : InRange computeDigest name stored := by
  induction name using List.reverseRecOn with
  | nil => exact absurd rfl hne
  | append_singleton name comp =>
    have hcomp := hname comp (by simp)
    cases hplain : isImplicitSha256Digest comp with
    | false => exact (inRange_plain hcomp hplain hvalid).mpr h
    | true =>
      have hmax := hdigest comp (by simp) hplain
      exact (inRange_digest hcomp hplain hvalid).mpr (Or.inr ⟨hmax, comp, hplain, h⟩)

theorem scanned_of_inRange (hname : ValidName name) (hvalid : ValidName (nameOf stored))
    (h : InRange computeDigest name stored) (hne : name ≠ []) : Scanned computeDigest name stored := by
  induction name using List.reverseRecOn with
  | nil => exact absurd rfl hne
  | append_singleton name comp =>
    have hcomp := hname comp (by simp)
    cases hplain : isImplicitSha256Digest comp with
    | false => exact Scanned.under ((inRange_plain hcomp hplain hvalid).mp h)
    | true =>
      rcases (inRange_digest hcomp hplain hvalid).mp h with hfull | ⟨hmax, inner, hinner, hnext⟩
      · exact Scanned.full hfull
      · by_cases heq : inner = comp
        · exact Scanned.under (heq ▸ hnext)
        · exact Scanned.beside name comp inner rfl hplain hmax hinner heq hnext

theorem not_taken_of_digest (hcomp : Component.ensureValid comp = .ok comp) (hdigest : isImplicitSha256Digest comp = true)
    (hmax : (incremented comp.value).1 = false) (hinner : HasInner (name ++ [comp]) table)
    (hbefore : isBefore computeDigest (.query (Name.getSuccessor (name ++ [comp]))) stored = true) :
    ¬ Taken computeDigest table (name ++ [comp]) stored := by
  intro htaken
  obtain ⟨other, hother, inner, hinner, hnext⟩ := hinner
  have hnot := htaken other hother inner hinner hnext
  have hsucc : isImplicitSha256Digest (Component.getSuccessor comp) = true := by
    have htype := (isImplicitSha256Digest_iff hcomp).mp hdigest
    have hlength := (ensureValid_iff.mp hcomp).2.2 (Or.inl htype)
    rw [getSuccessor_eq, if_neg (by simp [hmax]), isImplicitSha256Digest, length_incremented, hlength, htype]
    rfl
  rw [getSuccessor_append, isBefore_iff_gt, nameKey_append, if_pos hsucc, compareKeys_digest_gt] at hbefore
  rw [Bool.eq_false_iff, Ne, isBefore_iff_gt, nameKey_append, if_pos hinner, compareKeys_digest_gt] at hnot
  refine hnot (Or.inl ?_)
  have hlonger : compareNames (name ++ [comp]) name = .gt := compareNames_longer (List.prefix_refl _)
  rcases hbefore with hgt | ⟨heq, -⟩
  · exact TransCmp.gt_trans hlonger hgt
  · exact heq ▸ hlonger

theorem scan_initial (hsorted : Sorted computeDigest table) (htable : ValidTable table) (hname : ValidName name)
    (hnamed : Named computeDigest matching table name) (hhidden : ¬ Hidden matching table name) :
    Scan computeDigest matching name table (table.take (lastOf computeDigest table name))
      (table.drop (lastOf computeDigest table name)) := by
  have hunder : (∀ comp ∈ name.getLast?, isImplicitSha256Digest comp = true → (incremented comp.value).1 = true) →
      ∀ stored ∈ table, name <+: nameOf stored → stored ∈ table.take (lastOf computeDigest table name) := by
    intro hdigest stored hstored hprefixed
    by_cases hne : name = []
    · exact (mem_lastOf hsorted).mpr ⟨hstored, Or.inl hne⟩
    · exact mem_lastOf_of_inRange hsorted hstored (inRange_under hname hne (htable stored hstored) hdigest hprefixed)
  refine ⟨(List.take_append_drop _ _).symm, ?_, fun stored hstored hnot => ?_, fun stored hstored => ?_, ?_⟩
  · induction name using List.reverseRecOn with
    | nil => rw [take_lastOf_nil]; exact List.takeWhile_prefix _
    | append_singleton name comp =>
      rw [take_lastOf (by simp)]
      exact prefix_takeWhile (List.takeWhile_prefix _) fun stored hstored =>
        isBefore_getSuccessor (hname comp (by simp)) (List.mem_takeWhile_imp hstored)
  · obtain ⟨hmem, hnil | hbefore⟩ := (mem_lastOf hsorted).mp hstored
    · exact Scanned.under (hnil ▸ List.nil_prefix)
    · by_cases hne : name = []
      · exact Scanned.under (hne ▸ List.nil_prefix)
      · refine scanned_of_inRange hname (htable stored hmem) ⟨fun hgt => ?_, isBefore_iff_gt.mp hbefore⟩ hne
        rw [isBefore_iff_gt.mpr hgt] at hnot
        cases hnot
  · by_contra hmatching
    rw [Bool.not_eq_false] at hmatching
    have hmem := List.mem_of_mem_drop hstored
    refine not_mem_drop hsorted ?_ hstored
    rcases hnamed stored hmem hmatching with hfull | hprefixed
    · exact mem_lastOf_of_inRange hsorted hmem (inRange_full hfull hname (htable stored hmem))
    · refine hunder (fun comp hcomp hdigest => ?_) stored hmem hprefixed
      by_contra hmax
      exact hhidden ⟨comp, hcomp, hdigest, Bool.eq_false_iff.mpr hmax, stored, hmem, hmatching, hprefixed⟩
  · by_cases hdigest : ∀ comp ∈ name.getLast?, isImplicitSha256Digest comp = true → (incremented comp.value).1 = true
    · exact Or.inl fun stored hstored comp _ hnext => hunder hdigest stored hstored ((List.prefix_append _ _).trans hnext)
    · by_cases hinner : HasInner name table
      · refine Or.inr fun stored hstored => ?_
        simp only [not_forall] at hdigest
        obtain ⟨comp, hlast, hcomp, hmax⟩ := hdigest
        obtain ⟨rest, rfl⟩ := List.getLast?_eq_some_iff.mp hlast
        have hbefore := ((mem_lastOf hsorted).mp hstored).2.resolve_left (by simp)
        exact not_taken_of_digest (hname comp (by simp)) hcomp (Bool.eq_false_iff.mpr hmax) hinner hbefore
      · exact Or.inl fun stored hstored comp hcomp hnext => absurd ⟨stored, hstored, comp, hcomp, hnext⟩ hinner

end Starts

section Verdicts

variable {computeDigest : Data → Vector UInt8 32} {matching : Stored → Bool} {name : Name} {table : List Stored}
  {stored other found : Stored} {comp : Component}

theorem Named.next_of_le (hnamed : Named computeDigest matching table name) (hother : other ∈ table)
    (hholds : matching other = true) (hfound : name ++ [comp] <+: nameOf found)
    (hle : compareNames (nameOf found) (nameOf other) ≠ .gt) : ∃ next, name ++ [next] <+: nameOf other := by
  rcases hnamed other hother hholds with hfull | hunder
  · have hlonger : nameOf other ++ [digestOf computeDigest other.entry.m_data] <+: nameOf found := by
      have hprefixed := (List.prefix_append name [comp]).trans hfound
      rw [hfull] at hprefixed
      exact hprefixed
    exact absurd (compareNames_longer hlonger) hle
  · refine exists_next hunder (Nat.lt_of_le_of_ne hunder.length_le fun hequal => ?_)
    rw [← hunder.eq_of_length hequal] at hle
    exact hle (compareNames_longer hfound)

theorem Confused.to_mixed (h : Confused computeDigest matching table name) : Mixed computeDigest matching table name := by
  obtain ⟨stored, hstored, _, _, _, hholds, _, htaken, _⟩ := h.two
  exact ⟨h.inner, h.plain, stored, hstored, hholds, htaken⟩

theorem Answer.not_confused (h : Answer computeDigest matching table name found)
    (hnamed : Named computeDigest matching table name) (hrightmost : IsRightmost computeDigest matching table name found) :
    ¬ Confused computeDigest matching table name := by
  intro hconfused
  obtain ⟨htaken, hfirst⟩ := h.mixed hconfused.to_mixed
  obtain ⟨first, hmem, second, hmem', hne, hholds, hholds', htaken₁, htaken₂, happart⟩ := hconfused.two
  cases hrightmost with
  | under comp mem holds next greatest =>
    have hnext : ∀ other ∈ table, matching other = true → Taken computeDigest table name other →
        name ++ [comp] <+: nameOf other := by
      intro other hother hother' htaken'
      have hle : compareNames (nameOf found) (nameOf other) ≠ .gt := by
        rcases hfirst other hother hother' htaken' with rfl | hless
        · rw [compareNames_self]
          decide
        · exact hless.names
      obtain ⟨comp', hcomp'⟩ := hnamed.next_of_le hother hother' next hle
      have hle₁ := Ordering.isLE_iff_ne_gt.mpr (next_le next hcomp' hle)
      have hle₂ := Ordering.isLE_iff_ne_gt.mpr (greatest other hother hother' comp' hcomp')
      rw [LawfulEqCmp.eq_of_compare (OrientedCmp.isLE_antisymm hle₁ hle₂)]
      exact hcomp'
    exact happart ⟨comp, hnext first hmem hholds htaken₁, hnext second hmem' hholds' htaken₂⟩
  | exact short last =>
    have heq : ∀ other ∈ table, matching other = true → Taken computeDigest table name other → other = found := by
      intro other hother hother' htaken'
      rcases hfirst other hother hother' htaken' with heq | hless
      · exact heq
      · rcases last.last other hother hother' with heq | hless'
        · exact heq
        · exact absurd (precedes_iff.mp hless') (OrientedCmp.not_lt_of_lt (precedes_iff.mp hless))
    exact hne ((heq first hmem hholds htaken₁).trans (heq second hmem' hholds' htaken₂).symm)

theorem Answer.rightmost_of_not_confused (h : Answer computeDigest matching table name found)
    (hconfused : ¬ Confused computeDigest matching table name) :
    IsRightmost computeDigest matching table name found := by
  by_cases hmixed : Mixed computeDigest matching table name
  · obtain ⟨htaken, hfirst⟩ := h.mixed hmixed
    have hsame : ∀ other ∈ table, matching other = true → Taken computeDigest table name other → other ≠ found →
        ∃ comp, name ++ [comp] <+: nameOf found ∧ name ++ [comp] <+: nameOf other := by
      intro other hother hholds htaken' hne
      by_contra hnone
      exact hconfused ⟨hmixed.inner, hmixed.plain, found, h.mem, other, hother, hne.symm, h.holds, hholds, htaken, htaken',
        hnone⟩
    by_cases hlonger : ∃ other ∈ table, matching other = true ∧ ∃ comp, name ++ [comp] <+: nameOf other
    · obtain ⟨comp, hcomp⟩ : ∃ comp, name ++ [comp] <+: nameOf found := by
        obtain ⟨other, hother, hholds, comp, hcomp⟩ := hlonger
        by_cases heq : other = found
        · exact ⟨comp, heq ▸ hcomp⟩
        · obtain ⟨comp', hcomp', -⟩ := hsame other hother hholds (taken_of_next hcomp) heq
          exact ⟨comp', hcomp'⟩
      refine IsRightmost.under comp h.mem h.holds hcomp (fun other hother hholds next hnext => ?_)
        fun other hother hholds hnext => hfirst other hother hholds (taken_of_next hnext)
      have heq : next = comp := by
        by_cases heq : other = found
        · exact next_unique (heq ▸ hnext) hcomp
        · obtain ⟨comp', hcomp', hnext'⟩ := hsame other hother hholds (taken_of_next hnext) heq
          exact (next_unique hnext hnext').trans (next_unique hcomp' hcomp)
      rw [heq]
      exact compareComponents_self_ne_gt comp
    · have hshort : ∀ other ∈ table, matching other = true → ∀ comp, ¬ name ++ [comp] <+: nameOf other :=
        fun other hother hholds comp hcomp => hlonger ⟨other, hother, hholds, comp, hcomp⟩
      refine IsRightmost.exact hshort ⟨h.mem, h.holds, fun other hother hholds => ?_⟩
      by_cases htaken' : Taken computeDigest table name other
      · refine Or.inl ?_
        by_contra hne
        obtain ⟨comp, hcomp, -⟩ := hsame other hother hholds htaken' hne
        exact hshort found h.mem h.holds comp hcomp
      · -- before a place that what is found is not before
        simp only [Taken, not_forall] at htaken'
        obtain ⟨later, hlater, comp, hcomp, hnext, hbefore⟩ := htaken'
        have hnot := htaken later hlater comp hcomp hnext
        rw [Bool.not_eq_false, isBefore_iff_gt] at hbefore
        rw [Bool.eq_false_iff, Ne, isBefore_iff_gt] at hnot
        have hle := Ordering.isLE_iff_ne_gt.mpr hnot
        exact Or.inr (precedes_iff.mpr (TransCmp.lt_of_lt_of_isLE (OrientedCmp.lt_of_gt hbefore) hle))
  · exact h.rightmost hmixed

end Verdicts

section Lookups

variable {computeDigest : Data → Vector UInt8 32} {keyLocatorOf : Data → Option Block} {now : ℤ} {name : Name}
  {selectors : Selectors} {table : List Stored}

variable (computeDigest keyLocatorOf now name selectors) in
theorem named_satisfies (htable : ValidTable table) :
    Named computeDigest (satisfies computeDigest keyLocatorOf now name selectors) table name := by
  intro stored hstored hholds
  have hmatches := (Bool.and_eq_true_iff.mp hholds).1
  exact (name_of_matches (htable stored hstored) hmatches).imp_left fun h => h.2

theorem eq_of_it (hnodup : (table.map Stored.it).Nodup) {stored other : Stored} (hstored : stored ∈ table)
    (hother : other ∈ table) (heq : stored.it = other.it) : stored = other :=
  List.inj_on_of_nodup_map hnodup hstored hother heq

theorem inRange_of_mem (hsorted : Sorted computeDigest table) (hne : name ≠ []) {stored : Stored}
    (hstored : stored ∈ table.take (lastOf computeDigest table name))
    (hnot : isBefore computeDigest (.query name) stored = false) : InRange computeDigest name stored := by
  refine ⟨fun hgt => ?_, isBefore_iff_gt.mp (((mem_lastOf hsorted).mp hstored).2.resolve_left hne)⟩
  rw [isBefore_iff_gt.mpr hgt] at hnot
  cases hnot

theorem Hidden.full {matching : Stored → Bool} (hidden : Hidden matching table name)
    (hsorted : Sorted computeDigest table) (htable : ValidTable table) (hname : ValidName name)
    (hnamed : Named computeDigest matching table name) {found : Stored}
    (hfound : found ∈ table.take (lastOf computeDigest table name)) (hholds : matching found = true) :
    name = getFullName computeDigest found.entry.m_data := by
  obtain ⟨comp, hlast, hdigest, hmax, -⟩ := hidden
  obtain ⟨rest, rfl⟩ := List.getLast?_eq_some_iff.mp hlast
  have hmem := ((mem_lastOf hsorted).mp hfound).1
  have hrange := inRange_of_mem hsorted (by simp) hfound (hnamed.not_isBefore hmem hholds)
  rcases (inRange_digest (hname comp (by simp)) hdigest (htable found hmem)).mp hrange with hfull | ⟨hmax', -⟩
  · exact hfull
  · rw [hmax] at hmax'
    cases hmax'

theorem Hidden.not_rightmost {matching : Stored → Bool} (hidden : Hidden matching table name)
    (hsorted : Sorted computeDigest table) (htable : ValidTable table) (hname : ValidName name)
    (hnamed : Named computeDigest matching table name) {found : Stored}
    (hfound : found ∈ table.take (lastOf computeDigest table name)) (hholds : matching found = true) :
    ¬ IsRightmost computeDigest matching table name found := by
  have hfull : name = nameOf found ++ [digestOf computeDigest found.entry.m_data] :=
    hidden.full hsorted htable hname hnamed hfound hholds
  obtain ⟨_, -, -, -, other, hother, hmatching, hunder⟩ := hidden
  intro hrightmost
  cases hrightmost with
  | under next mem holds hnext greatest first =>
    have hlength := hnext.length_le
    rw [hfull] at hlength
    simp at hlength
  | exact short last =>
    rw [hfull] at hunder
    have hgt : compareNames (nameOf other) (nameOf found) = .gt := compareNames_longer hunder
    rcases last.last other hother hmatching with rfl | hless
    · rw [compareNames_self] at hgt
      cases hgt
    · exact hless.names hgt

variable (computeDigest name table) in
theorem length_take_lastOf : (table.take (lastOf computeDigest table name)).length = lastOf computeDigest table name := by
  rw [List.length_take, Nat.min_eq_left]
  rw [lastOf]
  split
  · exact (List.takeWhile_sublist _).length_le
  · exact Nat.le_refl _

theorem findRightmost_right_of_some
    (hsorted : Sorted computeDigest table) (htable : ValidTable table) (hnodup : (table.map Stored.it).Nodup)
    (hname : ValidName name)
    (hsome : ∃ stored ∈ table, satisfies computeDigest keyLocatorOf now name selectors stored = true)
    (hhidden : ¬ Hidden (satisfies computeDigest keyLocatorOf now name selectors) table name) :
    Right (satisfies computeDigest keyLocatorOf now name selectors) table
      (IsRightmost computeDigest (satisfies computeDigest keyLocatorOf now name selectors) table name)
      (findRightmost computeDigest keyLocatorOf now name selectors table (lowerBound computeDigest table (.query name))
        (lastOf computeDigest table name + 1) (lastOf computeDigest table name)) ↔
      ¬ Confused computeDigest (satisfies computeDigest keyLocatorOf now name selectors) table name := by
  have hnamed := named_satisfies computeDigest keyLocatorOf now name selectors htable
  have hscan := scan_initial hsorted htable hname hnamed hhidden
  obtain ⟨stored, hstored, hholds⟩ := hsome
  obtain ⟨found, hanswer, hfind⟩ := findRightmost_found hscan hsorted htable hnamed
    ⟨stored, hscan.mem_entries hstored hholds, hholds⟩ (Nat.lt_succ_self _)
  rw [length_take_lastOf] at hfind
  rw [hfind]
  constructor
  · rintro ⟨other, hother, hit, hrightmost⟩
    rw [eq_of_it hnodup hother hanswer.mem hit] at hrightmost
    exact hanswer.not_confused hnamed hrightmost
  · exact fun hconfused => ⟨found, hanswer.mem, rfl, hanswer.rightmost_of_not_confused hconfused⟩

theorem exists_digest (h : hasDigest name = true) :
    ∃ rest comp, name = rest ++ [comp] ∧ isImplicitSha256Digest comp = true := by
  cases hlast : name.getLast? with
  | none =>
    rw [hasDigest, hlast] at h
    cases h
  | some comp =>
    obtain ⟨rest, rfl⟩ := List.getLast?_eq_some_iff.mp hlast
    rw [hasDigest, hlast] at h
    exact ⟨rest, comp, rfl, h⟩

theorem mem_of_inRange_same (hsorted : Sorted computeDigest table) (htable : ValidTable table) (hname : ValidName name)
    (hdigest : hasDigest name = true) {stored other : Stored} (hstored : InRange computeDigest name stored)
    (hmem : stored ∈ table) (hlength : (nameOf stored).length = name.length) (hother : other ∈ table) {comp : Component}
    (hnext : nameOf stored ++ [comp] <+: nameOf other) : other ∈ table.take (lastOf computeDigest table name) := by
  obtain ⟨rest, last, rfl, hlast⟩ := exists_digest hdigest
  have hvalid := hname last (by simp)
  refine mem_lastOf_of_inRange hsorted hother ?_
  rcases (inRange_digest hvalid hlast (htable stored hmem)).mp hstored with hfull | ⟨hmax, inner, hinner, hprefixed⟩
  · rw [hfull, length_getFullName, nameOf] at hlength
    omega
  · exact (inRange_digest hvalid hlast (htable other hother)).mpr
      (Or.inr ⟨hmax, inner, hinner, hprefixed.trans ((List.prefix_append _ _).trans hnext)⟩)

theorem not_hidden_of_none {matching : Stored → Bool} (hnone : ∀ stored ∈ table, matching stored = false) :
    ¬ Hidden matching table name := by
  rintro ⟨_, -, -, -, stored, hstored, hholds, -⟩
  rw [hnone stored hstored] at hholds
  cases hholds

theorem findRightmost_of_runsPast (hsorted : Sorted computeDigest table) (htable : ValidTable table)
    (hname : ValidName name)
    (hpast : RunsPast computeDigest (satisfies computeDigest keyLocatorOf now name selectors) table name) :
    findRightmost computeDigest keyLocatorOf now name selectors table (lowerBound computeDigest table (.query name))
      (lastOf computeDigest table name + 1) (lastOf computeDigest table name) = none := by
  have hscan := scan_initial hsorted htable hname (named_satisfies computeDigest keyLocatorOf now name selectors htable)
    (not_hidden_of_none hpast.none)
  have hne : name ≠ [] := by
    rintro rfl
    cases hpast.digest
  have hrange : ∀ stored ∈ table.take (lastOf computeDigest table name),
      isBefore computeDigest (.query name) stored = false → InRange computeDigest name stored :=
    fun stored hstored hnot => inRange_of_mem hsorted hne hstored hnot
  obtain ⟨full, hfull, hfullName⟩ := hpast.full
  rw [← length_take_lastOf]
  refine findRightmost_runsPast hscan hsorted htable hpast.none ⟨full, ?_, hfullName⟩ hpast.before
    (fun stored hstored hnot hlength => ?_) fun stored hstored hnot hlength => ?_
  · exact mem_lastOf_of_inRange hsorted hfull (inRange_full hfullName hname (htable full hfull))
  · exact (hpast.passed stored (hscan.mem hstored) (hrange stored hstored hnot) hlength).2
  · obtain ⟨other, hother, comp, hcomp, hnext⟩ :=
      (hpast.passed stored (hscan.mem hstored) (hrange stored hstored hnot) hlength).1
    exact ⟨other, mem_of_inRange_same hsorted htable hname hpast.digest (hrange stored hstored hnot) (hscan.mem hstored)
      hlength hother hnext, comp, hcomp, hnext⟩

theorem runsPast_of_reaches (hsorted : Sorted computeDigest table) (htable : ValidTable table) (hname : ValidName name)
    (hnone : ∀ stored ∈ table, satisfies computeDigest keyLocatorOf now name selectors stored = false)
    (hreaches : ¬ ∀ full ∈ table, name = getFullName computeDigest full.entry.m_data → ∀ stored ∈ table,
      isBefore computeDigest (.query name) stored = true → isBefore computeDigest (.query name.dropLast) stored = true)
    (hstops : ¬ ∃ stored, Stop computeDigest name (table.take (lastOf computeDigest table name)) stored) :
    RunsPast computeDigest (satisfies computeDigest keyLocatorOf now name selectors) table name := by
  have hscan := scan_initial hsorted htable hname (named_satisfies computeDigest keyLocatorOf now name selectors htable)
    (not_hidden_of_none hnone)
  simp only [not_forall] at hreaches
  obtain ⟨full, hfull, hfullName, stored, hstored, hbefore, hnot⟩ := hreaches
  have hdigest : hasDigest name = true := by
    rw [hasDigest, hfullName, getFullName, List.getLast?_concat]
    exact isImplicitSha256Digest_digestOf full.entry.m_data
  refine ⟨hdigest, ⟨full, hfull, hfullName⟩, hnone, ⟨stored, hstored, Bool.eq_false_iff.mpr hnot, hbefore⟩, ?_⟩
  intro passed hpassed hrange hlength
  by_contra hboth
  have hscanned : isBefore computeDigest (.query name) passed = false :=
    Bool.eq_false_iff.mpr fun htrue => hrange.1 (isBefore_iff_gt.mp htrue)
  refine hstops ⟨passed, mem_lastOf_of_inRange hsorted hpassed hrange, hscanned, hlength, ?_⟩
  by_cases hinner : HasInner (nameOf passed) table
  · have htaken : ¬ Taken computeDigest table (nameOf passed) passed := fun htaken => hboth ⟨hinner, htaken⟩
    simp only [Taken, not_forall] at htaken
    obtain ⟨other, hother, comp, hcomp, hnext, hnot'⟩ := htaken
    exact Or.inl ⟨other, mem_of_inRange_same hsorted htable hname hdigest hrange hpassed hlength hother hnext, comp,
      hcomp, hnext, Bool.not_eq_false _ ▸ hnot'⟩
  · apply Or.inr
    rintro ⟨other, hother, hnext⟩
    exact hinner ⟨other, hscan.mem hother, hnext⟩

theorem findRightmost_of_not_runsPast (hsorted : Sorted computeDigest table) (htable : ValidTable table)
    (hname : ValidName name)
    (hnone : ∀ stored ∈ table, satisfies computeDigest keyLocatorOf now name selectors stored = false)
    (hpast : ¬ RunsPast computeDigest (satisfies computeDigest keyLocatorOf now name selectors) table name) :
    findRightmost computeDigest keyLocatorOf now name selectors table (lowerBound computeDigest table (.query name))
      (lastOf computeDigest table name + 1) (lastOf computeDigest table name) = some none := by
  have hscan := scan_initial hsorted htable hname (named_satisfies computeDigest keyLocatorOf now name selectors htable)
    (not_hidden_of_none hnone)
  have hlength := length_take_lastOf computeDigest name table
  rw [← hlength]
  refine findRightmost_miss hscan hsorted htable hnone ?_ (Nat.lt_succ_self _)
  by_contra hunsafe
  rw [not_or] at hunsafe
  exact hpast (runsPast_of_reaches hsorted htable hname hnone hunsafe.1 hunsafe.2)

theorem findRightmost_right_of_none
    (hsorted : Sorted computeDigest table) (htable : ValidTable table) (hname : ValidName name)
    (hnone : ∀ stored ∈ table, satisfies computeDigest keyLocatorOf now name selectors stored = false) :
    Right (satisfies computeDigest keyLocatorOf now name selectors) table
      (IsRightmost computeDigest (satisfies computeDigest keyLocatorOf now name selectors) table name)
      (findRightmost computeDigest keyLocatorOf now name selectors table (lowerBound computeDigest table (.query name))
        (lastOf computeDigest table name + 1) (lastOf computeDigest table name)) ↔
      ¬ RunsPast computeDigest (satisfies computeDigest keyLocatorOf now name selectors) table name := by
  by_cases hpast : RunsPast computeDigest (satisfies computeDigest keyLocatorOf now name selectors) table name
  · refine iff_of_false ?_ (not_not_intro hpast)
    rw [findRightmost_of_runsPast hsorted htable hname hpast]
    exact id
  · refine iff_of_true ?_ hpast
    rw [findRightmost_of_not_runsPast hsorted htable hname hnone hpast]
    exact hnone

theorem mem_between {stored : Stored} (hstored : stored ∈ table.take (lastOf computeDigest table name))
    (hnot : isBefore computeDigest (.query name) stored = false) :
    stored ∈ between table (lowerBound computeDigest table (.query name)) (lastOf computeDigest table name) := by
  rw [← List.take_append_drop (lowerBound computeDigest table (.query name))
    (table.take (lastOf computeDigest table name))] at hstored
  refine (List.mem_append.mp hstored).resolve_left fun hbefore => ?_
  rw [List.take_take] at hbefore
  have hprefixed : table.take (lowerBound computeDigest table (.query name)) =
      table.takeWhile (isBefore computeDigest (.query name)) :=
    (List.prefix_iff_eq_take.mp (List.takeWhile_prefix _)).symm
  have htrue := List.mem_takeWhile_imp (hprefixed ▸ (List.take_sublist_take_left (Nat.min_le_left _ _)).subset hbefore)
  rw [hnot] at htrue
  cases htrue

theorem findLeftmost_right_iff
    (hsorted : Sorted computeDigest table) (htable : ValidTable table) (hname : ValidName name) :
    Right (satisfies computeDigest keyLocatorOf now name selectors) table
      (IsLeftmost computeDigest (satisfies computeDigest keyLocatorOf now name selectors) table)
      (some (findLeftmost computeDigest keyLocatorOf now name selectors
        (between table (lowerBound computeDigest table (.query name)) (lastOf computeDigest table name)))) ↔
      (Hidden (satisfies computeDigest keyLocatorOf now name selectors) table name → ∃ stored ∈ table,
        satisfies computeDigest keyLocatorOf now name selectors stored = true ∧
          name = getFullName computeDigest stored.entry.m_data) := by
  have hnamed := named_satisfies computeDigest keyLocatorOf now name selectors htable
  have hsplit := hsorted
  rw [← List.take_append_drop (lastOf computeDigest table name) table] at hsplit
  cases hfind : (between table (lowerBound computeDigest table (.query name)) (lastOf computeDigest table name)).find?
      (satisfies computeDigest keyLocatorOf now name selectors) with
  | some found =>
    have hresult : findLeftmost computeDigest keyLocatorOf now name selectors
        (between table (lowerBound computeDigest table (.query name)) (lastOf computeDigest table name)) = some found.it :=
      congrArg (Option.map Stored.it) hfind
    have hmem := List.mem_of_mem_drop (List.mem_of_find?_eq_some hfind)
    have hholds := List.find?_some hfind
    rw [hresult]
    refine iff_of_true ⟨found, List.mem_of_mem_take hmem, rfl, List.mem_of_mem_take hmem, hholds,
      fun other hother hmatching => ?_⟩ fun hidden =>
        ⟨found, List.mem_of_mem_take hmem, hholds, hidden.full hsorted htable hname hnamed hmem hholds⟩
    have hother' := hother
    rw [← List.take_append_drop (lastOf computeDigest table name) table] at hother'
    rcases List.mem_append.mp hother' with hbelow | habove
    · have hpairwise := (List.pairwise_append.mp hsplit).1
      exact find?_first (hpairwise.sublist (List.drop_sublist _ _)) hfind
        (mem_between hbelow (hnamed.not_isBefore hother hmatching)) hmatching
    · exact Or.inr ((List.pairwise_append.mp hsplit).2.2 found hmem other habove)
  | none =>
    have hresult : findLeftmost computeDigest keyLocatorOf now name selectors
        (between table (lowerBound computeDigest table (.query name)) (lastOf computeDigest table name)) = none :=
      congrArg (Option.map Stored.it) hfind
    have hmiss : ∀ stored ∈ table.take (lastOf computeDigest table name),
        satisfies computeDigest keyLocatorOf now name selectors stored ≠ true := by
      intro stored hstored hholds
      have hnot := hnamed.not_isBefore (List.mem_of_mem_take hstored) hholds
      exact List.find?_eq_none.mp hfind stored (mem_between hstored hnot) hholds
    rw [hresult]
    constructor
    · rintro hnone ⟨_, -, -, -, stored, hstored, hholds, -⟩
      rw [hnone stored hstored] at hholds
      cases hholds
    · intro hfull stored hstored
      by_contra hholds
      rw [Bool.not_eq_false] at hholds
      by_cases hidden : Hidden (satisfies computeDigest keyLocatorOf now name selectors) table name
      · obtain ⟨full, hmem, hholds', hfullName⟩ := hfull hidden
        exact hmiss full (mem_lastOf_of_inRange hsorted hmem (inRange_full hfullName hname (htable full hmem))) hholds'
      · exact hmiss stored ((scan_initial hsorted htable hname hnamed hidden).mem_entries hstored hholds) hholds

variable (computeDigest keyLocatorOf name selectors) in
def IsAnswer (s : PriorityFifo.Cs) (stored : Stored) : Prop :=
  if selectors.m_childSelector = 1 then
    IsRightmost computeDigest (satisfies computeDigest keyLocatorOf s.now name selectors) s.m_table name stored
  else IsLeftmost computeDigest (satisfies computeDigest keyLocatorOf s.now name selectors) s.m_table stored

variable (computeDigest keyLocatorOf name selectors) in
def FindsRight (s : PriorityFifo.Cs) : Prop :=
  if s.m_shouldServe && s.m_limit ≠ 0 then
    if selectors.m_childSelector = 1 then
      ¬ Hidden (satisfies computeDigest keyLocatorOf s.now name selectors) s.m_table name ∧
        ¬ Confused computeDigest (satisfies computeDigest keyLocatorOf s.now name selectors) s.m_table name ∧
          ¬ RunsPast computeDigest (satisfies computeDigest keyLocatorOf s.now name selectors) s.m_table name
    else
      Hidden (satisfies computeDigest keyLocatorOf s.now name selectors) s.m_table name → ∃ stored ∈ s.m_table,
        satisfies computeDigest keyLocatorOf s.now name selectors stored = true ∧
          name = getFullName computeDigest stored.entry.m_data
  else ∀ stored ∈ s.m_table, satisfies computeDigest keyLocatorOf s.now name selectors stored = false

theorem findRightmost_right_iff
    (hsorted : Sorted computeDigest table) (htable : ValidTable table) (hnodup : (table.map Stored.it).Nodup)
    (hname : ValidName name) :
    Right (satisfies computeDigest keyLocatorOf now name selectors) table
      (IsRightmost computeDigest (satisfies computeDigest keyLocatorOf now name selectors) table name)
      (findRightmost computeDigest keyLocatorOf now name selectors table (lowerBound computeDigest table (.query name))
        (lastOf computeDigest table name + 1) (lastOf computeDigest table name)) ↔
      ¬ Hidden (satisfies computeDigest keyLocatorOf now name selectors) table name ∧
        ¬ Confused computeDigest (satisfies computeDigest keyLocatorOf now name selectors) table name ∧
          ¬ RunsPast computeDigest (satisfies computeDigest keyLocatorOf now name selectors) table name := by
  have hnamed := named_satisfies computeDigest keyLocatorOf now name selectors htable
  by_cases hsome : ∃ stored ∈ table, satisfies computeDigest keyLocatorOf now name selectors stored = true
  · have hpast : ¬ RunsPast computeDigest (satisfies computeDigest keyLocatorOf now name selectors) table name := by
      intro hpast
      obtain ⟨stored, hstored, hholds⟩ := hsome
      rw [hpast.none stored hstored] at hholds
      cases hholds
    by_cases hidden : Hidden (satisfies computeDigest keyLocatorOf now name selectors) table name
    · refine iff_of_false (fun hright => ?_) fun h => h.1 hidden
      cases hfind : findRightmost computeDigest keyLocatorOf now name selectors table
          (lowerBound computeDigest table (.query name)) (lastOf computeDigest table name + 1)
          (lastOf computeDigest table name) with
      | none =>
        rw [hfind] at hright
        exact hright
      | some result =>
        rw [hfind] at hright
        cases result with
        | none =>
          obtain ⟨stored, hstored, hholds⟩ := hsome
          rw [hright stored hstored] at hholds
          cases hholds
        | some it =>
          rw [← length_take_lastOf computeDigest name table] at hfind
          obtain ⟨found, hfound, hit, hholds⟩ := findRightmost_sound (List.take_append_drop _ table).symm hfind
          obtain ⟨stored, hstored, hit', hrightmost⟩ := hright
          rw [eq_of_it hnodup hstored (List.mem_of_mem_take hfound) (hit'.trans hit.symm)] at hrightmost
          exact hidden.not_rightmost hsorted htable hname hnamed hfound hholds hrightmost
    · rw [findRightmost_right_of_some hsorted htable hnodup hname hsome hidden, and_iff_right hidden, and_iff_left hpast]
  · have hnone : ∀ stored ∈ table, satisfies computeDigest keyLocatorOf now name selectors stored = false :=
      fun stored hstored => Bool.eq_false_iff.mpr fun hholds => hsome ⟨stored, hstored, hholds⟩
    have hconfused : ¬ Confused computeDigest (satisfies computeDigest keyLocatorOf now name selectors) table name :=
      fun hconfused => let ⟨stored, hstored, _, _, _, hholds, _⟩ := hconfused.two; hsome ⟨stored, hstored, hholds⟩
    rw [findRightmost_right_of_none hsorted htable hname hnone, and_iff_right (not_hidden_of_none hnone),
      and_iff_right hconfused]

/-- Exactly when a lookup in the Content Store finds what it is asked for. -/
theorem find_right_iff {s : PriorityFifo.Cs} (hsorted : Sorted computeDigest s.m_table) (htable : ValidTable s.m_table)
    (hnodup : (s.m_table.map Stored.it).Nodup) (hname : ValidName name) :
    Right (satisfies computeDigest keyLocatorOf s.now name selectors) s.m_table
      (IsAnswer computeDigest keyLocatorOf name selectors s) (PriorityFifo.find computeDigest keyLocatorOf s name selectors) ↔
      FindsRight computeDigest keyLocatorOf name selectors s := by
  unfold FindsRight PriorityFifo.find
  split
  · unfold ContentStoreTable.find
    dsimp only
    split
    · rename_i hselector
      have hanswer : IsAnswer computeDigest keyLocatorOf name selectors s = IsRightmost computeDigest
          (satisfies computeDigest keyLocatorOf s.now name selectors) s.m_table name := by
        funext stored
        rw [IsAnswer, if_pos hselector]
      rw [hanswer]
      exact findRightmost_right_iff hsorted htable hnodup hname
    · rename_i hselector
      have hanswer : IsAnswer computeDigest keyLocatorOf name selectors s = IsLeftmost computeDigest
          (satisfies computeDigest keyLocatorOf s.now name selectors) s.m_table := by
        funext stored
        rw [IsAnswer, if_neg hselector]
      rw [hanswer]
      exact findLeftmost_right_iff hsorted htable hname
  · exact Iff.rfl

end Lookups

section Stores

open LeoNdn.PriorityFifo LeoNdn.Runs

variable {computeDigest : Data → Vector UInt8 32} {s s' : Cs}

theorem evictLoop_sublist (rounds : ℕ) (s : Cs) : (evictLoop rounds s).m_table.Sublist s.m_table := by
  induction rounds generalizing s with
  | zero => exact List.Sublist.refl _
  | succ rounds ih =>
    rw [evictLoop]
    split
    · refine (ih (evictOne s)).trans ?_
      unfold evictOne
      split
      · exact List.Sublist.refl _
      · rw [(eraseOne_keeps s _).1]
        exact List.filter_sublist
    · exact List.Sublist.refl _

theorem foldl_eraseOne_sublist (erased : List ℕ) (s : Cs) : (erased.foldl eraseOne s).m_table.Sublist s.m_table := by
  induction erased generalizing s with
  | nil => exact List.Sublist.refl _
  | cons i erased ih =>
    refine (ih (eraseOne s i)).trans ?_
    rw [(eraseOne_keeps s i).1]
    exact List.filter_sublist

theorem refresh_data (s : Cs) (isUnsolicited : Bool) (entry : Entry) :
    (refresh s isUnsolicited entry).m_data = entry.m_data := by
  unfold refresh
  dsimp only
  split <;> rfl

theorem modifyEntry_sorted (h : Sorted computeDigest s.m_table) (i : ℕ) (isUnsolicited : Bool) :
    Sorted computeDigest (modifyEntry s i (refresh s isUnsolicited)).m_table := by
  refine List.pairwise_map.mpr (h.imp fun {stored later} hless => ?_)
  have hdata : ∀ stored : Stored, (if stored.it = i then { stored with entry := refresh s isUnsolicited stored.entry }
      else stored).entry.m_data = stored.entry.m_data := by
    intro stored
    split
    · exact refresh_data s isUnsolicited stored.entry
    · rfl
  rw [hdata, hdata]
  exact hless

theorem inserted_sorted (h : Sorted computeDigest s.m_table) (data : Data) (isUnsolicited : Bool) :
    Sorted computeDigest (inserted computeDigest s data isUnsolicited).1.m_table := by
  have hemplace := h.emplace ⟨s.newIt, Entry.setData s.now data isUnsolicited⟩
  unfold inserted
  rcases emplace_cases computeDigest s.m_table ⟨s.newIt, Entry.setData s.now data isUnsolicited⟩ with
    ⟨position, hposition, heq⟩ | ⟨stored, hstored, heq⟩
  · rw [heq] at hemplace ⊢
    dsimp only
    rw [if_pos rfl, (attachQueue_keeps _ _).1]
    exact hemplace
  · rw [heq]
    dsimp only
    rw [if_neg Bool.false_ne_true, afterRefresh, (attachQueue_keeps _ _).1, (detachQueue_keeps _ _).1]
    exact modifyEntry_sorted h stored.it isUnsolicited

theorem moveToStaleQueue_keeps (s : Cs) (i : ℕ) : (moveToStaleQueue s i).m_table = s.m_table := by
  unfold moveToStaleQueue
  split <;> rfl

theorem step_sorted (h : Sorted computeDigest s.m_table) {op : Op} (hstep : step computeDigest s op = some s') :
    Sorted computeDigest s'.m_table := by
  cases op with
  | insert data isUnsolicited cachePolicyTag =>
    obtain rfl := Option.some.inj hstep
    have hinserted := inserted_sorted h data isUnsolicited
    unfold PriorityFifo.insert
    split
    · dsimp only
      split
      · exact hinserted.sublist (evictLoop_sublist _ _)
      · exact hinserted
    · exact h
  | erase namePrefix limit =>
    obtain rfl := Option.some.inj hstep
    exact h.sublist (foldl_eraseOne_sublist _ s)
  | setLimit nMaxEntries =>
    obtain rfl := Option.some.inj hstep
    exact h.sublist (evictLoop_sublist _ _)
  | expire =>
    obtain ⟨⟨event, scheduler⟩, -, rfl⟩ := Option.map_eq_some_iff.mp hstep
    dsimp only
    rw [moveToStaleQueue_keeps]
    exact h
  | find name selectors =>
    obtain rfl := Option.some.inj hstep
    exact h
  | enableAdmit shouldAdmit =>
    obtain rfl := Option.some.inj hstep
    exact h
  | enableServe shouldServe =>
    obtain rfl := Option.some.inj hstep
    exact h
  | elapse duration =>
    obtain rfl := Option.some.inj hstep
    exact h

/-- Every Content Store that is reached is in order, and no two entries have the same iterator. -/
theorem sorted_of_run {nMaxPackets : ℕ} (hrun : Run (step computeDigest) Allowed (initial nMaxPackets) s) :
    Sorted computeDigest s.m_table ∧ (s.m_table.map Stored.it).Nodup := by
  have hinitial : Sorted computeDigest (initial nMaxPackets).m_table := List.Pairwise.nil
  exact ⟨hrun.invariant (P := fun s : Cs => Sorted computeDigest s.m_table)
    (fun _ _ _ h _ hstep => step_sorted h hstep) hinitial, (run_consistent hrun).1.nodup⟩

end Stores

section Examples

open LeoNdn.PriorityFifo

def contentDigest (data : Data) : Vector UInt8 32 := Vector.replicate 32 (data.m_content.value.headD 0)

def staleData (name : Name) (octet : UInt8) : Data := ⟨name, ⟨0, 0, none, []⟩, ⟨21, [octet]⟩, none, none⟩

def storeOf (packets : List Data) : Cs :=
  packets.foldl (fun s data => PriorityFifo.insert contentDigest s data false none) (initial 10)

def alice : Component := ⟨8, [97]⟩

def bob : Component := ⟨8, [98]⟩

def fourPackets : Cs := storeOf [staleData [alice] 5, staleData [alice, alice] 5, staleData [alice, bob] 5,
  staleData [alice, bob, bob] 5]

def rightmost (mustBeFresh : Bool) : Selectors := ⟨-1, -1, ⟨.None, none⟩, ⟨[]⟩, 1, mustBeFresh⟩

theorem find_right_iff_alice :
    PriorityFifo.find contentDigest (fun _ => none) fourPackets [alice] (rightmost false) = some (some 2) ∧
      Right (satisfies contentDigest (fun _ => none) fourPackets.now [alice] (rightmost false)) fourPackets.m_table
        (IsAnswer contentDigest (fun _ => none) [alice] (rightmost false) fourPackets)
        (PriorityFifo.find contentDigest (fun _ => none) fourPackets [alice] (rightmost false)) := by
  have hplain : ∀ stored ∈ fourPackets.m_table, ∀ comp ∈ nameOf stored, isImplicitSha256Digest comp = false := by
    decide +kernel
  refine ⟨by decide +kernel, (find_right_iff ?_ ?_ ?_ ?_).mpr ?_⟩
  · unfold Sorted
    decide +kernel
  · unfold ValidTable ValidName
    decide +kernel
  · decide +kernel
  · unfold ValidName
    decide +kernel
  · refine ⟨?_, ?_, ?_⟩
    · rintro ⟨comp, hlast, hdigest, -⟩
      obtain rfl := Option.some.inj hlast
      cases hdigest
    · rintro ⟨⟨stored, hstored, comp, hcomp, hnext⟩, -, -⟩
      rw [hplain stored hstored comp (hnext.subset (by simp))] at hcomp
      cases hcomp
    · rintro ⟨hdigest, -⟩
      revert hdigest
      decide

/-- Two Data of one name, of which the one with the greater digest is asked for by its full name. -/
def stalePackets : Cs := { storeOf [staleData [alice] 5, staleData [alice] 9] with now := 1 }

/-- The Data asked for is stale, and the search for another goes below the first entry. -/
theorem not_find_right_alice : Sorted contentDigest stalePackets.m_table ∧ stalePackets.m_table.length = 2 ∧
    ¬ Right (satisfies contentDigest (fun _ => none) stalePackets.now [alice, digest 9] (rightmost true)) stalePackets.m_table
      (IsAnswer contentDigest (fun _ => none) [alice, digest 9] (rightmost true) stalePackets)
      (PriorityFifo.find contentDigest (fun _ => none) stalePackets [alice, digest 9] (rightmost true)) := by
  have hfind : PriorityFifo.find contentDigest (fun _ => none) stalePackets [alice, digest 9] (rightmost true) = none := by
    decide +kernel
  refine ⟨?_, by decide +kernel, ?_⟩
  · unfold Sorted
    decide +kernel
  · rw [hfind]
    exact id

end Examples

end LeoNdn.ContentStoreSearch
