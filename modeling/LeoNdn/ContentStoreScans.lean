import LeoNdn.ContentStoreSearch

/-!
The search from the right: it ends with an answer where something matches, and
where nothing does it ends or goes below the first entry.
-/

namespace LeoNdn.ContentStoreSearch

open Std
open LeoNdn.Tlv LeoNdn.NdnPacket LeoNdn.InterestSelectors LeoNdn.ContentStoreTable LeoNdn.EntryOrder
open LeoNdn.SortedLists (prefix_takeWhile find?_reverse_last)

section Searches

variable {computeDigest : Data → Vector UInt8 32} {keyLocatorOf : Data → Option Block} {now : ℤ} {name : Name}
  {selectors : Selectors} {table entries back : List Stored}

theorem findRightmostAmongExact_last
    (h : Scan computeDigest (satisfies computeDigest keyLocatorOf now name selectors) name table entries back)
    (hsorted : Sorted computeDigest table)
    (hnamed : Named computeDigest (satisfies computeDigest keyLocatorOf now name selectors) table name)
    (hsome : ∃ stored ∈ entries, satisfies computeDigest keyLocatorOf now name selectors stored = true) :
    ∃ found, IsLast computeDigest (satisfies computeDigest keyLocatorOf now name selectors) table found ∧
      findRightmostAmongExact computeDigest keyLocatorOf now name selectors
        (between table (lowerBound computeDigest table (.query name)) entries.length) = some found.it := by
  obtain ⟨rest, hrest⟩ := h.first
  have hbetween : between table (lowerBound computeDigest table (.query name)) entries.length = rest := by
    rw [between, h.split, List.take_left, ← h.split, ← hrest, lowerBound, List.drop_left]
  have hmem : ∀ stored ∈ table, satisfies computeDigest keyLocatorOf now name selectors stored = true → stored ∈ rest := by
    intro stored hstored hholds
    have hentries := h.mem_entries hstored hholds
    rw [← hrest] at hentries
    refine (List.mem_append.mp hentries).resolve_left fun hbefore => ?_
    have htrue := List.mem_takeWhile_imp hbefore
    rw [hnamed.not_isBefore hstored hholds] at htrue
    cases htrue
  have hpairwise : rest.Pairwise (Precedes computeDigest) := by
    refine List.Pairwise.sublist ?_ hsorted
    rw [h.split, ← hrest, List.append_assoc]
    exact (List.sublist_append_left _ _).trans (List.sublist_append_right _ _)
  obtain ⟨stored, hstored, hholds⟩ := hsome
  cases hfind : rest.reverse.find? (satisfies computeDigest keyLocatorOf now name selectors) with
  | none =>
    have hstored' := List.mem_reverse.mpr (hmem stored (h.mem hstored) hholds)
    exact absurd hholds (List.find?_eq_none.mp hfind stored hstored')
  | some found =>
    have hfound := List.mem_reverse.mp (List.mem_of_find?_eq_some hfind)
    refine ⟨found, ⟨h.mem (hrest ▸ List.mem_append_right _ hfound), List.find?_some hfind, fun other hother hholds' =>
      find?_reverse_last hpairwise hfind (hmem other hother hholds') hholds'⟩, ?_⟩
    rw [hbetween, findRightmostAmongExact]
    exact congrArg (Option.map Stored.it) hfind

theorem findRightmost_found {rounds : ℕ}
    (h : Scan computeDigest (satisfies computeDigest keyLocatorOf now name selectors) name table entries back)
    (hsorted : Sorted computeDigest table) (htable : ValidTable table)
    (hnamed : Named computeDigest (satisfies computeDigest keyLocatorOf now name selectors) table name)
    (hsome : ∃ stored ∈ entries, satisfies computeDigest keyLocatorOf now name selectors stored = true)
    (hrounds : entries.length < rounds) :
    ∃ found, Answer computeDigest (satisfies computeDigest keyLocatorOf now name selectors) table name found ∧
      findRightmost computeDigest keyLocatorOf now name selectors table (lowerBound computeDigest table (.query name)) rounds
        entries.length = some (some found.it) := by
  induction rounds generalizing entries back with
  | zero => exact absurd hrounds (Nat.not_lt_zero _)
  | succ rounds ih =>
    obtain ⟨stored, hstored, hholds⟩ := hsome
    have hnot := hnamed.not_isBefore (h.mem hstored) hholds
    induction entries using List.reverseRecOn with
    | nil => cases hstored
    | append_singleton entries prev =>
      have hne := h.not_done hstored hnot
      have hprev := h.scanned prev (by simp) (h.last hsorted hne)
      have hfirst : lowerBound computeDigest table (.query name) ≤ (entries ++ [prev]).length := h.first.length_le
      rcases Nat.lt_trichotomy name.length (nameOf prev).length with hlonger | hequal | hshorter
      · rw [List.length_append, List.length_singleton] at hne hrounds ⊢
        rw [findRightmost_group h.split_prev hne (by omega)]
        cases hfind : (entries.dropWhile (beforeGroup computeDigest name prev) ++ [prev]).find?
            (satisfies computeDigest keyLocatorOf now name selectors) with
        | some found => exact ⟨found, h.group_answer hsorted htable hnamed hlonger hfind, rfl⟩
        | none =>
          have hmiss := List.find?_eq_none.mp hfind
          have hnext := h.next hsorted htable hprev hlonger fun stored hstored => Bool.eq_false_iff.mpr (hmiss stored hstored)
          have hle := (List.takeWhile_sublist (beforeGroup computeDigest name prev) (l := entries)).length_le
          exact ih hnext ⟨stored, hnext.mem_entries (h.mem hstored) hholds, hholds⟩ (by omega)
      · obtain ⟨found, hlast, hfound⟩ := findRightmostAmongExact_last h hsorted hnamed ⟨stored, hstored, hholds⟩
        refine ⟨found, h.exact_answer hsorted hprev hequal.symm hlast, ?_⟩
        rw [List.length_append, List.length_singleton] at hne hfirst hfound ⊢
        rw [findRightmost_exact h.split_prev hne hequal.symm, if_pos hfirst, hfound]
      · have hfull := hprev.full_of_shorter hshorter
        have heq := h.full_unique hsorted hfull hnamed hstored hholds
        rw [heq] at hholds
        refine ⟨prev, h.full_answer hsorted hfull hnamed hholds, ?_⟩
        rw [List.length_append, List.length_singleton] at hne ⊢
        rw [findRightmost_group h.split_prev hne (by omega)]
        cases hfind : (entries.dropWhile (beforeGroup computeDigest name prev) ++ [prev]).find?
            (satisfies computeDigest keyLocatorOf now name selectors) with
        | some found =>
          have hfound := mem_of_mem_group (List.mem_of_find?_eq_some hfind)
          rw [h.full_unique hsorted hfull hnamed hfound (List.find?_some hfind)]
          rfl
        | none => exact absurd hholds (List.find?_eq_none.mp hfind prev (by simp))

end Searches

section Misses

variable {computeDigest : Data → Vector UInt8 32} {matching : Stored → Bool} {name : Name}
  {table entries back : List Stored} {prev stored : Stored}

/-- Data at which the search from the right ends: of a name just as long, and not taken together with Data that go
on from its name. -/
structure Stop (computeDigest : Data → Vector UInt8 32) (name : Name) (entries : List Stored) (stored : Stored) : Prop where
  mem : stored ∈ entries
  scanned : isBefore computeDigest (.query name) stored = false
  length : (nameOf stored).length = name.length
  apart : (∃ other ∈ entries, ∃ comp, isImplicitSha256Digest comp = true ∧ nameOf stored ++ [comp] <+: nameOf other ∧
    isBefore computeDigest (.query (nameOf stored ++ [comp])) stored = true) ∨ ¬ HasInner (nameOf stored) entries

theorem Stop.next (h : Scan computeDigest matching name table (entries ++ [prev]) back)
    (hsorted : Sorted computeDigest table) (htable : ValidTable table) (hlength : name.length < (nameOf prev).length)
    (hstop : Stop computeDigest name (entries ++ [prev]) stored) :
    Stop computeDigest name (entries.takeWhile (beforeGroup computeDigest name prev)) stored := by
  have hsplit := h.split_prev
  have hbelow : ∀ {other}, other ∈ entries.takeWhile (beforeGroup computeDigest name prev) → other ∈ entries ++ [prev] :=
    fun hother => ((mem_below hsorted hsplit).mp hother).1
  have hmem : stored ∈ entries.takeWhile (beforeGroup computeDigest name prev) := by
    refine (mem_below hsorted hsplit).mpr ⟨hstop.mem, ?_⟩
    by_contra hblock
    have hle := names_le hsorted hsplit hstop.mem
    obtain ⟨base, comp, hbase, hcomp, htake⟩ := group_eq hlength
    rw [beforeGroup, htake] at hblock
    have hblock' := Bool.eq_false_iff.mpr hblock
    have heq : base = nameOf stored :=
      (group_base (htable stored (h.mem hstop.mem)) hcomp hle hblock').eq_of_length (hbase.trans hstop.length.symm)
    rw [heq] at hcomp hblock hblock'
    cases hplain : isImplicitSha256Digest comp with
    | false =>
      have hlonger := (plain_block hplain hcomp hle hblock').length_le
      simp at hlonger
    | true =>
      rcases hstop.apart with ⟨other, hother, inner, hinner, hnext, hbefore⟩ | hnone
      · exact hblock (isBefore_mono hplain hinner (next_le hnext hcomp (names_le hsorted hsplit hother)) hbefore)
      · exact hnone ⟨prev, by simp, comp, hplain, hcomp⟩
  refine ⟨hmem, hstop.scanned, hstop.length, ?_⟩
  rcases hstop.apart with ⟨other, hother, inner, hinner, hnext, hbefore⟩ | hnone
  · cases hblock : beforeGroup computeDigest name prev other with
    | true => exact Or.inl ⟨other, (mem_below hsorted hsplit).mpr ⟨hother, hblock⟩, inner, hinner, hnext, hbefore⟩
    | false =>
      -- the group takes all that goes on with a digest
      obtain ⟨comp, hcomp, hprev, htake⟩ := inner_group h hsorted htable hlength hother hblock hstop.length hinner hnext
      apply Or.inr
      rintro ⟨later, hlater, next, hdigest, hnext'⟩
      have hbefore' := ((mem_below hsorted hsplit).mp hlater).2
      have htaken : Taken computeDigest table (nameOf stored) later := taken_of_next hnext'
      rw [beforeGroup, htake, htaken prev (h.mem (by simp)) comp hcomp hprev] at hbefore'
      cases hbefore'
  · apply Or.inr
    rintro ⟨other, hother, hinner⟩
    exact hnone ⟨other, hbelow hother, hinner⟩

/-- Data of a name just as long are only passed together with Data that go on from their names. -/
def AllPassed (computeDigest : Data → Vector UInt8 32) (name : Name) (entries : List Stored) : Prop :=
  ∀ stored ∈ entries, isBefore computeDigest (.query name) stored = false → (nameOf stored).length = name.length →
    HasInner (nameOf stored) entries

theorem AllPassed.next (h : Scan computeDigest matching name table (entries ++ [prev]) back)
    (hsorted : Sorted computeDigest table) (htable : ValidTable table) (hlength : name.length < (nameOf prev).length)
    (htaken : ∀ stored ∈ entries ++ [prev], isBefore computeDigest (.query name) stored = false →
      (nameOf stored).length = name.length → Taken computeDigest table (nameOf stored) stored)
    (hpassed : AllPassed computeDigest name (entries ++ [prev])) :
    AllPassed computeDigest name (entries.takeWhile (beforeGroup computeDigest name prev)) := by
  intro stored hstored hscanned hequal
  obtain ⟨hmem, hbefore⟩ := (mem_below hsorted h.split_prev).mp hstored
  obtain ⟨other, hother, inner, hinner, hnext⟩ := hpassed stored hmem hscanned hequal
  cases hblock : beforeGroup computeDigest name prev other with
  | true => exact ⟨other, (mem_below hsorted h.split_prev).mpr ⟨hother, hblock⟩, inner, hinner, hnext⟩
  | false =>
    obtain ⟨comp, hcomp, hprev, htake⟩ := inner_group h hsorted htable hlength hother hblock hequal hinner hnext
    rw [beforeGroup, htake, htaken stored hmem hscanned hequal prev (h.mem (by simp)) comp hcomp hprev] at hbefore
    cases hbefore

theorem Scan.below_full (h : Scan computeDigest matching name table (entries ++ [prev]) back)
    (hsorted : Sorted computeDigest table) (hprev : name = getFullName computeDigest prev.entry.m_data) :
    (∀ stored ∈ entries, isBefore computeDigest (.query name) stored = true) ∧
      entries.length = lowerBound computeDigest table (.query name) := by
  have hbefore : ∀ stored ∈ entries, isBefore computeDigest (.query name) stored = true := by
    intro stored hstored
    rw [isBefore_iff_gt, hprev, nameKey_getFullName]
    exact OrientedCmp.gt_of_lt (precedes_iff.mp (precedes_of_sorted hsorted h.split_prev hstored))
  refine ⟨hbefore, Nat.le_antisymm ?_ ?_⟩
  · exact (prefix_takeWhile (h.split_prev ▸ List.prefix_append _ _) hbefore).length_le
  · refine List.IsPrefix.length_le ((List.prefix_concat_iff.mp h.first).resolve_left fun heq => ?_)
    have htrue := List.mem_takeWhile_imp (heq ▸ List.mem_append_right entries (List.mem_singleton_self prev))
    rw [(Scanned.full hprev).not_isBefore] at htrue
    cases htrue

end Misses

section Ends

variable {computeDigest : Data → Vector UInt8 32} {keyLocatorOf : Data → Option Block} {now : ℤ} {name : Name}
  {selectors : Selectors} {table entries back : List Stored} {prev : Stored} {rounds : ℕ}

theorem find?_none {l : List Stored} {matching : Stored → Bool} (hnone : ∀ stored ∈ table, matching stored = false)
    (hl : ∀ stored ∈ l, stored ∈ table) : l.find? matching = none :=
  List.find?_eq_none.mpr fun stored hstored => by
    rw [hnone stored (hl stored hstored)]
    decide

theorem findRightmostAmongExact_none (first last : ℕ)
    (hnone : ∀ stored ∈ table, satisfies computeDigest keyLocatorOf now name selectors stored = false) :
    findRightmostAmongExact computeDigest keyLocatorOf now name selectors (between table first last) = none := by
  have hfind := find?_none hnone (l := (between table first last).reverse) fun stored hstored =>
    List.mem_of_mem_take (List.mem_of_mem_drop (List.mem_reverse.mp hstored))
  rw [findRightmostAmongExact]
  exact congrArg (Option.map Stored.it) hfind

theorem findRightmost_next {first : ℕ} (hsplit : table = entries ++ prev :: back) (hne : entries.length + 1 ≠ first)
    (hlength : (nameOf prev).length ≠ name.length)
    (hnone : ∀ stored ∈ table, satisfies computeDigest keyLocatorOf now name selectors stored = false) :
    findRightmost computeDigest keyLocatorOf now name selectors table first (rounds + 1) (entries.length + 1) =
      findRightmost computeDigest keyLocatorOf now name selectors table first rounds
        (entries.takeWhile (beforeGroup computeDigest name prev)).length := by
  have hfind := find?_none hnone (l := entries.dropWhile (beforeGroup computeDigest name prev) ++ [prev])
    fun stored hstored => by
      have hmem := mem_of_mem_group hstored
      rw [hsplit, List.append_cons]
      exact List.mem_append_left _ hmem
  rw [findRightmost_group hsplit hne hlength, hfind]
  rfl

theorem length_takeWhile_lt {p : Stored → Bool} {stored : Stored} (hstored : stored ∈ entries) (hnot : p stored = false) :
    (entries.takeWhile p).length < entries.length := by
  refine Nat.lt_of_le_of_ne (List.takeWhile_sublist p).length_le fun heq => ?_
  rw [← (List.takeWhile_sublist p).eq_of_length heq] at hstored
  rw [List.mem_takeWhile_imp hstored] at hnot
  cases hnot

theorem beforeGroup_full {stored : Stored} (hprev : name = getFullName computeDigest prev.entry.m_data) :
    beforeGroup computeDigest name prev stored = isBefore computeDigest (.query name.dropLast) stored := by
  have hdrop : name.dropLast = nameOf prev := by
    rw [hprev, getFullName, List.dropLast_concat]
    rfl
  have hlength : (nameOf prev).length ≤ name.length + 1 := by
    rw [hprev, length_getFullName, nameOf]
    omega
  rw [beforeGroup, List.take_of_length_le hlength, hdrop]

/-- The search ends without a match where it does not come to the Data with the full name, or that
is the first of its name. -/
theorem findRightmost_miss
    (h : Scan computeDigest (satisfies computeDigest keyLocatorOf now name selectors) name table entries back)
    (hsorted : Sorted computeDigest table) (htable : ValidTable table)
    (hnone : ∀ stored ∈ table, satisfies computeDigest keyLocatorOf now name selectors stored = false)
    (hsafe : (∀ full ∈ table, name = getFullName computeDigest full.entry.m_data → ∀ stored ∈ table,
      isBefore computeDigest (.query name) stored = true → isBefore computeDigest (.query name.dropLast) stored = true) ∨
        ∃ stored, Stop computeDigest name entries stored)
    (hrounds : entries.length < rounds) :
    findRightmost computeDigest keyLocatorOf now name selectors table (lowerBound computeDigest table (.query name)) rounds
      entries.length = some none := by
  induction rounds generalizing entries back with
  | zero => exact absurd hrounds (Nat.not_lt_zero _)
  | succ rounds ih =>
    by_cases hdone : entries.length = lowerBound computeDigest table (.query name)
    · rw [hdone, findRightmost, if_pos rfl]
    · induction entries using List.reverseRecOn with
      | nil => exact absurd (h.done_iff.mpr fun _ hstored => absurd hstored List.not_mem_nil) hdone
      | append_singleton entries prev =>
        have hprev := h.scanned prev (by simp) (h.last hsorted hdone)
        have hfirst : lowerBound computeDigest table (.query name) ≤ (entries ++ [prev]).length := h.first.length_le
        rw [List.length_append, List.length_singleton] at hdone hrounds hfirst ⊢
        have hle := (List.takeWhile_sublist (beforeGroup computeDigest name prev) (l := entries)).length_le
        rcases Nat.lt_trichotomy name.length (nameOf prev).length with hlonger | hequal | hshorter
        · rw [findRightmost_next h.split_prev hdone (by omega) hnone]
          have hnext := h.next hsorted htable hprev hlonger fun stored hstored =>
            hnone stored (h.mem (mem_of_mem_group hstored))
          refine ih hnext (hsafe.imp_right ?_) (by omega)
          rintro ⟨stored, hstop⟩
          exact ⟨stored, hstop.next h hsorted htable hlonger⟩
        · rw [findRightmost_exact h.split_prev hdone hequal.symm, if_pos hfirst, findRightmostAmongExact_none _ _ hnone]
        · have hfull := hprev.full_of_shorter hshorter
          obtain ⟨hbelow, hlast⟩ := h.below_full hsorted hfull
          rw [findRightmost_next h.split_prev hdone (by omega) hnone]
          rcases hsafe with hsafe | ⟨stored, hstop⟩
          · have hall : entries.takeWhile (beforeGroup computeDigest name prev) = entries := by
              refine List.takeWhile_eq_self_iff.mpr fun stored hstored => ?_
              rw [beforeGroup_full hfull]
              exact hsafe prev (h.mem (by simp)) hfull stored (h.mem (List.mem_append_left _ hstored)) (hbelow stored hstored)
            obtain ⟨rounds, rfl⟩ : ∃ k, rounds = k + 1 := ⟨rounds - 1, by omega⟩
            rw [hall, hlast, findRightmost, if_pos rfl]
          · have hscanned := hstop.scanned
            rcases List.mem_append.mp hstop.mem with hmem | hmem
            · rw [hbelow stored hmem] at hscanned
              cases hscanned
            · have hlength := hstop.length
              rw [List.mem_singleton.mp hmem] at hlength
              omega

/-- The search comes to the Data with the full name, and goes below the first entry when it is not the first of its name. -/
theorem findRightmost_runsPast
    (h : Scan computeDigest (satisfies computeDigest keyLocatorOf now name selectors) name table entries back)
    (hsorted : Sorted computeDigest table) (htable : ValidTable table)
    (hnone : ∀ stored ∈ table, satisfies computeDigest keyLocatorOf now name selectors stored = false)
    (hfull : ∃ stored ∈ entries, name = getFullName computeDigest stored.entry.m_data)
    (hbefore : ∃ stored ∈ table, isBefore computeDigest (.query name.dropLast) stored = false ∧
      isBefore computeDigest (.query name) stored = true)
    (htaken : ∀ stored ∈ entries, isBefore computeDigest (.query name) stored = false →
      (nameOf stored).length = name.length → Taken computeDigest table (nameOf stored) stored)
    (hpassed : AllPassed computeDigest name entries) :
    findRightmost computeDigest keyLocatorOf now name selectors table (lowerBound computeDigest table (.query name)) rounds
      entries.length = none := by
  induction rounds generalizing entries back with
  | zero => rfl
  | succ rounds ih =>
    obtain ⟨full, hmem, hname⟩ := hfull
    have hscanned := (Scanned.full hname).not_isBefore
    induction entries using List.reverseRecOn with
    | nil => cases hmem
    | append_singleton entries prev =>
      have hdone := h.not_done hmem hscanned
      have hlast := h.last hsorted hdone
      have hprev := h.scanned prev (by simp) hlast
      have hsplit := h.split_prev
      rw [List.length_append, List.length_singleton] at hdone ⊢
      rcases Nat.lt_trichotomy name.length (nameOf prev).length with hlonger | hequal | hshorter
      · rw [findRightmost_next hsplit hdone (by omega) hnone]
        have hnext := h.next hsorted htable hprev hlonger fun stored hstored =>
          hnone stored (h.mem (mem_of_mem_group hstored))
        refine ih hnext ⟨full, (mem_below hsorted hsplit).mpr ⟨hmem, ?_⟩, hname⟩ (fun stored hstored => ?_)
          (hpassed.next h hsorted htable hlonger htaken)
        · by_contra hblock
          obtain ⟨base, comp, hbase, hcomp, htake⟩ := group_eq hlonger
          rw [beforeGroup, htake] at hblock
          have hle := (group_base (htable full (h.mem hmem)) hcomp (names_le hsorted hsplit hmem)
            (Bool.eq_false_iff.mpr hblock)).length_le
          rw [hbase, hname, length_getFullName, nameOf] at hle
          omega
        · exact htaken stored ((mem_below hsorted hsplit).mp hstored).1
      · obtain ⟨other, hother, comp, -, hnext⟩ := hpassed prev (by simp) hlast hequal.symm
        exact absurd (compareNames_longer hnext) (names_le hsorted hsplit hother)
      · have hfull := hprev.full_of_shorter hshorter
        obtain ⟨-, hlength⟩ := h.below_full hsorted hfull
        rw [findRightmost_next hsplit hdone (by omega) hnone]
        refine findRightmost_below (table_takeWhile hsplit) ?_ fun stored hstored =>
          hnone stored (h.mem ((mem_below hsorted hsplit).mp hstored).1)
        obtain ⟨stored, hstored, hnot, hbelow⟩ := hbefore
        have hentries : stored ∈ entries := by
          have hmem := h.first.subset ((initial_isBefore hsorted name).mem_takeWhile.mpr ⟨hstored, hbelow⟩)
          refine (List.mem_append.mp hmem).resolve_right fun hprev => ?_
          rw [List.mem_singleton.mp hprev, hlast] at hbelow
          cases hbelow
        rw [← hlength]
        exact length_takeWhile_lt hentries (by rw [beforeGroup_full hfull, hnot])

theorem findRightmost_sound {first it : ℕ} (htable : table = entries ++ back)
    (h : findRightmost computeDigest keyLocatorOf now name selectors table first rounds entries.length = some (some it)) :
    ∃ stored ∈ entries, stored.it = it ∧ satisfies computeDigest keyLocatorOf now name selectors stored = true := by
  induction rounds generalizing entries back with
  | zero => cases h
  | succ rounds ih =>
    by_cases hdone : entries.length = first
    · rw [findRightmost, if_pos hdone] at h
      cases h
    · induction entries using List.reverseRecOn with
      | nil =>
        rw [findRightmost, if_neg hdone, if_pos List.length_nil] at h
        cases h
      | append_singleton entries prev =>
        rw [List.append_assoc] at htable
        rw [List.length_append, List.length_singleton] at hdone h
        by_cases hlength : (nameOf prev).length = name.length
        · rw [findRightmost_exact htable hdone hlength] at h
          split at h
          · obtain ⟨found, hfind, hit⟩ := Option.map_eq_some_iff.mp (Option.some.inj h)
            refine ⟨found, ?_, hit, List.find?_some hfind⟩
            have hmem := List.mem_of_mem_drop (List.mem_reverse.mp (List.mem_of_find?_eq_some hfind))
            have htake : table.take (entries.length + 1) = entries ++ [prev] := by
              rw [htable, ← List.append_assoc]
              exact List.take_left' (by simp)
            rwa [htake] at hmem
          · cases h
        · rw [findRightmost_group htable hdone hlength] at h
          cases hfind : (entries.dropWhile (beforeGroup computeDigest name prev) ++ [prev]).find?
              (satisfies computeDigest keyLocatorOf now name selectors) with
          | some found =>
            rw [hfind] at h
            exact ⟨found, mem_of_mem_group (List.mem_of_find?_eq_some hfind), Option.some.inj (Option.some.inj h),
              List.find?_some hfind⟩
          | none =>
            rw [hfind] at h
            obtain ⟨stored, hstored, hit, hholds⟩ := ih (table_takeWhile htable) h
            exact ⟨stored, List.mem_append_left _ ((List.takeWhile_sublist _).subset hstored), hit, hholds⟩

end Ends

end LeoNdn.ContentStoreSearch
