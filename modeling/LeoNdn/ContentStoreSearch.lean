import LeoNdn.EntryOrder

/-!
The Data that a lookup in the Content Store is to find, and what each round of the
search from the right looks at: a group of names that go on from a prefix.
-/

namespace LeoNdn.ContentStoreSearch

open Std
open LeoNdn.Tlv LeoNdn.NdnPacket LeoNdn.InterestSelectors LeoNdn.ContentStoreTable LeoNdn.EntryOrder
open LeoNdn.DataMatches (ValidName)
open LeoNdn.ForwardingTables (hasDigest)
open LeoNdn.DelegationLists (compareNames_eq)
open LeoNdn.SortedLists (Initial prefix_takeWhile find?_first)

def nameOf (stored : Stored) : Name := stored.entry.m_data.m_name

section Answers

variable (computeDigest : Data → Vector UInt8 32) (matching : Stored → Bool) (table : List Stored) (name : Name)

def Precedes (stored other : Stored) : Prop :=
  EntryImpl.isLess computeDigest (.stored stored.entry.m_data) (.stored other.entry.m_data) = true

structure IsLeftmost (stored : Stored) : Prop where
  mem : stored ∈ table
  holds : matching stored = true
  first : ∀ other ∈ table, matching other = true → other = stored ∨ Precedes computeDigest stored other

structure IsLast (stored : Stored) : Prop where
  mem : stored ∈ table
  holds : matching stored = true
  last : ∀ other ∈ table, matching other = true → other = stored ∨ Precedes computeDigest other stored

/-- The leftmost one under the greatest next component that has any, or the last one where
all names are as short as the name of the Interest. -/
inductive IsRightmost (stored : Stored) : Prop
  | under (component : Component) (mem : stored ∈ table) (holds : matching stored = true)
      (next : name ++ [component] <+: nameOf stored)
      (greatest : ∀ other ∈ table, matching other = true → ∀ comp, name ++ [comp] <+: nameOf other →
        compareComponents comp component ≠ .gt)
      (first : ∀ other ∈ table, matching other = true → name ++ [component] <+: nameOf other →
        other = stored ∨ Precedes computeDigest stored other) : IsRightmost stored
  | exact (short : ∀ other ∈ table, matching other = true → ∀ comp, ¬ name ++ [comp] <+: nameOf other)
      (last : IsLast computeDigest matching table stored) : IsRightmost stored

/-- A hit is an answer and a miss is for want of one; what is undefined is wrong. -/
def Right (IsAnswer : Stored → Prop) : Option (Option ℕ) → Prop
  | none => False
  | some none => ∀ stored ∈ table, matching stored = false
  | some (some it) => ∃ stored ∈ table, stored.it = it ∧ IsAnswer stored

/-- The name ends in a digest other than the greatest, so that the scan ends before the Data whose names it begins. -/
def Hidden : Prop :=
  ∃ comp ∈ name.getLast?, isImplicitSha256Digest comp = true ∧ (incremented comp.value).1 = false ∧
    ∃ stored ∈ table, matching stored = true ∧ name <+: nameOf stored

/-- Not before any place where a name goes on from the prefix with an implicit digest. -/
def Taken (namePrefix : Name) (stored : Stored) : Prop :=
  ∀ other ∈ table, ∀ comp, isImplicitSha256Digest comp = true → namePrefix ++ [comp] <+: nameOf other →
    isBefore computeDigest (.query (namePrefix ++ [comp])) stored = false

/-- Some stored name goes on from the prefix with an implicit digest. -/
def HasInner (namePrefix : Name) (entries : List Stored) : Prop :=
  ∃ stored ∈ entries, ∃ comp, isImplicitSha256Digest comp = true ∧ namePrefix ++ [comp] <+: nameOf stored

/-- The scan takes Data that go on from the name with implicit digests together with Data of just this name. -/
structure Confused : Prop where
  inner : HasInner name table
  plain : ∀ stored ∈ table, matching stored = true → ∀ comp, name ++ [comp] <+: nameOf stored →
    isImplicitSha256Digest comp = true
  two : ∃ stored ∈ table, ∃ other ∈ table, stored ≠ other ∧ matching stored = true ∧ matching other = true ∧
    Taken computeDigest table name stored ∧ Taken computeDigest table name other ∧
    ¬ ∃ comp, name ++ [comp] <+: nameOf stored ∧ name ++ [comp] <+: nameOf other

/-- The scan comes to the Data with the full name, which does not match, and from there goes below the first entry. -/
structure RunsPast : Prop where
  digest : hasDigest name = true
  full : ∃ stored ∈ table, name = getFullName computeDigest stored.entry.m_data
  none : ∀ stored ∈ table, matching stored = false
  before : ∃ stored ∈ table, isBefore computeDigest (.query name.dropLast) stored = false ∧
    isBefore computeDigest (.query name) stored = true
  passed : ∀ stored ∈ table, InRange computeDigest name stored → (nameOf stored).length = name.length →
    HasInner (nameOf stored) table ∧ Taken computeDigest table (nameOf stored) stored

end Answers

section Order

variable {computeDigest : Data → Vector UInt8 32} {table : List Stored} {name namePrefix : Name} {stored other : Stored}
  {comp comp' : Component}

theorem precedes_iff : Precedes computeDigest stored other ↔
    compareKeys (keyAt computeDigest stored) (keyAt computeDigest other) = .lt := isLess_stored_iff

theorem Precedes.names (h : Precedes computeDigest stored other) :
    compareNames (nameOf stored) (nameOf other) ≠ .gt := by
  intro hgt
  have hkeys : compareKeys (keyAt computeDigest stored) (keyAt computeDigest other) = .gt :=
    compareKeys_gt.mpr (Or.inl hgt)
  rw [precedes_iff.mp h] at hkeys
  cases hkeys

theorem not_isBefore_under (h : namePrefix <+: nameOf stored) :
    isBefore computeDigest (.query namePrefix) stored = false := by
  rw [Bool.eq_false_iff, Ne, isBefore_iff_gt]
  induction namePrefix using List.reverseRecOn with
  | nil =>
    rw [nameKey_nil, compareKeys_plain_gt]
    exact compareNames_nil_ne_gt _
  | append_singleton namePrefix comp =>
    rw [nameKey_append]
    split
    · rw [compareKeys_digest_gt]
      rintro (hgt | ⟨heq, -⟩)
      · exact compareNames_prefix ((List.prefix_append _ _).trans h) hgt
      · have hlength := h.length_le
        rw [heq, List.length_append, List.length_singleton, nameOf] at hlength
        omega
    · rw [compareKeys_plain_gt]
      exact compareNames_prefix h

theorem next_le (h : namePrefix ++ [comp] <+: name) {name' : Name} (h' : namePrefix ++ [comp'] <+: name')
    (hle : compareNames name name' ≠ .gt) : compareComponents comp comp' ≠ .gt := by
  obtain ⟨rest, rfl⟩ := h
  obtain ⟨rest', rfl⟩ := h'
  rw [List.append_assoc, List.append_assoc, compareNames_append] at hle
  intro hgt
  exact hle (compareNames_cons_gt.mpr (Or.inl hgt))

theorem next_unique (h : namePrefix ++ [comp] <+: name) (h' : namePrefix ++ [comp'] <+: name) : comp = comp' := by
  have heq : namePrefix ++ [comp] = namePrefix ++ [comp'] := by
    rcases List.prefix_or_prefix_of_prefix h h' with h | h
    · exact h.eq_of_length (by simp)
    · exact (h.eq_of_length (by simp)).symm
  exact List.singleton_inj.mp (List.append_cancel_left heq)

theorem exists_next (h : namePrefix <+: name) (hlength : namePrefix.length < name.length) :
    ∃ comp, namePrefix ++ [comp] <+: name := by
  obtain ⟨rest, rfl⟩ := h
  cases rest with
  | nil => simp at hlength
  | cons comp rest => exact ⟨comp, rest, by simp⟩

theorem prefix_between (h : compareNames namePrefix (nameOf stored) ≠ .gt)
    (hle : compareNames (nameOf stored) (nameOf other) ≠ .gt) (hother : namePrefix <+: nameOf other) :
    namePrefix <+: nameOf stored := by
  have h' := Ordering.isLE_iff_ne_gt.mpr h
  have hle' := Ordering.isLE_iff_ne_gt.mpr hle
  rw [compareNames_eq] at h' hle'
  exact PrefixScans.prefix_of_between h' hle' hother

theorem plain_block (hplain : isImplicitSha256Digest comp = false) (hother : namePrefix ++ [comp] <+: nameOf other)
    (hle : compareNames (nameOf stored) (nameOf other) ≠ .gt)
    (hblock : isBefore computeDigest (.query (namePrefix ++ [comp])) stored = false) :
    namePrefix ++ [comp] <+: nameOf stored := by
  rw [Bool.eq_false_iff, Ne, isBefore_iff_gt, nameKey_append, if_neg (by simp [hplain]), compareKeys_plain_gt] at hblock
  exact prefix_between hblock hle hother

theorem digest_of_le (hvalid : Component.ensureValid comp = .ok comp) (hdigest : isImplicitSha256Digest comp' = true)
    (hle : compareComponents comp comp' ≠ .gt) : isImplicitSha256Digest comp = true := by
  have hmin := (ensureValid_iff.mp hvalid).1
  rw [isImplicitSha256Digest_iff hvalid]
  simp only [isImplicitSha256Digest, Bool.and_eq_true, decide_eq_true_eq] at hdigest
  by_contra hne
  exact hle (compareComponents_gt.mpr (Or.inl (by omega)))

theorem digest_block (hdigest : isImplicitSha256Digest comp = true) (hother : namePrefix ++ [comp] <+: nameOf other)
    (hvalid : ValidName (nameOf stored)) (hle : compareNames (nameOf stored) (nameOf other) ≠ .gt)
    (hblock : isBefore computeDigest (.query (namePrefix ++ [comp])) stored = false) :
    nameOf stored = namePrefix ∨
      ∃ inner, isImplicitSha256Digest inner = true ∧ namePrefix ++ [inner] <+: nameOf stored := by
  rw [Bool.eq_false_iff, Ne, isBefore_iff_gt, nameKey_append, if_pos hdigest, compareKeys_digest_gt, not_or] at hblock
  have hprefixed := prefix_between hblock.1 hle ((List.prefix_append _ _).trans hother)
  by_cases hlength : namePrefix.length < (nameOf stored).length
  · obtain ⟨inner, hinner⟩ := exists_next hprefixed hlength
    refine Or.inr ⟨inner, ?_, hinner⟩
    exact digest_of_le (hvalid inner (hinner.subset (by simp))) hdigest (next_le hinner hother hle)
  · exact Or.inl (hprefixed.eq_of_length_le (Nat.not_lt.mp hlength)).symm

end Order

section Rounds

variable (computeDigest : Data → Vector UInt8 32) (keyLocatorOf : Data → Option Block) (now : ℤ) (name : Name)
  (selectors : Selectors)

def satisfies (stored : Stored) : Bool := stored.entry.canSatisfy computeDigest keyLocatorOf now name selectors

def beforeGroup (prev stored : Stored) : Bool :=
  isBefore computeDigest (.query ((nameOf prev).take (name.length + 1))) stored

variable {computeDigest keyLocatorOf now name selectors}
variable {table entries back : List Stored} {prev stored : Stored} {first rounds : ℕ}

theorem not_beforeGroup_self : beforeGroup computeDigest name prev prev = false :=
  not_isBefore_under (List.take_prefix _ _)

theorem takeWhile_beforeGroup : (entries ++ prev :: back).takeWhile (beforeGroup computeDigest name prev) =
    entries.takeWhile (beforeGroup computeDigest name prev) := by
  induction entries with
  | nil => rw [List.nil_append, List.takeWhile_cons_of_neg (by simp [not_beforeGroup_self])]; rfl
  | cons stored entries ih =>
    rw [List.cons_append, List.takeWhile_cons, List.takeWhile_cons, ih]

theorem between_beforeGroup : between (entries ++ prev :: back)
    (entries.takeWhile (beforeGroup computeDigest name prev)).length (entries.length + 1) =
      entries.dropWhile (beforeGroup computeDigest name prev) ++ [prev] := by
  have htake : (entries ++ prev :: back).take (entries.length + 1) = entries ++ [prev] := by
    rw [List.take_append, List.take_of_length_le (Nat.le_succ _), Nat.add_sub_cancel_left]
    rfl
  have hsplit : entries ++ [prev] = entries.takeWhile (beforeGroup computeDigest name prev) ++
      (entries.dropWhile (beforeGroup computeDigest name prev) ++ [prev]) := by
    rw [← List.append_assoc, List.takeWhile_append_dropWhile]
  rw [between, htake, hsplit, List.drop_left]

theorem mem_of_mem_group (h : stored ∈ entries.dropWhile (beforeGroup computeDigest name prev) ++ [prev]) :
    stored ∈ entries ++ [prev] := by
  rcases List.mem_append.mp h with h | h
  · exact List.mem_append_left _ ((List.dropWhile_sublist _).subset h)
  · exact List.mem_append_right _ h

theorem table_takeWhile (htable : table = entries ++ prev :: back) :
    table = entries.takeWhile (beforeGroup computeDigest name prev) ++
      (entries.dropWhile (beforeGroup computeDigest name prev) ++ prev :: back) := by
  rw [← List.append_assoc, List.takeWhile_append_dropWhile, htable]

theorem findRightmost_exact (htable : table = entries ++ prev :: back) (hne : entries.length + 1 ≠ first)
    (hlength : (nameOf prev).length = name.length) :
    findRightmost computeDigest keyLocatorOf now name selectors table first (rounds + 1) (entries.length + 1) =
      if first ≤ entries.length + 1 then
        some (findRightmostAmongExact computeDigest keyLocatorOf now name selectors (between table first (entries.length + 1)))
      else none := by
  have hprev : table[entries.length + 1 - 1]? = some prev := by
    rw [htable, Nat.add_sub_cancel, List.getElem?_append_right (Nat.le_refl _), Nat.sub_self]
    rfl
  rw [nameOf] at hlength
  rw [findRightmost, if_neg hne, if_neg (Nat.succ_ne_zero _), hprev]
  dsimp only
  rw [if_pos hlength]

theorem findRightmost_group (htable : table = entries ++ prev :: back) (hne : entries.length + 1 ≠ first)
    (hlength : (nameOf prev).length ≠ name.length) :
    findRightmost computeDigest keyLocatorOf now name selectors table first (rounds + 1) (entries.length + 1) =
      ((entries.dropWhile (beforeGroup computeDigest name prev) ++ [prev]).find?
        (satisfies computeDigest keyLocatorOf now name selectors)).elim
          (findRightmost computeDigest keyLocatorOf now name selectors table first rounds
            (entries.takeWhile (beforeGroup computeDigest name prev)).length) (fun found => some (some found.it)) := by
  have hprev : table[entries.length + 1 - 1]? = some prev := by
    rw [htable, Nat.add_sub_cancel, List.getElem?_append_right (Nat.le_refl _), Nat.sub_self]
    rfl
  have hleft : lowerBound computeDigest table (.query (prev.entry.m_data.m_name.take (name.length + 1))) =
      (entries.takeWhile (beforeGroup computeDigest name prev)).length := by
    rw [htable, ← takeWhile_beforeGroup]
    rfl
  rw [nameOf] at hlength
  rw [findRightmost, if_neg hne, if_neg (Nat.succ_ne_zero _), hprev]
  dsimp only
  rw [if_neg hlength, hleft]
  have hblock : findLeftmost computeDigest keyLocatorOf now name selectors (between table
      (entries.takeWhile (beforeGroup computeDigest name prev)).length (entries.length + 1)) =
        ((entries.dropWhile (beforeGroup computeDigest name prev) ++ [prev]).find?
          (satisfies computeDigest keyLocatorOf now name selectors)).map Stored.it := by
    rw [htable, between_beforeGroup]
    rfl
  rw [hblock]
  cases (entries.dropWhile (beforeGroup computeDigest name prev) ++ [prev]).find?
    (satisfies computeDigest keyLocatorOf now name selectors) <;> rfl

theorem findRightmost_below (htable : table = entries ++ back) (hlt : entries.length < first)
    (hnone : ∀ stored ∈ entries, satisfies computeDigest keyLocatorOf now name selectors stored = false) :
    findRightmost computeDigest keyLocatorOf now name selectors table first rounds entries.length = none := by
  induction rounds generalizing entries back with
  | zero => rfl
  | succ rounds ih =>
    induction entries using List.reverseRecOn with
    | nil =>
      rw [List.length_nil] at hlt ⊢
      rw [findRightmost, if_neg (by omega), if_pos rfl]
    | append_singleton entries prev =>
      rw [List.length_append, List.length_singleton] at hlt ⊢
      rw [List.append_assoc] at htable
      by_cases hlength : (nameOf prev).length = name.length
      · rw [findRightmost_exact htable (by omega) hlength, if_neg (by omega)]
      · have hmiss : (entries.dropWhile (beforeGroup computeDigest name prev) ++ [prev]).find?
            (satisfies computeDigest keyLocatorOf now name selectors) = none := by
          refine List.find?_eq_none.mpr fun stored hstored => ?_
          rw [hnone stored (mem_of_mem_group hstored)]
          decide
        rw [findRightmost_group htable (by omega) hlength, hmiss]
        refine ih (table_takeWhile htable) ?_ ?_
        · have hle := (List.takeWhile_sublist (beforeGroup computeDigest name prev) (l := entries)).length_le
          omega
        · exact fun stored hstored => hnone stored (List.mem_append_left _ ((List.takeWhile_sublist _).subset hstored))

end Rounds

/-- The Data that the search from the right may come to: those under the name, the one of which it is the full
name, and beside the greatest digest those under other digests. -/
inductive Scanned (computeDigest : Data → Vector UInt8 32) (name : Name) (stored : Stored) : Prop
  | under (h : name <+: nameOf stored) : Scanned computeDigest name stored
  | full (h : name = getFullName computeDigest stored.entry.m_data) : Scanned computeDigest name stored
  | beside (rest : Name) (comp inner : Component) (hname : name = rest ++ [comp])
      (hcomp : isImplicitSha256Digest comp = true) (hmax : (incremented comp.value).1 = true)
      (hinner : isImplicitSha256Digest inner = true) (hne : inner ≠ comp) (hnext : rest ++ [inner] <+: nameOf stored) :
      Scanned computeDigest name stored

section Scans

variable {computeDigest : Data → Vector UInt8 32} {name : Name} {table entries back : List Stored}
  {prev stored other : Stored}

theorem length_getFullName (data : Data) : (getFullName computeDigest data).length = data.m_name.length + 1 := by
  rw [getFullName, List.length_append, List.length_singleton]

theorem isImplicitSha256Digest_digestOf (data : Data) : isImplicitSha256Digest (digestOf computeDigest data) = true :=
  (isImplicitSha256Digest_iff (digestOf_valid computeDigest data)).mpr rfl

theorem nameKey_getFullName (data : Data) : nameKey (getFullName computeDigest data) = dataKey computeDigest data := by
  have happend : getFullName computeDigest data = data.m_name ++ [digestOf computeDigest data] := rfl
  rw [happend, nameKey_append, if_pos (isImplicitSha256Digest_digestOf data), dataKey]

theorem Scanned.not_isBefore (h : Scanned computeDigest name stored) :
    isBefore computeDigest (.query name) stored = false := by
  cases h with
  | under h => exact not_isBefore_under h
  | full h =>
    rw [Bool.eq_false_iff, Ne, isBefore_iff_gt, h, nameKey_getFullName, keyAt]
    intro hgt
    have hself : compareKeys (dataKey computeDigest stored.entry.m_data) (dataKey computeDigest stored.entry.m_data) = .eq :=
      ReflCmp.compare_self
    rw [hself] at hgt
    cases hgt
  | beside rest comp inner hname hcomp hmax hinner hne hnext =>
    rw [Bool.eq_false_iff, Ne, isBefore_iff_gt, hname, nameKey_append, if_pos hcomp, compareKeys_digest_gt]
    rintro (hgt | ⟨heq, -⟩)
    · exact compareNames_prefix ((List.prefix_append _ _).trans hnext) hgt
    · have hlength := hnext.length_le
      rw [heq, List.length_append, List.length_singleton, nameOf] at hlength
      omega

theorem group_eq (hlength : name.length < (nameOf stored).length) : ∃ base comp, base.length = name.length ∧
    base ++ [comp] <+: nameOf stored ∧ (nameOf stored).take (name.length + 1) = base ++ [comp] := by
  have hbase : ((nameOf stored).take name.length).length = name.length := by
    rw [List.length_take]
    omega
  obtain ⟨comp, hcomp⟩ := exists_next (List.take_prefix name.length (nameOf stored)) (by omega)
  refine ⟨_, comp, hbase, hcomp, ?_⟩
  have htake := List.prefix_iff_eq_take.mp hcomp
  rw [List.length_append, hbase, List.length_singleton] at htake
  exact htake.symm

theorem Scanned.base (h : Scanned computeDigest name stored) {base : Name} (hlength : base.length = name.length)
    (hbase : base <+: nameOf stored) : base = name ∨ ∃ rest comp inner, name = rest ++ [comp] ∧
      isImplicitSha256Digest comp = true ∧ (incremented comp.value).1 = true ∧ isImplicitSha256Digest inner = true ∧
      inner ≠ comp ∧ base = rest ++ [inner] := by
  have hunique : ∀ {other : Name}, other.length = name.length → other <+: nameOf stored → base = other := by
    intro other hother hprefixed
    exact List.IsPrefix.eq_of_length (List.prefix_of_prefix_length_le hbase hprefixed (by omega)) (by omega)
  cases h with
  | under h => exact Or.inl (hunique rfl h)
  | full h =>
    have hle := hbase.length_le
    rw [hlength, h, length_getFullName, nameOf] at hle
    omega
  | beside rest comp inner hname hcomp hmax hinner hne hnext =>
    refine Or.inr ⟨rest, comp, inner, hname, hcomp, hmax, hinner, hne, hunique ?_ hnext⟩
    rw [hname, List.length_append, List.length_append]
    rfl

theorem group_base (hvalid : ValidName (nameOf stored)) {base : Name} {comp : Component}
    (hprev : base ++ [comp] <+: nameOf prev) (hle : compareNames (nameOf stored) (nameOf prev) ≠ .gt)
    (hblock : isBefore computeDigest (.query (base ++ [comp])) stored = false) : base <+: nameOf stored := by
  cases hplain : isImplicitSha256Digest comp with
  | false => exact (List.prefix_append _ _).trans (plain_block hplain hprev hle hblock)
  | true =>
    rcases digest_block hplain hprev hvalid hle hblock with heq | ⟨inner, -, hinner⟩
    · rw [heq]
    · exact (List.prefix_append _ _).trans hinner

end Scans

/-- The table below and above the place that the search from the right has come to. -/
structure Scan (computeDigest : Data → Vector UInt8 32) (matching : Stored → Bool) (name : Name)
    (table entries back : List Stored) : Prop where
  split : table = entries ++ back
  first : table.takeWhile (isBefore computeDigest (.query name)) <+: entries
  scanned : ∀ stored ∈ entries, isBefore computeDigest (.query name) stored = false → Scanned computeDigest name stored
  missed : ∀ stored ∈ back, matching stored = false
  inner : (∀ stored ∈ table, ∀ comp, isImplicitSha256Digest comp = true → name ++ [comp] <+: nameOf stored →
    stored ∈ entries) ∨ ∀ stored ∈ entries, ¬ Taken computeDigest table name stored

section Steps

variable {computeDigest : Data → Vector UInt8 32} {matching : Stored → Bool} {name : Name}
  {table entries back : List Stored} {prev stored other : Stored}

theorem Scan.mem (h : Scan computeDigest matching name table entries back) (hstored : stored ∈ entries) :
    stored ∈ table := by
  rw [h.split]
  exact List.mem_append_left _ hstored

theorem Scan.mem_entries (h : Scan computeDigest matching name table entries back) (hstored : stored ∈ table)
    (hmatching : matching stored = true) : stored ∈ entries := by
  rw [h.split] at hstored
  rcases List.mem_append.mp hstored with hstored | hstored
  · exact hstored
  · rw [h.missed stored hstored] at hmatching
    cases hmatching

theorem Scan.split_prev (h : Scan computeDigest matching name table (entries ++ [prev]) back) :
    table = entries ++ prev :: back := by
  rw [h.split, List.append_assoc]
  rfl

theorem precedes_of_sorted (h : Sorted computeDigest table) (htable : table = entries ++ prev :: back)
    (hstored : stored ∈ entries) : Precedes computeDigest stored prev := by
  rw [htable] at h
  exact (List.pairwise_append.mp h).2.2 stored hstored prev List.mem_cons_self

theorem names_le (h : Sorted computeDigest table) (htable : table = entries ++ prev :: back)
    (hstored : stored ∈ entries ++ [prev]) : compareNames (nameOf stored) (nameOf prev) ≠ .gt := by
  rcases List.mem_append.mp hstored with hstored | hstored
  · exact (precedes_of_sorted h htable hstored).names
  · rw [List.mem_singleton.mp hstored, compareNames_self]
    decide

theorem initial_entries (h : Sorted computeDigest table) (htable : table = entries ++ back) (key : Name) :
    Initial (isBefore computeDigest (.query key)) entries :=
  (initial_isBefore h key).sublist (htable ▸ List.sublist_append_left entries back)

theorem Scan.last (h : Scan computeDigest matching name table (entries ++ [prev]) back)
    (hsorted : Sorted computeDigest table)
    (hne : (entries ++ [prev]).length ≠ lowerBound computeDigest table (.query name)) :
    isBefore computeDigest (.query name) prev = false := by
  by_contra hbefore
  refine hne (Nat.le_antisymm ?_ h.first.length_le)
  refine (prefix_takeWhile (h.split ▸ List.prefix_append _ _) fun stored hstored => ?_).length_le
  rcases List.mem_append.mp hstored with hstored | hstored
  · exact (List.pairwise_append.mp (initial_entries hsorted h.split name)).2.2 stored hstored prev
      (List.mem_singleton_self prev) (Bool.not_eq_false _ ▸ hbefore)
  · rw [List.mem_singleton.mp hstored]
    exact Bool.not_eq_false _ ▸ hbefore

theorem Scan.done_iff (h : Scan computeDigest matching name table entries back) :
    entries.length = lowerBound computeDigest table (.query name) ↔
      ∀ stored ∈ entries, isBefore computeDigest (.query name) stored = true := by
  constructor
  · intro hlength stored hstored
    rw [← h.first.eq_of_length hlength.symm] at hstored
    exact List.mem_takeWhile_imp hstored
  · intro hbefore
    refine Nat.le_antisymm ?_ h.first.length_le
    exact (prefix_takeWhile (h.split ▸ List.prefix_append _ _) hbefore).length_le

theorem Scan.not_done (h : Scan computeDigest matching name table entries back) (hstored : stored ∈ entries)
    (hnot : isBefore computeDigest (.query name) stored = false) :
    entries.length ≠ lowerBound computeDigest table (.query name) := by
  intro hdone
  rw [h.done_iff.mp hdone stored hstored] at hnot
  cases hnot

theorem mem_group (h : Sorted computeDigest table) (htable : table = entries ++ prev :: back) :
    stored ∈ entries.dropWhile (beforeGroup computeDigest name prev) ++ [prev] ↔
      stored ∈ entries ++ [prev] ∧ beforeGroup computeDigest name prev stored = false := by
  have hinitial : Initial (beforeGroup computeDigest name prev) entries := initial_entries h htable _
  constructor
  · intro hstored
    refine ⟨mem_of_mem_group hstored, ?_⟩
    rcases List.mem_append.mp hstored with hstored | hstored
    · exact hinitial.not_of_mem_dropWhile hstored
    · rw [List.mem_singleton.mp hstored]
      exact not_beforeGroup_self
  · rintro ⟨hstored, hbefore⟩
    rcases List.mem_append.mp hstored with hstored | hstored
    · rw [← List.takeWhile_append_dropWhile (p := beforeGroup computeDigest name prev) (l := entries)] at hstored
      rcases List.mem_append.mp hstored with hstored | hstored
      · have htrue := List.mem_takeWhile_imp hstored
        rw [hbefore] at htrue
        cases htrue
      · exact List.mem_append_left _ hstored
    · exact List.mem_append_right _ hstored

theorem mem_below (h : Sorted computeDigest table) (htable : table = entries ++ prev :: back) :
    stored ∈ entries.takeWhile (beforeGroup computeDigest name prev) ↔
      stored ∈ entries ++ [prev] ∧ beforeGroup computeDigest name prev stored = true := by
  have hinitial : Initial (beforeGroup computeDigest name prev) entries := initial_entries h htable _
  rw [hinitial.mem_takeWhile]
  constructor
  · exact fun hstored => ⟨List.mem_append_left _ hstored.1, hstored.2⟩
  · rintro ⟨hstored, hbefore⟩
    refine ⟨(List.mem_append.mp hstored).resolve_right fun hlast => ?_, hbefore⟩
    rw [List.mem_singleton.mp hlast, not_beforeGroup_self] at hbefore
    cases hbefore

theorem inner_group (h : Scan computeDigest matching name table (entries ++ [prev]) back)
    (hsorted : Sorted computeDigest table) (htable : ValidTable table) (hlength : name.length < (nameOf prev).length)
    (hstored : stored ∈ entries ++ [prev]) (hblock : beforeGroup computeDigest name prev stored = false) {start : Name}
    (hstart : start.length = name.length) {inner : Component} (hdigest : isImplicitSha256Digest inner = true)
    (hnext : start ++ [inner] <+: nameOf stored) : ∃ comp, isImplicitSha256Digest comp = true ∧
      start ++ [comp] <+: nameOf prev ∧ (nameOf prev).take (name.length + 1) = start ++ [comp] := by
  have hle := names_le hsorted h.split_prev hstored
  obtain ⟨base, comp, hbase, hcomp, htake⟩ := group_eq hlength
  rw [beforeGroup, htake] at hblock
  have hprefixed := group_base (htable stored (h.mem hstored)) hcomp hle hblock
  have heq : base = start := List.IsPrefix.eq_of_length
    (List.prefix_of_prefix_length_le hprefixed ((List.prefix_append _ _).trans hnext) (by omega)) (by omega)
  rw [heq] at hblock hcomp htake
  refine ⟨comp, ?_, hcomp, htake⟩
  by_contra hplain
  have hcontinued := plain_block (Bool.eq_false_iff.mpr hplain) hcomp hle hblock
  rw [next_unique hnext hcontinued] at hdigest
  exact hplain hdigest

/-- The search goes on below the group when nothing in the group matches. -/
theorem Scan.next (h : Scan computeDigest matching name table (entries ++ [prev]) back)
    (hsorted : Sorted computeDigest table) (htable : ValidTable table) (hprev : Scanned computeDigest name prev)
    (hlength : name.length < (nameOf prev).length)
    (hmiss : ∀ stored ∈ entries.dropWhile (beforeGroup computeDigest name prev) ++ [prev], matching stored = false) :
    Scan computeDigest matching name table (entries.takeWhile (beforeGroup computeDigest name prev))
      (entries.dropWhile (beforeGroup computeDigest name prev) ++ prev :: back) := by
  have hsplit := h.split_prev
  obtain ⟨base, comp, hbase, hcomp, htake⟩ := group_eq hlength
  have hbelow : ∀ {stored}, stored ∈ entries.takeWhile (beforeGroup computeDigest name prev) → stored ∈ entries ++ [prev] :=
    fun hstored => ((mem_below hsorted hsplit).mp hstored).1
  have hgroup : ∀ {stored}, stored ∈ entries ++ [prev] → beforeGroup computeDigest name prev stored = false →
      base <+: nameOf stored := by
    intro stored hstored hblock
    rw [beforeGroup, htake] at hblock
    exact group_base (htable stored (h.mem hstored)) hcomp (names_le hsorted hsplit hstored) hblock
  have hscanned : ∀ {stored}, stored ∈ entries ++ [prev] → beforeGroup computeDigest name prev stored = false →
      Scanned computeDigest name stored := by
    intro stored hstored hblock
    have hprefixed := hgroup hstored hblock
    rcases hprev.base hbase ((List.prefix_append _ _).trans hcomp) with rfl | ⟨rest, last, inner, hname, hlast, hmax, hinner,
      hne, rfl⟩
    · exact Scanned.under hprefixed
    · exact Scanned.beside rest last inner hname hlast hmax hinner hne hprefixed
  refine ⟨table_takeWhile hsplit, ?_, fun stored hstored => h.scanned stored (hbelow hstored), ?_, ?_⟩
  · have hfirst : table.takeWhile (isBefore computeDigest (.query name)) <+: entries := by
      refine (List.prefix_concat_iff.mp h.first).resolve_left fun heq => ?_
      have hbefore := List.mem_takeWhile_imp (heq ▸ List.mem_append_right entries (List.mem_singleton_self prev))
      rw [hprev.not_isBefore] at hbefore
      cases hbefore
    refine prefix_takeWhile hfirst fun stored hstored => ?_
    by_contra hblock
    have hnot := (hscanned (h.first.subset hstored) (Bool.eq_false_iff.mpr hblock)).not_isBefore
    rw [List.mem_takeWhile_imp hstored] at hnot
    cases hnot
  · intro stored hstored
    rcases List.mem_append.mp hstored with hstored | hstored
    · exact hmiss stored (List.mem_append_left _ hstored)
    · rcases List.mem_cons.mp hstored with rfl | hstored
      · exact hmiss stored (List.mem_append_right _ (List.mem_singleton_self stored))
      · exact h.missed stored hstored
  · rcases h.inner with hinner | hnone
    · by_cases hjump : ∃ comp, isImplicitSha256Digest comp = true ∧ name ++ [comp] <+: nameOf prev ∧
          (nameOf prev).take (name.length + 1) = name ++ [comp]
      · obtain ⟨comp, hdigest, hcomp, htake⟩ := hjump
        -- the group of a digest begins among the Data of just this name
        refine Or.inr fun stored hstored htaken => ?_
        have hnot := htaken prev (h.mem (by simp)) comp hdigest hcomp
        have hbefore := ((mem_below hsorted hsplit).mp hstored).2
        rw [beforeGroup, htake, hnot] at hbefore
        cases hbefore
      · refine Or.inl fun stored hstored inner hdigest hnext => ?_
        have hmem := hinner stored hstored inner hdigest hnext
        refine (mem_below hsorted hsplit).mpr ⟨hmem, ?_⟩
        by_contra hblock
        exact hjump (inner_group h hsorted htable hlength hmem (Bool.eq_false_iff.mpr hblock) rfl hdigest hnext)
    · exact Or.inr fun stored hstored => hnone stored (hbelow hstored)

end Steps

/-- Data of just the name may be found together with Data that go on from it with a digest. -/
structure Mixed (computeDigest : Data → Vector UInt8 32) (matching : Stored → Bool) (table : List Stored) (name : Name) :
    Prop where
  inner : HasInner name table
  plain : ∀ stored ∈ table, matching stored = true → ∀ comp, name ++ [comp] <+: nameOf stored →
    isImplicitSha256Digest comp = true
  taken : ∃ stored ∈ table, matching stored = true ∧ Taken computeDigest table name stored

/-- The answer of the claim, or where Data are mixed the first of them. -/
structure Answer (computeDigest : Data → Vector UInt8 32) (matching : Stored → Bool) (table : List Stored) (name : Name)
    (found : Stored) : Prop where
  mem : found ∈ table
  holds : matching found = true
  rightmost : ¬ Mixed computeDigest matching table name → IsRightmost computeDigest matching table name found
  mixed : Mixed computeDigest matching table name → Taken computeDigest table name found ∧
    ∀ other ∈ table, matching other = true → Taken computeDigest table name other →
      other = found ∨ Precedes computeDigest found other

/-- What matches has the name as its full name or before its last component. -/
def Named (computeDigest : Data → Vector UInt8 32) (matching : Stored → Bool) (table : List Stored) (name : Name) : Prop :=
  ∀ stored ∈ table, matching stored = true →
    name = getFullName computeDigest stored.entry.m_data ∨ name <+: nameOf stored

theorem Named.not_isBefore {computeDigest : Data → Vector UInt8 32} {matching : Stored → Bool} {table : List Stored}
    {name : Name} {stored : Stored} (h : Named computeDigest matching table name) (hstored : stored ∈ table)
    (hholds : matching stored = true) : isBefore computeDigest (.query name) stored = false :=
  (h stored hstored hholds).elim (fun hfull => (Scanned.full hfull).not_isBefore) not_isBefore_under

section Hits

variable {computeDigest : Data → Vector UInt8 32} {matching : Stored → Bool} {name : Name}
  {table entries back : List Stored} {prev stored other found : Stored} {comp inner : Component}

theorem compareNames_longer {namePrefix : Name} (h : namePrefix ++ [comp] <+: name) :
    compareNames name namePrefix = .gt := by
  obtain ⟨rest, rfl⟩ := h
  have happend := compareNames_append namePrefix ([comp] ++ rest) []
  rw [List.append_nil] at happend
  rw [List.append_assoc, happend]
  rfl

theorem eq_of_max (hcomp : isImplicitSha256Digest comp = true) (hinner : isImplicitSha256Digest inner = true)
    (hmax : (incremented comp.value).1 = true) (hle : compareComponents comp inner ≠ .gt) : inner = comp := by
  simp only [isImplicitSha256Digest, Bool.and_eq_true, decide_eq_true_eq] at hcomp hinner
  have hvalue : inner.value = comp.value := by
    refine eq_of_overflow hmax (by omega) fun hgt => hle (compareComponents_gt.mpr (Or.inr ⟨by omega, Or.inr ⟨by omega, hgt⟩⟩))
  cases inner
  cases comp
  exact congrArg₂ _ (hinner.1.trans hcomp.1.symm) hvalue

theorem Scanned.under_of_le (h : Scanned computeDigest name prev) (hother : name <+: nameOf other)
    (hle : compareNames (nameOf other) (nameOf prev) ≠ .gt) : name <+: nameOf prev := by
  cases h with
  | under h => exact h
  | full h =>
    have hlonger : nameOf prev ++ [digestOf computeDigest prev.entry.m_data] <+: nameOf other := by
      rw [h] at hother
      exact hother
    exact absurd (compareNames_longer hlonger) hle
  | beside rest comp inner hname hcomp hmax hinner hne hnext =>
    rw [hname] at hother
    exact absurd (eq_of_max hcomp hinner hmax (next_le hother hnext hle)) hne

theorem taken_of_next (h : name ++ [comp] <+: nameOf stored) : Taken computeDigest table name stored := by
  intro other _ inner hdigest _
  rw [Bool.eq_false_iff, Ne, isBefore_iff_gt, nameKey_append, if_pos hdigest, compareKeys_digest_gt]
  rintro (hgt | ⟨heq, -⟩)
  · exact compareNames_prefix ((List.prefix_append _ _).trans h) hgt
  · have hlength := h.length_le
    rw [heq, List.length_append, List.length_singleton, nameOf] at hlength
    omega

theorem isBefore_mono {start : Name} (hcomp : isImplicitSha256Digest comp = true) (hinner : isImplicitSha256Digest inner = true)
    (hle : compareComponents inner comp ≠ .gt) (h : isBefore computeDigest (.query (start ++ [inner])) stored = true) :
    isBefore computeDigest (.query (start ++ [comp])) stored = true := by
  rw [isBefore_iff_gt, nameKey_append, if_pos hinner, compareKeys_digest_gt] at h
  rw [isBefore_iff_gt, nameKey_append, if_pos hcomp, compareKeys_digest_gt]
  refine h.imp_right fun hdigest => ⟨hdigest.1, ?_⟩
  exact TransCmp.gt_of_isGE_of_gt (OrientedCmp.isGE_of_isLE (Ordering.isLE_iff_ne_gt.mpr hle)) hdigest.2

theorem taken_of_not_isBefore (hdigest : isImplicitSha256Digest comp = true)
    (hall : ∀ stored ∈ table, ∀ next, isImplicitSha256Digest next = true → name ++ [next] <+: nameOf stored →
      compareComponents next comp ≠ .gt)
    (h : isBefore computeDigest (.query (name ++ [comp])) stored = false) : Taken computeDigest table name stored := by
  intro other hother next hnext hlonger
  by_contra hbefore
  rw [isBefore_mono hdigest hnext (hall other hother next hnext hlonger) (Bool.not_eq_false _ ▸ hbefore)] at h
  cases h

theorem Scan.exact_short (h : Scan computeDigest matching name table (entries ++ [prev]) back)
    (hsorted : Sorted computeDigest table) (hprev : Scanned computeDigest name prev)
    (hlength : (nameOf prev).length = name.length) (hstored : stored ∈ entries ++ [prev]) :
    ¬ name ++ [comp] <+: nameOf stored := by
  intro hnext
  have hle := names_le hsorted h.split_prev hstored
  have hprefixed := hprev.under_of_le ((List.prefix_append _ _).trans hnext) hle
  rw [← hprefixed.eq_of_length hlength.symm] at hle
  exact hle (compareNames_longer hnext)

theorem Scan.exact_answer (h : Scan computeDigest matching name table (entries ++ [prev]) back)
    (hsorted : Sorted computeDigest table) (hprev : Scanned computeDigest name prev)
    (hlength : (nameOf prev).length = name.length) (hlast : IsLast computeDigest matching table found) :
    Answer computeDigest matching table name found := by
  refine ⟨hlast.mem, hlast.holds, fun _ => IsRightmost.exact (fun other hother hmatching comp => ?_) hlast, fun hmixed => ?_⟩
  · exact h.exact_short hsorted hprev hlength (h.mem_entries hother hmatching)
  · obtain ⟨⟨stored, hstored, comp, hdigest, hnext⟩, -, other, hother, hmatching, htaken⟩ := hmixed
    rcases h.inner with hinner | hnone
    · exact absurd hnext (h.exact_short hsorted hprev hlength (hinner stored hstored comp hdigest hnext))
    · exact absurd htaken (hnone other (h.mem_entries hother hmatching))

theorem Scan.group_answer (h : Scan computeDigest matching name table (entries ++ [prev]) back)
    (hsorted : Sorted computeDigest table) (htable : ValidTable table) (hnamed : Named computeDigest matching table name)
    (hlength : name.length < (nameOf prev).length)
    (hfound : (entries.dropWhile (beforeGroup computeDigest name prev) ++ [prev]).find? matching = some found) :
    Answer computeDigest matching table name found := by
  have hsplit := h.split_prev
  obtain ⟨base, comp, hbase, hcomp, htake⟩ := group_eq hlength
  have hholds := List.find?_some hfound
  obtain ⟨hmem, hblock⟩ := (mem_group hsorted hsplit).mp (List.mem_of_find?_eq_some hfound)
  have hle := names_le hsorted hsplit hmem
  have hgroup : (entries.dropWhile (beforeGroup computeDigest name prev) ++ [prev]).Pairwise (Precedes computeDigest) := by
    refine List.Pairwise.sublist ?_ hsorted
    rw [h.split]
    exact ((List.dropWhile_sublist _).append_right [prev]).trans (List.sublist_append_left _ _)
  have hfirst : ∀ other ∈ table, matching other = true → beforeGroup computeDigest name prev other = false →
      other = found ∨ Precedes computeDigest found other := fun other hother hmatching hbefore =>
    find?_first hgroup hfound ((mem_group hsorted hsplit).mpr ⟨h.mem_entries hother hmatching, hbefore⟩) hmatching
  simp only [beforeGroup, htake] at hblock hfirst
  have hname : base = name := by
    have hprefixed := group_base (htable found (h.mem hmem)) hcomp hle hblock
    rcases hnamed found (h.mem hmem) hholds with hfull | hunder
    · have hlonger := hprefixed.length_le
      rw [hbase, hfull, length_getFullName, nameOf] at hlonger
      omega
    · exact (List.prefix_of_prefix_length_le hprefixed hunder (by omega)).eq_of_length hbase
  rw [hname] at hcomp hblock hfirst
  have hnext : ∀ other ∈ table, matching other = true → ∀ next, name ++ [next] <+: nameOf other →
      compareComponents next comp ≠ .gt := fun other hother hmatching next hlonger =>
    next_le hlonger hcomp (names_le hsorted hsplit (h.mem_entries hother hmatching))
  cases hplain : isImplicitSha256Digest comp with
  | false =>
    have hfound' := plain_block hplain hcomp hle hblock
    refine ⟨h.mem hmem, hholds, fun _ => ?_, fun hmixed => ?_⟩
    · exact IsRightmost.under comp (h.mem hmem) hholds hfound' hnext fun other hother hmatching hlonger =>
        hfirst other hother hmatching (not_isBefore_under hlonger)
    · rw [hmixed.plain found (h.mem hmem) hholds comp hfound'] at hplain
      cases hplain
  | true =>
    have hall : ∀ stored ∈ table, ∀ next, isImplicitSha256Digest next = true → name ++ [next] <+: nameOf stored →
        compareComponents next comp ≠ .gt := by
      intro stored hstored next hdigest hlonger
      rcases h.inner with hinner | hnone
      · exact next_le hlonger hcomp (names_le hsorted hsplit (hinner stored hstored next hdigest hlonger))
      · exact absurd (taken_of_next hcomp) (hnone prev (by simp))
    have htaken := taken_of_not_isBefore hplain hall hblock
    have hmixed : Mixed computeDigest matching table name := by
      refine ⟨⟨prev, h.mem (by simp), comp, hplain, hcomp⟩, fun stored hstored hmatching next hlonger => ?_,
        found, h.mem hmem, hholds, htaken⟩
      have hvalid := htable stored hstored next (hlonger.subset (by simp))
      exact digest_of_le hvalid hplain (hnext stored hstored hmatching next hlonger)
    exact ⟨h.mem hmem, hholds, fun hnot => absurd hmixed hnot, fun _ => ⟨htaken, fun other hother hmatching htaken' =>
      hfirst other hother hmatching (htaken' prev (h.mem (by simp)) comp hplain hcomp)⟩⟩

theorem Scan.full_unique (h : Scan computeDigest matching name table (entries ++ [prev]) back)
    (hsorted : Sorted computeDigest table) (hprev : name = getFullName computeDigest prev.entry.m_data)
    (hnamed : Named computeDigest matching table name)
    (hstored : stored ∈ entries ++ [prev]) (hholds : matching stored = true) : stored = prev := by
  rcases hnamed stored (h.mem hstored) hholds with hfull | hunder
  · refine (List.mem_append.mp hstored).elim (fun hbefore => ?_) List.mem_singleton.mp
    have hless := precedes_iff.mp (precedes_of_sorted hsorted h.split_prev hbefore)
    rw [keyAt, keyAt, ← nameKey_getFullName, ← nameKey_getFullName, ← hfull, ← hprev] at hless
    exact absurd hless (OrientedCmp.not_lt_of_lt hless)
  · have hprefixed := (Scanned.full hprev).under_of_le hunder (names_le hsorted h.split_prev hstored)
    have hle := hprefixed.length_le
    rw [hprev, length_getFullName, nameOf] at hle
    omega

theorem Scanned.full_of_shorter (h : Scanned computeDigest name prev) (hlength : (nameOf prev).length < name.length) :
    name = getFullName computeDigest prev.entry.m_data := by
  cases h with
  | under h => exact absurd h.length_le (by omega)
  | full h => exact h
  | beside rest comp inner hname hcomp hmax hinner hne hnext =>
    have hle := hnext.length_le
    rw [hname, List.length_append] at hlength
    rw [List.length_append] at hle
    simp only [List.length_singleton] at hle hlength
    omega

theorem Scan.full_answer (h : Scan computeDigest matching name table (entries ++ [prev]) back)
    (hsorted : Sorted computeDigest table) (hprev : name = getFullName computeDigest prev.entry.m_data)
    (hnamed : Named computeDigest matching table name)
    (hholds : matching prev = true) : Answer computeDigest matching table name prev := by
  have hunique : ∀ other ∈ table, matching other = true → other = prev := fun other hother hmatching =>
    h.full_unique hsorted hprev hnamed (h.mem_entries hother hmatching) hmatching
  have hlonger : nameOf prev ++ [digestOf computeDigest prev.entry.m_data] = name := hprev.symm
  refine ⟨h.mem (by simp), hholds, fun _ => IsRightmost.exact (fun other hother hmatching comp hnext => ?_)
    ⟨h.mem (by simp), hholds, fun other hother hmatching => Or.inl (hunique other hother hmatching)⟩, fun hmixed => ?_⟩
  · rw [hunique other hother hmatching, ← hlonger] at hnext
    have hle := hnext.length_le
    simp at hle
  · obtain ⟨⟨stored, hstored, comp, hdigest, hnext⟩, -, other, hother, hmatching, htaken⟩ := hmixed
    have hnot := htaken stored hstored comp hdigest hnext
    rw [hunique other hother hmatching, Bool.eq_false_iff, Ne, isBefore_iff_gt, nameKey_append, if_pos hdigest,
      compareKeys_digest_gt] at hnot
    refine absurd (Or.inl ?_) hnot
    rw [← hlonger]
    exact compareNames_longer (List.prefix_refl _)

end Hits

end LeoNdn.ContentStoreSearch
