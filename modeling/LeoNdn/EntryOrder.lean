import LeoNdn.RibMap
import LeoNdn.DataMatches

/-!
The order of the Content Store over stored entries and names that are searched
for: it compares names and digests, and a name and its successor enclose what has
the name as a prefix.
-/

namespace LeoNdn.EntryOrder

open Std
open LeoNdn.Tlv LeoNdn.NdnPacket LeoNdn.InterestSelectors LeoNdn.ContentStoreTable
open LeoNdn.SortedLists (StrictOrder StrictWeakOrder Initial StrictlySorted insertIdx_takeWhile getElem?_takeWhile)
open LeoNdn.DelegationLists (compareNames_eq)
open LeoNdn.DataMatches (ValidName)

section Names

instance transCmp_compareNames : TransCmp compareNames := by
  rw [compareNames_eq]
  infer_instance

instance lawfulEqCmp_compareNames : LawfulEqCmp compareNames := by
  rw [compareNames_eq]
  infer_instance

theorem compareNames_self (name : Name) : compareNames name name = .eq := ReflCmp.compare_self

theorem compareNames_nil_ne_gt (name : Name) : compareNames [] name ≠ .gt := by cases name <;> exact nofun

theorem compareNames_append (name tail tail' : Name) :
    compareNames (name ++ tail) (name ++ tail') = compareNames tail tail' := by
  induction name with
  | nil => rfl
  | cons component name ih =>
    have hself : compareComponents component component = .eq := ReflCmp.compare_self
    rw [List.cons_append, List.cons_append, compareNames, hself, Ordering.eq_then, ih]

theorem compareNames_prefix {name other : Name} (h : name <+: other) : compareNames name other ≠ .gt := by
  obtain ⟨rest, rfl⟩ := h
  have happend := compareNames_append name [] rest
  rw [List.append_nil] at happend
  rw [happend]
  exact compareNames_nil_ne_gt rest

end Names

section Components

variable {component other : Component}

theorem ensureValid_iff : Component.ensureValid component = .ok component ↔
    1 ≤ component.type ∧ component.type ≤ 65535 ∧
      (component.type = 1 ∨ component.type = 2 → component.value.length = 32) := by
  unfold Component.ensureValid
  split
  · exact iff_of_false nofun (by omega)
  split
  · exact iff_of_false nofun (by omega)
  split
  · exact iff_of_false nofun (by omega)
  · exact iff_of_true rfl (by omega)

theorem isImplicitSha256Digest_iff (hvalid : Component.ensureValid component = .ok component) :
    isImplicitSha256Digest component = true ↔ component.type = 1 := by
  rw [ensureValid_iff] at hvalid
  simp only [isImplicitSha256Digest, Bool.and_eq_true, decide_eq_true_eq]
  exact and_iff_left_of_imp fun htype => hvalid.2.2 (Or.inl htype)

theorem compareComponents_gt : compareComponents component other = .gt ↔ other.type < component.type ∨
    component.type = other.type ∧ (other.value.length < component.value.length ∨
      component.value.length = other.value.length ∧ memcmp component.value other.value = .gt) := by
  simp only [compareComponents, Ordering.then_eq_gt, Nat.compare_eq_gt, Nat.compare_eq_eq]

theorem compareComponents_lt_of_type (h : component.type < other.type) : compareComponents component other = .lt := by
  rw [compareComponents, Nat.compare_eq_lt.mpr h]
  rfl

theorem memcmp_cons_gt {octet octet' : UInt8} {octets octets' : List UInt8} :
    memcmp (octet :: octets) (octet' :: octets') = .gt ↔
      octet'.toNat < octet.toNat ∨ octet = octet' ∧ memcmp octets octets' = .gt := by
  rw [memcmp, Ordering.then_eq_gt, Nat.compare_eq_gt, Nat.compare_eq_eq, UInt8.toNat_inj]

theorem memcmp_zeros (octets : List UInt8) : memcmp (List.replicate octets.length 0) octets ≠ .gt := by
  induction octets with
  | nil => exact nofun
  | cons octet octets ih =>
    rw [List.length_cons, List.replicate_succ, Ne, memcmp_cons_gt]
    rintro (hlt | ⟨-, hgt⟩)
    · exact Nat.not_lt_zero _ hlt
    · exact ih hgt

theorem memcmp_self_ne_gt (octets : List UInt8) : memcmp octets octets ≠ .gt := by
  have hself : memcmp octets octets = .eq := by
    induction octets with
    | nil => rfl
    | cons octet octets ih => rw [memcmp, ih, Nat.compare_eq_eq.mpr rfl]; rfl
  rw [hself]
  decide

section Increments

variable {octets others : List UInt8}

theorem incremented_cons (octet : UInt8) : incremented (octet :: octets) =
    if (incremented octets).1 then (decide (octet + 1 = 0), (octet + 1) :: (incremented octets).2)
    else (false, octet :: (incremented octets).2) := rfl

theorem length_incremented : (incremented octets).2.length = octets.length := by
  induction octets with
  | nil => rfl
  | cons octet octets ih =>
    rw [incremented_cons]
    split <;> rw [List.length_cons, ih, List.length_cons]

theorem toNat_succ (octet : UInt8) :
    (octet + 1 = 0 ∧ octet.toNat = 255) ∨ (octet + 1 ≠ 0 ∧ (octet + 1).toNat = octet.toNat + 1) := by
  have hlt := UInt8.toNat_lt octet
  have hsucc : (octet + 1).toNat = (octet.toNat + 1) % 256 := UInt8.toNat_add octet 1
  rw [Ne, ← UInt8.toNat_inj, hsucc, UInt8.toNat_zero]
  omega

theorem incremented_zeros (h : (incremented octets).1 = true) :
    (incremented octets).2 = List.replicate octets.length 0 := by
  induction octets with
  | nil => rfl
  | cons octet octets ih =>
    rw [incremented_cons] at h ⊢
    split at h
    · rename_i hrest
      have hzero : octet + 1 = 0 := of_decide_eq_true h
      rw [if_pos hrest, ih hrest, hzero]
      rfl
    · cases h

theorem eq_of_overflow (h : (incremented octets).1 = true) (hlength : others.length = octets.length)
    (hle : memcmp octets others ≠ .gt) : others = octets := by
  induction octets generalizing others with
  | nil => exact List.length_eq_zero_iff.mp hlength
  | cons octet octets ih =>
    cases others with
    | nil => cases hlength
    | cons octet' others =>
      rw [incremented_cons] at h
      rw [Ne, memcmp_cons_gt, not_or] at hle
      split at h
      · rename_i hrest
        have hzero : octet + 1 = 0 := of_decide_eq_true h
        have hmax := ((toNat_succ octet).resolve_right fun hsucc => hsucc.1 hzero).2
        have heq : octet = octet' := by
          have hlt := UInt8.toNat_lt octet'
          rw [← UInt8.toNat_inj]
          omega
        rw [heq, ih hrest (Nat.succ.inj hlength) fun hgt => hle.2 ⟨heq, hgt⟩]
      · cases h

theorem incremented_next (h : (incremented octets).1 = false) (hlength : others.length = octets.length) :
    memcmp octets others ≠ .gt ∧ memcmp (incremented octets).2 others = .gt ↔ others = octets := by
  induction octets generalizing others with
  | nil => cases h
  | cons octet octets ih =>
    cases others with
    | nil => cases hlength
    | cons octet' others =>
      have hlength' : others.length = octets.length := Nat.succ.inj hlength
      rw [incremented_cons] at h ⊢
      rw [Ne, memcmp_cons_gt, List.cons.injEq]
      split at h
      · rename_i hrest
        have hne : octet + 1 ≠ 0 := of_decide_eq_false h
        have hsucc := ((toNat_succ octet).resolve_left fun hzero => hne hzero.1).2
        rw [if_pos hrest, memcmp_cons_gt, hsucc, incremented_zeros hrest, ← hlength']
        constructor
        · rintro ⟨hle, hlt | ⟨-, hgt⟩⟩
          · have heq : octet = octet' := by
              rw [← UInt8.toNat_inj]
              omega
            exact ⟨heq.symm, eq_of_overflow hrest hlength' fun hgt => hle (Or.inr ⟨heq, hgt⟩)⟩
          · exact absurd hgt (memcmp_zeros others)
        · rintro ⟨rfl, rfl⟩
          refine ⟨?_, Or.inl (Nat.lt_succ_self _)⟩
          rintro (hlt | ⟨-, hgt⟩)
          · exact Nat.lt_irrefl _ hlt
          · exact memcmp_self_ne_gt others hgt
      · rename_i hrest
        have hih := ih (Bool.eq_false_iff.mpr hrest) hlength'
        rw [if_neg hrest, memcmp_cons_gt]
        constructor
        · rintro ⟨hle, hlt | ⟨rfl, hgt⟩⟩
          · exact absurd (Or.inl hlt) hle
          · exact ⟨rfl, hih.mp ⟨fun hgt' => hle (Or.inr ⟨rfl, hgt'⟩), hgt⟩⟩
        · rintro ⟨rfl, rfl⟩
          obtain ⟨hself, hgt⟩ := hih.mpr rfl
          refine ⟨?_, Or.inr ⟨rfl, hgt⟩⟩
          rintro (hlt | ⟨-, hgt'⟩)
          · exact Nat.lt_irrefl _ hlt
          · exact hself hgt'

end Increments

theorem getSuccessor_eq (component : Component) : Component.getSuccessor component =
    if (incremented component.value).1 then
      if isSha256Type component.type then ⟨component.type + 1, getMinValue (component.type + 1)⟩
      else ⟨component.type, (incremented component.value).2 ++ [0]⟩
    else ⟨component.type, (incremented component.value).2⟩ := by
  by_cases hoverflow : (incremented component.value).1 = true
  · by_cases hsha : isSha256Type component.type = true
    · simp [Component.getSuccessor, getSuccessorImpl, hoverflow, hsha]
    · simp [Component.getSuccessor, getSuccessorImpl, hoverflow, hsha]
  · simp [Component.getSuccessor, getSuccessorImpl, hoverflow]

theorem compareComponents_self_ne_gt (component : Component) : compareComponents component component ≠ .gt := by
  have hself : compareComponents component component = .eq := ReflCmp.compare_self
  rw [hself]
  decide

theorem compareComponents_ne_gt_of_eq {component other : Component} (h : component = other) :
    compareComponents component other ≠ .gt := by
  rw [← h]
  exact compareComponents_self_ne_gt component

theorem getSuccessor_gt (component : Component) :
    compareComponents (Component.getSuccessor component) component = .gt := by
  rw [getSuccessor_eq, compareComponents_gt]
  split
  · rename_i hoverflow
    split
    · exact Or.inl (Nat.lt_succ_self _)
    · refine Or.inr ⟨rfl, Or.inl ?_⟩
      rw [List.length_append, length_incremented]
      exact Nat.lt_succ_self _
  · rename_i hoverflow
    have hnext := (incremented_next (Bool.eq_false_iff.mpr hoverflow) rfl).mpr rfl
    exact Or.inr ⟨rfl, Or.inr ⟨length_incremented, hnext.2⟩⟩

theorem getMinValue_least (hother : other.type = 1 ∨ other.type = 2 → other.value.length = 32)
    (htype : other.type = 2 ∨ other.type = 3) :
    compareComponents ⟨other.type, getMinValue other.type⟩ other ≠ .gt := by
  rw [Ne, compareComponents_gt]
  rintro (hlt | ⟨-, hgt⟩)
  · exact Nat.lt_irrefl _ hlt
  · rcases htype with htype | htype
    · have hlength := hother (Or.inr htype)
      rw [htype, getMinValue, if_pos (by decide), List.length_replicate, ← hlength] at hgt
      rcases hgt with hlt | ⟨-, hgt⟩
      · exact Nat.lt_irrefl _ hlt
      · exact memcmp_zeros _ hgt
    · rw [htype, getMinValue, if_neg (by decide)] at hgt
      rcases hgt with hlt | ⟨hlength, hgt⟩
      · exact Nat.not_lt_zero _ hlt
      · rw [List.length_eq_zero_iff.mp hlength.symm] at hgt
        cases hgt

theorem compareComponents_getSuccessor (hcomponent : Component.ensureValid component = .ok component)
    (hother : Component.ensureValid other = .ok other) :
    compareComponents component other ≠ .gt ∧ compareComponents (Component.getSuccessor component) other = .gt ↔
      other = component := by
  constructor
  · rintro ⟨hle, hgt⟩
    rw [ensureValid_iff] at hcomponent hother
    rw [Ne, compareComponents_gt] at hle
    rw [getSuccessor_eq, compareComponents_gt] at hgt
    suffices hsuffices : other.type = component.type ∧ other.value = component.value by
      cases other
      cases component
      exact congrArg₂ _ hsuffices.1 hsuffices.2
    split at hgt
    · rename_i hoverflow
      -- the greatest value of its length, so the other component is no longer
      suffices hshort : component.type = other.type ∧ other.value.length ≤ component.value.length by
        obtain ⟨htype, hlength⟩ := hshort
        have hlength' : other.value.length = component.value.length := by
          by_contra hne
          exact hle (Or.inr ⟨htype, Or.inl (by omega)⟩)
        exact ⟨htype.symm, eq_of_overflow hoverflow hlength' fun hgt' =>
          hle (Or.inr ⟨htype, Or.inr ⟨hlength'.symm, hgt'⟩⟩)⟩
      split at hgt
      · rename_i hsha
        have htype : component.type = 1 ∨ component.type = 2 := by simpa [isSha256Type] using hsha
        have hne : component.type + 1 ≠ other.type := by
          intro heq
          rw [heq] at hgt
          exact getMinValue_least hother.2.2 (by omega) (compareComponents_gt.mpr hgt)
        dsimp only at hgt
        have heq : component.type = other.type := by omega
        have hlength := hcomponent.2.2 htype
        have hlength' := hother.2.2 (heq ▸ htype)
        omega
      · rw [List.length_append, length_incremented, List.length_singleton] at hgt
        rcases hgt with hgt | ⟨htype, hgt | ⟨hlength, hgt⟩⟩
        · exact absurd (Or.inl hgt) hle
        · exact ⟨htype, Nat.lt_succ_iff.mp hgt⟩
        · rw [incremented_zeros hoverflow, ← List.replicate_succ', hlength] at hgt
          exact absurd hgt (memcmp_zeros _)
    · rename_i hoverflow
      rw [length_incremented] at hgt
      rcases hgt with hgt | ⟨htype, hgt | ⟨hlength, hgt⟩⟩
      · exact absurd (Or.inl hgt) hle
      · exact absurd (Or.inr ⟨htype, Or.inl hgt⟩) hle
      · refine ⟨htype.symm, (incremented_next (Bool.eq_false_iff.mpr hoverflow) hlength.symm).mp ⟨fun hgt' => ?_, hgt⟩⟩
        exact hle (Or.inr ⟨htype, Or.inr ⟨hlength, hgt'⟩⟩)
  · rintro rfl
    exact ⟨compareComponents_self_ne_gt _, getSuccessor_gt _⟩

end Components

section Keys

variable (computeDigest : Data → Vector UInt8 32)

def nameKey (name : Name) : Name × Name :=
  match name.getLast? with
  | some comp => if isImplicitSha256Digest comp then (name.dropLast, [comp]) else (name, [])
  | none => (name, [])

def dataKey (data : Data) : Name × Name := (data.m_name, [digestOf computeDigest data])

def keyOf : EntryImpl → Name × Name
  | .query queryName => nameKey queryName
  | .stored data => dataKey computeDigest data

def compareKeys : Name × Name → Name × Name → Ordering :=
  compareLex (fun key other => compareNames key.1 other.1) (fun key other => compareNames key.2 other.2)

instance transCmp_compareKeys : TransCmp compareKeys := by
  have hfirst : TransCmp (fun key other : Name × Name => compareNames key.1 other.1) :=
    { eq_swap := OrientedCmp.eq_swap, isLE_trans := TransCmp.isLE_trans }
  have hsecond : TransCmp (fun key other : Name × Name => compareNames key.2 other.2) :=
    { eq_swap := OrientedCmp.eq_swap, isLE_trans := TransCmp.isLE_trans }
  exact inferInstanceAs (TransCmp (compareLex _ _))

theorem compareKeys_gt {key other : Name × Name} : compareKeys key other = .gt ↔
    compareNames key.1 other.1 = .gt ∨ compareNames key.1 other.1 = .eq ∧ compareNames key.2 other.2 = .gt :=
  Ordering.then_eq_gt

variable {computeDigest} {name other : Name} {data : Data}

theorem nameKey_nil : nameKey [] = ([], []) := rfl

theorem nameKey_append (comp : Component) : nameKey (name ++ [comp]) =
    if isImplicitSha256Digest comp then (name, [comp]) else (name ++ [comp], []) := by
  rw [nameKey, List.getLast?_concat, List.dropLast_concat]

theorem compareQueryWithData_eq :
    compareQueryWithData computeDigest name data = compareKeys (nameKey name) (dataKey computeDigest data) := by
  have hplain : (compareNames name data.m_name).then .lt = compareKeys (name, []) (dataKey computeDigest data) := rfl
  induction name using List.reverseRecOn with
  | nil => exact hplain
  | append_singleton name comp =>
    rw [nameKey_append, compareQueryWithData, List.getLast?_concat, List.dropLast_concat]
    dsimp only
    split
    · rw [compareKeys, compareLex, dataKey, compareNames, compareNames, Ordering.then_eq]
    · exact hplain

theorem compareDataWithData_eq (data other : Data) : compareDataWithData computeDigest data other =
    compareKeys (dataKey computeDigest data) (dataKey computeDigest other) := by
  rw [compareDataWithData, compareKeys, compareLex, dataKey, dataKey, compareNames, compareNames, Ordering.then_eq]

/-- The components are valid, and only the last one may be an implicit digest. -/
structure DigestLast (name : Name) : Prop where
  valid : ValidName name
  last : ∀ comp ∈ name.dropLast, isImplicitSha256Digest comp = false

theorem compareNames_tails {tail tail' : Name} (hname : ∀ comp ∈ name, 1 < comp.type)
    (hother : ∀ comp ∈ other, 1 < comp.type) (htail : ∀ comp ∈ tail, comp.type = 1)
    (htail' : ∀ comp ∈ tail', comp.type = 1) :
    compareNames (name ++ tail) (other ++ tail') = (compareNames name other).then (compareNames tail tail') := by
  induction name generalizing other with
  | nil =>
    cases other with
    | nil => rfl
    | cons comp other =>
      rw [compareNames, Ordering.lt_then, List.nil_append, List.cons_append]
      cases tail with
      | nil => rfl
      | cons digest tail =>
        have hdigest := htail digest List.mem_cons_self
        have hcomp := hother comp List.mem_cons_self
        rw [compareNames, compareComponents_lt_of_type (by omega), Ordering.lt_then]
  | cons comp name ih =>
    cases other with
    | nil =>
      rw [compareNames, Ordering.gt_then, List.nil_append, List.cons_append]
      cases tail' with
      | nil => rfl
      | cons digest tail' =>
        have hdigest := htail' digest List.mem_cons_self
        have hcomp := hname comp List.mem_cons_self
        rw [compareNames, OrientedCmp.gt_of_lt (compareComponents_lt_of_type (by omega)), Ordering.gt_then]
    | cons comp' other =>
      rw [List.cons_append, List.cons_append, compareNames, compareNames, Ordering.then_assoc]
      rw [ih (fun c hc => hname c (List.mem_cons_of_mem _ hc)) fun c hc => hother c (List.mem_cons_of_mem _ hc)]

theorem DigestLast.nameKey_eq (h : DigestLast name) : name = (nameKey name).1 ++ (nameKey name).2 ∧
    (∀ comp ∈ (nameKey name).1, 1 < comp.type) ∧ ∀ comp ∈ (nameKey name).2, comp.type = 1 := by
  have htypes : ∀ comp ∈ name, isImplicitSha256Digest comp = false → 1 < comp.type := by
    intro comp hcomp hplain
    have hvalid := h.valid comp hcomp
    rw [Bool.eq_false_iff, Ne, isImplicitSha256Digest_iff hvalid] at hplain
    have hmin := (ensureValid_iff.mp hvalid).1
    omega
  induction name using List.reverseRecOn with
  | nil => exact ⟨rfl, nofun, nofun⟩
  | append_singleton name comp =>
    have hlast := h.last
    rw [List.dropLast_concat] at hlast
    have hname : ∀ c ∈ name, 1 < c.type := fun c hc => htypes c (List.mem_append_left _ hc) (hlast c hc)
    rw [nameKey_append]
    split
    · rename_i hdigest
      have hvalid := h.valid comp (by simp)
      refine ⟨rfl, hname, fun c hc => ?_⟩
      rw [List.mem_singleton.mp hc, ← isImplicitSha256Digest_iff hvalid]
      exact hdigest
    · rename_i hplain
      refine ⟨(List.append_nil _).symm, fun c hc => ?_, nofun⟩
      rcases List.mem_append.mp hc with hc | hc
      · exact hname c hc
      · rw [List.mem_singleton.mp hc]
        exact htypes comp (by simp) (Bool.eq_false_iff.mpr hplain)

theorem compareNames_eq_compareKeys (hname : DigestLast name) (hother : DigestLast other) :
    compareNames name other = compareKeys (nameKey name) (nameKey other) := by
  obtain ⟨heq, hfirst, hsecond⟩ := hname.nameKey_eq
  obtain ⟨heq', hfirst', hsecond'⟩ := hother.nameKey_eq
  have htails := compareNames_tails hfirst hfirst' hsecond hsecond'
  rw [← heq, ← heq'] at htails
  exact htails

/-- What the order compares: stored entries, and names with a digest in the last place only. -/
def Comparable : EntryImpl → Prop
  | .query queryName => DigestLast queryName
  | .stored _ => True

theorem isLess_stored_iff {other : Data} : EntryImpl.isLess computeDigest (.stored data) (.stored other) = true ↔
    compareKeys (dataKey computeDigest data) (dataKey computeDigest other) = .lt := by
  rw [EntryImpl.isLess, decide_eq_true_eq, compareDataWithData_eq]

theorem isLess_iff {lhs rhs : EntryImpl} (hlhs : Comparable lhs) (hrhs : Comparable rhs) :
    EntryImpl.isLess computeDigest lhs rhs = true ↔
      compareKeys (keyOf computeDigest lhs) (keyOf computeDigest rhs) = .lt := by
  cases lhs with
  | query name =>
    cases rhs with
    | query other => rw [EntryImpl.isLess, decide_eq_true_eq, compareNames_eq_compareKeys hlhs hrhs]; rfl
    | stored data => rw [EntryImpl.isLess, decide_eq_true_eq, compareQueryWithData_eq]; rfl
  | stored data =>
    cases rhs with
    | query other => rw [EntryImpl.isLess, decide_eq_true_eq, compareQueryWithData_eq, OrientedCmp.gt_iff_lt]; rfl
    | stored other => exact isLess_stored_iff

variable (computeDigest) in
theorem strictWeakOrder_isLess : StrictWeakOrder Comparable (EntryImpl.isLess computeDigest) :=
  StrictWeakOrder.of_key fun _ _ hlhs hrhs => isLess_iff hlhs hrhs

end Keys

section Ranges

variable {computeDigest : Data → Vector UInt8 32} {table : List Stored} {name n : Name} {stored : Stored}

def Sorted (computeDigest : Data → Vector UInt8 32) (table : List Stored) : Prop :=
  table.Pairwise fun stored later =>
    EntryImpl.isLess computeDigest (.stored stored.entry.m_data) (.stored later.entry.m_data) = true

def keyAt (computeDigest : Data → Vector UInt8 32) (stored : Stored) : Name × Name :=
  dataKey computeDigest stored.entry.m_data

theorem Sorted.keys (h : Sorted computeDigest table) : table.Pairwise fun stored later =>
    compareKeys (keyAt computeDigest stored) (keyAt computeDigest later) = .lt :=
  h.imp fun hless => isLess_stored_iff.mp hless

theorem isBefore_iff_gt : isBefore computeDigest (.query name) stored = true ↔
    compareKeys (nameKey name) (keyAt computeDigest stored) = .gt := by
  rw [isBefore, EntryImpl.isLess, decide_eq_true_eq, compareQueryWithData_eq]
  rfl

theorem initial_isBefore (h : Sorted computeDigest table) (name : Name) :
    Initial (isBefore computeDigest (.query name)) table := by
  refine h.keys.imp fun hless hbefore => ?_
  rw [isBefore_iff_gt] at hbefore ⊢
  exact TransCmp.gt_trans hbefore (OrientedCmp.gt_of_lt hless)

theorem strictOrder_compareKeys : StrictOrder (fun key other : Name × Name => compareKeys key other = .lt) where
  irrefl _ := decide_eq_false fun hself => OrientedCmp.not_lt_of_lt hself hself
  trans hab hbc := decide_eq_true (TransCmp.lt_trans (of_decide_eq_true hab) (of_decide_eq_true hbc))

theorem sorted_iff : Sorted computeDigest table ↔
    StrictlySorted (fun key other => compareKeys key other = .lt) (keyAt computeDigest) table := by
  constructor
  · exact fun h => h.keys.imp fun hless => decide_eq_true hless
  · exact fun h => h.imp fun hless => isLess_stored_iff.mpr
      (of_decide_eq_true hless)

theorem isBefore_stored_iff {new : Stored} : isBefore computeDigest (.stored new.entry.m_data) stored = true ↔
    compareKeys (keyAt computeDigest stored) (keyAt computeDigest new) = .lt :=
  isLess_stored_iff

theorem Sorted.emplace (h : Sorted computeDigest table) (new : Stored) :
    Sorted computeDigest (emplace computeDigest table new).1 := by
  have hsorted := sorted_iff.mp h
  have hinserted : (∀ later ∈ table.dropWhile (isBefore computeDigest (.stored new.entry.m_data)),
      compareKeys (keyAt computeDigest new) (keyAt computeDigest later) = .lt) →
      Sorted computeDigest (table.insertIdx (lowerBound computeDigest table (.stored new.entry.m_data)) new) := by
    intro hafter
    rw [lowerBound, insertIdx_takeWhile, sorted_iff]
    refine StrictlySorted.middle strictOrder_compareKeys (hsorted.sublist (List.takeWhile_sublist _))
      (hsorted.sublist (List.dropWhile_sublist _)) (fun stored hstored => ?_) fun later hlater =>
        decide_eq_true (hafter later hlater)
    exact decide_eq_true (isBefore_stored_iff.mp (List.mem_takeWhile_imp hstored))
  unfold ContentStoreTable.emplace
  dsimp only
  rw [lowerBound, getElem?_takeWhile]
  split
  · rename_i stored hstored
    split
    · rename_i hless
      refine hinserted fun later hlater => ?_
      have hnew := isLess_stored_iff.mp hless
      obtain ⟨rest, hrest⟩ := List.head?_eq_some_iff.mp hstored
      have hrest' := hsorted.sublist (List.dropWhile_sublist (isBefore computeDigest (.stored new.entry.m_data)))
      rw [hrest] at hlater hrest'
      rcases List.mem_cons.mp hlater with rfl | hlater
      · exact hnew
      · exact TransCmp.lt_trans hnew (of_decide_eq_true ((List.pairwise_cons.mp hrest').1 later hlater))
    · exact h
  · rename_i hnone
    refine hinserted fun later hlater => ?_
    rw [List.head?_eq_none_iff.mp hnone] at hlater
    cases hlater

theorem between_eq (h : Sorted computeDigest table) (name other : Name) :
    between table (lowerBound computeDigest table (.query name)) (lowerBound computeDigest table (.query other)) =
      table.filter (fun stored =>
        isBefore computeDigest (.query other) stored && ! isBefore computeDigest (.query name) stored) :=
  (initial_isBefore h name).drop_take_eq (initial_isBefore h other)

theorem compareNames_cons_gt {component component' : Component} {name' : Name} :
    compareNames (component :: name) (component' :: name') = .gt ↔
      compareComponents component component' = .gt ∨ component = component' ∧ compareNames name name' = .gt := by
  rw [compareNames, Ordering.then_eq_gt, LawfulEqCmp.compare_eq_iff_eq]

theorem compareNames_getSuccessor {component : Component} (hcomponent : Component.ensureValid component = .ok component)
    (hn : ValidName n) : compareNames (name ++ [component]) n ≠ .gt ∧
      compareNames (name ++ [Component.getSuccessor component]) n = .gt ↔ name ++ [component] <+: n := by
  induction name generalizing n with
  | nil =>
    cases n with
    | nil => exact iff_of_false (fun h => h.1 rfl) (by simp)
    | cons other n =>
      have hnil : compareNames [] n ≠ .gt := compareNames_nil_ne_gt n
      rw [List.nil_append, List.nil_append, Ne, compareNames_cons_gt, compareNames_cons_gt, List.cons_prefix_cons,
        and_iff_left List.nil_prefix, eq_comm (a := component) (b := other),
        ← compareComponents_getSuccessor hcomponent (hn other List.mem_cons_self)]
      tauto
  | cons first name ih =>
    cases n with
    | nil => exact iff_of_false (fun h => h.1 rfl) (by simp)
    | cons other n =>
      have hself : first = other → compareComponents first other ≠ .gt := compareComponents_ne_gt_of_eq
      rw [List.cons_append, List.cons_append, Ne, compareNames_cons_gt, compareNames_cons_gt, List.cons_prefix_cons,
        ← ih fun c hc => hn c (List.mem_cons_of_mem _ hc)]
      tauto

theorem compareNames_continued (component : Component) : compareNames name n ≠ .gt ∧
    compareNames (name ++ [component]) n = .gt ↔
      ∃ rest, n = name ++ rest ∧ ∀ comp ∈ rest.head?, compareComponents component comp = .gt := by
  induction name generalizing n with
  | nil =>
    rw [and_iff_right (compareNames_nil_ne_gt n), List.nil_append]
    cases n with
    | nil => exact iff_of_true rfl ⟨[], rfl, nofun⟩
    | cons other n =>
      rw [compareNames_cons_gt, or_iff_left fun h => compareNames_nil_ne_gt n h.2]
      constructor
      · intro hgt
        refine ⟨other :: n, rfl, fun comp hcomp => ?_⟩
        rw [← Option.some.inj hcomp]
        exact hgt
      · rintro ⟨rest, rfl, hrest⟩
        exact hrest other rfl
  | cons first name ih =>
    cases n with
    | nil => exact iff_of_false (fun h => h.1 rfl) (by simp)
    | cons other n =>
      have hself : first = other → compareComponents first other ≠ .gt := compareComponents_ne_gt_of_eq
      rw [List.cons_append, Ne, compareNames_cons_gt, compareNames_cons_gt]
      have htail := ih (n := n)
      constructor
      · rintro ⟨hle, hgt⟩
        obtain ⟨rfl, hgt'⟩ := hgt.resolve_left fun h => hle (Or.inl h)
        obtain ⟨rest, rfl, hrest⟩ := htail.mp ⟨fun h => hle (Or.inr ⟨rfl, h⟩), hgt'⟩
        exact ⟨rest, rfl, hrest⟩
      · rintro ⟨rest, heq, hrest⟩
        obtain ⟨rfl, rfl⟩ := List.cons.inj heq
        obtain ⟨hle, hgt⟩ := htail.mpr ⟨rest, rfl, hrest⟩
        exact ⟨fun h => h.elim (hself rfl) fun h => hle h.2, Or.inr ⟨rfl, hgt⟩⟩

/-- No name of the stored Data goes on from the name with the digest, or for the last of all digests with another one. -/
def NoInnerDigest (table : List Stored) (name : Name) (comp : Component) : Prop :=
  ∀ stored ∈ table, ∀ inner, isImplicitSha256Digest inner = true → name ++ [inner] <+: stored.entry.m_data.m_name →
    ((incremented comp.value).1 = true ↔ inner = comp)

def ValidTable (table : List Stored) : Prop := ∀ stored ∈ table, ValidName stored.entry.m_data.m_name

def InRange (computeDigest : Data → Vector UInt8 32) (name : Name) (stored : Stored) : Prop :=
  compareKeys (nameKey name) (keyAt computeDigest stored) ≠ .gt ∧
    compareKeys (nameKey (Name.getSuccessor name)) (keyAt computeDigest stored) = .gt

theorem getSuccessor_append (component : Component) :
    Name.getSuccessor (name ++ [component]) = name ++ [Component.getSuccessor component] := by
  rw [Name.getSuccessor, List.getLast?_concat, List.dropLast_concat]

theorem compareKeys_plain_gt {other : Name} {key : Name × Name} :
    compareKeys (other, []) key = .gt ↔ compareNames other key.1 = .gt := by
  rw [compareKeys_gt, or_iff_left fun h => compareNames_nil_ne_gt _ h.2]

theorem isImplicitSha256Digest_getSuccessor {component : Component}
    (hcomponent : Component.ensureValid component = .ok component)
    (hplain : isImplicitSha256Digest component = false) :
    isImplicitSha256Digest (Component.getSuccessor component) = false := by
  have htype : component.type ≠ 1 := fun h => by
    rw [(isImplicitSha256Digest_iff hcomponent).mpr h] at hplain
    cases hplain
  have hmin := (ensureValid_iff.mp hcomponent).1
  have hsucc : (Component.getSuccessor component).type ≠ 1 := by
    rw [getSuccessor_eq]
    split
    · split
      · exact Nat.succ_ne_succ_iff.mpr (by omega)
      · exact htype
    · exact htype
  rw [isImplicitSha256Digest, decide_eq_false hsucc, Bool.false_and]

theorem inRange_plain {component : Component} (hcomponent : Component.ensureValid component = .ok component)
    (hplain : isImplicitSha256Digest component = false) (hstored : ValidName stored.entry.m_data.m_name) :
    InRange computeDigest (name ++ [component]) stored ↔ name ++ [component] <+: stored.entry.m_data.m_name := by
  have hsucc := isImplicitSha256Digest_getSuccessor hcomponent hplain
  rw [InRange, getSuccessor_append, nameKey_append, nameKey_append, hplain, hsucc, if_neg Bool.false_ne_true,
    if_neg Bool.false_ne_true, Ne, compareKeys_plain_gt, compareKeys_plain_gt]
  exact compareNames_getSuccessor hcomponent hstored

variable (computeDigest) in
theorem digestOf_valid (data : Data) :
    Component.ensureValid (digestOf computeDigest data) = .ok (digestOf computeDigest data) :=
  ensureValid_iff.mpr ⟨Nat.le_refl 1, by change 1 ≤ 65535; decide, fun _ => Vector.length_toList⟩

theorem compareKeys_digest_gt {comp : Component} : compareKeys (name, [comp]) (keyAt computeDigest stored) = .gt ↔
    compareNames name stored.entry.m_data.m_name = .gt ∨
      name = stored.entry.m_data.m_name ∧ compareComponents comp (digestOf computeDigest stored.entry.m_data) = .gt := by
  have hnil : ¬ (comp = digestOf computeDigest stored.entry.m_data ∧ compareNames [] [] = .gt) :=
    fun h => compareNames_nil_ne_gt _ h.2
  rw [compareKeys_gt, LawfulEqCmp.compare_eq_iff_eq, keyAt, dataKey, compareNames_cons_gt, or_iff_left hnil]

theorem compareComponents_least {comp : Component} (hcomp : Component.ensureValid comp = .ok comp) :
    compareComponents ⟨2, List.replicate 32 0⟩ comp = .gt ↔ isImplicitSha256Digest comp = true := by
  rw [isImplicitSha256Digest_iff hcomp]
  obtain ⟨hmin, -, hdigest⟩ := ensureValid_iff.mp hcomp
  constructor
  · intro hgt
    by_contra htype
    have hle : comp.type = 2 := by
      rcases compareComponents_gt.mp hgt with hlt | ⟨heq, -⟩
      · change comp.type < 2 at hlt
        omega
      · exact heq.symm
    refine getMinValue_least hdigest (Or.inl hle) ?_
    rw [hle]
    exact hgt
  · intro htype
    exact compareComponents_gt.mpr (Or.inl (by rw [htype]; change 1 < 2; decide))

theorem append_eq_getFullName {comp : Component} {data : Data} : name ++ [comp] = getFullName computeDigest data ↔
    name = data.m_name ∧ comp = digestOf computeDigest data := by
  constructor
  · intro heq
    obtain ⟨hname, hcomp⟩ := List.append_inj' heq rfl
    exact ⟨hname, List.singleton_inj.mp hcomp⟩
  · rintro ⟨rfl, rfl⟩
    rfl

theorem inRange_digest {comp : Component} (hcomp : Component.ensureValid comp = .ok comp)
    (hdigest : isImplicitSha256Digest comp = true) (hstored : ValidName stored.entry.m_data.m_name) :
    InRange computeDigest (name ++ [comp]) stored ↔ name ++ [comp] = getFullName computeDigest stored.entry.m_data ∨
      (incremented comp.value).1 = true ∧
        ∃ inner, isImplicitSha256Digest inner = true ∧ name ++ [inner] <+: stored.entry.m_data.m_name := by
  have hnext := compareComponents_getSuccessor hcomp (digestOf_valid computeDigest stored.entry.m_data)
  have htype := (isImplicitSha256Digest_iff hcomp).mp hdigest
  rw [InRange, getSuccessor_append, nameKey_append, nameKey_append, if_pos hdigest, append_eq_getFullName, Ne,
    compareKeys_digest_gt, eq_comm (a := comp), ← hnext]
  by_cases hoverflow : (incremented comp.value).1 = true
  · have hsucc : Component.getSuccessor comp = ⟨2, List.replicate 32 0⟩ := by
      rw [getSuccessor_eq, if_pos hoverflow, htype]
      rfl
    have hkey : (keyAt computeDigest stored).1 = stored.entry.m_data.m_name := rfl
    rw [hsucc, if_neg (by decide), compareKeys_plain_gt, and_iff_right hoverflow, hkey]
    have hless : compareComponents ⟨2, List.replicate 32 0⟩ (digestOf computeDigest stored.entry.m_data) = .gt :=
      (compareComponents_least (digestOf_valid _ _)).mpr ((isImplicitSha256Digest_iff (digestOf_valid _ _)).mpr rfl)
    rw [and_iff_left hless]
    constructor
    · rintro ⟨hle, hgt⟩
      obtain ⟨rest, heq, hrest⟩ := (compareNames_continued _).mp ⟨fun h => hle (Or.inl h), hgt⟩
      cases rest with
      | nil =>
        rw [List.append_nil] at heq
        exact Or.inl ⟨heq.symm, fun h => hle (Or.inr ⟨heq.symm, h⟩)⟩
      | cons inner rest =>
        have hinner : Component.ensureValid inner = .ok inner := hstored inner (by rw [heq]; simp)
        exact Or.inr ⟨inner, (compareComponents_least hinner).mp (hrest inner rfl), heq ▸ ⟨rest, by simp⟩⟩
    · rintro (⟨heq, hle⟩ | ⟨inner, hinner, rest, hrest⟩)
      · obtain ⟨hself, hgt⟩ := (compareNames_continued ⟨2, List.replicate 32 0⟩).mpr
          ⟨[], (List.append_nil name).symm, nofun⟩
        rw [← heq]
        exact ⟨fun h => h.elim hself fun h => hle h.2, hgt⟩
      · have hvalid : Component.ensureValid inner = .ok inner := hstored inner (by rw [← hrest]; simp)
        rw [List.append_assoc] at hrest
        obtain ⟨hle, hgt⟩ := (compareNames_continued ⟨2, List.replicate 32 0⟩).mpr ⟨_, hrest.symm, fun c hc => by
          rw [← Option.some.inj hc]
          exact (compareComponents_least hvalid).mpr hinner⟩
        refine ⟨fun h => h.elim hle fun h => ?_, hgt⟩
        have hlength := congrArg List.length (h.1.trans hrest.symm)
        simp at hlength
  · have hsucc : isImplicitSha256Digest (Component.getSuccessor comp) = true := by
      have hlength := (ensureValid_iff.mp hcomp).2.2 (Or.inl htype)
      rw [getSuccessor_eq, if_neg hoverflow, isImplicitSha256Digest, length_incremented, hlength, htype]
      rfl
    rw [if_pos hsucc, compareKeys_digest_gt, eq_false hoverflow, false_and, or_false]
    constructor
    · rintro ⟨hle, hgt⟩
      obtain ⟨heq, hgt'⟩ := hgt.resolve_left fun h => hle (Or.inl h)
      exact ⟨heq, fun h => hle (Or.inr ⟨heq, h⟩), hgt'⟩
    · rintro ⟨heq, hle, hgt⟩
      refine ⟨fun h => h.elim (fun h => ?_) fun h => hle h.2, Or.inr ⟨heq, hgt⟩⟩
      rw [heq, compareNames_self] at h
      cases h

theorem inRange_iff : InRange computeDigest name stored ↔
    (isBefore computeDigest (.query (Name.getSuccessor name)) stored &&
      ! isBefore computeDigest (.query name) stored) = true := by
  rw [InRange, Bool.and_eq_true, Bool.not_eq_true', isBefore_iff_gt, Bool.eq_false_iff, Ne, Ne, isBefore_iff_gt, and_comm]

theorem lowerBound_nil (table : List Stored) : lowerBound computeDigest table (.query []) = 0 := by
  cases table with
  | nil => rfl
  | cons stored table =>
    have hfirst : isBefore computeDigest (.query []) stored ≠ true := by
      rw [Ne, isBefore_iff_gt, nameKey_nil, compareKeys_plain_gt]
      exact compareNames_nil_ne_gt _
    rw [lowerBound, List.takeWhile_cons_of_neg hfirst]
    rfl

theorem isPrefixOf_getFullName {comp : Component} (hplain : isImplicitSha256Digest comp = false) (data : Data) :
    name ++ [comp] <+: getFullName computeDigest data ↔ name ++ [comp] <+: data.m_name := by
  constructor
  · intro h
    rcases List.prefix_concat_iff.mp h with heq | h
    · obtain ⟨-, hcomp⟩ := append_eq_getFullName.mp heq
      rw [hcomp] at hplain
      have hdigest := (isImplicitSha256Digest_iff (digestOf_valid computeDigest data)).mpr rfl
      rw [hdigest] at hplain
      cases hplain
    · exact h
  · exact fun h => h.trans (List.prefix_append _ _)

/-- The order is strict and weak. What `find` and `erase` take as the entries under a name are
those whose full name it begins. -/
theorem isLess_order_and_ranges (hsorted : Sorted computeDigest table) (htable : ValidTable table)
    (hname : ValidName name)
    (hdigest : ∀ comp ∈ name.getLast?, isImplicitSha256Digest comp = true → NoInnerDigest table name.dropLast comp) :
    StrictWeakOrder Comparable (EntryImpl.isLess computeDigest) ∧
      between table (lowerBound computeDigest table (.query name)) (lastOf computeDigest table name) =
        table.filter (fun stored => List.isPrefixOf name (getFullName computeDigest stored.entry.m_data)) := by
  refine ⟨strictWeakOrder_isLess computeDigest, ?_⟩
  induction name using List.reverseRecOn with
  | nil =>
    rw [lowerBound_nil, lastOf, if_neg (by decide), between, List.take_length, List.drop_zero, eq_comm,
      List.filter_eq_self]
    exact fun stored _ => rfl
  | append_singleton name comp =>
    have hcomp := hname comp (by simp)
    rw [List.getLast?_concat, List.dropLast_concat] at hdigest
    rw [lastOf, if_pos (by simp), between_eq hsorted]
    refine List.filter_congr fun stored hstored => ?_
    rw [Bool.eq_iff_iff, ← inRange_iff, List.isPrefixOf_iff_prefix]
    cases hplain : isImplicitSha256Digest comp with
    | false => rw [inRange_plain hcomp hplain (htable stored hstored), isPrefixOf_getFullName hplain]
    | true =>
      have hnone := hdigest comp rfl hplain stored hstored
      rw [inRange_digest hcomp hplain (htable stored hstored), getFullName, List.prefix_concat_iff]
      refine or_congr_right ⟨?_, fun hprefix => ⟨(hnone comp hplain hprefix).mpr rfl, comp, hplain, hprefix⟩⟩
      rintro ⟨hoverflow, inner, hinner, hprefix⟩
      rwa [← (hnone inner hinner hprefix).mp hoverflow]

end Ranges

section Examples

def dataOf (name : Name) : Data := ⟨name, ⟨0, 0, none, []⟩, ⟨21, []⟩, none, none⟩

def storedOf (it : ℕ) (name : Name) : Stored := ⟨it, ⟨dataOf name, false, 0⟩⟩

/-- All octets are the first one of the value of the last component. -/
def toyDigest (data : Data) : Vector UInt8 32 :=
  Vector.replicate 32 (((data.m_name.getLast?.map Block.value).getD []).headD 0)

def digest (octet : UInt8) : Component := ⟨1, List.replicate 32 octet⟩

def maximalName : Name := [⟨8, [255]⟩, digest 255]

def smallTable : List Stored := [storedOf 0 [⟨8, [1]⟩], storedOf 1 [⟨8, [255]⟩], storedOf 2 [⟨8, [255]⟩, ⟨8, [3]⟩]]

theorem isLess_order_and_ranges_maximal :
    between smallTable (lowerBound toyDigest smallTable (.query maximalName)) (lastOf toyDigest smallTable maximalName) =
      smallTable.filter (fun stored => List.isPrefixOf maximalName (getFullName toyDigest stored.entry.m_data)) ∧
    (smallTable.filter (fun stored => List.isPrefixOf maximalName (getFullName toyDigest stored.entry.m_data))).map
      Stored.it = [1] := by
  refine ⟨(isLess_order_and_ranges ?_ ?_ ?_ ?_).2, ?_⟩
  · unfold Sorted
    decide
  · unfold ValidTable ValidName
    decide
  · unfold ValidName
    decide
  · have hplain : ∀ stored ∈ smallTable, ∀ comp ∈ stored.entry.m_data.m_name, isImplicitSha256Digest comp = false := by
      decide
    intro last _ _ stored hstored inner hinner hprefixed
    rw [hplain stored hstored inner (hprefixed.subset (by simp))] at hinner
    cases hinner
  · decide

/-- An implicit digest before the last component makes a cycle of the order; the successor of the
empty name is the first name, which is why `find` and `erase` take the end of the table; Data
that goes on from a digest comes after all digests; octets that are no digest have no such successor. -/
theorem not_isLess_order_and_ranges :
    (¬ ∀ a b c, EntryImpl.isLess toyDigest a b = true → EntryImpl.isLess toyDigest b c = true →
      EntryImpl.isLess toyDigest a c = true) ∧
    between smallTable (lowerBound toyDigest smallTable (.query []))
      (lowerBound toyDigest smallTable (.query (Name.getSuccessor []))) ≠
        smallTable.filter (fun stored => List.isPrefixOf [] (getFullName toyDigest stored.entry.m_data)) ∧
    between [storedOf 0 [digest 7, digest 7]] (lowerBound toyDigest [storedOf 0 [digest 7, digest 7]] (.query [digest 7]))
      (lowerBound toyDigest [storedOf 0 [digest 7, digest 7]] (.query (Name.getSuccessor [digest 7]))) ≠
        [storedOf 0 [digest 7, digest 7]].filter
          (fun stored => List.isPrefixOf [digest 7] (getFullName toyDigest stored.entry.m_data)) ∧
    between [storedOf 0 [⟨2, List.replicate 32 0⟩]]
      (lowerBound toyDigest [storedOf 0 [⟨2, List.replicate 32 0⟩]] (.query [⟨2, [255]⟩]))
      (lowerBound toyDigest [storedOf 0 [⟨2, List.replicate 32 0⟩]] (.query (Name.getSuccessor [⟨2, [255]⟩]))) ≠
        [storedOf 0 [⟨2, List.replicate 32 0⟩]].filter
          (fun stored => List.isPrefixOf [⟨2, [255]⟩] (getFullName toyDigest stored.entry.m_data)) := by
  refine ⟨fun htrans => ?_, by decide +kernel, by decide +kernel, by decide +kernel⟩
  have hless := htrans (.stored (dataOf [⟨8, [7]⟩])) (.query [⟨8, [7]⟩, digest 0, ⟨8, [7]⟩]) (.query [⟨8, [7]⟩, digest 7])
    (by decide +kernel) (by decide +kernel)
  revert hless
  decide +kernel

end Examples

end LeoNdn.EntryOrder
