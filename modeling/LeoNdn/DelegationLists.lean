import LeoNdn.ContentStoreTable
import LeoNdn.SortedLists

/-!
The delegations of a forwarding hint: the operations of the list, its encoding,
and what the decoder gives back when it sorts and when it does not.
-/

namespace LeoNdn.DelegationLists

open LeoNdn.Loops LeoNdn.Tlv LeoNdn.TlvEncoding LeoNdn.NdnPacket LeoNdn.NdnEncoding LeoNdn.InterestSelectors LeoNdn.SortedLists
open LeoNdn.ContentStoreTable (compareNames)

structure Delegation where
  preference : UInt64
  name : Name
  deriving DecidableEq, Repr

/-- `operator<`. -/
def Delegation.isBefore (lhs rhs : Delegation) : Bool :=
  lhs.preference < rhs.preference || (lhs.preference = rhs.preference && compareNames lhs.name rhs.name = .lt)

structure DelegationList where
  m_isSorted : Bool
  m_dels : List Delegation
  deriving DecidableEq, Repr

inductive InsertConflictResolution
  | INS_REPLACE
  | INS_APPEND
  | INS_SKIP
  deriving DecidableEq, Repr

def DelegationList.isValidTlvType (type : ℕ) : Bool := type = 21 || type = 30

def DelegationList.insertImpl (list : DelegationList) (del : Delegation) : DelegationList :=
  if list.m_isSorted then { list with m_dels := insertUpper Delegation.isBefore del list.m_dels }
  else { list with m_dels := list.m_dels ++ [del] }

def DelegationList.eraseImpl (list : DelegationList) (preference : Option UInt64) (name : Name) : DelegationList :=
  { list with
    m_dels := list.m_dels.filter (fun del => ! (preference.all (del.preference = ·) && Name.equals del.name name)) }

def DelegationList.insert (list : DelegationList) (del : Delegation) : InsertConflictResolution → DelegationList
  | .INS_REPLACE => (list.eraseImpl none del.name).insertImpl del
  | .INS_APPEND => list.insertImpl del
  | .INS_SKIP => if list.m_dels.any (fun other => Name.equals other.name del.name) then list else list.insertImpl del

def DelegationList.sort (list : DelegationList) : DelegationList :=
  if list.m_isSorted then list else list.m_dels.foldl DelegationList.insertImpl ⟨true, []⟩

def encodeDelegation (del : Delegation) : Block :=
  makeBlock 31 [makeNonNegativeIntegerBlock 30 del.preference.toNat, encodeName del.name]

def DelegationList.wireEncode (list : DelegationList) (type : ℕ) : Except Exception Block :=
  if ! DelegationList.isValidTlvType type then
    .error (.invalidArgument ("Invalid TLV-TYPE " ++ toString type ++ " when encoding DelegationList"))
  else if list.m_dels = [] then .error (.tlvError "Empty DelegationList")
  else .ok (makeBlock type (list.m_dels.map encodeDelegation))

/-- The handler around the decoder of a field. -/
def invalidField {α : Type} (field : String) : Except Exception α → Except Exception α
  | .error (.tlvError what) => .error (.tlvError ("Invalid " ++ field ++ " field in Delegation: " ++ what))
  | result => result

def decodeDelegation (del : Block) : Except Exception Delegation := do
  if del.type ≠ 31 then
    .error (.tlvError ("Unexpected TLV-TYPE " ++ toString del.type ++ " when decoding Delegation"))
  else do
    let elements ← del.parse
    match takeType 30 elements with
    | (none, _) => .error (.tlvError "Missing Preference field in Delegation")
    | (some val, elements) => do
      let preference ← invalidField "Preference" (readNonNegativeInteger val)
      match takeType 7 elements with
      | (none, _) => .error (.tlvError "Missing Name field in Delegation")
      | (some val, _) => do
        let name ← invalidField "Name" (Name.wireDecode val)
        .ok ⟨UInt64.ofNat preference, name⟩

def decodeDelegations : DelegationList → List Block → Except Exception DelegationList
  | list, [] => .ok list
  | list, element :: elements => do
    let del ← decodeDelegation element
    decodeDelegations (list.insertImpl del) elements

def DelegationList.wireDecode (block : Block) (wantSort : Bool) : Except Exception DelegationList := do
  if ! DelegationList.isValidTlvType block.type then
    .error (.tlvError ("Unexpected TLV-TYPE " ++ toString block.type ++ " when decoding DelegationList"))
  else do
    let elements ← block.parse
    let list ← decodeDelegations ⟨wantSort, []⟩ elements
    if list.m_dels = [] then .error (.tlvError "Empty DelegationList") else .ok list

inductive DelegationList.Built : DelegationList → Prop
  | empty : DelegationList.Built ⟨true, []⟩
  | insert {list : DelegationList} {del : Delegation} (onConflict : InsertConflictResolution) :
      DelegationList.Built list → Name.TypesOk del.name → DelegationList.Built (list.insert del onConflict)
  | erase {list : DelegationList} (preference : Option UInt64) (name : Name) :
      DelegationList.Built list → DelegationList.Built (list.eraseImpl preference name)
  | sort {list : DelegationList} : DelegationList.Built list → DelegationList.Built list.sort
  | wireDecode {list : DelegationList} {block : Block} {wantSort : Bool} :
      DelegationList.wireDecode block wantSort = .ok list → DelegationList.Built list

structure DelegationList.WellFormed (list : DelegationList) : Prop where
  sorted : list.m_isSorted = true → Sorted Delegation.isBefore list.m_dels
  names : ∀ del ∈ list.m_dels, Name.TypesOk del.name

section Order

open Std

theorem compareNames_eq : compareNames = List.compareLex compareComponents := by
  funext name other
  induction name generalizing other with
  | nil => cases other <;> rfl
  | cons component name ih =>
    cases other with
    | nil => rfl
    | cons other others => rw [compareNames, ih, List.compareLex_cons_cons]

theorem isBefore_iff {lhs rhs : Delegation} : lhs.isBefore rhs = true ↔
    lhs.preference < rhs.preference ∨ lhs.preference = rhs.preference ∧ compareNames lhs.name rhs.name = .lt := by
  simp only [Delegation.isBefore, Bool.or_eq_true, Bool.and_eq_true, decide_eq_true_eq]

theorem strictOrder_isBefore : StrictOrder Delegation.isBefore where
  irrefl := by
    intro a
    rw [Bool.eq_false_iff, Ne, isBefore_iff, compareNames_eq]
    rintro (h | ⟨-, h⟩)
    · exact UInt64.lt_irrefl _ h
    · have hself : List.compareLex compareComponents a.name a.name = .eq := ReflCmp.compare_self
      rw [hself] at h
      cases h
  trans := by
    intro a b c hab hbc
    rw [isBefore_iff, compareNames_eq] at hab hbc ⊢
    rcases hab with hab | ⟨hab, hnames⟩
    · rcases hbc with hbc | ⟨hbc, -⟩
      · exact Or.inl (UInt64.lt_trans hab hbc)
      · exact Or.inl (hbc ▸ hab)
    · rcases hbc with hbc | ⟨hbc, hnames'⟩
      · exact Or.inl (hab ▸ hbc)
      · exact Or.inr ⟨hab.trans hbc, TransCmp.lt_trans hnames hnames'⟩

end Order

section Operations

variable {list list' : DelegationList} {del : Delegation}

theorem WellFormed.insertImpl (hwf : DelegationList.WellFormed list) (hname : Name.TypesOk del.name) :
    DelegationList.WellFormed (list.insertImpl del) := by
  unfold DelegationList.insertImpl
  split
  · rename_i hsorted
    refine ⟨fun _ => insertUpper_sorted strictOrder_isBefore (hwf.sorted hsorted), fun other hother => ?_⟩
    rcases List.mem_cons.mp ((insertUpper_perm del list.m_dels).mem_iff.mp hother) with rfl | h
    · exact hname
    · exact hwf.names other h
  · rename_i hsorted
    refine ⟨fun h => absurd h hsorted, fun other hother => ?_⟩
    rcases List.mem_append.mp hother with h | h
    · exact hwf.names other h
    · rw [List.mem_singleton.mp h]
      exact hname

theorem WellFormed.eraseImpl (hwf : DelegationList.WellFormed list) (preference : Option UInt64) (name : Name) :
    DelegationList.WellFormed (list.eraseImpl preference name) :=
  ⟨fun h => (hwf.sorted h).sublist List.filter_sublist, fun del hdel => hwf.names del (List.mem_of_mem_filter hdel)⟩

theorem WellFormed.insert (hwf : DelegationList.WellFormed list) (hname : Name.TypesOk del.name)
    (onConflict : InsertConflictResolution) : DelegationList.WellFormed (list.insert del onConflict) := by
  cases onConflict with
  | INS_REPLACE => exact WellFormed.insertImpl (WellFormed.eraseImpl hwf none del.name) hname
  | INS_APPEND => exact WellFormed.insertImpl hwf hname
  | INS_SKIP =>
    rw [DelegationList.insert]
    split
    · exact hwf
    · exact WellFormed.insertImpl hwf hname

theorem WellFormed.foldl_insertImpl {dels : List Delegation} (hwf : DelegationList.WellFormed list)
    (hnames : ∀ del ∈ dels, Name.TypesOk del.name) :
    DelegationList.WellFormed (dels.foldl DelegationList.insertImpl list) := by
  induction dels generalizing list with
  | nil => exact hwf
  | cons del dels ih =>
    exact ih (WellFormed.insertImpl hwf (hnames del List.mem_cons_self)) fun other hother =>
      hnames other (List.mem_cons_of_mem _ hother)

theorem WellFormed.empty (wantSort : Bool) : DelegationList.WellFormed ⟨wantSort, []⟩ :=
  ⟨fun _ => List.Pairwise.nil, fun _ h => absurd h List.not_mem_nil⟩

theorem wireDecode_typesOk {wire : Block} {name : Name} (h : Name.wireDecode wire = .ok name) : Name.TypesOk name := by
  unfold Name.wireDecode at h
  split at h
  · cases h
  · exact parse_types_le h

theorem invalidField_ok {α : Type} {field : String} {result : Except Exception α} {a : α}
    (h : invalidField field result = .ok a) : result = .ok a := by
  unfold invalidField at h
  split at h
  · cases h
  · exact h

theorem decodeDelegation_typesOk {element : Block} (h : decodeDelegation element = .ok del) : Name.TypesOk del.name := by
  unfold decodeDelegation at h
  split at h
  · cases h
  · obtain ⟨elements, -, h⟩ := ok_of_bind h
    split at h
    · cases h
    · obtain ⟨preference, -, h⟩ := ok_of_bind h
      split at h
      · cases h
      · obtain ⟨name, hname, h⟩ := ok_of_bind h
        cases h
        exact wireDecode_typesOk (invalidField_ok hname)

theorem WellFormed.decodeDelegations {elements : List Block} (hwf : DelegationList.WellFormed list)
    (h : decodeDelegations list elements = .ok list') : DelegationList.WellFormed list' := by
  induction elements generalizing list with
  | nil =>
    cases h
    exact hwf
  | cons element elements ih =>
    obtain ⟨del, hdecode, h⟩ := ok_of_bind h
    exact ih (WellFormed.insertImpl hwf (decodeDelegation_typesOk hdecode)) h

theorem WellFormed.wireDecode {block : Block} {wantSort : Bool}
    (h : DelegationList.wireDecode block wantSort = .ok list) : DelegationList.WellFormed list := by
  unfold DelegationList.wireDecode at h
  split at h
  · cases h
  · obtain ⟨elements, -, h⟩ := ok_of_bind h
    obtain ⟨list', hdecode, h⟩ := ok_of_bind h
    split at h
    · cases h
    · cases h
      exact WellFormed.decodeDelegations (WellFormed.empty wantSort) hdecode

theorem Built.wellFormed (h : DelegationList.Built list) : DelegationList.WellFormed list := by
  induction h with
  | empty => exact WellFormed.empty true
  | insert onConflict _ hname ih => exact WellFormed.insert ih hname onConflict
  | erase preference name _ ih => exact WellFormed.eraseImpl ih preference name
  | sort _ ih =>
    unfold DelegationList.sort
    split
    · exact ih
    · exact WellFormed.foldl_insertImpl (WellFormed.empty true) ih.names
  | wireDecode h => exact WellFormed.wireDecode h

end Operations

section RoundTrip

variable {dels : List Delegation}

theorem foldl_insertImpl_unsorted (first : List Delegation) :
    dels.foldl DelegationList.insertImpl ⟨false, first⟩ = ⟨false, first ++ dels⟩ := by
  induction dels generalizing first with
  | nil => rw [List.append_nil, List.foldl_nil]
  | cons del dels ih =>
    have hinsert : DelegationList.insertImpl ⟨false, first⟩ del = ⟨false, first ++ [del]⟩ := rfl
    rw [List.foldl_cons, hinsert, ih, List.append_assoc]
    rfl

theorem foldl_insertImpl_sorted (sorted : List Delegation) :
    dels.foldl DelegationList.insertImpl ⟨true, sorted⟩ =
      ⟨true, dels.foldl (fun sorted del => insertUpper Delegation.isBefore del sorted) sorted⟩ := by
  induction dels generalizing sorted with
  | nil => rfl
  | cons del dels ih =>
    have hinsert : DelegationList.insertImpl ⟨true, sorted⟩ del =
        ⟨true, insertUpper Delegation.isBefore del sorted⟩ := rfl
    rw [List.foldl_cons, hinsert, ih, List.foldl_cons]

theorem decodeDelegation_encode {del : Delegation} (hname : Name.TypesOk del.name)
    (hlength : (encodeDelegation del).value.length < 18446744073709551616) :
    decodeDelegation (encodeDelegation del) = .ok del := by
  have htypes : ∀ element ∈ [makeNonNegativeIntegerBlock 30 del.preference.toNat, encodeName del.name],
      element.type ≤ 4294967295 := by
    intro element helement
    rcases List.mem_cons.mp helement with rfl | helement
    · change 30 ≤ 4294967295
      decide
    · rw [List.mem_singleton.mp helement]
      change 7 ≤ 4294967295
      decide
  have hparse : (encodeDelegation del).parse = _ := parse_elements htypes hlength
  have hnumber : readNonNegativeInteger (makeNonNegativeIntegerBlock 30 del.preference.toNat) =
      .ok del.preference.toNat := readNonNegativeInteger_encode del.preference.toNat_lt 30
  have hencoded : Name.wireDecode (encodeName del.name) = .ok del.name :=
    wireDecode_encodeName hname ((length_le_makeBlock 31 (by simp)).trans_lt hlength)
  have htype : (makeNonNegativeIntegerBlock 30 del.preference.toNat).type = 30 := rfl
  have hnameType : (encodeName del.name).type = 7 := rfl
  have hdelType : (encodeDelegation del).type = 31 := rfl
  rw [decodeDelegation, hparse]
  simp [bind, Except.bind, hdelType, takeType, htype, hnameType, hnumber, hencoded, invalidField]

theorem decodeDelegations_encode (list : DelegationList) (hnames : ∀ del ∈ dels, Name.TypesOk del.name)
    (hlengths : ∀ del ∈ dels, (encodeDelegation del).value.length < 18446744073709551616) :
    decodeDelegations list (dels.map encodeDelegation) = .ok (dels.foldl DelegationList.insertImpl list) := by
  induction dels generalizing list with
  | nil => rfl
  | cons del dels ih =>
    rw [List.map_cons, decodeDelegations, decodeDelegation_encode (hnames del List.mem_cons_self)
      (hlengths del List.mem_cons_self)]
    exact ih (list.insertImpl del) (fun other hother => hnames other (List.mem_cons_of_mem _ hother))
      fun other hother => hlengths other (List.mem_cons_of_mem _ hother)

theorem wireDecode_wireEncode {list : DelegationList} {type : ℕ} (hnames : ∀ del ∈ list.m_dels, Name.TypesOk del.name)
    (wantSort : Bool) {wire : Block} (h : list.wireEncode type = .ok wire)
    (hlength : wire.value.length < 18446744073709551616) :
    DelegationList.wireDecode wire wantSort =
      .ok ⟨wantSort, if wantSort then SortedLists.sort Delegation.isBefore list.m_dels else list.m_dels⟩ := by
  unfold DelegationList.wireEncode at h
  split at h
  · cases h
  rename_i hvalid
  split at h
  · cases h
  rename_i hne
  cases h
  have htypes : ∀ element ∈ list.m_dels.map encodeDelegation, element.type ≤ 4294967295 := by
    intro element helement
    obtain ⟨del, -, rfl⟩ := List.mem_map.mp helement
    change 31 ≤ 4294967295
    decide
  have hlengths : ∀ del ∈ list.m_dels, (encodeDelegation del).value.length < 18446744073709551616 := fun del hdel =>
    (length_le_makeBlock type (List.mem_map_of_mem hdel)).trans_lt hlength
  have hdecode := decodeDelegations_encode ⟨wantSort, []⟩ hnames hlengths
  have hfold : list.m_dels.foldl DelegationList.insertImpl ⟨wantSort, []⟩ =
      ⟨wantSort, if wantSort then SortedLists.sort Delegation.isBefore list.m_dels else list.m_dels⟩ := by
    cases wantSort with
    | true => exact foldl_insertImpl_sorted []
    | false => exact foldl_insertImpl_unsorted []
  rw [hfold] at hdecode
  have hne' : (if wantSort then SortedLists.sort Delegation.isBefore list.m_dels else list.m_dels) ≠ [] := by
    cases wantSort with
    | true =>
      have hperm : (SortedLists.sort Delegation.isBefore list.m_dels).Perm list.m_dels := sort_perm list.m_dels
      intro hnil
      simp only [if_true] at hnil
      rw [hnil] at hperm
      exact hne hperm.symm.eq_nil
    | false => exact hne
  have hvalid' : ¬ (! DelegationList.isValidTlvType (makeBlock type (list.m_dels.map encodeDelegation)).type) = true :=
    hvalid
  rw [DelegationList.wireDecode, if_neg hvalid', parse_elements htypes hlength]
  simp only [bind, Except.bind, hdecode]
  exact if_neg hne'

end RoundTrip

end LeoNdn.DelegationLists
