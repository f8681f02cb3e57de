import Mathlib.Logic.Relation
import LeoNdn.NameTreeIterator

/-!
What the range of `partialEnumerate` is, in every state that the calls of the
name tree lead to.
-/

namespace LeoNdn.PartialEnumeration

open LeoNdn.NameTree LeoNdn.NameTreeIterator

variable {κ τ : Type}

section Order

variable {maxDepth : ℕ} {tree : Tree κ τ} {pred : Entry κ τ → Bool × Bool}

theorem not_prefix_of_siblings (hwf : WellFormed maxDepth tree) {name child child' name' name'' : List κ}
    (hchild : child ∈ getChildren tree name) (hchild' : child' ∈ getChildren tree name) (hne : child ≠ child')
    (hunder : child <+: name') (hunder' : child' <+: name'') : ¬ name'' <+: name' := by
  intro hle
  have hlength := length_child hwf hchild
  have hlength' := length_child hwf hchild'
  apply hne
  rw [← take_eq_of_isPrefix hunder, ← take_eq_of_isPrefix (hunder'.trans hle), hlength, hlength']

theorem subtree_parents_first (hwf : WellFormed maxDepth tree) (n : ℕ) (name : List κ) :
    (subtree tree pred n name).Pairwise (fun name' name'' => ¬ name'' <+: name') := by
  induction n generalizing name with
  | zero => exact List.Pairwise.nil
  | succ n ih =>
    rw [subtree, List.pairwise_append]
    refine ⟨?_, ?_, ?_⟩
    · split
      · exact List.pairwise_singleton _ _
      · exact List.Pairwise.nil
    · split
      · refine List.pairwise_flatMap.mpr ⟨fun child _ => ih child, ?_⟩
        refine (nodup_getChildren hwf name).imp_of_mem fun {child child'} hchild hchild' hne => ?_
        intro name' hmem name'' hmem'
        exact not_prefix_of_siblings hwf hchild hchild' hne (prefix_of_mem_subtree hwf hmem)
          (prefix_of_mem_subtree hwf hmem')
      · exact List.Pairwise.nil
    · intro name' hself name'' hbelow hle
      have hname : name' = name := List.mem_singleton.mp (List.mem_ite_nil_right.mp hself).2
      split at hbelow
      · obtain ⟨child, hchild, hmem⟩ := List.mem_flatMap.mp hbelow
        have hlength := ((prefix_of_mem_subtree hwf hmem).trans hle).length_le
        rw [length_child hwf hchild, hname] at hlength
        omega
      · exact absurd hbelow List.not_mem_nil

end Order

section Ranges

/-- No node above the name, from the prefix on, has its children declined. -/
def NoneDeclined (tree : Tree κ τ) (pred : Entry κ τ → Bool × Bool) (namePrefix name : List κ) : Prop :=
  ∀ ancestor, namePrefix <+: ancestor → ancestor <+: name → ancestor ≠ name → (select tree pred ancestor).2 = true

structure Enumerates (tree : Tree κ τ) (pred : Entry κ τ → Bool × Bool) (namePrefix : List κ)
    (names : List (List κ)) : Prop where
  mem_iff : ∀ name, name ∈ names ↔ (tree name).isSome ∧ namePrefix <+: name ∧ (select tree pred name).1 = true ∧
    NoneDeclined tree pred namePrefix name
  nodup : names.Nodup
  parents_first : names.Pairwise (fun name name' => ¬ name' <+: name)

variable {maxDepth : ℕ} {tree : Tree κ τ} {pred : Entry κ τ → Bool × Bool} {namePrefix name : List κ}

theorem noneDeclined_iff (hunder : namePrefix <+: name) : NoneDeclined tree pred namePrefix name ↔
    ∀ i, namePrefix.length ≤ i → i < name.length → (select tree pred (name.take i)).2 = true := by
  constructor
  · intro h i hi hi'
    apply h
    · exact List.prefix_take_iff.mpr ⟨hunder, hi⟩
    · exact List.take_prefix i name
    · intro heq
      have hlength := congrArg List.length heq
      rw [List.length_take] at hlength
      omega
  · intro h ancestor hle hle' hne
    have hlt : ancestor.length < name.length :=
      Nat.lt_of_le_of_ne hle'.length_le fun hlength => hne (hle'.eq_of_length hlength)
    have hwant := h ancestor.length hle.length_le hlt
    rwa [take_eq_of_isPrefix hle'] at hwant

theorem enumerates_subtree (hwf : WellFormed maxDepth tree) (pred : Entry κ τ → Bool × Bool) (namePrefix : List κ) :
    Enumerates tree pred namePrefix (subtree tree pred (maxDepth + 1) namePrefix) where
  mem_iff name := by
    rw [mem_subtree hwf (by omega)]
    constructor
    · rintro ⟨hunder, haccepted, hsome, hway⟩
      exact ⟨hsome, hunder, haccepted, (noneDeclined_iff hunder).mpr hway⟩
    · rintro ⟨hsome, hunder, haccepted, hnone⟩
      exact ⟨hunder, haccepted, hsome, (noneDeclined_iff hunder).mp hnone⟩
  nodup := nodup_subtree hwf _ _
  parents_first := subtree_parents_first hwf _ _

end Ranges

section Runs

variable [DecidableEq κ] (noTables : τ) (hasTableEntries : τ → Bool) (maxDepth : ℕ)

inductive Call (tree : Tree κ τ) : Tree κ τ → Prop where
  | lookup (name : List κ) (prefixLen : ℕ) : prefixLen ≤ name.length → prefixLen ≤ maxDepth →
      Call tree (lookup noTables tree name prefixLen)
  | setTables (name : List κ) (f : τ → τ) : Call tree (modify tree name (Entry.setTables f))
  | eraseIfEmpty (name : List κ) (canEraseAncestors : Bool) :
      Call tree (eraseIfEmpty hasTableEntries tree name canEraseAncestors)

def Reachable (tree : Tree κ τ) : Prop := Relation.ReflTransGen (Call noTables hasTableEntries maxDepth) empty tree

variable {noTables hasTableEntries maxDepth} {tree tree' : Tree κ τ}

theorem wellFormed_call (hwf : WellFormed maxDepth tree) (hcall : Call noTables hasTableEntries maxDepth tree tree') :
    WellFormed maxDepth tree' := by
  cases hcall with
  | lookup name prefixLen hname hdepth => exact wellFormed_lookup hwf hname hdepth
  | setTables name f => exact wellFormed_setTables hwf
  | eraseIfEmpty name canEraseAncestors => exact wellFormed_eraseLoop hwf _ _

theorem Reachable.wellFormed (h : Reachable noTables hasTableEntries maxDepth tree) : WellFormed maxDepth tree := by
  induction h with
  | refl => exact wellFormed_empty maxDepth
  | tail _ hcall ih => exact wellFormed_call ih hcall

theorem partialEnumerate_range (h : Reachable noTables hasTableEntries maxDepth tree) (namePrefix : List κ)
    (pred : Entry κ τ → Bool × Bool) :
    ∃ names, Enumerates tree pred namePrefix names ∧
      ∃ rounds, ∀ r, rounds ≤ r → partialEnumerate r tree namePrefix pred = some names :=
  ⟨_, enumerates_subtree h.wellFormed pred namePrefix, partialEnumerate_eq h.wellFormed pred namePrefix⟩

/-- The node of `[1]` is accepted and its children are declined. -/
theorem partialEnumerate_range_declined :
    ∃ names, Enumerates (lookup 0 (lookup 0 (empty : Tree ℕ ℕ) [1, 2] 2) [3] 1)
        (fun entry => (entry.m_name ≠ [], entry.m_name ≠ [1])) [] names ∧
      ∃ rounds, ∀ r, rounds ≤ r → partialEnumerate r (lookup 0 (lookup 0 (empty : Tree ℕ ℕ) [1, 2] 2) [3] 1) []
        (fun entry => (entry.m_name ≠ [], entry.m_name ≠ [1])) = some names := by
  have hreach : Reachable 0 (fun tables => tables != 0) 32 (lookup 0 (lookup 0 (empty : Tree ℕ ℕ) [1, 2] 2) [3] 1) :=
    Relation.ReflTransGen.tail (Relation.ReflTransGen.single (Call.lookup [1, 2] 2 (by decide) (by decide)))
      (Call.lookup [3] 1 (by decide) (by decide))
  exact partialEnumerate_range hreach [] _

example : partialEnumerate 9 (lookup 0 (lookup 0 (empty : Tree ℕ ℕ) [1, 2] 2) [3] 1) []
    (fun entry => (entry.m_name ≠ [], entry.m_name ≠ [1])) = some [[1], [3]] := by decide

end Runs

end LeoNdn.PartialEnumeration
