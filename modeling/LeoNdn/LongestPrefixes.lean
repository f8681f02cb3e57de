import LeoNdn.NameTree
import Mathlib.Data.List.Induction
import Mathlib.Tactic.ByContra

/-!
The longest prefix of a name that has something, and the lookups of a tree of names
that find it.
-/

namespace LeoNdn.LongestPrefixes

open LeoNdn.NameTree

variable {κ τ : Type}

section Prefixes

variable {has has' : List κ → Prop} {name shorter namePrefix namePrefix' : List κ}

def IsLongest (has : List κ → Prop) (name namePrefix : List κ) : Prop :=
  namePrefix <+: name ∧ has namePrefix ∧
    ∀ namePrefix', namePrefix' <+: name → has namePrefix' → namePrefix'.length ≤ namePrefix.length

theorem IsLongest.unique (h : IsLongest has name namePrefix) (h' : IsLongest has name namePrefix') :
    namePrefix = namePrefix' := by
  have hlength := Nat.le_antisymm (h'.2.2 _ h.1 h.2.1) (h.2.2 _ h'.1 h'.2.1)
  exact (List.prefix_of_prefix_length_le h.1 h'.1 (Nat.le_of_eq hlength)).eq_of_length hlength

theorem isLongest_self (h : has name) : IsLongest has name namePrefix ↔ namePrefix = name := by
  constructor
  · rintro ⟨hpre, -, hlongest⟩
    exact hpre.eq_of_length (Nat.le_antisymm hpre.length_le (hlongest name List.prefix_rfl h))
  · rintro rfl
    exact ⟨List.prefix_rfl, h, fun _ hpre _ => hpre.length_le⟩

theorem isLongest_shorter (hshorter : shorter <+: name) (hall : ∀ p, p <+: name → has p → p <+: shorter) :
    IsLongest has shorter namePrefix ↔ IsLongest has name namePrefix := by
  constructor
  · rintro ⟨hpre, hhas, hlongest⟩
    exact ⟨hpre.trans hshorter, hhas, fun p hp hhas' => hlongest p (hall p hp hhas') hhas'⟩
  · rintro ⟨hpre, hhas, hlongest⟩
    exact ⟨hall _ hpre hhas, hhas, fun p hp hhas' => hlongest p (hp.trans hshorter) hhas'⟩

theorem isLongest_congr (hiff : ∀ p, has p ↔ has' p) : IsLongest has name namePrefix ↔ IsLongest has' name namePrefix := by
  simp only [IsLongest, hiff]

theorem exists_isLongest (hroot : has []) (name : List κ) : ∃ namePrefix, IsLongest has name namePrefix := by
  induction name using List.reverseRecOn with
  | nil => exact ⟨[], (isLongest_self hroot).mpr rfl⟩
  | append_singleton name component ih =>
    rcases Classical.em (has (name ++ [component])) with hself | hnot
    · exact ⟨_, (isLongest_self hself).mpr rfl⟩
    · obtain ⟨namePrefix, hlongest⟩ := ih
      refine ⟨namePrefix, (isLongest_shorter (List.prefix_append name [component]) fun p hp hhas => ?_).mp hlongest⟩
      rcases List.prefix_concat_iff.mp hp with rfl | hshort
      · exact absurd hhas hnot
      · exact hshort

end Prefixes

section Values

variable {α : Type} {c c' : List κ → Option α} {changed name : List κ} {value : α}

def Effective (c : List κ → Option α) (name : List κ) (value : α) : Prop :=
  ∃ namePrefix, IsLongest (fun p => (c p).isSome = true) name namePrefix ∧ c namePrefix = some value

theorem Effective.unique {value' : α} (h : Effective c name value) (h' : Effective c name value') : value = value' := by
  obtain ⟨namePrefix, hlongest, hvalue⟩ := h
  obtain ⟨namePrefix', hlongest', hvalue'⟩ := h'
  obtain rfl := hlongest.unique hlongest'
  exact Option.some.inj (hvalue.symm.trans hvalue')

theorem effective_self (h : c name = some value) : Effective c name value :=
  ⟨name, (isLongest_self (by rw [h]; rfl)).mpr rfl, h⟩

theorem exists_effective (hroot : (c []).isSome = true) (name : List κ) : ∃ value, Effective c name value := by
  have hexists : ∃ namePrefix, IsLongest (fun p => (c p).isSome = true) name namePrefix := exists_isLongest hroot name
  obtain ⟨namePrefix, hlongest⟩ := hexists
  obtain ⟨value, hvalue⟩ := Option.isSome_iff_exists.mp hlongest.2.1
  exact ⟨value, namePrefix, hlongest, hvalue⟩

theorem effective_shorter {shorter : List κ} (hshorter : shorter <+: name)
    (hall : ∀ p, p <+: name → (c p).isSome = true → p <+: shorter) : Effective c shorter value ↔ Effective c name value := by
  simp only [Effective, isLongest_shorter hshorter hall]

theorem effective_below (hlongest : IsLongest (fun p => (c p).isSome = true ∨ p = changed) name changed) :
    Effective c changed value ↔ Effective c name value := by
  refine effective_shorter hlongest.1 fun p hp hsome => ?_
  exact List.prefix_of_prefix_length_le hp hlongest.1 (hlongest.2.2 p hp (Or.inl hsome))

theorem effective_elsewhere (hagree : ∀ p, p ≠ changed → c p = c' p)
    (hnot : ¬ IsLongest (fun p => (c p).isSome = true ∨ p = changed) name changed) (hroot : (c []).isSome = true)
    (h : Effective c name value) : Effective c' name value := by
  have hexists : ∃ namePrefix, IsLongest (fun p => (c p).isSome = true ∨ p = changed) name namePrefix :=
    exists_isLongest (Or.inl hroot) name
  obtain ⟨namePrefix, hlongest⟩ := hexists
  have hne : namePrefix ≠ changed := by
    rintro rfl
    exact hnot hlongest
  have hsome : (c namePrefix).isSome = true := hlongest.2.1.resolve_right hne
  have hown : IsLongest (fun p => (c p).isSome = true) name namePrefix :=
    ⟨hlongest.1, hsome, fun p hp hhas => hlongest.2.2 p hp (Or.inl hhas)⟩
  obtain ⟨namePrefix', hlongest', hvalue⟩ := h
  obtain rfl := hown.unique hlongest'
  have hvalue' : c' namePrefix = some value := (hagree _ hne).symm.trans hvalue
  refine ⟨namePrefix, ⟨hlongest.1, by simp [hvalue'], fun p hp hhas => ?_⟩, hvalue'⟩
  by_cases heq : p = changed
  · exact hlongest.2.2 p hp (Or.inr heq)
  · exact hlongest.2.2 p hp (Or.inl (by rwa [hagree p heq]))

end Values

section Lookup

variable {maxDepth : ℕ} {tree : Tree κ τ} {name namePrefix : List κ} {entry : Entry κ τ}
variable {entrySelector : Entry κ τ → Bool}

def Selected (tree : Tree κ τ) (entrySelector : Entry κ τ → Bool) (name : List κ) : Prop := (tree name).any entrySelector = true

theorem selected_iff : Selected tree entrySelector name ↔ ∃ entry, tree name = some entry ∧ entrySelector entry = true := by
  rw [Selected, Option.any_eq_true]

theorem isSome_of_selected (h : Selected tree entrySelector name) : (tree name).isSome := by
  obtain ⟨entry, hentry, -⟩ := selected_iff.mp h
  rw [hentry]
  rfl

theorem findLongestFrom_iff (hwf : WellFormed maxDepth tree) {n : ℕ} (hn : n ≤ name.length)
    (hdeep : ∀ p, p <+: name → Selected tree entrySelector p → p.length ≤ n) :
    findLongestFrom tree name entrySelector n = some entry ↔
      tree entry.m_name = some entry ∧ IsLongest (Selected tree entrySelector) name entry.m_name := by
  rw [findLongestFrom_eq_some]
  constructor
  · rintro ⟨i, hi, hentry, hselect, hlonger⟩
    have hname := hwf.name_eq hentry
    rw [hname]
    refine ⟨hentry, List.take_prefix _ _, selected_iff.mpr ⟨entry, hentry, hselect⟩, fun p hp hselected => ?_⟩
    rw [List.length_take, Nat.min_eq_left (Nat.le_trans hi hn)]
    by_contra hlt
    obtain ⟨other, hother, hselect'⟩ := selected_iff.mp hselected
    have hnone := hlonger p.length (by omega) (hdeep p hp hselected)
    rw [← List.prefix_iff_eq_take.mp hp, hother, Option.filter_some, if_pos hselect'] at hnone
    cases hnone
  · rintro ⟨hentry, hpre, hselected, hlongest⟩
    obtain ⟨other, hother, hselect⟩ := selected_iff.mp hselected
    obtain rfl := Option.some.inj (hentry.symm.trans hother)
    have htake := List.prefix_iff_eq_take.mp hpre
    refine ⟨entry.m_name.length, hdeep _ hpre hselected, by rw [← htake]; exact hentry, hselect, fun j hj hj' => ?_⟩
    refine Option.filter_eq_none_iff.mpr fun other hother hselect' => ?_
    have hle := hlongest _ (List.take_prefix j name) (selected_iff.mpr ⟨other, hother, hselect'⟩)
    rw [List.length_take] at hle
    omega

theorem findLongestPrefixMatch_iff (hwf : WellFormed maxDepth tree) :
    findLongestPrefixMatch maxDepth tree name entrySelector = some entry ↔
      tree entry.m_name = some entry ∧ IsLongest (Selected tree entrySelector) name entry.m_name :=
  findLongestFrom_iff hwf (Nat.min_le_left _ _) fun _ hp hselected =>
    Nat.le_min.mpr ⟨hp.length_le, hwf.length_le (isSome_of_selected hselected)⟩

theorem findLongestAbove_iff (hwf : WellFormed maxDepth tree) (hsome : (tree name).isSome) :
    findLongestAbove tree entrySelector (name.length + 1) (some name) = some entry ↔
      tree entry.m_name = some entry ∧ IsLongest (Selected tree entrySelector) name entry.m_name := by
  have htake : (tree (name.take name.length)).isSome := by rwa [List.take_length]
  have heq : findLongestAbove tree entrySelector (name.length + 1) (some (name.take name.length)) =
      findLongestFrom tree name entrySelector name.length := findLongestAbove_eq hwf (Nat.le_refl _) htake
  rw [List.take_length] at heq
  rw [heq]
  exact findLongestFrom_iff hwf (Nat.le_refl _) fun _ hp _ => hp.length_le

end Lookup

end LeoNdn.LongestPrefixes
