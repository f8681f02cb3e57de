import Mathlib.Data.List.Nodup
import Mathlib.Data.List.TakeWhile
import Mathlib.Data.Nat.Notation

/-!
Maps ordered by keys that are numbers, as lists of entries: look-up, insertion
and erasure, and the order of the keys when the map is gone through in a circle.
-/

namespace LeoNdn.OrderedMaps

variable {α : Type}

abbrev OrderedMap (α : Type) := List (ℕ × α)

def Ordered (m : OrderedMap α) : Prop := m.Pairwise (fun first second => first.1 < second.1)

def lookup (m : OrderedMap α) (key : ℕ) : Option α := (m.find? (fun entry => entry.1 = key)).map Prod.snd

def emplace (m : OrderedMap α) (key : ℕ) (a : α) : OrderedMap α :=
  if (lookup m key).isSome then m
  else m.filter (fun entry => entry.1 < key) ++ (key, a) :: m.filter (fun entry => ! decide (entry.1 < key))

def erase (m : OrderedMap α) (key : ℕ) : OrderedMap α := m.filter (fun entry => entry.1 ≠ key)

def upperBound (m : OrderedMap α) (key : ℕ) : Option ℕ := (m.find? (fun entry => key < entry.1)).map Prod.fst

/-- The first key after `key`, the first key of the map coming after its last. -/
def circularNext (m : OrderedMap α) (key : ℕ) : Option ℕ :=
  match upperBound m key with
  | some next => some next
  | none => m.head?.map Prod.fst

def circularFrom (m : OrderedMap α) (key : ℕ) : List ℕ :=
  (m.filter (fun entry => key ≤ entry.1) ++ m.filter (fun entry => entry.1 < key)).map Prod.fst

def mapValues (f : ℕ → α → α) (m : OrderedMap α) : OrderedMap α := m.map (fun entry => (entry.1, f entry.1 entry.2))

variable {m : OrderedMap α} {key : ℕ} {a : α}

theorem Ordered.nodup_keys (h : Ordered m) : (m.map Prod.fst).Nodup := by
  rw [List.Nodup, List.pairwise_map]
  exact h.imp fun hlt => hlt.ne

theorem Ordered.eq_of_mem (h : Ordered m) {b : α} (ha : (key, a) ∈ m) (hb : (key, b) ∈ m) : a = b :=
  (Prod.mk.inj (List.inj_on_of_nodup_map h.nodup_keys ha hb rfl)).2

theorem lookup_isSome : (lookup m key).isSome ↔ key ∈ m.map Prod.fst := by
  rw [lookup, Option.isSome_map, List.find?_isSome, List.mem_map]
  simp

theorem mem_of_lookup (h : lookup m key = some a) : (key, a) ∈ m := by
  obtain ⟨entry, hfind, rfl⟩ := Option.map_eq_some_iff.mp h
  have hkey : entry.1 = key := by
    have := List.find?_some hfind
    simpa using this
  rw [← hkey]
  exact List.mem_of_find?_eq_some hfind

theorem Ordered.erase (h : Ordered m) (key : ℕ) : Ordered (erase m key) := h.filter _

theorem mem_erase {entry : ℕ × α} : entry ∈ erase m key ↔ entry ∈ m ∧ entry.1 ≠ key := by
  simp [erase]

theorem emplace_perm (hnew : key ∉ m.map Prod.fst) (a : α) : (emplace m key a).Perm ((key, a) :: m) := by
  rw [emplace, if_neg (by rwa [lookup_isSome])]
  exact List.perm_middle.trans ((List.filter_append_perm _ m).cons _)

theorem mem_of_mem_emplace {entry : ℕ × α} (h : entry ∈ emplace m key a) : entry = (key, a) ∨ entry ∈ m := by
  rw [emplace] at h
  split at h
  · exact Or.inr h
  · rcases List.mem_append.mp h with h | h
    · exact Or.inr (List.mem_of_mem_filter h)
    · rcases List.mem_cons.mp h with h | h
      · exact Or.inl h
      · exact Or.inr (List.mem_of_mem_filter h)

theorem Ordered.emplace (h : Ordered m) (hnew : key ∉ m.map Prod.fst) (a : α) : Ordered (emplace m key a) := by
  have hne : ∀ entry ∈ m, entry.1 ≠ key := fun entry hmem heq => hnew (heq ▸ List.mem_map_of_mem hmem)
  rw [OrderedMaps.emplace, if_neg (by rwa [lookup_isSome])]
  refine List.pairwise_append.mpr ⟨h.filter _, List.pairwise_cons.mpr ⟨?_, h.filter _⟩, ?_⟩
  · intro entry hmem
    obtain ⟨hmem, hge⟩ := List.mem_filter.mp hmem
    have hne' := hne entry hmem
    simp only [Bool.not_eq_eq_eq_not, Bool.not_true, decide_eq_false_iff_not] at hge
    show key < entry.1
    omega
  · intro entry hmem other hother
    obtain ⟨-, hlt⟩ := List.mem_filter.mp hmem
    have hlt' : entry.1 < key := by simpa using hlt
    rcases List.mem_cons.mp hother with rfl | hother
    · exact hlt'
    · obtain ⟨-, hge⟩ := List.mem_filter.mp hother
      simp only [Bool.not_eq_eq_eq_not, Bool.not_true, decide_eq_false_iff_not] at hge
      show entry.1 < other.1
      omega

theorem mem_circularFrom {key' : ℕ} : key' ∈ circularFrom m key ↔ key' ∈ m.map Prod.fst := by
  simp only [circularFrom, List.map_append, List.mem_append, List.mem_map, List.mem_filter, decide_eq_true_eq]
  constructor
  · rintro (⟨entry, ⟨hmem, -⟩, rfl⟩ | ⟨entry, ⟨hmem, -⟩, rfl⟩) <;> exact ⟨entry, hmem, rfl⟩
  · rintro ⟨entry, hmem, rfl⟩
    rcases Nat.lt_or_ge entry.1 key with hlt | hle
    · exact Or.inr ⟨entry, ⟨hmem, hlt⟩, rfl⟩
    · exact Or.inl ⟨entry, ⟨hmem, hle⟩, rfl⟩

theorem Ordered.circularNext (h : Ordered m) (hne : m ≠ []) (key : ℕ) :
    ∃ next, circularNext m key = some next ∧ next ∈ m.map Prod.fst ∧
      ((key < next ∧ ∀ key' ∈ m.map Prod.fst, key < key' → next ≤ key') ∨
        ∀ key' ∈ m.map Prod.fst, key' ≤ key ∧ next ≤ key') := by
  unfold OrderedMaps.circularNext upperBound
  cases hfind : m.find? (fun entry => key < entry.1) with
  | some entry =>
    obtain ⟨hlt, before, after, rfl, hbefore⟩ := List.find?_eq_some_iff_append.mp hfind
    refine ⟨entry.1, rfl, List.mem_map_of_mem (by simp), Or.inl ⟨by simpa using hlt, fun key' hkey' hgt => ?_⟩⟩
    obtain ⟨other, hmem, rfl⟩ := List.mem_map.mp hkey'
    rcases List.mem_append.mp hmem with hmem | hmem
    · have := hbefore other hmem
      simp only [Bool.not_eq_eq_eq_not, Bool.not_true, decide_eq_false_iff_not] at this
      omega
    · rcases List.mem_cons.mp hmem with rfl | hmem
      · exact le_rfl
      · exact ((List.pairwise_cons.mp (List.pairwise_append.mp h).2.1).1 other hmem).le
  | none =>
    obtain ⟨entry, m, rfl⟩ := List.exists_cons_of_ne_nil hne
    refine ⟨entry.1, rfl, List.mem_cons_self, Or.inr fun key' hkey' => ?_⟩
    obtain ⟨other, hmem, rfl⟩ := List.mem_map.mp hkey'
    have hle := List.find?_eq_none.mp hfind other hmem
    refine ⟨by simpa using hle, ?_⟩
    rcases List.mem_cons.mp hmem with rfl | hmem
    · exact le_rfl
    · exact ((List.pairwise_cons.mp h).1 other hmem).le

theorem mapValues_keys (f : ℕ → α → α) (m : OrderedMap α) : (mapValues f m).map Prod.fst = m.map Prod.fst := by
  rw [mapValues, List.map_map]
  rfl

theorem Ordered.mapValues (h : Ordered m) (f : ℕ → α → α) : Ordered (mapValues f m) := List.pairwise_map.mpr h

theorem mem_mapValues {f : ℕ → α → α} : (key, a) ∈ mapValues f m ↔ ∃ b, (key, b) ∈ m ∧ f key b = a := by
  simp only [OrderedMaps.mapValues, List.mem_map, Prod.mk.injEq, Prod.exists]
  constructor
  · rintro ⟨key', b, hmem, rfl, rfl⟩
    exact ⟨b, hmem, rfl⟩
  · rintro ⟨b, hmem, rfl⟩
    exact ⟨key, b, hmem, rfl, rfl⟩

end LeoNdn.OrderedMaps
