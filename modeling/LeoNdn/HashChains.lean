import Mathlib.Data.List.Nodup
import Mathlib.Data.List.Flatten
import Mathlib.Data.List.Induction

/-!
The buckets of a chained hash table, and their number changed in place.
-/

namespace LeoNdn.HashChains

variable {α : Type} {hash : α → ℕ} {present : α → Prop} {buckets : List (List α)}

def attach (bucket : ℕ) (a : α) (buckets : List (List α)) : List (List α) := buckets.modify bucket (a :: ·)

def detach [DecidableEq α] (bucket : ℕ) (a : α) (buckets : List (List α)) : List (List α) :=
  buckets.modify bucket (List.erase · a)

/-- One bucket after the other is emptied into new ones. -/
def rehash (hash : α → ℕ) (n : ℕ) (buckets : List (List α)) : List (List α) :=
  buckets.flatten.foldl (fun new a => attach (hash a % n) a new) (List.replicate n [])

/-- Every bucket holds what is present and has its hash, once. -/
structure Chained (hash : α → ℕ) (present : α → Prop) (buckets : List (List α)) : Prop where
  pos : 0 < buckets.length
  nodup : ∀ {b : ℕ} {bucket : List α}, buckets[b]? = some bucket → bucket.Nodup
  mem_iff : ∀ {b : ℕ} {bucket : List α}, buckets[b]? = some bucket → ∀ a, a ∈ bucket ↔ present a ∧ hash a % buckets.length = b

theorem Chained.bucket (h : Chained hash present buckets) {a : α} (ha : present a) :
    ∃ bucket, buckets[hash a % buckets.length]? = some bucket ∧ a ∈ bucket := by
  have hlt := Nat.mod_lt (hash a) h.pos
  exact ⟨_, List.getElem?_eq_getElem hlt, (h.mem_iff (List.getElem?_eq_getElem hlt) a).mpr ⟨ha, rfl⟩⟩

theorem Chained.congr {hash' : α → ℕ} {present' : α → Prop} (h : Chained hash present buckets)
    (hpresent : ∀ a, present' a ↔ present a) (hhash : ∀ a, present a → hash' a = hash a) :
    Chained hash' present' buckets where
  pos := h.pos
  nodup := h.nodup
  mem_iff hb a := by
    rw [h.mem_iff hb, hpresent]
    exact and_congr_right fun ha => by rw [hhash a ha]

theorem getElem?_modify_cases {f : List α → List α} {bucket b : ℕ} {new : List α}
    (h : (buckets.modify bucket f)[b]? = some new) :
    ∃ old, buckets[b]? = some old ∧ new = if bucket = b then f old else old := by
  rw [List.getElem?_modify, Option.map_eq_map] at h
  obtain ⟨old, hold, rfl⟩ := Option.map_eq_some_iff.mp h
  exact ⟨old, hold, rfl⟩

theorem chained_replicate (hash : α → ℕ) {n : ℕ} (hn : 0 < n) :
    Chained hash (fun _ => False) (List.replicate n ([] : List α)) := by
  have hnil : ∀ {b : ℕ} {bucket : List α}, (List.replicate n ([] : List α))[b]? = some bucket → bucket = [] :=
    fun hb => List.eq_of_mem_replicate (List.mem_of_getElem? hb)
  refine ⟨by rwa [List.length_replicate], fun hb => ?_, fun hb a => ?_⟩
  · rw [hnil hb]
    exact List.nodup_nil
  · rw [hnil hb]
    simp

theorem Chained.attach {a : α} (h : Chained hash present buckets) (ha : ¬ present a) :
    Chained hash (fun other => present other ∨ other = a)
      (attach (hash a % buckets.length) a buckets) := by
  refine ⟨by rw [HashChains.attach, List.length_modify]; exact h.pos, fun hb => ?_, fun hb other => ?_⟩
  · obtain ⟨old, hold, rfl⟩ := getElem?_modify_cases hb
    split
    · exact List.nodup_cons.mpr ⟨fun hmem => ha ((h.mem_iff hold a).mp hmem).1, h.nodup hold⟩
    · exact h.nodup hold
  · obtain ⟨old, hold, rfl⟩ := getElem?_modify_cases hb
    rw [HashChains.attach, List.length_modify]
    split
    · rename_i heq
      rw [List.mem_cons, h.mem_iff hold]
      constructor
      · rintro (rfl | ⟨hother, hmod⟩)
        · exact ⟨Or.inr rfl, heq⟩
        · exact ⟨Or.inl hother, hmod⟩
      · rintro ⟨hother | rfl, hmod⟩
        · exact Or.inr ⟨hother, hmod⟩
        · exact Or.inl rfl
    · rename_i hne
      rw [h.mem_iff hold]
      constructor
      · rintro ⟨hother, hmod⟩
        exact ⟨Or.inl hother, hmod⟩
      · rintro ⟨hother | rfl, hmod⟩
        · exact ⟨hother, hmod⟩
        · exact absurd hmod hne

theorem Chained.detach [DecidableEq α] {a : α} (h : Chained hash present buckets) :
    Chained hash (fun other => present other ∧ other ≠ a) (detach (hash a % buckets.length) a buckets) := by
  refine ⟨by rw [HashChains.detach, List.length_modify]; exact h.pos, fun hb => ?_, fun hb other => ?_⟩
  · obtain ⟨old, hold, rfl⟩ := getElem?_modify_cases hb
    split
    · exact (h.nodup hold).erase a
    · exact h.nodup hold
  · obtain ⟨old, hold, rfl⟩ := getElem?_modify_cases hb
    rw [HashChains.detach, List.length_modify]
    split
    · rw [(h.nodup hold).mem_erase_iff, h.mem_iff hold]
      constructor
      · rintro ⟨hne, hother, hmod⟩
        exact ⟨⟨hother, hne⟩, hmod⟩
      · rintro ⟨⟨hother, hne⟩, hmod⟩
        exact ⟨hne, hother, hmod⟩
    · rename_i hne
      rw [h.mem_iff hold]
      constructor
      · rintro ⟨hother, hmod⟩
        refine ⟨⟨hother, ?_⟩, hmod⟩
        rintro rfl
        exact hne hmod
      · rintro ⟨⟨hother, -⟩, hmod⟩
        exact ⟨hother, hmod⟩

theorem Chained.mem_flatten (h : Chained hash present buckets) (a : α) : a ∈ buckets.flatten ↔ present a := by
  rw [List.mem_flatten]
  constructor
  · rintro ⟨bucket, hbucket, ha⟩
    obtain ⟨b, hb⟩ := List.mem_iff_getElem?.mp hbucket
    exact ((h.mem_iff hb a).mp ha).1
  · intro ha
    obtain ⟨bucket, hb, hmem⟩ := h.bucket ha
    exact ⟨bucket, List.mem_of_getElem? hb, hmem⟩

theorem Chained.nodup_flatten (h : Chained hash present buckets) : buckets.flatten.Nodup := by
  rw [List.nodup_flatten]
  constructor
  · intro bucket hbucket
    obtain ⟨b, hb⟩ := List.mem_iff_getElem?.mp hbucket
    exact h.nodup hb
  · rw [List.pairwise_iff_getElem]
    intro i j hi hj hij
    rw [List.disjoint_left]
    intro a ha ha'
    have hmod := ((h.mem_iff (List.getElem?_eq_getElem hi) a).mp ha).2
    have hmod' := ((h.mem_iff (List.getElem?_eq_getElem hj) a).mp ha').2
    omega

theorem Chained.split (h : Chained hash present buckets) {a : α} (ha : present a) :
    ∃ before after, buckets[hash a % buckets.length]? = some (before ++ a :: after) ∧ a ∉ before ∧
      buckets.flatten = ((buckets.take (hash a % buckets.length)).flatten ++ before) ++
        a :: (after ++ (buckets.drop (hash a % buckets.length + 1)).flatten) := by
  obtain ⟨bucket, hb, hmem⟩ := h.bucket ha
  obtain ⟨before, after, rfl, hnot⟩ := List.eq_append_cons_of_mem hmem
  refine ⟨before, after, hb, hnot, ?_⟩
  obtain ⟨hlt, hget⟩ := List.getElem?_eq_some_iff.mp hb
  calc buckets.flatten
      = (buckets.take (hash a % buckets.length) ++ buckets.drop (hash a % buckets.length)).flatten := by
        rw [List.take_append_drop]
    _ = (buckets.take (hash a % buckets.length)).flatten ++ ((before ++ a :: after) ++
          (buckets.drop (hash a % buckets.length + 1)).flatten) := by
        rw [List.flatten_append, List.drop_eq_getElem_cons hlt, hget, List.flatten_cons]
    _ = _ := by simp only [List.append_assoc, List.cons_append]

theorem chained_foldl {n : ℕ} (hn : 0 < n) {elements : List α} (hnodup : elements.Nodup) :
    (elements.foldl (fun new a => attach (hash a % n) a new) (List.replicate n [])).length = n ∧
      Chained hash (· ∈ elements) (elements.foldl (fun new a => attach (hash a % n) a new) (List.replicate n [])) := by
  induction elements using List.reverseRecOn with
  | nil => exact ⟨List.length_replicate, (chained_replicate hash hn).congr (by simp) (by simp)⟩
  | append_singleton elements a ih =>
    obtain ⟨hrest, -, hdisjoint⟩ := List.nodup_append.mp hnodup
    have hnot : a ∉ elements := fun ha => hdisjoint a ha a (List.mem_singleton_self a) rfl
    obtain ⟨hlength, hchained⟩ := ih hrest
    rw [List.foldl_append, List.foldl_cons, List.foldl_nil]
    refine ⟨by rw [HashChains.attach, List.length_modify, hlength], ?_⟩
    have hattached := hchained.attach hnot
    rw [hlength] at hattached
    exact hattached.congr (fun other => by rw [List.mem_append, List.mem_singleton]) fun _ _ => rfl

theorem Chained.rehash (h : Chained hash present buckets) {n : ℕ} (hn : 0 < n) :
    Chained hash present (rehash hash n buckets) :=
  (chained_foldl hn h.nodup_flatten).2.congr (fun a => (h.mem_flatten a).symm) fun _ _ => rfl

end LeoNdn.HashChains
