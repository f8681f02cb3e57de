import Mathlib.Data.List.Perm.Subperm
import LeoNdn.OrderedMaps

/-!
Items that come in any order and are passed on in the order of their numbers: one
that comes too early waits in a map.
-/

namespace LeoNdn.InOrderDelivery

open LeoNdn.OrderedMaps

variable {α : Type}

/-- `m[key] = a`, where an entry that is there is replaced. -/
def insertOrAssign (m : OrderedMap α) (key : ℕ) (a : α) : OrderedMap α :=
  m.filter (fun entry => entry.1 < key) ++ (key, a) :: m.filter (fun entry => key < entry.1)

/-- The entries at the front whose numbers go on from `next`, the number after them
and what is left. -/
def takeInOrder (next : ℕ) : OrderedMap α → List α × ℕ × OrderedMap α
  | [] => ([], next, [])
  | (key, a) :: m =>
    if key = next then
      let (items, last, rest) := takeInOrder (next + 1) m
      (a :: items, last, rest)
    else ([], next, (key, a) :: m)

/-- The items with the given numbers have come, and those before the first number
that has not are gone. -/
structure Waiting (source : ℕ → α) (numbers : List ℕ) (next : ℕ) (m : OrderedMap α) : Prop where
  ordered : Ordered m
  sound : ∀ entry ∈ m, entry.2 = source entry.1
  mem_keys : ∀ key, key ∈ m.map Prod.fst ↔ key ∈ numbers ∧ next < key
  before : ∀ key < next, key ∈ numbers
  missing : next ∉ numbers

section Insertion

variable {m : OrderedMap α} {key : ℕ} {a : α}

theorem mem_insertOrAssign {entry : ℕ × α} :
    entry ∈ insertOrAssign m key a ↔ entry = (key, a) ∨ entry ∈ m ∧ entry.1 ≠ key := by
  simp only [insertOrAssign, List.mem_append, List.mem_cons, List.mem_filter, decide_eq_true_iff, ne_iff_lt_or_gt]
  tauto

theorem Ordered.insertOrAssign (h : Ordered m) (key : ℕ) (a : α) : Ordered (insertOrAssign m key a) := by
  refine List.pairwise_append.mpr ⟨h.filter _, List.pairwise_cons.mpr ⟨?_, h.filter _⟩, ?_⟩
  · intro entry hentry
    exact of_decide_eq_true (List.mem_filter.mp hentry).2
  · intro first hfirst second hsecond
    have hlt : first.1 < key := of_decide_eq_true (List.mem_filter.mp hfirst).2
    rcases List.mem_cons.mp hsecond with rfl | hrest
    · exact hlt
    · exact hlt.trans (of_decide_eq_true (List.mem_filter.mp hrest).2)

end Insertion

section Delivery

variable {source : ℕ → α} {numbers : List ℕ} {next : ℕ} {m : OrderedMap α}

/-- What is taken from the front is the items from `next` on up to the first that is missing. -/
theorem takeInOrder_spec (hordered : Ordered m) (hsound : ∀ entry ∈ m, entry.2 = source entry.1)
    (hkeys : ∀ key ∈ m.map Prod.fst, next ≤ key) :
    ∃ count, (takeInOrder next m).1 = (List.range' next count).map source ∧
      (takeInOrder next m).2.1 = next + count ∧ (takeInOrder next m).2.2.Sublist m ∧
        (∀ key, key ∈ m.map Prod.fst ↔
          (next ≤ key ∧ key < next + count) ∨ key ∈ (takeInOrder next m).2.2.map Prod.fst) ∧
          ∀ key ∈ (takeInOrder next m).2.2.map Prod.fst, next + count < key := by
  induction m generalizing next with
  | nil => exact ⟨0, rfl, rfl, List.Sublist.refl _, fun key => by simp [takeInOrder], by simp [takeInOrder]⟩
  | cons entry m ih =>
    obtain ⟨key, a⟩ := entry
    obtain ⟨hhead, hordered⟩ := List.pairwise_cons.mp hordered
    have hle : next ≤ key := hkeys key List.mem_cons_self
    by_cases hkey : key = next
    · subst hkey
      have hafter : ∀ other ∈ m.map Prod.fst, key + 1 ≤ other := by
        intro other hother
        obtain ⟨entry, hentry, rfl⟩ := List.mem_map.mp hother
        exact hhead entry hentry
      obtain ⟨count, hitems, hlast, hsublist, hmem, hrest⟩ :=
        ih hordered (fun entry hentry => hsound entry (List.mem_cons_of_mem _ hentry)) hafter
      have ha : a = source key := hsound (key, a) List.mem_cons_self
      refine ⟨count + 1, ?_, ?_, ?_, ?_, ?_⟩
      · simp [takeInOrder, hitems, ha, List.range'_succ]
      · simp only [takeInOrder, if_pos, hlast]
        omega
      · simp only [takeInOrder, if_pos]
        exact hsublist.cons _
      · intro other
        rw [List.map_cons, List.mem_cons, hmem other]
        simp only [takeInOrder, if_pos]
        constructor
        · rintro (rfl | ⟨hlow, hhigh⟩ | hother)
          · exact Or.inl ⟨le_refl _, by omega⟩
          · exact Or.inl ⟨by omega, by omega⟩
          · exact Or.inr hother
        · rintro (⟨hlow, hhigh⟩ | hother)
          · by_cases heq : other = key
            · exact Or.inl heq
            · exact Or.inr (Or.inl ⟨by omega, by omega⟩)
          · exact Or.inr (Or.inr hother)
      · intro other hother
        simp only [takeInOrder, if_pos] at hother
        have := hrest other hother
        omega
    · have htake : takeInOrder next ((key, a) :: m) = ([], next, (key, a) :: m) := by rw [takeInOrder, if_neg hkey]
      rw [htake]
      refine ⟨0, rfl, rfl, List.Sublist.refl _, fun other => (or_iff_right (by omega)).symm, ?_⟩
      intro other hother
      rcases List.mem_cons.mp hother with rfl | htail
      · omega
      · obtain ⟨entry, hentry, rfl⟩ := List.mem_map.mp htail
        have : key < entry.1 := hhead entry hentry
        omega

theorem Waiting.empty (source : ℕ → α) : Waiting source [] 0 [] where
  ordered := List.Pairwise.nil
  sound _ hentry := absurd hentry List.not_mem_nil
  mem_keys key := by simp
  before key hkey := absurd hkey (Nat.not_lt_zero key)
  missing := List.not_mem_nil

/-- An item that has not come before is put into the map; what is passed on continues
from where it had come to. -/
theorem Waiting.deliver (h : Waiting source numbers next m) {number : ℕ} (hnew : number ∉ numbers) :
    ∃ count, (takeInOrder next (insertOrAssign m number (source number))).1 = (List.range' next count).map source ∧
      (takeInOrder next (insertOrAssign m number (source number))).2.1 = next + count ∧
        Waiting source (number :: numbers) (next + count)
          (takeInOrder next (insertOrAssign m number (source number))).2.2 := by
  have hsound : ∀ entry ∈ insertOrAssign m number (source number), entry.2 = source entry.1 := by
    intro entry hentry
    rcases mem_insertOrAssign.mp hentry with rfl | ⟨hold, -⟩
    · rfl
    · exact h.sound entry hold
  have hkeys : ∀ key, key ∈ (insertOrAssign m number (source number)).map Prod.fst ↔
      key = number ∨ key ∈ numbers ∧ next < key := by
    intro key
    rw [← h.mem_keys key, List.mem_map, List.mem_map]
    constructor
    · rintro ⟨entry, hentry, rfl⟩
      rcases mem_insertOrAssign.mp hentry with rfl | ⟨hold, -⟩
      · exact Or.inl rfl
      · exact Or.inr ⟨entry, hold, rfl⟩
    · rintro (rfl | ⟨entry, hentry, rfl⟩)
      · exact ⟨_, mem_insertOrAssign.mpr (Or.inl rfl), rfl⟩
      · have hne : entry.1 ≠ number := by
          intro heq
          have hin := (h.mem_keys entry.1).mp (List.mem_map.mpr ⟨entry, hentry, rfl⟩)
          exact hnew (heq ▸ hin.1)
        exact ⟨entry, mem_insertOrAssign.mpr (Or.inr ⟨hentry, hne⟩), rfl⟩
  have hnext : next ≤ number := by
    by_contra hlt
    exact hnew (h.before number (Nat.not_le.mp hlt))
  have hlow : ∀ key ∈ (insertOrAssign m number (source number)).map Prod.fst, next ≤ key := by
    intro key hkey
    rcases (hkeys key).mp hkey with rfl | ⟨-, hlt⟩
    · exact hnext
    · exact hlt.le
  obtain ⟨count, hitems, hlast, hsublist, hmem, hrest⟩ :=
    takeInOrder_spec (Ordered.insertOrAssign h.ordered number (source number)) hsound hlow
  refine ⟨count, hitems, hlast, ⟨?_, ?_, ?_, ?_, ?_⟩⟩
  · exact (Ordered.insertOrAssign h.ordered number (source number)).sublist hsublist
  · exact fun entry hentry => hsound entry (hsublist.subset hentry)
  · intro key
    have hiff := (hmem key).symm.trans (hkeys key)
    rw [List.mem_cons]
    constructor
    · intro hkey
      have hlt := hrest key hkey
      rcases hiff.mp (Or.inr hkey) with rfl | ⟨hin, -⟩
      · exact ⟨Or.inl rfl, hlt⟩
      · exact ⟨Or.inr hin, hlt⟩
    · rintro ⟨hin, hlt⟩
      have hcome : key = number ∨ key ∈ numbers ∧ next < key := hin.imp_right fun hold => ⟨hold, by omega⟩
      exact (hiff.mpr hcome).resolve_left fun hrange => by omega
  · intro key hkey
    rw [List.mem_cons]
    by_cases hbefore : key < next
    · exact Or.inr (h.before key hbefore)
    · have hcome := ((hmem key).symm.trans (hkeys key)).mp (Or.inl ⟨Nat.not_lt.mp hbefore, hkey⟩)
      exact hcome.imp_right And.left
  · rw [List.mem_cons, not_or]
    have hnot : ¬ (next + count = number ∨ next + count ∈ numbers ∧ next < next + count) := by
      intro hcome
      rcases ((hmem (next + count)).symm.trans (hkeys (next + count))).mpr hcome with hrange | hkey
      · omega
      · exact absurd (hrest _ hkey) (lt_irrefl _)
    refine ⟨fun heq => hnot (Or.inl heq), fun hin => ?_⟩
    by_cases hzero : count = 0
    · subst hzero
      exact h.missing hin
    · exact hnot (Or.inr ⟨hin, by omega⟩)

theorem Waiting.next_eq (h : Waiting source numbers next m) {size : ℕ} (hbound : ∀ number ∈ numbers, number < size)
    (hnodup : numbers.Nodup) (hlength : size ≤ numbers.length) : next = size := by
  have hperm : numbers.Perm (List.range size) := by
    refine (List.subperm_of_subset hnodup fun number hnumber => List.mem_range.mpr (hbound number hnumber)).perm_of_length_le ?_
    rw [List.length_range]
    exact hlength
  have hmem (number : ℕ) : number ∈ numbers ↔ number < size := by rw [hperm.mem_iff, List.mem_range]
  refine le_antisymm ?_ ?_
  · by_contra hlt
    have hin := (hmem size).mp (h.before size (Nat.not_le.mp hlt))
    exact lt_irrefl _ hin
  · by_contra hlt
    exact h.missing ((hmem next).mpr (Nat.not_le.mp hlt))

end Delivery

end LeoNdn.InOrderDelivery
