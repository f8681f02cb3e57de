import Mathlib.Data.List.Induction
import Mathlib.Data.List.Nodup

/-!
Keys in the order of their last use, and the cache that keeps those used last.
-/

namespace LeoNdn.RecencyList

variable {κ : Type}

def newest (limit : ℕ) (keys : List κ) : List κ := keys.drop (keys.length - limit)

section Lengths

variable {limit : ℕ} {keys older : List κ}

theorem newest_of_length_le (h : keys.length ≤ limit) : newest limit keys = keys := by
  rw [newest, Nat.sub_eq_zero_of_le h, List.drop_zero]

theorem newest_append_of_le (h : limit ≤ keys.length) : newest limit (older ++ keys) = newest limit keys := by
  have hlength : (older ++ keys).length - limit = older.length + (keys.length - limit) := by
    rw [List.length_append]
    omega
  rw [newest, newest, hlength, ← List.drop_drop, List.drop_left]

theorem length_newest_le (limit : ℕ) (keys : List κ) : (newest limit keys).length ≤ limit := by
  rw [newest, List.length_drop]
  omega

end Lengths

variable [DecidableEq κ]

def touch (keys : List κ) (key : κ) : List κ := keys.filter (· ≠ key) ++ [key]

/-- The keys that have been used, each where it was used last. -/
def recent (uses : List κ) : List κ := uses.foldl touch []

structure Cache (κ : Type) where
  limit : ℕ
  keys : List κ

inductive Action (κ : Type)
  | use (key : κ)
  | forget (keys : List κ)
  | setLimit (limit : ℕ)
  deriving DecidableEq

def Cache.empty (limit : ℕ) : Cache κ := ⟨limit, []⟩

def Cache.act (cache : Cache κ) : Action κ → Cache κ
  | .use key => { cache with keys := newest cache.limit (touch cache.keys key) }
  | .forget keys => { cache with keys := cache.keys.filter (· ∉ keys) }
  | .setLimit limit => ⟨limit, newest limit cache.keys⟩

section Touching

variable {keys : List κ} {key : κ}

theorem mem_touch {other : κ} : other ∈ touch keys key ↔ other = key ∨ other ∈ keys := by
  simp only [touch, List.mem_append, List.mem_filter, List.mem_singleton, decide_eq_true_iff]
  tauto

theorem nodup_touch (h : keys.Nodup) (key : κ) : (touch keys key).Nodup := by
  refine List.nodup_append.mpr ⟨h.filter _, List.nodup_singleton key, ?_⟩
  intro other hother last hlast
  rw [List.mem_singleton.mp hlast]
  exact of_decide_eq_true (List.mem_filter.mp hother).2

theorem touch_of_not_mem (h : key ∉ keys) : touch keys key = keys ++ [key] := by
  rw [touch, List.filter_eq_self.mpr]
  exact fun other hother => decide_eq_true fun heq => h (heq ▸ hother)

theorem nodup_recent (uses : List κ) : (recent uses).Nodup := by
  have hfold : ∀ keys : List κ, keys.Nodup → (uses.foldl touch keys).Nodup := by
    induction uses with
    | nil => exact fun keys hkeys => hkeys
    | cons key uses ih => exact fun keys hkeys => ih _ (nodup_touch hkeys key)
  exact hfold [] List.nodup_nil

end Touching

section Newest

variable {limit : ℕ} {keys : List κ}

theorem newest_touch (h : keys.Nodup) (key : κ) :
    newest limit (touch (newest limit keys) key) = newest limit (touch keys key) := by
  by_cases hsmall : keys.length ≤ limit
  · rw [newest_of_length_le hsmall]
  · obtain ⟨older, hsplit, hlength⟩ : ∃ older, keys = older ++ newest limit keys ∧ (newest limit keys).length = limit := by
      refine ⟨keys.take (keys.length - limit), (List.take_append_drop _ _).symm, ?_⟩
      rw [newest, List.length_drop]
      omega
    obtain ⟨kept, hkept⟩ : ∃ kept, kept = newest limit keys := ⟨_, rfl⟩
    rw [← hkept] at hsplit hlength ⊢
    have hdisjoint := (List.nodup_append.mp (hsplit ▸ h)).2.2
    have htouch : touch keys key = older.filter (· ≠ key) ++ touch kept key := by
      rw [hsplit, touch, touch, List.filter_append, List.append_assoc]
    rw [htouch]
    by_cases hmem : key ∈ kept
    · -- nothing older is the key, and the newest ones are as many as before
      have hsize : limit ≤ (touch kept key).length := by
        have hperm : kept.Perm (touch kept key) := by
          refine (List.perm_ext_iff_of_nodup (h.sublist ?_) (nodup_touch (h.sublist ?_) key)).mpr fun other => ?_
          · rw [hsplit]
            exact List.sublist_append_right _ _
          · rw [hsplit]
            exact List.sublist_append_right _ _
          · rw [mem_touch]
            constructor
            · exact Or.inr
            · rintro (rfl | hother)
              · exact hmem
              · exact hother
        exact Nat.le_of_eq (hlength.symm.trans hperm.length_eq)
      rw [newest_append_of_le hsize]
    · have hsize : limit ≤ (touch kept key).length := by
        rw [touch_of_not_mem hmem, List.length_append, hlength]
        exact Nat.le_add_right _ _
      rw [newest_append_of_le hsize]

/-- A cache holds the keys used last, whatever it had to drop on the way. -/
theorem foldl_use (limit : ℕ) (uses : List κ) :
    (uses.foldl (fun cache key => cache.act (.use key)) (Cache.empty limit)) = ⟨limit, newest limit (recent uses)⟩ := by
  induction uses using List.reverseRecOn with
  | nil => exact congrArg (Cache.mk limit) (newest_of_length_le (Nat.zero_le limit)).symm
  | append_singleton uses key ih =>
    have hrecent : recent (uses ++ [key]) = touch (recent uses) key := List.foldl_concat _ _ _ _
    rw [List.foldl_concat, ih, hrecent]
    exact congrArg (Cache.mk limit) (newest_touch (nodup_recent uses) key)

end Newest

end LeoNdn.RecencyList
