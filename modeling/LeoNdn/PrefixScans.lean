import Mathlib.Data.List.TakeWhile
import Mathlib.Data.List.Infix
import Mathlib.Order.Compare

/-!
Keys that are lists, in the order of their elements: those that extend a key
come right after it.
-/

namespace LeoNdn.PrefixScans

open Std

section Between

variable {κ : Type} {cmp : κ → κ → Ordering} [TransCmp cmp] {p x y : List κ}

theorem compareLex_prefix (h : p <+: y) : (List.compareLex cmp p y).isLE = true := by
  induction p generalizing y with
  | nil => cases y <;> rfl
  | cons c p ih =>
    obtain ⟨rest, rfl⟩ := h
    have hself : cmp c c = .eq := ReflCmp.compare_self
    rw [List.cons_append, List.compareLex_cons_cons, hself, Ordering.eq_then]
    exact ih (List.prefix_append p rest)

variable [LawfulEqCmp cmp]

theorem prefix_of_between (hpx : (List.compareLex cmp p x).isLE = true) (hxy : (List.compareLex cmp x y).isLE = true)
    (hpy : p <+: y) : p <+: x := by
  induction p generalizing x y with
  | nil => exact List.nil_prefix
  | cons c p ih =>
    obtain ⟨rest, rfl⟩ := hpy
    cases x with
    | nil => cases hpx
    | cons d x =>
      rw [List.compareLex_cons_cons] at hpx
      rw [List.cons_append, List.compareLex_cons_cons] at hxy
      cases hcd : cmp c d with
      | lt =>
        rw [OrientedCmp.gt_of_lt hcd] at hxy
        cases hxy
      | gt =>
        rw [hcd] at hpx
        cases hpx
      | eq =>
        rw [hcd, Ordering.eq_then] at hpx
        rw [OrientedCmp.eq_symm hcd, Ordering.eq_then] at hxy
        rw [LawfulEqCmp.eq_of_compare hcd]
        exact List.cons_prefix_cons.mpr ⟨rfl, ih hpx hxy (List.prefix_append p rest)⟩

end Between

section Scan

variable {κ α : Type} [DecidableEq κ] (key : α → List κ) (p : List κ)

/-- What follows the element with the key, as long as the key is a prefix of theirs. -/
def scan (l : List α) : List α :=
  (l.dropWhile (fun a => key a ≠ p)).tail.takeWhile (fun a => List.isPrefixOf p (key a))

variable {key p} {cmp : κ → κ → Ordering} [TransCmp cmp] [LawfulEqCmp cmp] {l : List α}

theorem takeWhile_eq_filter (hsorted : l.Pairwise (fun a b => List.compareLex cmp (key a) (key b) = .lt))
    (hafter : ∀ a ∈ l, List.compareLex cmp p (key a) = .lt) :
    l.takeWhile (fun a => List.isPrefixOf p (key a)) = l.filter (fun a => List.isPrefixOf p (key a) && key a ≠ p) := by
  induction l with
  | nil => rfl
  | cons a l ih =>
    obtain ⟨hhead, htail⟩ := List.pairwise_cons.mp hsorted
    have ha := hafter a List.mem_cons_self
    have hne : key a ≠ p := by
      intro heq
      have hself : List.compareLex cmp p p = .eq := ReflCmp.compare_self
      rw [heq, hself] at ha
      cases ha
    by_cases hbegins : List.isPrefixOf p (key a) = true
    · rw [List.takeWhile_cons, if_pos hbegins, List.filter_cons_of_pos (by simp [hbegins, hne])]
      rw [ih htail fun b hb => hafter b (List.mem_cons_of_mem _ hb)]
    · rw [List.takeWhile_cons, if_neg hbegins, eq_comm, List.filter_eq_nil_iff]
      intro b hb hbp
      rw [Bool.and_eq_true, List.isPrefixOf_iff_prefix] at hbp
      refine hbegins (List.isPrefixOf_iff_prefix.mpr ?_)
      rcases List.mem_cons.mp hb with rfl | hb
      · exact hbp.1
      · have hpa : (List.compareLex cmp p (key a)).isLE = true := by
          rw [ha]
          rfl
        have hab : (List.compareLex cmp (key a) (key b)).isLE = true := by
          rw [hhead b hb]
          rfl
        exact prefix_of_between hpa hab hbp.1

theorem scan_eq_filter (hsorted : l.Pairwise (fun a b => List.compareLex cmp (key a) (key b) = .lt))
    (hmem : ∃ a ∈ l, key a = p) : scan key p l = l.filter (fun a => List.isPrefixOf p (key a) && key a ≠ p) := by
  induction l with
  | nil =>
    obtain ⟨a, ha, -⟩ := hmem
    cases ha
  | cons a l ih =>
    obtain ⟨hhead, htail⟩ := List.pairwise_cons.mp hsorted
    by_cases ha : key a = p
    · rw [scan, List.dropWhile_cons_of_neg (by simp [ha]), List.filter_cons_of_neg (by simp [ha])]
      exact takeWhile_eq_filter htail fun b hb => ha ▸ hhead b hb
    · obtain ⟨b, hb, hbp⟩ := hmem
      rcases List.mem_cons.mp hb with rfl | hb
      · exact absurd hbp ha
      · have hbefore : ¬ p <+: key a := by
          intro hprefix
          have hle : (List.compareLex cmp p (key a)).isLE = true := compareLex_prefix hprefix
          rw [← hbp, OrientedCmp.gt_of_lt (hhead b hb)] at hle
          cases hle
        rw [scan, List.dropWhile_cons_of_pos (by simp [ha]), List.filter_cons_of_neg]
        · exact ih htail ⟨b, hb, hbp⟩
        · rw [Bool.and_eq_true, List.isPrefixOf_iff_prefix]
          exact fun h => hbefore h.1

end Scan

end LeoNdn.PrefixScans
