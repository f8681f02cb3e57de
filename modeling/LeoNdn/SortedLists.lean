import Mathlib.Data.List.Basic
import Mathlib.Data.List.TakeWhile
import Mathlib.Order.Compare

/-!
Lists that are kept sorted by a strict order, which is given as a test: insertion
after what is not greater, the place of a key among the keys of the elements, and
what lies between two places. A test that compares keys is a strict weak order.
-/

namespace LeoNdn.SortedLists

variable {α κ : Type}

structure StrictOrder (before : κ → κ → Bool) : Prop where
  irrefl : ∀ a, before a a = false
  trans : ∀ {a b c}, before a b = true → before b c = true → before a c = true

theorem StrictOrder.asymm {before : κ → κ → Bool} (h : StrictOrder before) {a b : κ} (hab : before a b = true) :
    before b a = false := by
  cases hba : before b a with
  | false => rfl
  | true =>
    have hself := h.trans hab hba
    rw [h.irrefl] at hself
    cases hself

/-- What a sorted container asks of its test, on what is compared in it. -/
structure StrictWeakOrder (valid : κ → Prop) (before : κ → κ → Bool) : Prop where
  irrefl : ∀ a, valid a → before a a = false
  trans : ∀ {a b c}, valid a → valid b → valid c → before a b = true → before b c = true → before a c = true
  incomparable_trans : ∀ {a b c}, valid a → valid b → valid c → before a b = false → before b a = false →
    before b c = false → before c b = false → before a c = false ∧ before c a = false

section Comparison

open Std

variable {cmp : α → α → Ordering} [TransCmp cmp] {key : κ → α} {valid : κ → Prop} {before : κ → κ → Bool}

theorem StrictWeakOrder.of_key
    (h : ∀ a b, valid a → valid b → (before a b = true ↔ cmp (key a) (key b) = .lt)) : StrictWeakOrder valid before where
  irrefl := by
    intro a ha
    rw [Bool.eq_false_iff, Ne, h a a ha ha]
    exact fun hself => OrientedCmp.not_lt_of_lt hself hself
  trans := by
    intro a b c ha hb hc hab hbc
    rw [h a b ha hb] at hab
    rw [h b c hb hc] at hbc
    rw [h a c ha hc]
    exact TransCmp.lt_trans hab hbc
  incomparable_trans := by
    have heq : ∀ {a b}, valid a → valid b → before a b = false → before b a = false → cmp (key a) (key b) = .eq := by
      intro a b ha hb hab hba
      rw [Bool.eq_false_iff, Ne, h a b ha hb] at hab
      rw [Bool.eq_false_iff, Ne, h b a hb ha, ← OrientedCmp.gt_iff_lt] at hba
      cases hcmp : cmp (key a) (key b) with
      | lt => exact absurd hcmp hab
      | eq => rfl
      | gt => exact absurd hcmp hba
    intro a b c ha hb hc hab hba hbc hcb
    have hac := TransCmp.eq_trans (heq ha hb hab hba) (heq hb hc hbc hcb)
    constructor
    · rw [Bool.eq_false_iff, Ne, h a c ha hc, hac]
      decide
    · rw [Bool.eq_false_iff, Ne, h c a hc ha, OrientedCmp.eq_symm hac]
      decide

end Comparison

section Insertion

variable (before : α → α → Bool)

def Sorted (l : List α) : Prop := l.Pairwise (fun a b => before b a = false)

def insertUpper (a : α) (l : List α) : List α :=
  l.takeWhile (fun b => ! before a b) ++ a :: l.dropWhile (fun b => ! before a b)

def sort (l : List α) : List α := l.foldl (fun sorted a => insertUpper before a sorted) []

variable {before}

theorem insertUpper_perm (a : α) (l : List α) : (insertUpper before a l).Perm (a :: l) := by
  have h : (insertUpper before a l).Perm
      (a :: (l.takeWhile (fun b => ! before a b) ++ l.dropWhile (fun b => ! before a b))) := List.perm_middle
  rwa [List.takeWhile_append_dropWhile] at h

theorem foldl_insertUpper_perm (sorted l : List α) :
    (l.foldl (fun sorted a => insertUpper before a sorted) sorted).Perm (sorted ++ l) := by
  induction l generalizing sorted with
  | nil => rw [List.foldl_nil, List.append_nil]
  | cons a l ih =>
    rw [List.foldl_cons]
    refine (ih (insertUpper before a sorted)).trans ?_
    refine ((insertUpper_perm a sorted).append_right l).trans ?_
    exact List.perm_middle.symm

theorem sort_perm (l : List α) : (sort before l).Perm l := foldl_insertUpper_perm [] l

theorem insertUpper_last {a : α} {l : List α} (h : ∀ b ∈ l, before a b = false) : insertUpper before a l = l ++ [a] := by
  have htake : l.takeWhile (fun b => ! before a b) = l :=
    List.takeWhile_eq_self_iff.mpr fun b hb => by rw [h b hb]; rfl
  have hdrop : l.dropWhile (fun b => ! before a b) = [] :=
    List.dropWhile_eq_nil_iff.mpr fun b hb => by rw [h b hb]; rfl
  rw [insertUpper, htake, hdrop]

theorem foldl_insertUpper_sorted {sorted l : List α} (h : Sorted before (sorted ++ l)) :
    l.foldl (fun sorted a => insertUpper before a sorted) sorted = sorted ++ l := by
  induction l generalizing sorted with
  | nil => rw [List.foldl_nil, List.append_nil]
  | cons a l ih =>
    have hlast : ∀ b ∈ sorted, before a b = false := fun b hb =>
      (List.pairwise_append.mp h).2.2 b hb a List.mem_cons_self
    rw [List.foldl_cons, insertUpper_last hlast, ih (by rwa [List.append_assoc]), List.append_assoc]
    rfl

theorem sort_of_sorted {l : List α} (h : Sorted before l) : sort before l = l := foldl_insertUpper_sorted h

theorem insertUpper_sorted (horder : StrictOrder before) {a : α} {l : List α} (h : Sorted before l) :
    Sorted before (insertUpper before a l) := by
  induction l with
  | nil => exact List.pairwise_singleton _ a
  | cons b l ih =>
    obtain ⟨hb, hl⟩ := List.pairwise_cons.mp h
    cases hab : before a b with
    | true =>
      have hinsert : insertUpper before a (b :: l) = a :: b :: l := by
        rw [insertUpper, List.takeWhile_cons_of_neg (by simp [hab]), List.dropWhile_cons_of_neg (by simp [hab])]
        rfl
      rw [hinsert]
      refine List.pairwise_cons.mpr ⟨fun c hc => ?_, h⟩
      rcases List.mem_cons.mp hc with rfl | hc
      · exact horder.asymm hab
      · cases hca : before c a with
        | false => rfl
        | true =>
          have hcb := horder.trans hca hab
          rw [hb c hc] at hcb
          cases hcb
    | false =>
      have hinsert : insertUpper before a (b :: l) = b :: insertUpper before a l := by
        rw [insertUpper, List.takeWhile_cons_of_pos (by simp [hab]), List.dropWhile_cons_of_pos (by simp [hab])]
        rfl
      rw [hinsert]
      refine List.pairwise_cons.mpr ⟨fun c hc => ?_, ih hl⟩
      rcases List.mem_cons.mp ((insertUpper_perm a l).mem_iff.mp hc) with rfl | hc
      · exact hab
      · exact hb c hc

theorem sort_sorted (horder : StrictOrder before) (l : List α) : Sorted before (sort before l) := by
  have hfold : ∀ sorted, Sorted before sorted →
      Sorted before (l.foldl (fun sorted a => insertUpper before a sorted) sorted) := by
    induction l with
    | nil => exact fun sorted h => h
    | cons a l ih => exact fun sorted h => ih _ (insertUpper_sorted horder h)
  exact hfold [] List.Pairwise.nil

theorem Sorted.sublist {l l' : List α} (h : Sorted before l) (hsub : l'.Sublist l) : Sorted before l' :=
  List.Pairwise.sublist hsub h

end Insertion

section Keys

variable (before : κ → κ → Bool) (key : α → κ)

def StrictlySorted (l : List α) : Prop := l.Pairwise (fun a b => before (key a) (key b) = true)

def ahead (k : κ) (l : List α) : List α := l.takeWhile (fun a => before (key a) k)

def lowerBound (k : κ) (l : List α) : List α := l.dropWhile (fun a => before (key a) k)

variable {before key} {k : κ} {l : List α}

theorem ahead_append_lowerBound : ahead before key k l ++ lowerBound before key k l = l :=
  List.takeWhile_append_dropWhile

theorem before_of_mem_ahead {a : α} (h : a ∈ ahead before key k l) : before (key a) k = true := by
  have := List.mem_takeWhile_imp h
  simpa using this

theorem mem_of_mem_ahead {a : α} (h : a ∈ ahead before key k l) : a ∈ l := (List.takeWhile_sublist _).subset h

theorem mem_of_mem_lowerBound {a : α} (h : a ∈ lowerBound before key k l) : a ∈ l := (List.dropWhile_sublist _).subset h

theorem not_before_lowerBound {a : α} {rest : List α} (h : lowerBound before key k l = a :: rest) :
    before (key a) k = false := by
  induction l with
  | nil => cases h
  | cons b l ih =>
    cases hb : before (key b) k with
    | true =>
      rw [lowerBound, List.dropWhile_cons, if_pos hb] at h
      exact ih h
    | false =>
      rw [lowerBound, List.dropWhile_cons, if_neg (by rw [hb]; decide)] at h
      obtain ⟨rfl, -⟩ := List.cons.inj h
      exact hb

theorem StrictlySorted.not_before (horder : StrictOrder before) (h : StrictlySorted before key l) {a : α}
    (ha : a ∈ lowerBound before key k l) : before (key a) k = false := by
  have hsorted : StrictlySorted before key (lowerBound before key k l) := List.Pairwise.sublist (List.dropWhile_sublist _) h
  cases hlower : lowerBound before key k l with
  | nil =>
    rw [hlower] at ha
    cases ha
  | cons first rest =>
    have hfirst := not_before_lowerBound hlower
    rw [hlower] at ha hsorted
    rcases List.mem_cons.mp ha with rfl | ha
    · exact hfirst
    · cases hk : before (key a) k with
      | false => rfl
      | true =>
        have hfirst' := horder.trans ((List.pairwise_cons.mp hsorted).1 a ha) hk
        rw [hfirst] at hfirst'
        cases hfirst'

theorem StrictlySorted.ahead (h : StrictlySorted before key l) (k : κ) : StrictlySorted before key (ahead before key k l) :=
  List.Pairwise.sublist (List.takeWhile_sublist _) h

theorem StrictlySorted.lowerBound (h : StrictlySorted before key l) (k : κ) :
    StrictlySorted before key (lowerBound before key k l) :=
  List.Pairwise.sublist (List.dropWhile_sublist _) h

theorem StrictlySorted.middle (horder : StrictOrder before) {first last : List α} {a : α}
    (hfirst : StrictlySorted before key first) (hlast : StrictlySorted before key last)
    (hbefore : ∀ b ∈ first, before (key b) (key a) = true) (hafter : ∀ b ∈ last, before (key a) (key b) = true) :
    StrictlySorted before key (first ++ a :: last) := by
  refine List.pairwise_append.mpr ⟨hfirst, List.pairwise_cons.mpr ⟨hafter, hlast⟩, fun b hb c hc => ?_⟩
  rcases List.mem_cons.mp hc with rfl | hc
  · exact hbefore b hb
  · exact horder.trans (hbefore b hb) (hafter c hc)

theorem lowerBound_of_first (h : ∀ a ∈ l, before (key a) k = false) :
    SortedLists.ahead before key k l = [] ∧ SortedLists.lowerBound before key k l = l := by
  cases l with
  | nil => exact ⟨rfl, rfl⟩
  | cons a l =>
    have ha := h a List.mem_cons_self
    exact ⟨List.takeWhile_cons_of_neg (by simp [ha]), List.dropWhile_cons_of_neg (by simp [ha])⟩

end Keys

section Ranges

variable {p q : α → Bool} {l : List α}

/-- A test that holds up to some place of the list and not after it. -/
def Initial (p : α → Bool) (l : List α) : Prop := l.Pairwise (fun a b => p b = true → p a = true)

theorem Initial.takeWhile_eq (h : Initial p l) : l.takeWhile p = l.filter p := by
  induction l with
  | nil => rfl
  | cons a l ih =>
    obtain ⟨hhead, htail⟩ := List.pairwise_cons.mp h
    by_cases ha : p a = true
    · rw [List.takeWhile_cons_of_pos ha, List.filter_cons_of_pos ha, ih htail]
    · rw [List.takeWhile_cons_of_neg ha, eq_comm, List.filter_eq_nil_iff]
      intro b hb hpb
      rcases List.mem_cons.mp hb with rfl | hb
      · exact ha hpb
      · exact ha (hhead b hb hpb)

theorem Initial.mem_takeWhile (h : Initial p l) {a : α} : a ∈ l.takeWhile p ↔ a ∈ l ∧ p a = true := by
  rw [h.takeWhile_eq, List.mem_filter]

theorem Initial.not_of_mem_dropWhile (h : Initial p l) {a : α} (ha : a ∈ l.dropWhile p) : p a = false := by
  induction l with
  | nil => cases ha
  | cons b l ih =>
    obtain ⟨hhead, htail⟩ := List.pairwise_cons.mp h
    by_cases hb : p b = true
    · rw [List.dropWhile_cons_of_pos hb] at ha
      exact ih htail ha
    · rw [List.dropWhile_cons_of_neg hb] at ha
      rcases List.mem_cons.mp ha with rfl | ha
      · exact Bool.eq_false_iff.mpr hb
      · exact Bool.eq_false_iff.mpr fun hpa => hb (hhead a ha hpa)

theorem prefix_takeWhile {l' : List α} (hprefixed : l' <+: l) (h : ∀ a ∈ l', p a = true) : l' <+: l.takeWhile p := by
  obtain ⟨rest, rfl⟩ := hprefixed
  rw [List.takeWhile_append_of_pos h]
  exact List.prefix_append _ _

theorem insertIdx_takeWhile (a : α) :
    l.insertIdx (l.takeWhile p).length a = l.takeWhile p ++ a :: l.dropWhile p := by
  induction l with
  | nil => rfl
  | cons b l ih =>
    by_cases hb : p b = true
    · rw [List.takeWhile_cons_of_pos hb, List.dropWhile_cons_of_pos hb, List.length_cons, List.insertIdx_succ_cons, ih]
      rfl
    · rw [List.takeWhile_cons_of_neg hb, List.dropWhile_cons_of_neg hb]
      rfl

theorem getElem?_takeWhile : l[(l.takeWhile p).length]? = (l.dropWhile p).head? := by
  induction l with
  | nil => rfl
  | cons b l ih =>
    by_cases hb : p b = true
    · rw [List.takeWhile_cons_of_pos hb, List.dropWhile_cons_of_pos hb, List.length_cons, List.getElem?_cons_succ, ih]
    · rw [List.takeWhile_cons_of_neg hb, List.dropWhile_cons_of_neg hb]
      rfl

theorem Initial.drop_take_eq (hp : Initial p l) (hq : Initial q l) :
    (l.take (l.takeWhile q).length).drop (l.takeWhile p).length = l.filter (fun a => q a && ! p a) := by
  induction l with
  | nil => rfl
  | cons a l ih =>
    obtain ⟨-, hp'⟩ := List.pairwise_cons.mp hp
    obtain ⟨hheadq, hq'⟩ := List.pairwise_cons.mp hq
    by_cases hqa : q a = true
    · by_cases hpa : p a = true
      · rw [List.takeWhile_cons_of_pos hqa, List.takeWhile_cons_of_pos hpa, List.filter_cons_of_neg (by simp [hpa])]
        exact ih hp' hq'
      · have hnone : ∀ b ∈ l, p b = false := fun b hb =>
          Bool.eq_false_iff.mpr fun hpb => hpa ((List.pairwise_cons.mp hp).1 b hb hpb)
        have htake : (a :: l).take ((a :: l).takeWhile q).length = (a :: l).takeWhile q :=
          (List.prefix_iff_eq_take.mp (List.takeWhile_prefix q)).symm
        rw [htake, hq.takeWhile_eq, List.takeWhile_cons_of_neg hpa]
        refine List.filter_congr fun b hb => ?_
        rcases List.mem_cons.mp hb with rfl | hb
        · simp [hpa]
        · simp [hnone b hb]
    · rw [List.takeWhile_cons_of_neg hqa, List.length_nil, List.take_zero, List.drop_nil, eq_comm,
        List.filter_eq_nil_iff]
      intro b hb hboth
      have hqb : q b = true := (Bool.and_eq_true_iff.mp hboth).1
      rcases List.mem_cons.mp hb with rfl | hb
      · exact hqa hqb
      · exact hqa (hheadq b hb hqb)

end Ranges

section Finds

variable {R : α → α → Prop} {p : α → Bool} {l : List α} {a b : α}

theorem find?_first (h : l.Pairwise R) (hfind : l.find? p = some a) (hb : b ∈ l) (hpb : p b = true) :
    b = a ∨ R a b := by
  obtain ⟨-, before, after, rfl, hbefore⟩ := List.find?_eq_some_iff_append.mp hfind
  obtain ⟨-, hafter, -⟩ := List.pairwise_append.mp h
  rcases List.mem_append.mp hb with hb | hb
  · have hnot := hbefore b hb
    rw [hpb] at hnot
    cases hnot
  · rcases List.mem_cons.mp hb with rfl | hb
    · exact Or.inl rfl
    · exact Or.inr ((List.pairwise_cons.mp hafter).1 b hb)

theorem find?_reverse_last (h : l.Pairwise R) (hfind : l.reverse.find? p = some a) (hb : b ∈ l) (hpb : p b = true) :
    b = a ∨ R b a :=
  find?_first (R := fun a b => R b a) (List.pairwise_reverse.mpr h) hfind (List.mem_reverse.mpr hb) hpb

end Finds

end LeoNdn.SortedLists
