import Mathlib.Data.List.Infix

/-!
Keys that are lists, and what their prefixes pass down to them: the nearest
prefix among a set of keys, and values that each prefix passes on or replaces.
-/

namespace LeoNdn.Inheritance

section Keys

variable {κ : Type} {mem mem' : List κ → Prop} {a b c d p q new : List κ}

def Under (a b : List κ) : Prop := a <+: b ∧ a ≠ b

theorem Under.length_lt (h : Under a b) : a.length < b.length :=
  lt_of_le_of_ne h.1.length_le fun heq => h.2 (h.1.eq_of_length heq)

theorem Under.trans_isPrefix (h : Under a b) (h' : b <+: c) : Under a c := by
  refine ⟨h.1.trans h', ?_⟩
  rintro rfl
  exact absurd h.length_lt (not_lt.mpr h'.length_le)

theorem Under.not_prefix (h : Under a b) : ¬ b <+: a :=
  fun hba => absurd h.length_lt (not_lt.mpr hba.length_le)

theorem under_take {i : ℕ} (h : i < d.length) : Under (d.take i) d := by
  refine ⟨List.take_prefix i d, ?_⟩
  intro heq
  have hlength := congrArg List.length heq
  rw [List.length_take, min_eq_left h.le] at hlength
  exact absurd hlength h.ne

theorem Under.eq_take (h : Under a d) : a = d.take a.length := List.prefix_iff_eq_take.mp h.1

def Nearest (mem : List κ → Prop) (d p : List κ) : Prop := Under p d ∧ mem p ∧ ∀ q, Under q d → mem q → q <+: p

def IsParent (mem : List κ → Prop) (d : List κ) : Option (List κ) → Prop
  | some p => Nearest mem d p
  | none => ∀ q, Under q d → ¬ mem q

/-- The keys in the set that are under a key, with none between. -/
def Below (mem : List κ → Prop) (a c : List κ) : Prop :=
  Under a c ∧ mem c ∧ ∀ q, Under a q → q <+: c → mem q → q = c

theorem IsParent.unique {parent parent' : Option (List κ)} (h : IsParent mem d parent)
    (h' : IsParent mem d parent') : parent = parent' := by
  cases parent with
  | none =>
    cases parent' with
    | none => rfl
    | some p => exact absurd h'.2.1 (h p h'.1)
  | some p =>
    cases parent' with
    | none => exact absurd h.2.1 (h' p h.1)
    | some p' =>
      have hle := h.2.2 p' h'.1 h'.2.1
      have hle' := h'.2.2 p h.1 h.2.1
      rw [hle.eq_of_length (le_antisymm hle.length_le hle'.length_le)]

theorem below_iff_nearest (ha : mem a) : Below mem a c ↔ mem c ∧ Nearest mem c a := by
  constructor
  · rintro ⟨hunder, hc, hleast⟩
    refine ⟨hc, hunder, ha, ?_⟩
    intro q hq hmem
    rcases List.prefix_or_prefix_of_prefix hq.1 hunder.1 with hqa | haq
    · exact hqa
    · by_cases heq : a = q
      · rw [heq]
      · exact absurd (hleast q ⟨haq, heq⟩ hq.1 hmem) hq.2
  · rintro ⟨hc, hunder, -, hnearest⟩
    refine ⟨hunder, hc, ?_⟩
    intro q haq hqc hmem
    by_contra hne
    exact haq.not_prefix (hnearest q ⟨hqc, hne⟩ hmem)

theorem exists_below (hd : mem d) (hunder : Under a d) : ∃ c, Below mem a c ∧ c <+: d := by
  induction hn : d.length using Nat.strong_induction_on generalizing d with
  | _ n ih =>
    by_cases hleast : ∀ q, Under a q → q <+: d → mem q → q = d
    · exact ⟨d, ⟨hunder, hd, hleast⟩, List.prefix_rfl⟩
    · rw [not_forall] at hleast
      obtain ⟨q, hleast⟩ := hleast
      rw [Classical.not_imp, Classical.not_imp, Classical.not_imp] at hleast
      obtain ⟨haq, hqd, hq, hne⟩ := hleast
      have hlt : q.length < d.length := Under.length_lt ⟨hqd, hne⟩
      obtain ⟨c, hc, hcq⟩ := ih q.length (hn ▸ hlt) hq haq rfl
      exact ⟨c, hc, hcq.trans hqd⟩

theorem Below.unique (hb : Below mem a b) (hc : Below mem a c) (hbd : b <+: d) (hcd : c <+: d) : b = c := by
  rcases List.prefix_or_prefix_of_prefix hbd hcd with hbc | hcb
  · exact hc.2.2 b hb.1 hbc hb.2.1
  · exact (hb.2.2 c hc.1 hcb hc.2.1).symm

theorem below_iff_isParent {parent : Option (List κ)} (hnew : ¬ mem a) (hparent : IsParent mem a parent) (hc : mem c)
    (hunder : Under a c) : Below mem a c ↔ IsParent mem c parent := by
  have hbetween : ∀ q, mem q → Under q c → q <+: a → Under q a :=
    fun q hq _ hqa => ⟨hqa, fun heq => hnew (heq ▸ hq)⟩
  constructor
  · rintro ⟨-, -, hleast⟩
    have hqa : ∀ q, Under q c → mem q → q <+: a := by
      intro q hq hmem
      rcases List.prefix_or_prefix_of_prefix hq.1 hunder.1 with hqa | haq
      · exact hqa
      · exact absurd (hleast q ⟨haq, fun heq => hnew (heq ▸ hmem)⟩ hq.1 hmem) hq.2
    cases parent with
    | none => exact fun q hq hmem => hparent q (hbetween q hmem hq (hqa q hq hmem)) hmem
    | some p =>
      refine ⟨hparent.1.trans_isPrefix hunder.1, hparent.2.1, ?_⟩
      intro q hq hmem
      exact hparent.2.2 q (hbetween q hmem hq (hqa q hq hmem)) hmem
  · intro hcparent
    refine ⟨hunder, hc, ?_⟩
    intro q haq hqc hmem
    by_contra hne
    cases parent with
    | none => exact hcparent q ⟨hqc, hne⟩ hmem
    | some p => exact haq.not_prefix ((hcparent.2.2 q ⟨hqc, hne⟩ hmem).trans hparent.1.1)

section Insertion

variable (hnew : ¬ mem new) (hmem : ∀ q, mem' q ↔ mem q ∨ q = new) {parent parent' : Option (List κ)}

include hmem

theorem IsParent.insert_new (h : IsParent mem new parent) : IsParent mem' new parent := by
  have hold : ∀ q, Under q new → (mem' q ↔ mem q) := by
    intro q hq
    rw [hmem, or_iff_left hq.2]
  cases parent with
  | none =>
    intro q hq hq'
    exact h q hq ((hold q hq).mp hq')
  | some p =>
    refine ⟨h.1, (hmem p).mpr (Or.inl h.2.1), ?_⟩
    intro q hq hq'
    exact h.2.2 q hq ((hold q hq).mp hq')

theorem IsParent.insert_other (h : IsParent mem d parent) (hunder : ¬ Under new d) : IsParent mem' d parent := by
  have hold : ∀ q, Under q d → (mem' q ↔ mem q) := by
    intro q hq
    rw [hmem, or_iff_left]
    rintro rfl
    exact hunder hq
  cases parent with
  | none =>
    intro q hq hq'
    exact h q hq ((hold q hq).mp hq')
  | some p =>
    refine ⟨h.1, (hmem p).mpr (Or.inl h.2.1), ?_⟩
    intro q hq hq'
    exact h.2.2 q hq ((hold q hq).mp hq')

theorem IsParent.insert_between (h : IsParent mem d parent) (hparent : IsParent mem new parent)
    (hunder : Under new d) : IsParent mem' d (some new) := by
  refine ⟨hunder, (hmem new).mpr (Or.inr rfl), ?_⟩
  intro q hq hq'
  rcases (hmem q).mp hq' with hq' | rfl
  · cases parent with
    | none => exact absurd hq' (h q hq)
    | some p => exact (h.2.2 q hq hq').trans hparent.1.1
  · exact List.prefix_rfl

include hnew

theorem IsParent.insert_above (h : IsParent mem d parent) (hparent : IsParent mem new parent')
    (hne : parent ≠ parent') (hunder : Under new d) : IsParent mem' d parent := by
  cases parent with
  | none =>
    cases parent' with
    | none => exact absurd rfl hne
    | some p => exact absurd hparent.2.1 (h p (hparent.1.trans_isPrefix hunder.1))
  | some p =>
    have hnp : new <+: p := by
      rcases List.prefix_or_prefix_of_prefix h.1.1 hunder.1 with hpn | hnp
      · have hunderNew : Under p new := ⟨hpn, fun heq => hnew (heq ▸ h.2.1)⟩
        have hnearest : IsParent mem new (some p) :=
          ⟨hunderNew, h.2.1, fun q hq hq' => h.2.2 q (hq.trans_isPrefix hunder.1) hq'⟩
        exact absurd (hnearest.unique hparent) hne
      · exact hnp
    refine ⟨h.1, (hmem p).mpr (Or.inl h.2.1), ?_⟩
    intro q hq hq'
    rcases (hmem q).mp hq' with hq' | rfl
    · exact h.2.2 q hq hq'
    · exact hnp

end Insertion

section Removal

variable {old : List κ} (hmem : ∀ q, mem' q ↔ mem q ∧ q ≠ old) {parent : Option (List κ)}

include hmem

theorem IsParent.remove_parent (h : IsParent mem d (some old)) (hparent : IsParent mem old parent) :
    IsParent mem' d parent := by
  have hold : ∀ q, Under q d → mem' q → Under q old ∧ mem q := by
    intro q hq hq'
    obtain ⟨hq', hne⟩ := (hmem q).mp hq'
    exact ⟨⟨h.2.2 q hq hq', hne⟩, hq'⟩
  cases parent with
  | none =>
    intro q hq hq'
    exact hparent q (hold q hq hq').1 (hold q hq hq').2
  | some p =>
    refine ⟨hparent.1.trans_isPrefix h.1.1, (hmem p).mpr ⟨hparent.2.1, hparent.1.2⟩, ?_⟩
    intro q hq hq'
    exact hparent.2.2 q (hold q hq hq').1 (hold q hq hq').2

theorem IsParent.remove_other (h : IsParent mem d parent) (hne : parent ≠ some old) : IsParent mem' d parent := by
  cases parent with
  | none =>
    intro q hq hq'
    exact h q hq ((hmem q).mp hq').1
  | some p =>
    refine ⟨h.1, (hmem p).mpr ⟨h.2.1, fun heq => hne (by rw [heq])⟩, ?_⟩
    intro q hq hq'
    exact h.2.2 q hq ((hmem q).mp hq').1

end Removal

end Keys

section Flow

variable {κ α : Type} {gate gate' : List κ → Option α → Option α} {a d p key : List κ}

/-- What the prefixes of a key that are shorter than a length pass down: each
gets what comes from above, and passes on what its gate makes of it. -/
def flow (gate : List κ → Option α → Option α) (key : List κ) : ℕ → Option α
  | 0 => none
  | i + 1 => gate (key.take i) (flow gate key i)

theorem flow_congr {i : ℕ} (h : ∀ j < i, gate (key.take j) = gate' (key.take j)) :
    flow gate key i = flow gate' key i := by
  induction i with
  | zero => rfl
  | succ i ih =>
    rw [flow, flow, ih fun j hj => h j (Nat.lt_succ_of_lt hj), h i (Nat.lt_succ_self i)]

theorem flow_of_prefix (h : a <+: d) {i : ℕ} (hi : i ≤ a.length) : flow gate d i = flow gate a i := by
  induction i with
  | zero => rfl
  | succ i ih =>
    have htake : d.take i = a.take i := by
      rw [List.prefix_iff_eq_take.mp h, List.take_take, min_eq_left (by omega)]
    rw [flow, flow, ih (by omega), htake]

theorem flow_unchanged (h : ∀ q, q ≠ a → gate q = gate' q) (hunder : ¬ Under a d) :
    flow gate d d.length = flow gate' d d.length := by
  refine flow_congr fun j hj => h _ ?_
  rintro rfl
  exact hunder (under_take hj)

theorem flow_through (hunder : Under a d) (hopen : ∀ q, Under a q → Under q d → ∀ x, gate q x = x) :
    flow gate d d.length = gate a (flow gate a a.length) := by
  have hall : ∀ i, a.length < i → i ≤ d.length → flow gate d i = gate a (flow gate a a.length) := by
    intro i hlt hle
    induction i with
    | zero => exact absurd hlt (Nat.not_lt_zero _)
    | succ i ih =>
      rw [flow]
      rcases Nat.lt_succ_iff_lt_or_eq.mp hlt with hlt | rfl
      · have htake : Under a (d.take i) := by
          refine ⟨List.prefix_take_iff.mpr ⟨hunder.1, hlt.le⟩, ?_⟩
          intro heq
          have hlength := congrArg List.length heq
          rw [List.length_take, min_eq_left (by omega)] at hlength
          exact absurd hlength hlt.ne
        rw [hopen _ htake (under_take (by omega)), ih hlt (by omega)]
      · rw [← hunder.eq_take, flow_of_prefix hunder.1 le_rfl]
  exact hall d.length hunder.length_lt le_rfl

theorem flow_open (hopen : ∀ q, Under q d → ∀ x, gate q x = x) : flow gate d d.length = none := by
  have hall : ∀ i, i ≤ d.length → flow gate d i = none := by
    intro i hi
    induction i with
    | zero => rfl
    | succ i ih => rw [flow, hopen _ (under_take hi), ih (Nat.le_of_succ_le hi)]
  exact hall d.length le_rfl

/-- Below a gate that does not depend on what comes from above, the gates above it do not matter. -/
theorem flow_blocked (h : ∀ q, q ≠ a → gate q = gate' q) (hap : Under a p) (hpd : Under p d)
    (hblocks : ∀ x y, gate p x = gate p y) : flow gate d d.length = flow gate' d d.length := by
  have hall : ∀ i, p.length < i → i ≤ d.length → flow gate d i = flow gate' d i := by
    intro i hlt hle
    induction i with
    | zero => exact absurd hlt (Nat.not_lt_zero _)
    | succ i ih =>
      rw [flow, flow]
      rcases Nat.lt_succ_iff_lt_or_eq.mp hlt with hlt | rfl
      · rw [ih hlt (by omega), h]
        rintro heq
        have hlength := congrArg List.length heq
        have := hap.length_lt
        rw [List.length_take, min_eq_left (by omega)] at hlength
        omega
      · rw [← hpd.eq_take, h p hap.2.symm]
        rw [h p hap.2.symm] at hblocks
        exact hblocks _ _
  exact hall d.length hpd.length_lt le_rfl

end Flow

end LeoNdn.Inheritance
