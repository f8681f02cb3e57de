import LeoNdn.NameTree

/-!
The enumeration of the nodes under a prefix, in which a selector accepts nodes
and declines the children of nodes.
-/

namespace LeoNdn.NameTreeIterator

open LeoNdn.NameTree

/-- The end has no entry. -/
structure Iterator (κ : Type) where
  m_entry : Option (List κ)
  m_ref : Option (List κ)
  m_state : Bool
  deriving DecidableEq, Repr

inductive Sibling (κ : Type)
  | visit (name : List κ) (wantChildren : Bool)
  | descend (name : List κ)
  | noMore
  deriving DecidableEq, Repr

variable {κ τ : Type}

/-- `wantSelf` and `wantChildren`. -/
def select (tree : Tree κ τ) (pred : Entry κ τ → Bool × Bool) (name : List κ) : Bool × Bool :=
  match tree name with
  | some entry => pred entry
  | none => (false, false)

def getChildren (tree : Tree κ τ) (name : List κ) : List (List κ) :=
  match tree name with
  | some entry => entry.m_children
  | none => []

def nextSibling (tree : Tree κ τ) (pred : Entry κ τ → Bool × Bool) : List (List κ) → Sibling κ
  | [] => .noMore
  | sibling :: siblings =>
    let (wantSelf, wantChildren) := select tree pred sibling
    if wantSelf then .visit sibling wantChildren
    else if wantChildren then .descend sibling
    else nextSibling tree pred siblings

def resume (ref parent : List κ) (traverse : List κ → Bool → Option (Iterator κ)) : Sibling κ → Option (Iterator κ)
  | .visit sibling wantChildren => some ⟨some sibling, some ref, wantChildren⟩
  | .descend sibling => traverse sibling true
  | .noMore => traverse parent false

section Enumeration

variable [DecidableEq κ]

/-- The loop of the pre-order traversal, with a bound on its rounds. -/
def traverse (tree : Tree κ τ) (pred : Entry κ τ → Bool × Bool) (ref : List κ) :
    ℕ → List κ → Bool → Option (Iterator κ)
  | 0, _, _ => none
  | rounds + 1, entry, wantChildren =>
    if entry = ref ∧ ¬ (wantChildren ∧ getChildren tree entry ≠ []) then some ⟨none, none, false⟩
    else
      match if wantChildren then getChildren tree entry else [] with
      | child :: _ =>
        let (wantSelf, wantChildren) := select tree pred child
        if wantSelf then some ⟨some child, some ref, wantChildren⟩ else traverse tree pred ref rounds child wantChildren
      | [] =>
        match (tree entry).bind Entry.m_parent with
        | none => none
        | some parent =>
          resume ref parent (traverse tree pred ref rounds)
            (nextSibling tree pred ((getChildren tree parent).dropWhile (fun sibling => sibling ≠ entry)).tail)

def advance (tree : Tree κ τ) (pred : Entry κ τ → Bool × Bool) (rounds : ℕ) (i : Iterator κ) : Option (Iterator κ) :=
  match i.m_ref with
  | none => some ⟨none, none, false⟩
  | some ref =>
    match i.m_entry with
    | none =>
      let (wantSelf, wantChildren) := select tree pred ref
      if wantSelf then some ⟨some ref, some ref, wantChildren⟩ else traverse tree pred ref rounds ref wantChildren
    | some entry => traverse tree pred ref rounds entry i.m_state

def visits (tree : Tree κ τ) (pred : Entry κ τ → Bool × Bool) (rounds : ℕ) : ℕ → Iterator κ → Option (List (List κ))
  | 0, _ => none
  | n + 1, i =>
    match i.m_entry with
    | none => some []
    | some entry => ((advance tree pred rounds i).bind (visits tree pred rounds n)).map (fun entries => entry :: entries)

def partialEnumerate (rounds : ℕ) (tree : Tree κ τ) (namePrefix : List κ) (pred : Entry κ τ → Bool × Bool) :
    Option (List (List κ)) :=
  let ref := (findExactMatch tree namePrefix).map Entry.m_name
  (advance tree pred rounds ⟨none, ref, false⟩).bind (visits tree pred rounds rounds)

end Enumeration

/-- The accepted nodes of a subtree in pre-order; the depth is bounded. -/
def subtree (tree : Tree κ τ) (pred : Entry κ τ → Bool × Bool) : ℕ → List κ → List (List κ)
  | 0, _ => []
  | n + 1, name =>
    (if (select tree pred name).1 then [name] else []) ++
      (if (select tree pred name).2 then (getChildren tree name).flatMap (subtree tree pred n) else [])

section Children

variable {maxDepth : ℕ} {tree : Tree κ τ} {ref : List κ}

theorem getChildren_eq_some {name : List κ} {child : List κ} (hwf : WellFormed maxDepth tree) :
    child ∈ getChildren tree name ↔ (tree name).isSome ∧ child ≠ [] ∧ child.dropLast = name ∧ (tree child).isSome := by
  unfold getChildren
  cases hentry : tree name with
  | none => simp
  | some entry => simp [hwf.mem_children hentry]

theorem nodup_getChildren (hwf : WellFormed maxDepth tree) (name : List κ) : (getChildren tree name).Nodup := by
  unfold getChildren
  cases hentry : tree name with
  | none => exact List.nodup_nil
  | some entry => exact hwf.nodup_children hentry

theorem parent_of_child (hwf : WellFormed maxDepth tree) {name child : List κ}
    (hchild : child ∈ getChildren tree name) :
    (tree child).bind Entry.m_parent = some name := by
  obtain ⟨-, hne, hdrop, hsome⟩ := (getChildren_eq_some hwf).mp hchild
  obtain ⟨entry, hentry⟩ := Option.isSome_iff_exists.mp hsome
  rw [hentry, Option.bind_some, hwf.parent_eq hentry, if_neg hne, hdrop]

theorem child_ne_ref (hwf : WellFormed maxDepth tree) {name child : List κ} (hunder : ref <+: name)
    (hchild : child ∈ getChildren tree name) : child ≠ ref := by
  rintro rfl
  obtain ⟨-, hne, rfl, -⟩ := (getChildren_eq_some hwf).mp hchild
  have hlength := hunder.length_le
  have hpos := List.length_pos_iff.mpr hne
  rw [List.length_dropLast] at hlength
  omega

theorem under_child (hwf : WellFormed maxDepth tree) {name child : List κ} (hunder : ref <+: name)
    (hchild : child ∈ getChildren tree name) : ref <+: child := by
  obtain ⟨-, -, rfl, -⟩ := (getChildren_eq_some hwf).mp hchild
  exact hunder.trans (List.dropLast_prefix child)

theorem length_child (hwf : WellFormed maxDepth tree) {name child : List κ} (hchild : child ∈ getChildren tree name) :
    child.length = name.length + 1 := by
  obtain ⟨-, hne, rfl, -⟩ := (getChildren_eq_some hwf).mp hchild
  have hpos := List.length_pos_iff.mpr hne
  rw [List.length_dropLast]
  omega

end Children

section Traversal

variable [DecidableEq κ] {maxDepth : ℕ} {tree : Tree κ τ} {pred : Entry κ τ → Bool × Bool} {ref : List κ}

/-- The traversal goes on from the node to visit these nodes and then ends. -/
def Collects (tree : Tree κ τ) (pred : Entry κ τ → Bool × Bool) (ref entry : List κ) (wantChildren : Bool)
    (entries : List (List κ)) : Prop :=
  ∃ rounds, ∀ r r' n, rounds ≤ r → rounds ≤ r' → rounds ≤ n →
    (traverse tree pred ref r entry wantChildren).bind (visits tree pred r' n) = some entries

def Continues (tree : Tree κ τ) (pred : Entry κ τ → Bool × Bool) (ref parent : List κ) :
    Sibling κ → List (List κ) → Prop
  | .visit sibling wantChildren, entries =>
    ∃ entries', Collects tree pred ref sibling wantChildren entries' ∧ entries = sibling :: entries'
  | .descend sibling, entries => Collects tree pred ref sibling true entries
  | .noMore, entries => Collects tree pred ref parent false entries

theorem Collects.visits {entry : List κ} {wantChildren : Bool} {entries : List (List κ)}
    (h : Collects tree pred ref entry wantChildren entries) :
    ∃ rounds, ∀ r n, rounds ≤ r → rounds ≤ n →
      visits tree pred r n ⟨some entry, some ref, wantChildren⟩ = some (entry :: entries) := by
  obtain ⟨rounds, hrounds⟩ := h
  refine ⟨rounds + 1, fun r n hr hn => ?_⟩
  obtain ⟨n, rfl⟩ := Nat.exists_eq_add_of_le' (Nat.one_le_of_lt hn)
  simp only [NameTreeIterator.visits, advance]
  rw [hrounds r r n (by omega) (by omega) (by omega)]
  rfl

theorem collects_end {wantChildren : Bool} (h : ¬ (wantChildren = true ∧ getChildren tree ref ≠ [])) :
    Collects tree pred ref ref wantChildren [] := by
  refine ⟨1, fun r r' n hr _ hn => ?_⟩
  obtain ⟨r, rfl⟩ := Nat.exists_eq_add_of_le' hr
  obtain ⟨n, rfl⟩ := Nat.exists_eq_add_of_le' hn
  rw [traverse, if_pos ⟨rfl, h⟩]
  rfl

theorem collects_siblings {entry parent : List κ} {wantChildren : Bool} {entries : List (List κ)}
    (hne : entry ≠ ref) (hchildren : (if wantChildren then getChildren tree entry else []) = [])
    (hparent : (tree entry).bind Entry.m_parent = some parent)
    (h : Continues tree pred ref parent
      (nextSibling tree pred ((getChildren tree parent).dropWhile (fun sibling => sibling ≠ entry)).tail) entries) :
    Collects tree pred ref entry wantChildren entries := by
  generalize hsibling : nextSibling tree pred
    ((getChildren tree parent).dropWhile (fun sibling => sibling ≠ entry)).tail = sibling at h
  have hround : ∀ r, traverse tree pred ref (r + 1) entry wantChildren =
      resume ref parent (traverse tree pred ref r) sibling := by
    intro r
    rw [traverse, if_neg (fun hend => hne hend.1)]
    simp only [hchildren, hparent, hsibling]
  cases sibling with
  | visit sibling wantChildren' =>
    obtain ⟨entries', hentries', rfl⟩ := h
    obtain ⟨rounds, hrounds⟩ := hentries'.visits
    refine ⟨rounds + 1, fun r r' n hr hr' hn => ?_⟩
    obtain ⟨r, rfl⟩ := Nat.exists_eq_add_of_le' (Nat.one_le_of_lt hr)
    rw [hround]
    exact hrounds r' n (by omega) (by omega)
  | descend sibling =>
    obtain ⟨rounds, hrounds⟩ := h
    refine ⟨rounds + 1, fun r r' n hr hr' hn => ?_⟩
    obtain ⟨r, rfl⟩ := Nat.exists_eq_add_of_le' (Nat.one_le_of_lt hr)
    rw [hround]
    exact hrounds r r' n (by omega) (by omega) (by omega)
  | noMore =>
    obtain ⟨rounds, hrounds⟩ := h
    refine ⟨rounds + 1, fun r r' n hr hr' hn => ?_⟩
    obtain ⟨r, rfl⟩ := Nat.exists_eq_add_of_le' (Nat.one_le_of_lt hr)
    rw [hround]
    exact hrounds r r' n (by omega) (by omega) (by omega)

theorem siblings_after (before after : List (List κ)) (child : List κ) (hnodup : (before ++ child :: after).Nodup) :
    ((before ++ child :: after).dropWhile (fun sibling => sibling ≠ child)).tail = after := by
  rw [List.dropWhile_append_of_pos]
  · simp
  · intro sibling hsibling
    have h := (List.nodup_append.mp hnodup).2.2 sibling hsibling child List.mem_cons_self
    exact decide_eq_true h

theorem collects_children (hwf : WellFormed maxDepth tree) {name : List κ} (hunder : ref <+: name)
    (hchildren : getChildren tree name ≠ []) {entries : List (List κ)}
    (h : Continues tree pred ref name (nextSibling tree pred (getChildren tree name)) entries) :
    Collects tree pred ref name true entries := by
  obtain ⟨child, siblings, hsplit⟩ := List.exists_cons_of_ne_nil hchildren
  have hchild : child ∈ getChildren tree name := hsplit ▸ List.mem_cons_self
  have hround : ∀ r, traverse tree pred ref (r + 1) name true =
      if (select tree pred child).1 then some ⟨some child, some ref, (select tree pred child).2⟩
      else traverse tree pred ref r child (select tree pred child).2 := by
    intro r
    rw [traverse, if_neg (fun hend => hend.2 ⟨rfl, hchildren⟩)]
    simp only [if_true, hsplit]
  rw [hsplit, nextSibling] at h
  by_cases hself : (select tree pred child).1 = true
  · simp only [hself, if_true] at h
    obtain ⟨entries', hentries', rfl⟩ := h
    obtain ⟨rounds, hrounds⟩ := hentries'.visits
    refine ⟨rounds + 1, fun r r' n hr hr' hn => ?_⟩
    obtain ⟨r, rfl⟩ := Nat.exists_eq_add_of_le' (Nat.one_le_of_lt hr)
    rw [hround, if_pos hself]
    exact hrounds r' n (by omega) (by omega)
  · have hcollects : Collects tree pred ref child (select tree pred child).2 entries := by
      by_cases hwant : (select tree pred child).2 = true
      · simp only [hself, hwant, if_true] at h
        rw [hwant]
        exact h
      · simp only [hself, hwant] at h
        rw [Bool.eq_false_iff.mpr hwant]
        refine collects_siblings (child_ne_ref hwf hunder hchild) rfl (parent_of_child hwf hchild) ?_
        have hafter := siblings_after [] siblings child (hsplit ▸ nodup_getChildren hwf name)
        rw [List.nil_append] at hafter
        rw [hsplit, hafter]
        exact h
    obtain ⟨rounds, hrounds⟩ := hcollects
    refine ⟨rounds + 1, fun r r' n hr hr' hn => ?_⟩
    obtain ⟨r, rfl⟩ := Nat.exists_eq_add_of_le' (Nat.one_le_of_lt hr)
    rw [hround, if_neg hself]
    exact hrounds r r' n (by omega) (by omega) (by omega)

theorem continues_siblings (hwf : WellFormed maxDepth tree) (n : ℕ) :
    ∀ parent, maxDepth ≤ parent.length + n → ref <+: parent →
      ∀ siblings before, getChildren tree parent = before ++ siblings →
        ∀ entries, Collects tree pred ref parent false entries →
          Continues tree pred ref parent (nextSibling tree pred siblings)
            (siblings.flatMap (subtree tree pred n) ++ entries) := by
  induction n with
  | zero =>
    intro parent hdepth hunder siblings before hsplit entries hentries
    have hnone : siblings = [] := by
      refine List.eq_nil_iff_forall_not_mem.mpr fun child hmem => ?_
      have hchild : child ∈ getChildren tree parent := hsplit ▸ List.mem_append_right _ hmem
      have hlength := length_child hwf hchild
      have hle := hwf.length_le ((getChildren_eq_some hwf).mp hchild).2.2.2
      omega
    subst hnone
    exact hentries
  | succ n ihn =>
    intro parent hdepth hunder siblings
    induction siblings with
    | nil =>
      intro before hsplit entries hentries
      exact hentries
    | cons child siblings ih =>
      intro before hsplit entries hentries
      have hchild : child ∈ getChildren tree parent := hsplit ▸ List.mem_append_right _ List.mem_cons_self
      have hrest := ih (before ++ [child]) (by simpa using hsplit) entries hentries
      have hunder' := under_child hwf hunder hchild
      have hskip : ∀ wantChildren, (if wantChildren then getChildren tree child else []) = [] →
          Collects tree pred ref child wantChildren (siblings.flatMap (subtree tree pred (n + 1)) ++ entries) := by
        intro wantChildren hnone
        refine collects_siblings (child_ne_ref hwf hunder hchild) hnone (parent_of_child hwf hchild) ?_
        rw [hsplit, siblings_after before siblings child (hsplit ▸ nodup_getChildren hwf parent)]
        exact hrest
      have hbelow : Collects tree pred ref child true ((getChildren tree child).flatMap (subtree tree pred n) ++
          (siblings.flatMap (subtree tree pred (n + 1)) ++ entries)) := by
        by_cases hnone : getChildren tree child = []
        · rw [hnone]
          exact hskip true (by rw [if_pos rfl, hnone])
        · refine collects_children hwf hunder' hnone ?_
          have hdepth' : maxDepth ≤ child.length + n := by
            rw [length_child hwf hchild]
            omega
          exact ihn child hdepth' hunder' _ [] rfl _ (hskip false rfl)
      simp only [List.flatMap_cons, subtree, nextSibling, List.append_assoc]
      by_cases hself : (select tree pred child).1 = true
      · simp only [hself, if_true]
        refine ⟨_, ?_, rfl⟩
        by_cases hwant : (select tree pred child).2 = true
        · simp only [hwant, if_true]
          exact hbelow
        · rw [if_neg hwant, Bool.eq_false_iff.mpr hwant]
          exact hskip false rfl
      · by_cases hwant : (select tree pred child).2 = true
        · simp only [hself, hwant, if_true]
          exact hbelow
        · simp only [hself, hwant]
          exact hrest

theorem partialEnumerate_eq (hwf : WellFormed maxDepth tree) (pred : Entry κ τ → Bool × Bool) (namePrefix : List κ) :
    ∃ rounds, ∀ r, rounds ≤ r →
      partialEnumerate r tree namePrefix pred = some (subtree tree pred (maxDepth + 1) namePrefix) := by
  cases hentry : tree namePrefix with
  | none =>
    refine ⟨1, fun r hr => ?_⟩
    obtain ⟨r, rfl⟩ := Nat.exists_eq_add_of_le' hr
    simp [partialEnumerate, findExactMatch, hentry, advance, visits, subtree, select]
  | some entry =>
    have hname := hwf.name_eq hentry
    have hbelow : Collects tree pred namePrefix namePrefix (select tree pred namePrefix).2
        (if (select tree pred namePrefix).2 then (getChildren tree namePrefix).flatMap (subtree tree pred maxDepth) else []) := by
      by_cases hend : (select tree pred namePrefix).2 = true ∧ getChildren tree namePrefix ≠ []
      · rw [if_pos hend.1, hend.1]
        refine collects_children hwf List.prefix_rfl hend.2 ?_
        rw [← List.append_nil (List.flatMap _ _)]
        exact continues_siblings hwf maxDepth namePrefix (by omega) List.prefix_rfl _ [] rfl [] (collects_end (by simp))
      · have hnil : (if (select tree pred namePrefix).2 then
            (getChildren tree namePrefix).flatMap (subtree tree pred maxDepth) else []) = [] := by
          split
          · rename_i hwant
            rw [not_and_not_right.mp hend hwant]
            rfl
          · rfl
        rw [hnil]
        exact collects_end hend
    have hstart : ∀ r, advance tree pred r ⟨none, some namePrefix, false⟩ =
        if (select tree pred namePrefix).1 then some ⟨some namePrefix, some namePrefix, (select tree pred namePrefix).2⟩
        else traverse tree pred namePrefix r namePrefix (select tree pred namePrefix).2 := fun r => rfl
    simp only [partialEnumerate, findExactMatch, hentry, Option.map_some, hname, hstart, subtree]
    by_cases hself : (select tree pred namePrefix).1 = true
    · obtain ⟨rounds, hrounds⟩ := hbelow.visits
      refine ⟨rounds, fun r hr => ?_⟩
      rw [if_pos hself, if_pos hself]
      exact hrounds r r hr hr
    · obtain ⟨rounds, hrounds⟩ := hbelow
      refine ⟨rounds, fun r hr => ?_⟩
      rw [if_neg hself, if_neg hself]
      exact hrounds r r r hr hr hr

end Traversal

section Subtree

variable {maxDepth : ℕ} {tree : Tree κ τ} {pred : Entry κ τ → Bool × Bool}

theorem take_eq_of_isPrefix {name name' : List κ} (h : name <+: name') : name'.take name.length = name :=
  (List.prefix_iff_eq_take.mp h).symm

theorem mem_subtree (hwf : WellFormed maxDepth tree) {n : ℕ} {name : List κ} (hdepth : maxDepth < name.length + n)
    (name' : List κ) :
    name' ∈ subtree tree pred n name ↔ name <+: name' ∧ (select tree pred name').1 = true ∧ (tree name').isSome ∧
      ∀ i, name.length ≤ i → i < name'.length → (select tree pred (name'.take i)).2 = true := by
  induction n generalizing name with
  | zero =>
    simp only [subtree, List.not_mem_nil, false_iff]
    rintro ⟨hunder, -, hsome, -⟩
    have hlength := hunder.length_le
    have hle := hwf.length_le hsome
    omega
  | succ n ih =>
    have hself : name' ∈ (if (select tree pred name).1 then [name] else []) ↔
        name' = name ∧ (select tree pred name).1 = true := by
      split <;> simp_all
    have hchildren : name' ∈ (if (select tree pred name).2 then (getChildren tree name).flatMap (subtree tree pred n)
        else []) ↔ (select tree pred name).2 = true ∧ ∃ child ∈ getChildren tree name, name' ∈ subtree tree pred n child := by
      split <;> simp_all
    rw [subtree, List.mem_append, hself, hchildren]
    constructor
    · rintro (⟨rfl, haccepted⟩ | ⟨hwant, child, hchild, hmem⟩)
      · refine ⟨List.prefix_rfl, haccepted, ?_, fun i hi hi' => by omega⟩
        by_contra hnone
        rw [Option.not_isSome_iff_eq_none] at hnone
        simp [select, hnone] at haccepted
      · have hlength := length_child hwf hchild
        obtain ⟨hunder, haccepted, hsome, hway⟩ := (ih (by omega)).mp hmem
        have hname := under_child hwf List.prefix_rfl hchild
        refine ⟨hname.trans hunder, haccepted, hsome, fun i hi hi' => ?_⟩
        rcases Nat.eq_or_lt_of_le hi with rfl | hlt
        · rw [take_eq_of_isPrefix (hname.trans hunder)]
          exact hwant
        · exact hway i (by omega) hi'
    · rintro ⟨hunder, haccepted, hsome, hway⟩
      rcases Nat.eq_or_lt_of_le hunder.length_le with heq | hlt
      · obtain rfl := hunder.eq_of_length heq
        exact Or.inl ⟨rfl, haccepted⟩
      · have hname := take_eq_of_isPrefix hunder
        have hwant := hway name.length (Nat.le_refl _) hlt
        rw [hname] at hwant
        refine Or.inr ⟨hwant, name'.take (name.length + 1), ?_, ?_⟩
        · refine (getChildren_eq_some hwf).mpr ⟨?_, ?_, ?_, isSome_take hwf hsome _⟩
          · have h := isSome_take hwf hsome name.length
            rwa [hname] at h
          · exact List.ne_nil_of_length_pos (by rw [List.length_take]; omega)
          · rw [List.dropLast_eq_take, List.take_take, List.length_take, Nat.min_eq_left (by omega)]
            rw [show min (name.length + 1) name'.length - 1 = name.length by omega, hname]
        · have hlength : (name'.take (name.length + 1)).length = name.length + 1 := by
            rw [List.length_take]
            omega
          refine (ih (by omega)).mpr ⟨List.take_prefix _ _, haccepted, hsome, fun i hi hi' => hway i (by omega) hi'⟩

theorem prefix_of_mem_subtree (hwf : WellFormed maxDepth tree) {n : ℕ} {name name' : List κ}
    (h : name' ∈ subtree tree pred n name) : name <+: name' := by
  induction n generalizing name with
  | zero => exact absurd h List.not_mem_nil
  | succ n ih =>
    rcases List.mem_append.mp h with h | h
    · split at h
      · obtain rfl := List.mem_singleton.mp h
        exact List.prefix_rfl
      · exact absurd h List.not_mem_nil
    · split at h
      · obtain ⟨child, hchild, hmem⟩ := List.mem_flatMap.mp h
        exact (under_child hwf List.prefix_rfl hchild).trans (ih hmem)
      · exact absurd h List.not_mem_nil

theorem nodup_subtree (hwf : WellFormed maxDepth tree) (n : ℕ) (name : List κ) : (subtree tree pred n name).Nodup := by
  induction n generalizing name with
  | zero => exact List.nodup_nil
  | succ n ih =>
    refine List.nodup_append.mpr ⟨?_, ?_, ?_⟩
    · split
      · exact List.nodup_singleton name
      · exact List.nodup_nil
    · split
      · refine List.nodup_flatMap.mpr ⟨fun child _ => ih child, ?_⟩
        refine (nodup_getChildren hwf name).imp_of_mem fun {child child'} hchild hchild' hne => ?_
        intro name' hmem hmem'
        have hpre := prefix_of_mem_subtree hwf hmem
        have hpre' := prefix_of_mem_subtree hwf hmem'
        refine hne ?_
        rw [← take_eq_of_isPrefix hpre, ← take_eq_of_isPrefix hpre', length_child hwf hchild, length_child hwf hchild']
      · exact List.nodup_nil
    · intro name' hself name'' hbelow heq
      subst heq
      have hname : name' = name := List.mem_singleton.mp (List.mem_ite_nil_right.mp hself).2
      split at hbelow
      · obtain ⟨child, hchild, hmem⟩ := List.mem_flatMap.mp hbelow
        have hle := (prefix_of_mem_subtree hwf hmem).length_le
        rw [length_child hwf hchild, hname] at hle
        omega
      · exact absurd hbelow List.not_mem_nil

end Subtree

end LeoNdn.NameTreeIterator
