import Mathlib.Data.List.Basic
import Mathlib.Data.List.Forall2

/-!
Loops that may fail, over the elements of a list that each pass may change.
-/

namespace LeoNdn.Loops

theorem ok_of_bind {ε α β : Type} {x : Except ε α} {f : α → Except ε β} {b : β}
    (hrun : x >>= f = .ok b) : ∃ a, x = .ok a ∧ f a = .ok b :=
  match x, hrun with
  | .ok a, hrun => ⟨a, rfl, hrun⟩

theorem error_of_bind {ε α β : Type} {x : Except ε α} {f : α → Except ε β} {e : ε}
    (hrun : x >>= f = .error e) : x = .error e ∨ ∃ a, x = .ok a ∧ f a = .error e :=
  match x, hrun with
  | .error _, hrun => Or.inl (congrArg Except.error (Except.error.inj hrun))
  | .ok a, hrun => Or.inr ⟨a, rfl, hrun⟩

/-- A loop over the values of a map that may change each value in place. -/
def forEach {ε α σ : Type} (f : α → σ → Except ε (α × σ)) : List α → σ → Except ε (List α × σ)
  | [], s => .ok ([], s)
  | a :: l, s => do
    let (a, s) ← f a s
    let (l, s) ← forEach f l s
    .ok (a :: l, s)

variable {ε α σ : Type} {f : α → σ → Except ε (α × σ)}

theorem forEach_cons {a : α} {l l' : List α} {s s' : σ} (h : forEach f (a :: l) s = .ok (l', s')) :
    ∃ a' l'' t, f a s = .ok (a', t) ∧ forEach f l t = .ok (l'', s') ∧ l' = a' :: l'' := by
  obtain ⟨⟨a', t⟩, ha, h⟩ := ok_of_bind h
  obtain ⟨⟨l'', u⟩, hl, h⟩ := ok_of_bind h
  cases h
  exact ⟨a', l'', t, ha, hl, rfl⟩

theorem forEach_preserves {R : σ → σ → Prop} (hrefl : ∀ s, R s s)
    (htrans : ∀ s t u, R s t → R t u → R s u) {l l' : List α} {s s' : σ}
    (hf : ∀ a ∈ l, ∀ s a' s', f a s = .ok (a', s') → R s s')
    (h : forEach f l s = .ok (l', s')) : R s s' := by
  induction l generalizing l' s with
  | nil => cases h; exact hrefl _
  | cons a l ih =>
    obtain ⟨a', l'', t, ha, hl, rfl⟩ := forEach_cons h
    exact htrans _ _ _ (hf a (by simp) _ _ _ ha)
      (ih (fun b hb => hf b (List.mem_cons_of_mem _ hb)) hl)

/-- An invariant of the elements and one of the shared state, with what every
pass preserves between the states. -/
theorem forEach_invariant {P : α → Prop} {I : σ → Prop} {R : σ → σ → Prop} (hrefl : ∀ s, R s s)
    (htrans : ∀ s t u, R s t → R t u → R s u)
    (hf : ∀ a s a' s', P a → I s → f a s = .ok (a', s') → P a' ∧ I s' ∧ R s s') {l l' : List α}
    {s s' : σ} (hl : ∀ a ∈ l, P a) (hs : I s) (h : forEach f l s = .ok (l', s')) :
    (∀ a ∈ l', P a) ∧ I s' ∧ R s s' := by
  induction l generalizing l' s with
  | nil =>
    cases h
    exact ⟨hl, hs, hrefl _⟩
  | cons a l ih =>
    obtain ⟨a', l'', t, ha, hrest, rfl⟩ := forEach_cons h
    obtain ⟨hP, hI, hR⟩ := hf a s a' t (hl a (by simp)) hs ha
    obtain ⟨hP', hI', hR'⟩ := ih (fun b hb => hl b (List.mem_cons_of_mem _ hb)) hI hrest
    exact ⟨by simpa using ⟨hP, hP'⟩, hI', htrans _ _ _ hR hR'⟩

theorem forEach_map {β : Type} {g : α → β} (hf : ∀ a s a' s', f a s = .ok (a', s') → g a' = g a)
    {l l' : List α} {s s' : σ} (h : forEach f l s = .ok (l', s')) : l'.map g = l.map g := by
  induction l generalizing l' s with
  | nil => cases h; rfl
  | cons a l ih =>
    obtain ⟨a', l'', t, ha, hrest, rfl⟩ := forEach_cons h
    rw [List.map_cons, List.map_cons, hf a s a' t ha, ih hrest]

theorem foldlM_preserves {f : σ → α → Except ε σ} {R : σ → σ → Prop} (hrefl : ∀ s, R s s)
    (htrans : ∀ s t u, R s t → R t u → R s u) {l : List α} {s s' : σ}
    (hf : ∀ a ∈ l, ∀ s s', f s a = .ok s' → R s s') (h : l.foldlM f s = .ok s') : R s s' := by
  induction l generalizing s with
  | nil => cases h; exact hrefl _
  | cons a l ih =>
    rw [List.foldlM_cons] at h
    obtain ⟨t, ha, hl⟩ := ok_of_bind h
    exact htrans _ _ _ (hf a (by simp) _ _ ha) (ih (fun b hb => hf b (List.mem_cons_of_mem _ hb)) hl)

theorem forEach_split {l l' : List α} {s s' : σ} (h : forEach f l s = .ok (l', s'))
    (i : ℕ) (a : α) (ha : l[i]? = some a) :
    ∃ a' t t', forEach f (l.take i) s = .ok (l'.take i, t) ∧ f a t = .ok (a', t') ∧
      forEach f (l.drop (i + 1)) t' = .ok (l'.drop (i + 1), s') ∧ l'[i]? = some a' := by
  induction l generalizing l' s i with
  | nil => simp at ha
  | cons b l ih =>
    obtain ⟨b', l'', t, hb, hl, rfl⟩ := forEach_cons h
    cases i with
    | zero =>
      obtain rfl : b = a := by simpa using ha
      exact ⟨b', s, t, rfl, hb, hl, rfl⟩
    | succ i =>
      obtain ⟨a', u, u', h1, h2, h3, h4⟩ := ih hl i (by simpa using ha)
      refine ⟨a', u, u', ?_, h2, by simpa using h3, by simpa using h4⟩
      simp [forEach, hb, h1, bind, Except.bind]

theorem forEach_append {l m r : List α} {s s' : σ} (h : forEach f (l ++ m) s = .ok (r, s')) :
    ∃ l' t m', forEach f l s = .ok (l', t) ∧ forEach f m t = .ok (m', s') ∧ r = l' ++ m' := by
  induction l generalizing r s with
  | nil => exact ⟨[], s, r, rfl, h, rfl⟩
  | cons a l ih =>
    obtain ⟨a', r', t, ha, hrest, rfl⟩ := forEach_cons h
    obtain ⟨l', u, m', hl, hm, rfl⟩ := ih hrest
    refine ⟨a' :: l', u, m', ?_, hm, rfl⟩
    simp [forEach, ha, hl, bind, Except.bind]

theorem forEach_mem {l l' : List α} {s s' : σ} (h : forEach f l s = .ok (l', s')) {a' : α} (hmem : a' ∈ l') :
    ∃ a ∈ l, ∃ t t', f a t = .ok (a', t') := by
  induction l generalizing l' s with
  | nil =>
    cases h
    cases hmem
  | cons a l ih =>
    obtain ⟨b, l'', t, hb, hrest, rfl⟩ := forEach_cons h
    rcases List.mem_cons.mp hmem with rfl | hmem
    · exact ⟨a, List.mem_cons_self, s, t, hb⟩
    · obtain ⟨c, hc, hpass⟩ := ih hrest hmem
      exact ⟨c, List.mem_cons_of_mem _ hc, hpass⟩

section Pairwise

variable {α β γ : Type}

theorem forEach_forall₂ {ε σ : Type} {f : α → σ → Except ε (α × σ)} {R : α → α → Prop}
    (hf : ∀ a s a' s', f a s = .ok (a', s') → R a a') {l l' : List α} {s s' : σ} (h : forEach f l s = .ok (l', s')) :
    List.Forall₂ R l l' := by
  induction l generalizing l' s with
  | nil =>
    cases h
    exact List.Forall₂.nil
  | cons a l ih =>
    obtain ⟨a', l'', t, ha, hrest, rfl⟩ := forEach_cons h
    exact List.Forall₂.cons (hf a s a' t ha) (ih hrest)

theorem forall₂_comp {P : α → β → Prop} {Q : β → γ → Prop} {R : α → γ → Prop} (hcomp : ∀ a b c, P a b → Q b c → R a c)
    {l : List α} {m : List β} {r : List γ} (h : List.Forall₂ P l m) (h' : List.Forall₂ Q m r) : List.Forall₂ R l r := by
  induction h generalizing r with
  | nil =>
    cases h'
    exact List.Forall₂.nil
  | cons hhead _ ih =>
    cases h' with
    | cons hhead' htail' => exact List.Forall₂.cons (hcomp _ _ _ hhead hhead') (ih htail')

theorem forall₂_forall_iff {R : α → β → Prop} {P : α → Prop} {Q : β → Prop} (hiff : ∀ a b, R a b → (P a ↔ Q b))
    {l : List α} {m : List β} (h : List.Forall₂ R l m) : (∀ a ∈ l, P a) ↔ ∀ b ∈ m, Q b := by
  induction h with
  | nil => simp
  | cons hhead _ ih => rw [List.forall_mem_cons, List.forall_mem_cons, hiff _ _ hhead, ih]

end Pairwise

section MapM

theorem mapM_range {α β ε : Type} {f : ℕ → Except ε β} {g : α → Except ε β} {items : List α}
    (h : ∀ n item, items[n]? = some item → f n = g item) : (List.range items.length).mapM f = items.mapM g := by
  have hfrom : ∀ start (rest : List α), rest = items.drop start →
      (List.range' start rest.length).mapM f = rest.mapM g := by
    intro start rest hrest
    induction rest generalizing start with
    | nil => rfl
    | cons item rest ih =>
      have hitem : items[start]? = some item := by
        rw [← List.head?_drop, ← hrest]
        rfl
      have htail : rest = items.drop (start + 1) := by
        rw [← List.drop_drop, ← hrest]
        rfl
      rw [List.length_cons, List.range'_succ, List.mapM_cons, List.mapM_cons, h start item hitem, ih (start + 1) htail]
  rw [List.range_eq_range']
  exact hfrom 0 items rfl

theorem ok_of_mapM {α β ε : Type} {g : α → Except ε β} {items : List α} {values : List β}
    (h : items.mapM g = .ok values) : ∀ item ∈ items, ∃ value, g item = .ok value := by
  induction items generalizing values with
  | nil => exact fun item hitem => by cases hitem
  | cons first items ih =>
    rw [List.mapM_cons] at h
    cases hfirst : g first with
    | error e =>
      rw [hfirst] at h
      cases h
    | ok value =>
      rw [hfirst] at h
      cases hrest : items.mapM g with
      | error e =>
        simp only [bind, Except.bind, hrest] at h
        cases h
      | ok rest =>
        intro item hitem
        rcases List.mem_cons.mp hitem with rfl | hmem
        · exact ⟨value, hfirst⟩
        · exact ih hrest item hmem

theorem mapM_ok {α β ε : Type} {g : α → Except ε β} {k : α → β} {items : List α}
    (h : ∀ item ∈ items, g item = .ok (k item)) :
    items.mapM g = .ok (items.map k) := by
  induction items with
  | nil => rfl
  | cons item items ih =>
    rw [List.mapM_cons, h item List.mem_cons_self, ih fun other hother => h other (List.mem_cons_of_mem item hother)]
    rfl

end MapM

section Commutes

variable {ε α β σ : Type}

theorem forEach_commutes {f : α → σ → Except ε (α × σ)} {φ : σ → σ} {l : List α}
    (hf : ∀ a ∈ l, ∀ s, f a (φ s) = (f a s).map (Prod.map id φ)) (s : σ) :
    forEach f l (φ s) = (forEach f l s).map (Prod.map id φ) := by
  induction l generalizing s with
  | nil => rfl
  | cons a l ih =>
    simp only [forEach, hf a List.mem_cons_self s, bind, Except.bind]
    cases hpass : f a s with
    | error e => rfl
    | ok result =>
      simp only [Except.map, Prod.map, id, ih (fun b hb => hf b (List.mem_cons_of_mem a hb)) result.2]
      cases forEach f l result.2 <;> rfl

theorem foldlM_commutes {f : σ → α → Except ε σ} {φ : σ → σ} {l : List α}
    (hf : ∀ a ∈ l, ∀ s, f (φ s) a = (f s a).map φ) (s : σ) : l.foldlM f (φ s) = (l.foldlM f s).map φ := by
  induction l generalizing s with
  | nil => rfl
  | cons a l ih =>
    simp only [List.foldlM_cons, hf a List.mem_cons_self s, bind, Except.bind]
    cases hpass : f s a with
    | error e => rfl
    | ok s' => exact ih (fun b hb => hf b (List.mem_cons_of_mem a hb)) s'

/-- A loop whose passes leave `φ` of the state as it is, and succeed by it, succeeds if and only if all of them do. -/
theorem foldlM_ok_iff {τ : Type} {f : σ → α → Except ε σ} {φ : σ → τ} {P : τ → α → Prop}
    (hkeep : ∀ s a s', f s a = .ok s' → φ s' = φ s) (hok : ∀ s a, (∃ s', f s a = .ok s') ↔ P (φ s) a) (l : List α)
    (s : σ) : ((∃ s', l.foldlM f s = .ok s') ↔ ∀ a ∈ l, P (φ s) a) ∧ ∀ s', l.foldlM f s = .ok s' → φ s' = φ s := by
  refine ⟨?_, fun s' h => foldlM_preserves (R := fun s s' => φ s' = φ s) (fun _ => rfl)
    (fun _ _ _ h h' => Eq.trans h' h) (fun a _ s s' => hkeep s a s') h⟩
  induction l generalizing s with
  | nil => exact ⟨fun _ a ha => (nomatch ha), fun _ => ⟨s, rfl⟩⟩
  | cons a l ih =>
    rw [List.forall_mem_cons, List.foldlM_cons]
    constructor
    · rintro ⟨s', h⟩
      obtain ⟨mid, hmid, h⟩ := ok_of_bind h
      have hrest := (ih mid).mp ⟨s', h⟩
      rw [hkeep s a mid hmid] at hrest
      exact ⟨(hok s a).mp ⟨mid, hmid⟩, hrest⟩
    · rintro ⟨hfirst, hrest⟩
      obtain ⟨mid, hmid⟩ := (hok s a).mpr hfirst
      rw [← hkeep s a mid hmid] at hrest
      obtain ⟨s', h⟩ := (ih mid).mpr hrest
      exact ⟨s', by rw [hmid]; exact h⟩

theorem bind_commutes {γ δ : Type} {x : Except ε α} {f : α → Except ε γ} {f' : β → Except ε δ} {φ : α → β} {ψ : γ → δ}
    (hf : ∀ a, x = .ok a → f' (φ a) = (f a).map ψ) : (x.map φ >>= f') = (x >>= f).map ψ := by
  cases x with
  | error e => rfl
  | ok a => exact hf a rfl

end Commutes

end LeoNdn.Loops
