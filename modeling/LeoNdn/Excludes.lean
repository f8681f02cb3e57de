import LeoNdn.InterestSelectors
import LeoNdn.SortedLists

/-!
The exclude filter of an Interest: the operations that build it, its encoding,
and that the decoder gives the filter back.
-/

namespace LeoNdn.Excludes

open LeoNdn.Loops LeoNdn.Tlv LeoNdn.TlvEncoding LeoNdn.NdnPacket LeoNdn.NdnEncoding LeoNdn.InterestSelectors LeoNdn.SortedLists
open LeoNdn.InterestSelectors (Exclude ExcludeComponent)

abbrev Entry := ExcludeComponent × Bool

def above (key : ExcludeComponent) (entries : List Entry) : List Entry :=
  ahead ExcludeComponent.isGreater Prod.fst key entries

def lowerBound (key : ExcludeComponent) (entries : List Entry) : List Entry :=
  SortedLists.lowerBound ExcludeComponent.isGreater Prod.fst key entries

def emplace (entries : List Entry) (key : ExcludeComponent) (hasAny : Bool) : List Entry :=
  if (lowerBound key entries).head?.any (fun first => ! key.isGreater first.1) then entries
  else above key entries ++ (key, hasAny) :: lowerBound key entries

def Exclude.appendEntry (exclude : Exclude) (key : ExcludeComponent) (hasAny : Bool) : Exclude :=
  ⟨emplace exclude.m_entries key hasAny⟩

def Exclude.excludeOne (exclude : Exclude) (comp : Component) : Exclude :=
  if exclude.isExcluded comp then exclude else Exclude.appendEntry exclude (.component comp) false

/-- The first part of `excludeRange` and `excludeAfter`: a range starts at `start`. -/
def openRange (entries : List Entry) (start : ExcludeComponent) : List Entry :=
  match lowerBound start entries with
  | [] => entries ++ [(start, true)]
  | (_, true) :: _ => entries
  | (key, false) :: rest =>
    if start.isGreater key then above start entries ++ (start, true) :: (key, false) :: rest
    else above start entries ++ (key, true) :: rest

def ExcludeComponent.isAtLeast (last : Component) : ExcludeComponent → Bool
  | .negInf => false
  | .component start => compareComponents start last ≠ .lt

/-- The private overload; the public one and `excludeBefore` call it. -/
def Exclude.excludeFrom (exclude : Exclude) (start : ExcludeComponent) (last : Component) : Except Exception Exclude :=
  if ExcludeComponent.isAtLeast last start then .error (.tlvError "Invalid exclude range")
  else
    let opened := openRange exclude.m_entries start
    let newFrom := lowerBound start opened
    match lowerBound (.component last) opened with
    | [] => .ok ⟨opened⟩
    | newTo :: rest =>
      if rest.length + 1 = newFrom.length ∨ newTo.2 = false then
        .ok ⟨above (.component last) opened ++
          (if (ExcludeComponent.component last).isGreater newTo.1 then (.component last, false) else newTo) :: newFrom⟩
      else .ok ⟨above (.component last) opened ++ newFrom⟩

def Exclude.excludeRange (exclude : Exclude) (start last : Component) : Except Exception Exclude :=
  Exclude.excludeFrom exclude (.component start) last

def Exclude.excludeBefore (exclude : Exclude) (last : Component) : Except Exception Exclude :=
  Exclude.excludeFrom exclude .negInf last

def Exclude.excludeAfter (exclude : Exclude) (start : Component) : Exclude :=
  ⟨lowerBound (.component start) (openRange exclude.m_entries (.component start))⟩

def entryElements : Entry → List Block
  | (.negInf, hasAny) => if hasAny then [⟨19, []⟩] else []
  | (.component component, hasAny) => component :: if hasAny then [⟨19, []⟩] else []

def Exclude.wireEncode (exclude : Exclude) : Except Exception Block :=
  if exclude.m_entries = [] then .error (.tlvError "cannot encode empty Exclude selector")
  else .ok (makeBlock 16 (exclude.m_entries.reverse.flatMap entryElements))

def decodeComponent (element : Block) : Except Exception Component :=
  match Component.ensureValid element with
  | .error _ => .error (.tlvError "Incorrect format of Exclude filter")
  | .ok component =>
    if component.type = 8 ∨ component.type = 1 then .ok component
    else .error (.tlvError "Excluded component must be generic or ImplicitSha256Digest")

/-- The loop over the components, each with the Any that may follow it. -/
def decodeEntries : Exclude → List Block → Except Exception Exclude
  | exclude, [] => .ok exclude
  | exclude, [element] => do
    let component ← decodeComponent element
    .ok (Exclude.appendEntry exclude (.component component) false)
  | exclude, element :: next :: elements => do
    let component ← decodeComponent element
    if next.type = 19 then decodeEntries (Exclude.appendEntry exclude (.component component) true) elements
    else decodeEntries (Exclude.appendEntry exclude (.component component) false) (next :: elements)

def Exclude.wireDecode (wire : Block) : Except Exception Exclude := do
  if wire.type ≠ 16 then .error (.tlvError "Unexpected TLV type when decoding Exclude")
  else do
    let elements ← wire.parse
    if elements = [] then .error (.tlvError "Exclude element cannot be empty")
    else
      match takeType 19 elements with
      | (some _, elements) => decodeEntries (Exclude.appendEntry ⟨[]⟩ .negInf true) elements
      | (none, elements) => decodeEntries ⟨[]⟩ elements

inductive Exclude.Built : Exclude → Prop
  | empty : Exclude.Built ⟨[]⟩
  | excludeOne {exclude : Exclude} {comp : Component} : Exclude.Built exclude →
      Component.ensureValid comp = .ok comp → Exclude.Built (Exclude.excludeOne exclude comp)
  | excludeRange {exclude exclude' : Exclude} {start last : Component} : Exclude.Built exclude →
      Component.ensureValid start = .ok start → Component.ensureValid last = .ok last →
      Exclude.excludeRange exclude start last = .ok exclude' → Exclude.Built exclude'
  | excludeBefore {exclude exclude' : Exclude} {last : Component} : Exclude.Built exclude →
      Component.ensureValid last = .ok last → Exclude.excludeBefore exclude last = .ok exclude' → Exclude.Built exclude'
  | excludeAfter {exclude : Exclude} {start : Component} : Exclude.Built exclude →
      Component.ensureValid start = .ok start → Exclude.Built (Exclude.excludeAfter exclude start)
  | wireDecode {exclude : Exclude} {wire : Block} : Exclude.wireDecode wire = .ok exclude → Exclude.Built exclude

def EntryOk : Entry → Prop
  | (.negInf, hasAny) => hasAny = true
  | (.component component, _) => Component.ensureValid component = .ok component

structure Exclude.WellFormed (exclude : Exclude) : Prop where
  descending : StrictlySorted ExcludeComponent.isGreater Prod.fst exclude.m_entries
  entryOk : ∀ entry ∈ exclude.m_entries, EntryOk entry

section Order

open Std

theorem strictOrder_isGreater : StrictOrder ExcludeComponent.isGreater where
  irrefl := by
    intro a
    cases a with
    | negInf => rfl
    | component component => simp [ExcludeComponent.isGreater, ReflCmp.compare_self]
  trans := by
    intro a b c hab hbc
    cases a with
    | negInf => cases hab
    | component a =>
      cases b with
      | negInf => cases hbc
      | component b =>
        cases c with
        | negInf => rfl
        | component c =>
          simp only [ExcludeComponent.isGreater, decide_eq_true_eq] at hab hbc ⊢
          exact TransCmp.gt_trans hab hbc

end Order

section Operations

variable {entries : List Entry} {key start : ExcludeComponent} {exclude exclude' : Exclude}

theorem isLE_of_not_isGreater {component other : Component}
    (h : (ExcludeComponent.component component).isGreater (.component other) = false) :
    (compareComponents component other).isLE = true := by
  simp only [ExcludeComponent.isGreater, decide_eq_false_iff_not] at h
  rw [Ordering.isLE_iff_ne_gt]
  exact h

theorem isGreater_of_not_greater {a b c : ExcludeComponent} (hab : a.isGreater b = true) (hcb : c.isGreater b = false) :
    a.isGreater c = true := by
  cases a with
  | negInf => cases hab
  | component a =>
    cases c with
    | negInf => rfl
    | component c =>
      cases b with
      | negInf => cases hcb
      | component b =>
        have hge := Std.OrientedCmp.isGE_of_isLE (isLE_of_not_isGreater hcb)
        simp only [ExcludeComponent.isGreater, decide_eq_true_eq] at hab ⊢
        exact Std.TransCmp.gt_of_gt_of_isGE hab hge

theorem greater_of_not_isGreater {a b c : ExcludeComponent} (hab : a.isGreater b = true) (hac : a.isGreater c = false) :
    c.isGreater b = true := by
  cases a with
  | negInf => cases hab
  | component a =>
    cases c with
    | negInf => cases hac
    | component c =>
      cases b with
      | negInf => rfl
      | component b =>
        have hge := Std.OrientedCmp.isGE_of_isLE (isLE_of_not_isGreater hac)
        simp only [ExcludeComponent.isGreater, decide_eq_true_eq] at hab ⊢
        exact Std.TransCmp.gt_of_isGE_of_gt hge hab

theorem isGreater_of_not_isAtLeast {last : Component} (h : ExcludeComponent.isAtLeast last start = false) :
    (ExcludeComponent.component last).isGreater start = true := by
  cases start with
  | negInf => rfl
  | component start =>
    simp only [ExcludeComponent.isAtLeast, ne_eq, decide_eq_false_iff_not, not_not] at h
    simp only [ExcludeComponent.isGreater, decide_eq_true_eq]
    exact Std.OrientedCmp.gt_of_lt h

theorem above_append_lowerBound : above key entries ++ lowerBound key entries = entries := ahead_append_lowerBound

theorem WellFormed.place (hwf : Exclude.WellFormed ⟨entries⟩) {hasAny : Bool} (hok : EntryOk (key, hasAny))
    (hgreater : ∀ first rest, lowerBound key entries = first :: rest → key.isGreater first.1 = true) :
    Exclude.WellFormed ⟨above key entries ++ (key, hasAny) :: lowerBound key entries⟩ := by
  refine ⟨StrictlySorted.middle strictOrder_isGreater (hwf.descending.ahead key) (hwf.descending.lowerBound key)
    (fun entry hentry => before_of_mem_ahead hentry) fun entry hentry => ?_, fun entry hentry => ?_⟩
  · have hsorted : StrictlySorted ExcludeComponent.isGreater Prod.fst (lowerBound key entries) :=
      hwf.descending.lowerBound key
    cases hlower : lowerBound key entries with
    | nil =>
      rw [hlower] at hentry
      cases hentry
    | cons first rest =>
      have hfirst := hgreater first rest hlower
      rw [hlower] at hentry hsorted
      rcases List.mem_cons.mp hentry with rfl | hrest
      · exact hfirst
      · exact strictOrder_isGreater.trans hfirst ((List.pairwise_cons.mp hsorted).1 entry hrest)
  · rcases List.mem_append.mp hentry with h | h
    · exact hwf.entryOk entry (mem_of_mem_ahead h)
    · rcases List.mem_cons.mp h with rfl | h
      · exact hok
      · exact hwf.entryOk entry (mem_of_mem_lowerBound h)

theorem WellFormed.emplace (hwf : Exclude.WellFormed ⟨entries⟩) {hasAny : Bool} (hok : EntryOk (key, hasAny)) :
    Exclude.WellFormed ⟨emplace entries key hasAny⟩ := by
  unfold Excludes.emplace
  split
  · exact hwf
  · rename_i hnone
    refine WellFormed.place hwf hok fun first rest hlower => ?_
    rw [hlower] at hnone
    simpa using hnone

theorem WellFormed.of_map_fst (hwf : Exclude.WellFormed ⟨entries⟩) {entries' : List Entry}
    (hkeys : entries'.map Prod.fst = entries.map Prod.fst) (hok : ∀ entry ∈ entries', EntryOk entry) :
    Exclude.WellFormed ⟨entries'⟩ := by
  refine ⟨?_, hok⟩
  have hdescending : (entries.map Prod.fst).Pairwise (fun a b => a.isGreater b = true) :=
    List.pairwise_map.mpr hwf.descending
  rw [← hkeys] at hdescending
  exact List.pairwise_map.mp hdescending

theorem WellFormed.openRange (hwf : Exclude.WellFormed ⟨entries⟩) (hok : EntryOk (start, true)) :
    Exclude.WellFormed ⟨openRange entries start⟩ := by
  have hsplit : above start entries ++ lowerBound start entries = entries := above_append_lowerBound
  unfold Excludes.openRange
  split
  · rename_i hlower
    have hplace := WellFormed.place hwf hok fun first rest h => by rw [hlower] at h; cases h
    rw [hlower, List.append_nil] at hsplit
    rwa [hlower, hsplit] at hplace
  · exact hwf
  · rename_i key rest hlower
    split
    · rename_i hgreater
      have hplace := WellFormed.place hwf hok fun first rest' h => by
        rw [hlower] at h
        obtain ⟨rfl, rfl⟩ := List.cons.inj h
        exact hgreater
      rwa [hlower] at hplace
    · rw [hlower] at hsplit
      refine WellFormed.of_map_fst hwf ?_ fun entry hentry => ?_
      · conv => rhs; rw [← hsplit]
        simp only [List.map_append, List.map_cons]
      · rcases List.mem_append.mp hentry with h | h
        · exact hwf.entryOk entry (mem_of_mem_ahead h)
        · have hmem : ∀ entry ∈ (key, false) :: rest, entry ∈ entries := fun entry h =>
            hsplit ▸ List.mem_append_right _ h
          rcases List.mem_cons.mp h with rfl | h
          · have hkey := hwf.entryOk _ (hmem _ List.mem_cons_self)
            cases key with
            | negInf => cases hkey
            | component component => exact hkey
          · exact hwf.entryOk entry (hmem entry (List.mem_cons_of_mem _ h))

theorem WellFormed.sublist (hwf : Exclude.WellFormed ⟨entries⟩) {entries' : List Entry} (h : entries'.Sublist entries) :
    Exclude.WellFormed ⟨entries'⟩ :=
  ⟨List.Pairwise.sublist h hwf.descending, fun entry hentry => hwf.entryOk entry (h.subset hentry)⟩

theorem WellFormed.excludeFrom {last : Component} (hwf : Exclude.WellFormed exclude) (hstart : EntryOk (start, true))
    (hlast : Component.ensureValid last = .ok last) (h : Exclude.excludeFrom exclude start last = .ok exclude') :
    Exclude.WellFormed exclude' := by
  have hopened : Exclude.WellFormed ⟨Excludes.openRange exclude.m_entries start⟩ := WellFormed.openRange hwf hstart
  unfold Exclude.excludeFrom at h
  split at h
  · cases h
  · rename_i hatLeast
    have hgreater := isGreater_of_not_isAtLeast (Bool.eq_false_iff.mpr hatLeast)
    generalize Excludes.openRange exclude.m_entries start = opened at h hopened
    have hsplit : above (.component last) opened ++ lowerBound (.component last) opened = opened :=
      above_append_lowerBound
    have habove : ∀ entry ∈ above (.component last) opened, entry.1.isGreater (.component last) = true :=
      fun entry hentry => before_of_mem_ahead hentry
    have hbelow : ∀ entry ∈ lowerBound start opened, (ExcludeComponent.component last).isGreater entry.1 = true :=
      fun entry hentry => isGreater_of_not_greater hgreater
        (StrictlySorted.not_before strictOrder_isGreater hopened.descending hentry)
    simp only at h
    split at h
    · cases h
      exact hopened
    · rename_i newTo rest hlower
      have hnewTo : newTo ∈ opened := by
        rw [← hsplit, hlower]
        exact List.mem_append_right _ List.mem_cons_self
      split at h
      · cases h
        have hkey : ∀ entry ∈ above (.component last) opened, entry.1.isGreater newTo.1 = true := by
          intro entry hentry
          have hsorted := hopened.descending
          rw [← hsplit, hlower] at hsorted
          exact (List.pairwise_append.mp hsorted).2.2 entry hentry newTo List.mem_cons_self
        refine ⟨StrictlySorted.middle strictOrder_isGreater (hopened.descending.ahead _)
          (hopened.descending.lowerBound _) (fun entry hentry => ?_) fun entry hentry => ?_, fun entry hentry => ?_⟩
        · split
          · exact habove entry hentry
          · exact hkey entry hentry
        · split
          · exact hbelow entry hentry
          · rename_i hnot
            exact greater_of_not_isGreater (hbelow entry hentry) (Bool.eq_false_iff.mpr hnot)
        · rcases List.mem_append.mp hentry with h | h
          · exact hopened.entryOk entry (mem_of_mem_ahead h)
          · rcases List.mem_cons.mp h with rfl | h
            · split
              · exact hlast
              · exact hopened.entryOk newTo hnewTo
            · exact hopened.entryOk entry (mem_of_mem_lowerBound h)
      · cases h
        refine ⟨List.pairwise_append.mpr ⟨hopened.descending.ahead _, hopened.descending.lowerBound _,
          fun entry hentry entry' hentry' => ?_⟩, fun entry hentry => ?_⟩
        · exact strictOrder_isGreater.trans (habove entry hentry) (hbelow entry' hentry')
        · rcases List.mem_append.mp hentry with h | h
          · exact hopened.entryOk entry (mem_of_mem_ahead h)
          · exact hopened.entryOk entry (mem_of_mem_lowerBound h)

theorem ensureValid_eq {block component : Block} (h : Component.ensureValid block = .ok component) : component = block := by
  unfold Component.ensureValid at h
  split at h
  · cases h
  · split at h
    · cases h
    · split at h
      · cases h
      · exact (Except.ok.inj h).symm

theorem decodeComponent_ok {element component : Block} (h : decodeComponent element = .ok component) :
    component = element ∧ Component.ensureValid component = .ok component := by
  unfold decodeComponent at h
  split at h
  · cases h
  · rename_i component' hvalid
    have heq := ensureValid_eq hvalid
    split at h
    · obtain rfl := Except.ok.inj h
      exact ⟨heq, by rw [heq] at hvalid ⊢; exact hvalid⟩
    · cases h

theorem WellFormed.decodeEntries {elements : List Block} (hwf : Exclude.WellFormed exclude)
    (h : decodeEntries exclude elements = .ok exclude') : Exclude.WellFormed exclude' := by
  have happend : ∀ (exclude : Exclude) (element component : Block) (hasAny : Bool), Exclude.WellFormed exclude →
      decodeComponent element = .ok component →
        Exclude.WellFormed (Exclude.appendEntry exclude (.component component) hasAny) :=
    fun exclude element component hasAny hwf hdecode => WellFormed.emplace hwf (decodeComponent_ok hdecode).2
  fun_induction Excludes.decodeEntries exclude elements with
  | case1 exclude =>
    cases h
    exact hwf
  | case2 exclude element =>
    obtain ⟨component, hdecode, h⟩ := ok_of_bind h
    cases h
    exact happend exclude element component false hwf hdecode
  | case3 exclude element next elements ihAny ihNext =>
    obtain ⟨component, hdecode, h⟩ := ok_of_bind h
    split at h
    · exact ihAny component (happend exclude element component true hwf hdecode) h
    · exact ihNext component (happend exclude element component false hwf hdecode) h

theorem WellFormed.empty : Exclude.WellFormed ⟨[]⟩ := ⟨List.Pairwise.nil, fun _ h => absurd h (List.not_mem_nil)⟩

theorem WellFormed.wireDecode {wire : Block} (h : Exclude.wireDecode wire = .ok exclude) : Exclude.WellFormed exclude := by
  unfold Exclude.wireDecode at h
  split at h
  · cases h
  · obtain ⟨elements, -, h⟩ := ok_of_bind h
    split at h
    · cases h
    · split at h
      · have hnegInf : EntryOk (.negInf, true) := rfl
        exact WellFormed.decodeEntries (WellFormed.emplace WellFormed.empty hnegInf) h
      · exact WellFormed.decodeEntries WellFormed.empty h

theorem Built.wellFormed (h : Exclude.Built exclude) : Exclude.WellFormed exclude := by
  induction h with
  | empty => exact WellFormed.empty
  | @excludeOne exclude comp _ hcomp ih =>
    unfold Exclude.excludeOne
    split
    · exact ih
    · exact WellFormed.emplace ih hcomp
  | @excludeRange exclude exclude' start last _ hstart hlast h ih =>
    have hstart' : EntryOk (.component start, true) := hstart
    exact WellFormed.excludeFrom ih hstart' hlast h
  | excludeBefore _ hlast h ih =>
    have hnegInf : EntryOk (.negInf, true) := rfl
    exact WellFormed.excludeFrom ih hnegInf hlast h
  | @excludeAfter exclude start _ hstart ih =>
    have hopened : Exclude.WellFormed ⟨Excludes.openRange exclude.m_entries (.component start)⟩ := WellFormed.openRange ih hstart
    exact WellFormed.sublist hopened (List.dropWhile_sublist _)
  | wireDecode h => exact WellFormed.wireDecode h

end Operations

section RoundTrip

def ExcludeComponent.isV02 : ExcludeComponent → Bool
  | .negInf => true
  | .component component => component.type = 8 || component.type = 1

/-- The filter has only components that the packet format allows in it. -/
def OnlyV02 (exclude : Exclude) : Prop := ∀ entry ∈ exclude.m_entries, ExcludeComponent.isV02 entry.1 = true

instance (exclude : Exclude) : Decidable (OnlyV02 exclude) := List.decidableBAll _ _

theorem emplace_first {entries : List Entry} {key : ExcludeComponent} (hasAny : Bool)
    (h : ∀ entry ∈ entries, key.isGreater entry.1 = true) : emplace entries key hasAny = (key, hasAny) :: entries := by
  have hnot : ∀ entry ∈ entries, entry.1.isGreater key = false := fun entry hentry =>
    strictOrder_isGreater.asymm (h entry hentry)
  obtain ⟨habove, hlower⟩ := SortedLists.lowerBound_of_first hnot
  have hhead : ¬ (entries.head?.any (fun first => ! key.isGreater first.1)) = true := by
    cases entries with
    | nil => exact Bool.false_ne_true
    | cons first entries => simp [h first List.mem_cons_self]
  rw [emplace, lowerBound, hlower, if_neg hhead, above, habove, List.nil_append]

theorem decodeComponent_of_valid {component : Component} (hvalid : Component.ensureValid component = .ok component)
    (htype : component.type = 8 ∨ component.type = 1) : decodeComponent component = .ok component := by
  rw [decodeComponent, hvalid]
  exact if_pos htype

theorem decodeEntries_entryElements {ascending entries : List Entry}
    (hsorted : StrictlySorted ExcludeComponent.isGreater Prod.fst (ascending.reverse ++ entries))
    (hcomponents : ∀ entry ∈ ascending, ∃ component, entry.1 = .component component ∧
      Component.ensureValid component = .ok component ∧ (component.type = 8 ∨ component.type = 1)) :
    decodeEntries ⟨entries⟩ (ascending.flatMap entryElements) = .ok ⟨ascending.reverse ++ entries⟩ := by
  induction ascending generalizing entries with
  | nil => rfl
  | cons entry ascending ih =>
    obtain ⟨component, hkey, hvalid, htype⟩ := hcomponents entry List.mem_cons_self
    obtain ⟨key, hasAny⟩ := entry
    obtain rfl : key = .component component := hkey
    have hcomponents' := fun entry hentry => hcomponents entry (List.mem_cons_of_mem _ hentry)
    rw [List.reverse_cons, List.append_assoc, List.singleton_append] at hsorted ⊢
    have hfirst : ∀ entry ∈ entries, (ExcludeComponent.component component).isGreater entry.1 = true :=
      (List.pairwise_cons.mp (List.pairwise_append.mp hsorted).2.1).1
    have happend : Exclude.appendEntry ⟨entries⟩ (.component component) hasAny =
        ⟨(.component component, hasAny) :: entries⟩ := by
      rw [Exclude.appendEntry, emplace_first hasAny hfirst]
    have hrest := ih hsorted hcomponents'
    rw [← happend] at hrest
    rw [List.flatMap_cons]
    cases hasAny with
    | true =>
      have hlist : entryElements (.component component, true) ++ ascending.flatMap entryElements =
          component :: ⟨19, []⟩ :: ascending.flatMap entryElements := rfl
      rw [hlist, decodeEntries, decodeComponent_of_valid hvalid htype, ← hrest]
      rfl
    | false =>
      have hlist : entryElements (.component component, false) ++ ascending.flatMap entryElements =
          component :: ascending.flatMap entryElements := rfl
      rw [hlist]
      cases ascending with
      | nil =>
        rw [List.flatMap_nil, decodeEntries, decodeComponent_of_valid hvalid htype, ← hrest]
        rfl
      | cons next ascending =>
        obtain ⟨component', hkey', -, htype'⟩ := hcomponents' next List.mem_cons_self
        obtain ⟨key', hasAny'⟩ := next
        obtain rfl : key' = .component component' := hkey'
        have hnext : ((.component component', hasAny') :: ascending).flatMap entryElements =
            component' :: ((if hasAny' then [⟨19, []⟩] else []) ++ ascending.flatMap entryElements) := rfl
        have hnotAny : component'.type ≠ 19 := by
          rcases htype' with h | h <;> omega
        rw [hnext] at hrest ⊢
        rw [decodeEntries, decodeComponent_of_valid hvalid htype, ← hrest]
        exact if_neg hnotAny

theorem entryElements_types {exclude : Exclude} (hwf : Exclude.WellFormed exclude) :
    ∀ element ∈ exclude.m_entries.reverse.flatMap entryElements, element.type ≤ 4294967295 := by
  intro element helement
  obtain ⟨entry, hentry, h⟩ := List.mem_flatMap.mp helement
  have hok := hwf.entryOk entry (List.mem_reverse.mp hentry)
  have hany : ∀ hasAny : Bool, element ∈ (if hasAny then [⟨19, []⟩] else [] : List Block) → element.type ≤ 4294967295 := by
    intro hasAny h
    cases hasAny with
    | false => cases h
    | true =>
      rw [List.mem_singleton.mp h]
      decide
  obtain ⟨key, hasAny⟩ := entry
  cases key with
  | negInf => exact hany hasAny h
  | component component =>
    rcases List.mem_cons.mp h with rfl | h
    · have := ensureValid_type hok
      omega
    · exact hany hasAny h

theorem wireDecode_wireEncode {exclude : Exclude} (hwf : Exclude.WellFormed exclude) (hv02 : OnlyV02 exclude)
    {wire : Block} (h : Exclude.wireEncode exclude = .ok wire) (hlength : wire.value.length < 18446744073709551616) :
    Exclude.wireDecode wire = .ok exclude := by
  obtain ⟨entries⟩ := exclude
  obtain ⟨ascending, rfl⟩ : ∃ ascending, entries = ascending.reverse := ⟨entries.reverse, entries.reverse_reverse.symm⟩
  have htypes := entryElements_types hwf
  simp only [List.reverse_reverse] at htypes
  unfold Exclude.wireEncode at h
  split at h
  · cases h
  rename_i hne
  cases h
  simp only [List.reverse_reverse] at hlength ⊢
  have hparse := parse_elements htypes hlength
  have hcomponent : ∀ entry ∈ ascending, entry.1 ≠ .negInf → ∃ component, entry.1 = .component component ∧
      Component.ensureValid component = .ok component ∧ (component.type = 8 ∨ component.type = 1) := by
    intro entry hentry hnot
    have hok := hwf.entryOk entry (List.mem_reverse.mpr hentry)
    have htype := hv02 entry (List.mem_reverse.mpr hentry)
    obtain ⟨key, hasAny⟩ := entry
    cases key with
    | negInf => exact absurd rfl hnot
    | component component =>
      simp only [ExcludeComponent.isV02, Bool.or_eq_true, decide_eq_true_eq] at htype
      exact ⟨component, rfl, hok, htype⟩
  cases ascending with
  | nil => exact absurd rfl hne
  | cons first ascending =>
    have hsorted : StrictlySorted ExcludeComponent.isGreater Prod.fst (ascending.reverse ++ [first]) := by
      have hdescending := hwf.descending
      simp only [List.reverse_cons] at hdescending
      exact hdescending
    have hrest : ∀ entry ∈ ascending, entry.1 ≠ .negInf := by
      intro entry hentry hkey
      have hgreater := (List.pairwise_append.mp hsorted).2.2 entry (List.mem_reverse.mpr hentry) first
        List.mem_cons_self
      rw [hkey] at hgreater
      cases hgreater
    have hcomponents := fun entry hentry => hcomponent entry (List.mem_cons_of_mem _ hentry) (hrest entry hentry)
    obtain ⟨key, hasAny⟩ := first
    cases key with
    | negInf =>
      obtain rfl : hasAny = true := hwf.entryOk (.negInf, hasAny) (List.mem_reverse.mpr List.mem_cons_self)
      have hdecode := decodeEntries_entryElements hsorted hcomponents
      have helements : ((ExcludeComponent.negInf, true) :: ascending).flatMap entryElements =
          ⟨19, []⟩ :: ascending.flatMap entryElements := rfl
      rw [helements] at hparse ⊢
      rw [Exclude.wireDecode, hparse, List.reverse_cons, ← hdecode]
      rfl
    | component component =>
      obtain ⟨component', hkey, -, htype⟩ :=
        hcomponent (.component component, hasAny) List.mem_cons_self ExcludeComponent.noConfusion
      obtain rfl : component = component' := ExcludeComponent.component.inj hkey
      have hnotAny : component.type ≠ 19 := by
        rcases htype with h | h <;> omega
      have hall : ∀ entry ∈ (ExcludeComponent.component component, hasAny) :: ascending, ∃ component,
          entry.1 = .component component ∧ Component.ensureValid component = .ok component ∧
            (component.type = 8 ∨ component.type = 1) := by
        intro entry hentry
        rcases List.mem_cons.mp hentry with rfl | hentry'
        · exact hcomponent _ List.mem_cons_self ExcludeComponent.noConfusion
        · exact hcomponents entry hentry'
      have hdecode := decodeEntries_entryElements (by rwa [List.append_nil, List.reverse_cons]) hall
      have helements : ((ExcludeComponent.component component, hasAny) :: ascending).flatMap entryElements =
          component :: ((if hasAny then [⟨19, []⟩] else []) ++ ascending.flatMap entryElements) := rfl
      rw [helements] at hparse hdecode ⊢
      rw [List.append_nil] at hdecode
      rw [Exclude.wireDecode, hparse, ← hdecode]
      simp only [makeBlock, bind, Except.bind, takeType, if_neg hnotAny]
      rfl

end RoundTrip

end LeoNdn.Excludes
