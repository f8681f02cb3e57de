import LeoNdn.PairRoutes
import Mathlib.Data.List.Chain

/-!
The files of attachments: an entry for each epoch at which the satellite of a
station changes, written and read back, and expanded to all epochs again.
-/

namespace LeoNdn.AttachmentFiles

open LeoNdn.CsvFiles LeoNdn.Loops LeoNdn.PairRoutes

def Satellite : Text := ['S', 'a', 't', 'e', 'l', 'l', 'i', 't', 'e']

def satField (satId : Option Text) : Text := satId.getD ['-']

/-- The entries of the epochs whose attachment is not that of the epoch before. -/
def entriesOf (attachments : List (Option Text)) : List (ℕ × Text) :=
  (List.range attachments.length).filterMap fun epoch =>
    if epoch ≠ 0 ∧ attachments[epoch]? = attachments[epoch - 1]? then none
    else some (epoch, satField attachments[epoch]?.join)

def entryRow (entry : ℕ × Text) : List Text := [(toString entry.1).toList, entry.2]

def storeAttachments (attachments : List (Option Text)) : Text :=
  writelines ([Time, Satellite] :: (entriesOf attachments).map entryRow)

/-- The loop that reads the attachments of a station from the table. -/
def readAttachments (attachmentsCsv : Table) : Except Exception (List (ℤ × Text)) := do
  let rows ← rows attachmentsCsv
  (List.range rows).mapM fun row => do
    let time ← attachmentsCsv.fieldAt Time row
    let epoch ← stoi time
    let satellite ← attachmentsCsv.fieldAt Satellite row
    .ok (epoch, satellite)

def attachmentOf (entries : List (ℤ × Text)) (epoch : ℕ) : Option Text :=
  match (entries.filter (fun entry => entry.1 ≤ (epoch : ℤ))).getLast? with
  | some entry => if entry.2 = ['-'] then none else some entry.2
  | none => none

def expand (entries : List (ℤ × Text)) (epochs : ℕ) :
    List (Option Text) := (List.range epochs).map (attachmentOf entries)

/-- The times of the entries begin with 0 and increase, and every entry has
another satellite than the one before it. -/
structure IsTimeline (attachments : List (Option Text)) (entries : List (ℤ × Text)) : Prop where
  start : attachments ≠ [] → entries.head?.map Prod.fst = some 0
  increasing : entries.Pairwise (fun entry later => entry.1 < later.1)
  changing : entries.IsChain (fun entry next => entry.2 ≠ next.2)

/-- What is read back of the attachments is a timeline that stands for them. -/
def RoundTrips (attachments : List (Option Text)) : Prop :=
  ∃ entries, readAttachments (readCsv (storeAttachments attachments)) = .ok entries ∧
    expand entries attachments.length = attachments ∧ IsTimeline attachments entries

section Entries

variable {attachments : List (Option Text)} {satId : Option Text}

theorem entriesOf_concat (attachments : List (Option Text)) (satId : Option Text) :
    entriesOf (attachments ++ [satId]) = entriesOf attachments ++
      if attachments.getLast? = some satId then [] else [(attachments.length, satField satId)] := by
  rw [entriesOf, List.length_append, List.length_singleton, List.range_succ, List.filterMap_append]
  congr 1
  · apply List.filterMap_congr
    intro epoch hepoch
    rw [List.mem_range] at hepoch
    rw [List.getElem?_append_left hepoch, List.getElem?_append_left (by omega)]
  · rcases List.eq_nil_or_concat' attachments with rfl | ⟨before, last, rfl⟩
    · rfl
    · have hthis : (before ++ [last] ++ [satId])[(before ++ [last]).length]? = some satId := by
        rw [List.getElem?_append_right (le_refl _), Nat.sub_self]
        rfl
      have hlast : (before ++ [last] ++ [satId])[(before ++ [last]).length - 1]? = some last := by
        rw [List.getElem?_append_left (by simp), List.length_append, List.length_singleton, Nat.add_sub_cancel,
          List.getElem?_append_right (le_refl _), Nat.sub_self]
        rfl
      have hne : (before ++ [last]).length ≠ 0 := by simp
      rw [List.filterMap_cons, hthis, hlast, List.getLast?_append, List.getLast?_singleton, Option.some_or]
      by_cases heq : last = satId
      · subst heq
        rw [if_pos ⟨hne, rfl⟩, if_pos rfl]
        rfl
      · have heq' : ¬ (some last = some satId) := fun h => heq (Option.some_inj.mp h)
        rw [if_neg (fun h => heq' h.2.symm), if_neg heq']
        rfl

theorem entriesOf_lt {entry : ℕ × Text} (h : entry ∈ entriesOf attachments) : entry.1 < attachments.length := by
  obtain ⟨epoch, hepoch, heq⟩ := List.mem_filterMap.mp h
  split at heq
  · cases heq
  · cases heq
    exact List.mem_range.mp hepoch

theorem entriesOf_last (attachments : List (Option Text)) :
    (entriesOf attachments).getLast?.map Prod.snd = attachments.getLast?.map satField := by
  induction attachments using List.reverseRecOn with
  | nil => rfl
  | append_singleton attachments satId ih =>
    rw [entriesOf_concat, List.getLast?_append, List.getLast?_append, List.getLast?_singleton, Option.some_or]
    split
    · rename_i hsame
      rw [hsame] at ih
      rw [List.getLast?_nil, Option.none_or, ih]
    · rfl

def timesRead (entries : List (ℕ × Text)) : List (ℤ × Text) := entries.map (fun entry => ((entry.1 : ℤ), entry.2))

theorem timesRead_concat (entries : List (ℕ × Text)) (more : List (ℕ × Text)) :
    timesRead (entries ++ more) = timesRead entries ++ timesRead more := List.map_append

theorem isTimeline_entriesOf (hplain : ∀ satId, some satId ∈ attachments → satId ≠ ['-']) :
    IsTimeline attachments (timesRead (entriesOf attachments)) := by
  induction attachments using List.reverseRecOn with
  | nil => exact ⟨fun h => absurd rfl h, List.Pairwise.nil, List.isChain_nil⟩
  | append_singleton attachments satId ih =>
    obtain ⟨hstart, hincreasing, hchanging⟩ := ih fun satId hmem => hplain satId (List.mem_append_left _ hmem)
    rw [entriesOf_concat, timesRead_concat]
    split
    · rename_i hsame
      rw [timesRead, timesRead, List.map_nil, List.append_nil]
      refine ⟨fun _ => hstart ?_, hincreasing, hchanging⟩
      rintro rfl
      cases hsame
    · rename_i hchanged
      refine ⟨fun _ => ?_, ?_, ?_⟩
      · cases attachments with
        | nil => rfl
        | cons first rest =>
          have hhead := hstart (List.cons_ne_nil first rest)
          rw [List.head?_append]
          obtain ⟨entry, hentry, -⟩ := Option.map_eq_some_iff.mp hhead
          rw [hentry, Option.some_or, ← hentry]
          exact hhead
      · rw [List.pairwise_append]
        refine ⟨hincreasing, List.pairwise_singleton _ _, ?_⟩
        intro entry hentry other hother
        obtain ⟨row, hrow, rfl⟩ := List.mem_map.mp hentry
        cases List.mem_singleton.mp hother
        have hlt := entriesOf_lt hrow
        dsimp only
        omega
      · rw [List.isChain_append]
        refine ⟨hchanging, List.isChain_singleton _, ?_⟩
        intro entry hentry other hother heq
        cases hother
        rw [timesRead, List.getLast?_map] at hentry
        obtain ⟨row, hrow, rfl⟩ := Option.map_eq_some_iff.mp hentry
        have hlast := entriesOf_last attachments
        rw [hrow, Option.map_some, eq_comm, Option.map_eq_some_iff] at hlast
        obtain ⟨last, hmem, hfield⟩ := hlast
        rw [← hfield] at heq
        apply hchanged
        rw [hmem]
        have hlastMem := List.mem_append_left [satId] (List.mem_of_getLast? hmem)
        have hsatMem : satId ∈ attachments ++ [satId] := List.mem_append_right _ List.mem_cons_self
        cases last with
        | none =>
          cases satId with
          | none => rfl
          | some satId => exact absurd heq.symm (hplain satId hsatMem)
        | some last =>
          cases satId with
          | none => exact absurd heq (hplain last hlastMem)
          | some satId => exact congrArg (fun id => some (some id)) heq

theorem attachmentOf_satField {entries : List (ℤ × Text)} {epoch : ℕ} (hplain : satId ≠ some ['-'])
    (h : ((entries.filter (fun entry => entry.1 ≤ (epoch : ℤ))).getLast?).map Prod.snd = some (satField satId)) :
    attachmentOf entries epoch = satId := by
  obtain ⟨entry, hentry, hfield⟩ := Option.map_eq_some_iff.mp h
  rw [attachmentOf, hentry]
  dsimp only
  rw [hfield]
  cases satId with
  | none => rfl
  | some satId => exact if_neg fun heq => hplain (congrArg some heq)

theorem filter_timesRead {entries : List (ℕ × Text)} {epoch : ℕ} (h : ∀ entry ∈ entries, entry.1 ≤ epoch) :
    (timesRead entries).filter (fun entry => entry.1 ≤ (epoch : ℤ)) = timesRead entries := by
  rw [List.filter_eq_self]
  intro entry hentry
  obtain ⟨row, hrow, rfl⟩ := List.mem_map.mp hentry
  rw [decide_eq_true_iff]
  exact Int.ofNat_le.mpr (h row hrow)

theorem getLast?_timesRead (entries : List (ℕ × Text)) :
    (timesRead entries).getLast?.map Prod.snd = entries.getLast?.map Prod.snd := by
  rw [timesRead, List.getLast?_map, Option.map_map]
  rfl

theorem expand_entriesOf (hplain : ∀ satId, some satId ∈ attachments → satId ≠ ['-']) :
    expand (timesRead (entriesOf attachments)) attachments.length = attachments := by
  induction attachments using List.reverseRecOn with
  | nil => rfl
  | append_singleton attachments satId ih =>
    have hbefore := ih fun satId hmem => hplain satId (List.mem_append_left _ hmem)
    have hsat : satId ≠ some ['-'] := by
      rintro rfl
      exact hplain _ (List.mem_append_right _ List.mem_cons_self) rfl
    have hlast : ∀ entry ∈ entriesOf (attachments ++ [satId]), entry.1 ≤ attachments.length := by
      intro entry hentry
      have hlt := entriesOf_lt hentry
      rw [List.length_append, List.length_singleton] at hlt
      omega
    rw [expand, List.length_append, List.length_singleton, List.range_succ, List.map_append, List.map_singleton]
    congr 1
    · refine Eq.trans ?_ hbefore
      apply List.map_congr_left
      intro epoch hepoch
      rw [List.mem_range] at hepoch
      rw [attachmentOf, attachmentOf, entriesOf_concat, timesRead_concat, List.filter_append]
      have hnone : (timesRead (if attachments.getLast? = some satId then []
          else [(attachments.length, satField satId)])).filter (fun entry => entry.1 ≤ (epoch : ℤ)) = [] := by
        rw [List.filter_eq_nil_iff]
        intro entry hentry
        split at hentry
        · cases hentry
        · cases List.mem_singleton.mp hentry
          rw [decide_eq_true_iff]
          dsimp only
          omega
      rw [hnone, List.append_nil]
    · apply congrArg (fun value => [value])
      apply attachmentOf_satField hsat
      rw [filter_timesRead hlast, getLast?_timesRead, entriesOf_last, List.getLast?_append, List.getLast?_singleton]
      rfl

end Entries

section Files

variable {attachments : List (Option Text)}

/-- A satellite that can be told from the other fields of a file. -/
structure IsPlain (satId : Text) : Prop where
  noComma : ',' ∉ satId
  noNewline : '\n' ∉ satId
  noDash : satId ≠ ['-']

theorem entry_satField {entry : ℕ × Text} (h : entry ∈ entriesOf attachments) :
    ∃ satId, satId ∈ attachments ∧ entry.2 = satField satId := by
  obtain ⟨epoch, hepoch, heq⟩ := List.mem_filterMap.mp h
  split at heq
  · cases heq
  · cases heq
    rw [List.mem_range] at hepoch
    refine ⟨attachments[epoch], List.getElem_mem hepoch, ?_⟩
    rw [List.getElem?_eq_getElem hepoch]
    rfl

theorem isRow_entryRow (hplain : ∀ satId, some satId ∈ attachments → IsPlain satId ∧ satId ≠ [])
    {entry : ℕ × Text} (h : entry ∈ entriesOf attachments) : IsRow 2 (entryRow entry) := by
  obtain ⟨satId, hmem, hfield⟩ := entry_satField h
  have hsat : (',' ∉ entry.2 ∧ '\n' ∉ entry.2) ∧ entry.2 ≠ [] := by
    rw [hfield]
    cases satId with
    | none => decide
    | some satId => exact ⟨⟨(hplain satId hmem).1.noComma, (hplain satId hmem).1.noNewline⟩, (hplain satId hmem).2⟩
  refine ⟨rfl, ?_, ?_⟩
  · intro field hmem
    rcases List.mem_pair.mp hmem with rfl | rfl
    · constructor
      · intro hc
        exact absurd (mem_digits hc) (by decide)
      · intro hc
        exact absurd (mem_digits hc) (by decide)
    · exact hsat.1
  · exact fun hlast => hsat.2 (Option.some.inj hlast)

def readEntry (entry : ℕ × Text) : Except Exception (ℤ × Text) := do
  let epoch ← stoi (Nat.toDigits 10 entry.1)
  .ok (epoch, entry.2)

theorem readAttachments_storeAttachments (hplain : ∀ satId, some satId ∈ attachments → IsPlain satId ∧ satId ≠ []) :
    readAttachments (readCsv (storeAttachments attachments)) = (entriesOf attachments).mapM readEntry := by
  have hheader : IsRow [Time, Satellite].length [Time, Satellite] := ⟨rfl, by decide, by decide⟩
  have hrows : ∀ row ∈ (entriesOf attachments).map entryRow, IsRow [Time, Satellite].length row := by
    rw [List.forall_mem_map]
    exact fun entry hentry => isRow_entryRow hplain hentry
  obtain ⟨column, hbegin, hlength⟩ := begin_writelines (by decide) (by decide) hheader hrows
  rw [← storeAttachments] at hbegin
  rw [List.length_map] at hlength
  rw [readAttachments, rows, hbegin]
  dsimp only
  rw [hlength]
  apply mapM_range
  intro n entry hentry
  have hfields : ((entriesOf attachments).map entryRow)[n]? = some (entryRow entry) := by
    rw [List.getElem?_map, hentry, Option.map_some]
  have htime := fieldAt_writelines (by decide) (by decide) hheader hrows (i := 0) (by decide) hfields
  have hsatellite := fieldAt_writelines (by decide) (by decide) hheader hrows (i := 1) (by decide) hfields
  rw [← storeAttachments] at htime hsatellite
  have htime' : (readCsv (storeAttachments attachments)).fieldAt Time n = .ok (Nat.toDigits 10 entry.1) := by
    rw [← toList_toString]
    exact htime
  have hsatellite' : (readCsv (storeAttachments attachments)).fieldAt Satellite n = .ok entry.2 := hsatellite
  rw [htime', hsatellite']
  rfl

theorem mem_entriesOf {epoch : ℕ} : (∃ field, (epoch, field) ∈ entriesOf attachments) ↔
    epoch < attachments.length ∧ (epoch ≠ 0 → attachments[epoch]? ≠ attachments[epoch - 1]?) := by
  constructor
  · rintro ⟨field, hmem⟩
    obtain ⟨other, hother, heq⟩ := List.mem_filterMap.mp hmem
    split at heq
    · cases heq
    · rename_i hchanged
      cases heq
      exact ⟨List.mem_range.mp hother, fun hne hsame => hchanged ⟨hne, hsame⟩⟩
  · rintro ⟨hlt, hchanged⟩
    refine ⟨satField attachments[epoch]?.join, List.mem_filterMap.mpr ⟨epoch, List.mem_range.mpr hlt, ?_⟩⟩
    exact if_neg fun h => hchanged h.1 h.2

/-- The timeline of a station is read back if and only if its satellite does not
change at an epoch out of the range of an `int`. -/
theorem roundTrips_iff (attachments : List (Option Text))
    (hplain : ∀ satId, some satId ∈ attachments → IsPlain satId ∧ satId ≠ []) :
    RoundTrips attachments ↔
      ∀ epoch < attachments.length, 2147483647 < epoch → attachments[epoch]? = attachments[epoch - 1]? := by
  rw [RoundTrips, readAttachments_storeAttachments hplain]
  constructor
  · rintro ⟨entries, hread, -⟩ epoch hlt hlarge
    by_contra hchanged
    obtain ⟨field, hmem⟩ := mem_entriesOf.mpr ⟨hlt, fun _ => hchanged⟩
    obtain ⟨value, hvalue⟩ := ok_of_mapM hread _ hmem
    rw [readEntry, stoi_toDigits_eq, if_pos hlarge] at hvalue
    cases hvalue
  · intro hsame
    have hdash : ∀ satId, some satId ∈ attachments → satId ≠ ['-'] := fun satId hmem => (hplain satId hmem).1.noDash
    refine ⟨timesRead (entriesOf attachments), ?_, expand_entriesOf hdash, isTimeline_entriesOf hdash⟩
    apply mapM_ok
    intro entry hentry
    obtain ⟨hlt, hchanged⟩ := mem_entriesOf.mp ⟨entry.2, hentry⟩
    have hsmall : entry.1 ≤ 2147483647 := by
      by_contra hlarge
      exact hchanged (by omega) (hsame entry.1 hlt (by omega))
    rw [readEntry, stoi_toDigits hsmall]
    rfl

theorem roundTrips_gap : RoundTrips [some ['a'], some ['a'], none, some ['b']] := by
  apply (roundTrips_iff _ ?_).mpr
  · intro epoch hlt hlarge
    rw [List.length_cons, List.length_cons, List.length_cons, List.length_cons, List.length_nil] at hlt
    omega
  · intro satId hmem
    simp only [List.mem_cons, Option.some.injEq, List.not_mem_nil, or_false, reduceCtorEq, false_or] at hmem
    rcases hmem with rfl | rfl | rfl <;> exact ⟨⟨by decide, by decide, by decide⟩, by decide⟩

end Files

section Failures

def longAttachments : List (Option Text) := List.replicate 2147483648 (some ['a']) ++ [none]

theorem longAttachments_length : longAttachments.length = 2147483649 := by
  rw [longAttachments, List.length_append, List.length_replicate, List.length_singleton]

/-- A satellite without a name, and an epoch that is no `int`, do not come back. -/
theorem not_roundTrips :
    (¬ ∀ attachments, (∀ satId, some satId ∈ attachments → IsPlain satId) → RoundTrips attachments) ∧
    ¬ ∀ attachments, (∀ satId, some satId ∈ attachments → IsPlain satId ∧ satId ≠ []) → RoundTrips attachments := by
  constructor
  · intro h
    obtain ⟨entries, hread, hexpand, -⟩ := h [some []] (by
      intro satId hmem
      cases List.mem_singleton.mp hmem
      exact ⟨by decide, by decide, by decide⟩)
    have hnone : readAttachments (readCsv (storeAttachments [some []])) = .ok [] := by decide
    rw [hnone] at hread
    cases hread
    exact absurd hexpand (by decide)
  · intro h
    have hplain : ∀ satId, some satId ∈ longAttachments → IsPlain satId ∧ satId ≠ [] := by
      intro satId hmem
      rcases List.mem_append.mp hmem with hmem | hmem
      · cases List.eq_of_mem_replicate hmem
        exact ⟨⟨by decide, by decide, by decide⟩, by decide⟩
      · cases List.mem_singleton.mp hmem
    obtain ⟨entries, hread, -⟩ := h longAttachments hplain
    have hlast : longAttachments[2147483648]? = some none := by
      rw [longAttachments, List.getElem?_append_right (by rw [List.length_replicate]), List.length_replicate]
      rfl
    have hbefore : longAttachments[2147483647]? = some (some ['a']) := by
      rw [longAttachments, List.getElem?_append_left (by rw [List.length_replicate]; decide), List.getElem?_replicate,
        if_pos (by decide)]
    have hentry : ∃ field, (2147483648, field) ∈ entriesOf longAttachments := by
      refine mem_entriesOf.mpr ⟨by rw [longAttachments_length]; decide, fun _ => ?_⟩
      rw [hlast, hbefore]
      rintro ⟨⟩
    obtain ⟨field, hmem⟩ := hentry
    rw [readAttachments_storeAttachments hplain] at hread
    obtain ⟨value, hvalue⟩ := ok_of_mapM hread _ hmem
    have hlarge : 2147483647 < 2147483648 := by decide
    rw [readEntry, stoi_toDigits_eq, if_pos hlarge] at hvalue
    cases hvalue

end Failures

end LeoNdn.AttachmentFiles
