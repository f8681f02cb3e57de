import LeoNdn.CsvFiles
import Mathlib.Data.List.ReduceOption
import Mathlib.Data.List.Infix

/-!
Tables with empty fields: which of them `readCsv` reads back column by column,
and which parts `split` finds again in the text joined of them.
-/

namespace LeoNdn.CsvTables

open LeoNdn.CsvFiles

def IsField (field : Text) : Prop := ',' ∉ field ∧ '\n' ∉ field

/-- Every column has an entry for each row, which is the field of the row there. -/
def Aligned (header : List Text) (rows : List (List Text)) : Prop :=
  ∀ i < header.length, Table.find (readCsv (writelines (header :: rows))) (header.getD i []) =
    some (rows.map (fun row => row.getD i []))

/-- No line ends in an empty field, but for the header of a table with rows. -/
def Terminated (header : List Text) (rows : List (List Text)) : Prop :=
  (∀ row ∈ rows, row.getLast? ≠ some []) ∧ (header.getLast? = some [] → rows ≠ [])

/-- No occurrence of the delimiter begins in a part that it follows. -/
def Unambiguous (delimiter : Text) (parts : List Text) : Prop :=
  ∀ part ∈ parts.dropLast, ∀ pos < part.length, ¬ delimiter <+: (part ++ delimiter).drop pos

/-- What a line does to a column: it appends its field there, if it has one. -/
def push (column : Option (List Text)) : Option Text → Option (List Text)
  | none => column
  | some val => some (column.getD [] ++ [val])

def cell (i : ℕ) (row : List Text) : Option Text := (lines ',' (join ',' row))[i]?

section Lines

variable {delimiter : Char} {fields : List Text}

theorem lines_join_eq (h : ∀ field ∈ fields, delimiter ∉ field) : lines delimiter (join delimiter fields) =
    if fields.getLast? = some [] then fields.dropLast else fields := by
  induction fields with
  | nil => rfl
  | cons field fields ih =>
    cases fields with
    | nil =>
      rw [join, List.getLast?_singleton]
      by_cases hfield : field = []
      · subst hfield
        rfl
      · rw [if_neg (by rwa [Option.some_inj]), lines_cons hfield, getline_last (h field List.mem_cons_self)]
        rfl
    | cons field' fields =>
      rw [join, lines_append (h field List.mem_cons_self), ih fun part hpart => h part (List.mem_cons_of_mem _ hpart),
        List.getLast?_cons_cons]
      · split <;> rfl
      · exact List.cons_ne_nil _ _

theorem cell_eq (h : ∀ field ∈ fields, ',' ∉ field) {i : ℕ} (hi : i < fields.length) : cell i fields =
    if fields.getLast? = some [] ∧ i + 1 = fields.length then none else some (fields.getD i []) := by
  rw [cell, lines_join_eq h]
  by_cases hlast : fields.getLast? = some []
  · rw [if_pos hlast, List.getElem?_dropLast]
    by_cases hend : i + 1 = fields.length
    · rw [if_neg (by omega), if_pos ⟨hlast, hend⟩]
    · rw [if_pos (by omega), if_neg (not_and_of_not_right _ hend), List.getD_eq_getElem _ _ hi,
        List.getElem?_eq_getElem hi]
  · rw [if_neg hlast, if_neg (not_and_of_not_left _ hlast), List.getD_eq_getElem _ _ hi, List.getElem?_eq_getElem hi]

theorem getD_dropLast (h : fields.getLast? = some []) (i : ℕ) : fields.dropLast.getD i [] = fields.getD i [] := by
  obtain ⟨front, rfl⟩ := List.getLast?_eq_some_iff.mp h
  rw [List.dropLast_concat]
  by_cases hi : i < front.length
  · rw [List.getD_append _ _ _ _ hi]
  · rw [List.getD_eq_default _ _ (by omega), List.getD_append_right _ _ _ _ (by omega)]
    cases i - front.length <;> rfl

end Lines

section Columns

variable {header : List Text} {rows : List (List Text)}

theorem readValues_congr {names names' : List Text} (h : ∀ i, names.getD i [] = names'.getD i []) (k : ℕ)
    (vals : List Text) (table : Table) : readValues names k vals table = readValues names' k vals table := by
  induction vals generalizing k table with
  | nil => rfl
  | cons val vals ih => rw [readValues, readValues, h k, ih]

theorem readRow_find (h : header.Nodup) {row : List Text} (hsize : row.length = header.length)
    (hrow : ∀ field ∈ row, ',' ∉ field) (table : Table) {i : ℕ} (hi : i < header.length) :
    Table.find (readRow header table (join ',' row)) (header.getD i []) =
      push (Table.find table (header.getD i [])) (cell i row) := by
  have hcells : (lines ',' (join ',' row)).length ≤ header.length := by
    rw [lines_join_eq hrow]
    split
    · rw [List.length_dropLast]
      omega
    · exact hsize.le
  rw [readRow, readValues_find h table (by omega) hi, cell, Nat.zero_add, Nat.sub_zero]
  by_cases hcell : i < (lines ',' (join ',' row)).length
  · rw [if_pos ⟨Nat.zero_le i, hcell⟩, List.getElem?_eq_getElem hcell, push, List.getD_eq_getElem _ _ hcell]
  · rw [if_neg fun hin => hcell hin.2, List.getElem?_eq_none (by omega), push]

theorem readRows_find (h : header.Nodup) (hrows : ∀ row ∈ rows, row.length = header.length ∧ ∀ field ∈ row, ',' ∉ field)
    (table : Table) {i : ℕ} (hi : i < header.length) :
    Table.find ((rows.map (join ',')).foldl (readRow header) table) (header.getD i []) =
      (rows.map (cell i)).foldl push (Table.find table (header.getD i [])) := by
  induction rows generalizing table with
  | nil => rfl
  | cons row rows ih =>
    obtain ⟨hsize, hrow⟩ := hrows row List.mem_cons_self
    rw [List.map_cons, List.foldl_cons, ih (fun row' hmem => hrows row' (List.mem_cons_of_mem _ hmem)),
      readRow_find h hsize hrow table hi, List.map_cons, List.foldl_cons]

theorem foldl_push (cells : List (Option Text)) (column : List Text) :
    cells.foldl push (some column) = some (column ++ cells.reduceOption) := by
  induction cells generalizing column with
  | nil => rw [List.foldl_nil, List.reduceOption_nil, List.append_nil]
  | cons c cells ih =>
    cases c with
    | none => rw [List.foldl_cons, push, ih, List.reduceOption_cons_of_none]
    | some val =>
      rw [List.foldl_cons, push, ih, List.reduceOption_cons_of_some, Option.getD_some, List.append_assoc,
        List.singleton_append]

theorem foldl_push_none {cells : List (Option Text)} {vals : List Text} :
    cells.foldl push none = some vals ↔ cells.reduceOption = vals ∧ vals ≠ [] := by
  induction cells with
  | nil => simp [List.reduceOption_nil, eq_comm]
  | cons c cells ih =>
    cases c with
    | none => rw [List.foldl_cons, push, ih, List.reduceOption_cons_of_none]
    | some val =>
      rw [List.foldl_cons, push, foldl_push, List.reduceOption_cons_of_some, Option.some_inj]
      refine ⟨?_, fun hvals => hvals.1⟩
      rintro rfl
      exact ⟨rfl, List.cons_ne_nil _ _⟩

theorem find_none_of_keys {table : Table} {name : Text} (h : name ∉ table.map Prod.fst) :
    Table.find table name = none := by
  rw [Table.find, Option.map_eq_none_iff, List.find?_eq_none]
  intro column hmem
  rw [decide_eq_true_eq]
  rintro rfl
  exact h (List.mem_map_of_mem hmem)

theorem notMem_join {row : List Text} (h : ∀ field ∈ row, IsField field) : '\n' ∉ join ',' row := by
  intro hmem
  rcases mem_join hmem with hsep | ⟨field, hfield, hc⟩
  · exact absurd hsep (by decide)
  · exact (h field hfield).2 hc

theorem find_readHeader (h : header.Nodup) (hfields : ∀ field ∈ header, ',' ∉ field) {i : ℕ} (hi : i < header.length) :
    Table.find (readHeader (lines ',' (join ',' header)) []) (header.getD i []) =
      (cell i header).map (fun _ => []) := by
  rw [cell_eq hfields hi, lines_join_eq hfields]
  by_cases hlast : header.getLast? = some []
  · obtain ⟨front, rfl⟩ := List.getLast?_eq_some_iff.mp hlast
    have hnodup := List.nodup_append.mp h
    obtain ⟨hkeys, hfind⟩ := readHeader_keys hnodup.1 [] (fun _ _ => List.not_mem_nil)
    rw [if_pos hlast, List.dropLast_concat]
    rw [List.length_append, List.length_singleton] at hi ⊢
    by_cases hend : i = front.length
    · subst hend
      rw [if_pos ⟨hlast, rfl⟩, List.getD_append_right _ _ _ _ (Nat.le_refl _), Nat.sub_self, List.getD_cons_zero]
      apply find_none_of_keys
      rw [hkeys]
      exact fun hmem => hnodup.2.2 _ hmem _ List.mem_cons_self rfl
    · rw [if_neg (by omega), List.getD_append _ _ _ _ (by omega), List.getD_eq_getElem _ _ (by omega),
        hfind _ (List.getElem_mem _)]
      rfl
  · rw [if_neg hlast, if_neg (not_and_of_not_left _ hlast), List.getD_eq_getElem _ _ hi]
    exact (readHeader_keys h [] (fun _ _ => List.not_mem_nil)).2 _ (List.getElem_mem _)

theorem find_readCsv (h : header.Nodup)
    (hrows : ∀ row ∈ header :: rows, row.length = header.length ∧ ∀ field ∈ row, IsField field)
    {i : ℕ} (hi : i < header.length) :
    Table.find (readCsv (writelines (header :: rows))) (header.getD i []) =
      (rows.map (cell i)).foldl push ((cell i header).map (fun _ => [])) := by
  have hfields : ∀ row ∈ header :: rows, ∀ field ∈ row, ',' ∉ field :=
    fun row hmem field hfield => ((hrows row hmem).2 field hfield).1
  have hplain : ∀ row ∈ header :: rows, '\n' ∉ join ',' row := fun row hmem => notMem_join (hrows row hmem).2
  have hgetline : getline '\n' (writelines (header :: rows)) = (join ',' header, writelines rows) := by
    rw [writelines, List.flatMap_cons, List.append_assoc, List.singleton_append,
      getline_append (hplain header List.mem_cons_self)]
    rfl
  have hnames : readRow (lines ',' (join ',' header)) = readRow header := by
    funext table line
    apply readValues_congr
    intro i
    rw [lines_join_eq (hfields header List.mem_cons_self)]
    split
    · exact getD_dropLast ‹_› i
    · rfl
  rw [readCsv, hgetline]
  simp only [hnames]
  rw [lines_writelines fun row hmem => hplain row (List.mem_cons_of_mem _ hmem),
    readRows_find h (fun row hmem => ⟨(hrows row (List.mem_cons_of_mem _ hmem)).1,
      hfields row (List.mem_cons_of_mem _ hmem)⟩) _ hi, find_readHeader h (hfields header List.mem_cons_self) hi]

theorem reduceOption_cells {i : ℕ} (h : ∀ row ∈ rows, cell i row = none ∨ cell i row = some (row.getD i [])) :
    (rows.map (cell i)).reduceOption = rows.map (fun row => row.getD i []) ↔ ∀ row ∈ rows, cell i row ≠ none := by
  constructor
  · intro heq row hmem
    have hlength := congrArg List.length heq
    rw [List.length_map, ← List.length_map (cell i), List.reduceOption_length_eq_iff] at hlength
    exact Option.isSome_iff_ne_none.mp (hlength _ (List.mem_map_of_mem hmem))
  · intro hcells
    have hmap : rows.map (cell i) = (rows.map (fun row => row.getD i [])).map some := by
      rw [List.map_map]
      exact List.map_congr_left fun row hmem => (h row hmem).resolve_left (hcells row hmem)
    rw [hmap, List.reduceOption, List.filterMap_map, Function.id_comp, List.filterMap_some]

theorem cell_cases {i : ℕ} {row : List Text} (hrow : ∀ field ∈ row, IsField field) (hi : i < row.length) :
    cell i row = none ∨ cell i row = some (row.getD i []) := by
  rw [cell_eq (fun field hfield => (hrow field hfield).1) hi]
  split
  · exact Or.inl rfl
  · exact Or.inr rfl

theorem cell_eq_none {i : ℕ} {row : List Text} (hrow : ∀ field ∈ row, IsField field) (hi : i < row.length) :
    cell i row = none ↔ row.getLast? = some [] ∧ i + 1 = row.length := by
  rw [cell_eq (fun field hfield => (hrow field hfield).1) hi, ite_eq_left_iff]
  constructor
  · intro h
    by_contra hend
    cases h hend
  · exact fun hend hnot => absurd hend hnot

theorem aligned_iff (h : header.Nodup)
    (hrows : ∀ row ∈ header :: rows, row.length = header.length ∧ ∀ field ∈ row, IsField field) :
    Aligned header rows ↔ Terminated header rows := by
  have hcases : ∀ i < header.length, ∀ row ∈ rows, cell i row = none ∨ cell i row = some (row.getD i []) := by
    intro i hi row hmem
    obtain ⟨hsize, hfields⟩ := hrows row (List.mem_cons_of_mem _ hmem)
    exact cell_cases hfields (by omega)
  have hnone : ∀ row ∈ header :: rows, ∀ i < header.length,
      cell i row = none ↔ row.getLast? = some [] ∧ i + 1 = header.length := by
    intro row hmem i hi
    obtain ⟨hsize, hfields⟩ := hrows row hmem
    rw [cell_eq_none hfields (by omega), hsize]
  -- The last column decides: no other one loses a field.
  have hsplit : Aligned header rows ↔ ∀ i < header.length,
      (∀ row ∈ rows, cell i row ≠ none) ∧ (cell i header = none → rows ≠ []) := by
    refine forall₂_congr fun i hi => ?_
    rw [find_readCsv h hrows hi]
    cases hname : cell i header with
    | none =>
      rw [Option.map_none, foldl_push_none, reduceOption_cells (hcases i hi), Ne, List.map_eq_nil_iff]
      exact and_congr_right fun _ => ⟨fun hne _ => hne, fun hne => hne rfl⟩
    | some name =>
      rw [Option.map_some, foldl_push, List.nil_append, Option.some_inj, reduceOption_cells (hcases i hi)]
      exact (and_iff_left fun hnot => nomatch hnot).symm
  rw [hsplit]
  constructor
  · intro haligned
    refine ⟨fun row hmem hlast => ?_, fun hlast => ?_⟩
    · obtain ⟨hsize, -⟩ := hrows row (List.mem_cons_of_mem _ hmem)
      have hpos : 0 < row.length := by
        apply List.length_pos_iff.mpr
        rintro rfl
        cases hlast
      have hi : header.length - 1 < header.length := by omega
      exact (haligned _ hi).1 row hmem ((hnone row (List.mem_cons_of_mem _ hmem) _ hi).mpr ⟨hlast, by omega⟩)
    · have hpos : 0 < header.length := by
        apply List.length_pos_iff.mpr
        rintro rfl
        cases hlast
      have hi : header.length - 1 < header.length := by omega
      exact (haligned _ hi).2 ((hnone header List.mem_cons_self _ hi).mpr ⟨hlast, by omega⟩)
  · rintro ⟨hlast, hheader⟩ i hi
    refine ⟨fun row hmem hcell => ?_, fun hcell => ?_⟩
    · exact hlast row hmem ((hnone row (List.mem_cons_of_mem _ hmem) i hi).mp hcell).1
    · exact hheader ((hnone header List.mem_cons_self i hi).mp hcell).1

end Columns

section Split

variable {delimiter : Text}

theorem find_eq_some {s : Text} {pos : ℕ} (h : find delimiter s = some pos) :
    delimiter <+: s.drop pos ∧ ∀ k < pos, ¬ delimiter <+: s.drop k := by
  induction s generalizing pos with
  | nil =>
    rw [find] at h
    split at h
    · obtain rfl := Option.some.inj h
      subst delimiter
      exact ⟨List.prefix_rfl, fun k hk => absurd hk (Nat.not_lt_zero k)⟩
    · cases h
  | cons c s ih =>
    rw [find] at h
    split at h
    · obtain rfl := Option.some.inj h
      exact ⟨List.isPrefixOf_iff_prefix.mp ‹_›, fun k hk => absurd hk (Nat.not_lt_zero k)⟩
    · rename_i hfirst
      obtain ⟨pos', hpos', rfl⟩ := Option.map_eq_some_iff.mp h
      obtain ⟨hfound, hearlier⟩ := ih hpos'
      refine ⟨hfound, fun k hk => ?_⟩
      cases k with
      | zero => exact fun hbegin => hfirst (List.isPrefixOf_iff_prefix.mpr hbegin)
      | succ k => exact hearlier k (by omega)

theorem find_ne_none {s : Text} {pos : ℕ} (h : delimiter <+: s.drop pos) : find delimiter s ≠ none := by
  induction s generalizing pos with
  | nil =>
    rw [List.drop_nil, List.prefix_nil] at h
    rw [find, if_pos h]
    exact Option.some_ne_none _
  | cons c s ih =>
    rw [find]
    split
    · exact Option.some_ne_none _
    · rename_i hfirst
      cases pos with
      | zero => exact absurd (List.isPrefixOf_iff_prefix.mpr h) hfirst
      | succ pos => exact Option.map_eq_none_iff.not.mpr (ih h)

theorem find_eq_none {s : Text} (h : ¬ delimiter <:+: s) : find delimiter s = none := by
  cases hfind : find delimiter s with
  | none => rfl
  | some pos => exact absurd ((find_eq_some hfind).1.isInfix.trans (List.drop_suffix _ _).isInfix) h

theorem begins_drop_append {part : Text} {k : ℕ} (hk : k ≤ part.length) (s : Text) :
    delimiter <+: (part ++ (delimiter ++ s)).drop k ↔ delimiter <+: (part ++ delimiter).drop k := by
  rw [← List.append_assoc, List.drop_append_of_le_length (by rw [List.length_append]; omega)]
  refine ⟨fun h => ?_, fun h => h.trans (List.prefix_append _ _)⟩
  exact List.prefix_of_prefix_length_le h (List.prefix_append _ _)
    (by rw [List.length_drop, List.length_append]; omega)

theorem find_part (part s : Text) : find delimiter (part ++ (delimiter ++ s)) = some part.length ↔
    ∀ pos < part.length, ¬ delimiter <+: (part ++ delimiter).drop pos := by
  have hhere : delimiter <+: (part ++ (delimiter ++ s)).drop part.length := by
    rw [List.drop_left]
    exact List.prefix_append _ _
  constructor
  · intro hfind pos hpos hbegin
    exact (find_eq_some hfind).2 pos hpos ((begins_drop_append hpos.le s).mpr hbegin)
  · intro hunambiguous
    obtain ⟨pos, hfind⟩ := Option.ne_none_iff_exists'.mp (find_ne_none hhere)
    obtain ⟨hfound, hearlier⟩ := find_eq_some hfind
    obtain hlt | rfl | hgt := Nat.lt_trichotomy pos part.length
    · exact absurd ((begins_drop_append hlt.le s).mp hfound) (hunambiguous pos hlt)
    · exact hfind
    · exact absurd hhere (hearlier _ hgt)

theorem find_le (part s : Text) :
    ∃ pos ≤ part.length, find delimiter (part ++ (delimiter ++ s)) = some pos := by
  have hhere : delimiter <+: (part ++ (delimiter ++ s)).drop part.length := by
    rw [List.drop_left]
    exact List.prefix_append _ _
  obtain ⟨pos, hfind⟩ := Option.ne_none_iff_exists'.mp (find_ne_none hhere)
  refine ⟨pos, ?_, hfind⟩
  by_contra hlate
  exact (find_eq_some hfind).2 _ (by omega) hhere

theorem unambiguous_cons (part part' : Text) (parts : List Text) :
    Unambiguous delimiter (part :: part' :: parts) ↔
      (∀ pos < part.length, ¬ delimiter <+: (part ++ delimiter).drop pos) ∧
        Unambiguous delimiter (part' :: parts) := by
  rw [Unambiguous, List.dropLast_cons_cons, List.forall_mem_cons]
  rfl

/-- Induction on the parts: the first part is found just when no occurrence of
the delimiter begins in it, and the others are then found after it. -/
theorem splitFrom_intercalate (hdelimiter : delimiter ≠ []) {parts : List Text} (hne : parts ≠ [])
    (hparts : ∀ part ∈ parts, ¬ delimiter <:+: part) {rounds : ℕ}
    (hrounds : (delimiter.intercalate parts).length ≤ rounds) :
    splitFrom delimiter rounds (delimiter.intercalate parts) = parts ↔ Unambiguous delimiter parts := by
  induction parts generalizing rounds with
  | nil => exact absurd rfl hne
  | cons part parts ih =>
    cases parts with
    | nil =>
      have hnone := find_eq_none (hparts part List.mem_cons_self)
      rw [List.intercalate_singleton]
      refine iff_of_true ?_ (fun part hmem => nomatch hmem)
      cases rounds with
      | zero => rfl
      | succ rounds => rw [splitFrom, hnone]
    | cons part' parts =>
      have hlength := List.length_pos_iff.mpr hdelimiter
      rw [List.intercalate_cons_cons] at hrounds ⊢
      simp only [List.length_append] at hrounds
      obtain ⟨rounds, rfl⟩ : ∃ k, rounds = k + 1 := ⟨rounds - 1, by omega⟩
      have htail := @ih (List.cons_ne_nil _ _) (fun p hmem => hparts p (List.mem_cons_of_mem _ hmem)) rounds (by omega)
      obtain ⟨pos, hle, hfind⟩ := @find_le delimiter part (delimiter.intercalate (part' :: parts))
      rw [unambiguous_cons, ← find_part part (delimiter.intercalate (part' :: parts)), ← htail, List.append_assoc,
        splitFrom, hfind]
      simp only [List.cons.injEq, Option.some_inj]
      obtain rfl | hlt := Nat.eq_or_lt_of_le hle
      · rw [List.take_left, ← List.drop_drop, List.drop_left, List.drop_left]
        simp only [true_and]
      · have htake :
            ((part ++ (delimiter ++ delimiter.intercalate (part' :: parts))).take pos).length ≠ part.length := by
          rw [List.length_take, List.length_append]
          omega
        exact iff_of_false (fun h => htake (congrArg List.length h.1)) (fun h => hlt.ne h.1)

theorem split_intercalate_iff {parts : List Text} (hne : parts ≠ [])
    (hparts : ∀ part ∈ parts, ¬ delimiter <:+: part) :
    split (delimiter.intercalate parts) delimiter = parts ↔ Unambiguous delimiter parts := by
  apply splitFrom_intercalate ?_ hne hparts (Nat.le_refl _)
  rintro rfl
  obtain ⟨part, hmem⟩ := List.exists_mem_of_ne_nil _ hne
  exact hparts part hmem List.nil_infix

end Split

section Files

variable {header : List Text} {rows : List (List Text)} {delimiter : Text} {parts : List Text}

theorem readCsv_split_right_iff (h : header.Nodup)
    (hrows : ∀ row ∈ header :: rows, row.length = header.length ∧ ∀ field ∈ row, IsField field)
    (hne : parts ≠ []) (hparts : ∀ part ∈ parts, ¬ delimiter <:+: part) :
    (Aligned header rows ↔ Terminated header rows) ∧
      (split (delimiter.intercalate parts) delimiter = parts ↔ Unambiguous delimiter parts) :=
  ⟨aligned_iff h hrows, split_intercalate_iff hne hparts⟩

theorem readCsv_split_right_iff_two :
    (Aligned [['a'], ['b']] [[['1'], []]] ↔ Terminated [['a'], ['b']] [[['1'], []]]) ∧
      (split (['|'].intercalate [['x'], []]) ['|'] = [['x'], []] ↔ Unambiguous ['|'] [['x'], []]) :=
  readCsv_split_right_iff (by decide) (by
    have hfields : ∀ row ∈ [[['a'], ['b']], [['1'], []]], row.length = 2 ∧
        ∀ field ∈ row, ',' ∉ field ∧ '\n' ∉ field := by decide
    exact hfields) (by decide) (by decide)

/-- The second column has no entry for the row, whose last field is empty. -/
theorem readCsv_loses_last : ¬ ∀ (header : List Text) (rows : List (List Text)), header.Nodup →
    (∀ row ∈ header :: rows, row.length = header.length ∧ ∀ field ∈ row, IsField field) → Aligned header rows := by
  intro h
  have hfields : ∀ row ∈ [[['a'], ['b']], [['1'], []]], row.length = 2 ∧
      ∀ field ∈ row, ',' ∉ field ∧ '\n' ∉ field := by decide
  have hcolumn := h [['a'], ['b']] [[['1'], []]] (by decide) hfields 1 (by decide)
  have hfind : Table.find (readCsv (writelines [[['a'], ['b']], [['1'], []]])) ['b'] = some [] := by decide
  exact absurd (hfind.symm.trans hcolumn) (by decide)

end Files

end LeoNdn.CsvTables
