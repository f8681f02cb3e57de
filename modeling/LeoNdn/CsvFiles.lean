import Mathlib.Data.List.GetD
import Mathlib.Data.List.Induction
import Mathlib.Data.List.Nodup
import Mathlib.Data.List.TakeWhile
import Mathlib.Data.Int.Notation

/-!
The files of comma-separated values: how they are written, and how they are read
and split.
-/

namespace LeoNdn.CsvFiles

abbrev Text := List Char

def join (separator : Char) : List Text → Text
  | [] => []
  | [part] => part
  | part :: parts => part ++ separator :: join separator parts

def writelines (rows : List (List Text)) : Text := rows.flatMap (fun row => join ',' row ++ ['\n'])

/-- `getline`: the text before the delimiter, and what is left after it. -/
def getline (delimiter : Char) : Text → Text × Text
  | [] => ([], [])
  | c :: text =>
    if c = delimiter then ([], text)
    else (c :: (getline delimiter text).1, (getline delimiter text).2)

/-- The loop over `getline`, which stops where nothing is left, with a bound on
its rounds. -/
def getlines (delimiter : Char) : ℕ → Text → List Text
  | _, [] => []
  | 0, _ => []
  | rounds + 1, text => (getline delimiter text).1 :: getlines delimiter rounds (getline delimiter text).2

def lines (delimiter : Char) (text : Text) : List Text := getlines delimiter text.length text

abbrev Table := List (Text × List Text)

def Table.find (table : Table) (colName : Text) : Option (List Text) :=
  (List.find? (fun column => column.1 = colName) table).map Prod.snd

/-- The first column of the map, which is the one with the least name. -/
def Table.begin : Table → Option (Text × List Text)
  | [] => none
  | column :: table =>
    match Table.begin table with
    | none => some column
    | some least => if column.1 < least.1 then some column else some least

/-- The element that `operator[]` refers to, changed. -/
def Table.modify (colName : Text) (f : List Text → List Text) : Table → Table
  | [] => [(colName, f [])]
  | column :: table =>
    if column.1 = colName then (colName, f column.2) :: table
    else column :: Table.modify colName f table

def readHeader (header : List Text) (table : Table) : Table :=
  header.foldl (fun table colName => Table.modify colName (fun _ => []) table) table

def readValues (colIdxMap : List Text) : ℕ → List Text → Table → Table
  | _, [], table => table
  | colIdx, val :: vals, table =>
    readValues colIdxMap (colIdx + 1) vals (Table.modify (colIdxMap.getD colIdx []) (· ++ [val]) table)

def readRow (colIdxMap : List Text) (table : Table) (line : Text) : Table :=
  readValues colIdxMap 0 (lines ',' line) table

/-- `readCsv` of a file that can be read. -/
def readCsv (csvFile : Text) : Table :=
  let colIdxMap := lines ',' (getline '\n' csvFile).1
  (lines '\n' (getline '\n' csvFile).2).foldl (readRow colIdxMap) (readHeader colIdxMap [])

inductive Exception
  | invalidArgument
  | outOfRange
  | emptyMap
  deriving DecidableEq, Repr

/-- The field of a column that `at` returns. -/
def Table.fieldAt (table : Table) (colName : Text) (row : ℕ) : Except Exception Text :=
  match ((table.find colName).getD [])[row]? with
  | some val => .ok val
  | none => .error .outOfRange

def isSpace (c : Char) : Bool := c ∈ [' ', '\t', '\n', '\x0B', '\x0C', '\r']

def stoi (text : Text) : Except Exception ℤ :=
  let text := text.dropWhile isSpace
  let negative := text.head? = some '-'
  let digits := (if text.head? = some '-' ∨ text.head? = some '+' then text.tail else text).takeWhile Char.isDigit
  let magnitude : ℤ := Nat.ofDigitChars 10 digits 0
  let number := if negative then -magnitude else magnitude
  if digits = [] then .error .invalidArgument
  else if number < -2147483648 ∨ 2147483647 < number then .error .outOfRange
  else .ok number

def find (delimiter : Text) : Text → Option ℕ
  | [] => if delimiter = [] then some 0 else none
  | c :: s => if delimiter.isPrefixOf (c :: s) then some 0 else (find delimiter s).map (· + 1)

/-- The loop in `split`, with a bound on its rounds. -/
def splitFrom (delimiter : Text) : ℕ → Text → List Text
  | 0, s => [s]
  | rounds + 1, s =>
    match find delimiter s with
    | none => [s]
    | some pos => s.take pos :: splitFrom delimiter rounds (s.drop (pos + delimiter.length))

def split (s delimiter : Text) : List Text := splitFrom delimiter s.length s

section Lines

variable {delimiter : Char}

theorem getline_append {line : Text} (h : delimiter ∉ line) (text : Text) :
    getline delimiter (line ++ delimiter :: text) = (line, text) := by
  induction line with
  | nil => simp [getline]
  | cons c line ih =>
    rw [List.mem_cons, not_or] at h
    rw [List.cons_append, getline, if_neg (Ne.symm h.1), ih h.2]

theorem getline_last {line : Text} (h : delimiter ∉ line) : getline delimiter line = (line, []) := by
  induction line with
  | nil => rfl
  | cons c line ih =>
    rw [List.mem_cons, not_or] at h
    rw [getline, if_neg (Ne.symm h.1), ih h.2]

theorem getline_length (text : Text) : (getline delimiter text).2.length ≤ text.length - 1 := by
  induction text with
  | nil => exact Nat.le_refl 0
  | cons c text ih =>
    rw [getline]
    split
    · simp
    · simp only [List.length_cons]
      omega

theorem getlines_rounds {text : Text} {rounds rounds' : ℕ} (h : text.length ≤ rounds) (h' : text.length ≤ rounds') :
    getlines delimiter rounds text = getlines delimiter rounds' text := by
  induction rounds generalizing text rounds' with
  | zero =>
    obtain rfl : text = [] := List.length_eq_zero_iff.mp (by omega)
    rw [getlines, getlines]
  | succ rounds ih =>
    cases text with
    | nil => rw [getlines, getlines]
    | cons c text =>
      cases rounds' with
      | zero => simp at h'
      | succ rounds' =>
        have hlength := @getline_length delimiter (c :: text)
        simp only [List.length_cons] at h h' hlength
        simp only [getlines]
        rw [@ih _ rounds' (by omega) (by omega)]

theorem lines_cons {text : Text} (hne : text ≠ []) :
    lines delimiter text = (getline delimiter text).1 :: lines delimiter (getline delimiter text).2 := by
  cases text with
  | nil => exact absurd rfl hne
  | cons c text =>
    have hlength := @getline_length delimiter (c :: text)
    simp only [List.length_cons] at hlength
    rw [lines, List.length_cons, getlines, lines, getlines_rounds (by omega) (Nat.le_refl _)]
    exact List.cons_ne_nil _ _

theorem lines_append {line : Text} (h : delimiter ∉ line) (text : Text) :
    lines delimiter (line ++ delimiter :: text) = line :: lines delimiter text := by
  rw [lines_cons (by simp), getline_append h]

theorem lines_writelines {rows : List (List Text)} (h : ∀ row ∈ rows, '\n' ∉ join ',' row) :
    lines '\n' (writelines rows) = rows.map (join ',') := by
  induction rows with
  | nil => rfl
  | cons row rows ih =>
    have htail := ih fun row' hrow => h row' (List.mem_cons_of_mem _ hrow)
    rw [writelines] at htail
    rw [writelines, List.flatMap_cons, List.append_assoc, List.singleton_append,
      lines_append (h row List.mem_cons_self), htail, List.map_cons]

theorem lines_join {fields : List Text} (h : ∀ field ∈ fields, delimiter ∉ field) (hne : fields ≠ [])
    (hlast : fields.getLast? ≠ some []) : lines delimiter (join delimiter fields) = fields := by
  induction fields with
  | nil => exact absurd rfl hne
  | cons field fields ih =>
    cases fields with
    | nil =>
      have hfield : field ≠ [] := fun h => hlast (by rw [h]; rfl)
      rw [join, lines_cons hfield, getline_last (h field List.mem_cons_self)]
      rfl
    | cons field' fields =>
      have htail := ih (fun part hpart => h part (List.mem_cons_of_mem _ hpart)) (List.cons_ne_nil _ _)
        (by rwa [List.getLast?_cons_cons] at hlast)
      rw [join, lines_append (h field List.mem_cons_self), htail]
      exact List.cons_ne_nil _ _

theorem mem_join {separator c : Char} {parts : List Text} (h : c ∈ join separator parts) :
    c = separator ∨ ∃ part ∈ parts, c ∈ part := by
  induction parts with
  | nil => cases h
  | cons part parts ih =>
    cases parts with
    | nil => exact Or.inr ⟨part, List.mem_cons_self, h⟩
    | cons part' parts =>
      rcases List.mem_append.mp h with hpart | hrest
      · exact Or.inr ⟨part, List.mem_cons_self, hpart⟩
      · rcases List.mem_cons.mp hrest with hsep | htail
        · exact Or.inl hsep
        · obtain hsep | ⟨part'', hmem, hc⟩ := ih htail
          · exact Or.inl hsep
          · exact Or.inr ⟨part'', List.mem_cons_of_mem _ hmem, hc⟩

end Lines

section Split

variable {c : Char}

theorem find_append {token : Text} (h : c ∉ token) (s : Text) : find [c] (token ++ c :: s) = some token.length := by
  induction token with
  | nil => simp [find]
  | cons d token ih =>
    rw [List.mem_cons, not_or] at h
    rw [List.cons_append, find, if_neg (by simpa using h.1), ih h.2]
    rfl

theorem find_none {token : Text} (h : c ∉ token) : find [c] token = none := by
  induction token with
  | nil => rfl
  | cons d token ih =>
    rw [List.mem_cons, not_or] at h
    rw [find, if_neg (by simpa using h.1), ih h.2]
    rfl

theorem splitFrom_join {parts : List Text} (h : ∀ part ∈ parts, c ∉ part) (hne : parts ≠ []) {rounds : ℕ}
    (hrounds : (join c parts).length ≤ rounds) : splitFrom [c] rounds (join c parts) = parts := by
  induction parts generalizing rounds with
  | nil => exact absurd rfl hne
  | cons part parts ih =>
    have hpart := h part List.mem_cons_self
    cases parts with
    | nil =>
      cases rounds with
      | zero => rfl
      | succ rounds => rw [join, splitFrom, find_none hpart]
    | cons part' parts =>
      have htail := fun rounds => @ih (fun p hp => h p (List.mem_cons_of_mem _ hp)) (List.cons_ne_nil _ _) rounds
      simp only [join, List.length_append, List.length_cons] at hrounds htail ⊢
      obtain ⟨rounds, rfl⟩ : ∃ k, rounds = k + 1 := ⟨rounds - 1, by omega⟩
      rw [splitFrom, find_append hpart]
      simp only [List.take_left', List.length_singleton, List.drop_append, List.drop_eq_nil_of_le, Nat.le_succ,
        List.nil_append]
      rw [show part.length + 1 - part.length = 1 by omega, List.drop_succ_cons, List.drop_zero]
      rw [htail rounds (by omega)]

theorem split_join {parts : List Text} (h : ∀ part ∈ parts, c ∉ part) (hne : parts ≠ []) :
    split (join c parts) [c] = parts :=
  splitFrom_join h hne (Nat.le_refl _)

end Split

section Numbers

theorem digit_spec {c : Char} (h : c.isDigit = true) : isSpace c = false ∧ c ≠ '-' ∧ c ≠ '+' := by
  refine ⟨?_, ?_, ?_⟩
  · by_contra hspace
    rw [Bool.not_eq_false, isSpace, decide_eq_true_eq] at hspace
    simp only [List.mem_cons, List.not_mem_nil, or_false] at hspace
    rcases hspace with rfl | rfl | rfl | rfl | rfl | rfl <;> exact absurd h (by decide)
  · rintro rfl
    exact absurd h (by decide)
  · rintro rfl
    exact absurd h (by decide)

theorem stoi_toDigits_eq (number : ℕ) : stoi (Nat.toDigits 10 number) =
    if 2147483647 < number then .error .outOfRange else .ok number := by
  have hdigits : ∀ c ∈ Nat.toDigits 10 number, c.isDigit = true :=
    fun c hc => Nat.isDigit_of_mem_toDigits (by omega) (by omega) hc
  have htake : (Nat.toDigits 10 number).takeWhile Char.isDigit = Nat.toDigits 10 number :=
    List.takeWhile_eq_self_iff.mpr hdigits
  have hread := Nat.ofDigitChars_toDigits (n := number) (b := 10) (by omega) (Nat.le_refl 10)
  cases hcase : Nat.toDigits 10 number with
  | nil => exact absurd hcase Nat.toDigits_ne_nil
  | cons c text =>
    have hc := digit_spec (hdigits c (by rw [hcase]; exact List.mem_cons_self))
    rw [hcase] at htake hread
    have hdrop : (c :: text).dropWhile isSpace = c :: text := List.dropWhile_cons_of_neg (by rw [hc.1]; decide)
    simp only [stoi, hdrop, List.head?_cons, Option.some.injEq, hc.2.1, hc.2.2, or_self, if_false, htake, hread,
      List.cons_ne_nil]
    by_cases hlarge : 2147483647 < number
    · rw [if_pos (by omega), if_pos hlarge]
    · rw [if_neg (by omega), if_neg hlarge]

theorem stoi_toDigits {number : ℕ} (h : number ≤ 2147483647) : stoi (Nat.toDigits 10 number) = .ok number := by
  rw [stoi_toDigits_eq, if_neg (by omega)]

end Numbers

section Columns

theorem find_modify (colName : Text) (f : List Text → List Text) (table : Table) (name : Text) :
    Table.find (Table.modify colName f table) name =
      if name = colName then some (f ((Table.find table colName).getD [])) else Table.find table name := by
  induction table with
  | nil =>
    by_cases hname : name = colName
    · subst hname
      simp [Table.modify, Table.find]
    · simp [Table.modify, Table.find, Ne.symm hname, hname]
  | cons column table ih =>
    simp only [Table.find] at ih ⊢
    rw [Table.modify]
    by_cases hcol : column.1 = colName
    · rw [if_pos hcol]
      by_cases hname : name = colName
      · subst hname
        simp [hcol]
      · rw [if_neg hname, List.find?_cons_of_neg (by simpa using Ne.symm hname),
          List.find?_cons_of_neg (by simpa [hcol] using Ne.symm hname)]
    · rw [if_neg hcol]
      by_cases hcol' : column.1 = name
      · have hname : name ≠ colName := fun h => hcol (hcol'.trans h)
        simp [hcol', hname]
      · rw [List.find?_cons_of_neg (by simpa using hcol'), ih, List.find?_cons_of_neg (by simpa using hcol),
          List.find?_cons_of_neg (by simpa using hcol')]

theorem keys_modify (colName : Text) (f : List Text → List Text) (table : Table) :
    (Table.modify colName f table).map Prod.fst =
      if colName ∈ table.map Prod.fst then table.map Prod.fst else table.map Prod.fst ++ [colName] := by
  induction table with
  | nil => rfl
  | cons column table ih =>
    rw [Table.modify]
    by_cases hcol : column.1 = colName
    · simp [hcol]
    · rw [if_neg hcol, List.map_cons, ih]
      by_cases hmem : colName ∈ table.map Prod.fst
      · rw [if_pos hmem, if_pos (by simpa using Or.inr (by simpa using hmem))]
        rfl
      · rw [if_neg hmem, if_neg (by rw [List.map_cons, List.mem_cons, not_or]; exact ⟨Ne.symm hcol, hmem⟩)]
        rfl

theorem find_of_mem {table : Table} (h : (table.map Prod.fst).Nodup) {column : Text × List Text}
    (hmem : column ∈ table) : Table.find table column.1 = some column.2 := by
  induction table with
  | nil => cases hmem
  | cons column' table ih =>
    rw [List.map_cons, List.nodup_cons] at h
    rcases List.mem_cons.mp hmem with rfl | hmem
    · simp [Table.find]
    · have hne : column'.1 ≠ column.1 := fun he => h.1 (he ▸ List.mem_map_of_mem hmem)
      rw [Table.find, List.find?_cons_of_neg (by simpa using hne)]
      exact ih h.2 hmem

theorem begin_mem {table : Table} {column : Text × List Text} (h : table.begin = some column) : column ∈ table := by
  induction table generalizing column with
  | nil => cases h
  | cons column' table ih =>
    rw [Table.begin] at h
    split at h
    · obtain rfl := Option.some.inj h
      exact List.mem_cons_self
    · rename_i least hleast
      split at h
      · obtain rfl := Option.some.inj h
        exact List.mem_cons_self
      · obtain rfl := Option.some.inj h
        exact List.mem_cons_of_mem _ (ih hleast)

theorem begin_ne_none {table : Table} (h : table ≠ []) : ∃ column, table.begin = some column := by
  cases table with
  | nil => exact absurd rfl h
  | cons column table =>
    rw [Table.begin]
    split
    · exact ⟨_, rfl⟩
    · split <;> exact ⟨_, rfl⟩

variable {header : List Text}

theorem getD_inj (h : header.Nodup) {i j : ℕ} (hi : i < header.length) (hj : j < header.length) :
    header.getD i [] = header.getD j [] ↔ i = j := by
  rw [List.getD_eq_getElem _ _ hi, List.getD_eq_getElem _ _ hj]
  exact h.getElem_inj_iff

theorem readHeader_keys (h : header.Nodup) (table : Table) (hnew : ∀ name ∈ header, name ∉ table.map Prod.fst) :
    (readHeader header table).map Prod.fst = table.map Prod.fst ++ header ∧
      ∀ name ∈ header, Table.find (readHeader header table) name = some [] := by
  induction header using List.reverseRecOn with
  | nil => simp [readHeader]
  | append_singleton header colName ih =>
    rw [List.nodup_append] at h
    obtain ⟨hkeys, hfind⟩ := ih h.1 fun name hname => hnew name (List.mem_append_left _ hname)
    have hmem : colName ∉ (readHeader header table).map Prod.fst := by
      rw [hkeys, List.mem_append, not_or]
      exact ⟨hnew colName (by simp), fun hmem => h.2.2 _ hmem _ List.mem_cons_self rfl⟩
    have hstep : readHeader (header ++ [colName]) table =
        Table.modify colName (fun _ => []) (readHeader header table) := List.foldl_append
    rw [hstep]
    refine ⟨?_, ?_⟩
    · rw [keys_modify, if_neg hmem, hkeys, List.append_assoc]
    · intro name hname
      rw [find_modify]
      by_cases heq : name = colName
      · rw [if_pos heq]
      · rw [if_neg heq]
        rcases List.mem_append.mp hname with hname | hname
        · exact hfind name hname
        · exact absurd (List.mem_singleton.mp hname) heq

theorem readValues_find (h : header.Nodup) (table : Table) {k : ℕ} {vals : List Text}
    (hk : k + vals.length ≤ header.length) {i : ℕ} (hi : i < header.length) :
    Table.find (readValues header k vals table) (header.getD i []) =
      if k ≤ i ∧ i < k + vals.length then
        some ((Table.find table (header.getD i [])).getD [] ++ [vals.getD (i - k) []])
      else Table.find table (header.getD i []) := by
  induction vals generalizing k table with
  | nil => exact (if_neg (by simp only [List.length_nil]; omega)).symm
  | cons val vals ih =>
    rw [List.length_cons] at hk
    rw [readValues, ih _ (by omega), find_modify, List.length_cons]
    by_cases heq : i = k
    · subst heq
      rw [if_neg (by omega), if_pos rfl, if_pos (by omega), Nat.sub_self]
      rfl
    · have hne : header.getD i [] ≠ header.getD k [] := (getD_inj h hi (by omega)).not.mpr heq
      simp only [if_neg hne]
      by_cases hin : k + 1 ≤ i ∧ i < k + 1 + vals.length
      · obtain ⟨j, rfl⟩ : ∃ j, i = k + 1 + j := ⟨i - (k + 1), by omega⟩
        rw [if_pos hin, if_pos (by omega), show k + 1 + j - (k + 1) = j by omega,
          show k + 1 + j - k = j + 1 by omega, List.getD_cons_succ]
      · rw [if_neg hin, if_neg (by omega)]

theorem readValues_keys {table : Table} (hkeys : table.map Prod.fst = header) {k : ℕ} {vals : List Text}
    (hk : k + vals.length ≤ header.length) : (readValues header k vals table).map Prod.fst = header := by
  induction vals generalizing k table with
  | nil => exact hkeys
  | cons val vals ih =>
    rw [List.length_cons] at hk
    apply ih _ (by omega)
    rw [keys_modify, hkeys, if_pos]
    rw [List.getD_eq_getElem _ _ (by omega)]
    exact List.getElem_mem _

structure IsRow (size : ℕ) (row : List Text) : Prop where
  length : row.length = size
  plain : ∀ field ∈ row, ',' ∉ field ∧ '\n' ∉ field
  last : row.getLast? ≠ some []

theorem IsRow.notMem {size : ℕ} {row : List Text} (h : IsRow size row) : '\n' ∉ join ',' row := by
  intro hmem
  rcases mem_join hmem with hsep | ⟨field, hfield, hc⟩
  · exact absurd hsep (by decide)
  · exact (h.plain field hfield).2 hc

theorem IsRow.lines {size : ℕ} {row : List Text} (h : IsRow size row) (hsize : 0 < size) :
    lines ',' (join ',' row) = row :=
  lines_join (fun field hfield => (h.plain field hfield).1)
    (fun hnil => by rw [← h.length, hnil] at hsize; exact absurd hsize (Nat.lt_irrefl 0)) h.last

theorem readCsv_writelines (hheader : header.Nodup) (hsize : 0 < header.length) (hrow : IsRow header.length header)
    {rows : List (List Text)} (hrows : ∀ row ∈ rows, IsRow header.length row) :
    (readCsv (writelines (header :: rows))).map Prod.fst = header ∧ ∀ i < header.length,
      Table.find (readCsv (writelines (header :: rows))) (header.getD i []) =
        some (rows.map (fun row => row.getD i [])) := by
  have hgetline : getline '\n' (writelines (header :: rows)) = (join ',' header, writelines rows) := by
    rw [writelines, List.flatMap_cons, List.append_assoc, List.singleton_append, getline_append hrow.notMem]
    rfl
  have hfold : ∀ (rest : List (List Text)) (table : Table) (columns : ℕ → List Text),
      (∀ row ∈ rest, IsRow header.length row) → table.map Prod.fst = header →
      (∀ i < header.length, Table.find table (header.getD i []) = some (columns i)) →
      ((rest.map (join ',')).foldl (readRow header) table).map Prod.fst = header ∧ ∀ i < header.length,
        Table.find ((rest.map (join ',')).foldl (readRow header) table) (header.getD i []) =
          some (columns i ++ rest.map (fun row => row.getD i [])) := by
    intro rest
    induction rest with
    | nil =>
      intro table columns _ hkeys hcolumns
      refine ⟨hkeys, fun i hi => ?_⟩
      rw [List.map_nil, List.map_nil, List.foldl_nil, List.append_nil, hcolumns i hi]
    | cons row rest ih =>
      intro table columns hrest hkeys hcolumns
      have hisRow := hrest row List.mem_cons_self
      have hsmall : 0 + row.length ≤ header.length := by rw [hisRow.length]; omega
      have hkeys' := readValues_keys hkeys hsmall
      rw [List.map_cons, List.foldl_cons, readRow, hisRow.lines hsize]
      obtain ⟨hkeys'', hfind'⟩ := ih _ (fun i => columns i ++ [row.getD i []])
        (fun row' hrow' => hrest row' (List.mem_cons_of_mem _ hrow')) hkeys' (by
          intro i hi
          rw [readValues_find hheader _ hsmall hi, if_pos ⟨Nat.zero_le i, by rw [hisRow.length]; omega⟩, hcolumns i hi]
          rfl)
      refine ⟨hkeys'', fun i hi => ?_⟩
      rw [hfind' i hi, List.map_cons, List.append_assoc]
      rfl
  obtain ⟨hkeys, hempty⟩ := readHeader_keys hheader [] (fun _ _ => List.not_mem_nil)
  rw [readCsv, hgetline]
  simp only [hrow.lines hsize, lines_writelines fun row hmem => (hrows row hmem).notMem]
  obtain ⟨hkeys', hfind⟩ := hfold rows (readHeader header []) (fun _ => []) hrows hkeys fun i hi =>
    hempty _ (by rw [List.getD_eq_getElem _ _ hi]; exact List.getElem_mem _)
  exact ⟨hkeys', fun i hi => by rw [hfind i hi, List.nil_append]⟩

theorem begin_writelines (hheader : header.Nodup) (hsize : 0 < header.length) (hrow : IsRow header.length header)
    {rows : List (List Text)} (hrows : ∀ row ∈ rows, IsRow header.length row) :
    ∃ column, (readCsv (writelines (header :: rows))).begin = some column ∧ column.2.length = rows.length := by
  obtain ⟨hkeys, hcolumns⟩ := readCsv_writelines hheader hsize hrow hrows
  obtain ⟨column, hbegin⟩ := @begin_ne_none (readCsv (writelines (header :: rows))) (by
    intro hnil
    rw [hnil] at hkeys
    rw [← hkeys] at hsize
    exact absurd hsize (Nat.lt_irrefl 0))
  refine ⟨column, hbegin, ?_⟩
  have hmem := begin_mem hbegin
  have hfind := find_of_mem (by rw [hkeys]; exact hheader) hmem
  have hname : column.1 ∈ header := by
    rw [← hkeys]
    exact List.mem_map_of_mem hmem
  obtain ⟨i, hi, heq⟩ := List.getElem_of_mem hname
  have hcolumn := hcolumns i hi
  rw [List.getD_eq_getElem _ _ hi, heq, hfind, Option.some_inj] at hcolumn
  rw [hcolumn, List.length_map]

theorem fieldAt_writelines (hheader : header.Nodup) (hsize : 0 < header.length) (hrow : IsRow header.length header)
    {rows : List (List Text)} (hrows : ∀ row ∈ rows, IsRow header.length row) {i : ℕ} (hi : i < header.length)
    {n : ℕ} {row : List Text} (hn : rows[n]? = some row) :
    (readCsv (writelines (header :: rows))).fieldAt (header.getD i []) n = .ok (row.getD i []) := by
  obtain ⟨-, hcolumns⟩ := readCsv_writelines hheader hsize hrow hrows
  rw [Table.fieldAt, hcolumns i hi, Option.getD_some, List.getElem?_map, hn]
  rfl

end Columns

end LeoNdn.CsvFiles
