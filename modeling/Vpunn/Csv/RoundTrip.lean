import Mathlib.Data.Finset.Card
import Mathlib.Data.List.Forall2
import Mathlib.Data.List.GetD
import Vpunn.Csv.FileHandler

/-! What a file returns after rows were written to it and after its header was updated. A row without
    values or with one empty value has no text and is lost, and a header of one empty name likewise.
    An update writes the names without repetition and leaves the lines as they are, so behind a
    repeated name each name moves to a column of its left. On a stream that has failed it reads no
    names, and the old ones are lost. -/

namespace Vpunn

open FileHandler Lines

namespace FileHandler

/-- A new file with a header and rows. -/
def store (header : List Text) (rows : List (List Text)) : FileStream :=
  rows.foldl (fun s row => writeTokens row true s) (writeTokens header true (.opened []))

end FileHandler

namespace Serializer

def Series.value (row : Series) (name : Text) : Text := (row name).getD []

/-- The rows that are read from the beginning of a stream, by the names in its header. -/
def readFile (s : FileStream) : List Series :=
  let (header, s) := readHeader s
  readRows (createIndexMap header) (jumpToBeginning s)

/-- Every name that occurs once has the value written under it. -/
def KeepsNamed (header row : List Text) (series : Series) : Prop :=
  ∀ name, header.count name = 1 → series.value name = row.getD (header.idxOf name) []

/-- The header and the rows are read back. -/
structure RoundTrips (header : List Text) (rows : List (List Text)) : Prop where
  readHeader_eq : (readHeader (store header rows)).1 = header
  readLines_eq : readLines (jumpToBeginning (store header rows)) = rows
  values : List.Forall₂ (KeepsNamed header) rows (readFile (store header rows))

/-- After an update of the header through a stream the old values are read back and the new ones are
    empty. -/
def SurvivesUpdate (header : List Text) (rows : List (List Text)) (additionalFields : List Text)
    (strictReadonlyFile : Bool) (s : FileStream) : Prop :=
  List.Forall₂
    (fun row series => KeepsNamed header row series
      ∧ ∀ name ∈ additionalFields, name ∉ header → series.value name = [])
    rows (readFile (updateHeader additionalFields strictReadonlyFile s))

/-- Names and values that a file can carry, a value for each name. -/
structure Storable (header : List Text) (rows : List (List Text)) : Prop where
  names : ∀ name ∈ header, Plain name
  values : ∀ row ∈ rows, ∀ value ∈ row, Plain value
  length : ∀ row ∈ rows, row.length = header.length

/-- Neither the header nor a row is lost. -/
def AllWritten (header : List Text) (rows : List (List Text)) : Prop :=
  header ≠ [[]] ∧ ∀ row ∈ rows, row ≠ [] ∧ row ≠ [[]]

/-- The value of a row in the column that a list of fields without its repetitions gives a name: the
    column is numbered by the different fields before it. -/
def columnValue (fields row : List Text) (name : Text) : Text :=
  if fields.contains name then row.getD (fields.take (fields.idxOf name)).toFinset.card []
  else []

theorem columnValue_of_mem {fields : List Text} {name : Text} (h : name ∈ fields)
    (row : List Text) :
    columnValue fields row name
      = row.getD (fields.take (fields.idxOf name)).toFinset.card [] :=
  if_pos (List.contains_iff_mem.mpr h)

theorem columnValue_of_notMem {fields : List Text} {name : Text} (h : name ∉ fields)
    (row : List Text) : columnValue fields row name = [] :=
  if_neg (mt List.contains_iff_mem.mp h)

/-- The values are right under the columns of the fields that an update joins. -/
structure KeepsColumns (fields header additionalFields : List Text) (rows : List (List Text)) :
    Prop where
  named : rows ≠ [] → ∃ name ∈ fields, name ≠ []
  old : ∀ row ∈ rows, ∀ name, header.count name = 1 →
    row.getD (header.idxOf name) [] = columnValue fields row name
  added : ∀ row ∈ rows, ∀ name ∈ additionalFields, name ∉ header →
    columnValue fields row name = []

/-- What an update needs of the columns. A stream that has failed gives no rows unless the update
    writes the file anew, and then without the old names. -/
def UpdateKeepsColumns (header : List Text) (rows : List (List Text))
    (additionalFields : List Text) (strictReadonlyFile failed : Bool) : Prop :=
  if failed then
    rows = [] ∨ strictReadonlyFile = false ∧ additionalFields ≠ []
      ∧ KeepsColumns additionalFields header additionalFields rows
  else
    strictReadonlyFile = true ∨ additionalFields = []
      ∨ KeepsColumns (header ++ additionalFields) header additionalFields rows

/-! ### The columns -/

theorem createIndexMap_concat (header : List Text) (name : Text) :
    createIndexMap (header ++ [name]) = (createIndexMap header).insert name header.length := by
  rw [createIndexMap, List.zipIdx_append, List.foldl_append, ← createIndexMap]
  simp

/-- The last position of a name is in the map. -/
theorem lookup_createIndexMap (pre : List Text) {name : Text} {post : List Text}
    (h : name ∉ post) :
    (createIndexMap (pre ++ name :: post)).lookup name = some pre.length := by
  induction post using List.reverseRecOn with
  | nil => rw [createIndexMap_concat, AList.lookup_insert]
  | append_singleton post other ih =>
    rw [List.mem_append, not_or, List.mem_singleton] at h
    rw [← List.cons_append, ← List.append_assoc, createIndexMap_concat,
      AList.lookup_insert_ne h.2, ih h.1]

theorem lookup_createIndexMap_of_notMem {header : List Text} {name : Text} (h : name ∉ header) :
    (createIndexMap header).lookup name = none := by
  induction header using List.reverseRecOn with
  | nil => rfl
  | append_singleton header other ih =>
    rw [List.mem_append, not_or, List.mem_singleton] at h
    rw [createIndexMap_concat, AList.lookup_insert_ne h.2, ih h.1]

theorem createIndexMap_isEmpty (header : List Text) :
    (createIndexMap header).entries.isEmpty = header.isEmpty := by
  rcases List.eq_nil_or_concat header with rfl | ⟨front, name, rfl⟩
  · rfl
  · rw [List.concat_eq_append, createIndexMap_concat, AList.entries_insert]
    simp

/-- A row as it is read under a header. -/
def rowSeries (header row : List Text) : Series :=
  fillRow (createIndexMap header) [] row fun _ => none

theorem value_rowSeries_append (pre : List Text) {name : Text} {post : List Text} (h : name ∉ post)
    (row : List Text) : (rowSeries (pre ++ name :: post) row).value name = row.getD pre.length [] := by
  simp [Series.value, rowSeries, fillRow, lookup_createIndexMap pre h]

theorem value_rowSeries_of_notMem {header : List Text} {name : Text} (h : name ∉ header)
    (row : List Text) : (rowSeries header row).value name = [] := by
  simp [Series.value, rowSeries, fillRow, lookup_createIndexMap_of_notMem h]

/-- A name that occurs once, and its position. -/
theorem exists_append_of_count_eq_one {header : List Text} {name : Text}
    (h : header.count name = 1) :
    ∃ pre post, header = pre ++ name :: post ∧ name ∉ pre ∧ name ∉ post
      ∧ header.idxOf name = pre.length := by
  have hmem : name ∈ header := List.count_pos_iff.mp (by rw [h]; exact Nat.one_pos)
  obtain ⟨pre, post, rfl, hpre⟩ := List.eq_append_cons_of_mem hmem
  have hpost : List.count name post = 0 := by
    rw [List.count_append, List.count_cons_self, List.count_eq_zero_of_not_mem hpre] at h
    omega
  refine ⟨pre, post, rfl, hpre, List.count_eq_zero.mp hpost, ?_⟩
  rw [List.idxOf_append_of_notMem hpre, List.idxOf_cons_self, Nat.add_zero]

/-! ### The new header -/

/-- The fields that the loop of `update_header` appends. -/
theorem foldl_insertField (fields : List Text) : ∀ header : List Text,
    ∃ new, fields.foldl insertField header = header ++ new ∧ new.Nodup
      ∧ new.toFinset = fields.toFinset \ header.toFinset := by
  induction fields with
  | nil => exact fun header => ⟨[], (List.append_nil _).symm, List.nodup_nil, by simp⟩
  | cons field fields ih =>
    intro header
    rw [List.foldl_cons, insertField]
    split
    · next hmem =>
      obtain ⟨new, heq, hnodup, hset⟩ := ih header
      refine ⟨new, heq, hnodup, ?_⟩
      rw [hset, List.toFinset_cons, Finset.insert_sdiff_of_mem _ (List.mem_toFinset.mpr hmem)]
    · next hmem =>
      obtain ⟨new, heq, hnodup, hset⟩ := ih (header ++ [field])
      have hnew : ∀ x, x ∈ new ↔ x ∈ fields ∧ x ≠ field ∧ x ∉ header := fun x => by
        have := congrArg (x ∈ ·) hset
        simpa using this
      refine ⟨field :: new, by rw [heq, List.append_assoc]; rfl,
        List.nodup_cons.mpr ⟨fun h => ((hnew field).mp h).2.1 rfl, hnodup⟩, ?_⟩
      ext x
      by_cases hx : x = field
      · simp [hx, hmem]
      · simp [hx, hnew]

/-- The header that an update writes for the fields it joins. -/
def newHeader (fields : List Text) : List Text := fields.foldl insertField []

theorem nodup_newHeader (fields : List Text) : (newHeader fields).Nodup := by
  obtain ⟨new, heq, hnodup, -⟩ := foldl_insertField fields []
  rwa [newHeader, heq, List.nil_append]

theorem mem_newHeader {fields : List Text} {name : Text} :
    name ∈ newHeader fields ↔ name ∈ fields := by
  obtain ⟨new, heq, -, hset⟩ := foldl_insertField fields []
  rw [newHeader, heq, List.nil_append, ← List.mem_toFinset, hset]
  simp

/-- A name moves to the column numbered by the names before it. -/
theorem newHeader_eq_append {pre : List Text} (post : List Text) {name : Text} (h : name ∉ pre) :
    ∃ names new, newHeader (pre ++ name :: post) = names ++ name :: new
      ∧ name ∉ new ∧ names.length = pre.toFinset.card := by
  obtain ⟨names, hnames, hnodup, hset⟩ := foldl_insertField pre []
  obtain ⟨new, hnew, -, hset'⟩ := foldl_insertField post (names ++ [name])
  have hset : names.toFinset = pre.toFinset := by simpa using hset
  have hmem : name ∉ names := fun hx => h (by
    rwa [← List.mem_toFinset, ← hset, List.mem_toFinset])
  refine ⟨names, new, ?_, fun hx => ?_, ?_⟩
  · rw [newHeader, List.foldl_append, hnames, List.nil_append, List.foldl_cons, insertField,
      if_neg hmem, hnew, List.append_assoc, List.singleton_append]
  · have := List.mem_toFinset.mpr hx
    rw [hset'] at this
    simp at this
  · rw [← hset, List.toFinset_card_of_nodup hnodup]

/-- What a row reads under the new header. -/
theorem value_newHeader (fields row : List Text) (name : Text) :
    (rowSeries (newHeader fields) row).value name = columnValue fields row name := by
  by_cases hmem : name ∈ fields
  · obtain ⟨pre, post, rfl, hpre⟩ := List.eq_append_cons_of_mem hmem
    obtain ⟨names, new, heq, hnew, hlength⟩ := newHeader_eq_append post hpre
    rw [columnValue_of_mem hmem, heq, value_rowSeries_append names hnew row, hlength,
      List.idxOf_append_of_notMem hpre, List.idxOf_cons_self, Nat.add_zero, List.take_left]
  · rw [columnValue_of_notMem hmem]
    exact value_rowSeries_of_notMem (fun h => hmem (mem_newHeader.mp h)) row

/-! ### The file -/

variable {header additionalFields : List Text} {rows : List (List Text)}

/-- The rows of a file, by the names in its first line. -/
def rowsOf (content : Text) : List Series :=
  if headerOf content = [] then []
  else ((getlines '\n' (belowHeader content)).map splitCsvLine).map (rowSeries (headerOf content))

theorem headerOf_nil : headerOf [] = [] := splitCsvLine_nil

theorem readFile_eq (s : FileStream) : readFile s = if s.failbit then [] else rowsOf s.content := by
  simp only [readFile, readRows_eq, createIndexMap_isEmpty, readLines_jumpToBeginning,
    content_readHeader, failbit_readHeader, readHeader_fst, rowsOf]
  cases hfail : s.failbit with
  | true => rfl
  | false =>
    cases hcontent : s.content with
    | nil => simp [headerOf_nil]
    | cons c content => by_cases h : headerOf (c :: content) = [] <;> simp [h, rowSeries]

theorem failbit_writeTokens {s : FileStream} (h : s.failbit = false) (tokens : List Text) :
    (writeTokens tokens true s).failbit = false := by
  simp only [writeTokens, if_true]
  split
  · exact h
  · rfl

theorem failbit_store (header : List Text) (rows : List (List Text)) :
    (store header rows).failbit = false := by
  have hrows : ∀ s : FileStream, s.failbit = false →
      (rows.foldl (fun s row => writeTokens row true s) s).failbit = false := by
    induction rows with
    | nil => exact fun s h => h
    | cons row rows ih => exact fun s h => ih _ (failbit_writeTokens h row)
  exact hrows _ (failbit_writeTokens rfl header)

theorem content_store (h : Storable header rows) :
    (store header rows).content = linesText ((header :: rows).filter (rowText · ≠ [])) := by
  have hrows : ∀ s : FileStream, (rows.foldl (fun s row => writeTokens row true s) s).content
      = s.content ++ linesText (rows.filter (rowText · ≠ [])) := by
    have hvalues := h.values
    clear h
    induction rows with
    | nil => exact fun s => (List.append_nil s.content).symm
    | cons row rows ih =>
      intro s
      rw [List.foldl_cons, ih fun r hr => hvalues r (List.mem_cons_of_mem _ hr),
        content_writeTokens (hvalues row List.mem_cons_self)]
      by_cases hrow : rowText row = [] <;> simp [hrow, linesText]
  rw [store, hrows, content_writeTokens h.names]
  by_cases hheader : rowText header = [] <;> simp [hheader, linesText]

theorem linesText_cons (row : List Text) (rows : List (List Text)) :
    linesText (row :: rows) = rowText row ++ '\n' :: linesText rows := by
  simp [linesText]

theorem filter_rowText_eq_self (h : ∀ row ∈ rows, row ≠ [] ∧ row ≠ [[]]) :
    rows.filter (rowText · ≠ []) = rows := by
  refine List.filter_eq_self.mpr fun row hrow => decide_eq_true fun hnil => ?_
  rcases rowText_eq_nil_iff.mp hnil with h' | h'
  · exact (h row hrow).1 h'
  · exact (h row hrow).2 h'

/-- What a file with a header line returns. -/
theorem rowsOf_cons (hheader : ∀ name ∈ header, Plain name) (hne : rowText header ≠ [])
    (hrows : ∀ row ∈ rows, ∀ value ∈ row, Plain value) (hrows' : ∀ row ∈ rows, rowText row ≠ []) :
    rowsOf (linesText (header :: rows)) = rows.map (rowSeries header) := by
  have hnil : header ≠ [] := fun h => hne (by rw [h]; rfl)
  rw [rowsOf, linesText_cons, headerOf_append hheader hne, if_neg hnil,
    belowHeader_append hheader, splitCsvLine_linesText hrows hrows']

theorem keepsNamed_rowSeries (header row : List Text) :
    KeepsNamed header row (rowSeries header row) := by
  intro name hcount
  obtain ⟨pre, post, rfl, -, hpost, hidx⟩ := exists_append_of_count_eq_one hcount
  rw [value_rowSeries_append pre hpost, hidx]

/-- With a header of no names nothing is written when all rows are. -/
theorem AllWritten.rows_eq_nil (h : Storable [] rows) (hw : AllWritten [] rows) : rows = [] :=
  List.eq_nil_iff_forall_not_mem.mpr fun row hrow =>
    (hw.2 row hrow).1 (List.length_eq_zero_iff.mp (h.length row hrow))

theorem AllWritten.rowText_ne_nil (hw : AllWritten header rows) :
    ∀ row ∈ rows, rowText row ≠ [] := fun row hrow hnil =>
  (rowText_eq_nil_iff.mp hnil).elim (hw.2 row hrow).1 (hw.2 row hrow).2

theorem AllWritten.rowText_header_ne_nil (h : Storable header rows) (hw : AllWritten header rows)
    (hrows : rows ≠ []) : rowText header ≠ [] := fun hnil => by
  rcases rowText_eq_nil_iff.mp hnil with rfl | rfl
  · exact hrows (hw.rows_eq_nil h)
  · exact hw.1 rfl

/-- The text of a header line, if it has one. -/
def headerText (header : List Text) : Text := linesText ([header].filter (rowText · ≠ []))

theorem content_writeTokens_opened (h : ∀ name ∈ header, Plain name) :
    (writeTokens header true (.opened [])).content = headerText header := by
  rw [content_writeTokens h, headerText]
  by_cases hnil : rowText header = [] <;> simp [hnil, linesText]

/-- The file when everything is written. -/
theorem AllWritten.content_store (h : Storable header rows) (hw : AllWritten header rows) :
    (store header rows).content = headerText header ++ linesText rows := by
  rw [Serializer.content_store h, List.filter_cons, filter_rowText_eq_self hw.2, headerText]
  by_cases hheader : rowText header = [] <;> simp [hheader, linesText]

/-- What a header and lines below it return, the header being possibly empty with no lines. -/
theorem rowsOf_headerText_append (hheader : ∀ name ∈ header, Plain name)
    (hne : rows ≠ [] → rowText header ≠ []) (hrows : ∀ row ∈ rows, ∀ value ∈ row, Plain value)
    (hrows' : ∀ row ∈ rows, rowText row ≠ []) :
    rowsOf (headerText header ++ linesText rows) = rows.map (rowSeries header) := by
  by_cases hnil : rowText header = []
  · have hempty : rows = [] := by
      by_contra h
      exact hne h hnil
    subst hempty
    simp [headerText, hnil, linesText, rowsOf, headerOf_nil]
  · have hfile : headerText header ++ linesText rows = linesText (header :: rows) := by
      simp [headerText, hnil, linesText]
    rw [hfile, rowsOf_cons hheader hnil hrows hrows']

/-- A header of one empty name is not read back: the first row that has a text is read in its
    place. -/
theorem headerOf_linesText_ne (h : ∀ row ∈ rows, ∀ value ∈ row, Plain value)
    (hne : ∀ row ∈ rows, rowText row ≠ []) : headerOf (linesText rows) ≠ [[]] := by
  cases rows with
  | nil =>
    rw [linesText, List.map_nil, List.flatMap_nil, headerOf_nil]
    exact (List.cons_ne_nil _ _).symm
  | cons row rows =>
    rw [linesText_cons, headerOf_append (h row List.mem_cons_self) (hne row List.mem_cons_self)]
    intro heq
    exact hne row List.mem_cons_self (rowText_eq_nil_iff.mpr (.inr heq))

theorem RoundTrips.allWritten (h : Storable header rows) (hr : RoundTrips header rows) :
    AllWritten header rows := by
  obtain ⟨hheader, hlines, -⟩ := hr
  rw [readHeader_fst, failbit_store, if_neg Bool.false_ne_true] at hheader
  rw [readLines_jumpToBeginning, failbit_store, if_neg Bool.false_ne_true] at hlines
  have htext : ∀ row ∈ rows.filter (rowText · ≠ []), rowText row ≠ [] := fun row hrow => by
    simpa using (List.mem_filter.mp hrow).2
  have hplain : ∀ row ∈ rows.filter (rowText · ≠ []), ∀ value ∈ row, Plain value :=
    fun row hrow => h.values row (List.mem_filter.mp hrow).1
  rw [content_store h, List.filter_cons] at hheader hlines
  by_cases hne : rowText header = []
  · rw [if_neg (by simpa using hne)] at hheader hlines
    rcases rowText_eq_nil_iff.mp hne with rfl | rfl
    · have hrows : ∀ row ∈ rows, row = [] := fun row hrow =>
        List.length_eq_zero_iff.mp (h.length row hrow)
      have hnone : rows.filter (rowText · ≠ []) = [] :=
        List.filter_eq_nil_iff.mpr fun row hrow => by simp [hrows row hrow, rowText]
      have hnil : rows = [] := by
        rw [← hlines, hnone]
        simp [linesText, belowHeader, getline]
      exact ⟨(List.cons_ne_nil _ _).symm, fun row hrow => by rw [hnil] at hrow; cases hrow⟩
    · exact absurd hheader (headerOf_linesText_ne hplain htext)
  · rw [if_pos (by simpa using hne), linesText_cons, belowHeader_append h.names,
      splitCsvLine_linesText hplain htext] at hlines
    refine ⟨fun heq => hne (rowText_eq_nil_iff.mpr (.inr heq)), fun row hrow => ?_⟩
    rw [← hlines] at hrow
    exact not_or.mp (mt rowText_eq_nil_iff.mpr (htext row hrow))

/-- The names and the lines of a file in which everything is written. -/
theorem AllWritten.headerOf_store (h : Storable header rows) (hw : AllWritten header rows) :
    headerOf (store header rows).content = header
      ∧ belowHeader (store header rows).content = linesText rows := by
  rw [hw.content_store h]
  by_cases hnil : rowText header = []
  · obtain rfl := (rowText_eq_nil_iff.mp hnil).resolve_right hw.1
    obtain rfl := hw.rows_eq_nil h
    exact ⟨headerOf_nil, rfl⟩
  · have htext : headerText header ++ linesText rows = rowText header ++ '\n' :: linesText rows := by
      simp [headerText, hnil, linesText]
    rw [htext, headerOf_append h.names hnil, belowHeader_append h.names]
    exact ⟨rfl, rfl⟩

theorem AllWritten.rowsOf_store (h : Storable header rows) (hw : AllWritten header rows) :
    rowsOf (store header rows).content = rows.map (rowSeries header) := by
  rw [hw.content_store h]
  exact rowsOf_headerText_append h.names (hw.rowText_header_ne_nil h) h.values hw.rowText_ne_nil

theorem AllWritten.roundTrips (h : Storable header rows) (hw : AllWritten header rows) :
    RoundTrips header rows := by
  obtain ⟨hheader, hbelow⟩ := hw.headerOf_store h
  refine ⟨?_, ?_, ?_⟩
  · rw [readHeader_fst, failbit_store, if_neg Bool.false_ne_true, hheader]
  · rw [readLines_jumpToBeginning, failbit_store, if_neg Bool.false_ne_true, hbelow,
      splitCsvLine_linesText h.values hw.rowText_ne_nil]
  · rw [readFile_eq, failbit_store, if_neg Bool.false_ne_true, hw.rowsOf_store h,
      List.forall₂_map_right_iff, List.forall₂_same]
    exact fun row _ => keepsNamed_rowSeries header row

/-! ### The update -/

variable {fields : List Text} {s : FileStream} {strictReadonlyFile : Bool}

theorem rowText_eq_nil_iff_of_nodup {names : List Text} (h : names.Nodup) :
    rowText names = [] ↔ ∀ name ∈ names, name = [] := by
  rw [rowText_eq_nil_iff]
  constructor
  · rintro (rfl | rfl) <;> simp
  · intro hall
    cases names with
    | nil => exact .inl rfl
    | cons name names =>
      obtain rfl := hall name List.mem_cons_self
      have hnil : names = [] := List.eq_nil_iff_forall_not_mem.mpr fun other hother => by
        obtain rfl := hall other (List.mem_cons_of_mem _ hother)
        exact (List.nodup_cons.mp h).1 hother
      exact .inr (by rw [hnil])

/-- The new header has a text exactly if a name has. -/
theorem rowText_newHeader_ne_nil_iff :
    rowText (newHeader fields) ≠ [] ↔ ∃ name ∈ fields, name ≠ [] := by
  rw [ne_eq, rowText_eq_nil_iff_of_nodup (nodup_newHeader fields)]
  simp only [mem_newHeader, not_forall, exists_prop]

/-- Under a new header the lines keep the values exactly if these are right under the columns. -/
theorem keepsColumns_iff (h : Storable header rows) (hw : AllWritten header rows)
    (hfields : ∀ name ∈ fields, Plain name) :
    List.Forall₂
        (fun row series => KeepsNamed header row series
          ∧ ∀ name ∈ additionalFields, name ∉ header → series.value name = [])
        rows (rowsOf (headerText (newHeader fields) ++ linesText rows))
      ↔ KeepsColumns fields header additionalFields rows := by
  have hnames : ∀ name ∈ newHeader fields, Plain name := fun name hname =>
    hfields name (mem_newHeader.mp hname)
  have hrows := fun hnamed => rowsOf_headerText_append hnames hnamed h.values hw.rowText_ne_nil
  constructor
  · intro hkeeps
    have hnamed : rows ≠ [] → rowText (newHeader fields) ≠ [] := by
      -- otherwise the first row is read as the header
      intro hne hnil
      obtain ⟨row, rest, rfl⟩ := List.exists_cons_of_ne_nil hne
      have hfile : headerText (newHeader fields) ++ linesText (row :: rest)
          = linesText (row :: rest) := by simp [headerText, hnil, linesText]
      rw [hfile, rowsOf_cons (h.values row List.mem_cons_self)
        (hw.rowText_ne_nil row List.mem_cons_self)
        (fun r hr => h.values r (List.mem_cons_of_mem _ hr))
        (fun r hr => hw.rowText_ne_nil r (List.mem_cons_of_mem _ hr))] at hkeeps
      have := hkeeps.length_eq
      simp at this
    rw [hrows hnamed, List.forall₂_map_right_iff, List.forall₂_same] at hkeeps
    refine ⟨fun hne => rowText_newHeader_ne_nil_iff.mp (hnamed hne), fun row hrow name hcount => ?_,
      fun row hrow name hname hnot => ?_⟩
    · rw [← value_newHeader]
      exact ((hkeeps row hrow).1 name hcount).symm
    · rw [← value_newHeader]
      exact (hkeeps row hrow).2 name hname hnot
  · rintro ⟨hnamed, hold, hadded⟩
    rw [hrows fun hne => rowText_newHeader_ne_nil_iff.mpr (hnamed hne),
      List.forall₂_map_right_iff, List.forall₂_same]
    refine fun row hrow => ⟨fun name hcount => ?_, fun name hname hnot => ?_⟩
    · rw [value_newHeader, hold row hrow name hcount]
    · rw [value_newHeader, hadded row hrow name hname hnot]

/-- The names that an update reads. -/
def readNames (header : List Text) (failed : Bool) : List Text := if failed then [] else header

/-- What an update leaves: the stream after it has read the names, or a new one on the file with the
    new header over the lines of before. -/
theorem updateHeader_eq (h : Storable header rows) (hw : AllWritten header rows)
    (hplain : ∀ name ∈ additionalFields, Plain name) (hs : s.content = (store header rows).content)
    (hadd : additionalFields ≠ []) :
    updateHeader additionalFields strictReadonlyFile s
      = let names := readNames header s.failbit
        if names = newHeader (names ++ additionalFields) ∨ strictReadonlyFile then (readHeader s).2
        else .opened (headerText (newHeader (names ++ additionalFields)) ++ linesText rows) := by
  obtain ⟨hheader, hbelow⟩ := hw.headerOf_store h
  have hread : (readHeader s).1 = readNames header s.failbit := by
    rw [readHeader_fst, hs, hheader, readNames]
  have hnames : ∀ name ∈ newHeader (readNames header s.failbit ++ additionalFields),
      Plain name := fun name hname => by
    rcases List.mem_append.mp (mem_newHeader.mp hname) with hname | hname
    · unfold readNames at hname
      split at hname
      · cases hname
      · exact h.names name hname
    · exact hplain name hname
  have hlines : FileStream.lineReader.all (FileStream.opened s.content).getline.2
      = rows.map rowText := by
    rw [hs]
    refine (all_lineReader_getline (.opened (store header rows).content)).trans ?_
    rw [FileStream.failbit_opened, if_neg Bool.false_ne_true, FileStream.content_opened, hbelow,
      getlines_linesText h.values]
  have hfold : additionalFields.foldl insertField
      ((readNames header s.failbit).foldl insertField [])
      = newHeader (readNames header s.failbit ++ additionalFields) := List.foldl_append.symm
  simp only [updateHeader, if_neg (show ¬ additionalFields.isEmpty = true by simpa using hadd),
    hread, hfold, content_readHeader, hlines, content_writeTokens_opened hnames]
  split
  · next hsame => rw [if_pos (.inl hsame)]
  · next hsame =>
    split
    · next hstrict => rw [if_pos (.inr hstrict)]
    · next hstrict =>
      rw [if_neg (not_or.mpr ⟨hsame, hstrict⟩)]
      rfl

/-- The rows that are read after an update which leaves the file as it is. -/
theorem readFile_readHeader (s : FileStream) :
    readFile (readHeader s).2 = if s.failbit then [] else rowsOf s.content := by
  rw [readFile_eq, failbit_readHeader, content_readHeader]
  cases s.failbit with
  | true => rfl
  | false => cases s.content <;> simp [rowsOf, headerOf_nil]

theorem keepsColumns_nil : KeepsColumns fields header additionalFields [] :=
  ⟨fun h => absurd rfl h, fun _ hrow => (List.not_mem_nil hrow).elim,
    fun _ hrow => (List.not_mem_nil hrow).elim⟩

/-- The file of before, read on a stream that has not failed. -/
theorem forall₂_rowsOf_store (h : Storable header rows) (hw : AllWritten header rows)
    (additionalFields : List Text) :
    List.Forall₂
      (fun row series => KeepsNamed header row series
        ∧ ∀ name ∈ additionalFields, name ∉ header → series.value name = [])
      rows (rowsOf (store header rows).content) := by
  rw [hw.rowsOf_store h, List.forall₂_map_right_iff, List.forall₂_same]
  exact fun row _ => ⟨keepsNamed_rowSeries header row,
    fun name _ hnot => value_rowSeries_of_notMem hnot row⟩

/-- An update keeps the values exactly if they are right under the columns it writes. -/
theorem survivesUpdate_iff (h : Storable header rows) (hw : AllWritten header rows)
    (hplain : ∀ name ∈ additionalFields, Plain name)
    (hs : s.content = (store header rows).content) :
    SurvivesUpdate header rows additionalFields strictReadonlyFile s
      ↔ UpdateKeepsColumns header rows additionalFields strictReadonlyFile s.failbit := by
  unfold SurvivesUpdate UpdateKeepsColumns
  by_cases hadd : additionalFields = []
  · rw [updateHeader, if_pos (by simp [hadd]), readFile_eq, hs]
    cases s.failbit with
    | true => simp [hadd]
    | false => simpa [hadd] using forall₂_rowsOf_store h hw []
  rw [updateHeader_eq h hw hplain hs hadd]
  cases hfail : s.failbit with
  | true =>
    have hne : ([] : List Text) ≠ newHeader additionalFields := fun heq => by
      obtain ⟨name, hname⟩ := List.exists_mem_of_ne_nil _ hadd
      have := mem_newHeader.mpr hname
      rw [← heq] at this
      cases this
    cases strictReadonlyFile with
    | true =>
      rw [if_pos (.inr rfl), readFile_readHeader, hfail]
      simp
    | false =>
      simp only [readNames, if_true, List.nil_append, hne, Bool.false_eq_true, or_self, if_false,
        readFile_eq, FileStream.failbit_opened, FileStream.content_opened, true_and]
      rw [keepsColumns_iff h hw hplain, and_iff_right hadd, or_iff_right_of_imp]
      rintro rfl
      exact keepsColumns_nil
  | false =>
    have hfields : ∀ name ∈ header ++ additionalFields, Plain name := fun name hname =>
      (List.mem_append.mp hname).elim (h.names name) (hplain name)
    simp only [readNames, Bool.false_eq_true, if_false, hadd, false_or]
    cases strictReadonlyFile with
    | true =>
      rw [if_pos (.inr rfl), readFile_readHeader, hfail, hs]
      simpa using forall₂_rowsOf_store h hw additionalFields
    | false =>
      rw [← keepsColumns_iff h hw hfields]
      by_cases hsame : header = newHeader (header ++ additionalFields)
      · rw [if_pos (.inl hsame), readFile_readHeader, hfail, hs, hw.content_store h, ← hsame]
        simp
      · simp [hsame, readFile_eq]

/-- A header without repeated names keeps its columns. -/
theorem keepsColumns_of_nodup (h : Storable header rows) (hw : AllWritten header rows)
    (hnodup : header.Nodup) :
    KeepsColumns (header ++ additionalFields) header additionalFields rows := by
  refine ⟨fun hne => ?_, fun row hrow name hcount => ?_, fun row hrow name hname hnot => ?_⟩
  · have htext := hw.rowText_header_ne_nil h hne
    rw [ne_eq, rowText_eq_nil_iff_of_nodup hnodup] at htext
    obtain ⟨name, hname, hnil⟩ := by simpa only [not_forall, exists_prop] using htext
    exact ⟨name, List.mem_append_left _ hname, hnil⟩
  · obtain ⟨pre, post, rfl, hpre, -, hidx⟩ := exists_append_of_count_eq_one hcount
    have hmem : name ∈ pre ++ name :: post := List.mem_append_right _ List.mem_cons_self
    rw [columnValue_of_mem (List.mem_append_left _ hmem), List.idxOf_append_of_mem hmem, hidx,
      List.append_assoc, List.take_left,
      List.toFinset_card_of_nodup (List.nodup_append'.mp hnodup).1]
  · rw [columnValue_of_mem (List.mem_append_right _ hname), List.idxOf_append_of_notMem hnot,
      List.take_length_add_append]
    refine List.getD_eq_default _ _ ?_
    rw [h.length row hrow, ← List.toFinset_card_of_nodup hnodup]
    exact Finset.card_le_card fun x hx => by simp_all

/-- What is written is read back under its names, and after an update of the header too, exactly if
    neither the header nor a row is lost and the values are right under the columns that the update
    writes. The update may find the stream on the file in any state. -/
theorem roundTrips_survivesUpdate_iff (h : Storable header rows)
    (hplain : ∀ name ∈ additionalFields, Plain name) (strictReadonlyFile : Bool) (s : FileStream)
    (hs : s.content = (store header rows).content) :
    RoundTrips header rows ∧ SurvivesUpdate header rows additionalFields strictReadonlyFile s
      ↔ AllWritten header rows
        ∧ UpdateKeepsColumns header rows additionalFields strictReadonlyFile s.failbit := by
  constructor
  · rintro ⟨hr, hsurvives⟩
    have hw := hr.allWritten h
    exact ⟨hw, (survivesUpdate_iff h hw hplain hs).mp hsurvives⟩
  · rintro ⟨hw, hcolumns⟩
    exact ⟨hw.roundTrips h, (survivesUpdate_iff h hw hplain hs).mpr hcolumns⟩

/-- A row with an empty last value, and an update through the stream that wrote it. -/
theorem roundTrips_survivesUpdate_columns :
    RoundTrips [['a'], ['b']] [[['1'], []]]
      ∧ SurvivesUpdate [['a'], ['b']] [[['1'], []]] [['c']] false
        (store [['a'], ['b']] [[['1'], []]]) :=
  have h : Storable [['a'], ['b']] [[['1'], []]] := ⟨by decide, by decide, by decide⟩
  have hw : AllWritten [['a'], ['b']] [[['1'], []]] := ⟨by decide, by decide⟩
  (roundTrips_survivesUpdate_iff h (by decide) false _ rfl).mpr
    ⟨hw, .inr (.inr (keepsColumns_of_nodup h hw (by decide)))⟩

/-- The stream that wrote a file after its rows were read up to the end, where a read has failed. -/
def readToEnd (header : List Text) (rows : List (List Text)) : FileStream :=
  (fun s => (readln s).2)^[rows.length + 1] (jumpToBeginning (store header rows))

/-- The row of one empty value is lost. Behind a repeated name a value is read under the next name.
    After the row was read to the end of the file, an update loses the name. -/
theorem not_roundTrips_survivesUpdate :
    (Storable [['a']] [[[]]] ∧ ¬ RoundTrips [['a']] [[[]]])
      ∧ (Storable [['a'], ['a'], ['b']] [[['1'], ['2'], ['3']]]
        ∧ ¬ SurvivesUpdate [['a'], ['a'], ['b']] [[['1'], ['2'], ['3']]] [['c']] false
          (store [['a'], ['a'], ['b']] [[['1'], ['2'], ['3']]]))
      ∧ Storable [['a']] [[['1']]]
      ∧ ¬ SurvivesUpdate [['a']] [[['1']]] [['b']] false (readToEnd [['a']] [[['1']]]) := by
  have hempty : Storable [['a']] [[[]]] := ⟨by decide, by decide, by decide⟩
  have hrepeated : Storable [['a'], ['a'], ['b']] [[['1'], ['2'], ['3']]] :=
    ⟨by decide, by decide, by decide⟩
  have hread : Storable [['a']] [[['1']]] := ⟨by decide, by decide, by decide⟩
  refine ⟨⟨hempty, fun hr => ?_⟩, ⟨hrepeated, fun hs => ?_⟩, hread, fun hs => ?_⟩
  · exact ((hr.allWritten hempty).2 [[]] List.mem_cons_self).2 rfl
  · have hcolumns := (survivesUpdate_iff hrepeated ⟨by decide, by decide⟩ (by decide) rfl).mp hs
    obtain hcolumns := (hcolumns.resolve_left Bool.false_ne_true).resolve_left (by decide)
    exact absurd (hcolumns.old _ List.mem_cons_self ['b'] (by decide)) (by decide)
  · have hcolumns := (survivesUpdate_iff hread ⟨by decide, by decide⟩ (by decide)
      (by decide)).mp hs
    rw [UpdateKeepsColumns, if_pos (by decide)] at hcolumns
    obtain ⟨-, -, hcolumns⟩ := hcolumns.resolve_left (by decide)
    exact absurd (hcolumns.old _ List.mem_cons_self ['a'] (by decide)) (by decide)

end Serializer

end Vpunn
