import Mathlib.Data.List.AList
import Mathlib.Data.List.DropRight
import Vpunn.Lib.Lines

/-! The comma separated files of the serializer. The writer puts a comma after each token and takes
    the last one away again; a row whose text is then empty is not written at all. The reader splits
    a line at the commas and adds an empty token for a trailing one, so it inverts the writer on
    every row that has a text. A file is the list of its characters. A stream on it has one
    position, what remains to be read, and remembers that a read has failed: from then on it gives
    no line, and it does not go back to the beginning, until something is written to it. -/

namespace Vpunn

open Lines

/-- The characters of a string or a file. -/
abbrev Text := List Char

/-- `std::fstream` on a file that is open for reading and writing. -/
structure FileStream where
  content : Text
  rest : Text
  eofbit : Bool := false
  failbit : Bool := false
  deriving DecidableEq

namespace FileStream

def opened (content : Text) : FileStream := { content, rest := content }

/-- `seekg(0, beg)`. The eofbit is cleared, but a stream that has failed stays where it is. -/
def seekBeg (s : FileStream) : FileStream :=
  { s with eofbit := false, rest := if s.failbit then s.rest else s.content }

/-- `std::getline` into an empty string. A last line without a newline sets the eofbit. -/
def getline (s : FileStream) : Text × FileStream :=
  if s.eofbit || s.failbit then ([], { s with failbit := true })
  else
    match Lines.getline '\n' s.rest with
    | none => ([], { s with eofbit := true, failbit := true })
    | some (line, rest) => (line, { s with rest := rest, eofbit := decide ('\n' ∉ s.rest) })

/-- `std::getline` as a condition. -/
def readLine (s : FileStream) : Option Text × FileStream :=
  let (line, s') := s.getline
  (if s'.failbit then none else some line, s')

theorem readLine_eq (s : FileStream) :
    s.readLine = if s.eofbit || s.failbit then (none, { s with failbit := true })
      else match Lines.getline '\n' s.rest with
        | none => (none, { s with eofbit := true, failbit := true })
        | some (line, rest) =>
          (some line, { s with rest := rest, eofbit := decide ('\n' ∉ s.rest) }) := by
  unfold readLine getline
  by_cases h : (s.eofbit || s.failbit) = true
  · simp [h]
  · have hfail : s.failbit = false := by
      rw [Bool.or_eq_true, not_or, Bool.not_eq_true, Bool.not_eq_true] at h
      exact h.2
    rw [if_neg h, if_neg h]
    cases Lines.getline '\n' s.rest <;> simp [hfail]

theorem size_lt_of_readLine {s s' : FileStream} {line : Text}
    (h : s.readLine = (some line, s')) : s'.rest.length < s.rest.length := by
  rw [readLine_eq] at h
  split at h
  · simp at h
  · split at h
    · simp at h
    · next hline =>
      cases h
      exact length_of_getline hline

def lineReader : Reader FileStream Text where
  read := readLine
  size s := s.rest.length
  size_lt := size_lt_of_readLine

end FileStream

namespace FileHandler

/-- `write` of a string, at the end of the file, where it leaves the stream. The flags are
    cleared. -/
def write (data : Text) (endline : Bool) (s : FileStream) : FileStream :=
  { content := s.content ++ data ++ if endline then ['\n'] else [], rest := [] }

/-- `write` of a list of strings. -/
def writeTokens (data : List Text) (endline : Bool) (s : FileStream) : FileStream :=
  let oss := data.flatMap fun item => item.map (fun c => if c = ',' then '.' else c) ++ [',']
  -- the trailing comma, when there is one
  let datastr := if endline then oss.dropLast else oss
  if datastr.isEmpty then s else write datastr endline s

def isBlank (c : Char) : Bool :=
  c = ' ' || c = '\t' || c = '\r' || c = '\n'

def trim (s : Text) : Text :=
  (s.rdropWhile isBlank).dropWhile isBlank

def splitCsvLine (line : Text) : List Text :=
  (getlines ',' line).map trim ++ if line.getLast? = some ',' then [[]] else []

def readHeader (s : FileStream) : List Text × FileStream :=
  let (headerLine, s) := s.seekBeg.getline
  (splitCsvLine headerLine, s)

/-- `readln` without an index: none when it returns false. -/
def readln (s : FileStream) : Option (List Text) × FileStream :=
  let (line, s) := s.readLine
  (line.map splitCsvLine, s)

def jumpToBeginning (s : FileStream) : FileStream := s.seekBeg.getline.2

/-- One field of `update_header`. The set of the fields seen so far has the members of the new
    header. -/
def insertField (newHeader : List Text) (field : Text) : List Text :=
  if field ∈ newHeader then newHeader else newHeader ++ [field]

/-- `update_header` of a file that is open for reading and writing. -/
def updateHeader (additionalFields : List Text) (strictReadonlyFile : Bool) (s : FileStream) :
    FileStream :=
  if additionalFields.isEmpty then s
  else
    let (existingHeader, s) := readHeader s
    let newHeader := additionalFields.foldl insertField (existingHeader.foldl insertField [])
    if existingHeader = newHeader then s
    else if strictReadonlyFile then s
    else
      let inputFile := (FileStream.opened s.content).getline.2
      let remainingData := (FileStream.lineReader.all inputFile).flatMap (· ++ ['\n'])
      .opened ((writeTokens newHeader true (.opened [])).content ++ remainingData)

end FileHandler

open FileHandler

namespace Serializer

/-- `Series`: a value for each of some names. -/
abbrev Series := Text → Option Text

/-- `create_index_map`: a repeated key keeps its last position. -/
def createIndexMap (headerKeys : List Text) : AList fun _ : Text => ℕ :=
  headerKeys.zipIdx.foldl (fun indexMap key => indexMap.insert key.1 key.2) ∅

/-- The loop of `read_row` over the index map. -/
def fillRow (indexMap : AList fun _ : Text => ℕ) (filter : List Text) (readTokens : List Text)
    (row : Series) : Series := fun key =>
  if key ∈ filter then row key
  else ((indexMap.lookup key).map fun idx => readTokens.getD idx []).or (row key)

/-- `read_row`: none when it returns false. -/
def readRow (indexMap : AList fun _ : Text => ℕ) (filter : List Text) (row : Series)
    (s : FileStream) : Option Series × FileStream :=
  if indexMap.entries.isEmpty then (none, s)
  else
    let (readTokens, s) := readln s
    (readTokens.map fun tokens => fillRow indexMap filter tokens row, s)

end Serializer

/-! ### One row -/

namespace FileHandler

/-- A name or a value that the file can carry. -/
structure Plain (s : Text) : Prop where
  comma : ',' ∉ s
  newline : '\n' ∉ s
  head : s.head?.all (!isBlank ·)
  last : s.getLast?.all (!isBlank ·)

instance (s : Text) : Decidable (Plain s) :=
  decidable_of_iff (',' ∉ s ∧ '\n' ∉ s ∧ s.head?.all (!isBlank ·) ∧ s.getLast?.all (!isBlank ·))
    ⟨fun ⟨a, b, c, d⟩ => ⟨a, b, c, d⟩, fun ⟨a, b, c, d⟩ => ⟨a, b, c, d⟩⟩

variable {tokens : List Text}

theorem Plain.trim_eq {s : Text} (h : Plain s) : trim s = s := by
  have hlast : s.rdropWhile isBlank = s := by
    refine List.rdropWhile_eq_self_iff.mpr fun hne => ?_
    simpa [List.getLast?_eq_some_getLast hne] using h.last
  rw [trim, hlast, List.dropWhile_eq_self_iff]
  intro hpos
  simpa [List.head?_eq_getElem?, List.getElem?_eq_getElem hpos] using h.head

theorem Plain.map_replace {s : Text} (h : Plain s) :
    s.map (fun c => if c = ',' then '.' else c) = s := by
  conv_rhs => rw [← List.map_id s]
  exact List.map_congr_left fun c hc => if_neg (ne_of_mem_of_not_mem hc h.comma)

/-- The text of a row: its tokens separated by commas. -/
def rowText (tokens : List Text) : Text := (tokens.flatMap (· ++ [','])).dropLast

theorem rowText_append_singleton (tokens : List Text) (last : Text) :
    rowText (tokens ++ [last]) = tokens.flatMap (· ++ [',']) ++ last := by
  rw [rowText, List.flatMap_append, List.flatMap_singleton, ← List.append_assoc,
    List.dropLast_concat]

theorem rowText_eq_nil_iff : rowText tokens = [] ↔ tokens = [] ∨ tokens = [[]] := by
  rcases List.eq_nil_or_concat tokens with rfl | ⟨front, last, rfl⟩
  · simp [rowText]
  · rw [List.concat_eq_append, rowText_append_singleton]
    cases front <;> simp

theorem newline_notMem_rowText (h : ∀ t ∈ tokens, Plain t) : '\n' ∉ rowText tokens := by
  intro hmem
  obtain ⟨t, ht, hc⟩ := List.mem_flatMap.mp (List.dropLast_subset _ hmem)
  rcases List.mem_append.mp hc with hc | hc
  · exact (h t ht).newline hc
  · exact absurd hc (by decide)

theorem content_writeTokens (h : ∀ t ∈ tokens, Plain t) (s : FileStream) :
    (writeTokens tokens true s).content
      = if rowText tokens = [] then s.content else s.content ++ (rowText tokens ++ ['\n']) := by
  have hoss : (tokens.flatMap fun item => item.map (fun c => if c = ',' then '.' else c) ++ [','])
      = tokens.flatMap (· ++ [',']) :=
    List.flatMap_congr fun t ht => by rw [(h t ht).map_replace]
  rw [writeTokens, hoss, if_pos rfl, ← rowText]
  by_cases hnil : rowText tokens = [] <;> simp [write, hnil]

/-- The reader inverts the writer on every row that has a text. -/
theorem splitCsvLine_rowText (h : ∀ t ∈ tokens, Plain t) (hne : rowText tokens ≠ []) :
    splitCsvLine (rowText tokens) = tokens := by
  rcases List.eq_nil_or_concat tokens with rfl | ⟨front, last, rfl⟩
  · exact absurd rfl hne
  rw [List.concat_eq_append] at *
  have hplain : ∀ t ∈ front, Plain t := fun t ht => h t (List.mem_append_left _ ht)
  have hlast : Plain last := h last (List.mem_append_right _ List.mem_cons_self)
  have htrim : front.map trim = front := by
    conv_rhs => rw [← List.map_id front]
    exact List.map_congr_left fun t ht => (hplain t ht).trim_eq
  rw [rowText_append_singleton] at *
  rw [splitCsvLine, getlines_terminated (fun t ht => (hplain t ht).comma),
    getlines_of_notMem hlast.comma, List.map_append, htrim, List.append_assoc]
  congr 1
  by_cases hnil : last = []
  · -- an empty last token is read from the trailing comma
    subst hnil
    rcases List.eq_nil_or_concat front with rfl | ⟨front', t, rfl⟩
    · exact absurd rfl hne
    · simp [List.concat_eq_append]
  · obtain ⟨front', c, rfl⟩ := (List.eq_nil_or_concat last).resolve_left hnil
    have hc : c ≠ ',' := fun heq => hlast.comma (by simp [heq])
    have htrimLast := hlast.trim_eq
    rw [List.concat_eq_append] at htrimLast ⊢
    simp [htrimLast, hc]

end FileHandler

/-! ### The stream -/

namespace FileStream

variable {s : FileStream}

@[simp] theorem content_opened (content : Text) : (opened content).content = content := rfl
@[simp] theorem failbit_opened (content : Text) : (opened content).failbit = false := rfl
@[simp] theorem content_seekBeg : s.seekBeg.content = s.content := rfl
@[simp] theorem failbit_seekBeg : s.seekBeg.failbit = s.failbit := rfl

@[simp] theorem content_getline : s.getline.2.content = s.content := by
  unfold getline
  split
  · rfl
  · split <;> rfl

/-- A stream that has failed gives no line and stays as it is. -/
theorem getline_of_failbit (h : s.failbit = true) : s.getline = ([], s) := by
  simp [getline, ← h]

theorem getline_seekBeg_of_failbit (h : s.failbit = true) : s.seekBeg.getline = ([], s.seekBeg) :=
  getline_of_failbit h

/-- At its beginning a stream gives the first line, and fails when the file is empty. -/
theorem getline_seekBeg (h : s.failbit = false) :
    s.seekBeg.getline = match Lines.getline '\n' s.content with
      | none => ([], { s with rest := s.content, eofbit := true, failbit := true })
      | some (line, rest) =>
        (line, { s with rest := rest, eofbit := decide ('\n' ∉ s.content) }) := by
  simp only [getline, seekBeg, h, Bool.false_eq_true, if_false, Bool.or_self]

/-- The lines that a stream has before it. At the end of the file there is none, with or without
    the eofbit. -/
theorem all_lineReader (hend : s.eofbit = true → s.rest = []) :
    lineReader.all s = if s.failbit then [] else getlines '\n' s.rest := by
  fun_induction Reader.all lineReader s with
  | case1 s s' h =>
    split
    · rfl
    · next hfail =>
      have hnone : Lines.getline '\n' s.rest = none := by
        by_contra hsome
        obtain ⟨line, hline⟩ := Option.ne_none_iff_exists'.mp hsome
        have heof : s.eofbit = false := Bool.eq_false_iff.mpr fun heof => by
          rw [hend heof] at hline
          cases hline
        have := h.symm.trans (readLine_eq s)
        simp [heof, hfail, hline] at this
      exact (getlines_of_getline_none hnone).symm
  | case2 s line s' h _ ih =>
    have hread := h.symm.trans (readLine_eq s)
    split at hread
    · simp at hread
    · next hgood =>
      split at hread
      · simp at hread
      · next l rest hline =>
        cases hread
        have hfail : s.failbit = false := by simp_all
        rw [ih fun hno => rest_eq_nil_of_notMem (of_decide_eq_true hno) hline,
          if_neg (by simp [hfail]), if_neg (by simp [hfail]), getlines_of_getline_some hline]

end FileStream

namespace FileHandler

variable {s : FileStream}

/-- The names in the first line of a file. -/
def headerOf (content : Text) : List Text :=
  splitCsvLine (((getline '\n' content).map Prod.fst).getD [])

/-- What follows the first line of a file. -/
def belowHeader (content : Text) : Text := ((getline '\n' content).map Prod.snd).getD []

@[simp] theorem splitCsvLine_nil : splitCsvLine [] = [] := by simp [splitCsvLine]

/-- A stream that has failed reads no names, whatever the file holds. -/
theorem readHeader_fst (s : FileStream) :
    (readHeader s).1 = if s.failbit then [] else headerOf s.content := by
  cases hfail : s.failbit with
  | true => rw [readHeader, FileStream.getline_seekBeg_of_failbit hfail]; simp
  | false =>
    rw [readHeader, FileStream.getline_seekBeg hfail, headerOf]
    cases getline '\n' s.content <;> simp

@[simp] theorem content_readHeader : (readHeader s).2.content = s.content :=
  FileStream.content_getline

/-- It fails on an empty file. -/
theorem failbit_readHeader (s : FileStream) :
    (readHeader s).2.failbit = (s.failbit || s.content.isEmpty) := by
  cases hfail : s.failbit with
  | true => rw [readHeader, FileStream.getline_seekBeg_of_failbit hfail]; simpa using hfail
  | false =>
    rw [readHeader, FileStream.getline_seekBeg hfail]
    cases s.content <;> simp [getline, hfail]

def rowReader : Reader FileStream (List Text) where
  read := readln
  size s := s.rest.length
  size_lt := (FileStream.lineReader.map splitCsvLine).size_lt

theorem rowReader_eq_map : rowReader = FileStream.lineReader.map splitCsvLine := rfl

/-- `while (readln(tokens))` -/
def readLines (s : FileStream) : List (List Text) := rowReader.all s

/-- After the first line the others are read, unless the stream has failed. -/
theorem all_lineReader_getline (s : FileStream) :
    FileStream.lineReader.all s.seekBeg.getline.2 = if s.failbit then []
      else getlines '\n' (belowHeader s.content) := by
  cases hfail : s.failbit with
  | true =>
    rw [FileStream.getline_seekBeg_of_failbit hfail,
      FileStream.all_lineReader (fun h => absurd h Bool.false_ne_true)]
    simp [hfail]
  | false =>
    rw [FileStream.getline_seekBeg hfail, belowHeader]
    cases hline : getline '\n' s.content with
    | none =>
      rw [FileStream.all_lineReader fun _ => getline_eq_none_iff.mp hline]
      simp
    | some line =>
      rw [FileStream.all_lineReader fun hno =>
        rest_eq_nil_of_notMem (of_decide_eq_true hno) hline]
      simp [hfail]

/-- After a jump to the beginning the rows below the header are read. -/
theorem readLines_jumpToBeginning (s : FileStream) :
    readLines (jumpToBeginning s) = if s.failbit then []
      else (getlines '\n' (belowHeader s.content)).map splitCsvLine := by
  rw [readLines, rowReader_eq_map, Reader.all_map, jumpToBeginning, all_lineReader_getline]
  split <;> rfl

/-- The lines of rows that have a text. -/
def linesText (rows : List (List Text)) : Text := (rows.map rowText).flatMap (· ++ ['\n'])

variable {row : List Text} {rows : List (List Text)}

theorem headerOf_append (h : ∀ t ∈ row, Plain t) (hne : rowText row ≠ []) (rest : Text) :
    headerOf (rowText row ++ '\n' :: rest) = row := by
  rw [headerOf, getline_append (newline_notMem_rowText h)]
  exact splitCsvLine_rowText h hne

theorem belowHeader_append (h : ∀ t ∈ row, Plain t) (rest : Text) :
    belowHeader (rowText row ++ '\n' :: rest) = rest := by
  rw [belowHeader, getline_append (newline_notMem_rowText h)]
  rfl

theorem getlines_linesText (h : ∀ r ∈ rows, ∀ t ∈ r, Plain t) :
    getlines '\n' (linesText rows) = rows.map rowText := by
  have hlines : ∀ line ∈ rows.map rowText, '\n' ∉ line := by
    intro line hline
    obtain ⟨r, hr, rfl⟩ := List.mem_map.mp hline
    exact newline_notMem_rowText (h r hr)
  simpa [linesText] using getlines_terminated hlines []

theorem splitCsvLine_linesText (h : ∀ r ∈ rows, ∀ t ∈ r, Plain t)
    (hne : ∀ r ∈ rows, rowText r ≠ []) :
    (getlines '\n' (linesText rows)).map splitCsvLine = rows := by
  rw [getlines_linesText h, List.map_map]
  conv_rhs => rw [← List.map_id rows]
  exact List.map_congr_left fun r hr => splitCsvLine_rowText (h r hr) (hne r hr)

end FileHandler

namespace Serializer

theorem size_lt_of_readRow {indexMap : AList fun _ : Text => ℕ} {filter : List Text}
    {row row' : Series} {s s' : FileStream} (h : readRow indexMap filter row s = (some row', s')) :
    s'.rest.length < s.rest.length := by
  unfold readRow at h
  split at h
  · cases h
  · obtain ⟨tokens, htokens, -⟩ := Option.map_eq_some_iff.mp (Prod.mk.inj h).1
    exact rowReader.size_lt (Prod.ext htokens (Prod.mk.inj h).2)

/-- `read_row` into a new row. -/
def seriesReader (indexMap : AList fun _ : Text => ℕ) : Reader FileStream Series where
  read := readRow indexMap [] fun _ => none
  size s := s.rest.length
  size_lt := size_lt_of_readRow

/-- `while (read_row(row))` into a new row each time. -/
def readRows (indexMap : AList fun _ : Text => ℕ) (s : FileStream) : List Series :=
  (seriesReader indexMap).all s

theorem readRows_eq (indexMap : AList fun _ : Text => ℕ) (s : FileStream) :
    readRows indexMap s
      = if indexMap.entries.isEmpty then []
        else (readLines s).map fun tokens => fillRow indexMap [] tokens fun _ => none := by
  split
  · next hempty => exact Reader.all_of_none (by simp [seriesReader, readRow, hempty])
  · next hempty =>
    have hreader : seriesReader indexMap
        = rowReader.map fun tokens => fillRow indexMap [] tokens fun _ => none := by
      simp only [seriesReader, Reader.map, Reader.mk.injEq]
      refine ⟨funext fun s => ?_, rfl⟩
      rw [readRow, if_neg hempty]
      rfl
    rw [readRows, hreader, Reader.all_map, readLines]

end Serializer

end Vpunn
