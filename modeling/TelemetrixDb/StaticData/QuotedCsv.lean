import TelemetrixDb.StaticData.RowLocality
import Mathlib.Data.List.MinMax

/-!
# Tables written as quoted CSV

A field is written as it is or between quotes with its own quotes doubled. The
loader splits at every comma and takes one pair of quotes off, so it reads back a
table exactly when no id has a comma or a quote and the name of the last row of
each id survives that.

-/

namespace TelemetrixDb.StaticData
open Ingestion Engine

/-- A field of a row, and whether it is written between quotes. -/
structure Field where
  text : Bytes
  quoted : Bool
  oneLine : newline ∉ text
  plain : quoted = false → comma ∉ text ∧ quote ∉ text

/-- Each quote twice. -/
def doubled (text : Bytes) : Bytes := text.flatMap fun c => if c = quote then [c, c] else [c]

def Field.encode (field : Field) : Bytes :=
  if field.quoted then quote :: (doubled field.text ++ [quote]) else field.text

/-- A row with more than `n` fields. -/
structure Row (n : Nat) where
  fields : List Field
  long : n < fields.length

namespace Row

variable {n : Nat}

def id (row : Row n) : Bytes := (row.fields.get ⟨0, Nat.zero_lt_of_lt row.long⟩).text

def name (row : Row n) : Bytes := (row.fields.get ⟨n, row.long⟩).text

/-- The row as a line of the file. -/
def line (row : Row n) : Bytes := [comma].intercalate (row.fields.map Field.encode)

/-- The name of the last row with an id. -/
def decoded (rows : List (Row n)) (id : Bytes) : Option Bytes :=
  (rows.reverse.find? fun row => row.id = id).map Row.name

theorem decoded_last {before after : List (Row n)} {row : Row n}
    (last : ∀ later ∈ after, later.id ≠ row.id) :
    decoded (before ++ row :: after) row.id = some row.name := by
  have skip : after.reverse.find? (fun later => later.id = row.id) = none := by
    simpa using last
  simp [decoded, List.find?_append, skip]

theorem decoded_ne_none_iff {rows : List (Row n)} {id : Bytes} :
    decoded rows id ≠ none ↔ ∃ row ∈ rows, row.id = id := by
  simp [decoded]

end Row

section Doubling

variable {text : Bytes}

theorem comma_mem_doubled : comma ∈ doubled text ↔ comma ∈ text := by
  have differs : comma ≠ quote := by decide
  simp only [doubled, List.mem_flatMap]
  constructor
  · rintro ⟨c, mem, inside⟩
    split at inside <;> simp_all
  · intro mem
    exact ⟨comma, mem, by simp [differs]⟩

theorem count_quote_doubled : (doubled text).count quote = 2 * text.count quote := by
  induction text with
  | nil => rfl
  | cons c text ih =>
      have split : doubled (c :: text) = (if c = quote then [c, c] else [c]) ++ doubled text := rfl
      rw [split, List.count_append, ih, List.count_cons]
      by_cases hc : c = quote
      · simp [hc]
        omega
      · simp [hc]

theorem doubled_of_plain (plain : quote ∉ text) : doubled text = text := by
  induction text with
  | nil => rfl
  | cons c text ih =>
      rw [List.mem_cons, not_or] at plain
      have split : doubled (c :: text) = (if c = quote then [c, c] else [c]) ++ doubled text := rfl
      rw [split, ih plain.2, if_neg (Ne.symm plain.1)]
      rfl

theorem doubled_eq_iff : doubled text = text ↔ quote ∉ text := by
  refine ⟨fun same mem => ?_, doubled_of_plain⟩
  have some_ : 0 < text.count quote := List.count_pos_iff.mpr mem
  have twice : (doubled text).count quote = 2 * text.count quote := count_quote_doubled
  rw [same] at twice
  omega

end Doubling

section Stripping

variable {str text : Bytes}

theorem stripQuotes_enclosed (text : Bytes) : stripQuotes (quote :: (text ++ [quote])) = text := by
  have enclosed : Enclosed (quote :: (text ++ [quote])) := by
    refine ⟨by simp, rfl, ?_⟩
    rw [← List.cons_append, List.getLast?_concat]
  rw [stripQuotes, if_pos enclosed]
  simp

/-- A text enclosed in quotes. -/
theorem Enclosed.eq (h : Enclosed str) : ∃ text, str = quote :: (text ++ [quote]) := by
  obtain ⟨two, first, last⟩ := h
  cases str with
  | nil => simp at two
  | cons c rest =>
      obtain rfl : c = quote := by simpa using first
      rcases List.eq_nil_or_concat rest with rfl | ⟨text, d, rfl⟩
      · simp at two
      · obtain rfl : d = quote := by
          rw [List.concat_eq_append, ← List.cons_append, List.getLast?_concat] at last
          exact Option.some.inj last
        exact ⟨text, by simp⟩

theorem stripQuotes_eq_iff : stripQuotes str = text ↔
    str = quote :: (text ++ [quote]) ∨ (str = text ∧ ¬ Enclosed str) := by
  constructor
  · rintro rfl
    by_cases h : Enclosed str
    · obtain ⟨inner, rfl⟩ := h.eq
      exact Or.inl (by rw [stripQuotes_enclosed])
    · exact Or.inr ⟨(if_neg h).symm, h⟩
  · rintro (rfl | ⟨rfl, h⟩)
    · exact stripQuotes_enclosed text
    · exact if_neg h

theorem mem_of_mem_stripQuotes {c : UInt8} (h : c ∈ stripQuotes str) : c ∈ str := by
  unfold stripQuotes at h
  split at h
  · exact List.mem_of_mem_drop (List.mem_of_mem_take h)
  · exact h

end Stripping

namespace Field

variable {field : Field}

theorem comma_mem_encode : comma ∈ field.encode ↔ comma ∈ field.text := by
  have differs : comma ≠ quote := by decide
  unfold encode
  split
  · simp [differs, comma_mem_doubled]
  · rfl

/-- What the loader makes of a field that it does not split. -/
theorem stripQuotes_encode : stripQuotes field.encode = doubled field.text := by
  unfold encode
  cases h : field.quoted with
  | true => exact stripQuotes_enclosed _
  | false =>
      have plain := (field.plain h).2
      have bare : ¬ Enclosed field.text := fun enclosed => by
        obtain ⟨text, split⟩ := enclosed.eq
        rw [split] at plain
        exact plain List.mem_cons_self
      rw [if_neg (by simp), stripQuotes, if_neg bare, doubled_of_plain plain]

end Field

section Pieces

variable {piece : Bytes} {pieces before after : List Bytes}

/-- Parts without a comma are pieces of the whole. -/
theorem splitOn_intercalate_append (plain : ∀ piece ∈ before, comma ∉ piece) :
    ([comma].intercalate (before ++ piece :: after)).splitOn comma =
      before ++ ([comma].intercalate (piece :: after)).splitOn comma := by
  induction before with
  | nil => rfl
  | cons first before ih =>
      rw [List.forall_mem_cons] at plain
      have split : [comma].intercalate (first :: before ++ piece :: after) =
          first ++ comma :: [comma].intercalate (before ++ piece :: after) := by
        cases before <;> simp [List.intercalate_cons_cons]
      rw [split, List.splitOn_append_cons_self_of_not_mem plain.1, ih plain.2, List.cons_append]

theorem head?_splitOn_intercalate (plain : comma ∉ piece) :
    (([comma].intercalate (piece :: after)).splitOn comma).head? = some piece := by
  cases after with
  | nil => simp [List.splitOn_eq_singleton plain]
  | cons next after =>
      rw [List.intercalate_cons_cons, List.append_assoc, List.singleton_append,
        List.splitOn_append_cons_self_of_not_mem plain, List.head?_cons]

theorem length_le_count_intercalate :
    pieces.length ≤ ([comma].intercalate pieces).count comma + 1 := by
  induction pieces with
  | nil => exact Nat.zero_le _
  | cons piece pieces ih =>
      cases pieces with
      | nil => simp
      | cons next pieces =>
          rw [List.intercalate_cons_cons, List.count_append, List.count_append]
          simp only [List.length_cons, List.count_singleton_self] at ih ⊢
          omega

theorem comma_notMem_of_mem_splitOn {line : Bytes} (h : piece ∈ line.splitOn comma) :
    comma ∉ piece := by
  induction line generalizing piece with
  | nil => simp_all
  | cons c line ih =>
      rw [List.splitOn_cons_eq_if_modifyHead] at h
      split at h
      · rcases List.mem_cons.mp h with rfl | h
        · simp
        · exact ih h
      · next hc =>
          cases split : line.splitOn comma with
          | nil => exact absurd split (List.splitOn_ne_nil comma line)
          | cons first rest =>
              rw [split] at h
              rcases List.mem_cons.mp h with rfl | h
              · have inFirst := ih (split ▸ List.mem_cons_self)
                rw [List.mem_cons, not_or]
                exact ⟨fun same => hc (by simp [same]), inFirst⟩
              · exact ih (split ▸ List.mem_cons_of_mem first h)

theorem comma_notMem_lineId (line : Bytes) : comma ∉ lineId line := by
  intro mem
  cases split : line.splitOn comma with
  | nil => exact List.splitOn_ne_nil comma line split
  | cons first rest =>
      rw [lineId, split] at mem
      exact comma_notMem_of_mem_splitOn (split ▸ List.mem_cons_self) (mem_of_mem_stripQuotes mem)

end Pieces

namespace Row

variable {n : Nat} {row : Row n}

theorem line_oneLine (row : Row n) : newline ∉ row.line := by
  have fields : ∀ piece ∈ row.fields.map Field.encode, newline ∉ piece := by
    have differs : newline ≠ quote := by decide
    intro piece mem
    obtain ⟨field, -, rfl⟩ := List.mem_map.mp mem
    have oneLine := field.oneLine
    unfold Field.encode doubled
    split
    · simp only [List.mem_cons, List.mem_append, List.mem_flatMap, not_or, differs]
      refine ⟨not_false, ?_, by simp⟩
      rintro ⟨c, inText, same⟩
      split at same <;> simp_all
    · exact oneLine
  unfold line
  generalize row.fields.map Field.encode = pieces at fields
  induction pieces with
  | nil => simp
  | cons piece pieces ih =>
      have differs : newline ≠ comma := by decide
      rw [List.forall_mem_cons] at fields
      cases pieces with
      | nil => simpa using fields.1
      | cons next pieces =>
          rw [List.intercalate_cons_cons]
          simp only [List.mem_append, List.mem_singleton, differs, fields.1, false_or]
          exact ih fields.2

/-- A line has a field at the name's place. -/
theorem long_line (row : Row n) : n ≤ row.line.count comma := by
  have fields : (row.fields.map Field.encode).length ≤ _ := length_le_count_intercalate
  have long := row.long
  rw [List.length_map] at fields
  unfold line
  omega

/-- The field at a place after fields without a comma starts a piece. -/
theorem splitOn_line {i : Nat} (hi : i < row.fields.length)
    (plain : ∀ field ∈ row.fields.take i, comma ∉ field.text) :
    row.line.splitOn comma = (row.fields.take i).map Field.encode ++
      ([comma].intercalate ((row.fields[i] :: row.fields.drop (i + 1)).map Field.encode)).splitOn
        comma := by
  have split : row.fields = row.fields.take i ++ row.fields[i] :: row.fields.drop (i + 1) := by
    rw [List.getElem_cons_drop, List.take_append_drop]
  have encoded : ∀ piece ∈ (row.fields.take i).map Field.encode, comma ∉ piece := by
    intro piece mem
    obtain ⟨field, inside, rfl⟩ := List.mem_map.mp mem
    exact fun h => plain field inside (Field.comma_mem_encode.mp h)
  rw [line]
  conv_lhs => rw [split, List.map_append, List.map_cons]
  rw [splitOn_intercalate_append encoded, List.map_cons]

/-- A field without a comma, after fields without one, is read whole. -/
theorem piece_line {i : Nat} (hi : i < row.fields.length)
    (plain : ∀ field ∈ row.fields.take i, comma ∉ field.text) (whole : comma ∉ row.fields[i].text)
    (str : Bytes) : (row.line.splitOn comma).getD i str = row.fields[i].encode := by
  have encoded : comma ∉ row.fields[i].encode := fun h => whole (Field.comma_mem_encode.mp h)
  have place : ((row.fields.take i).map Field.encode).length = i := by
    rw [List.length_map, List.length_take]
    omega
  rw [splitOn_line hi plain, List.getD_eq_getElem?_getD,
    List.getElem?_append_right (by omega), place, Nat.sub_self, ← List.head?_eq_getElem?,
    List.map_cons, head?_splitOn_intercalate encoded, Option.getD_some]

/-- The id that the loader reads. -/
theorem lineId_line (h : comma ∉ row.id) : lineId row.line = doubled row.id := by
  have some_ : 0 < row.fields.length := Nat.zero_lt_of_lt row.long
  have first : (row.line.splitOn comma).getD 0 [] = row.fields[0].encode :=
    piece_line some_ (by simp) h []
  rw [lineId, List.headD_eq_head?_getD, List.head?_eq_getElem?, ← List.getD_eq_getElem?_getD, first]
  exact Field.stripQuotes_encode

/-- The name survives: it is read whole and has no quote; or, where a field before
it has a comma, what stands at its place happens to read as the name. -/
def NameReads (row : Row n) : Prop :=
  if ∀ field ∈ row.fields.take n, comma ∉ field.text then comma ∉ row.name ∧ quote ∉ row.name
  else (row.line.splitOn comma)[n]? = some (quote :: (row.name ++ [quote])) ∨
    ((row.line.splitOn comma)[n]? = some row.name ∧ ¬ Enclosed row.name)

theorem lineName_line_iff {table : Table} {row : Row (nameColumn table)} (stale : Bytes) :
    lineName table stale row.line = row.name ↔ row.NameReads := by
  have inside : nameColumn table < (row.line.splitOn comma).length := by
    have long := row.long_line
    rw [length_splitOn]
    omega
  unfold NameReads
  split
  · next plain =>
      by_cases whole : comma ∈ row.name
      · have apart : comma ∉ lineName table stale row.line := by
          intro mem
          rw [lineName, List.getD_eq_getElem _ _ inside] at mem
          exact comma_notMem_of_mem_splitOn (List.getElem_mem inside) (mem_of_mem_stripQuotes mem)
        constructor
        · intro same
          exact absurd whole (same ▸ apart)
        · exact fun h => absurd whole h.1
      · have read : lineName table stale row.line = doubled row.name := by
          rw [lineName, piece_line row.long plain whole]
          exact Field.stripQuotes_encode
        rw [read, doubled_eq_iff]
        exact ⟨fun h => ⟨whole, h⟩, fun h => h.2⟩
  · rw [lineName, List.getD_eq_getElem _ _ inside, stripQuotes_eq_iff,
      List.getElem?_eq_getElem inside, Option.some_inj, Option.some_inj]
    constructor
    · rintro (h | ⟨h, bare⟩)
      · exact Or.inl h
      · exact Or.inr ⟨h, h ▸ bare⟩
    · rintro (h | ⟨h, bare⟩)
      · exact Or.inl h
      · exact Or.inr ⟨h, h ▸ bare⟩

end Row

section Tables

variable {table : Table} {header content : Bytes} {rows : List (Row (nameColumn table))}
variable {stopsFile routesFile : Option Bytes}

theorem fileLines_rows (isHeader : newline ∉ header)
    (written : IsText header (rows.map Row.line) content)
    (opened : fileOf stopsFile routesFile table = some content) :
    fileLines (fileOf stopsFile routesFile table) = rows.map Row.line := by
  rw [opened]
  apply written.dataLines isHeader
  · intro line mem
    obtain ⟨row, -, rfl⟩ := List.mem_map.mp mem
    exact row.line_oneLine
  · intro line mem
    obtain ⟨row, -, rfl⟩ := List.mem_map.mp mem
    have commas : 0 < row.line.count comma := by
      refine Nat.lt_of_lt_of_le ?_ row.long_line
      cases table <;> exact Nat.succ_pos _
    exact List.ne_nil_of_mem (List.count_pos_iff.mp commas)

/-- The keys of the table are the ids as the loader reads them. -/
theorem loaded_rows_iff (lines : fileLines (fileOf stopsFile routesFile table) = rows.map Row.line)
    {id : Bytes} : loadStaticGtfs stopsFile routesFile table id ≠ none ↔
      ∃ row ∈ rows, lineId row.line = id := by
  rw [loaded_iff, lines]
  simp

/-- When doubling the quotes of an id gives an id again, no id has a quote. -/
theorem no_quotes_of_doubled {n : Nat} {rows : List (Row n)}
    (closed : ∀ row ∈ rows, ∃ row' ∈ rows, row'.id = doubled row.id) :
    ∀ row ∈ rows, quote ∉ row.id := by
  intro row mem inside
  let quotes (row : Row n) : Nat := row.id.count quote
  cases most : rows.argmax quotes with
  | none =>
      rw [List.argmax_eq_none.mp most] at mem
      cases mem
  | some top =>
      obtain ⟨row', mem', twice⟩ := closed top (List.argmax_mem most)
      have atLeast : quotes row ≤ quotes top := List.le_of_mem_argmax mem most
      have atMost : quotes row' ≤ quotes top := List.le_of_mem_argmax mem' most
      have doubled_ : quotes row' = 2 * quotes top := by
        simp only [quotes, twice, count_quote_doubled]
      have some_ : 0 < quotes row := List.count_pos_iff.mpr inside
      omega

/-- With plain ids, each row that is the last with its id decides what is stored. -/
theorem lastLine_row (lines : fileLines (fileOf stopsFile routesFile table) = rows.map Row.line)
    (plain : ∀ row ∈ rows, comma ∉ row.id ∧ quote ∉ row.id)
    {before after : List (Row (nameColumn table))} {row : Row (nameColumn table)}
    (split : rows = before ++ row :: after) (last : ∀ later ∈ after, later.id ≠ row.id) :
    ∃ stale, loadStaticGtfs stopsFile routesFile table row.id =
      some (lineName table stale row.line) := by
  have read (r : Row (nameColumn table)) (mem : r ∈ rows) : lineId r.line = r.id := by
    rw [Row.lineId_line (plain r mem).1, doubled_of_plain (plain r mem).2]
  have here : row ∈ rows := by simp [split]
  have isLast : LastLine table stopsFile routesFile row.line := by
    refine ⟨before.map Row.line, after.map Row.line, ?_, ?_⟩
    · rw [lines, split, List.map_append, List.map_cons]
    · intro line mem
      obtain ⟨later, inAfter, rfl⟩ := List.mem_map.mp mem
      rw [read row here, read later (by simp [split, inAfter])]
      exact last later inAfter
  obtain ⟨stale, stored⟩ := stored_of_lastLine isLast
  rw [read row here] at stored
  exact ⟨stale, stored⟩

/-- The loader reads a table back exactly when no id has a comma or a quote and the
name of the last row of each id survives the reading. -/
theorem csv_decoded_iff (isHeader : newline ∉ header)
    (written : IsText header (rows.map Row.line) content)
    (opened : fileOf stopsFile routesFile table = some content) :
    loadStaticGtfs stopsFile routesFile table = Row.decoded rows ↔
      (∀ row ∈ rows, comma ∉ row.id ∧ quote ∉ row.id) ∧
      ∀ before row after, rows = before ++ row :: after →
        (∀ later ∈ after, later.id ≠ row.id) → row.NameReads := by
  have lines := fileLines_rows isHeader written opened
  constructor
  · intro same
    have keys {id : Bytes} : (∃ row ∈ rows, lineId row.line = id) ↔ ∃ row ∈ rows, row.id = id := by
      rw [← loaded_rows_iff lines, same, Row.decoded_ne_none_iff]
    have noComma (row : Row (nameColumn table)) (mem : row ∈ rows) : comma ∉ row.id := by
      obtain ⟨reader, -, read⟩ := keys.mpr ⟨row, mem, rfl⟩
      exact read ▸ comma_notMem_lineId reader.line
    have noQuote : ∀ row ∈ rows, quote ∉ row.id := by
      apply no_quotes_of_doubled
      intro row mem
      exact keys.mp ⟨row, mem, Row.lineId_line (noComma row mem)⟩
    have plain (row : Row (nameColumn table)) (mem : row ∈ rows) : comma ∉ row.id ∧ quote ∉ row.id :=
      ⟨noComma row mem, noQuote row mem⟩
    refine ⟨plain, fun before row after split last => ?_⟩
    obtain ⟨stale, stored⟩ := lastLine_row lines plain split last
    rw [same, split, Row.decoded_last last] at stored
    exact (Row.lineName_line_iff stale).mp (Option.some.inj stored).symm
  · rintro ⟨plain, survives⟩
    funext id
    by_cases present : ∃ row ∈ rows, row.id = id
    · obtain ⟨before, row, after, split, rfl, last⟩ := exists_last_of_key Row.id present
      obtain ⟨stale, stored⟩ := lastLine_row lines plain split last
      rw [stored, (Row.lineName_line_iff stale).mpr (survives before row after split last), split,
        Row.decoded_last last]
    · have absent : Row.decoded rows id = none := by
        by_contra bound
        exact present (Row.decoded_ne_none_iff.mp bound)
      rw [absent]
      by_contra bound
      obtain ⟨row, mem, read⟩ := (loaded_rows_iff lines).mp bound
      rw [Row.lineId_line (plain row mem).1, doubled_of_plain (plain row mem).2] at read
      exact present ⟨row, mem, read⟩

end Tables

section OneStop

/-- Stop 1 with a quoted name. -/
def oneStop (name : Bytes) (oneLine : newline ∉ name) : Row (nameColumn .stopNames) where
  fields := [⟨[49], false, by decide, by decide⟩, ⟨[], false, by decide, by decide⟩,
    ⟨name, true, oneLine, fun bare => by cases bare⟩]
  long := Nat.lt_succ_self 2

/-- A stop with a plain name is read back. -/
theorem csv_decoded_iff_plain_name :
    let rows := [oneStop [65] (by decide)]
    loadStaticGtfs (some (fileText [] (rows.map Row.line))) none .stopNames = Row.decoded rows := by
  intro rows
  have header : newline ∉ ([] : Bytes) := by simp
  have opened : fileOf (some (fileText [] (rows.map Row.line))) none .stopNames = _ := rfl
  refine (csv_decoded_iff header (Or.inl rfl) opened).mpr ⟨by decide, ?_⟩
  intro before row after split last
  have same : row = oneStop [65] (by decide) := by
    have mem : row ∈ rows := by simp [split]
    exact List.mem_singleton.mp mem
  have reads : lineName .stopNames [] (oneStop [65] (by decide)).line = [65] := by decide
  rw [same]
  exact (Row.lineName_line_iff []).mp reads

/-- A name with a comma is cut there and keeps its opening quote. -/
theorem name_with_comma_cut :
    let row := oneStop [65, 44, 32, 66] (by decide)
    loadStaticGtfs (some (fileText [] [row.line])) none .stopNames [49] = some [34, 65] ∧
      Row.decoded [row] [49] = some [65, 44, 32, 66] := by
  intro row
  have lines : dataLines (fileText [] [row.line]) = [row.line] :=
    dataLines_fileText (by simp) (by simpa using row.line_oneLine)
  have loaded := load_alone .stopNames (fileText [] [row.line])
  rw [lines] at loaded
  constructor
  · exact (congrFun loaded [49]).trans (by decide)
  · decide

end OneStop

end TelemetrixDb.StaticData
