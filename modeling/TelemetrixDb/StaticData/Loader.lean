import TelemetrixDb.Engine.Threads
import TelemetrixDb.Foundation.InputStream
import TelemetrixDb.Foundation.LastBinding

/-!
# The loader of `load_static_gtfs`

Both loops read the fields of a line into the same strings. A line with too few
fields leaves the string of the name as the line before it left it, so what a line
stores is a function of the line and of one string that it may inherit.

## Implementation notes

A file that does not open is `none`. The string `line` is read anew for each file
and each turn, so it is local to a loop, and what is printed is left out.

-/

namespace TelemetrixDb.StaticData
open Ingestion Engine

/-- The character `"`. -/
def quote : UInt8 := 34

def comma : UInt8 := 44

def newline : UInt8 := 10

/-- At least two characters, the first and the last of which are quotes. -/
def Enclosed (str : Bytes) : Prop :=
  2 ≤ str.length ∧ str.head? = some quote ∧ str.getLast? = some quote

instance (str : Bytes) : Decidable (Enclosed str) := inferInstanceAs (Decidable (_ ∧ _))

def stripQuotes (str : Bytes) : Bytes :=
  if Enclosed str then (str.drop 1).take (str.length - 2) else str

/-- The strings that the loops share. -/
structure Strings where
  id : Bytes
  name : Bytes
  ignore : Bytes

/-- A turn of the loop over `stops.txt`, up to the store. -/
def stopsRow (line : Bytes) (strings : Strings) : Strings :=
  let (ss, id) := (IStream.of line).getline comma strings.id
  let (ss, ignore) := ss.getline comma strings.ignore
  let (_, name) := ss.getline comma strings.name
  { id := stripQuotes id, name := stripQuotes name, ignore }

/-- A turn of the loop over `routes.txt`, up to the store. -/
def routesRow (line : Bytes) (strings : Strings) : Strings :=
  let (ss, id) := (IStream.of line).getline comma strings.id
  let (ss, ignore) := ss.getline comma strings.ignore
  let (ss, ignore) := ss.getline comma ignore
  let (_, name) := ss.getline comma strings.name
  { id := stripQuotes id, name := stripQuotes name, ignore }

abbrev Names := Bytes → Option Bytes

/-- The loop over a file that opened, and the strings and names it leaves. -/
def loadFile (row : Bytes → Strings → Strings) (content : Bytes) (strings : Strings)
    (names : Names) : Strings × Names :=
  let (file, line) := (IStream.of content).getline newline []
  IStream.whileGetline newline
    (fun line (strings, names) =>
      let strings := row line strings
      (strings, store names (strings.id, strings.name)))
    file line (strings, names)

/-- A file that does not open changes nothing. -/
def loadIfOpen (row : Bytes → Strings → Strings) (file : Option Bytes) (strings : Strings)
    (names : Names) : Strings × Names :=
  match file with
  | none => (strings, names)
  | some content => loadFile row content strings names

/-- What `load_static_gtfs` leaves in `stop_names` and `route_names`. -/
def loadStaticGtfs (stopsFile routesFile : Option Bytes) : Tables :=
  let (strings, stopNames) := loadIfOpen stopsRow stopsFile ⟨[], [], []⟩ fun _ => none
  let (_, routeNames) := loadIfOpen routesRow routesFile strings fun _ => none
  fun
    | .stopNames => stopNames
    | .routeNames => routeNames

/-- The number of commas before the name. -/
def nameColumn : Table → Nat
  | .stopNames => 2
  | .routeNames => 3

/-- The turn of the loop that fills a table. -/
def rowOf : Table → Bytes → Strings → Strings
  | .stopNames => stopsRow
  | .routeNames => routesRow

/-- The part of a line before its first comma, without enclosing quotes. -/
def lineId (line : Bytes) : Bytes := stripQuotes ((line.splitOn comma).headD [])

/-- The field at the name's place, and an inherited string when there is none,
without enclosing quotes. -/
def lineName (table : Table) (inherited line : Bytes) : Bytes :=
  stripQuotes ((line.splitOn comma).getD (nameColumn table) inherited)

theorem headD_splitOn (line str : Bytes) :
    (line.splitOn comma).headD str = (line.splitOn comma).headD [] := by
  cases split : line.splitOn comma with
  | nil => exact absurd split (List.splitOn_ne_nil comma line)
  | cons piece pieces => rfl

/-- What a turn takes from its line and from the turn before it. -/
theorem rowOf_eq (table : Table) (line : Bytes) (strings : Strings) :
    (rowOf table line strings).id = lineId line ∧
      (rowOf table line strings).name = lineName table strings.name line := by
  have fresh : (IStream.of line).Delivers comma (line.splitOn comma) := IStream.delivers_of line
  obtain ⟨first, after₁, -⟩ := fresh.getline strings.id
  obtain ⟨second, after₂, -⟩ := after₁.getline strings.ignore
  have place (n : Nat) : ((line.splitOn comma).drop n).headD strings.name =
      (line.splitOn comma).getD n strings.name := by
    rw [List.headD_eq_head?_getD, List.head?_drop, List.getD_eq_getElem?_getD]
  cases table with
  | stopNames =>
      obtain ⟨third, -⟩ := after₂.getline strings.name
      rw [← List.drop_one, ← List.drop_one, List.drop_drop, place] at third
      exact ⟨congrArg stripQuotes (first.trans (headD_splitOn line _)), congrArg stripQuotes third⟩
  | routeNames =>
      obtain ⟨-, after₃, -⟩ := after₂.getline
        (((IStream.of line).getline comma strings.id).1.getline comma strings.ignore).2
      obtain ⟨fourth, -⟩ := after₃.getline strings.name
      rw [← List.drop_one, ← List.drop_one, ← List.drop_one, List.drop_drop, List.drop_drop,
        place] at fourth
      exact ⟨congrArg stripQuotes (first.trans (headD_splitOn line _)), congrArg stripQuotes fourth⟩

/-- The lines of a file after its header. -/
def dataLines (content : Bytes) : List Bytes :=
  IStream.lines (content.splitOn newline).tail

/-- The name and the table after a line. -/
def enter (table : Table) (state : Bytes × Names) (line : Bytes) : Bytes × Names :=
  (lineName table state.1 line, store state.2 (lineId line, lineName table state.1 line))

/-- A loop enters the lines of its file one by one. -/
theorem loadFile_eq (table : Table) (content : Bytes) (strings : Strings) (names : Names) :
    (((loadFile (rowOf table) content strings names).1.name,
      (loadFile (rowOf table) content strings names).2) : Bytes × Names) =
      (dataLines content).foldl (enter table) (strings.name, names) := by
  have fresh : (IStream.of content).Delivers newline (content.splitOn newline) :=
    IStream.delivers_of content
  obtain ⟨-, after, -⟩ := fresh.getline []
  unfold loadFile dataLines
  dsimp only
  rw [IStream.whileGetline_eq after]
  generalize IStream.lines (content.splitOn newline).tail = lines
  induction lines generalizing strings names with
  | nil => rfl
  | cons line lines ih =>
      obtain ⟨id, name⟩ := rowOf_eq table line strings
      rw [List.foldl_cons, List.foldl_cons, enter, ih, id, name]

/-- The lines of a file that may not open. -/
def fileLines (file : Option Bytes) : List Bytes := (file.map dataLines).getD []

theorem loadIfOpen_eq (table : Table) (file : Option Bytes) (strings : Strings) (names : Names) :
    (((loadIfOpen (rowOf table) file strings names).1.name,
      (loadIfOpen (rowOf table) file strings names).2) : Bytes × Names) =
      (fileLines file).foldl (enter table) (strings.name, names) := by
  cases file with
  | none => rfl
  | some content => exact loadFile_eq table content strings names

/-- The file that fills a table. -/
def fileOf (stopsFile routesFile : Option Bytes) : Table → Option Bytes
  | .stopNames => stopsFile
  | .routeNames => routesFile

/-- The string that the first line of a file inherits. -/
def inheritedBy (stopsFile : Option Bytes) : Table → Bytes
  | .stopNames => []
  | .routeNames => ((fileLines stopsFile).foldl (enter .stopNames) ([], fun _ => none)).1

/-- Each table is filled by the lines of its file, one by one. -/
theorem loadStaticGtfs_eq (stopsFile routesFile : Option Bytes) (table : Table) :
    loadStaticGtfs stopsFile routesFile table =
      ((fileLines (fileOf stopsFile routesFile table)).foldl (enter table)
        (inheritedBy stopsFile table, fun _ => none)).2 := by
  have stops := loadIfOpen_eq .stopNames stopsFile ⟨[], [], []⟩ fun _ => none
  cases table with
  | stopNames => exact congrArg Prod.snd stops
  | routeNames =>
      have routes := loadIfOpen_eq .routeNames routesFile
        (loadIfOpen stopsRow stopsFile ⟨[], [], []⟩ fun _ => none).1 fun _ => none
      have inherited : (loadIfOpen stopsRow stopsFile ⟨[], [], []⟩ fun _ => none).1.name =
          inheritedBy stopsFile .routeNames := congrArg Prod.fst stops
      rw [inherited] at routes
      exact congrArg Prod.snd routes

/-- What the lines of a file store, in order, when the first inherits a name. -/
def entries (table : Table) : Bytes → List Bytes → List (Bytes × Bytes)
  | _, [] => []
  | inherited, line :: lines =>
      (lineId line, lineName table inherited line) ::
        entries table (lineName table inherited line) lines

theorem foldl_enter (table : Table) (inherited : Bytes) (names : Names) (lines : List Bytes) :
    (lines.foldl (enter table) (inherited, names)).2 =
      storeAll names (entries table inherited lines) := by
  induction lines generalizing inherited names with
  | nil => rfl
  | cons line lines ih => exact ih _ _

theorem map_fst_entries (table : Table) (inherited : Bytes) (lines : List Bytes) :
    (entries table inherited lines).map Prod.fst = lines.map lineId := by
  induction lines generalizing inherited with
  | nil => rfl
  | cons line lines ih => exact congrArg (lineId line :: ·) (ih _)

/-- The lines before a line only decide what it inherits. -/
theorem entries_append_cons (table : Table) (inherited line : Bytes) (before after : List Bytes) :
    ∃ stale, entries table inherited (before ++ line :: after) =
      entries table inherited before ++ (lineId line, lineName table stale line) ::
        entries table (lineName table stale line) after := by
  induction before generalizing inherited with
  | nil => exact ⟨inherited, rfl⟩
  | cons first before ih =>
      obtain ⟨stale, rest⟩ := ih (lineName table inherited first)
      exact ⟨stale, congrArg (_ :: ·) rest⟩

/-- A table holds what the lines of its file store. -/
theorem loadStaticGtfs_entries (stopsFile routesFile : Option Bytes) (table : Table) :
    ∃ inherited, loadStaticGtfs stopsFile routesFile table = storeAll (fun _ => none)
      (entries table inherited (fileLines (fileOf stopsFile routesFile table))) := by
  refine ⟨inheritedBy stopsFile table, ?_⟩
  rw [loadStaticGtfs_eq, foldl_enter]

/-- The lines of a file, each ended by a line break, after a header. -/
def fileText (header : Bytes) (lines : List Bytes) : Bytes :=
  (header :: lines).flatMap fun line => line ++ [newline]

theorem dataLines_fileText {header : Bytes} {lines : List Bytes} (isHeader : newline ∉ header)
    (areLines : ∀ line ∈ lines, newline ∉ line) : dataLines (fileText header lines) = lines := by
  have split : (fileText header lines).splitOn newline =
      header :: (lines.flatMap fun line => line ++ [newline]).splitOn newline := by
    rw [fileText, List.flatMap_cons, List.append_assoc, List.singleton_append]
    exact List.splitOn_append_cons_self_of_not_mem isHeader _
  rw [dataLines, split, List.tail_cons, IStream.lines_splitOn_terminated areLines]

/-- A file of a header and some lines; the last line break may be missing. -/
def IsText (header : Bytes) (lines : List Bytes) (content : Bytes) : Prop :=
  content = fileText header lines ∨ content ++ [newline] = fileText header lines

theorem IsText.dataLines {header content : Bytes} {lines : List Bytes}
    (h : IsText header lines content) (isHeader : newline ∉ header)
    (areLines : ∀ line ∈ lines, newline ∉ line) (someText : ∀ line ∈ lines, line ≠ []) :
    dataLines content = lines := by
  have whole := dataLines_fileText isHeader areLines
  rcases h with rfl | unended
  · exact whole
  · have pieces : (content ++ [newline]).splitOn newline = content.splitOn newline ++ [[]] :=
      List.splitOn_append_cons_self content []
    rw [← unended, StaticData.dataLines, pieces,
      List.tail_append_of_ne_nil (List.splitOn_ne_nil newline content),
      IStream.lines_append_nil] at whole
    rw [StaticData.dataLines, whole]
    exact IStream.lines_of_ne_nil someText

/-- The keys of a table are the ids of the lines of its file. -/
theorem loaded_iff {stopsFile routesFile : Option Bytes} {table : Table} {id : Bytes} :
    loadStaticGtfs stopsFile routesFile table id ≠ none ↔
      ∃ line ∈ fileLines (fileOf stopsFile routesFile table), lineId line = id := by
  obtain ⟨inherited, loaded⟩ := loadStaticGtfs_entries stopsFile routesFile table
  generalize fileLines (fileOf stopsFile routesFile table) = lines at loaded
  rw [loaded, storeAll.ne_none_iff]
  have keys : id ∈ (entries table inherited lines).map Prod.fst ↔ id ∈ lines.map lineId := by
    rw [map_fst_entries]
  simpa only [List.mem_map] using keys

theorem length_splitOn (line : Bytes) : (line.splitOn comma).length = line.count comma + 1 := by
  induction line with
  | nil => rfl
  | cons x line ih =>
      rw [List.splitOn_cons_eq_if_modifyHead, List.count_cons]
      split <;> simp_all

end TelemetrixDb.StaticData
