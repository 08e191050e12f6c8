import TelemetrixDb.Engine.Display
import TelemetrixDb.StaticData.QuotedCsv

/-!
# From the static files to the screen

The program loads its two files before the threads begin. When they are tables that the
loader reads back, every line shown has the names that the tables give to the ids of its
vehicle.

-/

namespace TelemetrixDb.StaticData
open Ingestion Engine

section Reading

variable {table : Table} {rows : List (Row (nameColumn table))} {header content : Bytes}
variable {stopsFile routesFile : Option Bytes}

/-- No id has a comma or a quote, and the name of the last row of each id survives the
reading. -/
structure Readable {n : Nat} (rows : List (Row n)) : Prop where
  ids : ∀ row ∈ rows, comma ∉ row.id ∧ quote ∉ row.id
  names : ∀ before row after, rows = before ++ row :: after →
    (∀ later ∈ after, later.id ≠ row.id) → row.NameReads

/-- The file has the table's rows, one line each, after a header. -/
structure WrittenIn (rows : List (Row (nameColumn table))) (content : Bytes) : Prop where
  readable : Readable rows
  text : ∃ header, newline ∉ header ∧ IsText header (rows.map Row.line) content

/-- What the loader stores for an id is what the rows give it. -/
theorem WrittenIn.loaded (h : WrittenIn rows content)
    (opened : fileOf stopsFile routesFile table = some content) :
    loadStaticGtfs stopsFile routesFile table = Row.decoded rows := by
  obtain ⟨header, isHeader, written⟩ := h.text
  have lines := fileLines_rows isHeader written opened
  funext id
  by_cases present : ∃ row ∈ rows, row.id = id
  · obtain ⟨before, row, after, split, rfl, last⟩ := exists_last_of_key Row.id present
    obtain ⟨stale, stored⟩ := lastLine_row lines h.readable.ids split last
    have read := (Row.lineName_line_iff stale).mpr (h.readable.names before row after split last)
    rw [stored, read, split, Row.decoded_last last]
  · have absent : Row.decoded rows id = none := by
      by_contra bound
      exact present (Row.decoded_ne_none_iff.mp bound)
    rw [absent]
    by_contra bound
    obtain ⟨row, mem, read⟩ := (loaded_rows_iff lines).mp bound
    obtain ⟨noComma, noQuote⟩ := h.readable.ids row mem
    rw [Row.lineId_line noComma, doubled_of_plain noQuote] at read
    exact present ⟨row, mem, read⟩

/-- A table of one row. -/
theorem readable_singleton {row : Row (nameColumn table)} (plain : comma ∉ row.id ∧ quote ∉ row.id)
    (read : lineName table [] row.line = row.name) : Readable [row] where
  ids := by simpa using plain
  names := by
    intro before row' after split _
    have here : row' ∈ [row] := by
      rw [split]
      simp
    obtain rfl := List.mem_singleton.mp here
    exact (Row.lineName_line_iff []).mp read

end Reading

end TelemetrixDb.StaticData

namespace TelemetrixDb.Engine
open CMachine Monitor Ingestion Storage StaticData Transition

/-- The tables that the rows of the two files stand for. -/
def csvTables (stops : List (Row (nameColumn .stopNames)))
    (routes : List (Row (nameColumn .routeNames))) : Tables
  | .stopNames => Row.decoded stops
  | .routeNames => Row.decoded routes

variable {T : Type} [DecidableEq T] {h3 : H3} {unpack : Bytes → Option FeedMessage}
variable {stack : Nat → Nat → VehicleData} {rb : Ring.RingBuffer VehicleData}
variable {structAllocated : Bool} {malloc : Ring.Malloc VehicleData}
variable {stops : List (Row (nameColumn .stopNames))}
variable {routes : List (Row (nameColumn .routeNames))} {stopsFile routesFile : Bytes}
variable {es : List (EngineEvent T)} {s : EngineState T}

theorem loaded_csv (stopsWritten : WrittenIn stops stopsFile)
    (routesWritten : WrittenIn routes routesFile) :
    loadStaticGtfs (some stopsFile) (some routesFile) = csvTables stops routes := by
  funext table
  cases table with
  | stopNames => exact stopsWritten.loaded rfl
  | routeNames => exact routesWritten.loaded rfl

/-- The id of a row of a table fits an array when its bytes are those of a string that
leaves room for a 0. -/
def Fits (size : Nat) (id : Bytes) : Prop := cText id = id ∧ id.length < size

theorem nameIn_of_row {n size : Nat} {rows before after : List (Row n)} {row : Row n}
    (split : rows = before ++ row :: after) (last : ∀ later ∈ after, later.id ≠ row.id)
    (fits : Fits (size + 1) row.id) {text : Bytes} (named : text = row.id) :
    nameIn (Row.decoded rows) ((cText text).take size) = row.name := by
  obtain ⟨whole, short⟩ := fits
  rw [named, whole, List.take_of_length_le (by omega), split, nameIn, Row.decoded_last last]
  rfl

/-- In every run of the threads after the two files were loaded, when these are quoted
CSV that the loader can read: the lines shown are the first of those of the feed's known
vehicles with passengers, in the order of the feed, each is that of a vehicle of the
feed, and its route and its stop have the names that the last rows
with their ids have in the files, and the ids themselves where no row has them. -/
theorem csv_names_shown (stopsWritten : WrittenIn stops stopsFile)
    (routesWritten : WrittenIn routes routesFile)
    (init : Ring.bufferInit structAllocated malloc (.lit 1024) = some rb)
    (run : Run (EngineStep h3 unpack stack)
      (start rb (loadStaticGtfs (some stopsFile) (some routesFile))) es s) :
    s.world.tables = csvTables stops routes ∧
    displays es <+: ((feed unpack es).filter Announced).map (lineOf (csvTables stops routes)) ∧
    ∀ line ∈ displays es, ∃ payload msg entity vehicle, some payload ∈ fetched es ∧
      unpack payload = some msg ∧ entity ∈ msg.entity ∧ entity.vehicle = some vehicle ∧
      Names (csvTables stops routes) vehicle line ∧
      (∀ before row after, routes = before ++ row :: after →
        (∀ later ∈ after, later.id ≠ row.id) → Fits 16 row.id → routeText vehicle = row.id →
        line.route = row.name) ∧
      ∀ before row after, stops = before ++ row :: after →
        (∀ later ∈ after, later.id ≠ row.id) → Fits 32 row.id → stopText vehicle = row.id →
        line.stop = row.name := by
  rw [loaded_csv stopsWritten routesWritten] at run
  obtain ⟨pending, loaded, -, shown, -⟩ := displaying_run run
  obtain ⟨tail, items, -, split⟩ := Ring.run_items (rfl : (CInt.lit 1024).val = (1024 : Nat)) init
    (monitor_run run)
  have popped : Ring.returned (onRing es) <+: feed unpack es :=
    List.IsPrefix.trans ⟨items, split.symm⟩ (accepted_prefix_feed run)
  have inOrder : displays es <+:
      ((feed unpack es).filter Announced).map (lineOf (csvTables stops routes)) :=
    List.IsPrefix.trans ⟨pending, shown⟩ ((popped.filter _).map _)
  refine ⟨loaded, inOrder, fun line here => ?_⟩
  obtain ⟨bus, inFeed, rfl⟩ := List.mem_map.mp (inOrder.subset here)
  obtain ⟨payload, msg, entity, vehicle, position, isFetched, unpacked, inMessage, hv, hp, rfl⟩ :=
    mem_feed (List.mem_filter.mp inFeed).1
  have names : Names (csvTables stops routes) vehicle _ := names_lineOf entity vehicle position
  refine ⟨payload, msg, entity, vehicle, isFetched, unpacked, inMessage, hv, names, ?_, ?_⟩
  · intro before row after split last fits named
    rw [names.route]
    exact nameIn_of_row split last fits named
  · intro before row after split last fits named
    rw [names.stop]
    exact nameIn_of_row split last fits named

theorem oneLine_a : newline ∉ ([65] : Bytes) := by decide

theorem oneLine_b : newline ∉ ([66] : Bytes) := by decide

/-- A field that is written as it is. -/
def bare (text : Bytes) (oneLine : newline ∉ text) (plain : comma ∉ text ∧ quote ∉ text) : Field :=
  ⟨text, false, oneLine, fun _ => plain⟩

theorem bare_seven : newline ∉ ([55] : Bytes) ∧ comma ∉ ([55] : Bytes) ∧ quote ∉ ([55] : Bytes) := by
  decide

theorem bare_nil : newline ∉ ([] : Bytes) ∧ comma ∉ ([] : Bytes) ∧ quote ∉ ([] : Bytes) := by
  decide

/-- Route 7 with a quoted name. -/
def oneRouteRow (name : Bytes) (oneLine : newline ∉ name) : Row (nameColumn .routeNames) where
  fields := [bare [55] bare_seven.1 bare_seven.2, bare [] bare_nil.1 bare_nil.2,
    bare [] bare_nil.1 bare_nil.2, ⟨name, true, oneLine, Bool.noConfusion⟩]
  long := Nat.lt_succ_self 3

/-- A bus on route 7 to stop 1 is shown with the names in the files. -/
theorem csv_names_shown_one_row :
    let stops := [oneStop [65] oneLine_a]
    let routes := [oneRouteRow [66] oneLine_b]
    ∃ rb s, ∃ es : List (EngineEvent Empty),
      Run (EngineStep oneH3 (fun _ => some (routedMessage [55] [49])) fun _ _ => zeroBus)
        (start rb (loadStaticGtfs (some (fileText [] (stops.map Row.line)))
          (some (fileText [] (routes.map Row.line))))) es s ∧
      displays es ≠ [] ∧ ∀ line ∈ displays es, line.route = [66] ∧ line.stop = [65] := by
  intro stops routes
  have header : newline ∉ ([] : Bytes) := by simp
  have stopsWritten : WrittenIn stops (fileText [] (stops.map Row.line)) :=
    ⟨readable_singleton (by decide) (by decide), [], header, Or.inl rfl⟩
  have routesWritten : WrittenIn routes (fileText [] (routes.map Row.line)) :=
    ⟨readable_singleton (by decide) (by decide), [], header, Or.inl rfl⟩
  obtain ⟨rb, s, es, init, run, shown⟩ := exists_shown_run oneH3 _ (fun _ _ => zeroBus)
    (loadStaticGtfs _ _) (routed_contribution [55] [49]) (announced_routedBus [55] [49])
  refine ⟨rb, s, es, run, by simp [shown], fun line here => ?_⟩
  obtain ⟨payload, msg, entity, vehicle, -, unpacked, inMessage, isVehicle, -, route, stop⟩ :=
    (csv_names_shown stopsWritten routesWritten init run).2.2 line here
  obtain rfl := Option.some.inj unpacked
  obtain rfl := List.mem_singleton.mp inMessage
  obtain rfl := Option.some.inj isVehicle
  constructor
  · exact route [] _ [] rfl (by simp) ⟨rfl, by decide⟩ rfl
  · exact stop [] _ [] rfl (by simp) ⟨rfl, by decide⟩ rfl

end TelemetrixDb.Engine
