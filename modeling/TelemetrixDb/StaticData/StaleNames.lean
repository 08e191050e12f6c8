import TelemetrixDb.StaticData.RowLocality

/-!
# Where each name comes from

The string of the name lives as long as the load. So the name stored for a line is the
field at the name's place of the nearest line read so far that has one, in whichever
file, without one more pair of quotes for each line read since.

-/

namespace TelemetrixDb.StaticData
open Ingestion Engine

/-- A line read for a table has a field at the name's place. -/
def HasName (read : Table × Bytes) : Prop := nameColumn read.1 ≤ read.2.count comma

/-- The field at the name's place. -/
def nameField (read : Table × Bytes) : Bytes := (read.2.splitOn comma).getD (nameColumn read.1) []

/-- The string of the name after these lines. -/
def nameAfter (inherited : Bytes) (reads : List (Table × Bytes)) : Bytes :=
  reads.foldl (fun name read => lineName read.1 name read.2) inherited

/-- The lines read so far when these are the ones read from the file of a table. -/
def linesRead (stopsFile : Option Bytes) : Table → List Bytes → List (Table × Bytes)
  | .stopNames, lines => lines.map (Prod.mk .stopNames)
  | .routeNames, lines =>
      (fileLines stopsFile).map (Prod.mk .stopNames) ++ lines.map (Prod.mk .routeNames)

section Reads

variable {inherited : Bytes} {reads shorts : List (Table × Bytes)} {named : Table × Bytes}

theorem nameAfter_append (inherited : Bytes) (reads reads' : List (Table × Bytes)) :
    nameAfter inherited (reads ++ reads') = nameAfter (nameAfter inherited reads) reads' :=
  List.foldl_append ..

/-- A pair of quotes is taken off for each line without a name. -/
theorem nameAfter_shorts (short : ∀ read ∈ shorts, ¬ HasName read) :
    nameAfter inherited shorts = stripQuotes^[shorts.length] inherited := by
  induction shorts generalizing inherited with
  | nil => rfl
  | cons read shorts ih =>
      have noName : read.2.count comma < nameColumn read.1 :=
        Nat.not_le.mp (short read List.mem_cons_self)
      have later : ∀ read ∈ shorts, ¬ HasName read := fun later mem =>
        short later (List.mem_cons_of_mem _ mem)
      calc nameAfter inherited (read :: shorts)
        _ = nameAfter (stripQuotes inherited) shorts := by
          rw [nameAfter, List.foldl_cons, lineName_of_short noName, ← nameAfter]
        _ = stripQuotes^[shorts.length] (stripQuotes inherited) := ih later
        _ = stripQuotes^[(read :: shorts).length] inherited := rfl

/-- The nearest line with a name decides the string. -/
theorem nameAfter_nearest (isNamed : HasName named) (short : ∀ read ∈ shorts, ¬ HasName read) :
    nameAfter inherited (reads ++ named :: shorts) =
      stripQuotes^[shorts.length + 1] (nameField named) := by
  calc nameAfter inherited (reads ++ named :: shorts)
    _ = nameAfter (nameAfter inherited reads) (named :: shorts) := nameAfter_append ..
    _ = nameAfter (stripQuotes (nameField named)) shorts := by
      rw [nameAfter, List.foldl_cons, lineName_of_long isNamed, ← nameAfter]
      rfl
    _ = stripQuotes^[shorts.length] (stripQuotes (nameField named)) := nameAfter_shorts short
    _ = stripQuotes^[shorts.length + 1] (nameField named) := rfl

theorem stripQuotes_nil : stripQuotes [] = [] := rfl

/-- Without such a line the string stays empty. -/
theorem nameAfter_none (short : ∀ read ∈ reads, ¬ HasName read) : nameAfter [] reads = [] := by
  rw [nameAfter_shorts short]
  exact Function.iterate_fixed stripQuotes_nil _

end Reads

/-- The string of the name after the lines of one file. -/
theorem foldl_enter_name (table : Table) (inherited : Bytes) (names : Names) (lines : List Bytes) :
    (lines.foldl (enter table) (inherited, names)).1 =
      nameAfter inherited (lines.map (Prod.mk table)) := by
  induction lines generalizing inherited names with
  | nil => rfl
  | cons line lines ih => exact ih _ _

theorem inheritedBy_eq (stopsFile : Option Bytes) (table : Table) (lines : List Bytes) :
    nameAfter (inheritedBy stopsFile table) (lines.map (Prod.mk table)) =
      nameAfter [] (linesRead stopsFile table lines) := by
  cases table with
  | stopNames => rfl
  | routeNames => rw [linesRead, nameAfter_append, inheritedBy, foldl_enter_name]

theorem entries_append (table : Table) (inherited : Bytes) (before after : List Bytes) :
    entries table inherited (before ++ after) = entries table inherited before ++
      entries table (nameAfter inherited (before.map (Prod.mk table))) after := by
  induction before generalizing inherited with
  | nil => rfl
  | cons line before ih => exact congrArg (_ :: ·) (ih _)

variable {table : Table} {stopsFile routesFile : Option Bytes} {before after : List Bytes}
variable {line : Bytes}

/-- What is stored for the last line with an id is the string of the name after it. -/
theorem stored_nameAfter
    (split : fileLines (fileOf stopsFile routesFile table) = before ++ line :: after)
    (last : ∀ later ∈ after, lineId later ≠ lineId line) :
    loadStaticGtfs stopsFile routesFile table (lineId line) =
      some (nameAfter [] (linesRead stopsFile table (before ++ [line]))) := by
  have others : ∀ entry ∈ entries table
      (nameAfter (inheritedBy stopsFile table) ((before ++ [line]).map (Prod.mk table))) after,
      entry.1 ≠ lineId line := by
    intro entry mem same
    obtain ⟨later, inAfter, id⟩ := List.mem_map.mp (map_fst_entries table _ after ▸
      List.mem_map_of_mem mem)
    exact last later inAfter (id.trans same)
  rw [loadStaticGtfs_eq, foldl_enter, split, List.append_cons, entries_append,
    ← inheritedBy_eq, List.map_append, nameAfter_append, entries_append, List.append_assoc]
  rw [List.map_append, nameAfter_append] at others
  exact storeAll.of_last others

/-- Whatever the two files hold: for each id of a table, with the lines read up to its last
line there, the name is the field at the name's place of the nearest of these lines that
has one, stripped once and once more for each line since, and it is empty when none of
them has one. -/
theorem name_of_nearest_field
    (split : fileLines (fileOf stopsFile routesFile table) = before ++ line :: after)
    (last : ∀ later ∈ after, lineId later ≠ lineId line) :
    (∀ reads named shorts,
      linesRead stopsFile table (before ++ [line]) = reads ++ named :: shorts → HasName named →
      (∀ read ∈ shorts, ¬ HasName read) →
      loadStaticGtfs stopsFile routesFile table (lineId line) =
        some (stripQuotes^[shorts.length + 1] (nameField named))) ∧
    ((∀ read ∈ linesRead stopsFile table (before ++ [line]), ¬ HasName read) →
      loadStaticGtfs stopsFile routesFile table (lineId line) = some []) := by
  have stored := stored_nameAfter split last
  constructor
  · intro reads named shorts isRead isNamed short
    rw [stored, isRead, nameAfter_nearest isNamed short]
  · intro short
    rw [stored, nameAfter_none short]

/-- A route without a name has that of the last stop, without its second pair of quotes. -/
theorem name_of_nearest_field_across_files :
    let stops : Bytes := fileText [] [[49, 44, 44, 34, 34, 65, 34, 34]]
    let routes : Bytes := fileText [] [[50]]
    loadStaticGtfs (some stops) (some routes) .routeNames [50] = some [65] := by
  intro stops routes
  have stopLines : dataLines stops = [[49, 44, 44, 34, 34, 65, 34, 34]] :=
    dataLines_fileText (by simp) (by decide)
  have routeLines : fileLines (fileOf (some stops) (some routes) .routeNames) = [] ++ [50] :: [] :=
    dataLines_fileText (by simp) (by decide)
  have isRead : linesRead (some stops) .routeNames ([] ++ [[50]]) =
      [] ++ (.stopNames, [49, 44, 44, 34, 34, 65, 34, 34]) :: [(.routeNames, [50])] := by
    change (dataLines stops).map _ ++ _ = _
    rw [stopLines]
    rfl
  exact (name_of_nearest_field routeLines (by simp)).1 [] _ _ isRead (by decide : 2 ≤ 2) (by
    intro read mem
    obtain rfl := List.mem_singleton.mp mem
    exact Nat.not_le.mpr (by decide))

end TelemetrixDb.StaticData
