import TelemetrixDb.StaticData.Loader

/-!
# Which lines store a name of their own

A line with a field at the name's place stores that field. A shorter one stores
what the line before it left, which may come from the other file.

-/

namespace TelemetrixDb.StaticData
open Ingestion Engine

/-- The line is in the file of the table, and no later one there has its id. -/
def LastLine (table : Table) (stopsFile routesFile : Option Bytes) (line : Bytes) : Prop :=
  ∃ before after, fileLines (fileOf stopsFile routesFile table) = before ++ line :: after ∧
    ∀ later ∈ after, lineId later ≠ lineId line

/-- The name stored for the last line with an id, and what the line inherited. -/
theorem stored_of_lastLine {table : Table} {stopsFile routesFile : Option Bytes} {line : Bytes}
    (h : LastLine table stopsFile routesFile line) : ∃ stale,
    loadStaticGtfs stopsFile routesFile table (lineId line) = some (lineName table stale line) := by
  obtain ⟨before, after, split, last⟩ := h
  obtain ⟨inherited, loaded⟩ := loadStaticGtfs_entries stopsFile routesFile table
  obtain ⟨stale, stores⟩ := entries_append_cons table inherited line before after
  refine ⟨stale, ?_⟩
  rw [loaded, split, stores]
  apply storeAll.of_last
  intro entry mem same
  have isLine : entry.1 ∈ (entries table (lineName table stale line) after).map Prod.fst :=
    List.mem_map_of_mem mem
  rw [map_fst_entries] at isLine
  obtain ⟨later, inAfter, id⟩ := List.mem_map.mp isLine
  exact last later inAfter (id.trans same)

/-- A line with a field at the name's place inherits nothing. -/
theorem lineName_of_long {table : Table} {line : Bytes} (h : nameColumn table ≤ line.count comma)
    (stale : Bytes) : lineName table stale line = lineName table [] line := by
  have inside : nameColumn table < (line.splitOn comma).length := by
    rw [length_splitOn]
    omega
  rw [lineName, lineName, List.getD_eq_getElem _ _ inside, List.getD_eq_getElem _ _ inside]

/-- A shorter line stores what it inherits. -/
theorem lineName_of_short {table : Table} {line : Bytes} (h : line.count comma < nameColumn table)
    (stale : Bytes) : lineName table stale line = stripQuotes stale := by
  have outside : (line.splitOn comma).length ≤ nameColumn table := by
    rw [length_splitOn]
    omega
  rw [lineName, List.getD_eq_default _ _ outside]

/-- The files of a load in which only the file of one table opens. -/
def alone (table : Table) (content : Bytes) : Option Bytes × Option Bytes :=
  match table with
  | .stopNames => (some content, none)
  | .routeNames => (none, some content)

theorem fileOf_alone (table : Table) (content : Bytes) :
    fileOf (alone table content).1 (alone table content).2 table = some content := by
  cases table <;> rfl

theorem load_alone (table : Table) (content : Bytes) :
    loadStaticGtfs (alone table content).1 (alone table content).2 table =
      storeAll (fun _ => none) (entries table [] (dataLines content)) := by
  have fresh : inheritedBy (alone table content).1 table = [] := by
    cases table <;> rfl
  rw [loadStaticGtfs_eq, fileOf_alone, fresh, foldl_enter]
  rfl

/-- A line whose field at the name's place is `name`. -/
def namedLine (table : Table) (name : Bytes) : Bytes :=
  List.replicate (nameColumn table) comma ++ name

/-- A short line after a line with a name stores that name. -/
theorem short_line_stores {table : Table} {line : Bytes} (isLine : newline ∉ line)
    (short : line.count comma < nameColumn table) (c : UInt8) (plain : c ≠ comma ∧ c ≠ newline) :
    let content := fileText [] [namedLine table [c], line]
    LastLine table (alone table content).1 (alone table content).2 line ∧
      loadStaticGtfs (alone table content).1 (alone table content).2 table (lineId line) =
        some [c] := by
  intro content
  have areLines : ∀ l ∈ [namedLine table [c], line], newline ∉ l := by
    have named : newline ∉ namedLine table [c] := by
      have differs : newline ≠ comma := by decide
      simp [namedLine, List.mem_replicate, differs, Ne.symm plain.2]
    simp [named, isLine]
  have lines : dataLines content = [namedLine table [c], line] :=
    dataLines_fileText (by simp) areLines
  have single : stripQuotes [c] = [c] := if_neg (by simp [Enclosed])
  have name : lineName table [] (namedLine table [c]) = [c] := by
    have field : ((namedLine table [c]).splitOn comma).getD (nameColumn table) [] = [c] := by
      cases table <;>
        simp [namedLine, nameColumn, List.replicate, List.splitOn_cons_eq_if_modifyHead, plain.1]
    rw [lineName, field, single]
  constructor
  · refine ⟨[namedLine table [c]], [], ?_, by simp⟩
    rw [fileOf_alone]
    exact lines
  · have stores : entries table [] (dataLines content) =
        [(lineId (namedLine table [c]), [c])] ++ (lineId line, stripQuotes [c]) :: [] := by
      rw [lines, entries, entries, entries, name, lineName_of_short short]
      rfl
    rw [load_alone, stores, single]
    exact storeAll.of_last (by simp)

/-- For every line: what a load stores for it, where it is the last with its id,
does not depend on anything else in the two files exactly when it has a field at
the name's place. -/
theorem row_local_iff (table : Table) {line : Bytes} (isLine : newline ∉ line) :
    (∀ stops₁ routes₁ stops₂ routes₂, LastLine table stops₁ routes₁ line →
      LastLine table stops₂ routes₂ line →
      loadStaticGtfs stops₁ routes₁ table (lineId line) =
        loadStaticGtfs stops₂ routes₂ table (lineId line)) ↔
    nameColumn table ≤ line.count comma := by
  constructor
  · intro isLocal
    by_contra short
    rw [Nat.not_le] at short
    obtain ⟨last, stored⟩ := short_line_stores isLine short 88 (by decide)
    obtain ⟨last', stored'⟩ := short_line_stores isLine short 89 (by decide)
    have same := isLocal _ _ _ _ last last'
    rw [stored, stored'] at same
    cases same
  · intro long stops₁ routes₁ stops₂ routes₂ last₁ last₂
    obtain ⟨stale₁, stored₁⟩ := stored_of_lastLine last₁
    obtain ⟨stale₂, stored₂⟩ := stored_of_lastLine last₂
    rw [stored₁, stored₂, lineName_of_long long stale₁, lineName_of_long long stale₂]

/-- A stop with a name has it whatever stop comes before it. -/
theorem row_local_iff_named_stop :
    let line : Bytes := [49, 44, 44, 65]
    loadStaticGtfs (some (fileText [] [line])) none .stopNames (lineId line) =
      loadStaticGtfs (some (fileText [66] [[50], line])) none .stopNames (lineId line) := by
  intro line
  have lines₁ : dataLines (fileText [] [line]) = [line] :=
    dataLines_fileText (by simp) (by decide)
  have lines₂ : dataLines (fileText [66] [[50], line]) = [[50], line] :=
    dataLines_fileText (by decide) (by decide)
  have isLine : newline ∉ line := by decide
  exact (row_local_iff .stopNames isLine).mpr (by decide) _ _ _ _
    ⟨[], [], lines₁, by simp⟩ ⟨[[50]], [], lines₂, by simp⟩

/-- A stop without a name has the name of the stop before it, whichever that is. -/
theorem nameless_stop_inherits :
    let line : Bytes := [50]
    let stops₁ : Option Bytes := some (fileText [] [[44, 44, 88], line])
    let stops₂ : Option Bytes := some (fileText [] [[44, 44, 89], line])
    LastLine .stopNames stops₁ none line ∧ LastLine .stopNames stops₂ none line ∧
      loadStaticGtfs stops₁ none .stopNames (lineId line) = some [88] ∧
      loadStaticGtfs stops₂ none .stopNames (lineId line) = some [89] := by
  intro line stops₁ stops₂
  have isLine : newline ∉ line := by decide
  have short : line.count comma < nameColumn .stopNames := by decide
  obtain ⟨last₁, stored₁⟩ := short_line_stores isLine short 88 (by decide)
  obtain ⟨last₂, stored₂⟩ := short_line_stores isLine short 89 (by decide)
  exact ⟨last₁, last₂, stored₁, stored₂⟩

end TelemetrixDb.StaticData
