import Mathlib.Data.List.DropRight
import TelemetrixDb.Storage.Update

/-!
# The arena keeps the recent history of each bucket

The visits of a bucket are the successful updates routed to it. Its contents are
determined by them: the cell of the last visit, and a window over the samples of
the visits since another cell was last seen there.

-/

namespace TelemetrixDb.Storage
open CMachine LockSections Program

/-- What a call writes into a slot. -/
def UpdateCall.sample (c : UpdateCall) : Sample := ⟨c.speed, c.timestamp.toUInt32⟩

/-- A successful call with the cell it found. -/
structure Visit where
  call : UpdateCall
  cell : UInt64
  cell_ne_zero : cell ≠ 0

def Visit.sample (v : Visit) : Sample := v.call.sample

def Visit.bucket (v : Visit) : Fin bucketCount := bucketOf v.cell

/-- The cell of the last visit, 0 when there is none. -/
def lastCell (vs : List Visit) : UInt64 :=
  match vs.getLast? with
  | some v => v.cell
  | none => 0

/-- The longest trailing run of visits to one cell. -/
def trailing (vs : List Visit) : List Visit := vs.rtakeWhile fun v => v.cell = lastCell vs

/-- The window over the samples of the trailing run. -/
def windowOf (vs : List Visit) : Window 60 Sample :=
  .written 60 .blank ((trailing vs).map Visit.sample)

/-- The data of a bucket after its visits. -/
def contents (vs : List Visit) : BucketData := .holding (lastCell vs) (windowOf vs)

/-- The arena after visits to all its buckets. -/
def arenaAfter (vs : List Visit) : SpatialArena := fun b =>
  ⟨contents (vs.filter fun v => v.bucket = b), false⟩

variable {vs : List Visit} {v : Visit}

@[simp] theorem lastCell_nil : lastCell [] = 0 := rfl

@[simp] theorem lastCell_concat : lastCell (vs ++ [v]) = v.cell := by
  simp [lastCell]

@[simp] theorem trailing_nil : trailing [] = [] := rfl

theorem lastCell_eq_zero : lastCell vs = 0 ↔ vs = [] := by
  cases vs using List.reverseRecOn with
  | nil => simp
  | append_singleton vs v => simp [v.cell_ne_zero]

/-- A visit continues the run of its cell or begins a new one. -/
theorem trailing_concat : trailing (vs ++ [v]) =
    (if lastCell vs ≠ 0 ∧ lastCell vs ≠ v.cell then [] else trailing vs) ++ [v] := by
  rw [trailing, lastCell_concat, List.rtakeWhile_concat_pos _ _ _ (by simp)]
  congr 1
  by_cases unused : lastCell vs = 0
  · obtain rfl := lastCell_eq_zero.mp unused
    simp
  · by_cases same : lastCell vs = v.cell
    · simp [same, trailing]
    · rw [if_pos ⟨unused, same⟩, List.rtakeWhile_eq_nil_iff]
      intro nonempty
      simpa [lastCell, List.getLast?_eq_some_getLast nonempty] using same

theorem windowOf_concat : windowOf (vs ++ [v]) =
    (if lastCell vs ≠ 0 ∧ lastCell vs ≠ v.cell then .fresh .blank else windowOf vs).push
      v.sample := by
  rw [windowOf, trailing_concat, List.map_append, List.map_singleton, Window.written_concat]
  split <;> rfl

@[simp] theorem contents_nil : contents [] = .init := rfl

/-- A visit moves its own bucket only. -/
theorem arenaAfter_concat : arenaAfter (vs ++ [v]) =
    Function.update (arenaAfter vs) v.bucket
      ⟨contents (vs.filter (fun u => u.bucket = v.bucket) ++ [v]), false⟩ := by
  funext b
  by_cases hb : b = v.bucket
  · subst hb
    simp [arenaAfter]
  · simp [arenaAfter, Function.update_of_ne hb, Ne.symm hb]

section Calls

variable (h3 : H3)

/-- The visit that a call makes when the lookup succeeds. -/
def UpdateCall.visit (c : UpdateCall) : Option Visit :=
  if h : (c.lookup h3).1 = 0 then some ⟨c, (c.lookup h3).2, h3.cell_ne_zero h⟩ else none

def visits (calls : List UpdateCall) : List Visit := calls.filterMap (UpdateCall.visit h3)

/-- The visits routed to one bucket. -/
def routed (b : Fin bucketCount) (calls : List UpdateCall) : List Visit :=
  (visits h3 calls).filter fun v => v.bucket = b

variable {h3}

theorem visits_concat (calls : List UpdateCall) (c : UpdateCall) :
    visits h3 (calls ++ [c]) = visits h3 calls ++ (c.visit h3).toList := by
  simp [visits, List.filterMap_append, List.filterMap_cons, Option.toList]
  cases c.visit h3 <;> rfl

/-- A failed lookup ends the call. -/
theorem code_of_visit_none {c : UpdateCall} (h : c.visit h3 = none) : c.code h3 = .ret false := by
  apply update_failed
  intro found
  simp [UpdateCall.visit, UpdateCall.lookup, found] at h

/-- A successful lookup leads to the section of the visit. -/
theorem code_of_visit {c : UpdateCall} (h : c.visit h3 = some v) :
    c.code h3 = .call (.acquire v.bucket)
        (fun _ => sectionCode v.bucket v.cell c.speed c.timestamp) ∧ v.call = c := by
  unfold UpdateCall.visit at h
  split at h
  · next found =>
      obtain rfl := Option.some.inj h
      exact ⟨update_found _ (Prod.ext found rfl), rfl⟩
  · cases h

/-- The section of a visit takes the contents of its bucket to the next ones. -/
theorem effect_visit :
    effect bucketAccess (sectionCode v.bucket v.cell v.call.speed v.call.timestamp) (contents vs) =
      .ok (contents (vs ++ [v])) := by
  rw [contents, effect_sectionCode, contents, lastCell_concat, windowOf_concat]
  rfl

/-- One call alone on an arena of histories. -/
theorem exec_code (vs : List Visit) (c : UpdateCall) :
    (c.code h3).exec (handle bucketAccess) (arenaAfter vs) =
      .ok ((c.visit h3).isSome, arenaAfter (vs ++ (c.visit h3).toList)) := by
  cases hv : c.visit h3 with
  | none => simp [code_of_visit_none hv]
  | some v =>
      obtain ⟨hcode, rfl⟩ := code_of_visit hv
      have run : effect bucketAccess
          (sectionCode v.bucket v.cell v.call.speed v.call.timestamp)
          (arenaAfter vs v.bucket).data =
          .ok (contents (vs.filter (fun u => u.bucket = v.bucket) ++ [v])) := effect_visit
      rw [hcode, exec_guarded inside_sectionCode rfl run, Option.toList_some, arenaAfter_concat]
      rfl

/-- Calls one after the other leave the histories of their visits. -/
theorem serial_calls (calls : List UpdateCall) :
    serial (UpdateCall.code h3) bucketAccess calls SpatialArena.init =
      .ok (arenaAfter (visits h3 calls)) := by
  induction calls using List.reverseRecOn with
  | nil => rfl
  | append_singleton calls c ih =>
      rw [visits_concat]
      exact serial_snoc ih (exec_code _ c)

end Calls

section Readings

variable {j : Nat} {k : Fin 60}

theorem contents_head : (contents vs).window.head.toNat = (trailing vs).length % 60 := by
  rw [contents, BucketData.holding, ofWindow_head_toNat, windowOf, Window.written_head,
    List.length_map]

/-- The slot of each of the last 60 samples of the run holds it. -/
theorem contents_slot (hj : j < (trailing vs).length) (hrecent : (trailing vs).length ≤ j + 60) :
    (contents vs).window.speeds (Window.slotOf 60 j) = (trailing vs)[j].sample.speed ∧
      (contents vs).window.timestamps (Window.slotOf 60 j) = (trailing vs)[j].sample.timestamp := by
  have item : (windowOf vs).slots (Window.slotOf 60 j) = (trailing vs)[j].sample := by
    rw [windowOf, Window.written_slot (by simpa using hj) (by simpa using hrecent),
      List.getElem_map]
  exact ⟨congrArg Sample.speed item, congrArg Sample.timestamp item⟩

/-- A slot that the run has not reached is zero. -/
theorem contents_blank (hk : (trailing vs).length ≤ k) :
    (contents vs).window.speeds k = .zero ∧ (contents vs).window.timestamps k = 0 := by
  have item : (windowOf vs).slots k = .blank := Window.written_blank (by simpa using hk)
  exact ⟨congrArg Sample.speed item, congrArg Sample.timestamp item⟩

end Readings

/-- The arena refines a map of recent histories. After any updates a bucket that
none of the successful ones was routed to is as constructed; any other holds the
cell of the last one and, over its slots, the samples of the trailing run of
that cell. From there every call finishes with its lock free, changes no bucket
but its own, and changes nothing when it returns false. -/
theorem arena_refines_histories (h3 : H3) (calls : List UpdateCall) :
    ∃ arena : SpatialArena,
      serial (UpdateCall.code h3) bucketAccess calls SpatialArena.init = .ok arena ∧
      (∀ b, (arena b).lock = false ∧ (arena b).data.window.head.toNat < 60) ∧
      (∀ b, routed h3 b calls = [] → (arena b).data = .init) ∧
      (∀ b (nonempty : routed h3 b calls ≠ []),
        let cell := ((routed h3 b calls).getLast nonempty).cell
        let run := (routed h3 b calls).rtakeWhile fun v => v.cell = cell
        (arena b).data.h3Index = cell ∧
        (arena b).data.window.head.toNat = run.length % 60 ∧
        (∀ j (hj : j < run.length), run.length ≤ j + 60 →
          (arena b).data.window.speeds (Window.slotOf 60 j) = run[j].sample.speed ∧
          (arena b).data.window.timestamps (Window.slotOf 60 j) = run[j].sample.timestamp) ∧
        ∀ k : Fin 60, run.length ≤ k →
          (arena b).data.window.speeds k = .zero ∧ (arena b).data.window.timestamps k = 0) ∧
      ∀ c : UpdateCall, (arenaIdx (c.lookup h3).2).toNat < bucketCount ∧
        ∃ ok arena', (c.code h3).exec (handle bucketAccess) arena = .ok (ok, arena') ∧
          (ok = true ↔ (c.lookup h3).1 = 0) ∧
          (ok = false → arena' = arena) ∧
          (∀ b, b ≠ bucketOf (c.lookup h3).2 → arena' b = arena b) ∧
          ∀ b, (arena' b).lock = false := by
  refine ⟨arenaAfter (visits h3 calls), serial_calls calls, ?_, ?_, ?_, ?_⟩
  · intro b
    refine ⟨rfl, ?_⟩
    rw [arenaAfter, contents_head]
    exact Nat.mod_lt _ (by decide)
  · intro b unused
    change contents (routed h3 b calls) = .init
    rw [unused, contents_nil]
  · intro b nonempty
    have hlast : ((routed h3 b calls).getLast nonempty).cell = lastCell (routed h3 b calls) := by
      simp [lastCell, List.getLast?_eq_some_getLast nonempty]
    rw [hlast]
    exact ⟨rfl, contents_head, fun j => contents_slot, fun k => contents_blank⟩
  · intro c
    refine ⟨arenaIdx_lt _, _, _, exec_code _ c, ?_, ?_, ?_, fun _ => rfl⟩
    · simp [UpdateCall.visit]
    · intro failed
      rw [Option.isSome_eq_false_iff, Option.isNone_iff_eq_none] at failed
      simp [failed]
    · intro b hb
      cases hv : c.visit h3 with
      | none => simp
      | some v =>
          have hbucket : b ≠ v.bucket := by
            unfold UpdateCall.visit at hv
            split at hv
            · obtain rfl := Option.some.inj hv
              exact hb
            · cases hv
          rw [Option.toList_some, arenaAfter_concat, Function.update_of_ne hbucket]

end TelemetrixDb.Storage
