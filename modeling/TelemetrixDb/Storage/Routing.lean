import TelemetrixDb.Storage.Reading

/-!
# Routing of the cells of one resolution

The bucket index is the low 17 bits of a cell. In the layout of H3 these belong
to the digits of resolutions the cell does not have, and those are all ones in
every cell of resolution 9. So all cells share one bucket, and a bucket keeps a
cell's own samples only as long as no second cell is visited.

-/

namespace TelemetrixDb.Storage
open CMachine LockSections

/-- The 3-bit digit of resolution `r`. -/
def digit (cell : UInt64) (r : Nat) : Nat := cell.toNat / 2 ^ (3 * (15 - r)) % 8

/-- A cell in the bit layout of H3 at resolution 9. -/
structure IsResNine (cell : UInt64) : Prop where
  mode : cell.toNat / 2 ^ 59 % 16 = 1
  resolution : cell.toNat / 2 ^ 52 % 16 = 9
  digits : ∀ r < 10, 1 ≤ r → digit cell r ≤ 6
  unused : ∀ r < 16, 10 ≤ r → digit cell r = 7

/-- The parent at resolution 8: that resolution in its field, and digit 9 unused. -/
def parentOf (cell : UInt64) : UInt64 :=
  cell &&& 0xff0fffffffffffff ||| 0x0080000000000000 ||| 0x00000000001c0000

/-- The digits below resolution 9 hide the cell from the mask. -/
theorem arenaIdx_of_resNine {cell : UInt64} (h : IsResNine cell) : arenaIdx cell = 131071 := by
  have low : ∀ r < 16, 10 ≤ r → cell.toNat / 2 ^ (3 * (15 - r)) % 8 = 7 := h.unused
  have d10 := low 10 (by decide) (by decide)
  have d11 := low 11 (by decide) (by decide)
  have d12 := low 12 (by decide) (by decide)
  have d13 := low 13 (by decide) (by decide)
  have d14 := low 14 (by decide) (by decide)
  have d15 := low 15 (by decide) (by decide)
  apply UInt64.toNat_inj.mp
  rw [arenaIdx_toNat]
  change cell.toNat % 131072 = 131071
  omega

theorem bucketOf_of_resNine {cell : UInt64} (h : IsResNine cell) :
    bucketOf cell = ⟨131071, by decide⟩ := by
  apply Fin.ext
  exact congrArg UInt64.toNat (arenaIdx_of_resNine h)

section Siblings

variable {h3 : H3} {calls : List UpdateCall} {v : Visit}

/-- The calls that visit a cell. -/
def callsTo (h3 : H3) (cell : UInt64) (calls : List UpdateCall) : List UpdateCall :=
  calls.filter fun c => c.lookup h3 = (0, cell)

/-- The samples of the visits to a cell. -/
def samplesOf (h3 : H3) (cell : UInt64) (calls : List UpdateCall) : List Sample :=
  ((visits h3 calls).filter fun v => v.cell = cell).map Visit.sample

theorem visit_cell {c : UpdateCall} (h : c.visit h3 = some v) : c.lookup h3 = (0, v.cell) := by
  unfold UpdateCall.visit at h
  split at h
  · next found =>
      obtain rfl := Option.some.inj h
      exact Prod.ext found rfl
  · cases h

theorem visits_callsTo (cell : UInt64) (calls : List UpdateCall) :
    visits h3 (callsTo h3 cell calls) = (visits h3 calls).filter fun v => v.cell = cell := by
  rw [visits, callsTo, visits, List.filterMap_filter, List.filter_filterMap]
  congr 1
  funext c
  cases hv : c.visit h3 with
  | none => simp
  | some v => simp [visit_cell hv, Option.filter]

/-- Visits to cells of resolution 9 all go to one bucket. -/
theorem routed_of_resNine (resNine : ∀ v ∈ visits h3 calls, IsResNine v.cell)
    (hv : v ∈ visits h3 calls) : routed h3 v.bucket calls = visits h3 calls := by
  rw [routed, List.filter_eq_self]
  intro u hu
  simp [Visit.bucket, bucketOf_of_resNine (resNine u hu), bucketOf_of_resNine (resNine v hv)]

/-- A history of one cell keeps all its samples. -/
theorem contents_of_same {vs : List Visit} (hv : v ∈ vs) (same : ∀ u ∈ vs, u.cell = v.cell) :
    contents vs = .holding v.cell (.written 60 .blank (vs.map Visit.sample)) := by
  have nonempty : vs ≠ [] := List.ne_nil_of_mem hv
  have last : lastCell vs = v.cell := by
    simpa [lastCell, List.getLast?_eq_some_getLast nonempty] using
      same _ (List.getLast_mem nonempty)
  rw [contents, last, windowOf, trailing_of_same same]

/-- Where all lookups find cells of resolution 9, two different cells of one
parent have the same bucket index. After updates that visit children of one
parent only, every visited cell's bucket holds the cell's own recent samples, as
if its siblings had not been visited, exactly when no two cells were visited. -/
theorem siblings_kept_apart_iff (h3 : H3)
    (resNine : ∀ geo, (h3.latLngToCell geo h3Resolution).1 = 0 →
      IsResNine (h3.latLngToCell geo h3Resolution).2) :
    (∀ cell cell', IsResNine cell → IsResNine cell' → parentOf cell = parentOf cell' →
      cell ≠ cell' → arenaIdx cell = arenaIdx cell') ∧
    ∀ (parent : UInt64) (calls : List UpdateCall) (arena : SpatialArena),
      serial (UpdateCall.code h3) bucketAccess calls SpatialArena.init = .ok arena →
      (∀ v ∈ visits h3 calls, parentOf v.cell = parent) →
      ((∀ v ∈ visits h3 calls,
          (arena v.bucket).data =
            .holding v.cell (.written 60 .blank (samplesOf h3 v.cell calls)) ∧
          ∀ alone, serial (UpdateCall.code h3) bucketAccess (callsTo h3 v.cell calls)
            SpatialArena.init = .ok alone → arena v.bucket = alone v.bucket) ↔
        ∀ v ∈ visits h3 calls, ∀ u ∈ visits h3 calls, u.cell = v.cell) := by
  refine ⟨fun cell cell' h h' _ _ => ?_, ?_⟩
  · rw [arenaIdx_of_resNine h, arenaIdx_of_resNine h']
  · intro parent calls arena run _
    obtain rfl := Except.ok.inj ((serial_calls calls).symm.trans run)
    have layout : ∀ v ∈ visits h3 calls, IsResNine v.cell := by
      intro v hv
      obtain ⟨c, -, hc⟩ := List.mem_filterMap.mp hv
      have found := visit_cell hc
      rw [UpdateCall.lookup] at found
      simpa [found] using resNine _ (congrArg Prod.fst found)
    have shared : ∀ v ∈ visits h3 calls,
        (arenaAfter (visits h3 calls) v.bucket).data = contents (visits h3 calls) := fun v hv =>
      congrArg contents (routed_of_resNine layout hv)
    constructor
    · intro kept v hv u hu
      have cellV : lastCell (visits h3 calls) = v.cell :=
        congrArg BucketData.h3Index ((shared v hv).symm.trans (kept v hv).1)
      have cellU : lastCell (visits h3 calls) = u.cell :=
        congrArg BucketData.h3Index ((shared u hu).symm.trans (kept u hu).1)
      rw [← cellU, cellV]
    · intro same v hv
      have own : (visits h3 calls).filter (fun u => u.cell = v.cell) = visits h3 calls := by
        rw [List.filter_eq_self]
        intro u hu
        simpa using same v hv u hu
      constructor
      · rw [shared v hv, samplesOf, own, contents_of_same hv (same v hv)]
      · intro alone run'
        obtain rfl := Except.ok.inj ((serial_calls (callsTo h3 v.cell calls)).symm.trans run')
        rw [visits_callsTo, own]

/-- A library that finds the one of two sibling cells on the equator and the
other everywhere else. -/
def twoSiblings : H3 where
  degsToRads := id
  latLngToCell := fun geo _ =>
    (0, if geo.lat = .zero then 0x89754e64993ffff else 0x89754e64983ffff)
  cell_ne_zero := by
    intro geo res _
    dsimp only
    split <;> decide

theorem twoSiblings_resNine (geo : LatLng) :
    IsResNine (twoSiblings.latLngToCell geo h3Resolution).2 := by
  dsimp only [twoSiblings]
  split
  · exact ⟨by decide, by decide, by decide, by decide⟩
  · exact ⟨by decide, by decide, by decide, by decide⟩

/-- A bus in each of the two cells. -/
def twoBuses : List UpdateCall :=
  [⟨.zero, .zero, .zero, 1700000000⟩,
    ⟨⟨0x3f50000000000000, by decide⟩, .zero, .zero, 1700000001⟩]

theorem visits_twoBuses : (visits twoSiblings twoBuses).map Visit.cell =
    [0x89754e64993ffff, 0x89754e64983ffff] := by
  decide

/-- Updates of both siblings do not keep their samples. -/
theorem siblings_kept_apart_iff_two :
    ∃ arena, serial (UpdateCall.code twoSiblings) bucketAccess twoBuses SpatialArena.init =
        .ok arena ∧
      ¬ ∀ v ∈ visits twoSiblings twoBuses,
        (arena v.bucket).data =
            .holding v.cell (.written 60 .blank (samplesOf twoSiblings v.cell twoBuses)) ∧
          ∀ alone, serial (UpdateCall.code twoSiblings) bucketAccess
            (callsTo twoSiblings v.cell twoBuses) SpatialArena.init = .ok alone →
            arena v.bucket = alone v.bucket := by
  have cells : ∀ cell ∈ (visits twoSiblings twoBuses).map Visit.cell,
      parentOf cell = 0x88754e6499fffff := by
    rw [visits_twoBuses, List.forall_mem_cons, List.forall_mem_singleton]
    exact ⟨rfl, rfl⟩
  have parents : ∀ v ∈ visits twoSiblings twoBuses, parentOf v.cell = 0x88754e6499fffff :=
    fun v hv => cells v.cell (List.mem_map_of_mem hv)
  refine ⟨_, serial_calls _, fun kept => ?_⟩
  have same := ((siblings_kept_apart_iff twoSiblings fun geo _ => twoSiblings_resNine geo).2
    0x88754e6499fffff twoBuses _ (serial_calls _) parents).mp kept
  obtain ⟨v, hv, first⟩ := List.mem_map.mp (visits_twoBuses ▸ List.mem_cons_self)
  obtain ⟨u, hu, second⟩ := List.mem_map.mp
    (visits_twoBuses ▸ List.mem_cons_of_mem _ List.mem_cons_self)
  have equal := same v hv u hu
  rw [first, second] at equal
  exact absurd equal (by decide)

/-- Two distinct cells of one parent have the same bucket index, and a visit of
the second takes the bucket over. -/
theorem siblings_share_bucket :
    (¬ ∀ cell cell', IsResNine cell → IsResNine cell' → parentOf cell = parentOf cell' →
      cell ≠ cell' → arenaIdx cell ≠ arenaIdx cell') ∧
    ∃ arena, serial (UpdateCall.code twoSiblings) bucketAccess twoBuses SpatialArena.init =
        .ok arena ∧
      (arena (bucketOf 0x89754e64993ffff)).data.h3Index = 0x89754e64983ffff := by
  refine ⟨fun always => ?_, _, serial_calls _, ?_⟩
  · exact always 0x89754e64993ffff 0x89754e64983ffff
      ⟨by decide, by decide, by decide, by decide⟩ ⟨by decide, by decide, by decide, by decide⟩
      (by decide) (by decide) (by decide)
  · decide

end Siblings

end TelemetrixDb.Storage
