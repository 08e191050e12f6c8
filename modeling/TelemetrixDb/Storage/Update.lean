import TelemetrixDb.Foundation.CircularWindow
import TelemetrixDb.Foundation.LockSerialization
import TelemetrixDb.Storage.Arena

/-!
# An update is one section on one bucket

A `TimeWindow` whose write position is in range is a window of samples. On such
data the section that `update` runs under the bucket's lock never writes outside
an array, and it pushes one sample into the window, emptied first when another
cell was there.

-/

namespace TelemetrixDb.Storage
open CMachine LockSections Program

@[ext] structure Sample where
  speed : CFloat
  timestamp : UInt32
  deriving DecidableEq

/-- What an unwritten slot reads as. -/
def Sample.blank : Sample := ⟨.zero, 0⟩

instance timeWindow_neZero : NeZero 60 := ⟨by decide⟩

/-- The `TimeWindow` with the write position and the slots of a window. -/
def TimeWindow.ofWindow (w : Window 60 Sample) : TimeWindow where
  timestamps := fun k => (w.slots k).timestamp
  speeds := fun k => (w.slots k).speed
  head := UInt8.ofNat w.head

def BucketData.holding (cell : UInt64) (w : Window 60 Sample) : BucketData := ⟨cell, .ofWindow w⟩

/-- The data of a bucket with its write position in range. -/
def BucketData.WellFormed (d : BucketData) : Prop := ∃ cell w, d = .holding cell w

@[simp] theorem ofWindow_head_toNat (w : Window 60 Sample) :
    (TimeWindow.ofWindow w).head.toNat = w.head := by
  have hhead := w.head.isLt
  simp only [TimeWindow.ofWindow, UInt8.toNat_ofNat']
  omega

theorem ofWindow_injective {w w' : Window 60 Sample}
    (h : TimeWindow.ofWindow w = TimeWindow.ofWindow w') : w = w' := by
  apply Window.ext
  · apply Fin.ext
    rw [← ofWindow_head_toNat, h, ofWindow_head_toNat]
  · funext k
    apply Sample.ext
    · exact congrFun (congrArg TimeWindow.speeds h) k
    · exact congrFun (congrArg TimeWindow.timestamps h) k

theorem ofWindow_fresh : TimeWindow.ofWindow (.fresh .blank) = .init := rfl

/-- A push is the three stores that `update` makes into the window. -/
theorem ofWindow_push (w : Window 60 Sample) (s : Sample) :
    TimeWindow.ofWindow (w.push s) =
      { timestamps := Function.update (TimeWindow.ofWindow w).timestamps w.head s.timestamp
        speeds := Function.update (TimeWindow.ofWindow w).speeds w.head s.speed
        head := nextHead (TimeWindow.ofWindow w).head } := by
  rw [nextHead, ofWindow_head_toNat]
  simp only [TimeWindow.ofWindow, Window.push, Window.slotOf_val, TimeWindow.mk.injEq, and_true]
  constructor
  · funext k
    by_cases hk : k = w.head <;> simp [hk]
  · funext k
    by_cases hk : k = w.head <;> simp [hk]

section Update

variable {h3 : H3} {lat lon : CDouble} {speed : CFloat} {timestamp : UInt64}
variable {bucket : Fin bucketCount} {hexId cell : UInt64} {w : Window 60 Sample}

/-- The section of `update` from the write of `h3_index` on. -/
def recordCode (bucket : Fin bucketCount) (hexId : UInt64) (speed : CFloat) (timestamp : UInt64) :
    BucketCode := do
  onBucket bucket (.writeH3Index hexId)
  let head ← onBucket bucket .readHead
  onBucket bucket (.writeSpeed head speed)
  onBucket bucket (.writeTimestamp head timestamp.toUInt32)
  onBucket bucket (.writeHead (nextHead head))
  perform (CellOp.release bucket)
  return true

/-- The section of `update`: the test of `h3_index`, then the rest. -/
def sectionCode (bucket : Fin bucketCount) (hexId : UInt64) (speed : CFloat) (timestamp : UInt64) :
    BucketCode :=
  .call (.access bucket .readH3Index) fun stored =>
    if stored = 0 then recordCode bucket hexId speed timestamp
    else .call (.access bucket .readH3Index) fun stored' =>
      if stored' = hexId then recordCode bucket hexId speed timestamp
      else .call (.access bucket .resetWindow) fun _ => recordCode bucket hexId speed timestamp

theorem update_failed (h : (h3.latLngToCell ⟨h3.degsToRads lat, h3.degsToRads lon⟩
    h3Resolution).1 ≠ 0) : update h3 lat lon speed timestamp = .ret false := by
  simp [update, h]

theorem update_found (hexId : UInt64)
    (h : h3.latLngToCell ⟨h3.degsToRads lat, h3.degsToRads lon⟩ h3Resolution = (0, hexId)) :
    update h3 lat lon speed timestamp =
      .call (.acquire (bucketOf hexId)) fun _ =>
        sectionCode (bucketOf hexId) hexId speed timestamp := by
  unfold update
  extract_lets geo
  rw [h]
  simp [onBucket, sectionCode, recordCode]

theorem inside_recordCode : Inside bucket true (recordCode bucket hexId speed timestamp) := by
  simp only [recordCode, onBucket, perform_bind]
  refine .access _ fun _ => .access _ fun _ => .access _ fun _ => .access _ fun _ =>
    .access _ fun _ => .release rfl

theorem inside_sectionCode : Inside bucket true (sectionCode bucket hexId speed timestamp) := by
  refine .access _ fun stored => ?_
  split
  · exact inside_recordCode
  · refine .access _ fun stored' => ?_
    split
    · exact inside_recordCode
    · exact .access _ fun _ => inside_recordCode

/-- The writes of a section put one sample into the window. -/
theorem effect_recordCode :
    effect bucketAccess (recordCode bucket hexId speed timestamp) (.holding cell w) =
      .ok (.holding hexId (w.push ⟨speed, timestamp.toUInt32⟩)) := by
  simp only [recordCode, onBucket, perform_bind, effect, bucketAccess, BucketData.holding,
    ofWindow_head_toNat, arrayWrite_fin]
  rw [ofWindow_push]

/-- A section first empties the window of another cell. -/
theorem effect_sectionCode :
    effect bucketAccess (sectionCode bucket hexId speed timestamp) (.holding cell w) =
      .ok (.holding hexId
        ((if cell ≠ 0 ∧ cell ≠ hexId then .fresh .blank else w).push
          ⟨speed, timestamp.toUInt32⟩)) := by
  simp only [sectionCode, effect, bucketAccess]
  by_cases unused : cell = 0
  · rw [if_pos (by exact unused), if_neg (by simp [unused]), effect_recordCode]
  · rw [if_neg (by exact unused), effect, bucketAccess]
    by_cases same : cell = hexId
    · rw [if_neg (by simp [same])]
      simpa [BucketData.holding, same] using effect_recordCode
    · have emptied : effect bucketAccess (recordCode bucket hexId speed timestamp)
          (.holding cell (.fresh .blank)) = _ := effect_recordCode
      rw [if_pos ⟨unused, same⟩, ← emptied]
      simp [BucketData.holding, same, effect, bucketAccess, ofWindow_fresh]

end Update

end TelemetrixDb.Storage
