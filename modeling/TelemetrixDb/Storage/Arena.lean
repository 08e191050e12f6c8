import TelemetrixDb.Foundation.CFloat
import TelemetrixDb.Foundation.CMachine
import TelemetrixDb.Foundation.LockSections

/-!
# The spatial arena of `arena.h` and `storage.cpp`

`update` is a program over the memory accesses it makes, so that the same
translation runs alone and among other threads. What happens between taking and
clearing a bucket's flag is one access after the other, as the source orders
them.

## Implementation notes

The H3 library is a parameter. Padding and alignment of the bucket carry no data
and are left out.

-/

namespace TelemetrixDb.Storage
open CMachine LockSections Program

abbrev bucketCount : Nat := 131072

structure TimeWindow where
  timestamps : Fin 60 → UInt32
  speeds : Fin 60 → CFloat
  head : UInt8

/-- The value `TimeWindow{}`. -/
def TimeWindow.init : TimeWindow := ⟨fun _ => 0, fun _ => .zero, 0⟩

/-- What the lock of a `HexBucket` protects. -/
structure BucketData where
  h3Index : UInt64
  window : TimeWindow

def BucketData.init : BucketData := ⟨0, .init⟩

abbrev HexBucket := Guarded BucketData

abbrev SpatialArena := Fin bucketCount → HexBucket

/-- The constructor's arena. -/
def SpatialArena.init : SpatialArena := fun _ => ⟨.init, false⟩

structure LatLng where
  lat : CDouble
  lng : CDouble

/-- The H3 library: a conversion, and a lookup that answers with an error code
and leaves a cell when that code is 0. -/
structure H3 where
  degsToRads : CDouble → CDouble
  latLngToCell : LatLng → CInt → UInt32 × UInt64
  cell_ne_zero : ∀ {geo res}, (latLngToCell geo res).1 = 0 → (latLngToCell geo res).2 ≠ 0

/-- The library of a world that is one cell. -/
def H3.oneCell (cell : UInt64) (h : cell ≠ 0) : H3 where
  degsToRads := id
  latLngToCell := fun _ _ => (0, cell)
  cell_ne_zero := fun _ => h

def h3Resolution : CInt := .lit 9

def arenaIdx (hexId : UInt64) : UInt64 := hexId &&& (UInt64.ofNat bucketCount - 1)

theorem arenaIdx_toNat (hexId : UInt64) : (arenaIdx hexId).toNat = hexId.toNat % bucketCount := by
  have mask : (UInt64.ofNat bucketCount - 1).toNat = 2 ^ 17 - 1 := by decide
  rw [arenaIdx, UInt64.toNat_and, mask, Nat.and_two_pow_sub_one_eq_mod]

theorem arenaIdx_lt (hexId : UInt64) : (arenaIdx hexId).toNat < bucketCount := by
  rw [arenaIdx_toNat]
  exact Nat.mod_lt _ (by decide)

/-- `arena_[arena_idx]`. -/
def bucketOf (hexId : UInt64) : Fin bucketCount := ⟨(arenaIdx hexId).toNat, arenaIdx_lt hexId⟩

/-- The accesses to a bucket's data. -/
inductive BucketOp
  | readH3Index
  | resetWindow
  | writeH3Index (hexId : UInt64)
  | readHead
  | writeSpeed (i : UInt8) (speed : CFloat)
  | writeTimestamp (i : UInt8) (timestamp : UInt32)
  | writeHead (head : UInt8)

abbrev BucketAns : BucketOp → Type
  | .readH3Index => UInt64
  | .readHead => UInt8
  | .resetWindow | .writeH3Index _ | .writeSpeed _ _ | .writeTimestamp _ _ | .writeHead _ => Unit

def bucketAccess : (op : BucketOp) → BucketData → Except Fault (BucketAns op × BucketData)
  | .readH3Index, d => .ok (d.h3Index, d)
  | .resetWindow, d => .ok ((), { d with window := .init })
  | .writeH3Index hexId, d => .ok ((), { d with h3Index := hexId })
  | .readHead, d => .ok (d.window.head, d)
  | .writeSpeed i speed, d =>
      match arrayWrite d.window.speeds i.toNat speed with
      | .ok speeds => .ok ((), { d with window := { d.window with speeds } })
      | .error e => .error e
  | .writeTimestamp i timestamp, d =>
      match arrayWrite d.window.timestamps i.toNat timestamp with
      | .ok timestamps => .ok ((), { d with window := { d.window with timestamps } })
      | .error e => .error e
  | .writeHead head, d => .ok ((), { d with window := { d.window with head } })

abbrev BucketCode := Code (Fin bucketCount) BucketOp BucketAns Bool

def onBucket (bucket : Fin bucketCount) (op : BucketOp) :
    Code (Fin bucketCount) BucketOp BucketAns (BucketAns op) :=
  perform (CellOp.access bucket op)

/-- `(head + 1) % 60` in `int`, stored back into a byte. -/
def nextHead (head : UInt8) : UInt8 := UInt8.ofNat ((head.toNat + 1) % 60)

def update (h3 : H3) (lat lon : CDouble) (speed : CFloat) (timestamp : UInt64) : BucketCode := do
  let geo : LatLng := ⟨h3.degsToRads lat, h3.degsToRads lon⟩
  let (err, hexId) := h3.latLngToCell geo h3Resolution
  if err ≠ 0 then
    return false
  let bucket := bucketOf hexId
  perform (CellOp.acquire bucket)
  if (← onBucket bucket .readH3Index) ≠ 0 then
    if (← onBucket bucket .readH3Index) ≠ hexId then
      onBucket bucket .resetWindow
  onBucket bucket (.writeH3Index hexId)
  let head ← onBucket bucket .readHead
  onBucket bucket (.writeSpeed head speed)
  onBucket bucket (.writeTimestamp head timestamp.toUInt32)
  onBucket bucket (.writeHead (nextHead head))
  perform (CellOp.release bucket)
  return true

/-- The arguments of a call to `update`. -/
structure UpdateCall where
  lat : CDouble
  lon : CDouble
  speed : CFloat
  timestamp : UInt64

variable (h3 : H3)

def UpdateCall.code (c : UpdateCall) : BucketCode := update h3 c.lat c.lon c.speed c.timestamp

/-- The answer of the H3 lookup that a call makes. -/
def UpdateCall.lookup (c : UpdateCall) : UInt32 × UInt64 :=
  h3.latLngToCell ⟨h3.degsToRads c.lat, h3.degsToRads c.lon⟩ h3Resolution

end TelemetrixDb.Storage
