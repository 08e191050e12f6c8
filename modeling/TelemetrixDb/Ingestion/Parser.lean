import TelemetrixDb.Foundation.Program
import TelemetrixDb.Ingestion.Feed

/-!
# The parser of `parser.c`

The record under construction is a local variable that starts with whatever the
stack holds. The parser is a program over the one call that it makes on the ring,
so its loop can be followed for every pattern of answers.

## Implementation notes

Unpacking the payload is protobuf's, and a parameter. What is printed about a
payload is the parser's result. The loop never reads the count it prints, so an
overflow of that count leaves the loop alone and the count without a value.

-/

namespace TelemetrixDb.Ingestion
open CMachine

/-- `has ? x : 0.0`, a `double`, stored back into a `float`. -/
def floatOrZero (has : Bool) (x : CFloat) : CFloat :=
  (if has then x.toDouble else .zero).toFloat (by
    split
    · exact x.fits
    · exact CDouble.zero_fitsFloat)

/-- The assignments to the record of one vehicle, in the order of its fields. -/
def fillItem (item : VehicleData) (entity : FeedEntity) (vehicle : VehiclePosition)
    (position : Position) : VehicleData :=
  let rawFleet := (vehicle.vehicle.bind (·.label)).getD (entity.id.getD unknown)
  let rawInternalId := (vehicle.vehicle.bind (·.id)).getD unknown
  let rawRoute := (vehicle.trip.bind (·.routeId)).getD unknown
  let rawStop := vehicle.stopId.getD unknown
  { fleetNumber := item.fleetNumber.setText rawFleet
    internalId := item.internalId.setText rawInternalId
    routeId := item.routeId.setText rawRoute
    lat := position.latitude
    lon := position.longitude
    speed := floatOrZero position.hasSpeed position.speed
    occupancyStatus := if vehicle.hasOccupancyStatus then vehicle.occupancyStatus else .lit 7
    occupancyPercentage := .ofUInt32
      (if vehicle.hasOccupancyPercentage then vehicle.occupancyPercentage
        else CInt.toUInt32 (.lit (-1)))
    bearing := floatOrZero position.hasBearing position.bearing
    timestamp := if vehicle.hasTimestamp then vehicle.timestamp else 0
    currentStatus := if vehicle.hasCurrentStatus then vehicle.currentStatus else .lit 2
    congestionLevel := if vehicle.hasCongestionLevel then vehicle.congestionLevel else .lit 0
    stopId := item.stopId.setText rawStop }

/-- What the parser reports about a payload. -/
inductive Report
  | unpackFailed
  | pushed (count : Except Fault CInt)

variable {Op : Type} {Ans : Op → Type} (push : VehicleData → Program Op Ans Bool)
variable (stack : Nat → VehicleData)

/-- The loop over the entities from number `i` on, with the count so far. -/
def parseLoop : List FeedEntity → Nat → Except Fault CInt → Program Op Ans (Except Fault CInt)
  | [], _, pushedCount => return pushedCount
  | entity :: rest, i, pushedCount =>
      match entity.vehicle with
      | none => parseLoop rest (i + 1) pushedCount
      | some vehicle =>
          match vehicle.position with
          | none => parseLoop rest (i + 1) pushedCount
          | some position => do
              if ← push (fillItem (stack i) entity vehicle position) then
                parseLoop rest (i + 1) (pushedCount >>= fun n => n.add (.lit 1))
              else
                return pushedCount

def parseAndQueue (unpack : Bytes → Option FeedMessage) (buffer : Bytes) :
    Program Op Ans Report :=
  match unpack buffer with
  | none => return .unpackFailed
  | some msg => do
      return .pushed (← parseLoop push stack msg.entity 0 (.ok (.lit 0)))

end TelemetrixDb.Ingestion
