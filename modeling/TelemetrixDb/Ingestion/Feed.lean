import TelemetrixDb.Foundation.CFloat
import TelemetrixDb.Foundation.CMachine
import TelemetrixDb.Foundation.CString

/-!
# The decoded feed and the flat record

The messages are those of `gtfs-realtime.pb-c.h` as far as the parser reads them.
A pointer that may be null is an `Option`, and a `char *` is the bytes it leads
to. An enumeration of the feed keeps every `int` the wire can carry.

-/

namespace TelemetrixDb.Ingestion
open CMachine

abbrev Bytes := List UInt8

structure TripDescriptor where
  routeId : Option Bytes

structure VehicleDescriptor where
  id : Option Bytes
  label : Option Bytes

structure Position where
  latitude : CFloat
  longitude : CFloat
  hasBearing : Bool
  bearing : CFloat
  hasSpeed : Bool
  speed : CFloat

structure VehiclePosition where
  trip : Option TripDescriptor
  vehicle : Option VehicleDescriptor
  position : Option Position
  stopId : Option Bytes
  hasCurrentStatus : Bool
  currentStatus : CInt
  hasTimestamp : Bool
  timestamp : UInt64
  hasCongestionLevel : Bool
  congestionLevel : CInt
  hasOccupancyStatus : Bool
  occupancyStatus : CInt
  hasOccupancyPercentage : Bool
  occupancyPercentage : UInt32

structure FeedEntity where
  id : Option Bytes
  vehicle : Option VehiclePosition

structure FeedMessage where
  entity : List FeedEntity

/-- The record of `buffer.h`. -/
@[ext] structure VehicleData where
  fleetNumber : CharArray 16
  internalId : CharArray 16
  routeId : CharArray 16
  lat : CFloat
  lon : CFloat
  speed : CFloat
  occupancyStatus : CInt
  occupancyPercentage : CInt
  bearing : CFloat
  timestamp : UInt64
  currentStatus : CInt
  congestionLevel : CInt
  stopId : CharArray 32

/-- The literal `"UNKNOWN"`. -/
def unknown : Bytes := [85, 78, 75, 78, 79, 87, 78]

end TelemetrixDb.Ingestion
