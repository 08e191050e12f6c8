import TelemetrixDb.Foundation.MonitorClients
import TelemetrixDb.Ingestion.Parser
import TelemetrixDb.Ring.RingBuffer
import TelemetrixDb.Storage.Arena

/-!
# The threads of `main.cpp`

The ingestion thread and the consumer loop of `main` are programs, one turn of a
loop at a time, over their calls on the ring and what else they do. Any number of
further threads may ask for a shutdown at any time.

## Implementation notes

What a download brings is left to the environment, so a run has any sequence of
payloads. Progress messages are left out, and the line shown for a bus has its
speed in the unit of the feed.

-/

namespace TelemetrixDb.Engine
open CMachine Monitor Ingestion Storage LockSections

/-- The dictionaries of `load_static_gtfs`. -/
inductive Table
  | routeNames
  | stopNames
  deriving DecidableEq

abbrev Tables := Table → Bytes → Option Bytes

/-- The line shown for a bus with passengers. -/
structure DisplayLine where
  fleetNumber : Bytes
  route : Bytes
  speed : CFloat
  load : String
  percent : CInt
  bearing : CFloat
  stop : Bytes

/-- What the threads do besides calling the ring. -/
inductive OwnOp
  | fetchGtfsData
  | free (payload : Bytes)
  | sleep
  | update (c : UpdateCall)
  | count (table : Table) (key : Bytes)
  | index (table : Table) (key : Bytes)
  | display (line : DisplayLine)

/-- A download answers with nothing or with a block of the payload's size. -/
abbrev OwnAns : OwnOp → Type
  | .fetchGtfsData => Option Bytes
  | .update _ => Bool
  | .count _ _ => Bool
  | .index _ _ => Bytes
  | .free _ | .sleep | .display _ => Unit

abbrev RingOp := Ring.Call VehicleData

/-- What a thread carries from one turn of its loop to the next. -/
inductive Turn
  | ingestion (n : Nat)
  | ingestionDone
  | consumer (poppedBus : VehicleData) (totalProcessed : UInt64)
  | signaller

abbrev EngineCode (α : Type) := Client (Ring.Reply (V := VehicleData)) OwnAns α

def ring (call : RingOp) : EngineCode (Ring.Reply call) := Program.perform (ClientOp.shared call)

def own (l : OwnOp) : EngineCode (OwnAns l) := Program.perform (ClientOp.own l)

def bufferPush (item : VehicleData) : EngineCode Bool := ring (.push item)

section Loops

variable (unpack : Bytes → Option FeedMessage) (stack : Nat → Nat → VehicleData)

/-- The part of a turn of `ingestion_thread` after the download. -/
def ingestPayload (n : Nat) : Option Bytes → EngineCode Unit
  | none => return ()
  | some rawProtobuf =>
      if 0 < rawProtobuf.length then do
        let _ ← parseAndQueue bufferPush (stack n) unpack rawProtobuf
        own (.free rawProtobuf)
      else return ()

/-- Turn `n` of `ingestion_thread`. -/
def ingestionTurn (n : Nat) : EngineCode Turn := do
  if ← ring .isShutdown then
    return .ingestionDone
  let rawProtobuf ← own .fetchGtfsData
  ingestPayload unpack stack n rawProtobuf
  own .sleep
  return .ingestion (n + 1)

def getOccupancyString (status : CInt) : String :=
  match status.val with
  | 0 => "EMPTY (0)"
  | 1 => "MANY SEATS (1)"
  | 2 => "FEW SEATS (2)"
  | 3 => "STANDING ROOM ONLY (3)"
  | 4 => "CRUSHED STANDING (4)"
  | 5 => "FULL (5)"
  | 6 => "NOT ACCEPTING PASSENGERS (6)"
  | 7 => "NO DATA (7)"
  | 8 => "NOT BOARDABLE (8)"
  | _ => "UNKNOWN"

/-- The table's name of an id, and the id itself where the table has none. -/
def displayName (table : Table) (id : Bytes) : EngineCode Bytes := do
  if ← own (.count table id) then
    own (.index table id)
  else
    return id

/-- The lookups and the line for a bus with passengers. -/
def showBus (bus : VehicleData) : EngineCode Unit := do
  if 1 < bus.occupancyStatus.val ∧ bus.occupancyStatus.val < 6 then
    let route ← displayName .routeNames bus.routeId.text
    let stop ← displayName .stopNames bus.stopId.text
    own (.display
      { fleetNumber := bus.fleetNumber.text, route, speed := bus.speed,
        load := getOccupancyString bus.occupancyStatus, percent := bus.occupancyPercentage,
        bearing := bus.bearing, stop })

/-- The arguments of `arena.update` for a bus; its position is widened. -/
def updateCall (bus : VehicleData) : UpdateCall :=
  ⟨bus.lat.toDouble, bus.lon.toDouble, bus.speed, bus.timestamp⟩

/-- One turn of the loop of `main`. -/
def consumerTurn (poppedBus : VehicleData) (totalProcessed : UInt64) : EngineCode Turn := do
  let (gotData, bus) ← ring (.pop poppedBus)
  if gotData = false then
    return .consumer bus totalProcessed
  if strncmp (List.ofFn bus.internalId) unknown 16 = 0 then
    return .consumer bus totalProcessed
  let applied ← own (.update (updateCall bus))
  showBus bus
  return .consumer bus (if applied then totalProcessed + 1 else totalProcessed)

/-- A thread that asks for a shutdown. -/
def signallerTurn : EngineCode Turn := do
  ring .signalShutdown
  return .signaller

/-- The next turn of a thread's loop, if it has one. -/
def resume : Turn → Option (EngineCode Turn)
  | .ingestion n => some (ingestionTurn unpack stack n)
  | .ingestionDone => none
  | .consumer poppedBus totalProcessed => some (consumerTurn poppedBus totalProcessed)
  | .signaller => some signallerTurn

end Loops

/-- What the threads share besides the ring. -/
structure World where
  arena : SpatialArena
  tables : Tables

/-- What a thread's own call may answer and leave. Indexing a table enters the
key when it is missing. -/
def Own (h3 : H3) : (l : OwnOp) → World → OwnAns l → World → Prop
  | .update c, w, applied, w' =>
      (c.code h3).exec (handle bucketAccess) w.arena = .ok (applied, w'.arena) ∧
        w'.tables = w.tables
  | .count table key, w, found, w' => found = (w.tables table key).isSome ∧ w' = w
  | .index table key, w, name, w' =>
      name = (w.tables table key).getD [] ∧ w'.arena = w.arena ∧
        w'.tables = Function.update w.tables table
          (Function.update (w.tables table) key (some name))
  | .fetchGtfsData, w, _, w' => w' = w
  | .free _, w, _, w' => w' = w
  | .sleep, w, _, w' => w' = w
  | .display _, w, _, w' => w' = w

/-- The threads of the program, and those that only ask for a shutdown. -/
inductive Thread (T : Type)
  | ingestion
  | main
  | signaller (t : T)
  deriving DecidableEq

/-- The value `VehicleData{}`. -/
def zeroBus : VehicleData where
  fleetNumber := fun _ => 0
  internalId := fun _ => 0
  routeId := fun _ => 0
  lat := .zero
  lon := .zero
  speed := .zero
  occupancyStatus := .lit 0
  occupancyPercentage := .lit 0
  bearing := .zero
  timestamp := 0
  currentStatus := .lit 0
  congestionLevel := .lit 0
  stopId := fun _ => 0

variable {T : Type}

/-- The first turn of each thread's loop. -/
def firstTurn : Thread T → Turn
  | .ingestion => .ingestion 0
  | .main => .consumer zeroBus 0
  | .signaller _ => .signaller

abbrev EngineState (T : Type) :=
  System (Ring.RingBuffer VehicleData) (Thread T) Ring.Cond World Turn
    (Ring.Reply (V := VehicleData)) OwnAns

/-- The program once the ring is made and the ingestion thread is created. -/
def start (rb : Ring.RingBuffer VehicleData) (tables : Tables) : EngineState T where
  monitor := Config.start rb
  code := fun t => .ret (firstTurn t)
  world := ⟨.init, tables⟩

abbrev EngineEvent (T : Type) :=
  SystemEvent (Thread T) Ring.Cond (Ring.Reply (V := VehicleData)) OwnAns

/-- A completed call of a thread with its answer. -/
abbrev EngineCall := Called (Ring.Reply (V := VehicleData)) OwnAns

/-- One step of one thread of the engine. -/
abbrev EngineStep [DecidableEq T] (h3 : H3) (unpack : Bytes → Option FeedMessage)
    (stack : Nat → Nat → VehicleData) :=
  ClientStep (T := Thread T) Ring.body (Own h3) (resume unpack stack)

end TelemetrixDb.Engine
