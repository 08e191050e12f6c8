import TelemetrixDb.Engine.Producer
import TelemetrixDb.Ingestion.Fetcher

/-!
# The threads with their heap

The threads of `main.cpp` once more, with the heap that the downloads live in. The
ingestion thread holds a pointer and a size, reads the payload from its block for the
parse and frees the block, while `main` and the others run.

## Implementation notes

A download is one step: no other thread uses the heap. The parser has read its payload
when it has unpacked it, so it reads it in one step as well. What the downloads meet is
left to the network: download `k` meets `network k`, and the world counts the downloads.

-/

namespace TelemetrixDb.Engine
open CMachine Monitor Ingestion Storage

/-- The threads' own calls, of which those on the heap have their pointers. -/
inductive HeapOp
  | fetchGtfsData
  | read (rawProtobuf : Nat) (payloadSize : Nat)
  | free (rawProtobuf : Option Nat)
  | engine (l : OwnOp)

/-- A download answers with a pointer and the size of the payload. -/
abbrev HeapAns : HeapOp → Type
  | .fetchGtfsData => Option Nat × Nat
  | .read _ _ => Bytes
  | .free _ => Unit
  | .engine l => OwnAns l

abbrev HeapCode (α : Type) := Client (Ring.Reply (V := VehicleData)) HeapAns α

/-- Code that does not use the heap. -/
def heapless {α : Type} : EngineCode α → HeapCode α
  | .ret a => .ret a
  | .call (.shared call) next => .call (.shared call) fun reply => heapless (next reply)
  | .call (.own l) next => .call (.own (.engine l)) fun x => heapless (next x)

def heapOwn (l : HeapOp) : HeapCode (HeapAns l) := Program.perform (ClientOp.own l)

section Loops

variable (unpack : Bytes → Option FeedMessage) (stack : Nat → Nat → VehicleData)

/-- The part of a turn of `ingestion_thread` after the download. -/
def heapIngestPayload (n : Nat) : Option Nat × Nat → HeapCode Unit
  | (none, _) => return ()
  | (some rawProtobuf, payloadSize) =>
      if 0 < payloadSize then do
        let payload ← heapOwn (.read rawProtobuf payloadSize)
        let _ ← parseAndQueue (fun item => heapless (bufferPush item)) (stack n) unpack payload
        heapOwn (.free (some rawProtobuf))
      else return ()

/-- Turn `n` of `ingestion_thread`. -/
def heapIngestionTurn (n : Nat) : HeapCode Turn := do
  if ← heapless (ring .isShutdown) then
    return .ingestionDone
  let rawProtobuf ← heapOwn .fetchGtfsData
  heapIngestPayload unpack stack n rawProtobuf
  heapless (own .sleep)
  return .ingestion (n + 1)

/-- The next turn of a thread's loop, if it has one. -/
def heapResume : Turn → Option (HeapCode Turn)
  | .ingestion n => some (heapIngestionTurn unpack stack n)
  | .ingestionDone => none
  | .consumer poppedBus totalProcessed => some (heapless (consumerTurn poppedBus totalProcessed))
  | .signaller => some (heapless signallerTurn)

end Loops

/-- What the threads share besides the ring, the heap, and how many downloads there have
been. -/
structure HeapWorld where
  engine : World
  heap : Heap
  fetches : Nat

/-- What a thread's own call may answer and leave, where download `k` meets `network k`. -/
def HeapOwn (h3 : H3) (network : Nat → Fetch) :
    (l : HeapOp) → HeapWorld → HeapAns l → HeapWorld → Prop
  | .fetchGtfsData, w, answer, w' =>
      fetchGtfsData (network w.fetches) 0 w.heap = .ok (answer.1, answer.2, w'.heap) ∧
        w'.engine = w.engine ∧ w'.fetches = w.fetches + 1
  | .read rawProtobuf payloadSize, w, payload, w' =>
      w.heap.load rawProtobuf payloadSize = .ok payload ∧ w' = w
  | .free rawProtobuf, w, _, w' =>
      w.heap.free rawProtobuf = .ok w'.heap ∧ w'.engine = w.engine ∧ w'.fetches = w.fetches
  | .engine .fetchGtfsData, _, _, _ => False
  | .engine (.free _), _, _, _ => False
  | .engine l, w, x, w' =>
      Own h3 l w.engine x w'.engine ∧ w'.heap = w.heap ∧ w'.fetches = w.fetches

variable {T : Type}

abbrev HeapState (T : Type) :=
  System (Ring.RingBuffer VehicleData) (Thread T) Ring.Cond HeapWorld Turn
    (Ring.Reply (V := VehicleData)) HeapAns

/-- The program once the ring is made in a heap and the ingestion thread is created. -/
def heapStart (rb : Ring.RingBuffer VehicleData) (tables : Tables) (heap : Heap) :
    HeapState T where
  monitor := Config.start rb
  code := fun t => .ret (firstTurn t)
  world := ⟨⟨.init, tables⟩, heap, 0⟩

abbrev HeapEvent (T : Type) :=
  SystemEvent (Thread T) Ring.Cond (Ring.Reply (V := VehicleData)) HeapAns

/-- One step of one thread of the engine on its heap. -/
abbrev HeapStep [DecidableEq T] (h3 : H3) (unpack : Bytes → Option FeedMessage)
    (stack : Nat → Nat → VehicleData) (network : Nat → Fetch) :=
  ClientStep (T := Thread T) Ring.body (HeapOwn h3 network) (heapResume unpack stack)

end TelemetrixDb.Engine
