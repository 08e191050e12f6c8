import TelemetrixDb.Engine.Delivery

/-!
# The strings of a record end inside their arrays

A record on the stack of the parser starts with whatever was there. The copies into
its arrays of `char` fill each of them with a string and zeros, so that every string
that `main` reads ends inside its array, and nothing of what the stack held leaves
the parser.

-/

namespace TelemetrixDb

namespace CharArray

variable {size m : Nat}

/-- A string that ends inside the array, and zeros after it. -/
structure Padded (a : CharArray size) : Prop where
  ends : a.text.length < size
  zeros : ∀ i : Fin size, a.text.length ≤ i → a i = 0

theorem padded_bounded (src : List UInt8) : (bounded m src).Padded := by
  constructor
  · rw [text_bounded, List.length_take]
    omega
  · intro i past
    rw [text_bounded] at past
    exact List.getD_eq_default _ _ past

end CharArray

namespace Engine
open CMachine Monitor Ingestion Storage Transition

/-- Each string of the record ends inside its array, which has zeros after it. -/
structure Padded (bus : VehicleData) : Prop where
  fleetNumber : bus.fleetNumber.Padded
  internalId : bus.internalId.Padded
  routeId : bus.routeId.Padded
  stopId : bus.stopId.Padded

theorem padded_recordOf (entity : FeedEntity) (vehicle : VehiclePosition) (position : Position) :
    Padded (recordOf entity vehicle position) where
  fleetNumber := CharArray.padded_bounded _
  internalId := CharArray.padded_bounded _
  routeId := CharArray.padded_bounded _
  stopId := CharArray.padded_bounded _

section Stack

variable {unpack : Bytes → Option FeedMessage}

/-- What the stack holds does not reach a push. -/
theorem parseLoop_stack (stack stack' : Nat → VehicleData) (entities : List FeedEntity) (i : Nat)
    (count : Except Fault CInt) :
    parseLoop bufferPush stack entities i count = parseLoop bufferPush stack' entities i count := by
  induction entities generalizing i count with
  | nil => rfl
  | cons entity rest ih =>
      cases hf : flatten entity with
      | none =>
          rw [parseLoop_skip hf, parseLoop_skip hf]
          exact ih (i + 1) count
      | some item =>
          rw [parseLoop_offer hf, parseLoop_offer hf]
          congr 1
          funext ok
          rw [ih]

theorem ingestPayload_stack (stack stack' : Nat → Nat → VehicleData) (n : Nat)
    (rawProtobuf : Option Bytes) :
    ingestPayload unpack stack n rawProtobuf = ingestPayload unpack stack' n rawProtobuf := by
  have parse (payload : Bytes) : parseAndQueue bufferPush (stack n) unpack payload =
      parseAndQueue bufferPush (stack' n) unpack payload := by
    unfold parseAndQueue
    simp only [parseLoop_stack (stack n) (stack' n)]
  unfold ingestPayload
  simp only [parse]

theorem resume_stack (stack stack' : Nat → Nat → VehicleData) :
    resume unpack stack = resume unpack stack' := by
  funext turn
  cases turn with
  | ingestion n =>
      unfold resume ingestionTurn
      simp only [ingestPayload_stack stack stack']
  | ingestionDone => rfl
  | consumer => rfl
  | signaller => rfl

end Stack

variable {T : Type} [DecidableEq T] {h3 : H3} {unpack : Bytes → Option FeedMessage}
variable {stack : Nat → Nat → VehicleData} {rb : Ring.RingBuffer VehicleData} {tables : Tables}
variable {structAllocated : Bool} {malloc : Ring.Malloc VehicleData}
variable {es : List (EngineEvent T)} {s : EngineState T}

/-- At every point of every run: each string of each record that waits in the ring or
was popped ends inside its array and has zeros after it, each line shown is that of
such a record, and whatever else the stack might have held the threads could have run
the same way. -/
theorem strings_end (init : Ring.bufferInit structAllocated malloc (.lit 1024) = some rb)
    (run : Run (EngineStep h3 unpack stack) (start rb tables) es s) :
    (∃ tail items, Ring.Represents s.monitor.shared 1024 tail items ∧ ∀ bus ∈ items, Padded bus) ∧
    (∀ bus ∈ Ring.returned (onRing es), Padded bus) ∧
    (∀ line ∈ displays es, ∃ bus ∈ Ring.returned (onRing es), Padded bus ∧
      line = lineOf tables bus) ∧
    ∀ stack', Run (EngineStep h3 unpack stack') (start rb tables) es s := by
  obtain ⟨q, ⟨⟨tail, represents⟩, -⟩, split⟩ := queue_run init run
  obtain ⟨pending, -, -, shown, -⟩ := displaying_run run
  have accepted (bus : VehicleData) (h : bus ∈ Ring.accepted (onRing es)) : Padded bus := by
    obtain ⟨payload, msg, entity, vehicle, position, -, -, -, -, -, rfl⟩ :=
      mem_feed ((accepted_prefix_feed run).subset h)
    exact padded_recordOf entity vehicle position
  have popped (bus : VehicleData) (h : bus ∈ Ring.returned (onRing es)) : Padded bus :=
    accepted bus (split ▸ List.mem_append_left _ h)
  refine ⟨⟨tail, q.items, represents, fun bus h => ?_⟩, popped, ?_, ?_⟩
  · exact accepted bus (split ▸ List.mem_append_right _ h)
  · intro line h
    obtain ⟨bus, announced, rfl⟩ := List.mem_map.mp (shown ▸ List.mem_append_left pending h)
    have here := (List.mem_filter.mp announced).1
    exact ⟨bus, here, popped bus here, rfl⟩
  · intro stack'
    unfold EngineStep
    rw [resume_stack stack' stack]
    exact run

/-- A stack without a 0. -/
def dirtyBus : VehicleData :=
  { zeroBus with
    fleetNumber := fun _ => 255, internalId := fun _ => 255, routeId := fun _ => 255,
    stopId := fun _ => 255 }

/-- A route id that fills its array is shown from a stack without a 0, as it would be from
one of zeros. -/
theorem strings_end_dirty_stack : ∃ rb s, ∃ es : List (EngineEvent Empty),
    let unpack : Bytes → Option FeedMessage :=
      fun _ => some (routedMessage (List.replicate 16 65) [57])
    Run (EngineStep oneH3 unpack fun _ _ => dirtyBus) (start rb fun _ _ => none) es s ∧
    displays es ≠ [] ∧ (∀ bus ∈ Ring.returned (onRing es), Padded bus) ∧
    Run (EngineStep oneH3 unpack fun _ _ => zeroBus) (start rb fun _ _ => none) es s := by
  obtain ⟨rb, s, es, init, run, shown⟩ := exists_shown_run oneH3 _ (fun _ _ => dirtyBus)
    (fun _ _ => none) (routed_contribution (List.replicate 16 65) [57]) (announced_routedBus _ _)
  obtain ⟨-, popped, -, any⟩ := strings_end init run
  exact ⟨rb, s, es, run, by simp [shown], popped, any _⟩

end Engine

end TelemetrixDb
