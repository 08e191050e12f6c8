import TelemetrixDb.Foundation.CMachine
import TelemetrixDb.Foundation.Monitor

/-!
# The ring buffer of `buffer.h` and `buffer.c`

Each function is given as what it does between taking the lock and giving it
back. The loop around `pthread_cond_wait` tests again from the top after every
wake-up, so a woken thread runs the same section as one that is entering.

## Implementation notes

The ring never looks inside a record, so the record type is a parameter and
only its size is fixed. The mutex and the two condition variables live in the
monitor that runs these sections.

-/

namespace TelemetrixDb.Ring
open CMachine Monitor

/-- `sizeof(VehicleData)`: three strings of 16 bytes, six 4-byte fields, the
8-byte timestamp, two 4-byte fields and a string of 32 bytes. -/
def sizeofVehicleData : Nat := 120

/-- The two condition variables. -/
inductive Cond
  | notEmpty
  | notFull
  deriving DecidableEq

structure RingBuffer (V : Type) where
  data : Block V
  capacity : CInt
  head : CInt
  tail : CInt
  count : CInt
  shutdown : Bool

/-- The allocator as the buffer sees it: a block it returns has the requested
length and arbitrary contents, and no block is longer than `PTRDIFF_MAX`. -/
structure Malloc (V : Type) where
  alloc : Nat → Option (Block V)
  bytes_eq : ∀ {n b}, alloc n = some b → b.bytes = n
  limit : ∀ {n}, 2 ^ 63 ≤ n → alloc n = none

variable {V : Type}

/-- The allocator that refuses only what the limit forbids, with every cell of
a new block holding `v`. -/
def Malloc.granting (v : V) : Malloc V where
  alloc n := if 2 ^ 63 ≤ n then none else some ⟨n, fun _ => v⟩
  bytes_eq := by
    intro n b h
    split at h <;> cases h
    rfl
  limit := fun h => if_pos h

/-- `structAllocated` is the success of the first `malloc`. -/
def bufferInit (structAllocated : Bool) (malloc : Malloc V) (capacity : CInt) :
    Option (RingBuffer V) :=
  if structAllocated then
    match malloc.alloc (sizeMul sizeofVehicleData capacity.toSize) with
    | none => none
    | some data =>
        some { data, capacity, head := .lit 0, tail := .lit 0, count := .lit 0,
               shutdown := false }
  else none

def noNotice : Cond → Notice := fun _ => .none

def signalTo (c : Cond) : Cond → Notice := fun c' => if c' = c then .signal else .none

def bufferPush (rb : RingBuffer V) (item : V) :
    Except Fault (Outcome (RingBuffer V) Cond Bool) :=
  if rb.count = rb.capacity ∧ rb.shutdown = false then
    return .wait .notFull
  else if rb.shutdown then
    return .done rb false noNotice
  else do
    let data ← rb.data.write sizeofVehicleData rb.head item
    let head ← (← rb.head.add (.lit 1)).rem rb.capacity
    let count ← rb.count.add (.lit 1)
    return .done { rb with data, head, count } true (signalTo .notEmpty)

/-- `item` is the caller's record before the call; the reply carries it as the
call leaves it. -/
def bufferPop (rb : RingBuffer V) (item : V) :
    Except Fault (Outcome (RingBuffer V) Cond (Bool × V)) :=
  if rb.count = .lit 0 ∧ rb.shutdown = false then
    return .wait .notEmpty
  else if rb.shutdown = true ∧ rb.count = .lit 0 then
    return .done rb (false, item) noNotice
  else do
    let item ← rb.data.read sizeofVehicleData rb.tail
    let tail ← (← rb.tail.add (.lit 1)).rem rb.capacity
    let count ← rb.count.sub (.lit 1)
    return .done { rb with tail, count } (true, item) (signalTo .notFull)

def bufferSignalShutdown (rb : RingBuffer V) :
    Except Fault (Outcome (RingBuffer V) Cond Unit) :=
  return .done { rb with shutdown := true } () fun _ => .broadcast

def bufferIsShutdown (rb : RingBuffer V) :
    Except Fault (Outcome (RingBuffer V) Cond Bool) :=
  return .done rb rb.shutdown noNotice

/-- The calls a thread can make on the ring. -/
inductive Call (V : Type)
  | push (item : V)
  | pop (item : V)
  | signalShutdown
  | isShutdown

/-- The type of a call's result. -/
abbrev Reply : Call V → Type
  | .push _ => Bool
  | .pop _ => Bool × V
  | .signalShutdown => Unit
  | .isShutdown => Bool

/-- The section a call runs whenever it holds the lock. -/
def body (rb : RingBuffer V) :
    (call : Call V) → Except Fault (Outcome (RingBuffer V) Cond (Reply call))
  | .push item => bufferPush rb item
  | .pop item => bufferPop rb item
  | .signalShutdown => bufferSignalShutdown rb
  | .isShutdown => bufferIsShutdown rb

/-- A push that returns false ran after the shutdown and left the ring alone. -/
theorem bufferPush_refused {rb rb' : RingBuffer V} {item : V} {notice : Cond → Notice}
    (h : bufferPush rb item = .ok (.done rb' false notice)) :
    rb.shutdown = true ∧ rb' = rb := by
  unfold bufferPush at h
  split at h
  · cases h
  · split at h
    · next closed =>
        cases h
        exact ⟨closed, rfl⟩
    · obtain ⟨data, -, h⟩ := bind_eq_ok.mp h
      obtain ⟨next, -, h⟩ := bind_eq_ok.mp h
      obtain ⟨head, -, h⟩ := bind_eq_ok.mp h
      obtain ⟨count, -, h⟩ := bind_eq_ok.mp h
      cases h

/-- A pop that returns false ran after the shutdown on an empty ring and left
the ring and the caller's record alone. -/
theorem bufferPop_refused {rb rb' : RingBuffer V} {item result : V} {notice : Cond → Notice}
    (h : bufferPop rb item = .ok (.done rb' (false, result) notice)) :
    rb.shutdown = true ∧ rb.count = .lit 0 ∧ rb' = rb ∧ result = item := by
  unfold bufferPop at h
  split at h
  · cases h
  · split at h
    · next closed =>
        cases h
        exact ⟨closed.1, closed.2, rfl, rfl⟩
    · obtain ⟨oldest, -, h⟩ := bind_eq_ok.mp h
      obtain ⟨next, -, h⟩ := bind_eq_ok.mp h
      obtain ⟨tail, -, h⟩ := bind_eq_ok.mp h
      obtain ⟨count, -, h⟩ := bind_eq_ok.mp h
      cases h

/-- No section takes a shutdown back. -/
theorem shutdown_stays {rb rb' : RingBuffer V} {call : Call V} {reply : Reply call}
    {notice : Cond → Notice} (h : rb.shutdown = true)
    (run : body rb call = .ok (.done rb' reply notice)) : rb'.shutdown = true := by
  cases call with
  | push item =>
      rw [body, bufferPush, if_neg (by simp [h]), if_pos h] at run
      cases run
      exact h
  | pop item =>
      rw [body, bufferPop, if_neg (by simp [h])] at run
      split at run
      · cases run
        exact h
      · obtain ⟨oldest, -, run⟩ := bind_eq_ok.mp run
        obtain ⟨next, -, run⟩ := bind_eq_ok.mp run
        obtain ⟨tail, -, run⟩ := bind_eq_ok.mp run
        obtain ⟨count, -, run⟩ := bind_eq_ok.mp run
        cases run
        exact h
  | signalShutdown =>
      cases run
      rfl
  | isShutdown =>
      cases run
      exact h

/-- A wait is that of a push for a free slot or that of a pop for a record. -/
theorem waits_cases {x : RingBuffer V} {call : Call V} {c : Cond}
    (waits : body x call = .ok (.wait c)) :
    (∃ item, call = .push item ∧ c = .notFull) ∨ ∃ item, call = .pop item ∧ c = .notEmpty := by
  cases call with
  | push item =>
      rw [body, bufferPush] at waits
      split at waits
      · cases waits
        exact Or.inl ⟨item, rfl, rfl⟩
      · split at waits
        · cases waits
        · obtain ⟨data, -, waits⟩ := bind_eq_ok.mp waits
          obtain ⟨next, -, waits⟩ := bind_eq_ok.mp waits
          obtain ⟨head, -, waits⟩ := bind_eq_ok.mp waits
          obtain ⟨count, -, waits⟩ := bind_eq_ok.mp waits
          cases waits
  | pop item =>
      rw [body, bufferPop] at waits
      split at waits
      · cases waits
        exact Or.inr ⟨item, rfl, rfl⟩
      · split at waits
        · cases waits
        · obtain ⟨oldest, -, waits⟩ := bind_eq_ok.mp waits
          obtain ⟨next, -, waits⟩ := bind_eq_ok.mp waits
          obtain ⟨tail, -, waits⟩ := bind_eq_ok.mp waits
          obtain ⟨count, -, waits⟩ := bind_eq_ok.mp waits
          cases waits
  | signalShutdown => cases waits
  | isShutdown => cases waits

/-- Only a request for a shutdown sets the flag. -/
theorem shutdown_set {x x' : RingBuffer V} {call : Call V} {reply : Reply call}
    {notice : Cond → Notice} (ran : body x call = .ok (.done x' reply notice))
    (shutdown : x'.shutdown = true) : x.shutdown = true ∨ call = .signalShutdown := by
  cases call with
  | push item =>
      rw [body, bufferPush] at ran
      split at ran
      · cases ran
      · split at ran
        · next closed => exact Or.inl closed
        · obtain ⟨data, -, ran⟩ := bind_eq_ok.mp ran
          obtain ⟨next, -, ran⟩ := bind_eq_ok.mp ran
          obtain ⟨head, -, ran⟩ := bind_eq_ok.mp ran
          obtain ⟨count, -, ran⟩ := bind_eq_ok.mp ran
          cases ran
          exact Or.inl shutdown
  | pop item =>
      rw [body, bufferPop] at ran
      split at ran
      · cases ran
      · split at ran
        · next closed => exact Or.inl closed.1
        · obtain ⟨oldest, -, ran⟩ := bind_eq_ok.mp ran
          obtain ⟨next, -, ran⟩ := bind_eq_ok.mp ran
          obtain ⟨tail, -, ran⟩ := bind_eq_ok.mp ran
          obtain ⟨count, -, ran⟩ := bind_eq_ok.mp ran
          cases ran
          exact Or.inl shutdown
  | signalShutdown => exact Or.inr rfl
  | isShutdown =>
      cases ran
      exact Or.inl shutdown

variable {T : Type*}

/-- An event of some thread at the ring. -/
abbrev RingEvent (T : Type*) (V : Type) := Event T (Call V) Cond Reply

/-- The record, if any, that an event adds to the ring. -/
def acceptedBy : RingEvent T V → List V
  | .returns _ (.push item) ok => if ok then [item] else []
  | _ => []

/-- The record, if any, that an event hands to a consumer. -/
def returnedBy : RingEvent T V → List V
  | .returns _ (.pop _) reply => if reply.1 then [reply.2] else []
  | _ => []

/-- The records of the pushes that returned true, in lock order. -/
def accepted (es : List (RingEvent T V)) : List V := es.flatMap acceptedBy

/-- The records of the pops that returned true, in lock order. -/
def returned (es : List (RingEvent T V)) : List V := es.flatMap returnedBy

end TelemetrixDb.Ring
