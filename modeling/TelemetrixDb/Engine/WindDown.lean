import TelemetrixDb.Engine.FeedDelivery
import TelemetrixDb.Engine.MainLoop

/-!
# The ingestion thread winds down

The loop of `ingestion_thread` tests the flag before each download only. A shutdown
therefore finds it before its test, after which it ends, or in a turn that may
still download and offer one record, which the ring refuses.

-/

namespace TelemetrixDb.Engine
open CMachine Monitor Ingestion Storage Transition

variable {T : Type} [DecidableEq T] {h3 : H3} {unpack : Bytes → Option FeedMessage}
variable {stack : Nat → Nat → VehicleData} {rb : Ring.RingBuffer VehicleData} {tables : Tables}
variable {structAllocated : Bool} {malloc : Ring.Malloc VehicleData}
variable {es fs : List (EngineEvent T)} {s s' : EngineState T}

/-- The answer, if any, to a push. -/
def pushedIn : EngineCall → List Bool
  | ⟨.shared (.push _), ok⟩ => [ok]
  | _ => []

/-- The answers to the pushes so far. -/
def pushes (es : List (EngineEvent T)) : List Bool :=
  (es.flatMap SystemEvent.completed).flatMap fun c => pushedIn c.2

/-- Where the ingestion thread stands after a shutdown, with the calls it has made
since. -/
inductive Winding (unpack : Bytes → Option FeedMessage) (stack : Nat → Nat → VehicleData)
    (calls : List EngineCall) (code : EngineCode Turn) : Prop
  | fetching (n : Nat) (at_ : code = fetchCode unpack stack n) (none : calls.flatMap fetchedIn = [])
      (unoffered : calls.flatMap pushedIn = [])
  | offering (k : EngineCode Turn) (pending : List VehicleData) (ending : Ending unpack stack k)
      (offers : Offering k pending code) (one : (calls.flatMap fetchedIn).length ≤ 1)
      (unoffered : calls.flatMap pushedIn = [])
  | ending (ending : Ending unpack stack code) (one : (calls.flatMap fetchedIn).length ≤ 1)
      (refused : calls.flatMap pushedIn = [] ∨ calls.flatMap pushedIn = [false])

/-- An ending turn is past its pushes, or all of them were refused. -/
theorem Winding.bounds {calls : List EngineCall} {code : EngineCode Turn}
    (h : Winding unpack stack calls code) : (calls.flatMap fetchedIn).length ≤ 1 ∧
      (calls.flatMap pushedIn = [] ∨ calls.flatMap pushedIn = [false]) := by
  cases h with
  | fetching n at_ none unoffered => exact ⟨by simp [none], Or.inl unoffered⟩
  | offering k pending ending offers one unoffered => exact ⟨one, Or.inl unoffered⟩
  | ending ending one refused => exact ⟨one, refused⟩

/-- The thread's own calls other than downloads are no pushes. -/
theorem pushedIn_own (l : OwnOp) (y : OwnAns l) : pushedIn ⟨.own l, y⟩ = [] := rfl

theorem Winding.ended_own {calls : List EngineCall} {l : OwnOp} {next} {y : OwnAns l}
    (ending : Ending unpack stack (.call (.own l) next))
    (one : (calls.flatMap fetchedIn).length ≤ 1)
    (refused : calls.flatMap pushedIn = [] ∨ calls.flatMap pushedIn = [false]) :
    Winding unpack stack (calls ++ [⟨.own l, y⟩]) (next y) := by
  obtain ⟨ending', -, fetches⟩ := ending.own (x := y)
  apply Winding.ending ending'
  · simpa [fetches] using one
  · simpa [pushedIn_own] using refused

/-- After a shutdown the test ends the loop. -/
theorem Winding.ended_shared {calls : List EngineCall} {call : RingOp} {next}
    {x x' : Ring.RingBuffer VehicleData} {reply : Ring.Reply call} {notice : Ring.Cond → Notice}
    (ending : Ending unpack stack (.call (.shared call) next)) (shutdown : x.shutdown = true)
    (one : (calls.flatMap fetchedIn).length ≤ 1)
    (refused : calls.flatMap pushedIn = [] ∨ calls.flatMap pushedIn = [false])
    (ran : Ring.body x call = .ok (.done x' reply notice)) :
    Winding unpack stack (calls ++ [⟨.shared call, reply⟩]) (next reply) := by
  obtain ⟨n, top⟩ := ending.shared
  rw [ingestionTurn_eq] at top
  cases top
  obtain rfl := answer_isShutdown ran
  apply Winding.ending
  · rw [shutdown]
    exact .done
  · simpa [fetchedIn] using one
  · simpa [pushedIn] using refused

theorem winding_rule (h3 : H3) : ThreadRule Ring.body (Own h3) (resume unpack stack)
    fun calls code x => x.shutdown = true ∧ Winding unpack stack calls code where
  rely := fun ⟨shutdown, h⟩ run => ⟨Ring.shutdown_stays shutdown run, h⟩
  shared := by
    rintro calls call next x x' reply notice ⟨shutdown, h⟩ run
    refine ⟨Ring.shutdown_stays shutdown run, ?_⟩
    cases h with
    | fetching n at_ => cases at_
    | offering k pending ending offers one unoffered =>
        cases offers with
        | done => exact .ended_shared ending shutdown one (Or.inl unoffered) run
        | @push item items next yes no =>
            have refused : reply = false := by
              by_contra accepted
              obtain rfl : reply = true := by simpa using accepted
              rw [Ring.body, Ring.bufferPush, if_neg (by simp [shutdown]), if_pos shutdown] at run
              cases run
            subst refused
            refine .ending (no ▸ ending) ?_ (Or.inr ?_)
            · simpa [fetchedIn] using one
            · simp [unoffered, pushedIn]
    | ending ending one refused => exact .ended_shared ending shutdown one refused run
  own := by
    rintro calls l next x w y w' ⟨shutdown, h⟩ -
    refine ⟨shutdown, ?_⟩
    cases h with
    | fetching n at_ none unoffered =>
        cases at_
        obtain ⟨k, ending, offers⟩ := offering_ingestPayload n y
        apply Winding.offering k _ ending offers
        · simp [none, fetchedIn]
        · simp [unoffered, pushedIn]
    | offering k pending ending offers one unoffered =>
        cases offers with
        | done => exact .ended_own ending one (Or.inl unoffered)
    | ending ending one refused => exact .ended_own ending one refused
  again := by
    rintro calls a p x ⟨shutdown, h⟩ more
    refine ⟨shutdown, ?_⟩
    cases h with
    | fetching n at_ => cases at_
    | offering k pending ending offers one unoffered =>
        cases offers with
        | done => exact .ending (ending.again more) one (Or.inl unoffered)
    | ending ending one refused => exact .ending (ending.again more) one refused

/-- After a shutdown the ingestion thread makes at most one download and at most one
push, which is refused. -/
theorem winding_run (run : Run (EngineStep h3 unpack stack) (start rb tables) es s)
    (shutdown : s.monitor.shared.shutdown = true)
    (rest : Run (EngineStep h3 unpack stack) s fs s') :
    Winding unpack stack (callsOf .ingestion fs) (s'.code .ingestion) := by
  have first : Winding unpack stack [] (s.code .ingestion) := by
    cases producing_run run with
    | offering k pending ending offers => exact .offering k pending ending offers (by simp) rfl
    | fetching n at_ => exact .fetching n at_ rfl rfl
    | cut ending => exact .ending ending (by simp) (Or.inl rfl)
  exact ((winding_rule h3).run (t := Thread.ingestion) rest ⟨shutdown, first⟩).2

theorem pushes_callsOf (run : Run (EngineStep h3 unpack stack) (start rb tables) es s) :
    pushes es = (callsOf .ingestion es).flatMap pushedIn := by
  refine flatMap_callsOf fun u hu c hc => ?_
  have may := mayCall_run run u c hc
  obtain ⟨op, y⟩ := c
  cases op with
  | own l => rfl
  | shared call =>
      cases call with
      | push item => cases u <;> first | exact absurd rfl hu | exact may.elim
      | _ => rfl

section Executions

variable {x : Execution (EngineStep (T := T) h3 unpack stack)} {n : Nat}

variable (begins : x.state 0 = start rb tables)
variable (init : Ring.bufferInit structAllocated malloc (.lit 1024) = some rb)
include begins init

/-- After a shutdown the ingestion thread comes to leave its loop. -/
theorem comes_to_leave (fair : x.Fair (SystemEvent.MovesOf .ingestion))
    (shutdown : (x.state n).monitor.shared.shutdown = true) :
    Eventually (fun m => (x.state m).code .ingestion = .ret .ingestionDone) n := by
  have finishes {k : Nat} (later : n ≤ k) (call : RingOp) : ∃ y reply notice,
      Ring.body (x.state k).monitor.shared call = .ok (.done y reply notice) := by
    obtain ⟨q, related, -⟩ := queue_run init (run_at begins k)
    exact Ring.body_finishes related (related.2 ▸ Ring.shutdown_later later shutdown) call
  have ends := ingestion_comes_to_end (n := n) begins init fair fun {k item next} later at_ => by
    obtain ⟨m, since, ok, notice, answer, -⟩ := shared_answered (synced_at begins)
      (fun m => vigilant_run init (run_at begins m)) fair at_
      fun m since _ _ => finishes (later.trans since) _
    exact ⟨m + 1, by omega, ok, answer.after⟩
  refine ends.next fun m later ⟨turn, between, mine⟩ => ?_
  cases turn with
  | ingestionDone => exact .now between
  | ingestion k =>
      have again : Eventually
          (fun j => (x.state j).code .ingestion = ingestionTurn unpack stack k) m :=
        begins_again (synced_at begins) fair between rfl
      refine again.next fun j since top => ?_
      refine (comes_to_test begins init fair top).mono fun i _ ⟨l, after, _, at_⟩ => ?_
      rwa [Ring.shutdown_later (by omega) shutdown, if_pos rfl] at at_
  | consumer => exact mine.elim
  | signaller => exact mine.elim

end Executions

/-- From an instant at which the ring is shut down on, in every execution: the
ingestion thread makes at most one more download and offers at most one more
record, which is refused, so nothing more is accepted; and when it is scheduled
fairly, over a mutex that does not starve it, it comes to leave its loop for good. -/
theorem ingestion_winds_down {x : Execution (EngineStep (T := T) h3 unpack stack)} {n : Nat}
    (init : Ring.bufferInit structAllocated malloc (.lit 1024) = some rb)
    (begins : x.state 0 = start rb tables)
    (shutdown : (x.state n).monitor.shared.shutdown = true) :
    (∀ m, n ≤ m →
      (fetched (x.trace m)).length ≤ (fetched (x.trace n)).length + 1 ∧
      (pushes (x.trace m) = pushes (x.trace n) ∨
        pushes (x.trace m) = pushes (x.trace n) ++ [false]) ∧
      Ring.accepted (onRing (x.trace m)) = Ring.accepted (onRing (x.trace n))) ∧
    (x.Fair (SystemEvent.MovesOf .ingestion) →
      Eventually (fun m => ∀ k, m ≤ k → (x.state k).code .ingestion = .ret .ingestionDone) n) := by
  constructor
  · intro m later
    obtain ⟨fs, whole, rest⟩ := x.run_between later
    obtain ⟨one, refused⟩ := (winding_run (run_at begins n) shutdown rest).bounds
    obtain ⟨items, -, -, after⟩ :=
      Ring.drains_of_shutdown (by decide) init (monitor_run (run_at begins n)) shutdown
    obtain ⟨-, -, -, -, -, nothing, -⟩ := after (monitor_run rest)
    refine ⟨?_, ?_, ?_⟩
    · rw [fetched_callsOf (run_at begins m), fetched_callsOf (run_at begins n), whole,
        callsOf_append, List.flatMap_append, List.length_append]
      omega
    · rw [pushes_callsOf (run_at begins m), pushes_callsOf (run_at begins n), whole,
        callsOf_append, List.flatMap_append]
      rcases refused with none | one
      · exact Or.inl (by rw [none, List.append_nil])
      · exact Or.inr (by rw [one])
    · rw [whole, onRing, List.flatMap_append, Ring.accepted, List.flatMap_append]
      exact (congrArg _ nothing).trans (List.append_nil _)
  · intro fair
    refine (comes_to_leave begins init fair shutdown).mono fun m _ left k later => ?_
    exact left_stays (synced_at begins) rfl left later

/-- After a shutdown of the fresh program the ingestion thread leaves its loop. -/
theorem ingestion_winds_down_signalled : ∃ rb n,
    ∃ x : Execution (EngineStep (T := Unit) oneH3 (fun _ => none) fun _ _ => zeroBus),
      x.state 0 = start rb (fun _ _ => none) ∧
      (x.state n).monitor.shared.shutdown = true ∧
      Eventually (fun m => ∀ k, m ≤ k → (x.state k).code .ingestion = .ret .ingestionDone) n := by
  obtain ⟨rb, s, es, init, run, shutdown, -⟩ := exists_signalled_run
  obtain ⟨x, begins, state, -, fair⟩ := exists_fair_execution run
  have reached : (x.state es.length).monitor.shared.shutdown = true := by rw [state, shutdown]
  exact ⟨rb, es.length, x, begins, reached,
    (ingestion_winds_down init begins reached).2 fair.ingestion⟩

end TelemetrixDb.Engine
