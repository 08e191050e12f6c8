import TelemetrixDb.Engine.Threads
import TelemetrixDb.Ingestion.Flatten

/-!
# The ingestion thread pushes the feed in order

Between two payloads everything fetched has been accepted, or a push was refused.
A refusal comes with the shutdown, after which the loop ends at its next test, so
what was accepted stays a prefix of the feed.

-/

namespace TelemetrixDb.Engine
open CMachine Monitor Ingestion Storage Program

/-- The records that a payload contributes to the feed. -/
def contribution (unpack : Bytes → Option FeedMessage) : Option Bytes → List VehicleData
  | none => []
  | some payload =>
      if 0 < payload.length then
        match unpack payload with
        | none => []
        | some msg => records msg
      else []

/-- The record, if any, that a call adds to the ring. -/
def acceptedIn : EngineCall → List VehicleData
  | ⟨.shared (.push item), ok⟩ => if ok then [item] else []
  | _ => []

/-- The payload, if any, that a call fetches. -/
def fetchedIn : EngineCall → List (Option Bytes)
  | ⟨.own .fetchGtfsData, rawProtobuf⟩ => [rawProtobuf]
  | _ => []

variable {unpack : Bytes → Option FeedMessage} {stack : Nat → Nat → VehicleData}

/-- The code that offers records and goes on as `k` after the last or after the
first that is refused. -/
inductive Offering (k : EngineCode Turn) : List VehicleData → EngineCode Turn → Prop
  | done : Offering k [] k
  | push {item items next} (yes : Offering k items (next true)) (no : next false = k) :
      Offering k (item :: items) (.call (.shared (.push item)) next)

theorem offering_parseLoop {k : EngineCode Turn} {f : Except Fault CInt → EngineCode Turn}
    (ends : ∀ count, f count = k) (items : Nat → VehicleData) (entities : List FeedEntity) (i : Nat)
    (count : Except Fault CInt) :
    Offering k (entities.filterMap flatten)
      (parseLoop bufferPush items entities i count >>= f) := by
  induction entities generalizing i count with
  | nil =>
      simp only [parseLoop, pure_eq, ret_bind, ends]
      exact .done
  | cons entity rest ih =>
      cases hf : flatten entity with
      | none =>
          rw [List.filterMap_cons_none hf, parseLoop_skip hf]
          exact ih (i + 1) count
      | some item =>
          rw [List.filterMap_cons_some hf, parseLoop_offer hf]
          simp only [bufferPush, ring, perform_bind, call_bind]
          refine .push ?_ ?_
          · simpa using ih (i + 1) (count >>= fun c => c.add (.lit 1))
          · simpa using ends count

/-- The end of turn `n`. -/
def sleepCode (n : Nat) : EngineCode Turn := .call (.own .sleep) fun _ => .ret (.ingestion (n + 1))

/-- The download of turn `n` and what follows it. -/
def fetchCode (unpack : Bytes → Option FeedMessage) (stack : Nat → Nat → VehicleData) (n : Nat) :
    EngineCode Turn :=
  .call (.own .fetchGtfsData) fun rawProtobuf =>
    ingestPayload unpack stack n rawProtobuf >>= fun _ => sleepCode n

theorem ingestionTurn_eq (n : Nat) : ingestionTurn unpack stack n =
    .call (.shared .isShutdown) fun stop =>
      if stop then .ret .ingestionDone else fetchCode unpack stack n := by
  simp [ingestionTurn, ring, own, fetchCode, sleepCode]

/-- Where the thread stands when it has nothing to push. -/
inductive Ending (unpack : Bytes → Option FeedMessage) (stack : Nat → Nat → VehicleData) :
    EngineCode Turn → Prop
  | free (payload : Bytes) (n : Nat) :
      Ending unpack stack (.call (.own (.free payload)) fun _ => sleepCode n)
  | sleep (n : Nat) : Ending unpack stack (sleepCode n)
  | between (n : Nat) : Ending unpack stack (.ret (.ingestion n))
  | top (n : Nat) : Ending unpack stack (ingestionTurn unpack stack n)
  | done : Ending unpack stack (.ret .ingestionDone)

/-- After a download the thread offers what the payload contributes. -/
theorem offering_ingestPayload (n : Nat) (rawProtobuf : Option Bytes) :
    ∃ k, Ending unpack stack k ∧ Offering k (contribution unpack rawProtobuf)
      (ingestPayload unpack stack n rawProtobuf >>= fun _ => sleepCode n) := by
  cases rawProtobuf with
  | none => exact ⟨_, .sleep n, .done⟩
  | some payload =>
      by_cases nonempty : 0 < payload.length
      · refine ⟨_, .free payload n, ?_⟩
        rw [ingestPayload, if_pos nonempty, contribution, if_pos nonempty]
        cases hu : unpack payload with
        | none =>
            simp only [parseAndQueue, hu, own]
            exact .done
        | some msg =>
            simp only [parseAndQueue, hu, own, bind_bind, pure_eq, ret_bind, perform_bind]
            exact offering_parseLoop (fun _ => rfl) (stack n) msg.entity 0 _
      · rw [ingestPayload, if_neg nonempty, contribution, if_neg nonempty]
        exact ⟨_, .sleep n, .done⟩

namespace Ending

variable {code : EngineCode Turn}

/-- The only call on the ring is the test of the loop. -/
theorem shared {call : RingOp} {next} (h : Ending unpack stack (.call (.shared call) next)) :
    ∃ n, (Program.call (.shared call) next : EngineCode Turn) = ingestionTurn unpack stack n := by
  generalize hcode : (Program.call (.shared call) next : EngineCode Turn) = code at h
  cases h with
  | free => cases hcode
  | sleep => cases hcode
  | between => cases hcode
  | top n => exact ⟨n, rfl⟩
  | done => cases hcode

/-- The thread's own calls lead to the end of the turn and are no download. -/
theorem own {l : OwnOp} {next} {x : OwnAns l} (h : Ending unpack stack (.call (.own l) next)) :
    Ending unpack stack (next x) ∧ acceptedIn ⟨.own l, x⟩ = [] ∧ fetchedIn ⟨.own l, x⟩ = [] := by
  generalize hcode : (Program.call (.own l) next : EngineCode Turn) = code at h
  cases h with
  | free payload n =>
      cases hcode
      exact ⟨.sleep n, rfl, rfl⟩
  | sleep n =>
      cases hcode
      exact ⟨.between (n + 1), rfl, rfl⟩
  | between => cases hcode
  | top n =>
      rw [ingestionTurn_eq] at hcode
      cases hcode
  | done => cases hcode

/-- The next turn begins at its top. -/
theorem again {a : Turn} {p : EngineCode Turn} (h : Ending unpack stack (.ret a))
    (more : resume unpack stack a = some p) : Ending unpack stack p := by
  generalize hcode : (Program.ret a : EngineCode Turn) = code at h
  cases h with
  | free => cases hcode
  | sleep => cases hcode
  | between n =>
      cases hcode
      cases more
      exact .top n
  | top n =>
      rw [ingestionTurn_eq] at hcode
      cases hcode
  | done =>
      cases hcode
      cases more

end Ending

/-- The feed of the payloads that some calls fetched. -/
def feedOf (unpack : Bytes → Option FeedMessage) (calls : List EngineCall) : List VehicleData :=
  (calls.flatMap fetchedIn).flatMap (contribution unpack)

/-- Where the ingestion thread stands: everything fetched is accepted or about to
be offered, or a download is next, or a refusal has cut the feed for good. -/
inductive Producing (unpack : Bytes → Option FeedMessage) (stack : Nat → Nat → VehicleData)
    (calls : List EngineCall) (code : EngineCode Turn) (rb : Ring.RingBuffer VehicleData) : Prop
  | offering (k : EngineCode Turn) (pending : List VehicleData) (ending : Ending unpack stack k)
      (offers : Offering k pending code)
      (all : calls.flatMap acceptedIn ++ pending = feedOf unpack calls)
  | fetching (n : Nat) (at_ : code = fetchCode unpack stack n)
      (all : calls.flatMap acceptedIn = feedOf unpack calls)
  | cut (ending : Ending unpack stack code) (closed : rb.shutdown = true)
      (some : calls.flatMap acceptedIn <+: feedOf unpack calls)

/-- A call that neither is accepted nor fetches moves neither side. -/
theorem feedOf_silent {calls : List EngineCall} {c : EngineCall} (accepts : acceptedIn c = [])
    (fetches : fetchedIn c = []) :
    (calls ++ [c]).flatMap acceptedIn = calls.flatMap acceptedIn ∧
      feedOf unpack (calls ++ [c]) = feedOf unpack calls := by
  simp [feedOf, accepts, fetches]

theorem producing_rule (h3 : H3) : ThreadRule Ring.body (Own h3) (resume unpack stack)
    (Producing unpack stack) where
  rely := by
    intro calls p rb op rb' reply notice h run
    cases h with
    | offering k pending ending offers all => exact .offering k pending ending offers all
    | fetching n at_ all => exact .fetching n at_ all
    | cut ending closed some => exact .cut ending (Ring.shutdown_stays closed run) some
  shared := by
    intro calls op next rb rb' reply notice h run
    cases h with
    | offering k pending ending offers all =>
        cases offers with
        | done =>
            obtain ⟨n, top⟩ := ending.shared
            rw [ingestionTurn_eq] at top
            cases top
            cases run
            cases rb.shutdown with
            | true =>
                refine .offering _ [] .done .done ?_
                simpa [acceptedIn, feedOf, fetchedIn] using all
            | false =>
                refine .fetching n rfl ?_
                simpa [acceptedIn, feedOf, fetchedIn] using all
        | @push item items next yes no =>
            cases reply with
            | true =>
                refine .offering k items ending yes ?_
                simpa [acceptedIn, feedOf, fetchedIn] using all
            | false =>
                obtain ⟨closed, rfl⟩ := Ring.bufferPush_refused run
                refine .cut (no ▸ ending) closed ?_
                refine ⟨item :: items, ?_⟩
                simpa [acceptedIn, feedOf, fetchedIn] using all
    | fetching n at_ all => cases at_
    | cut ending closed some =>
        obtain ⟨n, top⟩ := ending.shared
        rw [ingestionTurn_eq] at top
        cases top
        cases run
        refine .cut ?_ closed ?_
        · rw [closed]
          exact .done
        · simpa [acceptedIn, feedOf, fetchedIn] using some
  own := by
    intro calls l next rb w y w' h _
    cases h with
    | offering k pending ending offers all =>
        cases offers with
        | done =>
            obtain ⟨ending', accepts, fetches⟩ := ending.own (x := y)
            obtain ⟨sameAccepted, sameFeed⟩ := feedOf_silent accepts fetches
            exact .offering _ [] ending' .done (by rw [sameAccepted, sameFeed, all])
    | fetching n at_ all =>
        cases at_
        obtain ⟨k, ending, offers⟩ := offering_ingestPayload n y
        refine .offering k _ ending offers ?_
        simpa [acceptedIn, feedOf, fetchedIn] using all
    | cut ending closed some =>
        obtain ⟨ending', accepts, fetches⟩ := ending.own (x := y)
        obtain ⟨sameAccepted, sameFeed⟩ := feedOf_silent accepts fetches
        exact .cut ending' closed (by rwa [sameAccepted, sameFeed])
  again := by
    intro calls a p rb h more
    cases h with
    | offering k pending ending offers all =>
        cases offers with
        | done => exact .offering p [] (ending.again more) .done all
    | fetching n at_ all => cases at_
    | cut ending closed some => exact .cut (ending.again more) closed some

end TelemetrixDb.Engine
