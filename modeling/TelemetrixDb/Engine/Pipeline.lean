import TelemetrixDb.Engine.Consumer
import TelemetrixDb.Engine.Producer
import TelemetrixDb.Ring.Refinement
import TelemetrixDb.Storage.History

/-!
# From the feed to the arena

The ingestion thread alone pushes and the consumer alone pops and updates, so the
history of the ring splits into the calls of these two threads. What one of them
guarantees along its own loop and what the ring guarantees between them compose
to the order and the conservation of records over the whole engine.

-/

namespace TelemetrixDb.Engine
open CMachine Monitor Ingestion Storage Transition

variable {T : Type}

/-- The calls that a thread's code makes. -/
def Thread.MayCall : Thread T → ClientOp RingOp OwnOp → Prop
  | .ingestion, .shared .isShutdown | .ingestion, .shared (.push _)
  | .ingestion, .own .fetchGtfsData | .ingestion, .own (.free _) | .ingestion, .own .sleep => True
  | .main, .shared (.pop _) | .main, .own (.update _) => True
  | .main, op => Shows op
  | .signaller _, .shared .signalShutdown => True
  | _, _ => False

/-- The turns of a thread's loop. -/
def Thread.MayTurn : Thread T → Turn → Prop
  | .ingestion, .ingestion _ | .ingestion, .ingestionDone => True
  | .main, .consumer _ _ => True
  | .signaller _, .signaller => True
  | _, _ => False

variable {unpack : Bytes → Option FeedMessage} {stack : Nat → Nat → VehicleData}

theorem callsOnly_parseLoop (items : Nat → VehicleData) (entities : List FeedEntity) (i : Nat)
    (count : Except Fault CInt) :
    CallsOnly (Thread.ingestion : Thread T).MayCall (fun _ => True)
      (parseLoop bufferPush items entities i count) := by
  induction entities generalizing i count with
  | nil => trivial
  | cons entity rest ih =>
      cases hf : flatten entity with
      | none =>
          rw [parseLoop_skip hf]
          exact ih (i + 1) count
      | some item =>
          rw [parseLoop_offer hf]
          refine ⟨trivial, fun ok => ?_⟩
          cases ok with
          | true => exact ih (i + 1) _
          | false => trivial

theorem callsOnly_ingestPayload (n : Nat) (rawProtobuf : Option Bytes) :
    CallsOnly (Thread.ingestion : Thread T).MayCall (fun _ => True)
      (ingestPayload unpack stack n rawProtobuf) := by
  cases rawProtobuf with
  | none => trivial
  | some payload =>
      rw [ingestPayload]
      split
      · refine CallsOnly.bind (K := fun _ => True) ?_ fun _ _ => ⟨trivial, fun _ => trivial⟩
        unfold parseAndQueue
        split
        · trivial
        · exact (callsOnly_parseLoop _ _ _ _).bind fun _ _ => trivial
      · trivial

theorem callsOnly_ingestionTurn (n : Nat) :
    CallsOnly (Thread.ingestion : Thread T).MayCall (Thread.ingestion : Thread T).MayTurn
      (ingestionTurn unpack stack n) := by
  rw [ingestionTurn_eq]
  refine ⟨trivial, fun stop => ?_⟩
  cases stop with
  | true => trivial
  | false =>
      refine ⟨trivial, fun rawProtobuf => ?_⟩
      exact (callsOnly_ingestPayload n rawProtobuf).bind fun _ _ => ⟨trivial, fun _ => trivial⟩

theorem mayCall_of_shows {op : ClientOp RingOp OwnOp} (h : Shows op) :
    (Thread.main : Thread T).MayCall op := by
  cases op with
  | shared call => exact h.elim
  | own l => cases l <;> first | exact trivial | exact h.elim

theorem callsOnly_consumerTurn (poppedBus : VehicleData) (totalProcessed : UInt64) :
    CallsOnly (Thread.main : Thread T).MayCall (Thread.main : Thread T).MayTurn
      (consumerTurn poppedBus totalProcessed) := by
  rw [consumerTurn_eq]
  refine ⟨trivial, fun reply => ?_⟩
  unfold poppedCode
  split
  · trivial
  · split
    · trivial
    · refine ⟨trivial, fun applied => ?_⟩
      have shows_ : CallsOnly (Thread.main : Thread T).MayCall _ (showBus reply.2) :=
        (callsOnly_showBus reply.2).mono fun _ => mayCall_of_shows
      exact shows_.bind fun _ _ => trivial

theorem callsOnly_turn (t : Thread T) {a : Turn} {p : EngineCode Turn} (h : t.MayTurn a)
    (more : resume unpack stack a = some p) : CallsOnly t.MayCall t.MayTurn p := by
  cases t with
  | ingestion =>
      cases a with
      | ingestion n =>
          cases more
          exact callsOnly_ingestionTurn n
      | ingestionDone => cases more
      | consumer => exact h.elim
      | signaller => exact h.elim
  | main =>
      cases a with
      | consumer poppedBus totalProcessed =>
          cases more
          exact callsOnly_consumerTurn poppedBus totalProcessed
      | ingestion => exact h.elim
      | ingestionDone => exact h.elim
      | signaller => exact h.elim
  | signaller t =>
      cases a with
      | signaller =>
          cases more
          exact ⟨trivial, fun _ => trivial⟩
      | ingestion => exact h.elim
      | ingestionDone => exact h.elim
      | consumer => exact h.elim

section Runs

variable [DecidableEq T] {h3 : H3} {rb : Ring.RingBuffer VehicleData} {tables : Tables}
variable {es : List (EngineEvent T)} {s : EngineState T}

theorem mayCall_run (run : Run (EngineStep h3 unpack stack) (start rb tables) es s)
    (t : Thread T) : ∀ c ∈ callsOf t es, t.MayCall c.1 := by
  apply callsOnly_run (K := t.MayTurn) (fun h more => callsOnly_turn t h more) run
  cases t <;> trivial

/-- The payloads fetched so far, in order. -/
def fetched (es : List (EngineEvent T)) : List (Option Bytes) :=
  (es.flatMap SystemEvent.completed).flatMap fun c => fetchedIn c.2

/-- The calls of `arena.update` so far, in order. -/
def updates (es : List (EngineEvent T)) : List UpdateCall :=
  (es.flatMap SystemEvent.completed).flatMap fun c => updatedIn c.2

/-- What the ring has seen. -/
def onRing (es : List (EngineEvent T)) : List (Ring.RingEvent (Thread T) VehicleData) :=
  es.flatMap SystemEvent.onMonitor

/-- The feed: what the payloads fetched so far contribute, in order. -/
def feed (unpack : Bytes → Option FeedMessage) (es : List (EngineEvent T)) : List VehicleData :=
  (fetched es).flatMap (contribution unpack)

omit [DecidableEq T] in
theorem accepted_onRing (es : List (EngineEvent T)) : Ring.accepted (onRing es) =
    (es.flatMap SystemEvent.completed).flatMap fun c => acceptedIn c.2 := by
  apply flatMap_onMonitor
  · intro t call reply
    cases call <;> rfl
  · intro e silent
    cases e with
    | returns => cases silent
    | _ => rfl
  · exact fun l x => rfl

omit [DecidableEq T] in
theorem returned_onRing (es : List (EngineEvent T)) : Ring.returned (onRing es) =
    (es.flatMap SystemEvent.completed).flatMap fun c => poppedIn c.2 := by
  apply flatMap_onMonitor
  · intro t call reply
    cases call <;> rfl
  · intro e silent
    cases e with
    | returns => cases silent
    | _ => rfl
  · exact fun l x => rfl

omit [DecidableEq T] in
/-- Only the ingestion thread fetches and pushes. -/
theorem silent_of_ne_ingestion {t : Thread T} (ht : t ≠ .ingestion) {c : EngineCall}
    (h : t.MayCall c.1) : fetchedIn c = [] ∧ acceptedIn c = [] := by
  obtain ⟨op, x⟩ := c
  cases op with
  | shared call =>
      cases call with
      | push item => cases t <;> first | exact absurd rfl ht | exact h.elim
      | _ => exact ⟨rfl, rfl⟩
  | own l =>
      cases l with
      | fetchGtfsData => cases t <;> first | exact absurd rfl ht | exact h.elim
      | _ => exact ⟨rfl, rfl⟩

omit [DecidableEq T] in
/-- Only the consumer pops and updates. -/
theorem silent_of_ne_main {t : Thread T} (ht : t ≠ .main) {c : EngineCall}
    (h : t.MayCall c.1) : poppedIn c = [] ∧ updatedIn c = [] := by
  obtain ⟨op, x⟩ := c
  cases op with
  | shared call =>
      cases call with
      | pop item => cases t <;> first | exact absurd rfl ht | exact h.elim
      | _ => exact ⟨rfl, rfl⟩
  | own l =>
      cases l with
      | update c => cases t <;> first | exact absurd rfl ht | exact h.elim
      | _ => exact ⟨rfl, rfl⟩

/-- What the ring has accepted is a prefix of the feed. -/
theorem accepted_prefix_feed
    (run : Run (EngineStep h3 unpack stack) (start rb tables) es s) :
    Ring.accepted (onRing es) <+: feed unpack es := by
  have pushes : Ring.accepted (onRing es) = (callsOf .ingestion es).flatMap acceptedIn := by
    rw [accepted_onRing]
    exact flatMap_callsOf fun u hu c hc => (silent_of_ne_ingestion hu (mayCall_run run u c hc)).2
  have fetches : fetched es = (callsOf .ingestion es).flatMap fetchedIn :=
    flatMap_callsOf fun u hu c hc => (silent_of_ne_ingestion hu (mayCall_run run u c hc)).1
  have first : Producing unpack stack [] (.ret (.ingestion 0)) rb :=
    .offering _ [] (.between 0) .done rfl
  have producing := (producing_rule h3).run (t := Thread.ingestion) run first
  rw [pushes, feed, fetches]
  cases producing with
  | offering k pending _ _ all => exact ⟨pending, all⟩
  | fetching n _ all => exact all ▸ List.prefix_rfl
  | cut _ _ some => exact some

/-- Where the consumer stands in a run. -/
theorem consuming_run (run : Run (EngineStep h3 unpack stack) (start rb tables) es s) :
    ∃ processed hand, Consuming (callsOf .main es) (s.code .main) processed hand := by
  have first : Consuming [] (.ret (.consumer zeroBus 0)) [] [] :=
    ⟨.showing trivial, rfl, rfl⟩
  exact (consuming_rule h3).run (t := Thread.main) run ⟨[], [], first⟩

theorem returned_callsOf (run : Run (EngineStep h3 unpack stack) (start rb tables) es s) :
    Ring.returned (onRing es) = (callsOf .main es).flatMap poppedIn := by
  rw [returned_onRing]
  exact flatMap_callsOf fun u hu c hc => (silent_of_ne_main hu (mayCall_run run u c hc)).1

/-- The popped records are those dealt with and at most one in hand. -/
theorem returned_consuming
    (run : Run (EngineStep h3 unpack stack) (start rb tables) es s) :
    ∃ processed hand, Ring.returned (onRing es) = processed ++ hand ∧
      ConsumerAt (s.code .main) hand ∧ updates es = (processed.filter Known).map updateCall := by
  have applies : updates es = (callsOf .main es).flatMap updatedIn :=
    flatMap_callsOf fun u hu c hc => (silent_of_ne_main hu (mayCall_run run u c hc)).2
  obtain ⟨processed, hand, consuming⟩ := consuming_run run
  refine ⟨processed, hand, ?_, consuming.at_, ?_⟩
  · rw [returned_callsOf run, consuming.popped]
  · rw [applies, consuming.updated]

omit [DecidableEq T] in
/-- Of a thread's own calls only an update touches the arena. -/
theorem arena_of_own {calls : List UpdateCall} {l : OwnOp} {x : OwnAns l} {w w' : World}
    (arena : w.arena = arenaAfter (visits h3 calls)) (ran : Own h3 l w x w') :
    w'.arena = arenaAfter (visits h3 (calls ++ updatedIn ⟨.own l, x⟩)) := by
  cases l with
  | update c =>
      have answered := ran.1
      rw [arena, exec_code] at answered
      rw [updatedIn, visits_concat]
      exact (Prod.ext_iff.mp (Except.ok.inj answered)).2.symm
  | index table key =>
      have same : w'.arena = w.arena := ran.2.1
      simpa [updatedIn, same] using arena
  | count table key =>
      obtain rfl : w' = w := ran.2
      simpa [updatedIn] using arena
  | fetchGtfsData | free | sleep | display =>
      obtain rfl : w' = w := ran
      simpa [updatedIn] using arena

/-- The arena is that of the updates so far. -/
theorem arena_of_updates
    (run : Run (EngineStep h3 unpack stack) (start rb tables) es s) :
    s.world.arena = arenaAfter (visits h3 (updates es)) := by
  apply run.history_invariant
    (I := fun es (s : EngineState T) => s.world.arena = arenaAfter (visits h3 (updates es)))
  · rfl
  · intro es s e s' arena step
    have grows : updates (es ++ [e]) = updates es ++ e.completed.flatMap fun c => updatedIn c.2 := by
      simp [updates]
    rw [grows]
    cases step with
    | own at_ ran => simpa [SystemEvent.completed] using arena_of_own arena ran
    | _ => simpa [SystemEvent.completed, updatedIn] using arena

/-- Whatever has run before, an update finishes, and it returns true exactly when
its lookup succeeds. -/
theorem update_finishes (run : Run (EngineStep h3 unpack stack) (start rb tables) es s)
    (c : UpdateCall) : ∃ w, Own h3 (.update c) s.world (c.visit h3).isSome w := by
  refine ⟨⟨arenaAfter (visits h3 (updates es) ++ (c.visit h3).toList), s.world.tables⟩, ?_, rfl⟩
  rw [arena_of_updates run]
  exact exec_code _ c

/-- At every point of every run: the updates of the arena are those of a prefix
of the feed without the records of unknown vehicles, the accepted records are a
prefix of the feed, and the accepted records that were neither applied nor
skipped are those in the ring and at most one in the consumer's hand. -/
theorem pipeline_conserves {structAllocated : Bool} {malloc : Ring.Malloc VehicleData}
    (init : Ring.bufferInit structAllocated malloc (.lit 1024) = some rb)
    (run : Run (EngineStep h3 unpack stack) (start rb tables) es s) :
    updates es <+: ((feed unpack es).filter Known).map updateCall ∧
    Ring.accepted (onRing es) <+: feed unpack es ∧
    ∃ tail items processed hand, Ring.Represents s.monitor.shared 1024 tail items ∧
      Ring.accepted (onRing es) = processed ++ hand ++ items ∧ hand.length ≤ 1 ∧
      updates es = (processed.filter Known).map updateCall := by
  have accepted := accepted_prefix_feed run
  obtain ⟨processed, hand, returned, at_, applied⟩ := returned_consuming run
  have short := consumerAt_length at_
  have capacity : (CInt.lit 1024).val = (1024 : Nat) := rfl
  obtain ⟨tail, items, represents, split⟩ := Ring.run_items capacity init (monitor_run run)
  have whole : Ring.accepted (onRing es) = processed ++ hand ++ items := by
    rw [← returned]
    exact split
  refine ⟨?_, accepted, tail, items, processed, hand, represents, whole, short, applied⟩
  have processedPrefix : processed <+: feed unpack es := by
    refine List.IsPrefix.trans ⟨hand ++ items, ?_⟩ accepted
    rw [whole, List.append_assoc]
  rw [applied]
  exact (processedPrefix.filter _).map _

end Runs

section OneBus

/-- A bus with an id at the origin. -/
def oneVehicle : VehiclePosition where
  trip := none
  vehicle := some ⟨some [49], none⟩
  position := some ⟨.zero, .zero, false, .zero, false, .zero⟩
  stopId := none
  hasCurrentStatus := false
  currentStatus := .lit 0
  hasTimestamp := true
  timestamp := 1700000000
  hasCongestionLevel := false
  congestionLevel := .lit 0
  hasOccupancyStatus := false
  occupancyStatus := .lit 0
  hasOccupancyPercentage := false
  occupancyPercentage := 0

def oneMessage : FeedMessage := ⟨[⟨some [49], some oneVehicle⟩]⟩

def oneItem : VehicleData :=
  fillItem zeroBus ⟨some [49], some oneVehicle⟩ oneVehicle ⟨.zero, .zero, false, .zero, false, .zero⟩

def oneH3 : H3 := .oneCell 0x89754e64993ffff (by decide)

/-- The ingestion thread begins a turn, finds the ring open, and comes to its
download. -/
theorem exists_fetching_run (h3 : H3) (unpack : Bytes → Option FeedMessage)
    (stack : Nat → Nat → VehicleData) (tables : Tables) {rb : Ring.RingBuffer VehicleData}
    (isOpen : rb.shutdown = false) :
    ∃ code, ∃ es : List (EngineEvent Empty),
      Run (EngineStep h3 unpack stack) (start rb tables) es
        ⟨Config.start rb, code, ⟨.init, tables⟩⟩ ∧
      updates es = [] ∧ Ring.returned (onRing es) = [] ∧
      code .ingestion = fetchCode unpack stack 0 ∧ code .main = .ret (.consumer zeroBus 0) := by
  let code : Thread Empty → EngineCode Turn := Function.update (fun t => .ret (firstTurn t))
    .ingestion (ingestionTurn unpack stack 0)
  have begun : Run (EngineStep (T := Empty) h3 unpack stack) (start rb tables)
      [.again .ingestion] ⟨Config.start rb, code, ⟨.init, tables⟩⟩ := .single (.again rfl rfl)
  have at_ : code .ingestion = _ := (Function.update_self _ _ _).trans (ingestionTurn_eq 0)
  have test : Ring.body rb .isShutdown = .ok (.done rb false Ring.noNotice) := by
    rw [← isOpen]
    rfl
  exact ⟨_, _, begun.trans (solo_client_call at_ test), rfl, rfl, by simp, by simp [code, firstTurn]⟩

/-- It fetches a payload with one record, which it pushes. -/
theorem exists_pushed_run (h3 : H3) {unpack : Bytes → Option FeedMessage}
    (stack : Nat → Nat → VehicleData) (tables : Tables) {payload : Bytes} {item : VehicleData}
    (one : contribution unpack (some payload) = [item]) {rb rb₁ : Ring.RingBuffer VehicleData}
    (isOpen : rb.shutdown = false) {notice : Ring.Cond → Notice}
    (pushed : Ring.body rb (.push item) = .ok (.done rb₁ true notice)) :
    ∃ code, ∃ es : List (EngineEvent Empty),
      Run (EngineStep h3 unpack stack) (start rb tables) es
        ⟨Config.start rb₁, code, ⟨.init, tables⟩⟩ ∧
      updates es = [] ∧ Ring.returned (onRing es) = [] ∧
      code .main = .ret (.consumer zeroBus 0) := by
  obtain ⟨code, es, fetches, unapplied, unpopped, atFetch, atTop⟩ :=
    exists_fetching_run h3 unpack stack tables isOpen
  obtain ⟨k, -, offers⟩ := @offering_ingestPayload unpack stack 0 (some payload)
  rw [one] at offers
  generalize offered : ingestPayload unpack stack 0 (some payload) >>= (fun _ => sleepCode 0) =
    offerCode at offers
  obtain - | ⟨-, -⟩ := offers
  have fetched : EngineStep (T := Empty) h3 unpack stack ⟨Config.start rb, code, ⟨.init, tables⟩⟩
      (.own .ingestion .fetchGtfsData (some payload))
      ⟨Config.start rb, Function.update code .ingestion _, ⟨.init, tables⟩⟩ := .own atFetch rfl
  have at_ := (Function.update_self Thread.ingestion _ code).trans offered
  refine ⟨_, _, (fetches.snoc fetched).trans (solo_client_call at_ pushed), ?_, ?_, ?_⟩
  · simpa [updates, SystemEvent.completed, updatedIn] using unapplied
  · simpa [Ring.returned, onRing, SystemEvent.onMonitor, Ring.returnedBy] using unpopped
  · simpa using atTop

/-- A payload with one known record goes all the way into the arena, after which
the consumer shows it. -/
theorem exists_applied_run (h3 : H3) {unpack : Bytes → Option FeedMessage}
    (stack : Nat → Nat → VehicleData) (tables : Tables) {payload : Bytes} {item : VehicleData}
    (one : contribution unpack (some payload) = [item]) (known : Known item) :
    ∃ rb s totalProcessed, ∃ es : List (EngineEvent Empty),
      Ring.bufferInit true (.granting zeroBus) (.lit 1024) = some rb ∧
      Run (EngineStep h3 unpack stack) (start rb tables) es s ∧
      updates es = [updateCall item] ∧ Ring.returned (onRing es) = [item] ∧
      s.code .main = showBus item >>= fun _ => .ret (.consumer item totalProcessed) := by
  let world : World := ⟨.init, tables⟩
  have granted : ∃ rb, Ring.bufferInit true (.granting zeroBus) (.lit 1024) = some rb := ⟨_, rfl⟩
  obtain ⟨rb, init⟩ := granted
  have capacity : (CInt.lit 1024).val = (1024 : Nat) := rfl
  obtain ⟨represents, isOpen⟩ := Ring.bufferInit_represents capacity init
  obtain ⟨rb₁, pushed, represents₁, -⟩ := represents.push (by simp) isOpen item
  obtain ⟨rb₂, popped, -⟩ := represents₁.pop zeroBus
  obtain ⟨code, es, pushes, unapplied, unpopped, atTop⟩ :=
    exists_pushed_run h3 stack tables one isOpen pushed
  have begun : EngineStep (T := Empty) h3 unpack stack ⟨Config.start rb₁, code, world⟩
      (.again .main)
      ⟨Config.start rb₁, Function.update code .main (consumerTurn zeroBus 0), world⟩ :=
    .again atTop rfl
  have atPop := (Function.update_self Thread.main (consumerTurn zeroBus 0) code).trans
    (consumerTurn_eq zeroBus 0)
  have pops := (pushes.snoc begun).trans (solo_client_call atPop popped)
  let applied : SpatialArena := arenaAfter ((updateCall item).visit h3).toList
  have atUpdate := (Function.update_self Thread.main (poppedCode 0 (true, item))
    (Function.update code .main (consumerTurn zeroBus 0))).trans (poppedCode_known 0 known)
  have answers : Own h3 (.update (updateCall item)) world _ ⟨applied, world.tables⟩ :=
    ⟨exec_code [] _, rfl⟩
  have atShow := Function.update_self Thread.main (showBus item >>= fun _ => .ret (.consumer item
    (if ((updateCall item).visit h3).isSome then 0 + 1 else 0))) (Function.update
      (Function.update code .main (consumerTurn zeroBus 0)) .main (poppedCode 0 (true, item)))
  refine ⟨rb, _, _, _, init, pops.snoc (.own atUpdate answers), ?_, ?_, atShow⟩
  · simpa [updates, SystemEvent.completed, updatedIn] using unapplied
  · simpa [Ring.returned, onRing, SystemEvent.onMonitor, Ring.returnedBy] using unpopped

/-- One payload with one bus goes all the way into the arena. -/
theorem pipeline_conserves_one_bus : ∃ rb s, ∃ es : List (EngineEvent Empty),
    Run (EngineStep oneH3 (fun _ => some oneMessage) fun _ _ => zeroBus)
      (start rb fun _ _ => none) es s ∧
    updates es = [updateCall oneItem] ∧
    updates es <+:
      ((feed (fun _ => some oneMessage) es).filter Known).map updateCall := by
  have one : contribution (fun _ => some oneMessage) (some [0]) = [oneItem] := by
    rw [oneItem, fillItem_eq]
    rfl
  have known : Known oneItem := by decide
  obtain ⟨rb, s, -, es, init, run, applied, -⟩ :=
    exists_applied_run oneH3 (fun _ _ => zeroBus) (fun _ _ => none) one known
  exact ⟨rb, s, es, run, applied, (pipeline_conserves init run).1⟩

end OneBus

end TelemetrixDb.Engine
