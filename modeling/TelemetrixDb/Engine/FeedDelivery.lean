import TelemetrixDb.Engine.Delivery

/-!
# Every vehicle of every download is dealt with

A push waits for a full ring only, which the consumer comes to make room in. So in
an execution that schedules both threads fairly the ingestion thread ends each of
its turns and begins the next, until a shutdown is asked for.

-/

namespace TelemetrixDb.Engine
open CMachine Monitor Ingestion Storage Transition

variable {T : Type} [DecidableEq T] {h3 : H3} {unpack : Bytes → Option FeedMessage}
variable {stack : Nat → Nat → VehicleData} {rb : Ring.RingBuffer VehicleData} {tables : Tables}
variable {structAllocated : Bool} {malloc : Ring.Malloc VehicleData}
variable {es : List (EngineEvent T)} {s : EngineState T}

theorem accepted_callsOf (run : Run (EngineStep h3 unpack stack) (start rb tables) es s) :
    Ring.accepted (onRing es) = (callsOf .ingestion es).flatMap acceptedIn := by
  rw [accepted_onRing]
  exact flatMap_callsOf fun u hu c hc => (silent_of_ne_ingestion hu (mayCall_run run u c hc)).2

theorem fetched_callsOf (run : Run (EngineStep h3 unpack stack) (start rb tables) es s) :
    fetched es = (callsOf .ingestion es).flatMap fetchedIn :=
  flatMap_callsOf fun u hu c hc => (silent_of_ne_ingestion hu (mayCall_run run u c hc)).1

/-- Where the ingestion thread stands in a run. -/
theorem producing_run (run : Run (EngineStep h3 unpack stack) (start rb tables) es s) :
    Producing unpack stack (callsOf .ingestion es) (s.code .ingestion) s.monitor.shared := by
  have first : Producing unpack stack [] (.ret (.ingestion 0)) rb :=
    .offering _ [] (.between 0) .done rfl
  exact (producing_rule h3).run (t := Thread.ingestion) run first

/-- A thread with nothing to push is not at its download. -/
theorem Ending.not_fetching {n : Nat} (h : Ending unpack stack (fetchCode unpack stack n)) :
    False := by
  generalize hcode : fetchCode unpack stack n = code at h
  cases h with
  | free => cases hcode
  | sleep => cases hcode
  | between => cases hcode
  | top m =>
      rw [ingestionTurn_eq] at hcode
      cases hcode
  | done => cases hcode

/-- At the next download everything fetched before has been accepted. -/
theorem accepted_at_download (run : Run (EngineStep h3 unpack stack) (start rb tables) es s)
    {n : Nat} (at_ : s.code .ingestion = fetchCode unpack stack n) :
    Ring.accepted (onRing es) = feed unpack es := by
  rw [accepted_callsOf run, feed, fetched_callsOf run]
  have producing := producing_run run
  rw [at_] at producing
  cases producing with
  | offering k pending ending offers all =>
      generalize hcode : fetchCode unpack stack n = code at offers
      cases offers with
      | done => exact (Ending.not_fetching (hcode ▸ ending)).elim
      | push => cases hcode
  | fetching m _ all => exact all
  | cut ending => exact ending.not_fetching.elim

/-- A push finishes when the ring has room or is shut down. -/
theorem push_finishes {x : Ring.RingBuffer VehicleData} {q : Ring.ClosableQueue VehicleData 1024}
    (h : Ring.Abstracts x q) (room : q.items.length < 1024) (item : VehicleData) :
    ∃ x' reply notice, Ring.body x (.push item) = .ok (.done x' reply notice) := by
  cases closed : q.closed with
  | true => exact Ring.body_finishes h closed _
  | false =>
      obtain ⟨⟨tail, represents⟩, flag⟩ := h
      obtain ⟨x', run, -⟩ := represents.push room (flag.trans closed) item
      exact ⟨x', _, _, run⟩

/-- The ring is shut down only when some thread has asked for it. -/
theorem shutdown_asked (isOpen : rb.shutdown = false)
    (run : Run (EngineStep h3 unpack stack) (start rb tables) es s)
    (shutdown : s.monitor.shared.shutdown = true) :
    ∃ t : T, ⟨.shared .signalShutdown, ()⟩ ∈ callsOf (.signaller t) es := by
  have asked : ∃ u : Thread T, ⟨.shared .signalShutdown, ()⟩ ∈ callsOf u es := by
    refine run.history_invariant (I := fun es (s : EngineState T) =>
      s.monitor.shared.shutdown = true → ∃ u, ⟨.shared .signalShutdown, ()⟩ ∈ callsOf u es)
      (fun h => by simp [start, isOpen] at h) ?_ shutdown
    intro es s e s' before step shutdown
    have grows {u : Thread T} (h : ⟨.shared .signalShutdown, ()⟩ ∈ callsOf u es) :
        ⟨.shared .signalShutdown, ()⟩ ∈ callsOf u (es ++ [e]) := by
      rw [callsOf_append]
      exact List.mem_append_left _ h
    cases step with
    | @returns σ τ code world u op reply next at_ step =>
        cases step with
        | returns _ run _ =>
            rcases Ring.shutdown_set run shutdown with already | rfl
            · obtain ⟨u, h⟩ := before already
              exact ⟨u, grows h⟩
            · refine ⟨u, ?_⟩
              rw [callsOf_append, callsOf_returns]
              exact List.mem_append_right _ (List.mem_singleton.mpr rfl)
    | call _ step =>
        cases step
        exact (before shutdown).imp fun u h => grows h
    | waits step =>
        cases step
        exact (before shutdown).imp fun u h => grows h
    | spurious step =>
        cases step
        exact (before shutdown).imp fun u h => grows h
    | own => exact (before shutdown).imp fun u h => grows h
    | again => exact (before shutdown).imp fun u h => grows h
  obtain ⟨u, called⟩ := asked
  have may := mayCall_run run u _ called
  cases u with
  | signaller t => exact ⟨t, called⟩
  | ingestion => exact may.elim
  | main => exact may.elim

theorem answer_isShutdown {x x' : Ring.RingBuffer VehicleData} {stop : Bool}
    {notice : Ring.Cond → Notice}
    (ran : Ring.body x .isShutdown = .ok (.done x' stop notice)) : stop = x.shutdown := by
  cases ran
  rfl

/-- The turns after which the ingestion thread goes on. -/
def Turn.GoesOn (turn : Turn) : Prop := ∃ n, turn = .ingestion n

/-- The ingestion thread is at the top of its loop, in a turn after which it goes
on, or the ring is shut down. -/
inductive Looping (unpack : Bytes → Option FeedMessage) (stack : Nat → Nat → VehicleData)
    (code : EngineCode Turn) (x : Ring.RingBuffer VehicleData) : Prop
  | top (n : Nat) (at_ : code = ingestionTurn unpack stack n)
  | inside (calls : CallsOnly (fun _ => True) Turn.GoesOn code)
  | closed (shutdown : x.shutdown = true)

theorem goesOn_fetchCode (n : Nat) :
    CallsOnly (fun _ => True) Turn.GoesOn (fetchCode unpack stack n) := by
  refine ⟨trivial, fun rawProtobuf => ?_⟩
  have ingests : CallsOnly (Thread.ingestion : Thread Unit).MayCall (fun _ => True)
      (ingestPayload unpack stack n rawProtobuf) := callsOnly_ingestPayload n rawProtobuf
  exact (ingests.mono fun _ _ => trivial).bind fun _ _ => ⟨trivial, fun _ => ⟨n + 1, rfl⟩⟩

theorem looping_rule (h3 : H3) : ThreadRule Ring.body (Own h3) (resume unpack stack)
    fun _ code x => Looping unpack stack code x where
  rely := by
    intro calls p x op x' reply notice h run
    cases h with
    | top n at_ => exact .top n at_
    | inside calls => exact .inside calls
    | closed shutdown => exact .closed (Ring.shutdown_stays shutdown run)
  shared := by
    intro calls op next x x' reply notice h run
    cases h with
    | top n at_ =>
        rw [ingestionTurn_eq] at at_
        cases at_
        cases run
        cases flag : x.shutdown with
        | true => exact .closed flag
        | false => exact .inside (goesOn_fetchCode n)
    | inside calls => exact .inside (calls.2 reply)
    | closed shutdown => exact .closed (Ring.shutdown_stays shutdown run)
  own := by
    intro calls l next x w y w' h _
    cases h with
    | top n at_ =>
        rw [ingestionTurn_eq] at at_
        cases at_
    | inside calls => exact .inside (calls.2 y)
    | closed shutdown => exact .closed shutdown
  again := by
    intro calls a p x h more
    cases h with
    | top n at_ =>
        rw [ingestionTurn_eq] at at_
        cases at_
    | inside calls =>
        obtain ⟨n, rfl⟩ := calls
        cases more
        exact .top n rfl
    | closed shutdown => exact .closed shutdown

theorem looping_run (run : Run (EngineStep h3 unpack stack) (start rb tables) es s) :
    Looping unpack stack (s.code .ingestion) s.monitor.shared :=
  (looping_rule h3).run (t := Thread.ingestion) run (.inside ⟨0, rfl⟩)

omit [DecidableEq T] in
/-- Each own call of the ingestion thread is answered. -/
theorem ingestion_answered {l : OwnOp} (mine : (Thread.ingestion : Thread T).MayCall (.own l))
    (w : World) : ∃ y w', Own h3 l w y w' := by
  cases l with
  | fetchGtfsData => exact ⟨none, w, rfl⟩
  | free payload => exact ⟨(), w, rfl⟩
  | sleep => exact ⟨(), w, rfl⟩
  | update => exact mine.elim
  | count => exact mine.elim
  | index => exact mine.elim
  | display => exact mine.elim

theorem feed_grows {x : Execution (EngineStep (T := T) h3 unpack stack)} {n m : Nat}
    (later : n ≤ m) : feed unpack (x.trace n) <+: feed unpack (x.trace m) :=
  (fetched_grows later).flatMap _

section Executions

variable {x : Execution (EngineStep (T := T) h3 unpack stack)} {n : Nat}
variable (begins : x.state 0 = start rb tables)
variable (init : Ring.bufferInit structAllocated malloc (.lit 1024) = some rb)
include begins init

/-- The ingestion thread comes to the end of its turn when its pushes come to be
answered. -/
theorem ingestion_comes_to_end (fair : x.Fair (SystemEvent.MovesOf .ingestion))
    (pushes : ∀ {k item next}, n ≤ k →
      (x.state k).code .ingestion = .call (.shared (.push item)) next →
      Eventually (fun m => ∃ ok, (x.state m).code .ingestion = next ok) k) :
    Eventually (fun m => ∃ turn, (x.state m).code .ingestion = .ret turn ∧
      (Thread.ingestion : Thread T).MayTurn turn) n := by
  have codes (t : Thread T) : CallsOnly t.MayCall t.MayTurn ((start rb tables).code t) := by
    cases t <;> trivial
  have calls := callsOnly_code (fun h more => callsOnly_turn _ h more) (run_at begins n)
    (codes .ingestion)
  refine turn_comes_to_end (J := Thread.ingestion.MayCall) ?_ calls
  intro k op next later may at_
  cases op with
  | own l =>
      obtain ⟨m, since, y, answer⟩ := own_answered (synced_at begins) fair at_
        fun m _ _ => ingestion_answered may _
      exact ⟨m + 1, by omega, y, answer.after⟩
  | shared call =>
      cases call with
      | push item => exact pushes later at_
      | isShutdown =>
          obtain ⟨m, since, y, notice, answer, -⟩ := shared_answered (synced_at begins)
            (fun m => vigilant_run init (run_at begins m)) fair at_ fun m _ _ _ => ⟨_, _, _, rfl⟩
          exact ⟨m + 1, by omega, y, answer.after⟩
      | pop => exact may.elim
      | signalShutdown => exact may.elim

/-- At the top of its loop the ingestion thread comes to know whether the ring is
shut down. -/
theorem comes_to_test (fair : x.Fair (SystemEvent.MovesOf .ingestion)) {k : Nat}
    (top : (x.state n).code .ingestion = ingestionTurn unpack stack k) :
    Eventually (fun m => ∃ i, n ≤ i ∧ i < m ∧ (x.state m).code .ingestion =
      if (x.state i).monitor.shared.shutdown then .ret .ingestionDone
      else fetchCode unpack stack k) n := by
  rw [ingestionTurn_eq] at top
  obtain ⟨i, later, stop, notice, answer, ran⟩ := shared_answered (synced_at begins)
    (fun m => vigilant_run init (run_at begins m)) fair top fun m _ _ _ => ⟨_, _, _, rfl⟩
  obtain rfl := answer_isShutdown ran
  exact ⟨i + 1, by omega, i, later, by omega, answer.after⟩

/-- The ring comes to have room for the push at which the ingestion thread stands. -/
theorem push_comes_to_answer (fair : FairThreads x)
    {item : VehicleData} {next}
    (at_ : (x.state n).code .ingestion = .call (.shared (.push item)) next) :
    Eventually (fun m => ∃ ok, (x.state m).code .ingestion = next ok) n := by
  have bound : entered (x.trace n) ≤ taken (x.trace n) + 1024 := by
    obtain ⟨q, -, split⟩ := queue_run init (run_at begins n)
    rw [entered, split, List.length_append]
    exact Nat.add_le_add_left q.bound _
  have room : Eventually (fun m => entered (x.trace n) < taken (x.trace m) + 1024) n := by
    rcases Nat.lt_or_ge (entered (x.trace n)) (taken (x.trace n) + 1024) with now | full
    · exact .now now
    · have left : taken (x.trace n) < entered (x.trace n) := by omega
      exact (comes_to_take begins init fair.main left).mono fun m _ more => by omega
  refine shared_answered_later (synced_at begins) (fun m => vigilant_run init (run_at begins m))
    fair.ingestion at_ (room.mono fun k later free m since calls => ?_)
  obtain ⟨q, related, split⟩ := queue_run init (run_at begins m)
  refine push_finishes related ?_ item
  -- nothing was accepted while the thread stands at its push
  have same : Ring.accepted (onRing (x.trace m)) = Ring.accepted (onRing (x.trace n)) := by
    rw [accepted_callsOf (run_at begins m), accepted_callsOf (run_at begins n), calls]
  have grown := (returned_grows (x := x) since).length_le
  have lengths := congrArg List.length (same.symm.trans split)
  rw [List.length_append] at lengths
  unfold entered taken at free
  omega

/-- Unless a shutdown is asked for, the ingestion thread comes to its next
download. -/
theorem comes_to_download (fair : FairThreads x)
    (isOpen : ∀ m, (x.state m).monitor.shared.shutdown = false) (n : Nat) :
    Eventually (fun m => ∃ k, (x.state m).code .ingestion = fetchCode unpack stack k) n := by
  have ends := ingestion_comes_to_end (n := n) begins init fair.ingestion
    fun _ at_ => push_comes_to_answer begins init fair at_
  refine ends.next fun m _ ⟨turn, between, _⟩ => ?_
  have goesOn : turn.GoesOn := by
    have looping := looping_run (run_at begins m)
    rw [between] at looping
    cases looping with
    | top k at_ =>
        rw [ingestionTurn_eq] at at_
        cases at_
    | inside calls => exact calls
    | closed shutdown => simp [isOpen m] at shutdown
  obtain ⟨k, rfl⟩ := goesOn
  have again : Eventually
      (fun j => (x.state j).code .ingestion = ingestionTurn unpack stack k) m :=
    begins_again (synced_at begins) fair.ingestion between rfl
  refine again.next fun j _ top => ?_
  refine (comes_to_test begins init fair.ingestion top).mono fun i _ ⟨l, _, _, at_⟩ => ?_
  rw [isOpen l, if_neg (by simp)] at at_
  exact ⟨k, at_⟩

/-- Downloads go on for ever. -/
theorem downloads_go_on (fair : FairThreads x)
    (isOpen : ∀ m, (x.state m).monitor.shared.shutdown = false) (n k : Nat) :
    Eventually (fun m => k ≤ (fetched (x.trace m)).length) n := by
  induction k with
  | zero => exact .now (Nat.zero_le _)
  | succ k ih =>
      obtain ⟨m, later, soFar⟩ := ih
      obtain ⟨j, since, turn, at_⟩ := comes_to_download begins init fair isOpen m
      obtain ⟨i, after, y, answer⟩ := own_answered (synced_at begins) fair.ingestion at_
        fun m _ _ => ⟨none, (x.state m).world, rfl⟩
      refine ⟨i + 1, by omega, ?_⟩
      have grown : (fetched (x.trace m)).length ≤ (fetched (x.trace j)).length :=
        (fetched_grows since).length_le
      dsimp only
      rw [fetched_callsOf (run_at begins (i + 1)), answer.answer, List.flatMap_append,
        ← fetched_callsOf (run_at begins j), List.length_append]
      exact Nat.add_le_add (soFar.trans grown) le_rfl

/-- The consumer comes to the top of its loop with all of the feed popped. -/
theorem comes_to_pop_feed (fair : FairThreads x)
    (isOpen : ∀ m, (x.state m).monitor.shared.shutdown = false) (n : Nat) :
    Eventually (fun m => (∃ bus total, (x.state m).code .main = consumerTurn bus total) ∧
      feed unpack (x.trace n) <+: Ring.returned (onRing (x.trace m))) n := by
  refine (comes_to_download begins init fair isOpen n).next fun m later ⟨k, at_⟩ => ?_
  refine (comes_to_catch_up begins init fair.main m).mono fun i _ ⟨top, caught⟩ => ⟨top, ?_⟩
  rw [accepted_at_download (run_at begins m) at_] at caught
  exact (feed_grows later).trans caught

end Executions

/-- In every execution that schedules the ingestion thread and the consumer fairly
and in which no shutdown is asked for, downloads go on for ever, and each record of
each download comes to be popped, in the order of the feed: each one with a known
vehicle is passed to `arena.update` and each announced one is shown. -/
theorem feed_delivered {x : Execution (EngineStep (T := T) h3 unpack stack)}
    (init : Ring.bufferInit structAllocated malloc (.lit 1024) = some rb)
    (begins : x.state 0 = start rb tables) (fair : FairThreads x)
    (isOpen : ∀ m, (x.state m).monitor.shared.shutdown = false) (n : Nat) :
    Eventually (fun m => n ≤ (fetched (x.trace m)).length ∧
      feed unpack (x.trace n) <+: Ring.returned (onRing (x.trace m)) ∧
      ((feed unpack (x.trace n)).filter Known).map updateCall <+: updates (x.trace m) ∧
      ((feed unpack (x.trace n)).filter Announced).map (lineOf tables) <+: displays (x.trace m))
      n := by
  refine (downloads_go_on begins init fair isOpen n n).next fun m later enough => ?_
  refine (comes_to_pop_feed begins init fair isOpen m).mono
    fun i since ⟨⟨bus, total, top⟩, all⟩ => ?_
  have popped := (feed_grows later).trans all
  obtain ⟨applied, shown⟩ := dealt_at_top (run_at begins i) top
  rw [applied, shown]
  refine ⟨?_, popped, (popped.filter _).map _, (popped.filter _).map _⟩
  exact enough.trans (fetched_grows since).length_le

/-- Without anybody to ask for a shutdown there is none. -/
theorem never_shut_down {x : Execution (EngineStep (T := Empty) h3 unpack stack)}
    (init : Ring.bufferInit structAllocated malloc (.lit 1024) = some rb)
    (begins : x.state 0 = start rb tables) (m : Nat) :
    (x.state m).monitor.shared.shutdown = false := by
  by_contra shutdown
  obtain ⟨t, -⟩ := shutdown_asked (Ring.bufferInit_represents capacity_eq init).2
    (run_at begins m) (by simpa using shutdown)
  exact t.elim

/-- The feed of an execution that begins with a push comes to be popped. -/
theorem feed_delivered_one_bus : ∃ rb n,
    ∃ x : Execution (EngineStep (T := Empty) oneH3 (fun _ => some oneMessage) fun _ _ => zeroBus),
      x.state 0 = start rb (fun _ _ => none) ∧
      1 ≤ (feed (fun _ => some oneMessage) (x.trace n)).length ∧
      Eventually (fun m => feed (fun _ => some oneMessage) (x.trace n) <+:
        Ring.returned (onRing (x.trace m))) n := by
  obtain ⟨rb, n, x, init, begins, fair, one, -⟩ := exists_fair_pushed
  refine ⟨rb, n, x, begins, ?_, ?_⟩
  · exact one ▸ (accepted_prefix_feed (run_at begins n)).length_le
  · exact (feed_delivered init begins fair (never_shut_down init begins) n).mono
      fun m _ ⟨_, popped, _⟩ => popped

end TelemetrixDb.Engine
