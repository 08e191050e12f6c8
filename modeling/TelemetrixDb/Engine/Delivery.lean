import TelemetrixDb.Engine.Display
import TelemetrixDb.Ring.Progress

/-!
# Every accepted record is dealt with

The consumer is the only waiter of `notEmpty` and the ingestion thread that of
`notFull`, so neither sleeps while it could go on. In an execution that schedules
the consumer fairly each turn of its loop therefore ends and each record of the
ring is popped, whatever the other threads do.

-/

namespace TelemetrixDb.Engine
open CMachine Monitor Ingestion Storage Transition

variable {T : Type} [DecidableEq T] {h3 : H3} {unpack : Bytes → Option FeedMessage}
variable {stack : Nat → Nat → VehicleData} {rb : Ring.RingBuffer VehicleData} {tables : Tables}
variable {structAllocated : Bool} {malloc : Ring.Malloc VehicleData}
variable {es : List (EngineEvent T)} {s : EngineState T}

omit [DecidableEq T] in
/-- Each condition is waited on by one thread. -/
theorem waits_alone {t u : Thread T} {call call' : RingOp} {c : Ring.Cond}
    {x x' : Ring.RingBuffer VehicleData} (ht : t.MayCall (.shared call))
    (hu : u.MayCall (.shared call')) (waits : Ring.body x call = .ok (.wait c))
    (waits' : Ring.body x' call' = .ok (.wait c)) : t = u := by
  rcases Ring.waits_cases waits with ⟨item, rfl, rfl⟩ | ⟨item, rfl, rfl⟩
  · rcases Ring.waits_cases waits' with ⟨item', rfl, -⟩ | ⟨item', -, h⟩
    · cases t <;> cases u <;> first | rfl | exact ht.elim | exact hu.elim
    · cases h
  · rcases Ring.waits_cases waits' with ⟨item', -, h⟩ | ⟨item', rfl, -⟩
    · cases h
    · cases t <;> cases u <;> first | rfl | exact ht.elim | exact hu.elim

theorem capacity_eq : (CInt.lit 1024).val = (1024 : Nat) := rfl

/-- A thread of the engine that is asleep would have to wait. -/
theorem vigilant_run (init : Ring.bufferInit structAllocated malloc (.lit 1024) = some rb)
    (run : Run (EngineStep h3 unpack stack) (start rb tables) es s) :
    Vigilant Ring.body s.monitor := by
  obtain ⟨represents, isOpen⟩ := Ring.bufferInit_represents capacity_eq init
  have related : Ring.Abstracts rb (.empty 1024) := ⟨⟨0, represents⟩, isOpen⟩
  have codes (t : Thread T) : CallsOnly t.MayCall t.MayTurn ((start rb tables).code t) := by
    cases t <;> trivial
  exact Ring.announces.run waits_alone (fun h more => callsOnly_turn _ h more) codes
    ⟨_, related⟩ (fun t => rfl) run

/-- The ring stands for a queue of the accepted records that no pop has returned. -/
theorem queue_run (init : Ring.bufferInit structAllocated malloc (.lit 1024) = some rb)
    (run : Run (EngineStep h3 unpack stack) (start rb tables) es s) :
    ∃ q : Ring.ClosableQueue VehicleData 1024, Ring.Abstracts s.monitor.shared q ∧
      Ring.accepted (onRing es) = Ring.returned (onRing es) ++ q.items := by
  obtain ⟨q, related, abstractRun⟩ := Ring.run_abstracts capacity_eq init (monitor_run run)
  exact ⟨q, related, by simpa [onRing] using Ring.ClosableQueue.items_run abstractRun⟩

/-- A pop of a ring that is not empty returns its oldest record. -/
theorem pop_finishes {x : Ring.RingBuffer VehicleData} {q : Ring.ClosableQueue VehicleData 1024}
    (h : Ring.Abstracts x q) (left : q.items ≠ []) (item : VehicleData) :
    ∃ x' oldest notice, Ring.body x (.pop item) = .ok (.done x' (true, oldest) notice) := by
  obtain ⟨⟨tail, represents⟩, -⟩ := h
  obtain ⟨oldest, rest, items⟩ := List.exists_cons_of_ne_nil left
  rw [items] at represents
  obtain ⟨x', run, -⟩ := represents.pop item
  exact ⟨x', oldest, _, run⟩

/-- The records popped so far are at most those accepted. -/
def taken (es : List (EngineEvent T)) : Nat := (Ring.returned (onRing es)).length

def entered (es : List (EngineEvent T)) : Nat := (Ring.accepted (onRing es)).length

omit [DecidableEq T] in
theorem fetched_append (es fs : List (EngineEvent T)) :
    fetched (es ++ fs) = fetched es ++ fetched fs := by
  simp [fetched]

section Executions

variable {x : Execution (EngineStep (T := T) h3 unpack stack)} {n : Nat}

theorem run_at (begins : x.state 0 = start rb tables) (n : Nat) :
    Run (EngineStep h3 unpack stack) (start rb tables) (x.trace n) (x.state n) :=
  begins ▸ x.run n

theorem accepted_grows {n m : Nat} (later : n ≤ m) :
    Ring.accepted (onRing (x.trace n)) <+: Ring.accepted (onRing (x.trace m)) :=
  ((x.trace_prefix later).flatMap _).flatMap _

theorem returned_grows {n m : Nat} (later : n ≤ m) :
    Ring.returned (onRing (x.trace n)) <+: Ring.returned (onRing (x.trace m)) :=
  ((x.trace_prefix later).flatMap _).flatMap _

theorem fetched_grows {n m : Nat} (later : n ≤ m) :
    fetched (x.trace n) <+: fetched (x.trace m) :=
  ((x.trace_prefix later).flatMap _).flatMap _

variable (begins : x.state 0 = start rb tables)
include begins

theorem synced_at (m : Nat) : Synced (x.state m).monitor.phase (x.state m).code :=
  Synced.run (run_at begins m) fun _ => rfl

/-- Past its pop the consumer comes to the end of its turn. -/
theorem consumer_comes_to_end (fair : x.Fair (SystemEvent.MovesOf .main))
    (calls : CallsOnly (OwnOnly ConsumerOwn) Turn.IsConsumer ((x.state n).code .main)) :
    Eventually (fun m => ∃ turn, (x.state m).code .main = .ret turn ∧ turn.IsConsumer) n := by
  refine turn_comes_to_end (J := OwnOnly ConsumerOwn) ?_ calls
  intro k op next later may at_
  cases op with
  | shared call => exact may.elim
  | own l =>
      have answered := own_answered (synced_at begins) fair at_
        fun m _ _ => consumer_answered (run_at begins m) may
      obtain ⟨m, later, y, answer⟩ := answered
      exact ⟨m + 1, by omega, y, answer.after⟩

/-- The consumer comes to the top of its loop. -/
theorem consumer_comes_to_top (fair : x.Fair (SystemEvent.MovesOf .main)) (n : Nat) :
    Eventually (fun m => ∃ bus total, (x.state m).code .main = consumerTurn bus total) n := by
  obtain ⟨processed, hand, consuming⟩ := consuming_run (run_at begins n)
  rcases consuming.at_.top_or_ownOnly with ⟨bus, total, at_⟩ | calls
  · exact .now ⟨bus, total, at_⟩
  · refine (consumer_comes_to_end begins fair calls).next fun m later ⟨turn, at_, mine⟩ => ?_
    cases turn with
    | consumer bus total =>
        have again : Eventually (fun k => (x.state k).code .main = consumerTurn bus total) m :=
          begins_again (synced_at begins) fair at_ rfl
        exact again.mono fun k _ h => ⟨bus, total, h⟩
    | ingestion => exact mine.elim
    | ingestionDone => exact mine.elim
    | signaller => exact mine.elim

section Ring

variable (init : Ring.bufferInit structAllocated malloc (.lit 1024) = some rb)
include init

/-- When the ring is not empty one more record comes to be popped. -/
theorem comes_to_take (fair : x.Fair (SystemEvent.MovesOf .main))
    (left : taken (x.trace n) < entered (x.trace n)) :
    Eventually (fun m => taken (x.trace n) < taken (x.trace m)) n := by
  obtain ⟨m, later, bus, total, top⟩ := consumer_comes_to_top begins fair n
  rcases Nat.lt_or_ge (taken (x.trace n)) (taken (x.trace m)) with more | same
  · exact ⟨m, later, more⟩
  rw [consumerTurn_eq] at top
  have returnedAt (k : Nat) := returned_callsOf (run_at begins k)
  -- as long as the pop is not answered the ring holds what it held
  have holds : ∀ k, m ≤ k → callsOf .main (x.trace k) = callsOf .main (x.trace m) →
      ∃ y oldest notice, Ring.body (x.state k).monitor.shared (.pop bus) =
        .ok (.done y (true, oldest) notice) := by
    intro k since calls
    obtain ⟨q, related, split⟩ := queue_run init (run_at begins k)
    refine pop_finishes related ?_ bus
    rintro none
    have grown := (accepted_grows (x := x) (later.trans since)).length_le
    rw [none, List.append_nil, returnedAt, calls, ← returnedAt] at split
    unfold taken entered at *
    rw [split] at grown
    omega
  obtain ⟨k, since, reply, notice, answer, ran⟩ := shared_answered (synced_at begins)
    (fun m => vigilant_run init (run_at begins m)) fair top fun k since _ calls => by
      obtain ⟨y, oldest, notice, done⟩ := holds k since calls
      exact ⟨y, _, notice, done⟩
  obtain ⟨y, oldest, notice', done⟩ := holds k since answer.before
  cases ran.symm.trans done
  have one : Ring.returned (onRing (x.trace (k + 1))) =
      Ring.returned (onRing (x.trace m)) ++ [oldest] := by
    rw [returnedAt (k + 1), answer.answer, List.flatMap_append, ← returnedAt m]
    rfl
  have grown := (returned_grows (x := x) later).length_le
  refine ⟨k + 1, by omega, ?_⟩
  dsimp only
  unfold taken
  rw [one, List.length_append, List.length_singleton]
  omega

theorem comes_to_take_all (fair : x.Fair (SystemEvent.MovesOf .main)) (n k : Nat)
    (accepted : k ≤ entered (x.trace n)) : Eventually (fun m => k ≤ taken (x.trace m)) n := by
  induction k with
  | zero => exact .now (Nat.zero_le _)
  | succ k ih =>
      refine (ih (by omega)).next fun m later soFar => ?_
      rcases Nat.lt_or_ge k (taken (x.trace m)) with more | same
      · exact .now more
      · have grown := (accepted_grows (x := x) later).length_le
        have left : taken (x.trace m) < entered (x.trace m) := by
          unfold entered at *
          omega
        exact (comes_to_take begins init fair left).mono fun j _ more => by omega

/-- The consumer comes to the top of its loop with everything accepted before
popped. -/
theorem comes_to_catch_up (fair : x.Fair (SystemEvent.MovesOf .main)) (n : Nat) :
    Eventually (fun m => (∃ bus total, (x.state m).code .main = consumerTurn bus total) ∧
      Ring.accepted (onRing (x.trace n)) <+: Ring.returned (onRing (x.trace m))) n := by
  obtain ⟨m, later, all⟩ := comes_to_take_all begins init fair n _ le_rfl
  obtain ⟨k, since, top⟩ := consumer_comes_to_top begins fair m
  refine ⟨k, later.trans since, top, ?_⟩
  obtain ⟨q, -, split⟩ := queue_run init (run_at begins k)
  have popped : Ring.returned (onRing (x.trace k)) <+: Ring.accepted (onRing (x.trace k)) :=
    ⟨q.items, split.symm⟩
  have grown := (returned_grows (x := x) since).length_le
  apply List.prefix_of_prefix_length_le (accepted_grows (later.trans since)) popped
  unfold taken entered at all
  omega

end Ring

end Executions

/-- At the top of the loop no record is in hand. -/
theorem ConsumerAt.top_hand {bus : VehicleData} {total : UInt64} {hand : List VehicleData}
    (h : ConsumerAt (consumerTurn bus total) hand) : hand = [] := by
  generalize hcode : consumerTurn bus total = code at h
  cases h with
  | top => rfl
  | updating =>
      rw [consumerTurn_eq] at hcode
      cases hcode
  | showing => rfl

/-- At the top of the loop no line is to come. -/
theorem Telling.top_lines {lines : List DisplayLine} {bus : VehicleData} {total : UInt64}
    (h : Telling tables lines (consumerTurn bus total)) : lines = [] := by
  generalize hcode : consumerTurn bus total = code at h
  cases h with
  | top => rfl
  | between => rfl
  | update =>
      rw [consumerTurn_eq] at hcode
      cases hcode
  | count =>
      rw [consumerTurn_eq] at hcode
      cases hcode
  | index =>
      rw [consumerTurn_eq] at hcode
      cases hcode
  | display =>
      rw [consumerTurn_eq] at hcode
      cases hcode

/-- At the top of the loop every popped record has been dealt with: the updates are
those of the known ones and the lines shown are those of the announced ones. -/
theorem dealt_at_top (run : Run (EngineStep h3 unpack stack) (start rb tables) es s)
    {bus : VehicleData} {total : UInt64} (top : s.code .main = consumerTurn bus total) :
    updates es = ((Ring.returned (onRing es)).filter Known).map updateCall ∧
    displays es = ((Ring.returned (onRing es)).filter Announced).map (lineOf tables) := by
  obtain ⟨processed, hand, returned, at_, applied⟩ := returned_consuming run
  obtain ⟨pending, -, telling, shown, -⟩ := displaying_run run
  rw [top] at at_ telling
  obtain rfl := at_.top_hand
  obtain rfl := telling.top_lines
  rw [List.append_nil] at returned shown
  exact ⟨returned ▸ applied, shown⟩

/-- In every execution that schedules the consumer fairly, over a mutex that does not
starve it, whatever the ingestion thread and the others do: each record that the ring
accepts comes to be popped, in the order of acceptance, and then each known one is
passed to `arena.update` and each announced one, that is known and has passengers, is
shown. -/
theorem accepted_delivered {x : Execution (EngineStep (T := T) h3 unpack stack)}
    (init : Ring.bufferInit structAllocated malloc (.lit 1024) = some rb)
    (begins : x.state 0 = start rb tables) (fair : x.Fair (SystemEvent.MovesOf .main)) (n : Nat) :
    Eventually (fun m =>
      Ring.accepted (onRing (x.trace n)) <+: Ring.returned (onRing (x.trace m)) ∧
      ((Ring.accepted (onRing (x.trace n))).filter Known).map updateCall <+: updates (x.trace m) ∧
      ((Ring.accepted (onRing (x.trace n))).filter Announced).map (lineOf tables) <+:
        displays (x.trace m)) n := by
  refine (comes_to_catch_up begins init fair n).mono fun m _ ⟨⟨bus, total, top⟩, popped⟩ => ?_
  obtain ⟨applied, shown⟩ := dealt_at_top (run_at begins m) top
  rw [applied, shown]
  exact ⟨popped, (popped.filter _).map _, (popped.filter _).map _⟩

/-- Both threads of the program are scheduled fairly. -/
structure FairThreads (x : Execution (EngineStep (T := T) h3 unpack stack)) : Prop where
  ingestion : x.Fair (SystemEvent.MovesOf .ingestion)
  main : x.Fair (SystemEvent.MovesOf .main)

/-- Every run of the engine goes on to an execution that schedules both threads
fairly. -/
theorem exists_fair_execution (run : Run (EngineStep h3 unpack stack) (start rb tables) es s) :
    ∃ x : Execution (EngineStep (T := T) h3 unpack stack), x.state 0 = start rb tables ∧
      x.state es.length = s ∧ x.trace es.length = es ∧ FairThreads x := by
  let served : Bool → Thread T := fun ingests => if ingests then .ingestion else .main
  obtain ⟨x, begins, state, trace, fair, -⟩ :=
    run.extends_fair fun ingests => SystemEvent.MovesOf (served ingests)
  exact ⟨x, begins, state, trace, fair true, fair false⟩

/-- The ingestion thread pushes one record, and from there both threads are
scheduled fairly. -/
theorem exists_fair_pushed : ∃ rb n,
    ∃ x : Execution (EngineStep (T := Empty) oneH3 (fun _ => some oneMessage) fun _ _ => zeroBus),
      Ring.bufferInit true (.granting zeroBus) (.lit 1024) = some rb ∧
      x.state 0 = start rb (fun _ _ => none) ∧ FairThreads x ∧
      entered (x.trace n) = 1 ∧ taken (x.trace n) = 0 := by
  have one : contribution (fun _ => some oneMessage) (some [0]) = [oneItem] := by
    rw [oneItem, fillItem_eq]
    rfl
  have granted : ∃ rb, Ring.bufferInit true (.granting zeroBus) (.lit 1024) = some rb := ⟨_, rfl⟩
  obtain ⟨rb, init⟩ := granted
  obtain ⟨represents, isOpen⟩ := Ring.bufferInit_represents capacity_eq init
  obtain ⟨rb₁, pushed, represents₁, -⟩ := represents.push (by simp) isOpen oneItem
  obtain ⟨code, es, run, -, unpopped, -⟩ :=
    exists_pushed_run oneH3 (fun _ _ => zeroBus) (fun _ _ => none) one isOpen pushed
  obtain ⟨x, begins, -, trace, fair⟩ := exists_fair_execution run
  obtain ⟨q, ⟨⟨tail, same⟩, -⟩, split⟩ := queue_run init run
  have count : (q.items.length : Int) = _ := same.count_eq.symm.trans represents₁.count_eq
  refine ⟨rb, es.length, x, init, begins, fair, ?_, ?_⟩
  · rw [trace, entered, split, unpopped, List.nil_append]
    exact Int.ofNat.inj count
  · rw [trace, taken, unpopped, List.length_nil]

/-- A record that was just pushed comes to be popped. -/
theorem accepted_delivered_one_bus : ∃ rb n,
    ∃ x : Execution (EngineStep (T := Empty) oneH3 (fun _ => some oneMessage) fun _ _ => zeroBus),
      x.state 0 = start rb (fun _ _ => none) ∧ entered (x.trace n) = 1 ∧ taken (x.trace n) = 0 ∧
      Eventually (fun m => 1 ≤ taken (x.trace m)) n := by
  obtain ⟨rb, n, x, init, begins, fair, one, none⟩ := exists_fair_pushed
  refine ⟨rb, n, x, begins, one, none, ?_⟩
  refine (accepted_delivered init begins fair.main n).mono fun m _ ⟨popped, _⟩ => ?_
  exact one ▸ popped.length_le

end TelemetrixDb.Engine
