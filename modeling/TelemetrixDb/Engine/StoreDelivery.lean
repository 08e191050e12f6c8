import TelemetrixDb.Engine.FeedDelivery
import TelemetrixDb.Storage.Progress

/-!
# From the feed to the store

The arena has a serial history: what the known records of the feed leave one after the
other. At every instant the arena is at some point of this history, and it comes to every
point, so each record of the feed comes to be the newest sample of its bucket.

-/

namespace TelemetrixDb.Storage

/-- The bucket has this cell, and this sample in the slot written last. -/
structure Newest (d : BucketData) (cell : UInt64) (s : Sample) : Prop where
  cell : d.h3Index = cell
  speed : d.window.speeds (Window.slotOf 60 (d.window.head.toNat + 59)) = s.speed
  timestamp : d.window.timestamps (Window.slotOf 60 (d.window.head.toNat + 59)) = s.timestamp

/-- The last visit of a bucket is its newest sample. -/
theorem newest_contents (vs : List Visit) (v : Visit) :
    Newest (contents (vs ++ [v])) v.cell v.sample := by
  obtain ⟨older, run⟩ : ∃ older, trailing (vs ++ [v]) = older ++ [v] := ⟨_, trailing_concat⟩
  have size : (trailing (vs ++ [v])).length = older.length + 1 := by simp [run]
  have slot : Window.slotOf 60 ((contents (vs ++ [v])).window.head.toNat + 59) =
      Window.slotOf 60 older.length := by
    apply Fin.ext
    rw [contents_head, size, Window.slotOf_val, Window.slotOf_val]
    omega
  have newest : (trailing (vs ++ [v]))[older.length] = v := by simp [run]
  have last : older.length < (trailing (vs ++ [v])).length := by omega
  obtain ⟨speed, timestamp⟩ := contents_slot last (by omega)
  rw [newest] at speed timestamp
  refine ⟨lastCell_concat, ?_, ?_⟩
  · rw [slot, speed]
  · rw [slot, timestamp]

theorem newest_arenaAfter (vs : List Visit) (v : Visit) :
    Newest (arenaAfter (vs ++ [v]) v.bucket).data v.cell v.sample := by
  rw [arenaAfter_concat, Function.update_self]
  exact newest_contents _ v

end TelemetrixDb.Storage

namespace TelemetrixDb.Engine
open CMachine Monitor Ingestion Storage Transition LockSections

variable {T : Type} [DecidableEq T] {h3 : H3} {unpack : Bytes → Option FeedMessage}
variable {stack : Nat → Nat → VehicleData} {rb : Ring.RingBuffer VehicleData} {tables : Tables}
variable {structAllocated : Bool} {malloc : Ring.Malloc VehicleData}

omit [DecidableEq T] in
/-- A step makes one update at most. -/
theorem updates_grow (es : List (EngineEvent T)) (e : EngineEvent T) :
    ∃ c : Option UpdateCall, updates (es ++ [e]) = updates es ++ c.toList := by
  have grown : updates (es ++ [e]) = updates es ++ e.completed.flatMap fun c => updatedIn c.2 := by
    simp [updates]
  have one : ∃ c : Option UpdateCall,
      (e.completed.flatMap fun c => updatedIn c.2) = c.toList := by
    cases e with
    | again => exact ⟨none, rfl⟩
    | shared e =>
        cases e with
        | returns => exact ⟨none, rfl⟩
        | _ => exact ⟨none, rfl⟩
    | own t l y =>
        cases l with
        | update c => exact ⟨some c, rfl⟩
        | _ => exact ⟨none, rfl⟩
  obtain ⟨c, one⟩ := one
  exact ⟨c, by rw [grown, one]⟩

section Executions

variable {x : Execution (EngineStep (T := T) h3 unpack stack)}
variable (init : Ring.bufferInit structAllocated malloc (.lit 1024) = some rb)
variable (begins : x.state 0 = start rb tables) (fair : FairThreads x)
variable (isOpen : ∀ m, (x.state m).monitor.shared.shutdown = false)
include init begins fair isOpen

/-- The arena comes to be that of each prefix of the feed. -/
theorem comes_to_store {n : Nat} {served waiting : List VehicleData}
    (split : (feed unpack (x.trace n)).filter Known = served ++ waiting) :
    ∃ m, (x.state m).world.arena = arenaAfter (visits h3 (served.map updateCall)) := by
  obtain ⟨m, -, ⟨bus, total, top⟩, popped⟩ := comes_to_pop_feed begins init fair isOpen n
  have reached : served.map updateCall <+: updates (x.trace m) := by
    rw [(dealt_at_top (run_at begins m) top).1]
    exact (List.IsPrefix.trans ⟨waiting, split.symm⟩ (popped.filter _)).map _
  obtain ⟨k, -, here⟩ := x.passes updates rfl updates_grow reached
  refine ⟨k, ?_⟩
  rw [arena_of_updates (run_at begins k), here]

/-- A known record of the feed comes to be the newest of its bucket. -/
theorem comes_to_be_newest {n : Nat} {bus : VehicleData} {v : Visit}
    (inFeed : bus ∈ feed unpack (x.trace n)) (known : Known bus)
    (visit : (updateCall bus).visit h3 = some v) :
    ∃ m, Newest ((x.state m).world.arena v.bucket).data v.cell (updateCall bus).sample := by
  have served : bus ∈ (feed unpack (x.trace n)).filter Known :=
    List.mem_filter.mpr ⟨inFeed, by simpa using known⟩
  obtain ⟨before, after, split⟩ := List.append_of_mem served
  rw [List.append_cons] at split
  obtain ⟨m, arena⟩ := comes_to_store init begins fair isOpen split
  have sample : (updateCall bus).sample = v.sample := by
    rw [Visit.sample, (code_of_visit visit).2]
  refine ⟨m, ?_⟩
  rw [arena, List.map_append, List.map_singleton, visits_concat, visit, sample]
  exact newest_arenaAfter _ v

end Executions

/-- In every execution that schedules the ingestion thread and the consumer fairly and
in which no shutdown is asked for: at every instant the arena is that of the first
known records of the feed, one after the other; it comes to be that of every such
prefix of the feed; and each known record of the feed whose lookup succeeds comes to be
the newest sample of its bucket, under its cell. An update is one step of `main` here,
so the instants are those between updates. -/
theorem feed_reaches_store {x : Execution (EngineStep (T := T) h3 unpack stack)}
    (init : Ring.bufferInit structAllocated malloc (.lit 1024) = some rb)
    (begins : x.state 0 = start rb tables) (fair : FairThreads x)
    (isOpen : ∀ m, (x.state m).monitor.shared.shutdown = false) :
    (∀ m, ∃ served waiting, (feed unpack (x.trace m)).filter Known = served ++ waiting ∧
      serial (UpdateCall.code h3) bucketAccess (served.map updateCall) SpatialArena.init =
        .ok (x.state m).world.arena) ∧
    (∀ n served waiting, (feed unpack (x.trace n)).filter Known = served ++ waiting →
      ∃ m, serial (UpdateCall.code h3) bucketAccess (served.map updateCall) SpatialArena.init =
        .ok (x.state m).world.arena) ∧
    ∀ n bus v, bus ∈ feed unpack (x.trace n) → Known bus →
      (updateCall bus).visit h3 = some v →
      ∃ m, Newest ((x.state m).world.arena v.bucket).data v.cell (updateCall bus).sample := by
  refine ⟨fun m => ?_, fun n served waiting split => ?_, ?_⟩
  · obtain ⟨processed, hand, returned, -, applied⟩ := returned_consuming (run_at begins m)
    obtain ⟨q, -, split⟩ := queue_run init (run_at begins m)
    have inFeed : processed <+: feed unpack (x.trace m) := by
      refine List.IsPrefix.trans ⟨hand ++ q.items, ?_⟩ (accepted_prefix_feed (run_at begins m))
      rw [split, returned, List.append_assoc]
    obtain ⟨waiting, rest⟩ := inFeed.filter (p := fun bus => decide (Known bus))
    refine ⟨_, waiting, rest.symm, ?_⟩
    rw [arena_of_updates (run_at begins m), applied]
    exact serial_calls _
  · obtain ⟨m, arena⟩ := comes_to_store init begins fair isOpen split
    exact ⟨m, arena ▸ serial_calls _⟩
  · intro n bus v inFeed known visit
    exact comes_to_be_newest init begins fair isOpen inFeed known visit

/-- A bus that was just pushed comes to be the newest sample of its bucket. -/
theorem feed_reaches_store_one_bus :
    ∃ x : Execution (EngineStep (T := Empty) oneH3 (fun _ => some oneMessage) fun _ _ => zeroBus),
      ∃ m, Newest ((x.state m).world.arena (bucketOf 0x89754e64993ffff)).data 0x89754e64993ffff
        (updateCall oneItem).sample := by
  obtain ⟨rb, n, x, init, begins, fair, one, -⟩ := exists_fair_pushed
  obtain ⟨bus, rest, isFeed⟩ : ∃ bus rest, feed (fun _ => some oneMessage) (x.trace n) =
      bus :: rest := by
    apply List.exists_cons_of_length_pos
    have pushed : 0 < entered (x.trace n) := by omega
    exact pushed.trans_le (accepted_prefix_feed (run_at begins n)).length_le
  have inFeed : bus ∈ feed (fun _ => some oneMessage) (x.trace n) := by simp [isFeed]
  obtain ⟨payload, msg, entity, vehicle, position, -, unpacked, inMessage, hv, hp, isBus⟩ :=
    mem_feed inFeed
  obtain rfl := Option.some.inj unpacked
  obtain rfl := List.mem_singleton.mp inMessage
  obtain rfl := Option.some.inj hv
  obtain rfl := Option.some.inj hp
  have isItem : bus = oneItem := by
    rw [isBus, oneItem, fillItem_eq]
  subst isItem
  obtain ⟨m, newest⟩ := (feed_reaches_store init begins fair (never_shut_down init begins)).2.2 n
    oneItem ⟨updateCall oneItem, 0x89754e64993ffff, cell_ne_zero⟩ inFeed (by decide) rfl
  exact ⟨x, m, newest⟩

end TelemetrixDb.Engine
