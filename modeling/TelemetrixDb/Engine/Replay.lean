import TelemetrixDb.Engine.Delivery

/-!
# The engine replays a prefix of its feed

What the program is for can be said without threads: a loop takes the records of
the feed one after the other, updates the arena with each known one, counts the
successful updates and shows the announced ones. At the top of each turn of `main`
the arena, the counter and the lines shown are those of this loop.

-/

namespace TelemetrixDb.Engine
open CMachine Monitor Ingestion Storage Transition Program LockSections

/-- What the loop without threads has done so far. -/
structure Served where
  arena : SpatialArena
  totalProcessed : UInt64
  lines : List DisplayLine

section Sequential

variable (h3 : H3) (tables : Tables)

/-- The loop without threads takes one record. -/
def serve (served : Served) (bus : VehicleData) : Served :=
  if Known bus then
    match ((updateCall bus).code h3).exec (handle bucketAccess) served.arena with
    | .ok (applied, arena) =>
        { arena
          totalProcessed := if applied then served.totalProcessed + 1 else served.totalProcessed
          lines := served.lines ++ if HasPassengers bus then [lineOf tables bus] else [] }
    | .error _ => served
  else served

/-- The loop without threads over these records. -/
def replay (buses : List VehicleData) : Served := buses.foldl (serve h3 tables) ⟨.init, 0, []⟩

variable {h3 tables}

theorem replay_concat (buses : List VehicleData) (bus : VehicleData) :
    replay h3 tables (buses ++ [bus]) = serve h3 tables (replay h3 tables buses) bus :=
  List.foldl_concat _ _ _ _

/-- The visits of the known records. -/
def visitsOf (h3 : H3) (buses : List VehicleData) : List Visit :=
  visits h3 ((buses.filter Known).map updateCall)

theorem visitsOf_concat_known (buses : List VehicleData) {bus : VehicleData} (known : Known bus) :
    visitsOf h3 (buses ++ [bus]) = visitsOf h3 buses ++ ((updateCall bus).visit h3).toList := by
  simp only [visitsOf, List.filter_append, List.map_append]
  rw [← visits_concat]
  simp [known]

theorem visitsOf_concat_unknown (buses : List VehicleData) {bus : VehicleData}
    (skipped : ¬ Known bus) : visitsOf h3 (buses ++ [bus]) = visitsOf h3 buses := by
  simp [visitsOf, skipped]

/-- The counter after one more call. -/
theorem ofNat_length_visit (vs : List Visit) (c : UpdateCall) :
    UInt64.ofNat (vs ++ (c.visit h3).toList).length =
      if (c.visit h3).isSome then UInt64.ofNat vs.length + 1 else UInt64.ofNat vs.length := by
  cases c.visit h3 with
  | none => simp
  | some v => simp [UInt64.ofNat_add]

/-- The loop without threads in terms of the visits of its records. -/
theorem replay_eq (buses : List VehicleData) : replay h3 tables buses =
    { arena := arenaAfter (visitsOf h3 buses)
      totalProcessed := UInt64.ofNat (visitsOf h3 buses).length
      lines := (buses.filter Announced).map (lineOf tables) } := by
  induction buses using List.reverseRecOn with
  | nil => rfl
  | append_singleton buses bus ih =>
      rw [replay_concat, ih, serve]
      by_cases known : Known bus
      · rw [if_pos known, exec_code, visitsOf_concat_known buses known, ofNat_length_visit]
        by_cases passengers : HasPassengers bus
        · simp [Announced, known, passengers]
        · simp [Announced, known, passengers]
      · rw [if_neg known, visitsOf_concat_unknown buses known]
        simp [Announced, known]

end Sequential

/-- Code that ends its turn with the count of the successful updates when there were
`total` before. -/
inductive Tallies : UInt64 → EngineCode Turn → Prop
  | top (poppedBus : VehicleData) (total : UInt64) : Tallies total (consumerTurn poppedBus total)
  | between (poppedBus : VehicleData) (total : UInt64) :
      Tallies total (.ret (.consumer poppedBus total))
  | update {c : UpdateCall} {total next}
      (rest : ∀ applied, Tallies (if applied then total + 1 else total) (next applied)) :
      Tallies total (.call (.own (.update c)) next)
  | shows {l : OwnOp} {total next} (quiet : Shows (.own l)) (rest : ∀ y, Tallies total (next y)) :
      Tallies total (.call (.own l) next)

theorem tallies_of_shows {β : Type} {p : EngineCode β} {f : β → EngineCode Turn} {total : UInt64}
    (calls : CallsOnly Shows (fun _ => True) p) (rest : ∀ b, Tallies total (f b)) :
    Tallies total (p >>= f) := by
  induction p with
  | ret b => exact rest b
  | call op next ih =>
      cases op with
      | shared call => exact calls.1.elim
      | own l => exact .shows calls.1 fun y => ih y (calls.2 y)

theorem tallies_poppedCode (total : UInt64) (reply : Bool × VehicleData) :
    Tallies total (poppedCode total reply) := by
  unfold poppedCode
  split
  · exact .between _ _
  · split
    · exact .between _ _
    · exact .update fun applied => tallies_of_shows (callsOnly_showBus _) fun _ => .between _ _

namespace Tallies

variable {total : UInt64}

/-- Between two turns the counter is up to date. -/
theorem between_turns {turn : Turn} (h : Tallies total (.ret turn)) :
    ∃ bus, turn = .consumer bus total := by
  generalize hcode : (Program.ret turn : EngineCode Turn) = code at h
  cases h with
  | top =>
      rw [consumerTurn_eq] at hcode
      cases hcode
  | between bus =>
      cases hcode
      exact ⟨bus, rfl⟩
  | update => cases hcode
  | shows => cases hcode

/-- So it is at the top of the loop. -/
theorem top_total {bus : VehicleData} {total' : UInt64} (h : Tallies total (consumerTurn bus total')) :
    total' = total := by
  generalize hcode : consumerTurn bus total' = code at h
  rw [consumerTurn_eq] at hcode
  cases h with
  | top bus' =>
      rw [consumerTurn_eq] at hcode
      obtain ⟨-, next⟩ := Program.call.inj hcode
      have refused := congrFun (eq_of_heq next) (false, bus)
      simpa [poppedCode] using refused
  | between => cases hcode
  | update => cases hcode
  | shows => cases hcode

end Tallies

theorem tallying_rule {T : Type} (h3 : H3) (unpack : Bytes → Option FeedMessage)
    (stack : Nat → Nat → VehicleData) :
    WorldRule (Own h3) (resume unpack stack) Thread.MayCall (Thread.main : Thread T)
      fun calls code w => w.arena = arenaAfter (visits h3 (calls.flatMap updatedIn)) ∧
        Tallies (UInt64.ofNat (visits h3 (calls.flatMap updatedIn)).length) code where
  rely := by
    rintro u l calls p w y w' other allowed ⟨arena, tallies⟩ ran
    refine ⟨?_, tallies⟩
    cases u with
    | main => exact absurd rfl other
    | signaller => exact allowed.elim
    | ingestion =>
        cases l with
        | fetchGtfsData | free | sleep =>
            obtain rfl : w' = w := ran
            exact arena
        | update | count | index | display => exact allowed.elim
  shared := by
    rintro calls op next w reply ⟨arena, tallies⟩
    have silent : updatedIn ⟨.shared op, reply⟩ = [] := rfl
    rw [List.flatMap_append, List.flatMap_singleton, silent, List.append_nil]
    refine ⟨arena, ?_⟩
    generalize hcode : (Program.call (.shared op) next : EngineCode Turn) = code at tallies
    cases tallies with
    | top poppedBus =>
        rw [consumerTurn_eq] at hcode
        cases hcode
        exact tallies_poppedCode _ reply
    | between => cases hcode
    | update => cases hcode
    | shows => cases hcode
  own := by
    rintro calls l next w y w' ⟨arena, tallies⟩ ran
    have after := arena_of_own arena ran
    rw [List.flatMap_append, List.flatMap_singleton]
    refine ⟨after, ?_⟩
    generalize hcode : (Program.call (.own l) next : EngineCode Turn) = code at tallies
    cases tallies with
    | top =>
        rw [consumerTurn_eq] at hcode
        cases hcode
    | between => cases hcode
    | @update c _ next' rest =>
        cases hcode
        have answered := ran.1
        rw [arena, exec_code] at answered
        have applied : (c.visit h3).isSome = y := (Prod.ext_iff.mp (Except.ok.inj answered)).1
        rw [updatedIn, visits_concat, ofNat_length_visit, applied]
        exact rest y
    | shows quiet rest =>
        cases hcode
        obtain ⟨-, silent⟩ := silent_of_shows (c := ⟨.own l, y⟩) quiet
        rw [silent, List.append_nil]
        exact rest y
  again := by
    rintro calls a p w ⟨arena, tallies⟩ more
    obtain ⟨bus, rfl⟩ := tallies.between_turns
    cases more
    exact ⟨arena, .top bus _⟩

section Runs

variable {T : Type} [DecidableEq T] {h3 : H3} {unpack : Bytes → Option FeedMessage}
variable {stack : Nat → Nat → VehicleData} {rb : Ring.RingBuffer VehicleData} {tables : Tables}
variable {structAllocated : Bool} {malloc : Ring.Malloc VehicleData}
variable {es : List (EngineEvent T)} {s : EngineState T}

/-- The counter is that of the successful updates so far. -/
theorem tallying_run (run : Run (EngineStep h3 unpack stack) (start rb tables) es s) :
    Tallies (UInt64.ofNat (visits h3 (updates es)).length) (s.code .main) := by
  have applies : updates es = (callsOf .main es).flatMap updatedIn :=
    flatMap_callsOf fun u hu c hc => (silent_of_ne_main hu (mayCall_run run u c hc)).2
  have codes (t : Thread T) : CallsOnly t.MayCall t.MayTurn ((start rb tables).code t) := by
    cases t <;> trivial
  rw [applies]
  exact ((tallying_rule h3 unpack stack).run (fun h more => callsOnly_turn _ h more) codes run
    ⟨rfl, .between zeroBus 0⟩).2

/-- In every run of the threads, the records that `main` has popped are a prefix of
the feed, and no table has changed. At every point the arena is that which the loop
without threads has after these records, or after all but the last of them. And
whenever `main` is at the top of its loop or between two turns, the arena, the
counter and the lines shown are exactly those of the loop without threads over the
records popped. Only `main` uses the arena and an update is one step of it here, so every
point is one between updates. -/
theorem engine_replays (init : Ring.bufferInit structAllocated malloc (.lit 1024) = some rb)
    (run : Run (EngineStep h3 unpack stack) (start rb tables) es s) :
    Ring.returned (onRing es) <+: feed unpack es ∧ s.world.tables = tables ∧
    (∃ processed hand, Ring.returned (onRing es) = processed ++ hand ∧ hand.length ≤ 1 ∧
      s.world.arena = (replay h3 tables processed).arena) ∧
    ∀ bus total,
      s.code .main = .ret (.consumer bus total) ∨ s.code .main = consumerTurn bus total →
      replay h3 tables (Ring.returned (onRing es)) = ⟨s.world.arena, total, displays es⟩ := by
  have arena := arena_of_updates run
  have tallies := tallying_run run
  obtain ⟨q, -, split⟩ := queue_run init run
  obtain ⟨processed, hand, returned, at_, applied⟩ := returned_consuming run
  obtain ⟨pending, loaded, telling, shown, -⟩ := displaying_run run
  refine ⟨List.IsPrefix.trans ⟨q.items, split.symm⟩ (accepted_prefix_feed run), loaded,
    ⟨processed, hand, returned, consumerAt_length at_, ?_⟩, ?_⟩
  · rw [arena, applied, replay_eq, visitsOf]
  · intro bus total between
    have here : hand = [] ∧ pending = [] ∧
        total = UInt64.ofNat (visits h3 (updates es)).length := by
      rcases between with turn | top
      · rw [turn] at at_ telling tallies
        obtain ⟨bus', same⟩ := tallies.between_turns
        cases same
        exact ⟨at_.between, telling.between_turns.1, rfl⟩
      · rw [top] at at_ telling tallies
        exact ⟨at_.top_hand, telling.top_lines, tallies.top_total⟩
    obtain ⟨rfl, rfl, rfl⟩ := here
    rw [List.append_nil] at returned shown
    rw [replay_eq, arena, shown, applied, returned, visitsOf]

end Runs

/-- At the end of the turn that takes the one bus of a payload, the counter is 1. -/
theorem engine_replays_one_bus : ∃ rb s bus total, ∃ es : List (EngineEvent Empty),
    Run (EngineStep oneH3 (fun _ => some oneMessage) fun _ _ => zeroBus)
      (start rb fun _ _ => none) es s ∧
    s.code .main = .ret (.consumer bus total) ∧ total = 1 ∧
    replay oneH3 (fun _ _ => none) [oneItem] = ⟨s.world.arena, total, displays es⟩ := by
  have one : contribution (fun _ => some oneMessage) (some [0]) = [oneItem] := by
    rw [oneItem, fillItem_eq]
    rfl
  have known : Known oneItem := by decide
  obtain ⟨rb, s, total, es, init, applied, -, popped, atShow⟩ :=
    exists_applied_run oneH3 (fun _ _ => zeroBus) (fun _ _ => none) one known
  have calls : CallsOnly (OwnOnly ConsumerOwn) Turn.IsConsumer (s.code .main) := by
    rw [atShow]
    exact (ownOnly_showBus oneItem).bind fun _ _ => trivial
  obtain ⟨fs, s', bus, total', rest, mine, between⟩ := turn_ends applied calls
  have quiet : onRing fs = [] := by
    apply List.flatMap_eq_nil_iff.mpr
    intro e he
    obtain ⟨l, x, rfl⟩ := mine e he
    rfl
  have returned : Ring.returned (onRing (es ++ fs)) = [oneItem] := by
    rw [onRing, List.flatMap_append, ← onRing, ← onRing, quiet, List.append_nil, popped]
  have same := (engine_replays init (applied.trans rest)).2.2.2 bus total' (Or.inl between)
  rw [returned] at same
  refine ⟨rb, s', bus, total', es ++ fs, applied.trans rest, between, ?_, same⟩
  have counted := congrArg Served.totalProcessed same
  rw [replay_eq] at counted
  exact counted.symm.trans (by decide)

end TelemetrixDb.Engine
