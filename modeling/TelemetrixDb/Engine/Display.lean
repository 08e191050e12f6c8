import TelemetrixDb.Engine.Progress

/-!
# The lines that the consumer shows

The consumer indexes a table only after it has found the key there, so no lookup
adds one and the tables stay as they were loaded. What is shown for a record then
depends on the record and the tables alone, and the lines come in the order of
the records popped.

-/

namespace TelemetrixDb.Engine
open CMachine Monitor Ingestion Storage Transition Program

/-- A table's name of an id, and the id itself where the table has none. -/
def nameIn (names : Bytes → Option Bytes) (id : Bytes) : Bytes := (names id).getD id

/-- The table gives both ids one name, or one of them is not in the table and is
itself the name of the other. -/
def ShareName (names : Bytes → Option Bytes) (id id' : Bytes) : Prop :=
  (∃ name, names id = some name ∧ names id' = some name) ∨
    (names id = none ∧ names id' = some id) ∨ (names id = some id' ∧ names id' = none)

theorem shareName_of_nameIn {names : Bytes → Option Bytes} {id id' : Bytes} (differ : id ≠ id')
    (same : nameIn names id = nameIn names id') : ShareName names id id' := by
  unfold nameIn at same
  cases found : names id with
  | some name =>
      cases found' : names id' with
      | some name' =>
          rw [found, found'] at same
          obtain rfl : name = name' := same
          exact Or.inl ⟨name, found, found'⟩
      | none =>
          rw [found, found'] at same
          obtain rfl : name = id' := same
          exact Or.inr (Or.inr ⟨found, found'⟩)
  | none =>
      cases found' : names id' with
      | some name' =>
          rw [found, found'] at same
          obtain rfl : id = name' := same
          exact Or.inr (Or.inl ⟨found, found'⟩)
      | none =>
          rw [found, found'] at same
          exact absurd same differ

/-- The test before the lookups. -/
def HasPassengers (bus : VehicleData) : Prop :=
  1 < bus.occupancyStatus.val ∧ bus.occupancyStatus.val < 6

instance : DecidablePred HasPassengers := fun _ => inferInstanceAs (Decidable (_ ∧ _))

/-- A popped record for which a line is shown. -/
def Announced (bus : VehicleData) : Prop := Known bus ∧ HasPassengers bus

instance : DecidablePred Announced := fun _ => inferInstanceAs (Decidable (_ ∧ _))

/-- The line for a record. -/
def lineOf (tables : Tables) (bus : VehicleData) : DisplayLine where
  fleetNumber := bus.fleetNumber.text
  route := nameIn (tables .routeNames) bus.routeId.text
  speed := bus.speed
  load := getOccupancyString bus.occupancyStatus
  percent := bus.occupancyPercentage
  bearing := bus.bearing
  stop := nameIn (tables .stopNames) bus.stopId.text

/-- The line, if any, that a call shows. -/
def displayedIn : EngineCall → List DisplayLine
  | ⟨.own (.display line), _⟩ => [line]
  | _ => []

variable {tables : Tables} {lines : List DisplayLine}

/-- Code that shows these lines before the end of the turn when the tables answer
its lookups, and indexes only keys that a table has. -/
inductive Telling (tables : Tables) : List DisplayLine → EngineCode Turn → Prop
  | top (poppedBus : VehicleData) (totalProcessed : UInt64) :
      Telling tables [] (consumerTurn poppedBus totalProcessed)
  | between (poppedBus : VehicleData) (totalProcessed : UInt64) :
      Telling tables [] (.ret (.consumer poppedBus totalProcessed))
  | update {c : UpdateCall} {lines next} (rest : ∀ applied, Telling tables lines (next applied)) :
      Telling tables lines (.call (.own (.update c)) next)
  | count {table : Table} {key : Bytes} {lines next}
      (rest : Telling tables lines (next (tables table key).isSome)) :
      Telling tables lines (.call (.own (.count table key)) next)
  | index {table : Table} {key name : Bytes} {lines next} (present : tables table key = some name)
      (rest : Telling tables lines (next name)) :
      Telling tables lines (.call (.own (.index table key)) next)
  | display {line : DisplayLine} {lines next} (rest : Telling tables lines (next ())) :
      Telling tables (line :: lines) (.call (.own (.display line)) next)

/-- Between two turns no line is to come. -/
theorem Telling.between_turns {turn : Turn} (h : Telling tables lines (.ret turn)) :
    lines = [] ∧ ∃ poppedBus totalProcessed, turn = .consumer poppedBus totalProcessed := by
  generalize hcode : (Program.ret turn : EngineCode Turn) = code at h
  cases h with
  | top =>
      rw [consumerTurn_eq] at hcode
      cases hcode
  | between poppedBus totalProcessed =>
      cases hcode
      exact ⟨rfl, poppedBus, totalProcessed, rfl⟩
  | update => cases hcode
  | count => cases hcode
  | index => cases hcode
  | display => cases hcode

theorem telling_displayName {table : Table} {id : Bytes} {f : Bytes → EngineCode Turn}
    (rest : Telling tables lines (f (nameIn (tables table) id))) :
    Telling tables lines (displayName table id >>= f) := by
  simp only [displayName, own, perform_bind, call_bind]
  refine .count ?_
  cases found : tables table id with
  | none =>
      rw [nameIn, found] at rest
      exact rest
  | some name =>
      rw [nameIn, found] at rest
      exact .index found rest

theorem telling_showBus {bus : VehicleData} {k : EngineCode Turn} (rest : Telling tables [] k) :
    Telling tables (if HasPassengers bus then [lineOf tables bus] else [])
      (showBus bus >>= fun _ => k) := by
  unfold showBus
  by_cases passengers : HasPassengers bus
  · have test : 1 < bus.occupancyStatus.val ∧ bus.occupancyStatus.val < 6 := passengers
    rw [if_pos passengers, if_pos test]
    simp only [bind_bind]
    apply telling_displayName
    apply telling_displayName
    exact .display rest
  · have test : ¬ (1 < bus.occupancyStatus.val ∧ bus.occupancyStatus.val < 6) := passengers
    rw [if_neg passengers, if_neg test]
    exact rest

/-- The lines owed for a reply of the ring. -/
def owed (tables : Tables) (reply : Bool × VehicleData) : List DisplayLine :=
  if reply.1 = true ∧ Announced reply.2 then [lineOf tables reply.2] else []

theorem telling_poppedCode (totalProcessed : UInt64) (reply : Bool × VehicleData) :
    Telling tables (owed tables reply) (poppedCode totalProcessed reply) := by
  obtain ⟨gotData, bus⟩ := reply
  cases gotData with
  | false => exact .between bus totalProcessed
  | true =>
      by_cases known : Known bus
      · rw [poppedCode_known totalProcessed known]
        have same : owed tables (true, bus) =
            if HasPassengers bus then [lineOf tables bus] else [] := by
          simp [owed, Announced, known]
        rw [same]
        exact .update fun applied => telling_showBus (.between _ _)
      · rw [poppedCode_unknown totalProcessed known]
        have same : owed tables (true, bus) = [] := by simp [owed, Announced, known]
        rw [same]
        exact .between bus totalProcessed

/-- The tables are as loaded, and the lines shown and those still to come in this
turn are those of the popped records. -/
structure Displaying (tables : Tables) (calls : List EngineCall) (code : EngineCode Turn)
    (w : World) (pending : List DisplayLine) : Prop where
  loaded : w.tables = tables
  telling : Telling tables pending code
  shown : calls.flatMap displayedIn ++ pending =
    ((calls.flatMap poppedIn).filter Announced).map (lineOf tables)
  short : pending.length ≤ 1

theorem owed_eq (reply : Bool × VehicleData) (poppedBus : VehicleData) :
    owed tables reply =
      ((poppedIn ⟨.shared (.pop poppedBus), reply⟩).filter Announced).map (lineOf tables) := by
  obtain ⟨gotData, bus⟩ := reply
  cases gotData with
  | false => simp [owed, poppedIn]
  | true => by_cases announced : Announced bus <;> simp [owed, poppedIn, announced]

theorem displaying_rule {T : Type} (h3 : H3) (unpack : Bytes → Option FeedMessage)
    (stack : Nat → Nat → VehicleData) (tables : Tables) :
    WorldRule (Own h3) (resume unpack stack) Thread.MayCall (Thread.main : Thread T)
      fun calls code w => ∃ pending, Displaying tables calls code w pending where
  rely := by
    rintro u l calls p w y w' other allowed ⟨pending, h⟩ ran
    refine ⟨pending, { h with loaded := ?_ }⟩
    cases u with
    | main => exact absurd rfl other
    | signaller => exact allowed.elim
    | ingestion =>
        cases l with
        | fetchGtfsData | free | sleep =>
            obtain rfl : w' = w := ran
            exact h.loaded
        | update | count | index | display => exact allowed.elim
  shared := by
    rintro calls op next w reply ⟨pending, loaded, telling, shown, -⟩
    generalize hcode : (Program.call (.shared op) next : EngineCode Turn) = code at telling
    cases telling with
    | top poppedBus totalProcessed =>
        rw [consumerTurn_eq] at hcode
        cases hcode
        refine ⟨owed tables reply, loaded, telling_poppedCode totalProcessed reply, ?_, ?_⟩
        · rw [List.append_nil] at shown
          rw [List.flatMap_append, List.flatMap_append, List.filter_append, List.map_append, ← shown,
            owed_eq reply poppedBus]
          simp [displayedIn]
        · unfold owed
          split <;> simp
    | between => cases hcode
    | update => cases hcode
    | count => cases hcode
    | index => cases hcode
    | display => cases hcode
  own := by
    rintro calls l next w y w' ⟨pending, loaded, telling, shown, short⟩ ran
    generalize hcode : (Program.call (.own l) next : EngineCode Turn) = code at telling
    cases telling with
    | top =>
        rw [consumerTurn_eq] at hcode
        cases hcode
    | between => cases hcode
    | update rest =>
        cases hcode
        refine ⟨pending, ran.2.trans loaded, rest y, ?_, short⟩
        simpa [displayedIn, poppedIn] using shown
    | count rest =>
        cases hcode
        obtain ⟨rfl, rfl⟩ := ran
        refine ⟨pending, loaded, ?_, ?_, short⟩
        · rw [loaded]
          exact rest
        · simpa [displayedIn, poppedIn] using shown
    | @index table key name lines next' present rest =>
        cases hcode
        obtain ⟨rfl, -, stored⟩ := ran
        have found : w.tables table key = some name := loaded ▸ present
        refine ⟨pending, ?_, ?_, ?_, short⟩
        · rw [stored, found, Option.getD_some, ← found, Function.update_eq_self,
            Function.update_eq_self, loaded]
        · rw [found]
          exact rest
        · simpa [displayedIn, poppedIn] using shown
    | @display line lines next' rest =>
        cases hcode
        obtain rfl : w' = w := ran
        refine ⟨lines, loaded, rest, ?_, ?_⟩
        · simpa [displayedIn, poppedIn] using shown
        · rw [List.length_cons] at short
          omega
  again := by
    rintro calls a p w ⟨pending, loaded, telling, shown, short⟩ more
    obtain ⟨rfl, poppedBus, totalProcessed, rfl⟩ := telling.between_turns
    cases more
    exact ⟨[], loaded, .top poppedBus totalProcessed, shown, short⟩

section Runs

variable {T : Type} [DecidableEq T] {h3 : H3} {unpack : Bytes → Option FeedMessage}
variable {stack : Nat → Nat → VehicleData} {rb : Ring.RingBuffer VehicleData}
variable {es : List (EngineEvent T)} {s : EngineState T}

/-- The lines shown so far, in order. -/
def displays (es : List (EngineEvent T)) : List DisplayLine :=
  (es.flatMap SystemEvent.completed).flatMap fun c => displayedIn c.2

omit [DecidableEq T] in
theorem silent_display_of_ne_main {t : Thread T} (ht : t ≠ .main) {c : EngineCall}
    (h : t.MayCall c.1) : displayedIn c = [] := by
  obtain ⟨op, x⟩ := c
  cases op with
  | shared call => rfl
  | own l =>
      cases l with
      | display line => cases t <;> first | exact absurd rfl ht | exact h.elim
      | _ => rfl

/-- At every point of every run the tables are as loaded and the lines shown are
those of the popped records that have one, but for the record at hand. -/
theorem displaying_run (run : Run (EngineStep h3 unpack stack) (start rb tables) es s) :
    ∃ pending, s.world.tables = tables ∧ Telling tables pending (s.code .main) ∧
      displays es ++ pending =
        ((Ring.returned (onRing es)).filter Announced).map (lineOf tables) ∧
      pending.length ≤ 1 := by
  have shown : displays es = (callsOf .main es).flatMap displayedIn :=
    flatMap_callsOf fun u hu c hc => silent_display_of_ne_main hu (mayCall_run run u c hc)
  have first : Displaying tables [] (.ret (.consumer zeroBus 0)) ⟨.init, tables⟩ [] :=
    ⟨rfl, .between zeroBus 0, rfl, Nat.zero_le 1⟩
  have codes (t : Thread T) : CallsOnly t.MayCall t.MayTurn ((start rb tables).code t) := by
    cases t <;> trivial
  obtain ⟨pending, displaying⟩ := (displaying_rule h3 unpack stack tables).run
    (fun h more => callsOnly_turn _ h more) codes run ⟨[], first⟩
  refine ⟨pending, displaying.loaded, displaying.telling, ?_, displaying.short⟩
  rw [shown, returned_callsOf run]
  exact displaying.shown

/-- How a line names the route and the stop of its vehicle: each id is looked up
as far as it fits its array. -/
structure Names (tables : Tables) (vehicle : VehiclePosition) (line : DisplayLine) : Prop where
  route : line.route = nameIn (tables .routeNames) ((cText (routeText vehicle)).take 15)
  stop : line.stop = nameIn (tables .stopNames) ((cText (stopText vehicle)).take 31)

theorem names_lineOf (entity : FeedEntity) (vehicle : VehiclePosition) (position : Position) :
    Names tables vehicle (lineOf tables (recordOf entity vehicle position)) where
  route := congrArg (nameIn (tables .routeNames)) (CharArray.text_bounded _)
  stop := congrArg (nameIn (tables .stopNames)) (CharArray.text_bounded _)

omit [DecidableEq T] in
/-- A record of the feed is that of a vehicle in a payload. -/
theorem mem_feed {bus : VehicleData} (h : bus ∈ feed unpack es) :
    ∃ payload msg entity vehicle position, some payload ∈ fetched es ∧
      unpack payload = some msg ∧ entity ∈ msg.entity ∧ entity.vehicle = some vehicle ∧
      vehicle.position = some position ∧ bus = recordOf entity vehicle position := by
  obtain ⟨rawProtobuf, isFetched, contributed⟩ := List.mem_flatMap.mp h
  cases rawProtobuf with
  | none => cases contributed
  | some payload =>
      rw [contribution] at contributed
      split at contributed
      · cases unpacked : unpack payload with
        | none => simp [unpacked] at contributed
        | some msg =>
            rw [unpacked] at contributed
            obtain ⟨entity, inMessage, flat⟩ := List.mem_filterMap.mp contributed
            obtain ⟨vehicle, hv, flat⟩ := Option.bind_eq_some_iff.mp flat
            obtain ⟨position, hp, rfl⟩ := Option.map_eq_some_iff.mp flat
            exact ⟨payload, msg, entity, vehicle, position, isFetched, unpacked, inMessage, hv, hp,
              rfl⟩
      · cases contributed

/-- At every point of every run: no key was added to a table, and the lines shown
are those of the popped records with a known id and passengers, in order, but for
the record at hand. They come in the order of the feed, and each is the line of a
vehicle of the feed whose route and stop are named by its ids, each as far as it
fits its array. Two vehicles whose route ids differ as far as they fit show the
same route only when the table gives both ids one name, or when one of them is not
in the table and is itself the name of the other. -/
theorem names_shown {structAllocated : Bool} {malloc : Ring.Malloc VehicleData}
    (init : Ring.bufferInit structAllocated malloc (.lit 1024) = some rb)
    (run : Run (EngineStep h3 unpack stack) (start rb tables) es s) :
    s.world.tables = tables ∧
    (∃ pending, pending.length ≤ 1 ∧ ((∃ turn, s.code .main = .ret turn) → pending = []) ∧
      displays es ++ pending =
        ((Ring.returned (onRing es)).filter Announced).map (lineOf tables)) ∧
    displays es <+: ((feed unpack es).filter Announced).map (lineOf tables) ∧
    (∀ line ∈ displays es, ∃ payload msg entity vehicle position, some payload ∈ fetched es ∧
      unpack payload = some msg ∧ entity ∈ msg.entity ∧ entity.vehicle = some vehicle ∧
      vehicle.position = some position ∧ line = lineOf tables (recordOf entity vehicle position) ∧
      Names tables vehicle line) ∧
    ∀ vehicle vehicle' line line', Names tables vehicle line → Names tables vehicle' line' →
      (cText (routeText vehicle)).take 15 ≠ (cText (routeText vehicle')).take 15 →
      line.route = line'.route →
      ShareName (tables .routeNames) ((cText (routeText vehicle)).take 15)
        ((cText (routeText vehicle')).take 15) := by
  obtain ⟨pending, loaded, telling, shown, short⟩ := displaying_run run
  have inOrder : displays es <+: ((feed unpack es).filter Announced).map (lineOf tables) := by
    have capacity : (CInt.lit 1024).val = (1024 : Nat) := rfl
    obtain ⟨tail, items, -, split⟩ := Ring.run_items capacity init (monitor_run run)
    have popped : Ring.returned (onRing es) <+: feed unpack es :=
      List.IsPrefix.trans ⟨items, split.symm⟩ (accepted_prefix_feed run)
    exact List.IsPrefix.trans ⟨pending, shown⟩ ((popped.filter _).map _)
  refine ⟨loaded, ⟨pending, short, ?_, shown⟩, inOrder, ?_, ?_⟩
  · rintro ⟨turn, at_⟩
    rw [at_] at telling
    exact telling.between_turns.1
  · intro line hline
    obtain ⟨bus, inFeed, rfl⟩ := List.mem_map.mp (inOrder.subset hline)
    obtain ⟨payload, msg, entity, vehicle, position, isFetched, unpacked, inMessage, hv, hp, rfl⟩ :=
      mem_feed (List.mem_filter.mp inFeed).1
    exact ⟨payload, msg, entity, vehicle, position, isFetched, unpacked, inMessage, hv, hp, rfl,
      names_lineOf entity vehicle position⟩
  · intro vehicle vehicle' line line' named named' differ same
    rw [named.route, named'.route] at same
    exact shareName_of_nameIn differ same

/-- The record of a payload with one announced record is shown. -/
theorem exists_shown_run (h3 : H3) (unpack : Bytes → Option FeedMessage)
    (stack : Nat → Nat → VehicleData) (tables : Tables) {payload : Bytes} {bus : VehicleData}
    (one : contribution unpack (some payload) = [bus]) (announced : Announced bus) :
    ∃ rb s, ∃ es : List (EngineEvent Empty),
      Ring.bufferInit true (.granting zeroBus) (.lit 1024) = some rb ∧
      Run (EngineStep h3 unpack stack) (start rb tables) es s ∧
      displays es = [lineOf tables bus] := by
  obtain ⟨rb, s, totalProcessed, es, init, applied, -, popped, atShow⟩ :=
    exists_applied_run h3 stack tables one announced.1
  have calls : CallsOnly (OwnOnly ConsumerOwn) Turn.IsConsumer (s.code .main) := by
    rw [atShow]
    exact (ownOnly_showBus bus).bind fun _ _ => trivial
  obtain ⟨fs, s', poppedBus, total, rest, mine, between⟩ := turn_ends applied calls
  have quiet : fs.flatMap SystemEvent.onMonitor = [] := by
    apply List.flatMap_eq_nil_iff.mpr
    intro e he
    obtain ⟨l, x, rfl⟩ := mine e he
    rfl
  obtain ⟨pending, -, telling, shown, -⟩ := displaying_run (applied.trans rest)
  rw [between] at telling
  obtain ⟨rfl, -⟩ := telling.between_turns
  have returned : Ring.returned (onRing (es ++ fs)) = [bus] := by
    rw [onRing, List.flatMap_append, quiet, List.append_nil]
    exact popped
  refine ⟨rb, s', es ++ fs, init, applied.trans rest, ?_⟩
  rw [List.append_nil, returned] at shown
  simpa [announced] using shown

end Runs

section OneBus

/-- A bus with passengers at the origin, with these ids. -/
def routedVehicle (routeId stopId : Bytes) : VehiclePosition where
  trip := some ⟨some routeId⟩
  vehicle := some ⟨some [49], none⟩
  position := some ⟨.zero, .zero, false, .zero, false, .zero⟩
  stopId := some stopId
  hasCurrentStatus := false
  currentStatus := .lit 0
  hasTimestamp := true
  timestamp := 1700000000
  hasCongestionLevel := false
  congestionLevel := .lit 0
  hasOccupancyStatus := true
  occupancyStatus := .lit 3
  hasOccupancyPercentage := false
  occupancyPercentage := 0

/-- Its record. -/
def routedBus (routeId stopId : Bytes) : VehicleData :=
  recordOf ⟨some [49], some (routedVehicle routeId stopId)⟩ (routedVehicle routeId stopId)
    ⟨.zero, .zero, false, .zero, false, .zero⟩

/-- A payload with this bus alone. -/
def routedMessage (routeId stopId : Bytes) : FeedMessage :=
  ⟨[⟨some [49], some (routedVehicle routeId stopId)⟩]⟩

/-- Tables with one route. -/
def oneRoute (id name : Bytes) : Tables
  | .routeNames => fun key => if key = id then some name else none
  | .stopNames => fun _ => none

theorem routed_contribution (routeId stopId : Bytes) :
    contribution (fun _ => some (routedMessage routeId stopId)) (some [0]) =
      [routedBus routeId stopId] := rfl

theorem announced_routedBus (routeId stopId : Bytes) : Announced (routedBus routeId stopId) := by
  have known : (CharArray.bounded 15 [49]).text ≠ unknown := by decide
  have passengers : 1 < (CInt.lit 3).val ∧ (CInt.lit 3).val < 6 := by decide
  exact ⟨known, passengers⟩

/-- Route 7 is shown by its name. -/
theorem names_shown_one_route : ∃ rb s, ∃ es : List (EngineEvent Empty),
    Run (EngineStep oneH3 (fun _ => some (routedMessage [55] [57])) fun _ _ => zeroBus)
      (start rb (oneRoute [55] [66])) es s ∧
    s.world.tables = oneRoute [55] [66] ∧ (displays es).map DisplayLine.route = [[66]] := by
  obtain ⟨rb, s, es, init, run, shown⟩ := exists_shown_run oneH3 _ (fun _ _ => zeroBus)
    (oneRoute [55] [66]) (routed_contribution [55] [57]) (announced_routedBus [55] [57])
  refine ⟨rb, s, es, run, (names_shown init run).1, ?_⟩
  rw [shown]
  decide

/-- A route whose id does not fit its array is shown by the name of its part that
fits. -/
theorem cut_route_shown {routeId cut : Bytes} (h : (cText routeId).take 15 = cut) (name : Bytes) :
    ∃ rb s, ∃ es : List (EngineEvent Empty),
      Run (EngineStep oneH3 (fun _ => some (routedMessage routeId [57])) fun _ _ => zeroBus)
        (start rb (oneRoute cut name)) es s ∧ (displays es).map DisplayLine.route = [name] := by
  obtain ⟨rb, s, es, init, run, shown⟩ := exists_shown_run oneH3 _ (fun _ _ => zeroBus)
    (oneRoute cut name) (routed_contribution routeId [57]) (announced_routedBus routeId [57])
  refine ⟨rb, s, es, run, ?_⟩
  have names : (lineOf (oneRoute cut name) (routedBus routeId [57])).route = _ :=
    (names_lineOf _ (routedVehicle routeId [57]) _).route
  have found : nameIn (oneRoute cut name .routeNames) cut = name := by simp [nameIn, oneRoute]
  have text : routeText (routedVehicle routeId [57]) = routeId := rfl
  rw [shown, List.map_singleton, names, text, h, found]

/-- Two routes whose ids are one byte too long for the array and differ in that
byte are both shown by the name of a third, although neither id is in the table. -/
theorem long_ids_share_name :
    let short : Bytes := List.replicate 15 65
    let tables := oneRoute short [66]
    (∃ rb s, ∃ es : List (EngineEvent Empty),
      Run (EngineStep oneH3 (fun _ => some (routedMessage (short ++ [67]) [57])) fun _ _ => zeroBus)
        (start rb tables) es s ∧
      (displays es).map DisplayLine.route = [[66]] ∧
      nameIn (tables .routeNames) (short ++ [67]) = short ++ [67]) ∧
    ∃ rb s, ∃ es : List (EngineEvent Empty),
      Run (EngineStep oneH3 (fun _ => some (routedMessage (short ++ [68]) [57])) fun _ _ => zeroBus)
        (start rb tables) es s ∧
      (displays es).map DisplayLine.route = [[66]] ∧
      nameIn (tables .routeNames) (short ++ [68]) = short ++ [68] := by
  intro short tables
  constructor
  · obtain ⟨rb, s, es, run, shown⟩ :=
      @cut_route_shown (short ++ [67]) short (by decide) [66]
    exact ⟨rb, s, es, run, shown, by decide⟩
  · obtain ⟨rb, s, es, run, shown⟩ :=
      @cut_route_shown (short ++ [68]) short (by decide) [66]
    exact ⟨rb, s, es, run, shown, by decide⟩

end OneBus

end TelemetrixDb.Engine
