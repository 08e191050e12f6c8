import TelemetrixDb.Ingestion.Parser

/-!
# The parser flattens faithfully

Each entity with a position has one record, which depends on nothing else. The
parser pushes these records in the order of the message, up to the first that is
refused.

-/

namespace TelemetrixDb.Ingestion
open CMachine Program

section Record

variable (entity : FeedEntity) (vehicle : VehiclePosition) (position : Position)

/-- The text of the vehicle's label, and of the entity's id when it has none. -/
def fleetText : Bytes := (vehicle.vehicle.bind (·.label)).getD (entity.id.getD unknown)

def internalIdText : Bytes := (vehicle.vehicle.bind (·.id)).getD unknown

def routeText : Bytes := (vehicle.trip.bind (·.routeId)).getD unknown

def stopText : Bytes := vehicle.stopId.getD unknown

/-- The record of a vehicle with a position. -/
def recordOf : VehicleData where
  fleetNumber := .bounded 15 (fleetText entity vehicle)
  internalId := .bounded 15 (internalIdText vehicle)
  routeId := .bounded 15 (routeText vehicle)
  lat := position.latitude
  lon := position.longitude
  speed := if position.hasSpeed then position.speed else .zero
  occupancyStatus := if vehicle.hasOccupancyStatus then vehicle.occupancyStatus else .lit 7
  occupancyPercentage :=
    if vehicle.hasOccupancyPercentage then .ofUInt32 vehicle.occupancyPercentage else .lit (-1)
  bearing := if position.hasBearing then position.bearing else .zero
  timestamp := if vehicle.hasTimestamp then vehicle.timestamp else 0
  currentStatus := if vehicle.hasCurrentStatus then vehicle.currentStatus else .lit 2
  congestionLevel := if vehicle.hasCongestionLevel then vehicle.congestionLevel else .lit 0
  stopId := .bounded 31 (stopText vehicle)

theorem floatOrZero_eq (has : Bool) (x : CFloat) :
    floatOrZero has x = if has then x else .zero := by
  cases has <;> rfl

/-- What the stack held does not reach the record. -/
theorem fillItem_eq (item : VehicleData) :
    fillItem item entity vehicle position = recordOf entity vehicle position := by
  have absent : CInt.ofUInt32 (CInt.toUInt32 (.lit (-1))) = .lit (-1) := by decide
  apply VehicleData.ext
  all_goals
    simp only [fillItem, recordOf, CharArray.setText_eq_bounded, floatOrZero_eq, fleetText,
      internalIdText, routeText, stopText]
  split <;> simp only [absent]

end Record

/-- The record of an entity, if it has a vehicle with a position. -/
def flatten (entity : FeedEntity) : Option VehicleData :=
  entity.vehicle.bind fun vehicle => vehicle.position.map (recordOf entity vehicle)

/-- The records of a message, in its order. -/
def records (msg : FeedMessage) : List VehicleData := msg.entity.filterMap flatten

/-- Every record is offered until one is refused, after the calls in a log. -/
inductive Offers (answer : List (VehicleData × Bool) → VehicleData → Bool) :
    List (VehicleData × Bool) → List VehicleData → List (VehicleData × Bool) → Prop
  | done {log} : Offers answer log [] []
  | accepted {log item items calls} (ok : answer log item = true)
      (rest : Offers answer (log ++ [(item, true)]) items calls) :
      Offers answer log (item :: items) ((item, true) :: calls)
  | refused {log item items} (no : answer log item = false) :
      Offers answer log (item :: items) [(item, false)]

namespace Offers

variable {answer : List (VehicleData × Bool) → VehicleData → Bool}
variable {items : List VehicleData} {log calls before after : List (VehicleData × Bool)}
variable {item : VehicleData} {ok : Bool}

theorem isPrefix (h : Offers answer log items calls) : calls.map Prod.fst <+: items := by
  induction h with
  | done => exact List.prefix_rfl
  | accepted ok rest ih => simpa using ih
  | refused => simp

/-- Each call got the answer to it after the calls before it. -/
theorem answered (h : Offers answer log items calls)
    (split : calls = before ++ (item, ok) :: after) : ok = answer (log ++ before) item := by
  induction h generalizing before with
  | done => simp at split
  | accepted yes rest ih =>
      cases before with
      | nil =>
          obtain ⟨head, -⟩ := List.cons.inj split
          obtain ⟨rfl, rfl⟩ := Prod.mk.inj head
          simpa using yes.symm
      | cons call before =>
          obtain ⟨rfl, tail⟩ := List.cons.inj split
          simpa using ih tail
  | refused no =>
      cases before with
      | nil =>
          obtain ⟨head, -⟩ := List.cons.inj split
          obtain ⟨rfl, rfl⟩ := Prod.mk.inj head
          simpa using no.symm
      | cons call before => simp at split

/-- No call follows a refused one. -/
theorem last_of_refused (h : Offers answer log items calls)
    (split : calls = before ++ (item, false) :: after) : after = [] := by
  induction h generalizing before with
  | done => simp at split
  | accepted ok rest ih =>
      cases before with
      | nil => simp at split
      | cons call before => exact ih (List.cons.inj split).2
  | refused no =>
      cases before with
      | nil => exact (List.cons.inj split).2.symm
      | cons call before => simp at split

/-- Without a refusal every record is offered. -/
theorem complete (h : Offers answer log items calls) (accepted : ∀ call ∈ calls, call.2 = true) :
    calls.map Prod.fst = items := by
  induction h with
  | done => rfl
  | accepted ok rest ih =>
      rw [List.map_cons, ih fun call hcall => accepted call (List.mem_cons_of_mem _ hcall)]
  | refused => simp at accepted

end Offers

/-- The count after a number of increments. -/
def counted : Nat → Except Fault CInt → Except Fault CInt
  | 0, count => count
  | n + 1, count => counted n (count >>= fun c => c.add (.lit 1))

theorem counted_nat {n k : Nat} {c : CInt} (hc : c.val = k) (h : k + n < 2 ^ 31) :
    ∃ d, counted n (.ok c) = .ok d ∧ d.val = (k + n : Nat) := by
  induction n generalizing k c with
  | zero => exact ⟨c, rfl, hc⟩
  | succ n ih =>
      obtain ⟨d, hd, dVal⟩ := CInt.add_nat hc CInt.lit_one_val (by unfold intMax; omega)
      obtain ⟨e, he, eVal⟩ := ih dVal (by omega)
      refine ⟨e, ?_, by rw [eVal]; omega⟩
      rw [counted, ← he]
      exact congrArg (counted n) hd

section Loop

variable {Op : Type} {Ans : Op → Type} {push : VehicleData → Program Op Ans Bool}
variable {stack : Nat → VehicleData} {entity : FeedEntity} {rest : List FeedEntity} {i : Nat}
variable {count : Except Fault CInt}

/-- An entity without a record is passed over. -/
theorem parseLoop_skip (h : flatten entity = none) :
    parseLoop push stack (entity :: rest) i count = parseLoop push stack rest (i + 1) count := by
  rw [parseLoop]
  cases hv : entity.vehicle with
  | none => rfl
  | some vehicle =>
      cases hp : vehicle.position with
      | none => simp only [hp]
      | some position => simp [flatten, hv, hp] at h

/-- The record of an entity is offered, and a refusal ends the loop. -/
theorem parseLoop_offer {item : VehicleData} (h : flatten entity = some item) :
    parseLoop push stack (entity :: rest) i count =
      push item >>= fun ok =>
        if ok then parseLoop push stack rest (i + 1) (count >>= fun n => n.add (.lit 1))
        else .ret count := by
  rw [parseLoop]
  cases hv : entity.vehicle with
  | none => simp [flatten, hv] at h
  | some vehicle =>
      cases hp : vehicle.position with
      | none => simp [flatten, hv, hp] at h
      | some position =>
          obtain rfl : recordOf entity vehicle position = item := by simpa [flatten, hv, hp] using h
          simp only [hp, fillItem_eq, pure_eq]

end Loop

variable {stack : Nat → VehicleData} {answer : List (VehicleData × Bool) → VehicleData → Bool}

/-- The loop offers the records of its entities and counts the accepted ones. -/
theorem exec_parseLoop (entities : List FeedEntity) (i : Nat) (count : Except Fault CInt)
    (log : List (VehicleData × Bool)) :
    ∃ calls, Offers answer log (entities.filterMap flatten) calls ∧
      (parseLoop perform stack entities i count).exec (logged answer) log =
        .ok (counted (calls.countP Prod.snd) count, log ++ calls) := by
  induction entities generalizing i count log with
  | nil => exact ⟨[], .done, by simp [parseLoop, counted]⟩
  | cons entity rest ih =>
      cases hf : flatten entity with
      | none =>
          rw [List.filterMap_cons_none hf, parseLoop_skip hf]
          exact ih (i + 1) count log
      | some item =>
          rw [List.filterMap_cons_some hf, parseLoop_offer hf, perform_bind]
          cases ok : answer log item with
          | true =>
              obtain ⟨calls, offers, run⟩ := ih (i + 1) (count >>= fun c => c.add (.lit 1))
                (log ++ [(item, true)])
              refine ⟨_ :: calls, .accepted ok offers, ?_⟩
              rw [exec_call _ (by rw [logged, ok]), if_pos rfl, run]
              simp [counted]
          | false =>
              refine ⟨_, .refused ok, ?_⟩
              rw [exec_call _ (by rw [logged, ok])]
              simp [counted]

section Pushes

variable {S E : Type} {Op₁ Op₂ : Type} {Ans₁ : Op₁ → Type} {Ans₂ : Op₂ → Type}
variable {push₁ : VehicleData → Program Op₁ Ans₁ Bool} {push₂ : VehicleData → Program Op₂ Ans₂ Bool}
variable {handle₁ : (op : Op₁) → S → Except E (Ans₁ op × S)}
variable {handle₂ : (op : Op₂) → S → Except E (Ans₂ op × S)}

/-- Only the answers to its pushes matter to the loop. -/
theorem exec_parseLoop_congr (agree : ∀ item s, ∃ ok s',
      (push₁ item).exec handle₁ s = .ok (ok, s') ∧ (push₂ item).exec handle₂ s = .ok (ok, s'))
    (entities : List FeedEntity) (i : Nat) (count : Except Fault CInt) (s : S) :
    ∃ count' s', (parseLoop push₁ stack entities i count).exec handle₁ s = .ok (count', s') ∧
      (parseLoop push₂ stack entities i count).exec handle₂ s = .ok (count', s') := by
  induction entities generalizing i count s with
  | nil => exact ⟨count, s, rfl, rfl⟩
  | cons entity rest ih =>
      cases hf : flatten entity with
      | none =>
          rw [parseLoop_skip hf, parseLoop_skip hf]
          exact ih (i + 1) count s
      | some item =>
          obtain ⟨ok, s', first, second⟩ := agree item s
          rw [parseLoop_offer hf, parseLoop_offer hf, exec_bind _ first, exec_bind _ second]
          cases ok with
          | true => exact ih (i + 1) (count >>= fun n => n.add (.lit 1)) s'
          | false => exact ⟨count, s', rfl, rfl⟩

theorem exec_parseAndQueue_congr (agree : ∀ item s, ∃ ok s',
      (push₁ item).exec handle₁ s = .ok (ok, s') ∧ (push₂ item).exec handle₂ s = .ok (ok, s'))
    (unpack : Bytes → Option FeedMessage) (buffer : Bytes) (s : S) :
    ∃ report s', (parseAndQueue push₁ stack unpack buffer).exec handle₁ s = .ok (report, s') ∧
      (parseAndQueue push₂ stack unpack buffer).exec handle₂ s = .ok (report, s') := by
  unfold parseAndQueue
  cases unpack buffer with
  | none => exact ⟨.unpackFailed, s, rfl, rfl⟩
  | some msg =>
      obtain ⟨count, s', first, second⟩ :=
        exec_parseLoop_congr agree msg.entity 0 (.ok (.lit 0)) s
      exact ⟨.pushed count, s', exec_bind _ first, exec_bind _ second⟩

end Pushes

/-- A payload that does not unpack is reported as such and nothing is pushed. -/
theorem exec_parseAndQueue_failed {unpack : Bytes → Option FeedMessage} {buffer : Bytes}
    (h : unpack buffer = none) (log : List (VehicleData × Bool)) :
    (parseAndQueue perform stack unpack buffer).exec (logged answer) log =
      .ok (.unpackFailed, log) := by
  simp [parseAndQueue, h]

theorem exec_parseAndQueue {unpack : Bytes → Option FeedMessage} {buffer : Bytes}
    {msg : FeedMessage} (h : unpack buffer = some msg) (log : List (VehicleData × Bool)) :
    ∃ calls, Offers answer log (records msg) calls ∧
      (parseAndQueue perform stack unpack buffer).exec (logged answer) log =
        .ok (.pushed (counted (calls.countP Prod.snd) (.ok (.lit 0))), log ++ calls) := by
  obtain ⟨calls, offers, run⟩ := exec_parseLoop msg.entity 0 (.ok (.lit 0)) log
  refine ⟨calls, offers, ?_⟩
  rw [parseAndQueue, h]
  exact exec_bind _ run

/-- An array holds the longest prefix of a string that leaves room for a 0, and
zeros after it. -/
def HoldsText {m : Nat} (a : CharArray (m + 1)) (src : Bytes) : Prop :=
  List.ofFn a = (cText src).take m ++ List.replicate (m + 1 - ((cText src).take m).length) 0

/-- The record has the feed's value of each field, and the default of the field
where the feed has none. -/
structure IsFlat (entity : FeedEntity) (vehicle : VehiclePosition) (position : Position)
    (item : VehicleData) : Prop where
  fleetNumber : HoldsText item.fleetNumber (fleetText entity vehicle)
  internalId : HoldsText item.internalId (internalIdText vehicle)
  routeId : HoldsText item.routeId (routeText vehicle)
  stopId : HoldsText item.stopId (stopText vehicle)
  lat : item.lat = position.latitude
  lon : item.lon = position.longitude
  speed : item.speed = if position.hasSpeed then position.speed else .zero
  bearing : item.bearing = if position.hasBearing then position.bearing else .zero
  timestamp : item.timestamp = if vehicle.hasTimestamp then vehicle.timestamp else 0
  occupancyStatus : item.occupancyStatus =
    if vehicle.hasOccupancyStatus then vehicle.occupancyStatus else .lit 7
  occupancyPercentage : item.occupancyPercentage =
    if vehicle.hasOccupancyPercentage then .ofUInt32 vehicle.occupancyPercentage else .lit (-1)
  currentStatus : item.currentStatus =
    if vehicle.hasCurrentStatus then vehicle.currentStatus else .lit 2
  congestionLevel : item.congestionLevel =
    if vehicle.hasCongestionLevel then vehicle.congestionLevel else .lit 0

theorem recordOf_isFlat (entity : FeedEntity) (vehicle : VehiclePosition) (position : Position) :
    IsFlat entity vehicle position (recordOf entity vehicle position) where
  fleetNumber := CharArray.ofFn_bounded _
  internalId := CharArray.ofFn_bounded _
  routeId := CharArray.ofFn_bounded _
  stopId := CharArray.ofFn_bounded _
  lat := rfl
  lon := rfl
  speed := rfl
  bearing := rfl
  timestamp := rfl
  occupancyStatus := rfl
  occupancyPercentage := rfl
  currentStatus := rfl
  congestionLevel := rfl

/-- Whatever the stack holds and whatever the ring answers: a payload that does
not unpack pushes nothing. Otherwise the records of the entities with a vehicle
and a position are pushed in the order of the message, up to the first that is
refused, and the report counts the accepted ones while they fit an `int`. The
record of an entity has its values and the defaults of what it lacks. -/
theorem parse_and_queue_flattens (unpack : Bytes → Option FeedMessage) (buffer : Bytes)
    (stack : Nat → VehicleData) (answer : List (VehicleData × Bool) → VehicleData → Bool) :
    (unpack buffer = none →
      (parseAndQueue perform stack unpack buffer).exec (logged answer) [] =
        .ok (.unpackFailed, [])) ∧
    (∀ msg, unpack buffer = some msg → ∃ calls count,
      (parseAndQueue perform stack unpack buffer).exec (logged answer) [] =
        .ok (.pushed count, calls) ∧
      (∀ before item ok after, calls = before ++ (item, ok) :: after →
        ok = answer before item ∧ (ok = false → after = [])) ∧
      calls.map Prod.fst <+: msg.entity.filterMap flatten ∧
      ((∀ call ∈ calls, call.2 = true) →
        calls.map Prod.fst = msg.entity.filterMap flatten) ∧
      (calls.countP Prod.snd < 2 ^ 31 →
        ∃ c, count = .ok c ∧ c.val = calls.countP Prod.snd)) ∧
    ∀ entity,
      ((flatten entity).isSome ↔ ∃ vehicle position,
        entity.vehicle = some vehicle ∧ vehicle.position = some position) ∧
      ∀ vehicle position, entity.vehicle = some vehicle → vehicle.position = some position →
        ∃ item, flatten entity = some item ∧ IsFlat entity vehicle position item := by
  refine ⟨fun failed => exec_parseAndQueue_failed failed [], ?_, ?_⟩
  · intro msg unpacked
    obtain ⟨calls, offers, run⟩ := exec_parseAndQueue unpacked []
    refine ⟨calls, _, run, ?_, offers.isPrefix, offers.complete, ?_⟩
    · intro before item ok after split
      refine ⟨offers.answered split, ?_⟩
      rintro rfl
      exact offers.last_of_refused split
    · intro fits
      obtain ⟨c, hc, cVal⟩ := counted_nat (c := .lit 0) (k := 0) rfl (by simpa using fits)
      exact ⟨c, hc, by simpa using cVal⟩
  · intro entity
    constructor
    · cases hv : entity.vehicle with
      | none => simp [flatten, hv]
      | some vehicle => cases hp : vehicle.position <;> simp [flatten, hv, hp]
    · intro vehicle position hv hp
      exact ⟨recordOf entity vehicle position, by simp [flatten, hv, hp],
        recordOf_isFlat entity vehicle position⟩

/-- A bus with a label and an entity without a position, pushed to a ring that
accepts everything. -/
theorem parse_and_queue_flattens_bus :
    let position : Position := ⟨.zero, .zero, false, .zero, false, .zero⟩
    let vehicle : VehiclePosition :=
      ⟨none, some ⟨some [55], some [49, 50]⟩, some position, none, false, .lit 0, true, 1700000000,
        false, .lit 0, false, .lit 0, false, 0⟩
    let msg : FeedMessage := ⟨[⟨some [101], some vehicle⟩, ⟨some [102], none⟩]⟩
    let item := recordOf ⟨some [101], some vehicle⟩ vehicle position
    ∃ calls count,
      (parseAndQueue perform (fun _ => item) (fun _ => some msg) [1]).exec
        (logged fun _ _ => true) [] = .ok (.pushed count, calls) ∧
      calls.map Prod.fst = [item] := by
  intro position vehicle msg item
  obtain ⟨calls, count, run, answers, -, complete, -⟩ :=
    (parse_and_queue_flattens (fun _ => some msg) [1] (fun _ => item) fun _ _ => true).2.1 msg rfl
  refine ⟨calls, count, run, complete fun call hcall => ?_⟩
  obtain ⟨before, after, split⟩ := List.append_of_mem hcall
  exact (answers before call.1 call.2 after split).1

end TelemetrixDb.Ingestion
