import TelemetrixDb.Engine.Consumer
import TelemetrixDb.Ingestion.Flatten

/-!
# The marks of missing data

The flat record has no presence flags. A missing percentage is -1 and a missing
id is the text `UNKNOWN`, in the fields that also carry the values of the feed.
So a mark is read exactly when the field was absent or its value is written like
the mark, and the consumer skips a record exactly when its id reads so.

-/

namespace TelemetrixDb.Engine
open CMachine Monitor Ingestion Program

/-- The value of a `uint32_t` read as an `int`. -/
theorem ofUInt32_val (x : UInt32) : (CInt.ofUInt32 x).val =
    if x.toNat < 2 ^ 31 then (x.toNat : Int) else x.toNat - 2 ^ 32 := by
  have bits : (CInt.ofUInt32 x).val = x.toBitVec.toInt := rfl
  rw [bits, BitVec.toInt_eq_toNat_cond]
  have toNat : x.toBitVec.toNat = x.toNat := rfl
  rw [toNat]
  split <;> split <;> omega

/-- A copy reads as a text that leaves room exactly when its source does. -/
theorem text_bounded_eq_iff {m : Nat} {src l : Bytes} (room : l.length < m) :
    (CharArray.bounded m src).text = l ↔ cText src = l := by
  rw [CharArray.text_bounded]
  constructor
  · intro h
    have length := congrArg List.length h
    rw [List.length_take] at length
    rwa [List.take_of_length_le (by omega)] at h
  · rintro rfl
    exact List.take_of_length_le room.le

/-- The field is absent, or the string at it is the mark of an absent one. -/
def ReadsUnknown (field : Option Bytes) : Prop := cText (field.getD unknown) = unknown

instance (field : Option Bytes) : Decidable (ReadsUnknown field) :=
  inferInstanceAs (Decidable (_ = _))

theorem readsUnknown_iff {field : Option Bytes} :
    ReadsUnknown field ↔ field = none ∨ ∃ text, field = some text ∧ cText text = unknown := by
  cases field with
  | none => simpa [ReadsUnknown] using (by decide : cText unknown = unknown)
  | some text => simp [ReadsUnknown]

theorem reads_bounded {m : Nat} (room : 7 < m) (field : Option Bytes) :
    (CharArray.bounded m (field.getD unknown)).text = unknown ↔
      field = none ∨ ∃ text, field = some text ∧ cText text = unknown := by
  rw [text_bounded_eq_iff room, ← readsUnknown_iff, ReadsUnknown]

/-- How the marks in a record relate to its vehicle. -/
structure Marks (vehicle : VehiclePosition) (item : VehicleData) : Prop where
  percentage : item.occupancyPercentage.val = -1 ↔
    vehicle.hasOccupancyPercentage = false ∨ vehicle.occupancyPercentage = 0xFFFFFFFF
  percentage_small : vehicle.hasOccupancyPercentage = true →
    vehicle.occupancyPercentage.toNat < 2 ^ 31 →
    item.occupancyPercentage.val = vehicle.occupancyPercentage.toNat
  percentage_large : vehicle.hasOccupancyPercentage = true →
    2 ^ 31 ≤ vehicle.occupancyPercentage.toNat →
    item.occupancyPercentage.val = vehicle.occupancyPercentage.toNat - 2 ^ 32
  internalId : item.internalId.text = unknown ↔
    vehicle.vehicle.bind (·.id) = none ∨
      ∃ text, vehicle.vehicle.bind (·.id) = some text ∧ cText text = unknown
  routeId : item.routeId.text = unknown ↔
    vehicle.trip.bind (·.routeId) = none ∨
      ∃ text, vehicle.trip.bind (·.routeId) = some text ∧ cText text = unknown
  stopId : item.stopId.text = unknown ↔
    vehicle.stopId = none ∨ ∃ text, vehicle.stopId = some text ∧ cText text = unknown

theorem recordOf_marks (entity : FeedEntity) (vehicle : VehiclePosition) (position : Position) :
    Marks vehicle (recordOf entity vehicle position) where
  percentage := by
    have value := ofUInt32_val vehicle.occupancyPercentage
    have bound := vehicle.occupancyPercentage.toNat_lt
    cases present : vehicle.hasOccupancyPercentage with
    | false => simp [recordOf, present]
    | true =>
        simp only [recordOf, present, if_true, value, Bool.true_eq_false, false_or,
          ← UInt32.toNat_inj]
        have largest : (0xFFFFFFFF : UInt32).toNat = 2 ^ 32 - 1 := rfl
        rw [largest]
        split <;> omega
  percentage_small := by
    intro present small
    simp only [recordOf, present, if_true, ofUInt32_val, if_pos small]
  percentage_large := by
    intro present large
    simp only [recordOf, present, if_true, ofUInt32_val, if_neg (Nat.not_lt.mpr large)]
  internalId := reads_bounded (by decide) _
  routeId := reads_bounded (by decide) _
  stopId := reads_bounded (by decide) _

/-- Every record that the parser pushes is that of an entity of the message. -/
theorem pushed_recordOf {msg : FeedMessage} {calls : List (VehicleData × Bool)}
    (offered : calls.map Prod.fst <+: records msg) {item : VehicleData} {ok : Bool}
    (pushed : (item, ok) ∈ calls) :
    ∃ entity ∈ msg.entity, ∃ vehicle position, entity.vehicle = some vehicle ∧
      vehicle.position = some position ∧ item = recordOf entity vehicle position := by
  have mem : item ∈ records msg := offered.subset (List.mem_map_of_mem pushed)
  obtain ⟨entity, inMessage, flat⟩ := List.mem_filterMap.mp mem
  obtain ⟨vehicle, hv, flat⟩ := Option.bind_eq_some_iff.mp flat
  obtain ⟨position, hp, rfl⟩ := Option.map_eq_some_iff.mp flat
  exact ⟨entity, inMessage, vehicle, position, hv, hp, rfl⟩

/-- Every record that the parser pushes is that of an entity with a vehicle and a
position. Its percentage is -1 exactly when the feed has none or has 2^32 - 1,
and is the feed's otherwise below 2^31 and less by 2^32 from there on. Its ids
read `UNKNOWN` exactly when the feed has none or one whose C string, up to its first
0 byte, is this text. A turn of the consumer that pops it ends there exactly when its
vehicle has no id or one whose C string is this text, and updates the arena otherwise. -/
theorem marks_of_pushed (unpack : Bytes → Option FeedMessage) (buffer : Bytes)
    (stack : Nat → VehicleData) (answer : List (VehicleData × Bool) → VehicleData → Bool)
    {msg : FeedMessage} (unpacked : unpack buffer = some msg) :
    ∃ calls count,
      (parseAndQueue perform stack unpack buffer).exec (logged answer) [] =
        .ok (.pushed count, calls) ∧
      ∀ item ok, (item, ok) ∈ calls →
        ∃ entity ∈ msg.entity, ∃ vehicle position, entity.vehicle = some vehicle ∧
          vehicle.position = some position ∧ Marks vehicle item ∧
          ∀ poppedBus totalProcessed, ∃ afterPop : Bool × VehicleData → EngineCode Turn,
            consumerTurn poppedBus totalProcessed = .call (.shared (.pop poppedBus)) afterPop ∧
            (vehicle.vehicle.bind (·.id) = none ∨
                (∃ text, vehicle.vehicle.bind (·.id) = some text ∧ cText text = unknown) →
              afterPop (true, item) = .ret (.consumer item totalProcessed)) ∧
            (¬ (vehicle.vehicle.bind (·.id) = none ∨
                ∃ text, vehicle.vehicle.bind (·.id) = some text ∧ cText text = unknown) →
              ∃ next, afterPop (true, item) = .call (.own (.update (updateCall item))) next) := by
  have parsed : ∃ calls, Offers answer [] (records msg) calls ∧
      (parseAndQueue perform stack unpack buffer).exec (logged answer) [] = _ :=
    exec_parseAndQueue unpacked []
  obtain ⟨calls, offers, run⟩ := parsed
  refine ⟨calls, _, run, fun item ok pushed => ?_⟩
  obtain ⟨entity, inMessage, vehicle, position, hv, hp, rfl⟩ :=
    pushed_recordOf offers.isPrefix pushed
  have marks := recordOf_marks entity vehicle position
  refine ⟨entity, inMessage, vehicle, position, hv, hp, marks, fun poppedBus totalProcessed => ?_⟩
  refine ⟨poppedCode totalProcessed, consumerTurn_eq poppedBus totalProcessed, ?_, ?_⟩
  · intro missing
    exact poppedCode_unknown totalProcessed fun known => known (marks.internalId.mpr missing)
  · intro present
    exact ⟨_, poppedCode_known totalProcessed fun reads => present (marks.internalId.mp reads)⟩

/-- A vehicle with this id and this percentage, at the origin. -/
def markedVehicle (id : Option Bytes) (percentage : Option UInt32) : VehiclePosition where
  trip := none
  vehicle := some ⟨id, none⟩
  position := some ⟨.zero, .zero, false, .zero, false, .zero⟩
  stopId := none
  hasCurrentStatus := false
  currentStatus := .lit 0
  hasTimestamp := false
  timestamp := 0
  hasCongestionLevel := false
  congestionLevel := .lit 0
  hasOccupancyStatus := false
  occupancyStatus := .lit 0
  hasOccupancyPercentage := percentage.isSome
  occupancyPercentage := percentage.getD 0

/-- A vehicle without id and percentage is pushed with both marks. -/
theorem marks_of_pushed_bare :
    let msg : FeedMessage := ⟨[⟨some [49], some (markedVehicle none none)⟩]⟩
    ∃ calls count,
      (parseAndQueue perform (fun _ => zeroBus) (fun _ => some msg) [0]).exec
        (logged fun _ _ => true) [] = .ok (.pushed count, calls) ∧
      ∀ item ok, (item, ok) ∈ calls →
        item.occupancyPercentage.val = -1 ∧ item.internalId.text = unknown := by
  intro msg
  have unpacked : (fun _ : Bytes => some msg) [0] = some msg := rfl
  obtain ⟨calls, count, run, pushed⟩ := marks_of_pushed (fun _ => some msg) [0] (fun _ => zeroBus)
    (fun _ _ => true) unpacked
  refine ⟨calls, count, run, fun item ok hcall => ?_⟩
  obtain ⟨entity, inMessage, vehicle, position, hv, -, marks, -⟩ := pushed item ok hcall
  obtain rfl := List.mem_singleton.mp inMessage
  obtain rfl := Option.some.inj hv
  exact ⟨marks.percentage.mpr (Or.inl rfl), marks.internalId.mpr (Or.inl rfl)⟩

/-- The largest percentage reads as a missing one, and a vehicle whose id is the
text `UNKNOWN` as one without an id, which the consumer skips. -/
theorem marks_collide :
    (¬ ∀ entity vehicle position item, entity.vehicle = some vehicle →
      vehicle.position = some position → flatten entity = some item →
      (item.occupancyPercentage.val = -1 ↔ vehicle.hasOccupancyPercentage = false)) ∧
    (¬ ∀ entity vehicle position item, entity.vehicle = some vehicle →
      vehicle.position = some position → flatten entity = some item →
      (item.internalId.text = unknown ↔ vehicle.vehicle.bind (·.id) = none)) ∧
    ¬ ∀ entity vehicle position item, entity.vehicle = some vehicle →
      vehicle.position = some position → flatten entity = some item →
      ((∃ turn, poppedCode 0 (true, item) = .ret turn) ↔ vehicle.vehicle.bind (·.id) = none) := by
  let full := markedVehicle (some [49]) (some 0xFFFFFFFF)
  let named := markedVehicle (some unknown) none
  let origin : Position := ⟨.zero, .zero, false, .zero, false, .zero⟩
  have fullMarks := recordOf_marks ⟨some [49], some full⟩ full origin
  have namedMarks := recordOf_marks ⟨some [49], some named⟩ named origin
  have reads : (recordOf ⟨some [49], some named⟩ named origin).internalId.text = unknown :=
    namedMarks.internalId.mpr (Or.inr ⟨unknown, rfl, by decide⟩)
  refine ⟨fun always => ?_, fun always => ?_, fun always => ?_⟩
  · have absent := (always ⟨some [49], some full⟩ full origin _ rfl rfl rfl).mp
      (fullMarks.percentage.mpr (Or.inr rfl))
    cases absent
  · have absent := (always ⟨some [49], some named⟩ named origin _ rfl rfl rfl).mp reads
    cases absent
  · have skipped : poppedCode 0 (true, recordOf ⟨some [49], some named⟩ named origin) = _ :=
      poppedCode_unknown 0 fun known => known reads
    have absent := (always ⟨some [49], some named⟩ named origin _ rfl rfl rfl).mp ⟨_, skipped⟩
    cases absent

end TelemetrixDb.Engine
