import TelemetrixDb.Engine.Threads

/-!
# The consumer loop applies what it pops

A popped record is skipped for its id, or it is in the consumer's hand until
`arena.update` is called with its fields. Lookups and display follow and touch
neither the ring nor the arena.

-/

namespace TelemetrixDb.Engine
open CMachine Monitor Ingestion Storage Program

/-- The record, if any, that a call takes from the ring. -/
def poppedIn : EngineCall → List VehicleData
  | ⟨.shared (.pop _), reply⟩ => if reply.1 then [reply.2] else []
  | _ => []

/-- The arguments of the call of `arena.update`, if it is one. -/
def updatedIn : EngineCall → List UpdateCall
  | ⟨.own (.update c), _⟩ => [c]
  | _ => []

/-- The record does not carry the text that marks a missing vehicle id. -/
def Known (bus : VehicleData) : Prop := bus.internalId.text ≠ unknown

instance : DecidablePred Known := fun _ => inferInstanceAs (Decidable (_ ≠ _))

/-- The filter of the loop of `main`. -/
theorem strncmp_unknown (bus : VehicleData) :
    strncmp (List.ofFn bus.internalId) unknown 16 = 0 ↔ ¬ Known bus := by
  have whole : (cText (List.ofFn bus.internalId)).take 16 = bus.internalId.text := by
    apply List.take_of_length_le
    calc
      (cText (List.ofFn bus.internalId)).length ≤ (List.ofFn bus.internalId).length :=
        (List.takeWhile_prefix _).length_le
      _ = 16 := List.length_ofFn
  have literal : (cText unknown).take 16 = unknown := by decide
  rw [strncmp_eq_zero_iff, whole, literal, Known, not_not]

/-- The calls that show a bus. -/
def Shows : ClientOp RingOp OwnOp → Prop
  | .own (.count _ _) | .own (.index _ _) | .own (.display _) => True
  | _ => False

/-- The turns of the consumer loop. -/
def Turn.IsConsumer : Turn → Prop
  | .consumer _ _ => True
  | _ => False

/-- The part of a turn after a pop. -/
def poppedCode (totalProcessed : UInt64) (reply : Bool × VehicleData) : EngineCode Turn :=
  if reply.1 = false then .ret (.consumer reply.2 totalProcessed)
  else if strncmp (List.ofFn reply.2.internalId) unknown 16 = 0 then
    .ret (.consumer reply.2 totalProcessed)
  else .call (.own (.update (updateCall reply.2))) fun applied =>
    showBus reply.2 >>= fun _ =>
      .ret (.consumer reply.2 (if applied then totalProcessed + 1 else totalProcessed))

theorem consumerTurn_eq (poppedBus : VehicleData) (totalProcessed : UInt64) :
    consumerTurn poppedBus totalProcessed =
      .call (.shared (.pop poppedBus)) (poppedCode totalProcessed) := by
  simp only [consumerTurn, ring, own, perform_bind, pure_eq]
  rfl

theorem callsOnly_displayName (table : Table) (id : Bytes) :
    CallsOnly Shows (fun _ => True) (displayName table id) := by
  refine ⟨trivial, fun found => ?_⟩
  cases found with
  | true => exact ⟨trivial, fun _ => trivial⟩
  | false => trivial

/-- Showing a bus makes no other call. -/
theorem callsOnly_showBus (bus : VehicleData) :
    CallsOnly Shows (fun _ => True) (showBus bus) := by
  unfold showBus
  split
  · refine (callsOnly_displayName _ _).bind fun route _ => ?_
    refine (callsOnly_displayName _ _).bind fun stop _ => ?_
    exact ⟨trivial, fun _ => trivial⟩
  · trivial

/-- Where the consumer stands, with the record in its hand. -/
inductive ConsumerAt : EngineCode Turn → List VehicleData → Prop
  | top (poppedBus : VehicleData) (totalProcessed : UInt64) :
      ConsumerAt (consumerTurn poppedBus totalProcessed) []
  | updating {bus next} (known : Known bus)
      (rest : ∀ applied, CallsOnly Shows Turn.IsConsumer (next applied)) :
      ConsumerAt (.call (.own (.update (updateCall bus))) next) [bus]
  | showing {code} (rest : CallsOnly Shows Turn.IsConsumer code) : ConsumerAt code []

/-- The popped records are those dealt with and the one in hand, and the updates
are those of the known ones among the first. -/
structure Consuming (calls : List EngineCall) (code : EngineCode Turn)
    (processed hand : List VehicleData) : Prop where
  at_ : ConsumerAt code hand
  popped : calls.flatMap poppedIn = processed ++ hand
  updated : calls.flatMap updatedIn = (processed.filter Known).map updateCall

theorem consumerAt_length {code : EngineCode Turn} {hand : List VehicleData}
    (h : ConsumerAt code hand) : hand.length ≤ 1 := by
  cases h with
  | top => simp
  | updating => simp
  | showing => simp

theorem poppedCode_known (totalProcessed : UInt64) {bus : VehicleData} (known : Known bus) :
    poppedCode totalProcessed (true, bus) =
      .call (.own (.update (updateCall bus))) fun applied => showBus bus >>= fun _ =>
        .ret (.consumer bus (if applied then totalProcessed + 1 else totalProcessed)) := by
  rw [poppedCode, if_neg (by simp), if_neg fun h => (strncmp_unknown bus).mp h known]

theorem poppedCode_unknown (totalProcessed : UInt64) {bus : VehicleData} (skipped : ¬ Known bus) :
    poppedCode totalProcessed (true, bus) = .ret (.consumer bus totalProcessed) := by
  rw [poppedCode, if_neg (by simp), if_pos ((strncmp_unknown bus).mpr skipped)]

/-- After a pop the record is in hand or skipped. -/
theorem consumerAt_popped (totalProcessed : UInt64) (bus : VehicleData) :
    (Known bus ∧ ConsumerAt (poppedCode totalProcessed (true, bus)) [bus]) ∨
      (¬ Known bus ∧ ConsumerAt (poppedCode totalProcessed (true, bus)) []) := by
  by_cases known : Known bus
  · refine Or.inl ⟨known, ?_⟩
    rw [poppedCode_known totalProcessed known]
    exact .updating known fun applied => (callsOnly_showBus bus).bind fun _ _ => trivial
  · refine Or.inr ⟨known, ?_⟩
    rw [poppedCode_unknown totalProcessed known]
    exact .showing trivial

/-- Showing a bus neither pops nor updates. -/
theorem silent_of_shows {c : EngineCall} (h : Shows c.1) : poppedIn c = [] ∧ updatedIn c = [] := by
  obtain ⟨op, x⟩ := c
  cases op with
  | shared call => exact h.elim
  | own l => cases l <;> first | exact ⟨rfl, rfl⟩ | exact h.elim

theorem consuming_rule {unpack : Bytes → Option FeedMessage} {stack : Nat → Nat → VehicleData}
    (h3 : H3) : ThreadRule Ring.body (Own h3) (resume unpack stack)
      fun calls code _ => ∃ processed hand, Consuming calls code processed hand where
  rely := fun h _ => h
  shared := by
    rintro calls op next rb rb' reply notice ⟨processed, hand, at_, popped, updated⟩ -
    generalize hcode : (Program.call (.shared op) next : EngineCode Turn) = code at at_
    cases at_ with
    | top poppedBus totalProcessed =>
        rw [consumerTurn_eq] at hcode
        cases hcode
        obtain ⟨gotData, bus⟩ := reply
        cases gotData with
        | false =>
            refine ⟨processed, [], ?_, ?_, ?_⟩
            · exact .showing trivial
            · simpa [poppedIn] using popped
            · simpa [updatedIn] using updated
        | true =>
            rcases consumerAt_popped totalProcessed bus with ⟨known, at_⟩ | ⟨skipped, at_⟩
            · refine ⟨processed, [bus], at_, ?_, ?_⟩
              · simpa [poppedIn] using popped
              · simpa [updatedIn] using updated
            · refine ⟨processed ++ [bus], [], at_, ?_, ?_⟩
              · simpa [poppedIn] using popped
              · simpa [updatedIn, skipped] using updated
    | updating => cases hcode
    | showing rest =>
        subst hcode
        exact rest.1.elim
  own := by
    rintro calls l next rb w y w' ⟨processed, hand, at_, popped, updated⟩ -
    generalize hcode : (Program.call (.own l) next : EngineCode Turn) = code at at_
    cases at_ with
    | top poppedBus totalProcessed =>
        rw [consumerTurn_eq] at hcode
        cases hcode
    | @updating bus next' known rest =>
        cases hcode
        refine ⟨processed ++ [bus], [], .showing (rest y), ?_, ?_⟩
        · simpa [poppedIn] using popped
        · simpa [updatedIn, known] using updated
    | showing rest =>
        subst hcode
        obtain ⟨pops, updates⟩ := silent_of_shows (c := ⟨.own l, y⟩) rest.1
        refine ⟨processed, [], .showing (rest.2 y), ?_, ?_⟩
        · simpa [pops] using popped
        · simpa [updates] using updated
  again := by
    rintro calls a p rb ⟨processed, hand, at_, popped, updated⟩ more
    generalize hcode : (Program.ret a : EngineCode Turn) = code at at_
    cases at_ with
    | top poppedBus totalProcessed =>
        rw [consumerTurn_eq] at hcode
        cases hcode
    | updating => cases hcode
    | showing rest =>
        subst hcode
        cases a with
        | consumer poppedBus totalProcessed =>
            cases more
            exact ⟨processed, [], .top poppedBus totalProcessed, popped, updated⟩
        | ingestion => exact rest.elim
        | ingestionDone => exact rest.elim
        | signaller => exact rest.elim

end TelemetrixDb.Engine
