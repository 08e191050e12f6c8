import TelemetrixDb.Engine.Pipeline
import TelemetrixDb.Foundation.ClientProgress

/-!
# The consumer gets to the end of its turn

After its pop the consumer makes own calls only, and each of them is answered
wherever the run has come from. So nothing keeps a turn from ending but a pop
that waits.

-/

namespace TelemetrixDb.Engine
open CMachine Monitor Ingestion Storage Transition

/-- The consumer's own calls. -/
def ConsumerOwn : OwnOp → Prop
  | .update _ | .count _ _ | .index _ _ | .display _ => True
  | _ => False

theorem ownOnly_of_shows {op : ClientOp RingOp OwnOp} (h : Shows op) : OwnOnly ConsumerOwn op := by
  cases op with
  | shared call => exact h
  | own l => cases l <;> first | exact trivial | exact h.elim

theorem ownOnly_showBus (bus : VehicleData) :
    CallsOnly (OwnOnly ConsumerOwn) (fun _ => True) (showBus bus) :=
  (callsOnly_showBus bus).mono fun _ => ownOnly_of_shows

theorem ownOnly_poppedCode (totalProcessed : UInt64) (reply : Bool × VehicleData) :
    CallsOnly (OwnOnly ConsumerOwn) Turn.IsConsumer (poppedCode totalProcessed reply) := by
  unfold poppedCode
  split
  · trivial
  · split
    · trivial
    · exact ⟨trivial, fun applied => (ownOnly_showBus reply.2).bind fun _ _ => trivial⟩

namespace ConsumerAt

variable {code : EngineCode Turn} {hand : List VehicleData}

/-- The consumer is about to pop or past its pop. -/
theorem top_or_ownOnly (h : ConsumerAt code hand) :
    (∃ poppedBus totalProcessed, code = consumerTurn poppedBus totalProcessed) ∨
      CallsOnly (OwnOnly ConsumerOwn) Turn.IsConsumer code := by
  cases h with
  | top poppedBus totalProcessed => exact Or.inl ⟨poppedBus, totalProcessed, rfl⟩
  | updating known rest =>
      exact Or.inr ⟨trivial, fun applied => (rest applied).mono fun _ => ownOnly_of_shows⟩
  | showing rest => exact Or.inr (rest.mono fun _ => ownOnly_of_shows)

/-- Between two turns nothing is in hand. -/
theorem between {turn : Turn} (h : ConsumerAt (.ret turn) hand) : hand = [] := by
  generalize hcode : (Program.ret turn : EngineCode Turn) = code at h
  cases h with
  | top => rfl
  | updating => cases hcode
  | showing => rfl

end ConsumerAt

variable {T : Type} [DecidableEq T] {h3 : H3} {unpack : Bytes → Option FeedMessage}
variable {stack : Nat → Nat → VehicleData} {rb : Ring.RingBuffer VehicleData} {tables : Tables}
variable {es : List (EngineEvent T)} {s : EngineState T}

/-- Each own call of the consumer is answered. -/
theorem consumer_answered (run : Run (EngineStep h3 unpack stack) (start rb tables) es s)
    {l : OwnOp} (mine : ConsumerOwn l) : ∃ x w, Own h3 l s.world x w := by
  cases l with
  | update c =>
      obtain ⟨w, answered⟩ := update_finishes run c
      exact ⟨_, w, answered⟩
  | count table key => exact ⟨_, s.world, rfl, rfl⟩
  | index table key =>
      let name := (s.world.tables table key).getD []
      let entered := Function.update (s.world.tables table) key (some name)
      exact ⟨name, ⟨s.world.arena, Function.update s.world.tables table entered⟩, rfl, rfl, rfl⟩
  | display line => exact ⟨(), s.world, rfl⟩
  | fetchGtfsData => exact mine.elim
  | free => exact mine.elim
  | sleep => exact mine.elim

/-- Past its pop the consumer reaches the end of its turn by own calls alone. -/
theorem turn_ends (run : Run (EngineStep h3 unpack stack) (start rb tables) es s)
    (calls : CallsOnly (OwnOnly ConsumerOwn) Turn.IsConsumer (s.code .main)) :
    ∃ fs s' poppedBus totalProcessed, Run (EngineStep h3 unpack stack) s fs s' ∧
      (∀ e ∈ fs, ∃ l x, e = .own .main l x) ∧
      s'.code .main = .ret (.consumer poppedBus totalProcessed) := by
  obtain ⟨fs, s', turn, rest, mine, at_, last, -⟩ := own_calls_finish
    (J := fun s => ∃ es, Run (EngineStep h3 unpack stack) (start rb tables) es s)
    (fun ⟨_, before⟩ step => ⟨_, before.snoc step⟩)
    (fun ⟨_, before⟩ may => consumer_answered before may) ⟨es, run⟩ calls
  cases turn with
  | consumer poppedBus totalProcessed =>
      exact ⟨fs, s', poppedBus, totalProcessed, rest, mine, at_⟩
  | ingestion => exact last.elim
  | ingestionDone => exact last.elim
  | signaller => exact last.elim

end TelemetrixDb.Engine
