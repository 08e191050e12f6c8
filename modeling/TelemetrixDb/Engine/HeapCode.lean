import TelemetrixDb.Engine.FetchLedger
import TelemetrixDb.Engine.HeapThreads

/-!
# Code on the heap and code over payloads

A download leaves nothing, or a block whose text it answers with. A turn of the
ingestion thread on the heap goes along the turn over payloads: it holds the block of
the payload from the download until it frees it.

-/

namespace TelemetrixDb.Engine
open CMachine Monitor Ingestion Storage Transition

/-- The text that a transfer ends well with, from the text kept so far on. -/
def textOf : Transfer → Bytes → Bool → Option Bytes
  | .finish code, data, isHeld => if code = curleOk ∧ isHeld = true then some data else none
  | .deliver chunk grant next, data, isHeld =>
      if grant.Allows (data.length + chunk.val.length + 1) then
        textOf (next chunk.val.length) (data ++ chunk.val) true
      else textOf (next 0) data isHeld

/-- What a download brings: the text of the block that it returns, if it returns one. -/
def payloadText (fetch : Fetch) : Option Bytes :=
  if fetch.handle then textOf fetch.transfer [] (decide (fetch.initial.Allows 1)) else none

section Downloads

variable {fetch : Fetch}

/-- What a transfer ends with can be told from its rest. -/
theorem textOf_rule (text : Option Bytes) :
    TransferRule fun transfer data isHeld => textOf transfer data isHeld = text where
  granted := by
    intro chunk grant next data isHeld before allowed
    rw [← before, textOf, if_pos allowed]
  refused := by
    intro chunk grant next data isHeld before no
    rw [← before, textOf, if_neg no]

/-- A download leaves what it brings, in any heap. -/
theorem fetch_text (fetch : Fetch) (base : Heap) : ∃ ptr size heap data,
    fetchGtfsData fetch 0 base = .ok (ptr, size, heap) ∧ Fetched base (ptr, size, heap) data ∧
      payloadText fetch = ptr.map fun _ => data := by
  cases handle : fetch.handle with
  | false =>
      obtain ⟨heap, run, same⟩ := fetchGtfsData_noHandle 0 base handle
      exact ⟨none, 0, heap, [], run, .failed 0 same, by simp [payloadText, handle]⟩
  | true =>
      have start : textOf fetch.transfer [] (begun fetch base).1.memory.isSome =
          payloadText fetch := by
        rw [payloadText, if_pos handle, begun, Heap.isSome_malloc]
      obtain ⟨code, mem, heap, data, run, holds, ends⟩ :=
        (textOf_rule (payloadText fetch)).run (holds_malloc base fetch.initial) start
      obtain ⟨ok, bad⟩ := fetchGtfsData_perform 0 handle run holds
      rw [← ends, textOf]
      by_cases good : code = curleOk
      · refine ⟨_, _, heap, data, ok good, ?_, ?_⟩
        · cases holds with
          | null refused same => exact .failed 0 same
          | @held _ p old _ spare block length fits terminated =>
              exact .block spare block (take_terminated terminated) (by omega)
        · cases holds <;> simp [good]
      · obtain ⟨heap', run', same⟩ := bad good
        exact ⟨none, 0, heap', [], run', .failed 0 same, by simp [good]⟩

/-- What a download returns a pointer to does not depend on the heap. -/
theorem payloadOf_eq (fetch : Fetch) (base : Heap) : payloadOf fetch base = payloadText fetch := by
  obtain ⟨ptr, size, heap, data, run, fetched, text⟩ := fetch_text fetch base
  rw [payloadOf, run, text]
  cases fetched with
  | failed => rfl
  | @block _ p old _ spare block text inside =>
      have live : heap.block p = some old := by rw [block, Function.update_self]
      dsimp only
      rw [Heap.load_live live inside, text]
      rfl

/-- A download that keeps libcurl's promise brings the whole body or nothing. -/
theorem textOf_whole {body : Bytes} {transfer : Transfer} {data : Bytes} {isHeld : Bool}
    {text : Bytes} (promise : transfer.NeverOk ∨ transfer.Honest body data)
    (brought : textOf transfer data isHeld = some text) : text = body := by
  induction transfer generalizing data isHeld with
  | finish code =>
      rw [textOf] at brought
      split at brought
      · next ends =>
          obtain rfl := Option.some.inj brought
          rcases promise with never | honest
          · exact absurd ends.1 never
          · exact honest ends.1
      · cases brought
  | deliver chunk grant next ih =>
      rw [textOf] at brought
      split at brought
      · next allowed =>
          have rest := @TransferRule.granted _ (honest_rule body) chunk grant next data isHeld
          exact ih _ (rest promise allowed) brought
      · next no =>
          have rest := @TransferRule.refused _ (honest_rule body) chunk grant next data isHeld
          exact ih _ (rest promise no) brought

theorem payloadText_whole {body payload : Bytes} (honest : fetch.transfer.Honest body [])
    (brought : payloadText fetch = some payload) : payload = body := by
  rw [payloadText] at brought
  split at brought
  · exact textOf_whole (Or.inr honest) brought
  · cases brought

end Downloads

/-- What the ingestion thread holds on the heap: nothing, or the block of a payload that
it has read or is about to read. -/
inductive Hold
  | nothing
  | block (isRead : Bool) (rawProtobuf : Nat) (payload : Bytes)

/-- The payload that is held and about to be read. -/
def Hold.unread : Hold → List Bytes
  | .block false _ payload => [payload]
  | _ => []

theorem Hold.length_unread_le (hold : Hold) : hold.unread.length ≤ 1 := by
  cases hold with
  | nothing => exact Nat.zero_le 1
  | block isRead => cases isRead <;> simp [unread]

/-- Code on the heap and code over payloads that do the same. -/
inductive Pairs : Hold → HeapCode Turn → EngineCode Turn → Prop
  | ret (a : Turn) : Pairs .nothing (.ret a) (.ret a)
  | shared {hold call next next'} (rest : ∀ reply, Pairs hold (next reply) (next' reply)) :
      Pairs hold (.call (.shared call) next) (.call (.shared call) next')
  | sleep {hold next next'} (rest : ∀ x, Pairs hold (next x) (next' x)) :
      Pairs hold (.call (.own (.engine .sleep)) next) (.call (.own .sleep) next')
  | fetch {next next'} (failed : ∀ size, Pairs .nothing (next (none, size)) (next' none))
      (empty : ∀ p, Pairs .nothing (next (some p, 0)) (next' (some [])))
      (ended : ∀ p payload, payload ≠ [] →
        Pairs (.block false p payload) (next (some p, payload.length)) (next' (some payload))) :
      Pairs .nothing (.call (.own .fetchGtfsData) next) (.call (.own .fetchGtfsData) next')
  | read {p payload next q} (rest : Pairs (.block true p payload) (next payload) q) :
      Pairs (.block false p payload) (.call (.own (.read p payload.length)) next) q
  | free {p payload next next'} (rest : Pairs .nothing (next ()) (next' ())) :
      Pairs (.block true p payload) (.call (.own (.free (some p))) next)
        (.call (.own (.free payload)) next')

section Code

variable {α : Type} {hold : Hold} {unpack : Bytes → Option FeedMessage}
variable {stack : Nat → Nat → VehicleData}

/-- A call of `buffer_push`. -/
def IsPush : ClientOp RingOp OwnOp → Prop
  | .shared (.push _) => True
  | _ => False

theorem pushes_parseLoop (items : Nat → VehicleData) (entities : List FeedEntity) (i : Nat)
    (count : Except Fault CInt) :
    CallsOnly IsPush (fun _ => True) (parseLoop bufferPush items entities i count) := by
  induction entities generalizing i count with
  | nil => trivial
  | cons entity rest ih =>
      cases hf : flatten entity with
      | none =>
          rw [parseLoop_skip hf]
          exact ih (i + 1) count
      | some item =>
          rw [parseLoop_offer hf]
          refine ⟨trivial, fun ok => ?_⟩
          cases ok with
          | true => exact ih (i + 1) _
          | false => trivial

/-- The parse pushes and makes no other call. -/
theorem pushes_parseAndQueue (items : Nat → VehicleData) (payload : Bytes) :
    CallsOnly IsPush (fun _ => True) (parseAndQueue bufferPush items unpack payload) := by
  unfold parseAndQueue
  split
  · trivial
  · exact (pushes_parseLoop _ _ _ _).bind fun _ _ => trivial

/-- Code that only pushes does the same on the heap, whatever is held. -/
theorem pairs_heapless {f : α → HeapCode Turn} {g : α → EngineCode Turn} {q : EngineCode α}
    (pushes : CallsOnly IsPush (fun _ => True) q) (rest : ∀ a, Pairs hold (f a) (g a)) :
    Pairs hold (heapless q >>= f) (q >>= g) := by
  induction q with
  | ret a => exact rest a
  | call op next ih =>
      cases op with
      | shared call => exact .shared fun reply => ih reply (pushes.2 reply)
      | own l => exact pushes.1.elim

theorem heapless_bind {β : Type} (q : EngineCode α) (f : α → EngineCode β) :
    heapless (q >>= f) = heapless q >>= fun a => heapless (f a) := by
  induction q with
  | ret a => rfl
  | call op next ih =>
      cases op with
      | shared call =>
          simp only [Program.call_bind, heapless]
          congr 1
          funext reply
          exact ih reply
      | own l =>
          simp only [Program.call_bind, heapless]
          congr 1
          funext x
          exact ih x

theorem parseLoop_heapless (items : Nat → VehicleData) (entities : List FeedEntity) (i : Nat)
    (count : Except Fault CInt) :
    parseLoop (fun item => heapless (bufferPush item)) items entities i count =
      heapless (parseLoop bufferPush items entities i count) := by
  induction entities generalizing i count with
  | nil => rfl
  | cons entity rest ih =>
      cases hf : flatten entity with
      | none =>
          rw [parseLoop_skip hf, parseLoop_skip hf]
          exact ih (i + 1) count
      | some item =>
          rw [parseLoop_offer hf, parseLoop_offer hf]
          simp only [bufferPush, ring, heapless, Program.perform, Program.call_bind]
          congr 1
          funext ok
          cases ok with
          | true => exact ih (i + 1) _
          | false => rfl

/-- The parse uses no heap once it has its payload. -/
theorem parseAndQueue_heapless (items : Nat → VehicleData) (payload : Bytes) :
    parseAndQueue (fun item => heapless (bufferPush item)) items unpack payload =
      heapless (parseAndQueue bufferPush items unpack payload) := by
  unfold parseAndQueue
  cases unpack payload with
  | none => rfl
  | some msg =>
      dsimp only
      rw [parseLoop_heapless, heapless_bind]
      rfl

/-- The end of turn `n`. -/
def heapSleepCode (n : Nat) : HeapCode Turn :=
  .call (.own (.engine .sleep)) fun _ => .ret (.ingestion (n + 1))

theorem heapIngestionTurn_eq (n : Nat) : heapIngestionTurn unpack stack n =
    .call (.shared .isShutdown) fun stop =>
      if stop then .ret .ingestionDone
      else .call (.own .fetchGtfsData) fun rawProtobuf =>
        heapIngestPayload unpack stack n rawProtobuf >>= fun _ => heapSleepCode n := by
  simp [heapIngestionTurn, ring, own, heapOwn, heapless, Program.perform, heapSleepCode]

theorem heapIngestPayload_some (n p : Nat) {payloadSize : Nat} (some_ : 0 < payloadSize) :
    heapIngestPayload unpack stack n (some p, payloadSize) =
      .call (.own (.read p payloadSize)) fun payload =>
        heapless (parseAndQueue bufferPush (stack n) unpack payload) >>= fun _ =>
          .call (.own (.free (some p))) .ret := by
  simp only [heapIngestPayload, if_pos some_, heapOwn, parseAndQueue_heapless]
  rfl

/-- A turn on the heap does what the turn over payloads does. -/
theorem pairs_turn (n : Nat) :
    Pairs .nothing (heapIngestionTurn unpack stack n) (ingestionTurn unpack stack n) := by
  have sleeps : Pairs .nothing (heapSleepCode n) (sleepCode n) := .sleep fun _ => .ret _
  rw [heapIngestionTurn_eq, ingestionTurn_eq]
  refine .shared fun stop => ?_
  cases stop with
  | true => exact .ret _
  | false =>
      refine .fetch (fun size => sleeps) (fun p => sleeps) fun p payload some_ => ?_
      have size : 0 < payload.length := List.length_pos_iff.mpr some_
      rw [heapIngestPayload_some n p size, ingestPayload, if_pos size]
      simp only [Program.call_bind, Program.bind_bind]
      exact .read (pairs_heapless (pushes_parseAndQueue _ _) fun _ => .free sleeps)

end Code

end TelemetrixDb.Engine
