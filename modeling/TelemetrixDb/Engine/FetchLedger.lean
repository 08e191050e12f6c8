import TelemetrixDb.Engine.Producer
import TelemetrixDb.Ingestion.Fetcher

/-!
# Who frees a download

The callback and the fetcher free what they allocate unless the transfer ends well;
then the block goes to the loop of the ingestion thread, which frees it after the
parse. But the loop takes a block without text for a failed download and drops its
pointer.

-/

namespace TelemetrixDb.Engine
open CMachine Ingestion Monitor
open Program (perform logged)

/-- What a turn of the ingestion thread meets: a download, and the ring's answers
to the pushes of the parser. -/
structure Round where
  fetch : Fetch
  answer : List (VehicleData × Bool) → VehicleData → Bool

section Loop

variable (unpack : Bytes → Option FeedMessage) (stack : Nat → Nat → VehicleData)

/-- The pushes of the parser on a payload, with the answers. -/
def pushesOf (n : Nat) (answer : List (VehicleData × Bool) → VehicleData → Bool)
    (payload : Bytes) : List (VehicleData × Bool) :=
  match (parseAndQueue perform (stack n) unpack payload).exec (logged answer) [] with
  | .ok (_, pushes) => pushes
  | .error fault => fault.elim

/-- Turn `n` of `ingestion_thread` on the heap, once it has found the ring open,
with the pushes it makes. -/
def ingestionRound (n : Nat) (round : Round) (heap : Heap) :
    Except HeapFault (List (VehicleData × Bool) × Heap) := do
  let (rawProtobuf, payloadSize, heap) ← fetchGtfsData round.fetch 0 heap
  match rawProtobuf with
  | none => return ([], heap)
  | some p =>
      if 0 < payloadSize then
        let payload ← heap.load p payloadSize
        let pushes := pushesOf unpack stack n round.answer payload
        let heap ← heap.free rawProtobuf
        return (pushes, heap)
      else return ([], heap)

/-- The turns of the loop from turn `n` on. -/
def ingestionRounds (n : Nat) : List Round → Heap → Except HeapFault Heap
  | [], heap => return heap
  | round :: rounds, heap => do
      let (_, heap) ← ingestionRound unpack stack n round heap
      ingestionRounds (n + 1) rounds heap

end Loop

/-- The transfer ends with `CURLE_OK` while there is a block and nothing was stored
in it: every chunk was empty or its request was refused. -/
def EndsEmpty : Transfer → Bool → Prop
  | .finish code, isHeld => code = curleOk ∧ isHeld = true
  | .deliver chunk grant next, isHeld =>
      if grant.Allows (chunk.val.length + 1) then chunk.val = [] ∧ EndsEmpty (next 0) true
      else EndsEmpty (next 0) isHeld

/-- The download succeeds with an empty body and a block. -/
def Leaks (fetch : Fetch) : Prop :=
  fetch.handle = true ∧ EndsEmpty fetch.transfer (decide (fetch.initial.Allows 1))

variable {unpack : Bytes → Option FeedMessage} {stack : Nat → Nat → VehicleData}
variable {base heap : Heap} {fetch : Fetch}

/-- Whether a transfer ends well without text can be told from its rest. -/
theorem endsEmpty_rule (leaks : Prop) : TransferRule fun transfer data isHeld =>
    (data = [] ∧ EndsEmpty transfer isHeld) ↔ leaks where
  granted := by
    intro chunk grant next data isHeld before allowed
    rw [← before]
    by_cases none : data = []
    · subst none
      rw [List.length_nil, Nat.zero_add] at allowed
      rw [EndsEmpty, if_pos allowed, List.nil_append]
      constructor
      · rintro ⟨empty, ends⟩
        rw [empty] at ends
        exact ⟨rfl, empty, ends⟩
      · rintro ⟨-, empty, ends⟩
        rw [empty]
        exact ⟨rfl, ends⟩
    · simp [none]
  refused := by
    intro chunk grant next data isHeld before no
    rw [← before]
    by_cases none : data = []
    · subst none
      rw [List.length_nil, Nat.zero_add] at no
      rw [EndsEmpty, if_neg no]
    · simp [none]

/-- What a download leaves: nothing on top of the blocks that were there, or its
block, whose text it returns. -/
inductive Fetched (base : Heap) : Option Nat × Nat × Heap → Bytes → Prop
  | failed {heap : Heap} (size : Nat) (same : heap.block = base.block) :
      Fetched base (none, size, heap) []
  | block {heap : Heap} {p : Nat} {old data : Bytes} (spare : base.block p = none)
      (block : heap.block = Function.update base.block p (some old))
      (text : old.take data.length = data) (inside : data.length ≤ old.length) :
      Fetched base (some p, data.length, heap) data

/-- A download has no fault, and it returns a block without text exactly when it
leaks. -/
theorem fetch_spec (fetch : Fetch) (base : Heap) : ∃ ptr size heap data,
    fetchGtfsData fetch 0 base = .ok (ptr, size, heap) ∧ Fetched base (ptr, size, heap) data ∧
      ((ptr.isSome ∧ data = []) ↔ Leaks fetch) := by
  cases handle : fetch.handle with
  | false =>
      obtain ⟨heap, run, same⟩ := fetchGtfsData_noHandle 0 base handle
      refine ⟨none, 0, heap, [], run, .failed 0 same, ?_⟩
      simp [Leaks, handle]
  | true =>
      have start : ([] = ([] : Bytes) ∧ EndsEmpty fetch.transfer (begun fetch base).1.memory.isSome) ↔
          Leaks fetch := by
        simp only [begun, Heap.isSome_malloc, Leaks, handle, true_and]
      obtain ⟨code, mem, heap, data, run, holds, ends⟩ :=
        (endsEmpty_rule (Leaks fetch)).run (holds_malloc base fetch.initial) start
      obtain ⟨ok, bad⟩ := fetchGtfsData_perform 0 handle run holds
      rw [← ends, EndsEmpty]
      by_cases good : code = curleOk
      · refine ⟨_, _, heap, data, ok good, ?_, by simp [good, and_comm]⟩
        cases holds with
        | null refused same => exact .failed 0 same
        | @held _ p old _ spare block length fits terminated =>
            exact .block spare block (take_terminated terminated) (by omega)
      · obtain ⟨heap', run', same⟩ := bad good
        exact ⟨none, 0, heap', [], run', .failed 0 same, by simp [good]⟩

/-- What a turn pushes is offered from its download's text. -/
theorem pushesOf_offered (n : Nat) (answer : List (VehicleData × Bool) → VehicleData → Bool)
    {payload : Bytes} (some_ : 0 < payload.length) :
    (pushesOf unpack stack n answer payload).map Prod.fst <+: contribution unpack (some payload) := by
  rw [contribution, if_pos some_]
  unfold pushesOf
  cases unpacked : unpack payload with
  | none =>
      rw [exec_parseAndQueue_failed unpacked]
      exact List.prefix_rfl
  | some msg =>
      have parsed : ∃ calls, Offers answer [] (records msg) calls ∧
          (parseAndQueue perform (stack n) unpack payload).exec (logged answer) [] = _ :=
        exec_parseAndQueue unpacked []
      obtain ⟨calls, offers, run⟩ := parsed
      rw [run]
      exact offers.isPrefix

/-- A turn has no fault. It leaves the blocks that were there, and one more when its
download leaks. -/
theorem round_spec (n : Nat) (round : Round) (base : Heap) : ∃ pushes heap data,
    ingestionRound unpack stack n round base = .ok (pushes, heap) ∧
      pushes.map Prod.fst <+: contribution unpack (some data) ∧
      ((¬ Leaks round.fetch ∧ heap.block = base.block) ∨
        (Leaks round.fetch ∧ ∃ p b, base.block p = none ∧
          heap.block = Function.update base.block p (some b))) := by
  obtain ⟨ptr, size, heap, data, run, fetched, leaks⟩ := fetch_spec round.fetch base
  unfold ingestionRound
  cases fetched with
  | failed size same =>
      refine ⟨[], heap, [], ?_, List.nil_prefix, Or.inl ⟨?_, same⟩⟩
      · simp only [run, bind, Except.bind, pure, Except.pure]
      · rw [← leaks]
        simp
  | @block _ p old _ spare block text inside =>
      by_cases some_ : 0 < data.length
      · have live : heap.block p = some old := by rw [block, Function.update_self]
        have read := Heap.load_live live inside
        rw [text] at read
        obtain ⟨heap', freed, after⟩ := Heap.free_live live
        have offered := @pushesOf_offered unpack stack n round.answer data some_
        refine ⟨_, heap', data, ?_, offered, Or.inl ⟨?_, ?_⟩⟩
        · simp only [run, if_pos some_, read, freed, bind, Except.bind, pure, Except.pure]
        · rw [← leaks]
          rintro ⟨-, rfl⟩
          exact absurd some_ (Nat.lt_irrefl 0)
        · rw [after, block, Function.update_idem, ← spare, Function.update_eq_self]
      · have none : data = [] := List.length_eq_zero_iff.mp (by omega)
        refine ⟨[], heap, [], ?_, List.nil_prefix, Or.inr ⟨?_, p, old, spare, block⟩⟩
        · simp only [run, if_neg some_, bind, Except.bind, pure, Except.pure]
        · exact leaks.mp ⟨rfl, none⟩

section Turn

variable {answer : List (VehicleData × Bool) → VehicleData → Bool}

/-- The calls of a turn of the ingestion thread answered alone: the ring is open
and answers the pushes, and the download brings a payload or nothing. -/
def turnAnswers (answer : List (VehicleData × Bool) → VehicleData → Bool)
    (rawProtobuf : Option Bytes) : (op : ClientOp RingOp OwnOp) → List (VehicleData × Bool) →
      Except Empty (ClientAns (Ring.Reply (V := VehicleData)) OwnAns op × List (VehicleData × Bool))
  | .shared (.push item), pushes => .ok (answer pushes item, pushes ++ [(item, answer pushes item)])
  | .shared (.pop item), pushes => .ok ((false, item), pushes)
  | .shared .isShutdown, pushes => .ok (false, pushes)
  | .shared .signalShutdown, pushes => .ok ((), pushes)
  | .own .fetchGtfsData, pushes => .ok (rawProtobuf, pushes)
  | .own (.free _), pushes => .ok ((), pushes)
  | .own .sleep, pushes => .ok ((), pushes)
  | .own (.update _), pushes => .ok (false, pushes)
  | .own (.count _ _), pushes => .ok (false, pushes)
  | .own (.index _ _), pushes => .ok ([], pushes)
  | .own (.display _), pushes => .ok ((), pushes)

/-- The payload, if any, that a download returns. -/
def payloadOf (fetch : Fetch) (heap : Heap) : Option Bytes :=
  match fetchGtfsData fetch 0 heap with
  | .ok (some p, size, heap) => (heap.load p size).toOption
  | _ => none

theorem exec_ingestionTurn {n : Nat} {rawProtobuf : Option Bytes} {pushes : List (VehicleData × Bool)}
    (ingests : (ingestPayload unpack stack n rawProtobuf).exec (turnAnswers answer rawProtobuf) [] =
      .ok ((), pushes)) :
    (ingestionTurn unpack stack n).exec (turnAnswers answer rawProtobuf) [] =
      .ok (.ingestion (n + 1), pushes) := by
  rw [ingestionTurn_eq, Program.exec_call _ (rfl : turnAnswers _ _ _ [] = .ok (false, []))]
  exact Program.exec_bind _ ingests

theorem exec_ingestPayload (n : Nat) {payload : Bytes} (some_ : 0 < payload.length) :
    (ingestPayload unpack stack n (some payload)).exec (turnAnswers answer (some payload)) [] =
      .ok ((), pushesOf unpack stack n answer payload) := by
  have parsed : ∃ report pushes,
      (parseAndQueue bufferPush (stack n) unpack payload).exec (turnAnswers answer (some payload)) [] =
        .ok (report, pushes) ∧
      (parseAndQueue perform (stack n) unpack payload).exec (logged answer) [] =
        .ok (report, pushes) := by
    apply exec_parseAndQueue_congr
    exact fun item pushes => ⟨_, _, rfl, rfl⟩
  obtain ⟨report, pushes, inTurn, alone⟩ := parsed
  have same : pushesOf unpack stack n answer payload = pushes := by rw [pushesOf, alone]
  rw [ingestPayload, if_pos some_, same]
  exact Program.exec_bind _ inTurn

/-- A turn on the heap makes the pushes that the engine's turn makes of the payload
downloaded. -/
theorem turn_of_round {n : Nat} {round : Round} {pushes : List (VehicleData × Bool)}
    (turn : ingestionRound unpack stack n round base = .ok (pushes, heap)) :
    (ingestionTurn unpack stack n).exec
      (turnAnswers round.answer (payloadOf round.fetch base)) [] =
        .ok (.ingestion (n + 1), pushes) := by
  apply exec_ingestionTurn
  obtain ⟨ptr, size, heap₁, data, run, fetched, -⟩ := fetch_spec round.fetch base
  unfold ingestionRound at turn
  cases fetched with
  | failed size same =>
      simp only [run, bind, Except.bind, pure, Except.pure] at turn
      cases turn
      rw [payloadOf, run]
      rfl
  | @block _ p old _ spare block text inside =>
      have live : heap₁.block p = some old := by rw [block, Function.update_self]
      have read := Heap.load_live live inside
      rw [text] at read
      obtain ⟨heap', freed, -⟩ := Heap.free_live live
      have payload : payloadOf round.fetch base = some data := by
        simp only [payloadOf, run, read, Except.toOption]
      rw [payload]
      by_cases some_ : 0 < data.length
      · simp only [run, if_pos some_, read, freed, bind, Except.bind, pure, Except.pure] at turn
        cases turn
        exact exec_ingestPayload n some_
      · simp only [run, if_neg some_, bind, Except.bind, pure, Except.pure] at turn
        cases turn
        rw [ingestPayload, if_neg some_]
        rfl

end Turn

theorem ingestionRounds_cons {n : Nat} {round : Round} {rounds : List Round}
    {pushes : List (VehicleData × Bool)}
    (turn : ingestionRound unpack stack n round base = .ok (pushes, heap)) :
    ingestionRounds unpack stack n (round :: rounds) base =
      ingestionRounds unpack stack (n + 1) rounds heap := by
  simp only [ingestionRounds, turn, bind, Except.bind]

theorem ingestionRounds_append (n : Nat) (before after : List Round) (base : Heap) :
    ingestionRounds unpack stack n (before ++ after) base =
      (ingestionRounds unpack stack n before base >>= fun heap =>
        ingestionRounds unpack stack (n + before.length) after heap) := by
  induction before generalizing n base with
  | nil => rfl
  | cons round before ih =>
      obtain ⟨pushes, heap, data, turn, -⟩ := @round_spec unpack stack n round base
      rw [List.cons_append, ingestionRounds_cons turn, ingestionRounds_cons turn, ih,
        List.length_cons, Nat.add_right_comm]
      rfl

/-- Without a leak the loop leaves the blocks that were there. -/
theorem rounds_kept (n : Nat) {rounds : List Round} (base : Heap)
    (clean : ∀ round ∈ rounds, ¬ Leaks round.fetch) : ∃ heap,
      ingestionRounds unpack stack n rounds base = .ok heap ∧ heap.block = base.block := by
  induction rounds generalizing n base with
  | nil => exact ⟨base, rfl, rfl⟩
  | cons round rounds ih =>
      rw [List.forall_mem_cons] at clean
      obtain ⟨pushes, heap, data, turn, -, kept | ⟨leaks, -⟩⟩ :=
        @round_spec unpack stack n round base
      · obtain ⟨heap', rest, same⟩ := ih (n + 1) heap clean.2
        exact ⟨heap', (ingestionRounds_cons turn).trans rest, same.trans kept.2⟩
      · exact absurd leaks clean.1

/-- The loop has no fault. -/
theorem rounds_run (n : Nat) (rounds : List Round) (base : Heap) :
    ∃ heap, ingestionRounds unpack stack n rounds base = .ok heap := by
  induction rounds generalizing n base with
  | nil => exact ⟨base, rfl⟩
  | cons round rounds ih =>
      obtain ⟨pushes, heap, data, turn, -⟩ := @round_spec unpack stack n round base
      obtain ⟨heap', rest⟩ := ih (n + 1) heap
      exact ⟨heap', (ingestionRounds_cons turn).trans rest⟩

/-- For every run of the loop, whatever its downloads meet and however its parses
end, no block is freed twice or used after it was freed; and at the end of each of
its turns every block has been freed exactly when no download of the run succeeds
with an empty body and a block. -/
theorem ledger_empty_iff (unpack : Bytes → Option FeedMessage) (stack : Nat → Nat → VehicleData)
    (rounds : List Round) :
    (∃ heap, ingestionRounds unpack stack 0 rounds .empty = .ok heap) ∧
    ((∀ before, before <+: rounds → ∃ heap,
        ingestionRounds unpack stack 0 before .empty = .ok heap ∧ ∀ p, heap.block p = none) ↔
      ∀ round ∈ rounds, ¬ Leaks round.fetch) := by
  refine ⟨rounds_run 0 rounds .empty, ?_, ?_⟩
  · intro empties round mem leaks
    obtain ⟨before, after, rfl⟩ := List.append_of_mem mem
    obtain ⟨heap, run, empty⟩ := empties before (List.prefix_append _ _)
    have next : before ++ [round] <+: before ++ round :: after := ⟨after, by simp⟩
    obtain ⟨heap', run', empty'⟩ := empties (before ++ [round]) next
    obtain ⟨pushes, heap₁, data, turn, -, ⟨clean, -⟩ | ⟨-, p, b, -, block⟩⟩ :=
      @round_spec unpack stack (0 + before.length) round heap
    · exact clean leaks
    · have last : ingestionRounds unpack stack (0 + before.length) [round] heap = .ok heap₁ :=
        ingestionRounds_cons turn
      rw [ingestionRounds_append, run] at run'
      obtain rfl : heap₁ = heap' := Except.ok.inj (last.symm.trans run')
      have live := empty' p
      rw [block, Function.update_self] at live
      cases live
  · intro clean before isPrefix
    obtain ⟨heap, run, same⟩ := @rounds_kept unpack stack 0 before .empty
      fun round mem => clean round (isPrefix.subset mem)
    exact ⟨heap, run, fun p => congrFun same p⟩

/-- A download that succeeds with an empty body. -/
def emptyBody : Round where
  fetch := ⟨plenty, true, .finish curleOk⟩
  answer := fun _ _ => true

/-- Its block stays. -/
theorem empty_body_leaks : ∃ heap,
    ingestionRounds (fun _ => none) (fun _ _ => zeroBus) 0 [emptyBody] .empty = .ok heap ∧
      heap.block 0 = some [0] := ⟨_, rfl, rfl⟩

end TelemetrixDb.Engine
