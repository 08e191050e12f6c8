import TelemetrixDb.Foundation.Heap
import TelemetrixDb.Ingestion.Feed

/-!
# The download of `fetcher.c`

libcurl hands over a body in chunks, and the callback appends each to a block that
it reallocates. When memory runs out the callback leaves the block as it was, so
the block holds whole chunks at all times.

## Implementation notes

A transfer is what libcurl does, step by step, given what the callback returns, and
with it how the allocator answers in that callback. Options and the handle, which
the code releases on each way out, are left out.

-/

namespace TelemetrixDb.Ingestion
open CMachine

structure MemoryStruct where
  memory : Option Nat
  size : Nat

/-- The first `n` bytes of what a pointer leads to. -/
def bytesAt (contents : Bytes) (n : Nat) : Except HeapFault Bytes :=
  if n ≤ contents.length then .ok (contents.take n) else .error .outOfBounds

/-- What the callback returns, and what it leaves in memory. -/
def writeMemoryCallback (grant : Grant) (contents : Bytes) (size nmemb : Nat) (mem : MemoryStruct)
    (heap : Heap) : Except HeapFault (Nat × MemoryStruct × Heap) := do
  let realsize := sizeMul size nmemb
  let (ptr, heap) ← heap.realloc grant mem.memory (sizeAdd (sizeAdd mem.size realsize) 1)
  match ptr with
  | none => return (0, mem, heap)
  | some p =>
      let mem := { mem with memory := some p }
      let heap ← heap.store p mem.size (← bytesAt contents realsize)
      let mem := { mem with size := sizeAdd mem.size realsize }
      let heap ← heap.store p mem.size [0]
      return (realsize, mem, heap)

/-- Bytes in memory; no object is longer than `PTRDIFF_MAX`. -/
abbrev Chunk := { bytes : Bytes // bytes.length < 2 ^ 63 }

/-- What `curl_easy_perform` does: it ends with a code, or hands over a chunk and
goes on as the callback's result tells it. -/
inductive Transfer
  | finish (code : Nat)
  | deliver (chunk : Chunk) (grant : Grant) (next : Nat → Transfer)

/-- The code `CURLE_OK`. -/
def curleOk : Nat := 0

/-- The code, and what the callbacks leave in memory. -/
def curlEasyPerform : Transfer → MemoryStruct → Heap → Except HeapFault (Nat × MemoryStruct × Heap)
  | .finish code, mem, heap => return (code, mem, heap)
  | .deliver chunk grant next, mem, heap => do
      let (returned, mem, heap) ←
        writeMemoryCallback grant chunk.val 1 chunk.val.length mem heap
      curlEasyPerform (next returned) mem heap

/-- What a download meets: the answer to the first `malloc`, the success of
`curl_easy_init`, and the transfer. -/
structure Fetch where
  initial : Grant
  handle : Bool
  transfer : Transfer

/-- The pointer returned and what is left in `*out_size`, which held `outSize`. -/
def fetchGtfsData (fetch : Fetch) (outSize : Nat) (heap : Heap) :
    Except HeapFault (Option Nat × Nat × Heap) := do
  let (memory, heap) := heap.malloc fetch.initial 1
  let chunk : MemoryStruct := ⟨memory, 0⟩
  if fetch.handle = false then
    let heap ← heap.free chunk.memory
    return (none, outSize, heap)
  let (res, chunk, heap) ← curlEasyPerform fetch.transfer chunk heap
  if res ≠ curleOk then
    let heap ← heap.free chunk.memory
    return (none, outSize, heap)
  return (chunk.memory, chunk.size, heap)

/-- The transfer never ends with `CURLE_OK`. -/
def Transfer.NeverOk : Transfer → Prop
  | .finish code => code ≠ curleOk
  | .deliver _ _ next => ∀ returned, (next returned).NeverOk

/-- What libcurl promises for a body, some of which it has handed over: it ends
with `CURLE_OK` only if every callback returned the length of its chunk and the
chunks are the whole body. -/
def Transfer.Honest (body : Bytes) : Bytes → Transfer → Prop
  | received, .finish code => code = curleOk → received = body
  | received, .deliver chunk _ next =>
      (next chunk.val.length).Honest body (received ++ chunk.val) ∧
        ∀ returned, returned ≠ chunk.val.length → (next returned).NeverOk

/-- What the download holds of a body, on top of the blocks that were there: nothing
while no request was granted, or a block of one byte more. -/
inductive Holds (base : Heap) (initial : Grant) : MemoryStruct → Heap → Bytes → Prop
  | null {heap : Heap} (refused : ¬ initial.Allows 1) (same : heap.block = base.block) :
      Holds base initial ⟨none, 0⟩ heap []
  | held {heap : Heap} {p : Nat} {old data : Bytes} (spare : base.block p = none)
      (block : heap.block = Function.update base.block p (some old))
      (length : old.length = data.length + 1) (fits : old.length < 2 ^ 63)
      (terminated : data ≠ [] → old = data ++ [0]) :
      Holds base initial ⟨some p, data.length⟩ heap data

variable {base heap : Heap} {initial : Grant} {mem : MemoryStruct} {data : Bytes}

theorem Holds.size_eq (h : Holds base initial mem heap data) : mem.size = data.length := by
  cases h <;> rfl

theorem Holds.length_lt (h : Holds base initial mem heap data) : data.length + 1 < 2 ^ 63 := by
  cases h with
  | null => decide
  | held spare block length fits => omega

/-- The first `malloc` is granted or not. -/
theorem holds_malloc (base : Heap) (initial : Grant) :
    Holds base initial ⟨(base.malloc initial 1).1, 0⟩ (base.malloc initial 1).2 [] := by
  rcases base.malloc_cases initial 1 with ⟨-, p, h', answer, spare, block⟩ | ⟨refused, answer⟩
  · rw [answer]
    exact .held spare block (length_resized _ _ _) (by rw [length_resized]; decide)
      fun some => absurd rfl some
  · rw [answer]
    exact .null refused rfl

/-- What a block with the text and a 0 starts with. -/
theorem take_terminated {old : Bytes} (terminated : data ≠ [] → old = data ++ [0]) :
    old.take data.length = data := by
  by_cases none : data = []
  · rw [none, List.length_nil, List.take_zero]
  · rw [terminated none, List.take_left]

/-- The block for a longer text keeps what it holds. -/
theorem Holds.realloc (h : Holds base initial mem heap data) (grant : Grant) {n : Nat}
    (longer : data.length + 1 ≤ n) :
    (grant.Allows n ∧ ∃ q heap' old, heap.realloc grant mem.memory n = .ok (some q, heap') ∧
        base.block q = none ∧ heap'.block = Function.update base.block q (some old) ∧
        old.length = n ∧ old.take data.length = data) ∨
      (¬ grant.Allows n ∧ heap.realloc grant mem.memory n = .ok (none, heap)) := by
  cases h with
  | null refused same =>
      rcases heap.malloc_cases grant n with ⟨allowed, p, heap', answer, spare, block⟩ | ⟨no, answer⟩
      · rw [same] at spare block
        exact Or.inl ⟨allowed, p, heap', _, congrArg Except.ok answer, spare, block,
          length_resized _ _ _, rfl⟩
      · exact Or.inr ⟨no, congrArg Except.ok answer⟩
  | @held _ p old _ spare block length fits terminated =>
      have live : heap.block p = some old := by rw [block, Function.update_self]
      rcases Heap.realloc_cases live grant n with ⟨allowed, q, heap', answer, place, after⟩ | no
      · have rest : Function.update heap.block p none = base.block := by
          rw [block, Function.update_idem, ← spare, Function.update_eq_self]
        rw [rest] at after
        refine Or.inl ⟨allowed, q, heap', _, answer, ?_, after, length_resized _ _ _, ?_⟩
        · rcases place with rfl | free
          · exact spare
          · have hq : q ≠ p := by
              rintro rfl
              rw [live] at free
              cases free
            rwa [block, Function.update_of_ne hq] at free
        · have shorter : data.length ≤ old.length := by omega
          calc
            (resized old n grant.junk).take data.length =
                ((resized old n grant.junk).take old.length).take data.length := by
              rw [List.take_take, Nat.min_eq_left shorter]
            _ = old.take data.length := by rw [take_resized (by omega)]
            _ = data := take_terminated terminated
      · exact Or.inr no

/-- The chunk and the 0 after it fill the block. -/
theorem fill {p : Nat} {old chunk : Bytes} (live : heap.block p = some old)
    (keeps : old.take data.length = data) (length : old.length = data.length + chunk.length + 1) :
    ∃ heap₁ heap₂, heap.store p data.length chunk = .ok heap₁ ∧
      heap₁.store p (data.length + chunk.length) [0] = .ok heap₂ ∧
      heap₂.block = Function.update heap.block p (some (data ++ chunk ++ [0])) := by
  have room : data.length + chunk.length ≤ old.length := by omega
  obtain ⟨heap₁, first, block₁⟩ := Heap.store_live live room
  rw [keeps] at block₁
  have live₁ : heap₁.block p = some (data ++ chunk ++ old.drop (data.length + chunk.length)) := by
    rw [block₁, Function.update_self]
  have last : (old.drop (data.length + chunk.length)).length = 1 := by
    rw [List.length_drop]
    omega
  have fits : data.length + chunk.length + [(0 : UInt8)].length ≤
      (data ++ chunk ++ old.drop (data.length + chunk.length)).length := by
    simp only [List.length_append, last, List.length_singleton]
    omega
  obtain ⟨heap₂, second, block₂⟩ := Heap.store_live live₁ fits
  refine ⟨heap₁, heap₂, first, second, ?_⟩
  have before : (data ++ chunk ++ old.drop (data.length + chunk.length)).take
      (data.length + chunk.length) = data ++ chunk := by
    rw [← List.length_append, List.take_left]
  have after : (data ++ chunk ++ old.drop (data.length + chunk.length)).drop
      (data.length + chunk.length + [(0 : UInt8)].length) = [] := by
    apply List.drop_eq_nil_of_le
    simp only [List.length_append, last, List.length_singleton]
    omega
  rw [block₂, block₁, Function.update_idem, before, after, List.append_nil]

/-- After a callback that was granted its request. -/
structure Appended (base : Heap) (mem : MemoryStruct) (heap : Heap) (data : Bytes) (p : Nat) :
    Prop where
  mem_eq : mem = ⟨some p, data.length⟩
  spare : base.block p = none
  block : heap.block = Function.update base.block p (some (data ++ [0]))
  fits : data.length + 1 < 2 ^ 63

theorem Appended.holds {p : Nat} (h : Appended base mem heap data p) :
    Holds base initial mem heap data := by
  obtain ⟨rfl, spare, block, fits⟩ := h
  exact .held spare block (by simp) (by simpa using fits) fun _ => rfl

/-- A callback appends its whole chunk when its request is granted, and otherwise
returns 0 and leaves everything alone. Its sum of sizes does not wrap. -/
theorem Holds.callback (h : Holds base initial mem heap data) (chunk : Chunk) (grant : Grant) :
    mem.size + chunk.val.length + 1 < 2 ^ 64 ∧
    ((grant.Allows (data.length + chunk.val.length + 1) ∧ ∃ p mem' heap',
        writeMemoryCallback grant chunk.val 1 chunk.val.length mem heap =
          .ok (chunk.val.length, mem', heap') ∧
        Appended base mem' heap' (data ++ chunk.val) p) ∨
      (¬ grant.Allows (data.length + chunk.val.length + 1) ∧
        writeMemoryCallback grant chunk.val 1 chunk.val.length mem heap = .ok (0, mem, heap))) := by
  obtain ⟨chunk, limit⟩ := chunk
  have size := h.size_eq
  have bound := h.length_lt
  have realsize : sizeMul 1 chunk.length = chunk.length := by
    rw [sizeMul, Nat.one_mul, Nat.mod_eq_of_lt (by omega)]
  have total : sizeAdd data.length chunk.length = data.length + chunk.length :=
    Nat.mod_eq_of_lt (by omega)
  have request : sizeAdd (data.length + chunk.length) 1 = data.length + chunk.length + 1 :=
    Nat.mod_eq_of_lt (by omega)
  refine ⟨by dsimp only; omega, ?_⟩
  unfold writeMemoryCallback
  simp only [realsize, size, total, request]
  have longer : data.length + 1 ≤ data.length + chunk.length + 1 := by omega
  rcases h.realloc grant longer with ⟨allowed, p, heap₁, old, answer, spare, block, length, keeps⟩ | no
  · have live : heap₁.block p = some old := by rw [block, Function.update_self]
    obtain ⟨heap₂, heap₃, first, second, filled⟩ := fill live keeps length
    refine Or.inl ⟨allowed, p, ⟨some p, data.length + chunk.length⟩, heap₃, ?_, ?_⟩
    · have read : bytesAt chunk chunk.length = .ok chunk := by
        rw [bytesAt, if_pos (Nat.le_refl _), List.take_length]
      simp only [answer, read, first, second, bind, Except.bind, pure, Except.pure]
    · refine ⟨by rw [List.length_append], spare, ?_, ?_⟩
      · rw [filled, block, Function.update_idem]
      · have granted : data.length + chunk.length + 1 < 2 ^ 63 := by
          cases grant with
          | refuse => exact allowed.elim
          | stay => exact allowed
          | move => exact allowed
        rw [List.length_append]
        exact granted
  · refine Or.inr ⟨no.1, ?_⟩
    rw [no.2]
    rfl

/-- Callbacks one after the other, each with the allocator's answer, and the values
they return. -/
def callbacks : List (Chunk × Grant) → MemoryStruct → Heap →
    Except HeapFault (List Nat × MemoryStruct × Heap)
  | [], mem, heap => return ([], mem, heap)
  | (chunk, grant) :: calls, mem, heap => do
      let (returned, mem, heap) ←
        writeMemoryCallback grant chunk.val 1 chunk.val.length mem heap
      let (rest, mem, heap) ← callbacks calls mem heap
      return (returned :: rest, mem, heap)

theorem callbacks_cons {chunk : Chunk} {grant : Grant} {calls : List (Chunk × Grant)}
    {returned : Nat} {returns : List Nat} {mem₁ mem₂ : MemoryStruct} {heap₁ heap₂ : Heap}
    (run : writeMemoryCallback grant chunk.val 1 chunk.val.length mem heap =
      .ok (returned, mem₁, heap₁))
    (rest : callbacks calls mem₁ heap₁ = .ok (returns, mem₂, heap₂)) :
    callbacks ((chunk, grant) :: calls) mem heap = .ok (returned :: returns, mem₂, heap₂) := by
  simp only [callbacks, run, rest, bind, Except.bind, pure, Except.pure]

/-- What is kept of the chunks: those whose request was granted. -/
def stored (data : Bytes) : List (Chunk × Grant) → Bytes
  | [] => data
  | (chunk, grant) :: calls =>
      stored (if grant.Allows (data.length + chunk.val.length + 1) then data ++ chunk.val else data)
        calls

/-- A sequence of callbacks holds what was kept of its chunks, and that is all of
them when each returned the length of its chunk. -/
theorem Holds.callbacks (h : Holds base initial mem heap data) (calls : List (Chunk × Grant)) :
    ∃ returns mem' heap', Ingestion.callbacks calls mem heap = .ok (returns, mem', heap') ∧
      Holds base initial mem' heap' (stored data calls) ∧
      (returns = calls.map (fun call => call.1.val.length) →
        stored data calls = data ++ calls.flatMap fun call => call.1.val) := by
  induction calls generalizing mem heap data with
  | nil => exact ⟨[], mem, heap, rfl, h, fun _ => by simp [stored]⟩
  | cons call calls ih =>
      obtain ⟨chunk, grant⟩ := call
      rcases (h.callback chunk grant).2 with ⟨allowed, p, mem₁, heap₁, run, appended⟩ | ⟨no, run⟩
      · obtain ⟨returns, mem', heap', rest, holds, all⟩ := ih appended.holds
        refine ⟨chunk.val.length :: returns, mem', heap', callbacks_cons run rest, ?_, ?_⟩
        · rwa [stored, if_pos allowed]
        · intro whole
          rw [stored, if_pos allowed, all (List.cons.inj whole).2, List.flatMap_cons,
            List.append_assoc]
      · obtain ⟨returns, mem', heap', rest, holds, all⟩ := ih h
        refine ⟨0 :: returns, mem', heap', callbacks_cons run rest, ?_, ?_⟩
        · rwa [stored, if_neg no]
        · intro whole
          obtain ⟨zero, rest⟩ := List.cons.inj whole
          have nothing : chunk.val = [] := List.length_eq_zero_iff.mp zero.symm
          rw [stored, if_neg no, all rest, List.flatMap_cons, nothing, List.nil_append]

theorem curlEasyPerform_deliver {chunk : Chunk} {grant : Grant} {next : Nat → Transfer}
    {returned : Nat} {mem' : MemoryStruct} {heap' : Heap}
    (run : writeMemoryCallback grant chunk.val 1 chunk.val.length mem heap =
      .ok (returned, mem', heap')) :
    curlEasyPerform (.deliver chunk grant next) mem heap =
      curlEasyPerform (next returned) mem' heap' := by
  simp only [curlEasyPerform, run, bind, Except.bind]

/-- An assertion about the rest of a transfer, the text kept and whether there is a
block, which a callback hands on whether or not its request is granted. -/
structure TransferRule (J : Transfer → Bytes → Bool → Prop) : Prop where
  granted : ∀ {chunk : Chunk} {grant : Grant} {next data isHeld},
    J (.deliver chunk grant next) data isHeld →
    grant.Allows (data.length + chunk.val.length + 1) →
    J (next chunk.val.length) (data ++ chunk.val) true
  refused : ∀ {chunk : Chunk} {grant : Grant} {next data isHeld},
    J (.deliver chunk grant next) data isHeld →
    ¬ grant.Allows (data.length + chunk.val.length + 1) → J (next 0) data isHeld

/-- The assertion holds at the end of the transfer, which has no fault. -/
theorem TransferRule.run {J : Transfer → Bytes → Bool → Prop} (rule : TransferRule J)
    (h : Holds base initial mem heap data) {transfer : Transfer}
    (start : J transfer data mem.memory.isSome) :
    ∃ code mem' heap' data', curlEasyPerform transfer mem heap = .ok (code, mem', heap') ∧
      Holds base initial mem' heap' data' ∧ J (.finish code) data' mem'.memory.isSome := by
  induction transfer generalizing mem heap data with
  | finish code => exact ⟨code, mem, heap, data, rfl, h, start⟩
  | deliver chunk grant next ih =>
      rcases (h.callback chunk grant).2 with ⟨allowed, p, mem₁, heap₁, run, appended⟩ | ⟨no, run⟩
      · rw [curlEasyPerform_deliver run]
        apply ih _ appended.holds
        rw [appended.mem_eq]
        exact rule.granted start allowed
      · rw [curlEasyPerform_deliver run]
        exact ih _ h (rule.refused start no)

/-- A transfer that keeps libcurl's promise ends with the whole body or not well. -/
theorem honest_rule (body : Bytes) : TransferRule fun transfer data _ =>
    transfer.NeverOk ∨ transfer.Honest body data where
  granted := by
    rintro chunk grant next data isHeld (never | honest) -
    · exact Or.inl (never _)
    · exact Or.inr honest.1
  refused := by
    rintro chunk grant next data isHeld (never | honest) -
    · exact Or.inl (never _)
    · -- an empty chunk is returned as such even when its request is refused
      by_cases empty : chunk.val = []
      · have whole := honest.1
        rw [empty, List.append_nil] at whole
        exact Or.inr whole
      · exact Or.inl (honest.2 0 fun zero => empty (List.length_eq_zero_iff.mp zero.symm))

/-- Freeing what a download holds leaves the blocks that were there. -/
theorem Holds.free (h : Holds base initial mem heap data) :
    ∃ heap', heap.free mem.memory = .ok heap' ∧ heap'.block = base.block := by
  cases h with
  | null refused same => exact ⟨heap, rfl, same⟩
  | @held _ p old _ spare block length fits terminated =>
      have live : heap.block p = some old := by rw [block, Function.update_self]
      obtain ⟨heap', freed, after⟩ := Heap.free_live live
      refine ⟨heap', freed, ?_⟩
      rw [after, block, Function.update_idem, ← spare, Function.update_eq_self]

/-- The start of a download. -/
def begun (fetch : Fetch) (base : Heap) : MemoryStruct × Heap :=
  (⟨(base.malloc fetch.initial 1).1, 0⟩, (base.malloc fetch.initial 1).2)

/-- Without a handle a download ends at once. -/
theorem fetchGtfsData_noHandle {fetch : Fetch} (outSize : Nat) (base : Heap)
    (none_ : fetch.handle = false) : ∃ heap,
      fetchGtfsData fetch outSize base = .ok (none, outSize, heap) ∧ heap.block = base.block := by
  obtain ⟨heap, freed, after⟩ := (holds_malloc base fetch.initial).free
  refine ⟨heap, ?_, after⟩
  simp only [fetchGtfsData, none_, freed, if_true, bind, Except.bind, pure, Except.pure]

/-- With a handle it ends as the transfer does. -/
theorem fetchGtfsData_perform {fetch : Fetch} (outSize : Nat) {base : Heap}
    (handle : fetch.handle = true) {code : Nat}
    (run : curlEasyPerform fetch.transfer (begun fetch base).1 (begun fetch base).2 =
      .ok (code, mem, heap)) (holds : Holds base fetch.initial mem heap data) :
    (code = curleOk →
      fetchGtfsData fetch outSize base = .ok (mem.memory, data.length, heap)) ∧
    (code ≠ curleOk → ∃ heap',
      fetchGtfsData fetch outSize base = .ok (none, outSize, heap') ∧
        heap'.block = base.block) := by
  have some_ : ¬ fetch.handle = false := by simp [handle]
  constructor
  · intro ok
    have good : ¬ code ≠ curleOk := not_not.mpr ok
    unfold begun at run
    rw [← holds.size_eq]
    simp only [fetchGtfsData, if_neg some_, run, if_neg good, bind, Except.bind, pure, Except.pure]
  · intro bad
    obtain ⟨heap', freed, after⟩ := holds.free
    refine ⟨heap', ?_, after⟩
    unfold begun at run
    simp only [fetchGtfsData, if_neg some_, run, if_pos bad, freed, bind, Except.bind, pure,
      Except.pure]

/-- Downloads are exact and fail whole. After any sequence of callbacks, whatever
the allocator answers, the block holds what was kept, all of it when every callback
returned the length of its chunk. One more callback computes a size that does not
wrap. When its request is granted it returns the length of its chunk and leaves it
appended, ended by a 0, in a block of one byte more than the size; otherwise it
returns 0 and changes nothing. When libcurl keeps its promise for a body, a download
returns null, with all it allocated freed again, or the whole body with its length. -/
theorem download_exact (base : Heap) :
    (∀ (initial : Grant) (calls : List (Chunk × Grant)), ∃ returns mem heap,
      callbacks calls ⟨(base.malloc initial 1).1, 0⟩ (base.malloc initial 1).2 =
        .ok (returns, mem, heap) ∧
      Holds base initial mem heap (stored [] calls) ∧
      (returns = calls.map (fun call => call.1.val.length) →
        stored [] calls = calls.flatMap fun call => call.1.val) ∧
      ∀ (chunk : Chunk) (grant : Grant),
        mem.size + chunk.val.length + 1 < 2 ^ 64 ∧
        (grant.Allows (mem.size + chunk.val.length + 1) → ∃ p heap',
          writeMemoryCallback grant chunk.val 1 chunk.val.length mem heap =
            .ok (chunk.val.length, ⟨some p, mem.size + chunk.val.length⟩, heap') ∧
          base.block p = none ∧ heap'.block =
            Function.update base.block p (some (stored [] calls ++ chunk.val ++ [0]))) ∧
        (¬ grant.Allows (mem.size + chunk.val.length + 1) →
          writeMemoryCallback grant chunk.val 1 chunk.val.length mem heap = .ok (0, mem, heap))) ∧
    ∀ (fetch : Fetch) (body : Bytes) (outSize : Nat), fetch.transfer.Honest body [] →
      (fetch.handle = false → ∃ heap,
        fetchGtfsData fetch outSize base = .ok (none, outSize, heap) ∧ heap.block = base.block) ∧
      (fetch.handle = true → ∃ code mem heap,
        curlEasyPerform fetch.transfer (begun fetch base).1 (begun fetch base).2 =
          .ok (code, mem, heap) ∧
        (code ≠ curleOk → ∃ heap', fetchGtfsData fetch outSize base = .ok (none, outSize, heap') ∧
          heap'.block = base.block) ∧
        (code = curleOk → fetchGtfsData fetch outSize base = .ok (mem.memory, body.length, heap) ∧
          Holds base fetch.initial mem heap body)) := by
  constructor
  · intro initial calls
    obtain ⟨returns, mem, heap, run, holds, all⟩ := (holds_malloc base initial).callbacks calls
    refine ⟨returns, mem, heap, run, holds, fun whole => by simpa using all whole, ?_⟩
    intro chunk grant
    obtain ⟨noWrap, after⟩ := holds.callback chunk grant
    rw [holds.size_eq] at noWrap ⊢
    rcases after with ⟨allowed, p, mem', heap', run, appended⟩ | ⟨no, run⟩
    · refine ⟨noWrap, fun _ => ⟨p, heap', ?_, appended.spare, appended.block⟩, fun no => ?_⟩
      · rw [run, appended.mem_eq, List.length_append]
      · exact absurd allowed no
    · exact ⟨noWrap, fun allowed => absurd allowed no, fun _ => run⟩
  · intro fetch body outSize honest
    refine ⟨fetchGtfsData_noHandle outSize base, fun handle => ?_⟩
    obtain ⟨code, mem, heap, data, run, holds, ends⟩ :=
      (honest_rule body).run (holds_malloc base fetch.initial) (Or.inr honest)
    obtain ⟨ok, bad⟩ := fetchGtfsData_perform outSize handle run holds
    refine ⟨code, mem, heap, run, bad, fun good => ?_⟩
    obtain rfl : data = body := by
      rcases ends with never | honest
      · exact absurd good never
      · exact honest good
    exact ⟨ok good, holds⟩

/-- The allocator grants every request in place. -/
def plenty : Grant := .stay fun _ => 0

/-- A body of two bytes in one chunk: the transfer ends well when the callback took
both. -/
def twoBytes : Fetch where
  initial := plenty
  handle := true
  transfer := .deliver ⟨[65, 66], by decide⟩ plenty fun returned =>
    .finish (if returned = 2 then curleOk else 23)

/-- The two bytes arrive. -/
theorem download_exact_two_bytes : ∃ ptr heap,
    fetchGtfsData twoBytes 7 .empty = .ok (ptr, 2, heap) ∧ ptr.isSome := by
  have honest : twoBytes.transfer.Honest [65, 66] [] := by
    refine ⟨fun _ => rfl, fun returned other => ?_⟩
    have differs : ¬ returned = 2 := other
    simp [Transfer.NeverOk, curleOk, differs]
  obtain ⟨code, mem, heap, run, -, complete⟩ :=
    ((download_exact .empty).2 twoBytes [65, 66] 7 honest).2 rfl
  have endsWell : ∃ mem heap, curlEasyPerform twoBytes.transfer (begun twoBytes .empty).1
      (begun twoBytes .empty).2 = .ok (curleOk, mem, heap) := ⟨_, _, rfl⟩
  obtain ⟨mem', heap', run'⟩ := endsWell
  obtain rfl : code = curleOk := (Prod.mk.inj (Except.ok.inj (run.symm.trans run'))).1
  obtain ⟨returned, holds⟩ := complete rfl
  refine ⟨mem.memory, heap, returned, ?_⟩
  cases holds
  rfl

end TelemetrixDb.Ingestion
