import TelemetrixDb.Foundation.CircularIndex
import TelemetrixDb.Ring.ClosableQueue

/-!
# The ring buffer implements the closable queue

The ring represents a queue when its indices and its count describe the queue's
records on the circle of slots. Every section of `buffer.c` keeps this relation,
never fails, and ends as the abstract section does.

-/

namespace TelemetrixDb.Ring
open CMachine Monitor Transition CircularIndex

variable {V : Type} {cap tail : Nat} {rb : RingBuffer V} {items : List V}

/-- The fields of the ring hold these records, the oldest in slot `tail`. A
ring of capacity 0 has all its indices at 0. -/
structure Represents (rb : RingBuffer V) (cap tail : Nat) (items : List V) : Prop where
  capacity_eq : rb.capacity.val = cap
  tail_eq : rb.tail.val = tail
  tail_lt : tail < cap ∨ cap = 0 ∧ tail = 0
  count_eq : rb.count.val = items.length
  count_le : items.length ≤ cap
  head_eq : rb.head.val = slot cap tail items.length
  bytes_eq : rb.data.bytes = sizeofVehicleData * cap
  cells : ∀ i (h : i < items.length), rb.data.cell (slot cap tail i) = items[i]

/-- A successful `buffer_init` with a capacity that is not negative is empty. -/
theorem bufferInit_represents {structAllocated : Bool} {malloc : Malloc V} {capacity : CInt}
    (hcap : capacity.val = cap) (h : bufferInit structAllocated malloc capacity = some rb) :
    Represents rb cap 0 [] ∧ rb.shutdown = false := by
  have hmax := capacity.le_max
  have size : sizeMul sizeofVehicleData capacity.toSize = sizeofVehicleData * cap := by
    rw [CInt.toSize_nat hcap, sizeMul]
    apply Nat.mod_eq_of_lt
    unfold sizeofVehicleData intMax at *
    omega
  unfold bufferInit at h
  split at h
  · split at h
    · cases h
    · next data halloc =>
        cases h
        refine ⟨?_, rfl⟩
        exact
          { capacity_eq := hcap
            tail_eq := rfl
            tail_lt := by omega
            count_eq := rfl
            count_le := Nat.zero_le cap
            head_eq := by simp [slot]
            bytes_eq := (malloc.bytes_eq halloc).trans size
            cells := by simp }
  · cases h

namespace Represents

/-- The loop test of `buffer_push`. -/
theorem count_eq_capacity (h : Represents rb cap tail items) :
    rb.count = rb.capacity ↔ items.length = cap := by
  rw [CInt.ext_iff, h.count_eq, h.capacity_eq]
  omega

/-- The loop test of `buffer_pop`. -/
theorem count_eq_zero (h : Represents rb cap tail items) :
    rb.count = .lit 0 ↔ items = [] := by
  rw [CInt.ext_iff, h.count_eq, CInt.lit_val, ← List.length_eq_zero_iff]
  omega

/-- With room left, the body of `buffer_push` appends the record. -/
theorem push (h : Represents rb cap tail items) (room : items.length < cap)
    (isOpen : rb.shutdown = false) (item : V) :
    ∃ rb', bufferPush rb item = .ok (.done rb' true (signalTo .notEmpty)) ∧
      Represents rb' cap tail (items ++ [item]) ∧ rb'.shutdown = false := by
  have hmax := rb.capacity.le_max
  rw [h.capacity_eq] at hmax
  have hcap : 0 < cap := by omega
  have hslot : slot cap tail items.length < cap := slot_lt hcap
  obtain ⟨next, hnext, nextVal⟩ :=
    CInt.add_nat h.head_eq CInt.lit_one_val (by omega)
  obtain ⟨head, hhead, headVal⟩ := CInt.rem_nat nextVal h.capacity_eq hcap
  obtain ⟨count, hcount, countVal⟩ :=
    CInt.add_nat h.count_eq CInt.lit_one_val (by omega)
  have inBounds := Block.inBounds_nat h.bytes_eq h.head_eq hslot
  let data : Block V :=
    { rb.data with cell := Function.update rb.data.cell rb.head.val.toNat item }
  refine ⟨{ rb with data, head, count }, ?_, ?_, isOpen⟩
  · rw [bufferPush, if_neg (by rw [h.count_eq_capacity]; omega), if_neg (by simp [isOpen]),
      Block.write, if_pos inBounds]
    simp only [Bind.bind, Except.bind, hnext, hhead, hcount]
    rfl
  · exact
      { capacity_eq := h.capacity_eq
        tail_eq := h.tail_eq
        tail_lt := h.tail_lt
        count_eq := by simpa using countVal
        count_le := by simpa using Nat.succ_le_of_lt room
        head_eq := by simpa [slot_succ] using headVal
        bytes_eq := h.bytes_eq
        cells := by
          intro i hi
          rw [List.length_append, List.length_singleton] at hi
          change Function.update rb.data.cell rb.head.val.toNat item (slot cap tail i) = _
          rw [h.head_eq, Int.toNat_natCast]
          rcases Nat.lt_succ_iff_lt_or_eq.mp hi with old | rfl
          · have fresh : slot cap tail i ≠ slot cap tail items.length := fun heq =>
              absurd (slot_inj (by omega) room heq) (by omega)
            rw [Function.update_of_ne fresh, h.cells i old, List.getElem_append_left old]
          · simp }

/-- With a record left, the body of `buffer_pop` takes the oldest. -/
theorem pop {oldest : V} (h : Represents rb cap tail (oldest :: items)) (item : V) :
    ∃ rb', bufferPop rb item = .ok (.done rb' (true, oldest) (signalTo .notFull)) ∧
      Represents rb' cap ((tail + 1) % cap) items ∧ rb'.shutdown = rb.shutdown := by
  have hmax := rb.capacity.le_max
  rw [h.capacity_eq] at hmax
  have hcount := h.count_le
  rw [List.length_cons] at hcount
  have hcap : 0 < cap := by omega
  have htail : tail < cap := by
    rcases h.tail_lt with lt | ⟨zero, -⟩
    · exact lt
    · omega
  obtain ⟨next, hnext, nextVal⟩ :=
    CInt.add_nat h.tail_eq CInt.lit_one_val (by omega)
  obtain ⟨newTail, hnewTail, newTailVal⟩ := CInt.rem_nat nextVal h.capacity_eq hcap
  obtain ⟨count, hcount', countVal⟩ :=
    CInt.sub_nat h.count_eq CInt.lit_one_val (by simp)
  have inBounds := Block.inBounds_nat h.bytes_eq h.tail_eq htail
  have first : rb.data.cell tail = oldest := by
    have cell := h.cells 0 (by simp)
    rwa [slot_zero htail] at cell
  refine ⟨{ rb with tail := newTail, count }, ?_, ?_, rfl⟩
  · have nonempty : ¬ rb.count = .lit 0 := by simp [h.count_eq_zero]
    rw [bufferPop, if_neg (fun hc => nonempty hc.1), if_neg (fun hc => nonempty hc.2),
      Block.read, if_pos inBounds, h.tail_eq]
    simp only [Bind.bind, Except.bind, hnext, hnewTail, hcount', Int.toNat_natCast, first]
    rfl
  · exact
      { capacity_eq := h.capacity_eq
        tail_eq := newTailVal
        tail_lt := Or.inl (Nat.mod_lt _ hcap)
        count_eq := by simpa using countVal
        count_le := by omega
        head_eq := by simpa [slot_advance] using h.head_eq
        bytes_eq := h.bytes_eq
        cells := by
          intro i hi
          rw [slot_advance]
          exact h.cells (i + 1) (Nat.succ_lt_succ hi) }

end Represents

/-- The ring stands for the queue with these records and this flag. -/
def Abstracts (rb : RingBuffer V) (q : ClosableQueue V cap) : Prop :=
  (∃ tail, Represents rb cap tail q.items) ∧ rb.shutdown = q.closed

/-- The sections of `buffer.c` refine those of the closable queue. -/
theorem body_refines :
    Refines (body : RingBuffer V → (call : Call V) → _)
      (ClosableQueue.body : ClosableQueue V cap → (call : Call V) → _) Abstracts := by
  rintro rb q ⟨⟨tail, h⟩, flag⟩ call
  have same : Abstracts rb q := ⟨⟨tail, h⟩, flag⟩
  cases call with
  | push item =>
      by_cases closed : q.closed = true
      · refine ⟨_, _, ?_, congrArg Except.ok (ClosableQueue.push_closed closed item),
          .done same _ _⟩
        rw [body, bufferPush, if_neg (by simp [flag, closed]), if_pos (by simp [flag, closed])]
        rfl
      · have isOpen : q.closed = false := by simpa using closed
        by_cases room : q.items.length < cap
        · obtain ⟨rb', run, after, isOpen'⟩ := h.push room (flag.trans isOpen) item
          exact ⟨_, _, run, congrArg Except.ok (ClosableQueue.push_open isOpen room item),
            .done ⟨⟨tail, after⟩, isOpen'.trans isOpen.symm⟩ _ _⟩
        · have full : q.items.length = cap := le_antisymm h.count_le (by omega)
          refine ⟨_, _, ?_, congrArg Except.ok (ClosableQueue.push_full isOpen full item),
            .wait _⟩
          rw [body, bufferPush, if_pos ⟨h.count_eq_capacity.mpr full, flag.trans isOpen⟩]
          rfl
  | pop item =>
      cases items : q.items with
      | nil =>
          have empty : rb.count = .lit 0 := h.count_eq_zero.mpr items
          by_cases closed : q.closed = true
          · refine ⟨_, _, ?_, congrArg Except.ok (ClosableQueue.pop_drained closed items item),
              .done same _ _⟩
            rw [body, bufferPop, if_neg (by simp [flag, closed]),
              if_pos ⟨flag.trans closed, empty⟩]
            rfl
          · have isOpen : q.closed = false := by simpa using closed
            refine ⟨_, _, ?_, congrArg Except.ok (ClosableQueue.pop_empty isOpen items item),
              .wait _⟩
            rw [body, bufferPop, if_pos ⟨empty, flag.trans isOpen⟩]
            rfl
      | cons oldest rest =>
          obtain ⟨q', hq', items', closed'⟩ := ClosableQueue.pop_cons items item
          obtain ⟨rb', run, after, flag'⟩ := (items ▸ h).pop item
          exact ⟨_, _, run, congrArg Except.ok hq',
            .done ⟨⟨_, items' ▸ after⟩, by rw [flag', flag, closed']⟩ _ _⟩
  | signalShutdown => exact ⟨_, _, rfl, rfl, .done ⟨⟨tail, { h with }⟩, rfl⟩ _ _⟩
  | isShutdown => exact ⟨_, _, rfl, by rw [ClosableQueue.body, ← flag], .done same _ _⟩

section Runs

variable {T : Type*} [DecidableEq T] {structAllocated : Bool} {malloc : Malloc V}
variable {capacity : CInt} {rb₀ : RingBuffer V}
variable {σ τ : Config (RingBuffer V) T (Call V) Cond} {es : List (RingEvent T V)}

/-- Every run of the threads on a fresh ring is a run of the same threads, with
the same events, on the empty closable queue. -/
theorem run_abstracts (hcap : capacity.val = cap)
    (init : bufferInit structAllocated malloc capacity = some rb₀)
    (run : Run (Step body) (Config.start rb₀) es σ) :
    ∃ q : ClosableQueue V cap, Abstracts σ.shared q ∧
      Run (Step ClosableQueue.body) (Config.start (.empty cap)) es ⟨q, σ.phase⟩ := by
  obtain ⟨represents, isOpen⟩ := bufferInit_represents hcap init
  exact body_refines.run run (a := .empty cap) ⟨⟨0, represents⟩, isOpen⟩

/-- The records held are those accepted and not yet returned. -/
theorem run_items (hcap : capacity.val = cap)
    (init : bufferInit structAllocated malloc capacity = some rb₀)
    (run : Run (Step body) (Config.start rb₀) es σ) :
    ∃ tail items, Represents σ.shared cap tail items ∧
      accepted es = returned es ++ items := by
  obtain ⟨q, ⟨⟨tail, represents⟩, -⟩, abstractRun⟩ := run_abstracts hcap init run
  exact ⟨tail, q.items, represents, by simpa using ClosableQueue.items_run abstractRun⟩

/-- The ring is a bounded FIFO queue under any number of producers and
consumers: its indices stay in range and in step, the `count` slots from `tail`
hold the accepted records that no pop has returned, so the returned records are
a prefix of the accepted ones, and a call that returns false changes nothing. The
run is one of the same threads, with the same answers, on the closable queue, which
then holds these records. -/
theorem ring_refines_fifo (hcap : 1 ≤ capacity.val)
    (init : bufferInit structAllocated malloc capacity = some rb₀)
    (run : Run (Step body) (Config.start rb₀) es σ) :
    (0 ≤ σ.shared.head.val ∧ σ.shared.head.val < capacity.val) ∧
    (0 ≤ σ.shared.tail.val ∧ σ.shared.tail.val < capacity.val) ∧
    (0 ≤ σ.shared.count.val ∧ σ.shared.count.val ≤ capacity.val) ∧
    σ.shared.head.val = (σ.shared.tail.val + σ.shared.count.val) % capacity.val ∧
    (∃ items : List V, accepted es = returned es ++ items ∧
      σ.shared.count.val = items.length ∧
      (∀ i (h : i < items.length),
        σ.shared.data.cell ((σ.shared.tail.val + i) % capacity.val).toNat = items[i]) ∧
      ∃ q : ClosableQueue V capacity.val.toNat, q.items = items ∧
        q.closed = σ.shared.shutdown ∧
        Run (Step ClosableQueue.body) (Config.start (.empty capacity.val.toNat)) es
          ⟨q, σ.phase⟩) ∧
    returned es <+: accepted es ∧
    (∀ {t item τ}, Step body σ (.returns t (.push item) false) τ → τ.shared = σ.shared) ∧
    (∀ {t item result τ}, Step body σ (.returns t (.pop item) (false, result)) τ →
      τ.shared = σ.shared ∧ result = item) := by
  have hcap' : capacity.val = (capacity.val.toNat : Int) := by omega
  generalize capacity.val.toNat = cap at hcap'
  obtain ⟨q, ⟨⟨tail, h⟩, flag⟩, abstractRun⟩ := run_abstracts hcap' init run
  have split : accepted es = returned es ++ q.items := by
    simpa using ClosableQueue.items_run abstractRun
  have pos : 0 < cap := by omega
  have headLt : slot cap tail q.items.length < cap := slot_lt pos
  have tailLt : tail < cap := by
    rcases h.tail_lt with lt | ⟨zero, -⟩
    · exact lt
    · omega
  have countLe := h.count_le
  rw [h.head_eq, h.tail_eq, h.count_eq, hcap']
  refine ⟨by omega, by omega, by omega, ?_,
    ⟨q.items, split, rfl, ?_, q, rfl, flag.symm, abstractRun⟩, ⟨q.items, split.symm⟩, ?_, ?_⟩
  · rw [slot]
    push_cast
    rfl
  · intro i hi
    have position : (((tail : Int) + i) % (cap : Int)).toNat = slot cap tail i := by
      rw [slot, ← Int.toNat_natCast ((tail + i) % cap)]
      push_cast
      rfl
    rw [position]
    exact h.cells i hi
  · intro t item τ step
    cases step with
    | returns _ run _ => exact (bufferPush_refused run).2
  · intro t item result τ step
    cases step with
    | returns _ run _ => exact (bufferPop_refused run).2.2

end Runs

/-- A ring with one slot. -/
def oneSlot (cells : Nat → Nat) (count : CInt) (shutdown : Bool) : RingBuffer Nat :=
  { data := ⟨120, cells⟩, capacity := .lit 1, head := .lit 0, tail := .lit 0, count, shutdown }

theorem oneSlot_init :
    bufferInit true (.granting 0) (.lit 1) = some (oneSlot (fun _ => 0) (.lit 0) false) := rfl

theorem oneSlot_push : body (oneSlot (fun _ => 0) (.lit 0) false) (.push 7) =
    .ok (.done (oneSlot (Function.update (fun _ => 0) 0 7) (.lit 1) false) true
      (signalTo .notEmpty)) := rfl

/-- One thread pushes 7 into a ring made with one slot, which then stands for the queue
of one slot that holds 7. -/
theorem ring_refines_fifo_one_slot :
    ∃ rb, bufferInit true (.granting 0) (.lit 1) = some rb ∧
      ∃ σ : Config (RingBuffer Nat) Bool (Call Nat) Cond,
        Run (Step body) (Config.start rb)
          [.call true (.push 7), .returns true (.push 7) true] σ ∧
        σ.shared.count.val = 1 ∧ ∃ q : ClosableQueue Nat 1, q.items = [7] ∧
          Run (Step ClosableQueue.body) (Config.start (.empty 1))
            [.call true (.push 7), .returns true (.push 7) true] ⟨q, σ.phase⟩ := by
  have run := solo_call true oneSlot_push
  have h := ring_refines_fifo (by decide) oneSlot_init run
  obtain ⟨items, split, -, -, q, held, -, abstractRun⟩ := h.2.2.2.2.1
  exact ⟨_, oneSlot_init, _, run, rfl, q, held.trans split.symm, abstractRun⟩

end TelemetrixDb.Ring
