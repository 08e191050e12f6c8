import TelemetrixDb.Ring.Refinement

/-!
# The arithmetic of the ring is safe for every capacity

`buffer_init` tests nothing, so what keeps the ring safe is spread out: a
negative capacity asks `malloc` for more than it can give, a ring of capacity 0
is full and empty at once, and any other ring keeps its indices in range.

-/

namespace TelemetrixDb.Ring
open CMachine Monitor Transition

variable {V : Type} {cap tail : Nat} {rb : RingBuffer V} {items : List V}
variable {structAllocated : Bool} {malloc : Malloc V} {capacity : CInt} {rb₀ : RingBuffer V}

/-- Converted to `size_t`, a negative capacity asks for more than half of the
address space. -/
theorem size_of_negative (h : capacity.val < 0) :
    2 ^ 63 ≤ sizeMul sizeofVehicleData capacity.toSize := by
  have hmin := capacity.min_le
  unfold intMin at hmin
  have wrapped : capacity.val % 2 ^ 64 = 2 ^ 64 + capacity.val := by omega
  have product : sizeofVehicleData * (2 ^ 64 + capacity.val).toNat =
      119 * 2 ^ 64 + (2 ^ 64 + 120 * capacity.val).toNat := by
    unfold sizeofVehicleData
    omega
  rw [sizeMul, CInt.toSize, wrapped, product, Nat.mul_add_mod_self_right, Nat.mod_eq_of_lt]
  · omega
  · omega

theorem capacity_nonneg (init : bufferInit structAllocated malloc capacity = some rb₀) :
    0 ≤ capacity.val := by
  by_contra negative
  have refused := malloc.limit (size_of_negative (by omega : capacity.val < 0))
  unfold bufferInit at init
  rw [refused] at init
  split at init <;> cases init

/-- The product of sizes is the mathematical one. -/
theorem size_exact (h : 0 ≤ capacity.val) :
    (sizeMul sizeofVehicleData capacity.toSize : Int) = sizeofVehicleData * capacity.val := by
  have hmax := capacity.le_max
  unfold intMax at hmax
  rw [sizeMul, CInt.toSize, sizeofVehicleData]
  omega

/-- What a push evaluates once it is past its tests: a store at `head`, a
remainder by `capacity`, and two increments. -/
structure PushSafe (rb : RingBuffer V) : Prop where
  capacity_ne_zero : rb.capacity.val ≠ 0
  inBounds : rb.data.InBounds sizeofVehicleData rb.head
  head_fits : rb.head.val + 1 ≤ intMax
  count_fits : rb.count.val + 1 ≤ intMax

/-- What a pop evaluates once it is past its tests: a load at `tail`, a
remainder by `capacity`, an increment and a decrement. -/
structure PopSafe (rb : RingBuffer V) : Prop where
  capacity_ne_zero : rb.capacity.val ≠ 0
  inBounds : rb.data.InBounds sizeofVehicleData rb.tail
  tail_fits : rb.tail.val + 1 ≤ intMax
  count_pos : 1 ≤ rb.count.val

namespace Represents

theorem pushSafe (h : Represents rb cap tail items) (room : rb.count ≠ rb.capacity) :
    PushSafe rb := by
  have hmax := rb.capacity.le_max
  have hlt : items.length < cap :=
    Nat.lt_of_le_of_ne h.count_le fun full => room (h.count_eq_capacity.mpr full)
  have hslot : CircularIndex.slot cap tail items.length < cap :=
    CircularIndex.slot_lt (Nat.zero_lt_of_lt hlt)
  rw [h.capacity_eq] at hmax
  constructor
  · rw [h.capacity_eq]
    omega
  · exact Block.inBounds_nat h.bytes_eq h.head_eq hslot
  · rw [h.head_eq]
    omega
  · rw [h.count_eq]
    omega

theorem popSafe (h : Represents rb cap tail items) (nonempty : rb.count ≠ .lit 0) :
    PopSafe rb := by
  have hmax := rb.capacity.le_max
  have hne : items.length ≠ 0 := fun none =>
    nonempty (h.count_eq_zero.mpr (List.length_eq_zero_iff.mp none))
  have hle := h.count_le
  have htail : tail < cap := by
    rcases h.tail_lt with lt | ⟨zero, -⟩
    · exact lt
    · omega
  rw [h.capacity_eq] at hmax
  constructor
  · rw [h.capacity_eq]
    omega
  · exact Block.inBounds_nat h.bytes_eq h.tail_eq htail
  · rw [h.tail_eq]
    omega
  · rw [h.count_eq]
    omega

end Represents

section Runs

variable {T : Type*} [DecidableEq T] {σ : Config (RingBuffer V) T (Call V) Cond}
variable {es : List (RingEvent T V)}

/-- For every capacity for which `buffer_init` succeeds, and in every state that
any threads reach: no section faults. The size of the block did not wrap, the
count is not negative, and a push or pop that is past its tests divides by a
capacity that is not 0, accesses a record inside the block, and increments
without overflow. -/
theorem ring_arithmetic_safe
    (init : bufferInit structAllocated malloc capacity = some rb₀)
    (run : Run (Step body) (Config.start rb₀) es σ) :
    (sizeMul sizeofVehicleData capacity.toSize : Int) = sizeofVehicleData * capacity.val ∧
    (σ.shared.capacity = capacity ∧
      σ.shared.data.bytes = sizeMul sizeofVehicleData capacity.toSize) ∧
    (∀ call, ∃ o, body σ.shared call = .ok o) ∧
    0 ≤ σ.shared.count.val ∧
    (σ.shared.count ≠ σ.shared.capacity → PushSafe σ.shared) ∧
    (σ.shared.count ≠ .lit 0 → PopSafe σ.shared) := by
  have nonneg := capacity_nonneg init
  obtain ⟨cap, hcap⟩ := Int.eq_ofNat_of_zero_le nonneg
  obtain ⟨q, related, -⟩ := run_abstracts hcap init run
  obtain ⟨⟨tail, h⟩, -⟩ := id related
  have exact_ := size_exact nonneg
  refine ⟨exact_, ⟨?_, ?_⟩, ?_, ?_, h.pushSafe, h.popSafe⟩
  · exact CInt.ext (h.capacity_eq.trans hcap.symm)
  · rw [hcap] at exact_
    rw [h.bytes_eq]
    exact_mod_cast exact_.symm
  · intro call
    obtain ⟨o, -, run, -⟩ := body_refines related call
    exact ⟨o, run⟩
  · rw [h.count_eq]
    exact Int.natCast_nonneg _

end Runs

/-- A ring of capacity 0 whose block `malloc` granted: after a shutdown, too, no
section faults. -/
theorem ring_arithmetic_safe_empty :
    ∃ rb : RingBuffer Nat, bufferInit true (.granting 0) (.lit 0) = some rb ∧
      ∀ call, ∃ o, body { rb with shutdown := true } call = .ok o := by
  have granted : ∃ rb, bufferInit true (Malloc.granting 0) (.lit 0) = some rb := ⟨_, rfl⟩
  obtain ⟨rb, init⟩ := granted
  have shutdown : body rb .signalShutdown =
      .ok (.done { rb with shutdown := true } () fun _ => .broadcast) := rfl
  exact ⟨rb, init, (ring_arithmetic_safe init (solo_call true shutdown)).2.2.1⟩

end TelemetrixDb.Ring
