import TelemetrixDb.Foundation.Heap
import TelemetrixDb.Ring.RingBuffer

/-!
# The blocks of a ring

`buffer_init` asks for the structure and then for the records, and gives the first
block back when the second is refused. `buffer_destroy` frees both.

## Implementation notes

The size of the structure depends on the platform's mutex and condition variables,
so it is a parameter. The records of a new block are whatever was there.

-/

namespace TelemetrixDb.Ring
open CMachine

variable {V : Type}

/-- The addresses of the structure and of its records. -/
structure RingBlocks where
  ring : Nat
  data : Nat

/-- The allocator that gives a block of the requested length with these records. -/
def Malloc.ofGrant (grant : Grant) (cells : Nat → V) : Malloc V where
  alloc n := if grant.Allows n then some ⟨n, cells⟩ else none
  bytes_eq := by
    intro n b h
    split at h <;> cases h
    rfl
  limit := by
    intro n large
    cases grant with
    | refuse => rfl
    | stay junk => exact if_neg (Nat.not_lt.mpr large)
    | move junk => exact if_neg (Nat.not_lt.mpr large)

/-- The ring that `buffer_init` sets up around these records. -/
def freshRing (cells : Nat → V) (capacity : CInt) : RingBuffer V where
  data := ⟨sizeMul sizeofVehicleData capacity.toSize, cells⟩
  capacity := capacity
  head := .lit 0
  tail := .lit 0
  count := .lit 0
  shutdown := false

variable (sizeofRingBuffer : Nat)

/-- `buffer_init` with the allocator's answers to its two requests. -/
def bufferInitOn (h : Heap) (first second : Grant) (cells : Nat → V) (capacity : CInt) :
    Except HeapFault (Option (RingBlocks × RingBuffer V) × Heap) :=
  match h.malloc first sizeofRingBuffer with
  | (none, h) => return (none, h)
  | (some ring, h) =>
      match h.malloc second (sizeMul sizeofVehicleData capacity.toSize) with
      | (none, h) => do
          let h ← h.free (some ring)
          return (none, h)
      | (some data, h) =>
          return (some (⟨ring, data⟩, freshRing cells capacity), h)

/-- `buffer_destroy`; of a null pointer it does nothing. -/
def bufferDestroy (h : Heap) : Option RingBlocks → Except HeapFault Heap
  | none => return h
  | some blocks => do
      let h ← h.free (some blocks.data)
      h.free (some blocks.ring)

/-- What `buffer_init` does to the heap. -/
inductive Made (h : Heap) (h' : Heap) : Option (RingBlocks × RingBuffer V) → Prop
  | refused (same : h'.block = h.block) : Made h h' none
  | granted {blocks rb} (ring data : List UInt8) (ringSize : ring.length = sizeofRingBuffer)
      (dataSize : data.length = rb.data.bytes) (newRing : h.block blocks.ring = none)
      (newData : h.block blocks.data = none) (apart : blocks.data ≠ blocks.ring)
      (live : h'.block = Function.update (Function.update h.block blocks.ring (some ring))
        blocks.data (some data)) : Made h h' (some (blocks, rb))

variable {sizeofRingBuffer} {h h' : Heap}

/-- `buffer_init` never faults, makes a ring exactly when both requests are granted,
and keeps no block otherwise. -/
theorem bufferInitOn_made (sizeofRingBuffer : Nat) (h : Heap) (first second : Grant)
    (cells : Nat → V) (capacity : CInt) :
    ∃ made h', bufferInitOn sizeofRingBuffer h first second cells capacity = .ok (made, h') ∧
      Made sizeofRingBuffer h h' made ∧
      made.map Prod.snd =
        bufferInit (decide (first.Allows sizeofRingBuffer)) (.ofGrant second cells) capacity := by
  rcases h.malloc_cases first sizeofRingBuffer with
    ⟨allowed, ring, h₁, ringMade, newRing, block₁⟩ | ⟨refused, ringMade⟩
  · rcases h₁.malloc_cases second (sizeMul sizeofVehicleData capacity.toSize) with
      ⟨allowed', data, h₂, dataMade, newData, block₂⟩ | ⟨refused', dataMade⟩
    · have apart : data ≠ ring := by
        rintro rfl
        simp [block₁] at newData
      have fresh : h.block data = none := by
        rwa [block₁, Function.update_of_ne apart] at newData
      refine ⟨some (⟨ring, data⟩, freshRing cells capacity), h₂, ?_,
        .granted _ _ (length_resized _ _ first.junk) ?_ newRing fresh apart (block₁ ▸ block₂), ?_⟩
      · rw [bufferInitOn, ringMade]
        dsimp only
        rw [dataMade]
        rfl
      · exact length_resized _ _ second.junk
      · simp [bufferInit, allowed, Malloc.ofGrant, allowed', freshRing]
    · have live : h₁.block ring = some (resized [] sizeofRingBuffer first.junk) := by simp [block₁]
      obtain ⟨h₂, freed, block₂⟩ := Heap.free_live live
      refine ⟨none, h₂, ?_, Made.refused ?_, ?_⟩
      · rw [bufferInitOn, ringMade]
        dsimp only
        rw [dataMade]
        dsimp only
        rw [freed]
        rfl
      · rw [block₂, block₁, Function.update_idem, ← newRing, Function.update_eq_self]
      · simp [bufferInit, allowed, Malloc.ofGrant, refused']
  · refine ⟨none, h, ?_, .refused rfl, ?_⟩
    · rw [bufferInitOn, ringMade]
      rfl
    · simp [bufferInit, refused]

/-- A ring that was made is the fresh ring. -/
theorem made_of_init {made : Heap} {first second : Grant} {cells : Nat → V} {capacity : CInt}
    {blocks : RingBlocks} {rb : RingBuffer V}
    (init : bufferInitOn sizeofRingBuffer h first second cells capacity =
      .ok (some (blocks, rb), made)) :
    Made sizeofRingBuffer h made (some (blocks, rb)) ∧
      ∃ structAllocated malloc, bufferInit structAllocated malloc capacity = some rb := by
  obtain ⟨result, after, ran, isMade, ring⟩ :=
    bufferInitOn_made sizeofRingBuffer h first second cells capacity
  obtain ⟨rfl, rfl⟩ := Prod.mk.inj (Except.ok.inj (init.symm.trans ran))
  exact ⟨isMade, _, _, ring.symm⟩

/-- Both blocks of a ring just made are live, that of the records with their size. -/
theorem Made.live {blocks : RingBlocks} {rb : RingBuffer V}
    (made : Made sizeofRingBuffer h h' (some (blocks, rb))) :
    (h'.block blocks.ring).isSome ∧
      (h'.block blocks.data).map List.length = some rb.data.bytes := by
  cases made with
  | granted ring data _ dataSize _ _ apart live =>
      rw [live, Function.update_of_ne (Ne.symm apart), Function.update_self, Function.update_self]
      exact ⟨rfl, congrArg some dataSize⟩

/-- What destroying a ring just made leaves. -/
theorem Made.destroyed {blocks : RingBlocks} {rb : RingBuffer V}
    (made : Made sizeofRingBuffer h h' (some (blocks, rb))) :
    ∃ h'', bufferDestroy h' (some blocks) = .ok h'' ∧ h''.block = h.block := by
  cases made with
  | granted ring data _ _ newRing newData apart live =>
      have dataLive : h'.block blocks.data = some data := by simp [live]
      obtain ⟨h₁, freed, block₁⟩ := Heap.free_live dataLive
      have untouched : Function.update h.block blocks.ring (some ring) blocks.data = none := by
        rw [Function.update_of_ne apart, newData]
      have without : h₁.block = Function.update h.block blocks.ring (some ring) := by
        rw [block₁, live, Function.update_idem, ← untouched, Function.update_eq_self]
      have ringLive : h₁.block blocks.ring = some ring := by rw [without, Function.update_self]
      obtain ⟨h₂, freed', block₂⟩ := Heap.free_live ringLive
      refine ⟨h₂, ?_, ?_⟩
      · rw [bufferDestroy, freed]
        exact freed'
      · rw [block₂, without, Function.update_idem, ← newRing, Function.update_eq_self]

end TelemetrixDb.Ring
