import TelemetrixDb.Foundation.CMachine
import Mathlib.Data.List.Basic

/-!
# A heap of byte blocks

Addresses are never used twice, so an address whose block was freed stays dead: a
second `free` and every access through it are faults, and the blocks that are live
are those that were allocated and not freed.

-/

namespace TelemetrixDb

/-- What goes wrong with a pointer. -/
inductive HeapFault
  | notLive
  | outOfBounds
  deriving DecidableEq

/-- The blocks at the addresses given out so far, without those freed. -/
structure Heap where
  blocks : List (Option (List UInt8))

/-- The allocator's answer to a request: none, in place, or elsewhere. New bytes
hold anything. -/
inductive Grant
  | refuse
  | stay (junk : Nat → UInt8)
  | move (junk : Nat → UInt8)

/-- A request is answered with a block; no block is longer than `PTRDIFF_MAX`. -/
def Grant.Allows (n : Nat) : Grant → Prop
  | .refuse => False
  | .stay _ | .move _ => n < 2 ^ 63

instance (n : Nat) : DecidablePred (Grant.Allows n) := fun grant => by
  cases grant <;> unfold Grant.Allows <;> infer_instance

/-- What the new bytes of a block hold. -/
def Grant.junk : Grant → Nat → UInt8
  | .refuse, _ => 0
  | .stay junk, i | .move junk, i => junk i

/-- A block of `n` bytes that keeps what it can of another. -/
def resized (old : List UInt8) (n : Nat) (junk : Nat → UInt8) : List UInt8 :=
  (List.range n).map fun i => old.getD i (junk i)

@[simp] theorem length_resized (old : List UInt8) (n : Nat) (junk : Nat → UInt8) :
    (resized old n junk).length = n := by simp [resized]

theorem take_resized {old : List UInt8} {n : Nat} (h : old.length ≤ n) (junk : Nat → UInt8) :
    (resized old n junk).take old.length = old := by
  apply List.ext_getElem
  · simp [h]
  · intro i hi hi'
    simp [resized, hi']

namespace Heap

/-- No block is live. -/
def empty : Heap := ⟨[]⟩

/-- The live block at an address. -/
def block (h : Heap) (p : Nat) : Option (List UInt8) := h.blocks[p]?.join

/-- The heap with a block at the next address. -/
def add (h : Heap) (bytes : List UInt8) : Heap := ⟨h.blocks ++ [some bytes]⟩

def set (h : Heap) (p : Nat) (b : Option (List UInt8)) : Heap := ⟨h.blocks.set p b⟩

/-- `malloc(n)`. -/
def malloc (h : Heap) (grant : Grant) (n : Nat) : Option Nat × Heap :=
  if grant.Allows n then (some h.blocks.length, h.add (resized [] n grant.junk)) else (none, h)

/-- `free`; of a null pointer it does nothing. -/
def free (h : Heap) : Option Nat → Except HeapFault Heap
  | none => .ok h
  | some p => if (h.block p).isSome then .ok (h.set p none) else .error .notLive

/-- A request for a block at `p` of another length: in place or elsewhere, with
what the block holds. -/
def resize (h : Heap) (grant : Grant) (p : Nat) (old : List UInt8) (n : Nat) : Option Nat × Heap :=
  if grant.Allows n then
    match grant with
    | .move _ => (some h.blocks.length, (h.set p none).add (resized old n grant.junk))
    | _ => (some p, h.set p (some (resized old n grant.junk)))
  else (none, h)

/-- `realloc`; of a null pointer it is `malloc`, and a refusal leaves the block. -/
def realloc (h : Heap) (grant : Grant) (ptr : Option Nat) (n : Nat) :
    Except HeapFault (Option Nat × Heap) :=
  match ptr with
  | none => .ok (h.malloc grant n)
  | some p =>
      match h.block p with
      | none => .error .notLive
      | some old => .ok (h.resize grant p old n)

/-- Bytes copied into a block from position `i` on. -/
def store (h : Heap) (p i : Nat) (bytes : List UInt8) : Except HeapFault Heap :=
  match h.block p with
  | none => .error .notLive
  | some b =>
      if i + bytes.length ≤ b.length then
        .ok (h.set p (some (b.take i ++ bytes ++ b.drop (i + bytes.length))))
      else .error .outOfBounds

/-- The first `n` bytes of a block. -/
def load (h : Heap) (p n : Nat) : Except HeapFault (List UInt8) :=
  match h.block p with
  | none => .error .notLive
  | some b => if n ≤ b.length then .ok (b.take n) else .error .outOfBounds

variable {h : Heap} {p n : Nat} {b : List UInt8} {grant : Grant}

theorem block_length (h : Heap) : h.block h.blocks.length = none := by simp [block]

theorem lt_length_of_block (live : h.block p = some b) : p < h.blocks.length := by
  by_contra outside
  rw [block, List.getElem?_eq_none (Nat.not_lt.mp outside)] at live
  cases live

@[simp] theorem block_add (h : Heap) (b : List UInt8) :
    (h.add b).block = Function.update h.block h.blocks.length (some b) := by
  funext q
  by_cases hq : q = h.blocks.length
  · subst hq
    simp [block, add]
  · rw [Function.update_of_ne hq, block, block, add]
    rcases Nat.lt_or_gt_of_ne hq with before | beyond
    · rw [List.getElem?_append_left before]
    · rw [List.getElem?_eq_none (by rw [List.length_append, List.length_singleton]; omega),
        List.getElem?_eq_none (Nat.le_of_lt beyond)]

theorem block_set (inside : p < h.blocks.length) (v : Option (List UInt8)) :
    (h.set p v).block = Function.update h.block p v := by
  funext q
  by_cases hq : q = p
  · subst hq
    simp [block, set, inside]
  · rw [Function.update_of_ne hq, block, block, set, List.getElem?_set_ne (Ne.symm hq)]

@[simp] theorem length_set (h : Heap) (p : Nat) (v : Option (List UInt8)) :
    (h.set p v).blocks.length = h.blocks.length := by simp [set]

/-- What `malloc` does. -/
theorem malloc_cases (h : Heap) (grant : Grant) (n : Nat) :
    (grant.Allows n ∧ ∃ p h', h.malloc grant n = (some p, h') ∧ h.block p = none ∧
        h'.block = Function.update h.block p (some (resized [] n grant.junk))) ∨
      (¬ grant.Allows n ∧ h.malloc grant n = (none, h)) := by
  by_cases allowed : grant.Allows n
  · exact Or.inl ⟨allowed, h.blocks.length, h.add _, if_pos allowed, h.block_length, h.block_add _⟩
  · exact Or.inr ⟨allowed, if_neg allowed⟩

theorem isSome_malloc (h : Heap) (grant : Grant) (n : Nat) :
    (h.malloc grant n).1.isSome = decide (grant.Allows n) := by
  unfold malloc
  split <;> simp_all

/-- What `realloc` does to a live block: the block moves or stays, keeps what fits,
and nothing else changes; or nothing happens. -/
theorem realloc_cases (live : h.block p = some b) (grant : Grant) (n : Nat) :
    (grant.Allows n ∧ ∃ q h', h.realloc grant (some p) n = .ok (some q, h') ∧
        (q = p ∨ h.block q = none) ∧ h'.block =
          Function.update (Function.update h.block p none) q (some (resized b n grant.junk))) ∨
      (¬ grant.Allows n ∧ h.realloc grant (some p) n = .ok (none, h)) := by
  have inside := lt_length_of_block live
  have answer : h.realloc grant (some p) n = .ok (h.resize grant p b n) := by
    simp only [realloc, live]
  rw [answer]
  unfold resize
  by_cases allowed : grant.Allows n
  · refine Or.inl ⟨allowed, ?_⟩
    rw [if_pos allowed]
    cases grant with
    | refuse => exact allowed.elim
    | stay junk =>
        refine ⟨p, _, rfl, Or.inl rfl, ?_⟩
        rw [block_set inside, Function.update_idem]
    | move junk =>
        refine ⟨h.blocks.length, _, rfl, Or.inr h.block_length, ?_⟩
        rw [block_add, block_set inside, length_set]
  · exact Or.inr ⟨allowed, by rw [if_neg allowed]⟩

theorem free_live (live : h.block p = some b) :
    ∃ h', h.free (some p) = .ok h' ∧ h'.block = Function.update h.block p none := by
  refine ⟨h.set p none, ?_, block_set (lt_length_of_block live) none⟩
  rw [free, live]
  rfl

theorem store_live {i : Nat} {bytes : List UInt8} (live : h.block p = some b)
    (fits : i + bytes.length ≤ b.length) :
    ∃ h', h.store p i bytes = .ok h' ∧ h'.block =
      Function.update h.block p (some (b.take i ++ bytes ++ b.drop (i + bytes.length))) := by
  refine ⟨h.set p _, ?_, block_set (lt_length_of_block live) _⟩
  rw [store, live]
  exact if_pos fits

theorem load_live (live : h.block p = some b) (fits : n ≤ b.length) :
    h.load p n = .ok (b.take n) := by
  rw [load, live]
  exact if_pos fits

end Heap

end TelemetrixDb
