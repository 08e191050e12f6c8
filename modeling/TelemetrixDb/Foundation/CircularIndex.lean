import Mathlib.Data.Nat.ModEq
import Mathlib.Tactic.Common

/-!
# Positions on a circle of slots

The slot reached from a start after a number of steps, and the laws a ring
buffer needs: it is in range, different offsets below the size are different
slots, and a step of either end is a step of the offset.

-/

namespace TelemetrixDb.CircularIndex

/-- The slot `i` places after `start` on a circle of `size` slots. -/
def slot (size start i : Nat) : Nat := (start + i) % size

variable {size start i j : Nat}

theorem slot_lt (h : 0 < size) : slot size start i < size := Nat.mod_lt _ h

theorem slot_zero (h : start < size) : slot size start 0 = start := Nat.mod_eq_of_lt h

theorem slot_succ : (slot size start i + 1) % size = slot size start (i + 1) := by
  simp only [slot, Nat.mod_add_mod, Nat.add_assoc]

theorem slot_advance : slot size ((start + 1) % size) i = slot size start (i + 1) := by
  simp only [slot, Nat.mod_add_mod]
  congr 1
  omega

theorem slot_inj (hi : i < size) (hj : j < size) (h : slot size start i = slot size start j) :
    i = j := by
  have cancelled : i ≡ j [MOD size] := Nat.ModEq.add_left_cancel' start h
  rwa [Nat.ModEq, Nat.mod_eq_of_lt hi, Nat.mod_eq_of_lt hj] at cancelled

end TelemetrixDb.CircularIndex
