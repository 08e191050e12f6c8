import Mathlib.Algebra.Group.Int.Defs
import Mathlib.Algebra.Group.Nat.Defs
import Mathlib.Data.Int.Basic
import Mathlib.Logic.Function.Basic
import Mathlib.Tactic.Common

/-!
# The part of the C abstract machine the engine relies on

Arithmetic on `int` and accesses to memory are partial: what C leaves undefined
is a fault here. Conversions to `size_t` and products of sizes wrap.

## Implementation notes

An `int` is 32 bits and `size_t` is 64 bits.

-/

namespace TelemetrixDb.CMachine

/-- The undefined behaviours the model can meet. -/
inductive Fault
  | intOverflow
  | remByZero
  | outOfBounds
  deriving DecidableEq

/-- A sequence of fallible steps succeeds when each of them does. -/
theorem bind_eq_ok {ε α β : Type} {x : Except ε α} {f : α → Except ε β} {b : β} :
    (x >>= f) = .ok b ↔ ∃ a, x = .ok a ∧ f a = .ok b := by
  cases x <;> simp [Bind.bind, Except.bind]

def intMin : Int := -2147483648

def intMax : Int := 2147483647

/-- A value of type `int`. -/
@[ext] structure CInt where
  val : Int
  min_le : intMin ≤ val
  le_max : val ≤ intMax
  deriving DecidableEq

namespace CInt

/-- A constant that `int` has. -/
class Fits (x : Int) : Prop where
  range : intMin ≤ x ∧ x ≤ intMax

instance : Fits (-1) := ⟨by decide⟩

instance : Fits 0 := ⟨by decide⟩

instance : Fits 1 := ⟨by decide⟩

instance : Fits 2 := ⟨by decide⟩

instance : Fits 3 := ⟨by decide⟩

instance : Fits 7 := ⟨by decide⟩

instance : Fits 9 := ⟨by decide⟩

instance : Fits 1024 := ⟨by decide⟩

/-- An `int` constant of the source. -/
def lit (x : Int) [h : Fits x] : CInt := ⟨x, h.range.1, h.range.2⟩

@[simp] theorem lit_val (x : Int) [Fits x] : (lit x).val = x := rfl

theorem lit_one_val : (lit 1).val = (1 : Nat) := rfl

/-- The result of an `int` operation, a fault when it does not fit. -/
def check (x : Int) : Except Fault CInt :=
  if h : intMin ≤ x ∧ x ≤ intMax then .ok ⟨x, h.1, h.2⟩ else .error .intOverflow

def add (a b : CInt) : Except Fault CInt := check (a.val + b.val)

def sub (a b : CInt) : Except Fault CInt := check (a.val - b.val)

/-- The remainder of truncated division; `INT_MIN % -1` overflows. -/
def rem (a b : CInt) : Except Fault CInt :=
  if b.val = 0 then .error .remByZero
  else if a.val = intMin ∧ b.val = -1 then .error .intOverflow
  else check (a.val.tmod b.val)

/-- Conversion to `size_t`. -/
def toSize (a : CInt) : Nat := (a.val % 2 ^ 64).toNat

/-- Conversion of a `uint32_t`, which wraps. -/
def ofUInt32 (x : UInt32) : CInt :=
  ⟨x.toInt32.toInt, Int32.le_toInt _, Int.le_sub_one_of_lt (Int32.toInt_lt _)⟩

/-- Conversion to `uint32_t`. -/
def toUInt32 (a : CInt) : UInt32 := .ofInt a.val

theorem check_ok {x : Int} (h : intMin ≤ x ∧ x ≤ intMax) :
    check x = .ok ⟨x, h.1, h.2⟩ := dif_pos h

/-- A natural number that fits is the result of its check. -/
theorem check_nat {x : Int} {n : Nat} (hx : x = n) (h : (n : Int) ≤ intMax) :
    ∃ c, check x = .ok c ∧ c.val = n := by
  have hrange : intMin ≤ x ∧ x ≤ intMax := by
    unfold intMin
    omega
  exact ⟨_, check_ok hrange, hx⟩

/-- Natural numbers that fit are added exactly. -/
theorem add_nat {a b : CInt} {m n : Nat} (ha : a.val = m) (hb : b.val = n)
    (h : ((m + n : Nat) : Int) ≤ intMax) : ∃ c, a.add b = .ok c ∧ c.val = (m + n : Nat) :=
  check_nat (by rw [ha, hb]; push_cast; rfl) h

/-- A smaller natural number is subtracted exactly. -/
theorem sub_nat {a b : CInt} {m n : Nat} (ha : a.val = m) (hb : b.val = n) (h : n ≤ m) :
    ∃ c, a.sub b = .ok c ∧ c.val = (m - n : Nat) := by
  have hmax := a.le_max
  exact check_nat (by omega) (by omega)

/-- The remainder of natural numbers is the mathematical one. -/
theorem rem_nat {a b : CInt} {m n : Nat} (ha : a.val = m) (hb : b.val = n) (h : 0 < n) :
    ∃ c, a.rem b = .ok c ∧ c.val = (m % n : Nat) := by
  have hmax := b.le_max
  have hlt : m % n < n := Nat.mod_lt m h
  rw [rem, ha, hb, if_neg (by omega), if_neg (by omega), ← Int.ofNat_tmod]
  exact check_nat rfl (by omega)

theorem toSize_nat {a : CInt} {n : Nat} (ha : a.val = n) : a.toSize = n := by
  have hmax := a.le_max
  unfold intMax at hmax
  rw [toSize, ha, Int.emod_eq_of_lt (by omega) (by omega)]
  simp

end CInt

/-- A product of type `size_t`. -/
def sizeMul (a b : Nat) : Nat := a * b % 2 ^ 64

/-- A sum of type `size_t`. -/
def sizeAdd (a b : Nat) : Nat := (a + b) % 2 ^ 64

/-- An allocated block seen as an array of records of one type: its length in
bytes and the contents of its cells. -/
structure Block (V : Type*) where
  bytes : Nat
  cell : Nat → V

namespace Block

variable {V : Type*}

/-- The bytes of cell `i`, for cells of `size` bytes, lie inside the block. -/
def InBounds (size : Nat) (b : Block V) (i : CInt) : Prop :=
  0 ≤ i.val ∧ (i.val + 1) * size ≤ b.bytes

instance (size : Nat) (b : Block V) (i : CInt) : Decidable (b.InBounds size i) :=
  inferInstanceAs (Decidable (_ ∧ _))

def read (size : Nat) (b : Block V) (i : CInt) : Except Fault V :=
  if b.InBounds size i then .ok (b.cell i.val.toNat) else .error .outOfBounds

def write (size : Nat) (b : Block V) (i : CInt) (v : V) : Except Fault (Block V) :=
  if b.InBounds size i then .ok { b with cell := Function.update b.cell i.val.toNat v }
  else .error .outOfBounds

theorem inBounds_nat {size cap n : Nat} {b : Block V} {i : CInt}
    (hb : b.bytes = size * cap) (hi : i.val = n) (h : n < cap) : b.InBounds size i := by
  refine ⟨by omega, ?_⟩
  have hle : (n + 1) * size ≤ size * cap := by
    rw [Nat.mul_comm size cap]
    exact Nat.mul_le_mul_right size h
  rw [hi, hb]
  exact_mod_cast hle

end Block

/-- Store into an array of `n` elements inside an object. -/
def arrayWrite {V : Type*} {n : Nat} (a : Fin n → V) (i : Nat) (v : V) :
    Except Fault (Fin n → V) :=
  if h : i < n then .ok (Function.update a ⟨i, h⟩ v) else .error .outOfBounds

@[simp] theorem arrayWrite_fin {V : Type*} {n : Nat} (a : Fin n → V) (i : Fin n) (v : V) :
    arrayWrite a i v = .ok (Function.update a i v) := dif_pos i.isLt

end TelemetrixDb.CMachine
