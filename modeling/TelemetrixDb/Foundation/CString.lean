import Mathlib.Data.List.GetD
import Mathlib.Data.List.OfFn
import Mathlib.Data.List.TakeWhile
import Mathlib.Logic.Function.Basic
import Mathlib.Tactic.Common

/-!
# Strings of C in arrays of a fixed size

A string is what a sequence of bytes holds before its first 0. A bounded copy
that ends its array with a 0 leaves an array that depends on the source string
alone, and whose own string is the longest prefix that fits.

-/

namespace TelemetrixDb

/-- The string at bytes in memory. -/
def cText (bytes : List UInt8) : List UInt8 := bytes.takeWhile (· ≠ 0)

/-- An object of type `char[size]`. -/
abbrev CharArray (size : Nat) := Fin size → UInt8

namespace CharArray

variable {size m : Nat}

/-- The string in an array. -/
def text (a : CharArray size) : List UInt8 := cText (List.ofFn a)

/-- The first `n` bytes of an array that has as many receive the source string
and zeros after it; the others are left alone. -/
def strncpy (dest : CharArray size) (src : List UInt8) (n : Nat) (_ : n ≤ size) :
    CharArray size :=
  fun i => if i < n then (cText src).getD i 0 else dest i

/-- A copy into all bytes but the last, which is set to 0. -/
def setText (dest : CharArray (m + 1)) (src : List UInt8) : CharArray (m + 1) :=
  Function.update (dest.strncpy src m m.le_succ) (Fin.last m) 0

/-- The array with the longest prefix of a string that leaves room for a 0. -/
def bounded (m : Nat) (src : List UInt8) : CharArray (m + 1) :=
  fun i => ((cText src).take m).getD i 0

theorem bounded_last (src : List UInt8) : bounded m src (Fin.last m) = 0 := by
  have ends : ((cText src).take m).length ≤ m := List.length_take_le _ _
  exact List.getD_eq_default _ _ ends

/-- What was in the array before does not matter. -/
theorem setText_eq_bounded (dest : CharArray (m + 1)) (src : List UInt8) :
    dest.setText src = bounded m src := by
  funext i
  by_cases hi : i = Fin.last m
  · rw [hi, setText, Function.update_self, bounded_last]
  · have hlt : (i : Nat) < m := Fin.val_lt_last hi
    rw [setText, Function.update_of_ne hi, strncpy, if_pos hlt, bounded,
      List.getD_eq_getElem?_getD, List.getD_eq_getElem?_getD, List.getElem?_take_of_lt hlt]

theorem ofFn_bounded (src : List UInt8) : List.ofFn (bounded m src) =
    (cText src).take m ++ List.replicate (m + 1 - ((cText src).take m).length) 0 := by
  have ends : ((cText src).take m).length ≤ m := List.length_take_le _ _
  apply List.ext_getElem
  · rw [List.length_ofFn, List.length_append, List.length_replicate]
    omega
  · intro i hi hi'
    rw [List.getElem_ofFn, bounded]
    by_cases inside : i < ((cText src).take m).length
    · rw [List.getElem_append_left inside, List.getD_eq_getElem _ _ inside]
    · rw [List.getElem_append_right (by omega), List.getElem_replicate,
        List.getD_eq_default _ _ (Nat.le_of_not_lt inside)]

theorem ne_zero_of_mem_cText {bytes : List UInt8} {x : UInt8} (h : x ∈ cText bytes) : x ≠ 0 := by
  simpa using List.mem_takeWhile_imp h

theorem text_bounded (src : List UInt8) : (bounded m src).text = (cText src).take m := by
  rw [text, ofFn_bounded, cText, List.takeWhile_append_of_pos, List.takeWhile_replicate]
  · simp
  · intro x hx
    simpa using ne_zero_of_mem_cText (List.mem_of_mem_take hx)

end CharArray

/-- The documented comparison of at most `n` bytes up to a 0: the difference at
the first byte that differs. -/
def strncmp : List UInt8 → List UInt8 → Nat → Int
  | _, _, 0 => 0
  | a, b, n + 1 =>
      let x := a.headD 0
      let y := b.headD 0
      if x ≠ y then (x.toNat : Int) - y.toNat
      else if x = 0 then 0
      else strncmp a.tail b.tail n

theorem take_cText_succ (a : List UInt8) (n : Nat) : (cText a).take (n + 1) =
    if a.headD 0 = 0 then [] else a.headD 0 :: (cText a.tail).take n := by
  cases a with
  | nil => rfl
  | cons x a => by_cases hx : x = 0 <;> simp [cText, hx]

/-- Strings are equal for `strncmp` when they agree in what is before a 0 and
within the limit. -/
theorem strncmp_eq_zero_iff (a b : List UInt8) (n : Nat) :
    strncmp a b n = 0 ↔ (cText a).take n = (cText b).take n := by
  induction n generalizing a b with
  | zero => simp [strncmp]
  | succ n ih =>
      rw [take_cText_succ, take_cText_succ, strncmp]
      by_cases same : a.headD 0 = b.headD 0
      · by_cases ends : b.headD 0 = 0
        · simp only [same, ends, ne_eq, not_true, if_false, if_true]
        · simp only [same, ends, ne_eq, not_true, if_false, ih, List.cons.injEq, true_and]
      · have difference : ((a.headD 0).toNat : Int) - (b.headD 0).toNat ≠ 0 := by
          intro h
          exact same (UInt8.toNat_inj.mp (by omega))
        simp only [ne_eq, same, not_false_eq_true, if_true, difference, false_iff]
        intro h
        split at h
        · next ends =>
            split at h
            · next ends' => exact same (ends.trans ends'.symm)
            · cases h
        · split at h
          · cases h
          · exact same (List.cons.inj h).1

end TelemetrixDb
