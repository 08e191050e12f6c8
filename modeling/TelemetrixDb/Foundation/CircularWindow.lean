import TelemetrixDb.Foundation.CircularIndex
import Mathlib.Data.Fin.Basic
import Mathlib.Data.List.Induction
import Mathlib.Data.List.OfFn
import Mathlib.Data.Nat.Basic

/-!
# Overwriting windows

A window keeps the most recent items of an unbounded history in a circle of
slots with one write position and no count. The slots are known exactly in terms
of the history. Read once around the circle they give the recent items after as
many blanks as were never overwritten, and this reading together with the
position is all that a window tells about its history.

-/

namespace TelemetrixDb
open CircularIndex

/-- The next position to write and the slots. -/
@[ext] structure Window (size : Nat) (α : Type*) where
  head : Fin size
  slots : Fin size → α

namespace Window

variable {size : Nat} [NeZero size] {α : Type*}

/-- The slot that the item number `j` of a history is written to. -/
def slotOf (size : Nat) [NeZero size] (j : Nat) : Fin size := Fin.ofNat size j

@[simp] theorem slotOf_val (j : Nat) : (slotOf size j : Nat) = j % size := rfl

/-- The window nothing has been written to. -/
def fresh (blank : α) : Window size α := ⟨slotOf size 0, fun _ => blank⟩

def push (w : Window size α) (x : α) : Window size α where
  head := slotOf size (w.head + 1)
  slots := Function.update w.slots w.head x

@[simp] theorem push_head (w : Window size α) (x : α) :
    (w.push x).head = slotOf size (w.head + 1) := rfl

@[simp] theorem push_slots (w : Window size α) (x : α) :
    (w.push x).slots = Function.update w.slots w.head x := rfl

/-- The window after a history of pushes. -/
def written (size : Nat) [NeZero size] (blank : α) (xs : List α) : Window size α :=
  xs.foldl push (fresh blank)

/-- The last `size` items of a history, oldest first. -/
def recent (size : Nat) (xs : List α) : List α := xs.drop (xs.length - size)

/-- The slots read once around the circle from the write position. -/
def around (w : Window size α) : List α :=
  List.ofFn fun i : Fin size => w.slots (slotOf size (w.head + i))

variable {blank : α} {xs ys : List α} {x : α}

@[simp] theorem written_concat :
    written size blank (xs ++ [x]) = (written size blank xs).push x := by
  simp [written]

omit [NeZero size] in
@[simp] theorem recent_length : (recent size xs).length = min xs.length size := by
  rw [recent, List.length_drop]
  omega

omit [NeZero size] in
theorem recent_of_le (h : xs.length ≤ size) : recent size xs = xs := by
  rw [recent, Nat.sub_eq_zero_of_le h, List.drop_zero]

omit [NeZero size] in
theorem recent_map {β : Type*} (f : α → β) : recent size (xs.map f) = (recent size xs).map f := by
  rw [recent, recent, List.length_map, List.map_drop]

theorem written_head : ((written size blank xs).head : Nat) = xs.length % size := by
  induction xs using List.reverseRecOn with
  | nil => rfl
  | append_singleton xs x ih =>
      rw [written_concat, push_head, slotOf_val, ih, List.length_append, List.length_singleton,
        Nat.mod_add_mod]

theorem written_head_eq : (written size blank xs).head = slotOf size xs.length :=
  Fin.ext written_head

/-- Different positions within one turn of the circle are different slots. -/
theorem slotOf_ne {i j : Nat} (hij : i < j) (hj : j < i + size) : slotOf size i ≠ slotOf size j := by
  intro h
  have offset : slot size i 0 = slot size i (j - i) := by
    simpa [slot, Nat.add_sub_cancel' hij.le] using congrArg Fin.val h
  have same : 0 = j - i := slot_inj (Nat.pos_of_neZero size) (by omega) offset
  omega

/-- Each of the last `size` items is in its slot. -/
theorem written_slot {j : Nat} (hj : j < xs.length) (hrecent : xs.length ≤ j + size) :
    (written size blank xs).slots (slotOf size j) = xs[j] := by
  induction xs using List.reverseRecOn with
  | nil => simp at hj
  | append_singleton xs x ih =>
      rw [List.length_append, List.length_singleton] at hj hrecent
      rw [written_concat, push_slots, written_head_eq]
      rcases Nat.lt_succ_iff_lt_or_eq.mp hj with old | rfl
      · rw [Function.update_of_ne (slotOf_ne old (by omega)), ih old (by omega),
          List.getElem_append_left old]
      · simp

/-- A slot that the history has not reached is blank. -/
theorem written_blank {k : Fin size} (h : xs.length ≤ k) :
    (written size blank xs).slots k = blank := by
  induction xs using List.reverseRecOn with
  | nil => rfl
  | append_singleton xs x ih =>
      rw [List.length_append, List.length_singleton] at h
      have hne : k ≠ slotOf size xs.length := by
        intro hk
        have hval : (k : Nat) = xs.length % size := congrArg Fin.val hk
        have hle : xs.length % size ≤ xs.length := Nat.mod_le _ _
        omega
      rw [written_concat, push_slots, written_head_eq, Function.update_of_ne hne, ih (by omega)]

/-- What one turn around the circle reads. -/
def padded (size : Nat) (blank : α) (xs : List α) : List α :=
  List.replicate (size - xs.length) blank ++ recent size xs

theorem around_written : (written size blank xs).around = padded size blank xs := by
  apply List.ext_getElem
  · rw [around, List.length_ofFn, padded, List.length_append, List.length_replicate, recent_length]
    omega
  · intro i hi hi'
    rw [around, List.length_ofFn] at hi
    have position : slotOf size ((written size blank xs).head + i) = slotOf size (xs.length + i) :=
      Fin.ext (by simp [written_head])
    simp only [around, List.getElem_ofFn, padded, position]
    by_cases early : xs.length + i < size
    · rw [List.getElem_append_left (by rw [List.length_replicate]; omega), List.getElem_replicate]
      apply written_blank
      rw [slotOf_val, Nat.mod_eq_of_lt early]
      omega
    · have turn : slotOf size (xs.length + i) = slotOf size (xs.length + i - size) :=
        Fin.ext (Nat.mod_eq_sub_mod (Nat.le_of_not_lt early))
      rw [List.getElem_append_right (by rw [List.length_replicate]; omega), turn,
        written_slot (by omega) (by omega)]
      simp only [recent, List.getElem_drop, List.length_replicate]
      congr 1
      omega

/-- A full window is read oldest first from its write position. -/
theorem around_full (h : size ≤ xs.length) :
    (written size blank xs).around = recent size xs := by
  rw [around_written, padded, Nat.sub_eq_zero_of_le h, List.replicate_zero, List.nil_append]

/-- A window that is not full is read oldest first from slot 0. -/
theorem take_slots (h : xs.length ≤ size) :
    (List.ofFn (written size blank xs).slots).take xs.length = recent size xs := by
  rw [recent_of_le h]
  apply List.ext_getElem
  · simpa using h
  · intro j _ hj
    have hslot : slotOf size j = ⟨j, by omega⟩ := Fin.ext (Nat.mod_eq_of_lt (by omega))
    have item : (written size blank xs).slots (slotOf size j) = xs[j] :=
      written_slot hj (by omega)
    rw [hslot] at item
    rw [List.getElem_take, List.getElem_ofFn, item]

/-- A window is its write position and its reading around the circle. -/
theorem ext_around {w w' : Window size α} (head : w.head = w'.head)
    (reading : w.around = w'.around) : w = w' := by
  refine Window.ext head (funext fun k => ?_)
  have same := List.ofFn_inj.mp reading
  let i := slotOf size (k + (size - w.head))
  have position : slotOf size (w.head + i) = k := by
    have hhead := w.head.isLt
    apply Fin.ext
    simp only [slotOf_val, i, Nat.add_mod_mod]
    rw [show (w.head : Nat) + (k + (size - w.head)) = k + size by omega, Nat.add_mod_right,
      Nat.mod_eq_of_lt k.isLt]
  calc
    w.slots k = w.slots (slotOf size (w.head + i)) := by rw [position]
    _ = w'.slots (slotOf size (w'.head + i)) := congrFun same i
    _ = w'.slots k := by rw [← head, position]

/-- Two histories leave the same window exactly when they agree in length
around the circle and in their padded recent items. -/
theorem written_eq_iff :
    written size blank xs = written size blank ys ↔
      xs.length % size = ys.length % size ∧ padded size blank xs = padded size blank ys := by
  constructor
  · intro h
    constructor
    · rw [← written_head, h, written_head]
    · rw [← around_written, h, around_written]
  · rintro ⟨hlen, hpad⟩
    apply ext_around
    · rw [written_head_eq, written_head_eq]
      exact Fin.ext hlen
    · rw [around_written, around_written, hpad]

/-- The first history does not fill the window, the second does, and the blanks
that the first leaves stand for items of the second. -/
structure Blanks (size : Nat) (blank : α) (xs ys : List α) : Prop where
  short : xs.length < size
  full : size ≤ ys.length
  position : ys.length % size = xs.length
  recent_eq : recent size ys = List.replicate (size - xs.length) blank ++ xs

theorem Blanks.written_eq (h : Blanks size blank xs ys) :
    written size blank xs = written size blank ys := by
  apply written_eq_iff.mpr
  constructor
  · rw [h.position, Nat.mod_eq_of_lt h.short]
  · rw [padded, padded, Nat.sub_eq_zero_of_le h.full, h.recent_eq, recent_of_le h.short.le,
      List.replicate_zero, List.nil_append]

/-- The only histories with different recent items that a window confuses. -/
theorem written_eq_iff_blanks (differ : recent size xs ≠ recent size ys) :
    written size blank xs = written size blank ys ↔
      Blanks size blank xs ys ∨ Blanks size blank ys xs := by
  constructor
  · intro h
    obtain ⟨hlen, hpad⟩ := written_eq_iff.mp h
    rcases Nat.lt_or_ge xs.length size with shortX | fullX
    · rcases Nat.lt_or_ge ys.length size with shortY | fullY
      · rw [Nat.mod_eq_of_lt shortX, Nat.mod_eq_of_lt shortY] at hlen
        rw [padded, padded, hlen] at hpad
        exact absurd (List.append_cancel_left hpad) differ
      · rw [padded, padded, Nat.sub_eq_zero_of_le fullY, recent_of_le shortX.le] at hpad
        rw [Nat.mod_eq_of_lt shortX] at hlen
        exact Or.inl ⟨shortX, fullY, hlen.symm, hpad.symm⟩
    · rcases Nat.lt_or_ge ys.length size with shortY | fullY
      · rw [padded, padded, Nat.sub_eq_zero_of_le fullX, recent_of_le shortY.le] at hpad
        rw [Nat.mod_eq_of_lt shortY] at hlen
        exact Or.inr ⟨shortY, fullX, hlen, hpad⟩
      · rw [padded, padded, Nat.sub_eq_zero_of_le fullX, Nat.sub_eq_zero_of_le fullY] at hpad
        exact absurd hpad differ
  · rintro (h | h)
    · exact h.written_eq
    · exact h.written_eq.symm

end Window

end TelemetrixDb
