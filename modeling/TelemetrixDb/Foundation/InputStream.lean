import Mathlib.Data.List.TakeWhile
import Mathlib.Tactic.Common

/-!
# Input streams and `std::getline`

A stream holds what is left to read and two state bits. A read from a stream that
is not good fails and leaves the string of the caller alone, so a string that is
read again and again holds the piece it got last.

-/

namespace TelemetrixDb

/-- A stream over bytes with `eofbit` and `failbit`. -/
structure IStream where
  rest : List UInt8
  eof : Bool
  fail : Bool

namespace IStream

/-- A stream at the start of some text. -/
def of (text : List UInt8) : IStream := ⟨text, false, false⟩

def good (s : IStream) : Bool := !s.eof && !s.fail

/-- `std::getline` into a string: up to a delimiter, which is taken off the stream,
or up to the end, which is noticed; taking nothing is a failure. -/
def getline (delim : UInt8) (s : IStream) (str : List UInt8) : IStream × List UInt8 :=
  if s.good then
    match s.rest.dropWhile (· ≠ delim) with
    | [] => (⟨[], true, s.rest.isEmpty⟩, s.rest)
    | _ :: after => (⟨after, false, false⟩, s.rest.takeWhile (· ≠ delim))
  else ({ s with fail := true }, str)

variable {delim : UInt8} {s : IStream} {str : List UInt8} {pieces : List (List UInt8)}

/-- The pieces that a stream can still deliver. -/
def Delivers (delim : UInt8) (s : IStream) (pieces : List (List UInt8)) : Prop :=
  if s.good then s.rest.splitOn delim = pieces else pieces = []

theorem delivers_of (text : List UInt8) : (of text).Delivers delim (text.splitOn delim) := rfl

/-- A read takes the next piece, and leaves the string alone when there is none. -/
theorem Delivers.getline (h : s.Delivers delim pieces) (str : List UInt8) :
    (s.getline delim str).2 = pieces.headD str ∧
      (s.getline delim str).1.Delivers delim pieces.tail ∧
      ((s.getline delim str).1.fail = true ↔ pieces = [] ∨ pieces = [[]]) := by
  unfold Delivers at h
  unfold IStream.getline
  cases hg : s.good with
  | false =>
      rw [hg, if_neg (by simp)] at h
      subst h
      simp [Delivers, good]
  | true =>
      rw [hg, if_pos rfl] at h
      rw [if_pos rfl]
      subst h
      cases hd : s.rest.dropWhile (· ≠ delim) with
      | nil =>
          have absent : delim ∉ s.rest := by
            intro mem
            have all := List.dropWhile_eq_nil_iff.mp hd delim mem
            simp at all
          rw [List.splitOn_eq_singleton absent]
          simp [Delivers, good]
      | cons d after =>
          have found : d = delim := by
            have head := List.head?_dropWhile_not (p := (· ≠ delim)) s.rest
            rw [hd] at head
            simpa using head
          have split : s.rest = s.rest.takeWhile (· ≠ delim) ++ delim :: after := by
            rw [found] at hd
            rw [← hd, List.takeWhile_append_dropWhile]
          have absent : delim ∉ s.rest.takeWhile (· ≠ delim) := by
            intro mem
            simpa using List.mem_takeWhile_imp mem
          have pieces : s.rest.splitOn delim =
              s.rest.takeWhile (· ≠ delim) :: after.splitOn delim := by
            conv_lhs => rw [split]
            exact List.splitOn_append_cons_self_of_not_mem absent after
          rw [pieces]
          simp [Delivers, good]

/-- What is left to read, with one for the end that is not noticed yet. -/
def left (s : IStream) : Nat := if s.good then s.rest.length + 1 else 0

theorem left_getline (more : (s.getline delim str).1.fail = false) :
    (s.getline delim str).1.left < s.left := by
  unfold getline at more ⊢
  cases hg : s.good with
  | false => simp [hg] at more
  | true =>
      have bound := (List.dropWhile_suffix (l := s.rest) (· ≠ delim)).length_le
      have before : s.left = s.rest.length + 1 := by rw [left, hg, if_pos rfl]
      rw [before, if_pos rfl]
      cases hd : s.rest.dropWhile (· ≠ delim) with
      | nil => exact Nat.succ_pos _
      | cons d after =>
          rw [hd, List.length_cons] at bound
          simp only [left, good, Bool.not_false, Bool.and_self, if_true]
          omega

section Loop

variable {σ : Type} (delim) (body : List UInt8 → σ → σ)

/-- The loop `while (std::getline(s, line)) body`. -/
def whileGetline (s : IStream) (line : List UInt8) (x : σ) : σ :=
  if _more : (s.getline delim line).1.fail = false then
    whileGetline (s.getline delim line).1 (s.getline delim line).2
      (body (s.getline delim line).2 x)
  else x
termination_by s.left
decreasing_by exact left_getline ‹_›

/-- The lines among the pieces: an empty last piece is what follows the delimiter
of the last line. -/
def lines : List (List UInt8) → List (List UInt8)
  | [] => []
  | [[]] => []
  | piece :: pieces => piece :: lines pieces

variable {delim body}

theorem lines_cons {piece : List UInt8} (h : ¬ (piece = [] ∧ pieces = [])) :
    lines (piece :: pieces) = piece :: lines pieces := by
  cases piece <;> cases pieces <;> simp_all [lines]

theorem lines_append_nil (pieces : List (List UInt8)) : lines (pieces ++ [[]]) = pieces := by
  induction pieces with
  | nil => rfl
  | cons piece pieces ih => rw [List.cons_append, lines_cons (by simp), ih]

/-- Pieces that are not empty are lines. -/
theorem lines_of_ne_nil (h : ∀ piece ∈ pieces, piece ≠ []) : lines pieces = pieces := by
  induction pieces with
  | nil => rfl
  | cons piece pieces ih =>
      rw [List.forall_mem_cons] at h
      rw [lines_cons fun empty => h.1 empty.1, ih h.2]

/-- The loop runs its body for each line in turn. -/
theorem whileGetline_eq (h : s.Delivers delim pieces) (line : List UInt8) (x : σ) :
    whileGetline delim body s line x = (lines pieces).foldl (fun x line => body line x) x := by
  induction pieces generalizing s line x with
  | nil =>
      obtain ⟨-, -, failed⟩ := h.getline line
      rw [whileGetline, dif_neg (by simp [failed])]
      rfl
  | cons piece pieces ih =>
      obtain ⟨read, after, failed⟩ := h.getline line
      rw [whileGetline]
      by_cases last : piece = [] ∧ pieces = []
      · rw [dif_neg (by simp [failed, last]), last.1, last.2]
        rfl
      · have more : (s.getline delim line).1.fail = false := by
          rw [← Bool.not_eq_true, failed]
          simpa using last
        rw [dif_pos more, ih after, lines_cons last, read]
        rfl

end Loop

/-- The lines of a text whose lines all end in the delimiter. -/
theorem lines_splitOn_terminated {texts : List (List UInt8)} (absent : ∀ text ∈ texts, delim ∉ text) :
    lines ((texts.flatMap fun text => text ++ [delim]).splitOn delim) = texts := by
  induction texts with
  | nil => rfl
  | cons text texts ih =>
      rw [List.forall_mem_cons] at absent
      have split : ((text :: texts).flatMap fun text => text ++ [delim]).splitOn delim =
          text :: (texts.flatMap fun text => text ++ [delim]).splitOn delim := by
        rw [List.flatMap_cons, List.append_assoc, List.singleton_append]
        exact List.splitOn_append_cons_self_of_not_mem absent.1 _
      rw [split, lines_cons (by simp), ih absent.2]

end IStream

end TelemetrixDb
