import Mathlib.Data.List.Basic
import Mathlib.Data.List.Induction
import Mathlib.Data.List.Infix

/-!
# Labelled transition systems and the histories of their runs

A run lists its labels oldest first and grows at its end, so an invariant may
speak of the whole history that led to a state.

-/

namespace TelemetrixDb.Transition

variable {S A E F : Type*}

/-- A finite execution from one state to another together with its labels. -/
inductive Run (step : S → E → S → Prop) : S → List E → S → Prop
  | refl (s : S) : Run step s [] s
  | snoc {s t u : S} {es : List E} {e : E} (init : Run step s es t) (last : step t e u) :
      Run step s (es ++ [e]) u

variable {step : S → E → S → Prop} {s t u : S} {es fs : List E} {e : E}

theorem Run.single (h : step s e t) : Run step s [e] t :=
  (Run.refl s).snoc h

theorem Run.trans (first : Run step s es t) (second : Run step t fs u) :
    Run step s (es ++ fs) u := by
  induction second with
  | refl => simpa using first
  | snoc _ last ih => simpa only [List.append_assoc] using ih.snoc last

/-- A property of history and state that holds at the start and survives every
step of the run holds at its end. -/
theorem Run.history_invariant {I : List E → S → Prop} (run : Run step s es t)
    (start : I [] s)
    (next : ∀ {es t e u}, I es t → step t e u → I (es ++ [e]) u) : I es t := by
  induction run with
  | refl => exact start
  | snoc _ last ih => exact next ih last

/-- The same rule for a property of states alone. -/
theorem Run.invariant {I : S → Prop} (run : Run step s es t) (start : I s)
    (next : ∀ {t e u}, I t → step t e u → I u) : I t :=
  run.history_invariant (I := fun _ => I) start next

/-- A run splits at each of its labels into a prefix, that step and a rest. -/
theorem Run.split_mem (run : Run step s es t) (he : e ∈ es) :
    ∃ (before after : List E) (x y : S), es = before ++ e :: after ∧
      Run step s before x ∧ step x e y ∧ Run step y after t := by
  induction run with
  | refl => simp at he
  | @snoc t u es label init last ih =>
      rcases List.mem_append.mp he with h | h
      · obtain ⟨before, after, x, y, rfl, first, middle, rest⟩ := ih h
        exact ⟨before, after ++ [label], x, y, by simp, first, middle, rest.snoc last⟩
      · obtain rfl := List.mem_singleton.mp h
        exact ⟨es, [], t, u, rfl, init, last, Run.refl u⟩

/-- A run splits at a place in the list of its labels. -/
theorem Run.split_append (run : Run step s (es ++ fs) t) :
    ∃ x, Run step s es x ∧ Run step x fs t := by
  induction fs using List.reverseRecOn generalizing t with
  | nil => exact ⟨t, by simpa using run, Run.refl t⟩
  | append_singleton fs e ih =>
      rw [← List.append_assoc] at run
      generalize labels : (es ++ fs) ++ [e] = all at run
      cases run with
      | refl => simp at labels
      | snoc init last =>
          obtain ⟨rfl, same⟩ := List.append_inj' labels rfl
          obtain rfl := List.head_eq_of_cons_eq same
          obtain ⟨x, first, rest⟩ := ih init
          exact ⟨x, first, rest.snoc last⟩

/-- Before a label of a run its step is taken. -/
theorem Run.split_at (run : Run step s (es ++ e :: fs) t) :
    ∃ x y, Run step s es x ∧ step x e y := by
  rw [List.append_cons] at run
  obtain ⟨y, upTo, -⟩ := run.split_append
  generalize labels : es ++ [e] = all at upTo
  cases upTo with
  | refl => simp at labels
  | snoc init last =>
      obtain ⟨rfl, same⟩ := List.append_inj' labels rfl
      obtain rfl := List.head_eq_of_cons_eq same
      exact ⟨_, y, init, last⟩

/-- Forward simulation: when every step is answered by a run of the abstract
system over the translated label, so is every run. -/
theorem Run.simulate (abstractStep : A → F → A → Prop) (translate : E → List F)
    {R : S → A → Prop}
    (answer : ∀ {s e t a}, R s a → step s e t →
      ∃ b, R t b ∧ Run abstractStep a (translate e) b)
    (run : Run step s es t) {a : A} (start : R s a) :
    ∃ b, R t b ∧ Run abstractStep a (es.flatMap translate) b := by
  induction run with
  | refl => exact ⟨a, start, Run.refl a⟩
  | snoc _ last ih =>
      obtain ⟨b, hb, prior⟩ := ih
      obtain ⟨c, hc, tail⟩ := answer hb last
      refine ⟨c, hc, ?_⟩
      simpa only [List.flatMap_append, List.flatMap_singleton] using prior.trans tail

end TelemetrixDb.Transition
