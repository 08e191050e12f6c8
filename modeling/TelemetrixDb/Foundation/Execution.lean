import TelemetrixDb.Foundation.Transition
import Mathlib.Data.Nat.Pairing
import Mathlib.Data.Set.Card
import Mathlib.Logic.Encodable.Basic

/-!
# Unending executions and weak fairness

An execution lists a state for every instant; at an instant a step is taken or
nothing happens. It is fair to a kind of steps when such a step is taken again and
again as long as one stays possible. What a fair execution comes to is proved from
what single steps do.

-/

namespace TelemetrixDb.Transition

variable {S E ι : Type*}

/-- What happens at one instant: nothing, or a step. -/
inductive Tick (step : S → E → S → Prop) : S → Option E → S → Prop
  | idle (s : S) : Tick step s none s
  | step {s t : S} {e : E} (taken : step s e t) : Tick step s (some e) t

/-- An unending execution. -/
structure Execution (step : S → E → S → Prop) where
  state : Nat → S
  event : Nat → Option E
  tick : ∀ n, Tick step (state n) (event n) (state (n + 1))

/-- At this instant or a later one. -/
def Eventually (p : Nat → Prop) (n : Nat) : Prop := ∃ m, n ≤ m ∧ p m

theorem Eventually.now {p : Nat → Prop} {n : Nat} (h : p n) : Eventually p n := ⟨n, le_rfl, h⟩

theorem Eventually.mono {p q : Nat → Prop} {n : Nat} (h : Eventually p n)
    (weaker : ∀ m, n ≤ m → p m → q m) : Eventually q n := by
  obtain ⟨m, later, hm⟩ := h
  exact ⟨m, later, weaker m later hm⟩

/-- What leads on leads on. -/
theorem Eventually.next {p q : Nat → Prop} {n : Nat} (h : Eventually p n)
    (leads : ∀ m, n ≤ m → p m → Eventually q m) : Eventually q n := by
  obtain ⟨m, later, hm⟩ := h
  obtain ⟨k, later', hk⟩ := leads m later hm
  exact ⟨k, later.trans later', hk⟩

/-- A step of this kind is possible. -/
def Enabled (step : S → E → S → Prop) (kind : E → Prop) (s : S) : Prop :=
  ∃ e t, kind e ∧ step s e t

/-- A finite set that gains no member loses one at finitely many instants only. -/
theorem loses_finally {A : Nat → Set ι} {p : Nat → Prop} {n : Nat} (finite : (A n).Finite)
    (shrinks : ∀ m, n ≤ m → A (m + 1) ⊆ A m)
    (loses : ∀ m, n ≤ m → p m → ∃ a ∈ A m, a ∉ A (m + 1)) :
    Eventually (fun m => ∀ j, m ≤ j → ¬ p j) n := by
  generalize size : (A n).ncard = count
  induction count using Nat.strong_induction_on generalizing n with
  | _ count ih =>
      by_cases again : Eventually p n
      · obtain ⟨m, later, hm⟩ := again
        have below : A m ⊆ A n := by
          have chain : ∀ j, n ≤ j → A j ⊆ A n := fun j hj => by
            induction j, hj using Nat.le_induction with
            | base => exact subset_rfl
            | succ j hj ih => exact (shrinks j hj).trans ih
          exact chain m later
        obtain ⟨a, here, gone⟩ := loses m later hm
        have smaller : (A (m + 1)).ncard < count := by
          rw [← size]
          apply Set.ncard_lt_ncard _ finite
          exact ⟨(shrinks m later).trans below, fun all => gone (all (below here))⟩
        obtain ⟨j, hj, last⟩ := ih _ smaller
          (finite.subset ((shrinks m later).trans below))
          (fun j hj => shrinks j (by omega)) (fun j hj => loses j (by omega)) rfl
        exact ⟨j, by omega, last⟩
      · exact .now fun j hj now => again ⟨j, hj, now⟩

namespace Execution

variable {step : S → E → S → Prop} (x : Execution step)

/-- Weak fairness: a kind of steps that stays possible is taken. Of steps that are whole
critical sections this assumes, besides a fair scheduler, a mutex that starves nobody. -/
def Fair (kind : E → Prop) : Prop :=
  ∀ n, (∀ m, n ≤ m → Enabled step kind (x.state m)) →
    Eventually (fun m => ∃ e, x.event m = some e ∧ kind e) n

theorem tick_cases (n : Nat) : (x.event n = none ∧ x.state (n + 1) = x.state n) ∨
    ∃ e, x.event n = some e ∧ step (x.state n) e (x.state (n + 1)) := by
  have tick := x.tick n
  generalize x.state (n + 1) = s at tick ⊢
  cases event : x.event n with
  | none =>
      rw [event] at tick
      cases tick with
      | idle => exact Or.inl ⟨rfl, rfl⟩
  | some e =>
      rw [event] at tick
      cases tick with
      | step taken => exact Or.inr ⟨e, rfl, taken⟩

/-- The labels of the steps before an instant, oldest first. -/
def trace (n : Nat) : List E := (List.range n).filterMap x.event

@[simp] theorem trace_zero : x.trace 0 = [] := rfl

theorem trace_succ (n : Nat) : x.trace (n + 1) = x.trace n ++ (x.event n).toList := by
  rw [trace, List.range_succ, List.filterMap_append]
  rfl

/-- A list that a step extends by one entry at most passes through each of its prefixes. -/
theorem passes {α : Type*} (f : List E → List α) (start : f [] = [])
    (grows : ∀ es e, ∃ a : Option α, f (es ++ [e]) = f es ++ a.toList) {l : List α} {n : Nat}
    (reached : l <+: f (x.trace n)) : ∃ m, m ≤ n ∧ f (x.trace m) = l := by
  induction n with
  | zero =>
      rw [trace_zero, start] at reached
      exact ⟨0, le_rfl, start.trans (List.prefix_nil.mp reached).symm⟩
  | succ n ih =>
      have before : l <+: f (x.trace n) → ∃ m, m ≤ n + 1 ∧ f (x.trace m) = l := by
        intro h
        obtain ⟨m, earlier, same⟩ := ih h
        exact ⟨m, by omega, same⟩
      rw [trace_succ] at reached
      cases event : x.event n with
      | none =>
          rw [event, Option.toList_none, List.append_nil] at reached
          exact before reached
      | some e =>
          obtain ⟨a, grown⟩ := grows (x.trace n) e
          rw [event, Option.toList_some, grown] at reached
          cases a with
          | none =>
              rw [Option.toList_none, List.append_nil] at reached
              exact before reached
          | some a =>
              rcases List.prefix_concat_iff.mp reached with whole | part
              · refine ⟨n + 1, le_rfl, ?_⟩
                rw [trace_succ, event, Option.toList_some, grown, whole]
                rfl
              · exact before part

/-- Between two instants the execution makes a run. -/
theorem run_between {n m : Nat} (later : n ≤ m) :
    ∃ es, x.trace m = x.trace n ++ es ∧ Run step (x.state n) es (x.state m) := by
  induction m, later using Nat.le_induction with
  | base => exact ⟨[], by simp, .refl _⟩
  | succ m later ih =>
      obtain ⟨es, whole, run⟩ := ih
      refine ⟨es ++ (x.event m).toList, ?_, ?_⟩
      · rw [trace_succ, whole, List.append_assoc]
      · rcases x.tick_cases m with ⟨event, same⟩ | ⟨e, event, taken⟩
        · rw [event, same]
          simpa using run
        · rw [event]
          exact run.snoc taken

theorem run (n : Nat) : Run step (x.state 0) (x.trace n) (x.state n) := by
  obtain ⟨es, whole, run⟩ := x.run_between (Nat.zero_le n)
  rw [trace_zero, List.nil_append] at whole
  exact whole ▸ run

theorem trace_prefix {n m : Nat} (later : n ≤ m) : x.trace n <+: x.trace m := by
  obtain ⟨es, whole, -⟩ := x.run_between later
  exact ⟨es, whole.symm⟩

variable {x}

/-- What holds until `q`, makes the kind possible, and is brought to `q` by each of
its steps, comes to `q`. -/
theorem Fair.eventually {kind : E → Prop} (fair : x.Fair kind) {p q : Nat → Prop} {n : Nat}
    (start : p n)
    (enabled : ∀ m, n ≤ m → p m → ¬ q m → Enabled step kind (x.state m))
    (stays : ∀ m, n ≤ m → p m → ¬ q m → p (m + 1) ∨ q (m + 1))
    (moves : ∀ m e, n ≤ m → p m → x.event m = some e → kind e → q m ∨ q (m + 1)) :
    Eventually q n := by
  by_contra never
  have noQ : ∀ m, n ≤ m → ¬ q m := fun m later hm => never ⟨m, later, hm⟩
  have always : ∀ m, n ≤ m → p m := by
    intro m later
    induction m, later using Nat.le_induction with
    | base => exact start
    | succ m later ih =>
        exact (stays m later ih (noQ m later)).resolve_right (noQ (m + 1) (by omega))
  obtain ⟨m, later, e, event, isKind⟩ :=
    fair n fun m later => enabled m later (always m later) (noQ m later)
  rcases moves m e later (always m later) event isKind with now | next
  · exact noQ m later now
  · exact noQ (m + 1) (by omega) next

end Execution

/-- A scheduler can serve a kind that is possible at an instant, and no other. -/
theorem exists_tick (step : S → E → S → Prop) (kind : E → Prop) (s : S) :
    ∃ e t, Tick step s e t ∧ (Enabled step kind s → e.isSome) ∧ ∀ e', e = some e' → kind e' := by
  by_cases enabled : Enabled step kind s
  · obtain ⟨e, t, isKind, taken⟩ := id enabled
    exact ⟨some e, t, .step taken, fun _ => rfl, fun e' same => Option.some.inj same ▸ isKind⟩
  · exact ⟨none, s, .idle s, fun h => absurd h enabled, fun e' same => by cases same⟩

/-- From every state there is an execution that takes steps of countably many kinds
only and is fair to each of them: every kind is served again and again. -/
theorem exists_fair (step : S → E → S → Prop) [Encodable ι] (kind : ι → E → Prop) (s : S) :
    ∃ x : Execution step, x.state 0 = s ∧ (∀ i, x.Fair (kind i)) ∧
      ∀ n e, x.event n = some e → ∃ i, kind i e := by
  let served (n : Nat) (e : E) : Prop := ∃ i, Encodable.decode n.unpair.1 = some i ∧ kind i e
  choose event next tick serves only using fun n s => exists_tick step (served n) s
  let state : Nat → S := Nat.rec s fun n s => next n s
  refine ⟨⟨state, fun n => event n (state n), fun n => tick n (state n)⟩, rfl, ?_, ?_⟩
  · intro i n enabled
    -- the kind `i` is served at the instants whose first part is its code
    let m := Nat.pair (Encodable.encode i) n
    have turn : Encodable.decode m.unpair.1 = some i := by
      rw [Nat.unpair_pair]
      exact Encodable.encodek i
    have later : n ≤ m := Nat.right_le_pair _ n
    obtain ⟨e, t, isKind, taken⟩ := enabled m later
    obtain ⟨e', served'⟩ :=
      Option.isSome_iff_exists.mp (serves m (state m) ⟨e, t, ⟨i, turn, isKind⟩, taken⟩)
    obtain ⟨j, turn', isKind'⟩ := only m (state m) e' served'
    obtain rfl : i = j := Option.some.inj (turn.symm.trans turn')
    exact ⟨m, later, e', served', isKind'⟩
  · intro n e event
    obtain ⟨i, -, isKind⟩ := only n (state n) e event
    exact ⟨i, isKind⟩

/-- A step in front of an execution. -/
def Execution.after {step : S → E → S → Prop} {s : S} {e : E} (x : Execution step)
    (first : step s e (x.state 0)) : Execution step where
  state
    | 0 => s
    | n + 1 => x.state n
  event
    | 0 => some e
    | n + 1 => x.event n
  tick
    | 0 => .step first
    | n + 1 => x.tick n

/-- Fairness is a matter of what comes from some instant on. -/
theorem Execution.Fair.of_suffix {step : S → E → S → Prop} {x y : Execution step} {d : Nat}
    {kind : E → Prop} (fair : x.Fair kind) (state : ∀ n, y.state (d + n) = x.state n)
    (event : ∀ n, y.event (d + n) = x.event n) : y.Fair kind := by
  intro n enabled
  have later : ∀ m, n ≤ m → Enabled step kind (x.state m) := by
    intro m hm
    rw [← state m]
    exact enabled (d + m) (by omega)
  obtain ⟨m, hm, e, taken, isKind⟩ := fair n later
  exact ⟨d + m, by omega, e, (event m).trans taken, isKind⟩

/-- Every run goes on, by steps of countably many kinds only, to an execution that is
fair to each of them. -/
theorem Run.extends_fair {step : S → E → S → Prop} [Encodable ι] (kind : ι → E → Prop) {s t : S}
    {es : List E} (run : Run step s es t) : ∃ x : Execution step, x.state 0 = s ∧
      x.state es.length = t ∧ x.trace es.length = es ∧ (∀ i, x.Fair (kind i)) ∧
      ∀ n e, es.length ≤ n → x.event n = some e → ∃ i, kind i e := by
  have go : ∀ x : Execution step, x.state 0 = t → ∃ y : Execution step, y.state 0 = s ∧
      y.trace es.length = es ∧ (∀ n, y.state (es.length + n) = x.state n) ∧
      ∀ n, y.event (es.length + n) = x.event n := by
    induction run with
    | refl => exact fun x hx => ⟨x, hx, rfl, fun n => by simp, fun n => by simp⟩
    | @snoc t u es e init last ih =>
        intro x hx
        obtain ⟨y, begins, trace, state, event⟩ := ih (x.after (hx ▸ last)) rfl
        refine ⟨y, begins, ?_, fun n => ?_, fun n => ?_⟩
        · have here : y.event es.length = some e := event 0
          rw [List.length_append, List.length_singleton, Execution.trace_succ, trace, here]
          rfl
        · rw [List.length_append, List.length_singleton, Nat.add_assoc, Nat.add_comm 1 n]
          exact state (n + 1)
        · rw [List.length_append, List.length_singleton, Nat.add_assoc, Nat.add_comm 1 n]
          exact event (n + 1)
  obtain ⟨x, begins, fair, only⟩ := exists_fair step kind t
  obtain ⟨y, begins', trace, state, event⟩ := go x begins
  refine ⟨y, begins', (state 0).trans begins, trace, fun i => (fair i).of_suffix state event, ?_⟩
  intro n e later taken
  obtain ⟨d, rfl⟩ := Nat.exists_eq_add_of_le later
  exact only d e ((event d).symm.trans taken)

end TelemetrixDb.Transition
