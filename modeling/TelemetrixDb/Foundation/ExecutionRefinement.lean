import TelemetrixDb.Foundation.Execution

/-!
# Runs and executions that follow others

When each step of a system is answered by one step of another or by none, each run of
the one is answered by a run of the other, and an unending execution is followed instant
by instant by an execution. It is as fair, when a step that is answered by none comes
before one that is answered. What is related are the states with their histories.

-/

namespace TelemetrixDb.Transition

variable {S E A F : Type*} {step : S → E → S → Prop} {abstractStep : A → F → A → Prop}
variable {R : List E → S → List F → A → Prop} {view : E → Option F → Prop}

theorem Tick.run {s t : S} {o : Option E} (h : Tick step s o t) : Run step s o.toList t := by
  cases h with
  | idle => exact .refl s
  | step taken => exact .single taken

/-- Each step from related states is answered by what it is seen as. -/
def Answers (step : S → E → S → Prop) (abstractStep : A → F → A → Prop)
    (R : List E → S → List F → A → Prop) (view : E → Option F → Prop) : Prop :=
  ∀ es s fs a e t, R es s fs a → step s e t →
    ∃ o b, view e o ∧ Tick abstractStep a o b ∧ R (es ++ [e]) t (fs ++ o.toList) b

/-- Each run is answered by a run. -/
theorem Answers.run (answers : Answers step abstractStep R view) {s t : S} {a : A} {es : List E}
    (start : R [] s [] a) (run : Run step s es t) :
    ∃ fs b, Run abstractStep a fs b ∧ R es t fs b := by
  induction run with
  | refl => exact ⟨[], a, .refl a, start⟩
  | snoc init last ih =>
      obtain ⟨fs, b, answer, related⟩ := ih
      obtain ⟨o, c, -, tick, related'⟩ := answers _ _ _ _ _ _ related last
      exact ⟨fs ++ o.toList, c, answer.trans tick.run, related'⟩

/-- At every instant the states are related and a step is answered by what it is seen as. -/
structure Execution.Follows (y : Execution abstractStep) (x : Execution step)
    (R : List E → S → List F → A → Prop) (view : E → Option F → Prop) : Prop where
  related : ∀ n, R (x.trace n) (x.state n) (y.trace n) (y.state n)
  idle : ∀ n, x.event n = none → y.event n = none
  views : ∀ n e, x.event n = some e → view e (y.event n)

theorem Answers.tick (answers : Answers step abstractStep R view) {es : List E} {s t : S}
    {e : Option E} {fs : List F} {a : A} (related : R es s fs a) (tick : Tick step s e t) :
    ∃ o b, Tick abstractStep a o b ∧ R (es ++ e.toList) t (fs ++ o.toList) b ∧
      (e = none → o = none) ∧ ∀ e', e = some e' → view e' o := by
  cases tick with
  | idle => exact ⟨none, a, .idle a, by simpa using related, fun _ => rfl, by simp⟩
  | step taken =>
      obtain ⟨o, b, seen, tick, related'⟩ := answers _ _ _ _ _ _ related taken
      exact ⟨o, b, tick, related', by simp, by simpa using seen⟩

/-- Every execution is followed by one. -/
theorem Execution.exists_follows (answers : Answers step abstractStep R view) (x : Execution step)
    {a : A} (start : R [] (x.state 0) [] a) :
    ∃ y : Execution abstractStep, y.state 0 = a ∧ y.Follows x R view := by
  have next (n : Nat) (p : {p : List F × A // R (x.trace n) (x.state n) p.1 p.2}) :
      ∃ q : Option F × A, Tick abstractStep p.1.2 q.1 q.2 ∧
        R (x.trace (n + 1)) (x.state (n + 1)) (p.1.1 ++ q.1.toList) q.2 ∧
        (x.event n = none → q.1 = none) ∧ ∀ e, x.event n = some e → view e q.1 := by
    obtain ⟨o, b, tick, related, idle, views⟩ := answers.tick p.2 (x.tick n)
    exact ⟨⟨o, b⟩, tick, x.trace_succ n ▸ related, idle, views⟩
  choose answer tick related idle views using next
  let past (n : Nat) : {p : List F × A // R (x.trace n) (x.state n) p.1 p.2} :=
    Nat.rec ⟨([], a), start⟩
      (fun n p => ⟨(p.1.1 ++ (answer n p).1.toList, (answer n p).2), related n p⟩) n
  let y : Execution abstractStep :=
    ⟨fun n => (past n).1.2, fun n => (answer n (past n)).1, fun n => tick n (past n)⟩
  have history (n : Nat) : y.trace n = (past n).1.1 := by
    induction n with
    | zero => rfl
    | succ n ih =>
        rw [y.trace_succ, ih]
  refine ⟨y, rfl, ?_⟩
  exact
    { related := fun n => history n ▸ (past n).2
      idle := fun n => idle n (past n)
      views := fun n => views n (past n) }

namespace Execution.Follows

variable {x : Execution step} {y : Execution abstractStep} {kind : E → Prop} {kind' : F → Prop}
variable {μ : S → Nat}

/-- Until a step of the kind is seen the measure does not grow. -/
theorem seen_or_le (follows : y.Follows x R view)
    (seen : ∀ {es s e t fs a o}, R es s fs a → step s e t → kind e → view e o →
      (∃ f, o = some f ∧ kind' f) ∨ μ t < μ s)
    (steady : ∀ {s e t}, step s e t → ¬ kind e → μ t ≤ μ s) {n m : Nat} (later : n ≤ m) :
    Eventually (fun j => ∃ f, y.event j = some f ∧ kind' f) n ∨ μ (x.state m) ≤ μ (x.state n) := by
  induction m, later using Nat.le_induction with
  | base => exact Or.inr le_rfl
  | succ m later ih =>
      rcases ih with done | below
      · exact Or.inl done
      · rcases x.tick_cases m with ⟨-, same⟩ | ⟨e, event, taken⟩
        · exact Or.inr (same ▸ below)
        · by_cases isKind : kind e
          · rcases seen (follows.related m) taken isKind (follows.views m e event) with
              now | smaller
            · exact Or.inl ⟨m, later, now⟩
            · exact Or.inr (smaller.le.trans below)
          · exact Or.inr ((steady taken isKind).trans below)

/-- Fairness carries over when a kind that can move is answered by one that can, and each
step of the kind is seen or lowers a measure that only its own steps raise. -/
theorem fair (follows : y.Follows x R view) (μ : S → Nat)
    (enabled : ∀ {es s fs a}, R es s fs a → Enabled abstractStep kind' a → Enabled step kind s)
    (seen : ∀ {es s e t fs a o}, R es s fs a → step s e t → kind e → view e o →
      (∃ f, o = some f ∧ kind' f) ∨ μ t < μ s)
    (steady : ∀ {s e t}, step s e t → ¬ kind e → μ t ≤ μ s) (fair : x.Fair kind) :
    y.Fair kind' := by
  intro n always
  generalize measure : μ (x.state n) = k
  induction k using Nat.strong_induction_on generalizing n with
  | _ k ih =>
      obtain ⟨m, later, e, event, isKind⟩ :=
        fair n fun j since => enabled (follows.related j) (always j since)
      rcases follows.seen_or_le seen steady later with done | below
      · exact done
      rcases x.tick_cases m with ⟨none, -⟩ | ⟨e', event', taken⟩
      · cases none.symm.trans event
      obtain rfl : e' = e := Option.some.inj (event'.symm.trans event)
      rcases seen (follows.related m) taken isKind (follows.views m e' event) with now | smaller
      · exact ⟨m, later, now⟩
      · obtain ⟨j, since, done⟩ := ih _ (by omega) (m + 1)
          (fun j since => always j (by omega)) rfl
        exact ⟨j, by omega, done⟩

end Execution.Follows

end TelemetrixDb.Transition
