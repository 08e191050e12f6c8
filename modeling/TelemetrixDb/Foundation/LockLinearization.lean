import TelemetrixDb.Foundation.LockSerialization

/-!
# Calls under locks take effect at one instant

The serial order of the calls is that of their acquisitions. Each call that returns
from a section took its lock once, after it was made and before it returned, so the
serial order agrees with the order of any two calls of which one returned before the
other was made.

-/

namespace TelemetrixDb.LockSections
open Transition

variable {I A D E R K T : Type} {Ans : A → Type}

/-- The steps at which thread `t` makes a call, takes a lock for it or returns from it. -/
def Event.Marks (t : T) : Event I A R K T → Prop
  | .call u _ | .acquire u _ _ | .returns u _ _ => u = t
  | .spin _ | .access _ _ _ | .release _ _ => False

/-- Thread `t` does none of these. -/
def Away (t : T) (es : List (Event I A R K T)) : Prop := ∀ e ∈ es, ¬ e.Marks t

/-- The last of these steps of thread `t` made the call `k`. -/
def Entered (t : T) (k : K) (es : List (Event I A R K T)) : Prop :=
  ∃ before after, es = before ++ .call t k :: after ∧ Away t after

/-- The last two of these steps of thread `t` made the call `k` and took its lock. -/
def Taken (t : T) (k : K) (i : I) (es : List (Event I A R K T)) : Prop :=
  ∃ es' after, es = es' ++ .acquire t k i :: after ∧ Entered t k es' ∧ Away t after

variable {t : T} {k : K} {i : I} {e : Event I A R K T} {es : List (Event I A R K T)}

theorem Away.snoc (h : Away t es) (other : ¬ e.Marks t) : Away t (es ++ [e]) := by
  intro e' mem
  rcases List.mem_append.mp mem with old | new
  · exact h e' old
  · obtain rfl := List.mem_singleton.mp new
    exact other

theorem Entered.snoc (h : Entered t k es) (other : ¬ e.Marks t) : Entered t k (es ++ [e]) := by
  obtain ⟨before, after, rfl, away⟩ := h
  exact ⟨before, after ++ [e], by simp, away.snoc other⟩

theorem Taken.snoc (h : Taken t k i es) (other : ¬ e.Marks t) : Taken t k i (es ++ [e]) := by
  obtain ⟨es', after, rfl, entered, away⟩ := h
  exact ⟨es', after ++ [e], by simp, entered, away.snoc other⟩

theorem entered_call (t : T) (k : K) (es : List (Event I A R K T)) :
    Entered t k (es ++ [.call t k]) :=
  ⟨es, [], rfl, by simp [Away]⟩

theorem Entered.acquire (h : Entered t k es) (i : I) : Taken t k i (es ++ [.acquire t k i]) :=
  ⟨es, [], rfl, h, by simp [Away]⟩

/-- Where the state of thread `t` puts it in the history. -/
inductive Standing (code : K → Code I A Ans R) (t : T) (es : List (Event I A R K T)) :
    Thread I A Ans R K → Prop
  | outside : Standing code t es .idle
  | before {k : K} (entered : Entered t k es) : Standing code t es (.running k (code k) none)
  | inside {k : K} {i : I} {r : R} {p : Code I A Ans R} (section_ : SectionOf code k i r)
      (rest : Inside i r p) (taken : Taken t k i es) : Standing code t es (.running k p (some i))
  | after {k : K} {i : I} {r : R} (section_ : SectionOf code k i r) (taken : Taken t k i es) :
      Standing code t es (.running k (.ret r) none)

namespace Standing

variable {code : K → Code I A Ans R} {x : Thread I A Ans R K} {r : R}

/-- Other steps do not move a thread's place. -/
theorem snoc (h : Standing code t es x) (other : ¬ e.Marks t) : Standing code t (es ++ [e]) x := by
  cases h with
  | outside => exact .outside
  | before entered => exact .before (entered.snoc other)
  | inside section_ rest taken => exact .inside section_ rest (taken.snoc other)
  | after section_ taken => exact .after section_ (taken.snoc other)

/-- A thread about to take a lock has made the call that begins there. -/
theorem acquires {next : Unit → Code I A Ans R} {held : Option I}
    (h : Standing code t es (.running k (.call (.acquire i) next) held)) :
    code k = .call (.acquire i) next ∧ Entered t k es := by
  generalize hx : (Thread.running k (.call (.acquire i) next) held : Thread I A Ans R K) = x at h
  cases h with
  | outside => cases hx
  | before entered =>
      obtain ⟨rfl, hcode, -⟩ := Thread.running.inj hx
      exact ⟨hcode.symm, entered⟩
  | inside section_ rest taken =>
      obtain ⟨rfl, rfl, -⟩ := Thread.running.inj hx
      cases rest
  | after => cases (Thread.running.inj hx).2.1

/-- A thread about to access or to release a cell has taken its lock. -/
theorem holds (sectioned : ∀ k, Sectioned (code k)) {op : CellOp I A}
    {next : CellAns Ans op → Code I A Ans R} {held : Option I}
    (h : Standing code t es (.running k (.call op next) held)) (notAcquire : ∀ i, op ≠ .acquire i) :
    ∃ i r, held = some i ∧ SectionOf code k i r ∧ Inside i r (.call op next) ∧ Taken t k i es := by
  generalize hx : (Thread.running k (.call op next) held : Thread I A Ans R K) = x at h
  cases h with
  | outside => cases hx
  | @before k' entered =>
      obtain ⟨rfl, hcode, -⟩ := Thread.running.inj hx
      have shape : Sectioned (.call op next) := hcode ▸ sectioned k
      cases shape with
      | guarded i => exact absurd rfl (notAcquire i)
  | inside section_ rest taken =>
      obtain ⟨rfl, rfl, rfl⟩ := Thread.running.inj hx
      exact ⟨_, _, rfl, section_, rest, taken⟩
  | after => cases (Thread.running.inj hx).2.1

/-- A thread about to return made the call, and took its lock when it has one. -/
theorem returns {held : Option I} (h : Standing code t es (.running k (.ret r) held)) :
    (code k = .ret r ∧ Entered t k es) ∨ ∃ i, SectionOf code k i r ∧ Taken t k i es := by
  generalize hx : (Thread.running k (.ret r) held : Thread I A Ans R K) = x at h
  cases h with
  | outside => cases hx
  | before entered =>
      obtain ⟨rfl, hcode, -⟩ := Thread.running.inj hx
      exact Or.inl ⟨hcode.symm, entered⟩
  | inside section_ rest taken =>
      obtain ⟨rfl, rfl, -⟩ := Thread.running.inj hx
      cases rest
  | after section_ taken =>
      obtain ⟨rfl, same, -⟩ := Thread.running.inj hx
      obtain rfl := Program.ret.inj same
      exact Or.inr ⟨_, section_, taken⟩

end Standing

section Runs

variable [DecidableEq I] [DecidableEq T]
variable {code : K → Code I A Ans R} {access : (a : A) → D → Except E (Ans a × D)} {P : D → Prop}
variable {w w' : World I A D R K T Ans} {s₀ : I → Guarded D}

/-- Every step puts each thread where its state says. -/
theorem Standing.step (sectioned : ∀ k, Sectioned (code k)) (h : Standing code t es (w.thread t))
    (step : Step code access w e w') : Standing code t (es ++ [e]) (w'.thread t) := by
  have other {u : T} {y : Thread I A Ans R K} (hut : t ≠ u) (unmarked : ¬ e.Marks t) :
      Standing code t (es ++ [e]) (Function.update w.thread u y t) := by
    rw [Function.update_of_ne hut]
    exact h.snoc unmarked
  have mine {y : Thread I A Ans R K} (here : Standing code t (es ++ [e]) y) :
      Standing code t (es ++ [e]) (Function.update w.thread t y t) := by
    rw [Function.update_self]
    exact here
  cases step with
  | @call store thread u k idle =>
      by_cases hut : t = u
      · subst hut
        exact mine (.before (entered_call t k es))
      · exact other hut (Ne.symm hut)
  | @acquire store thread u k i next held at_ free =>
      by_cases hut : t = u
      · subst hut
        simp only [at_] at h
        obtain ⟨hcode, entered⟩ := h.acquires
        have shape : Sectioned (.call (.acquire i) next) := hcode ▸ sectioned k
        cases shape with
        | guarded _ r rest =>
            exact mine (.inside ⟨next, hcode, rest⟩ rest (entered.acquire i))
      · exact other hut (Ne.symm hut)
  | spin => exact h.snoc id
  | @access store thread u k i a next held y d at_ result =>
      by_cases hut : t = u
      · subst hut
        simp only [at_] at h
        obtain ⟨j, r, rfl, section_, rest, taken⟩ := h.holds sectioned (by simp)
        cases rest with
        | access _ rest =>
            exact mine (.inside section_ (rest y) (taken.snoc id))
      · exact other hut id
  | @release store thread u k i next held at_ =>
      by_cases hut : t = u
      · subst hut
        simp only [at_] at h
        obtain ⟨j, r, rfl, section_, rest, taken⟩ := h.holds sectioned (by simp)
        cases rest with
        | release ret =>
            have returned : Standing code t (es ++ [.release t i]) (.running k (next ()) none) := by
              rw [ret]
              exact .after section_ (taken.snoc id)
            exact mine returned
      · exact other hut id
  | @returns store thread u k r held at_ =>
      by_cases hut : t = u
      · subst hut
        exact mine .outside
      · exact other hut (Ne.symm hut)

theorem standing_run (sectioned : ∀ k, Sectioned (code k))
    (run : Run (Step code access) ⟨s₀, fun _ => .idle⟩ es w) (t : T) :
    Standing code t es (w.thread t) :=
  run.history_invariant (I := fun es w => Standing code t es (w.thread t)) .outside
    fun h step => h.step sectioned step

/-- A lock is taken for the call that its thread is in. -/
theorem entered_of_acquire (sectioned : ∀ k, Sectioned (code k)) {rest : List (Event I A R K T)}
    (run : Run (Step code access) ⟨s₀, fun _ => .idle⟩ (es ++ .acquire t k i :: rest) w) :
    Entered t k es := by
  obtain ⟨x, y, upTo, last⟩ := run.split_at
  have here := standing_run sectioned upTo t
  cases last with
  | acquire at_ =>
      simp only [at_] at here
      exact here.acquires.2

/-- A call that returns has taken its lock since it was made, if it has one. -/
theorem taken_of_returns (sectioned : ∀ k, Sectioned (code k)) {r : R}
    {rest : List (Event I A R K T)}
    (run : Run (Step code access) ⟨s₀, fun _ => .idle⟩ (es ++ .returns t k r :: rest) w) :
    (code k = .ret r ∧ Entered t k es) ∨ ∃ i, SectionOf code k i r ∧ Taken t k i es := by
  obtain ⟨x, y, upTo, last⟩ := run.split_at
  have here := standing_run sectioned upTo t
  cases last with
  | returns at_ =>
      simp only [at_] at here
      exact here.returns

/-- A thread inside its section comes to the end of it when it moves alone. -/
theorem section_runs {p : Code I A Ans R} {r : R} (rest : Inside i r p) {store : I → Guarded D}
    {thread : T → Thread I A Ans R K} {d : D} (at_ : thread t = .running k p (some i))
    (ran : effect access p (store i).data = .ok d) :
    ∃ fs, Run (Step code access) ⟨store, thread⟩ fs
      ⟨Function.update store i ⟨d, false⟩,
        Function.update thread t (.running k (.ret r) none)⟩ := by
  induction rest generalizing store thread with
  | @access a next rest ih =>
      simp only [effect] at ran
      cases result : access a (store i).data with
      | error e => simp [result] at ran
      | ok answer =>
          obtain ⟨x, d'⟩ := answer
          simp only [result] at ran
          let accessed : I → Guarded D := Function.update store i { store i with data := d' }
          have rest : effect access (next x) (accessed i).data = .ok d := by
            simpa [accessed] using ran
          obtain ⟨fs, run⟩ := ih x (Function.update_self t (.running k (next x) (some i)) thread) rest
          rw [Function.update_idem, Function.update_idem] at run
          exact ⟨_, (Run.single (.access at_ result)).trans run⟩
  | @release next ret =>
      obtain rfl : (store i).data = d := Except.ok.inj ran
      have last : Step code access ⟨store, thread⟩ (.release t i) _ := .release at_
      rw [ret] at last
      exact ⟨_, .single last⟩

end Runs

end TelemetrixDb.LockSections
