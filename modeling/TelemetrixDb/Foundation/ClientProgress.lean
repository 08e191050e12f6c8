import TelemetrixDb.Foundation.MonitorClients

/-!
# What one thread can do by itself

A thread that is in a call on the monitor stands at that call in its code. So it
can finish a call whose section finishes, and code whose own calls are all
answered can run to the end of the turn, without a step of any other thread.

-/

namespace TelemetrixDb.Monitor
open Transition

namespace Phase

variable {Op C : Type*}

/-- The call that a thread is in. -/
def pending : Phase Op C → Option Op
  | idle => none
  | entering op | blocked op _ | woken op _ => some op

@[simp] theorem pending_wake (p : Phase Op C) : p.wake.pending = p.pending := by
  cases p <;> rfl

theorem Wants.pending {op : Op} {p : Phase Op C} (h : p.Wants op) : p.pending = some op := by
  cases p <;> simp_all [Wants, Phase.pending]

theorem pending_eq_none {p : Phase Op C} (h : p.pending = none) : p = idle := by
  cases p <;> simp_all [Phase.pending]

/-- A thread in a call that is not asleep may take the lock. -/
theorem wants_of_pending {op : Op} {p : Phase Op C} (h : p.pending = some op)
    (awake : ∀ c, ¬ p.BlockedOn c) : p.Wants op := by
  cases p with
  | idle => cases h
  | entering op' => exact Option.some.inj h
  | blocked op' c => exact absurd rfl (awake c)
  | woken op' c => exact Option.some.inj h

end Phase

variable {S T C W α F Op L : Type} {R : Op → Type} {Q : L → Type} [DecidableEq T]
variable {body : S → (op : Op) → Except F (Outcome S C (R op))}
variable {own : (l : L) → W → Q l → W → Prop} {resume : α → Option (Client R Q α)}
variable {s s' : System S T C W α R Q} {e : SystemEvent T C R Q} {es : List (SystemEvent T C R Q)}

/-- A thread in a call on the monitor stands at that call in its code. -/
def StandsAt (p : Phase Op C) (code : Client R Q α) : Prop :=
  ∀ op, p.pending = some op → ∃ next, code = .call (.shared op) next

theorem standsAt_of_pending {p : Phase Op C} {op : Op} {next : R op → Client R Q α}
    (h : p.pending = some op) : StandsAt p (Program.call (.shared op) next : Client R Q α) := by
  intro op' h'
  obtain rfl : op = op' := Option.some.inj (h.symm.trans h')
  exact ⟨next, rfl⟩

/-- A thread whose code is not at a call on the monitor is in none. -/
theorem StandsAt.pending_none {p : Phase Op C} {code : Client R Q α} (h : StandsAt p code)
    (off : ∀ op next, code ≠ .call (.shared op) next) : p.pending = none := by
  cases inside : p.pending with
  | none => rfl
  | some op =>
      obtain ⟨next, at_⟩ := h op inside
      exact absurd at_ (off op next)

/-- Every thread in a call stands at it. -/
def Synced (phase : T → Phase Op C) (code : T → Client R Q α) : Prop :=
  ∀ t, StandsAt (phase t) (code t)

theorem Synced.update {phase : T → Phase Op C} {code : T → Client R Q α} (h : Synced phase code)
    (t : T) {p : Phase Op C} {q : Client R Q α} (hq : StandsAt p q) :
    Synced (Function.update phase t p) (Function.update code t q) := by
  intro u
  by_cases hut : u = t
  · subst hut
    simpa using hq
  · simpa [Function.update_of_ne hut] using h u

theorem Synced.phase {phase : T → Phase Op C} {code : T → Client R Q α} (h : Synced phase code)
    (t : T) {p : Phase Op C} (hp : StandsAt p (code t)) : Synced (Function.update phase t p) code := by
  simpa using h.update t hp

theorem Synced.code {phase : T → Phase Op C} {code : T → Client R Q α} (h : Synced phase code)
    (t : T) {q : Client R Q α} (outside : (phase t).pending = none) :
    Synced phase (Function.update code t q) := by
  have stays : StandsAt (phase t) q := fun op inside => by simp [outside] at inside
  simpa using h.update t stays

omit [DecidableEq T] in
theorem Synced.wakeAll {phase : T → Phase Op C} {code : T → Client R Q α} (h : Synced phase code)
    (chosen : T → Bool) : Synced (wakeAll chosen phase) code := by
  intro t op inside
  apply h t op
  unfold Monitor.wakeAll at inside
  split at inside
  · simpa using inside
  · exact inside

theorem Synced.step (h : Synced s.monitor.phase s.code)
    (step : ClientStep body own resume s e s') : Synced s'.monitor.phase s'.code := by
  cases step with
  | @call σ τ code world t op next at_ step =>
      cases step with
      | call _ free =>
          refine Synced.phase h t ?_
          dsimp only
          rw [at_]
          exact standsAt_of_pending rfl
  | waits step =>
      cases step with
      | waits wants run =>
          obtain ⟨next, at_⟩ := h _ _ wants.pending
          refine Synced.phase h _ ?_
          rw [at_]
          exact standsAt_of_pending rfl
  | spurious step =>
      cases step with
      | spurious asleep =>
          have inside := (congrArg Phase.pending asleep).trans rfl
          obtain ⟨next, at_⟩ := h _ _ inside
          refine Synced.phase h _ ?_
          rw [at_]
          exact standsAt_of_pending rfl
  | @returns σ τ code world t op reply next at_ step =>
      cases step with
      | @returns _ _ _ _ _ _ _ chosen wants run wakes =>
          exact (Synced.wakeAll h chosen).update t fun op inside => by cases inside
  | own at_ run =>
      refine Synced.code h _ ((h _).pending_none fun op next' at' => ?_)
      cases at_.symm.trans at'
  | again at_ more =>
      refine Synced.code h _ ((h _).pending_none fun op next' at' => ?_)
      cases at_.symm.trans at'

/-- Code and monitor agree in every run from a start where nobody is in a call. -/
theorem Synced.run (run : Run (ClientStep body own resume) s es s')
    (idle : ∀ t, s.monitor.phase t = .idle) : Synced s'.monitor.phase s'.code := by
  refine run.invariant (I := fun s : System S T C W α R Q => Synced s.monitor.phase s.code)
    ?_ fun h step => Synced.step h step
  intro t op inside
  rw [idle t] at inside
  cases inside

/-- The end of a call on the monitor by `t`. -/
def SystemEvent.IsCallOf (t : T) (op : Op) (reply : R op) (es : List (SystemEvent T C R Q)) : Prop :=
  es = [.shared (.call t op), .shared (.returns t op reply)] ∨ es = [.shared (.returns t op reply)]

/-- A thread at a call whose section finishes can finish it. -/
theorem call_finishes (synced : Synced s.monitor.phase s.code) {t : T} {op : Op} {next}
    (at_ : s.code t = .call (.shared op) next) (awake : ∀ c, ¬ (s.monitor.phase t).BlockedOn c)
    {x : S} {reply : R op} {notice : C → Notice}
    (finishes : body s.monitor.shared op = .ok (.done x reply notice)) :
    ∃ es s', Run (ClientStep body own resume) s es s' ∧ SystemEvent.IsCallOf t op reply es ∧
      s'.code t = next reply := by
  obtain ⟨⟨shared, phase⟩, code, world⟩ := s
  cases inside : (phase t).pending with
  | none =>
      have free : phase t = .idle := Phase.pending_eq_none inside
      obtain ⟨chosen, wakes⟩ := Wakes.exists notice (Function.update phase t (.entering op))
      have wants : (Function.update phase t (.entering op) t : Phase Op C).Wants op := by
        simp [Phase.Wants]
      have entered : ClientStep body own resume ⟨⟨shared, phase⟩, code, world⟩ _ _ :=
        .call at_ (.call op free)
      refine ⟨_, _, (Run.single entered).snoc (.returns at_ (.returns wants finishes wakes)),
        Or.inl rfl, ?_⟩
      exact Function.update_self _ _ _
  | some op' =>
      obtain ⟨next', at'⟩ := synced t op' inside
      obtain rfl : op = op' := by
        rw [at_] at at'
        cases at'
        rfl
      obtain ⟨chosen, wakes⟩ := Wakes.exists notice phase
      have wants := Phase.wants_of_pending inside awake
      refine ⟨_, _, Run.single (.returns at_ (.returns wants finishes wakes)), Or.inr rfl, ?_⟩
      exact Function.update_self _ _ _

/-- An own call that satisfies `may`. -/
def OwnOnly (may : L → Prop) : ClientOp Op L → Prop
  | .shared _ => False
  | .own l => may l

/-- Code whose own calls are all answered runs to the end of the turn. -/
theorem own_calls_finish {may : L → Prop} {K : α → Prop} {J : System S T C W α R Q → Prop} {t : T}
    (keeps : ∀ {s e s'}, J s → ClientStep body own resume s e s' → J s')
    (answers : ∀ {s l}, J s → may l → ∃ x w, own l s.world x w) (h : J s)
    (calls : CallsOnly (OwnOnly may) K (s.code t)) :
    ∃ es s' a, Run (ClientStep body own resume) s es s' ∧ (∀ e ∈ es, ∃ l x, e = .own t l x) ∧
      s'.code t = .ret a ∧ K a ∧ J s' := by
  generalize hcode : s.code t = code at calls
  induction code generalizing s with
  | ret a => exact ⟨[], s, a, .refl s, by simp, hcode, calls, h⟩
  | call op next ih =>
      cases op with
      | shared op => exact calls.1.elim
      | own l =>
          obtain ⟨x, w, answered⟩ := answers h calls.1
          obtain ⟨σ, code, world⟩ := s
          have step : ClientStep body own resume ⟨σ, code, world⟩ (.own t l x)
              ⟨σ, Function.update code t (next x), w⟩ := .own hcode answered
          obtain ⟨es, s', a, run, mine, at_, last, h'⟩ := ih x (keeps h step)
            (Function.update_self _ _ _) (calls.2 x)
          refine ⟨_, s', a, (Run.single step).trans run, ?_, at_, last, h'⟩
          intro e he
          rcases List.mem_append.mp he with first | rest
          · exact ⟨l, x, List.mem_singleton.mp first⟩
          · exact mine e rest

end TelemetrixDb.Monitor
