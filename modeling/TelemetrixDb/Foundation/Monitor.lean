import TelemetrixDb.Foundation.Transition
import Mathlib.Data.Fintype.Card
import Mathlib.Data.Finset.Card
import Mathlib.Logic.Function.Basic

/-!
# Monitors: one lock, condition variables and any number of threads

Threads call operations on a shared state. With the lock held an operation
either blocks on a condition, which gives the lock back, or finishes: it
replaces the state, returns a reply and notifies conditions. A blocked thread
is woken by a notice or for no reason, and then competes for the lock again
with every thread that is entering.

## Implementation notes

One step is one stretch of a thread between taking the lock and giving it
back, so the lock is free in every configuration. A body that fails has no
step; that no body fails is for each instance to prove. Taking the lock is no step of
its own: where executions are taken to be fair to the steps of a thread, the lock is
taken to be fair as well, and to starve no thread that keeps asking for it.

-/

namespace TelemetrixDb.Monitor
open Transition

/-- What a finished critical section tells the waiters of a condition. -/
inductive Notice
  | none
  | signal
  | broadcast
  deriving DecidableEq

/-- The end of one stretch under the lock. -/
inductive Outcome (S C R : Type*)
  | wait (c : C)
  | done (s : S) (reply : R) (notice : C → Notice)

/-- Where a thread stands: outside every call, waiting for the lock at the
start of a call, asleep on a condition, or awake and waiting for the lock. -/
inductive Phase (Op C : Type*)
  | idle
  | entering (op : Op)
  | blocked (op : Op) (c : C)
  | woken (op : Op) (c : C)

namespace Phase

variable {Op C : Type*}

/-- The thread is asleep on `c`. -/
def BlockedOn (c : C) : Phase Op C → Prop
  | blocked _ c' => c' = c
  | _ => False

/-- The thread was woken from `c` and has not re-acquired the lock. -/
def WokenOn (c : C) : Phase Op C → Prop
  | woken _ c' => c' = c
  | _ => False

/-- The thread may take the lock on behalf of `op`. -/
def Wants (op : Op) : Phase Op C → Prop
  | entering op' => op' = op
  | woken op' _ => op' = op
  | _ => False

/-- Leave the condition's queue. -/
def wake : Phase Op C → Phase Op C
  | blocked op c => woken op c
  | p => p

instance [DecidableEq C] (c : C) : DecidablePred fun p : Phase Op C => p.WokenOn c :=
  fun p => by cases p <;> unfold WokenOn <;> infer_instance

theorem wokenOn_iff {c : C} {p : Phase Op C} : p.WokenOn c ↔ ∃ op, p = woken op c := by
  cases p <;> simp [WokenOn]

theorem blockedOn_iff {c : C} {p : Phase Op C} : p.BlockedOn c ↔ ∃ op, p = blocked op c := by
  cases p <;> simp [BlockedOn]

theorem Wants.not_blockedOn {op : Op} {p : Phase Op C} (h : p.Wants op) (c : C) :
    ¬ p.BlockedOn c := by
  cases p <;> simp_all [Wants, BlockedOn]

theorem BlockedOn.not_wokenOn {c c' : C} {p : Phase Op C} (h : p.BlockedOn c) :
    ¬ p.WokenOn c' := by
  cases p <;> simp_all [BlockedOn, WokenOn]

theorem BlockedOn.wake {c : C} {p : Phase Op C} (h : p.BlockedOn c) : p.wake.WokenOn c := by
  cases p <;> simp_all [BlockedOn, WokenOn, Phase.wake]

theorem WokenOn.wake {c : C} {p : Phase Op C} (h : p.WokenOn c) : p.wake.WokenOn c := by
  cases p <;> simp_all [WokenOn, Phase.wake]

theorem not_blockedOn_wake (c : C) (p : Phase Op C) : ¬ p.wake.BlockedOn c := by
  cases p <;> simp [BlockedOn, Phase.wake]

end Phase

/-- The shared state with the lock free, and each thread's phase. -/
structure Config (S T Op C : Type*) where
  shared : S
  phase : T → Phase Op C

/-- What a step of the monitor shows: a call begins, a thread blocks, a thread
finishes its call under the lock, or a blocked thread wakes for no reason. -/
inductive Event (T Op C : Type*) (R : Op → Type*)
  | call (t : T) (op : Op)
  | waits (t : T) (op : Op) (c : C)
  | returns (t : T) (op : Op) (reply : R op)
  | spurious (t : T)

variable {S T Op C F A G : Type*} {R : Op → Type*}

/-- Two sections that end alike, leaving related states. -/
inductive Outcome.Rel {Q : Type*} (related : S → A → Prop) :
    Outcome S C Q → Outcome A C Q → Prop
  | wait (c : C) : Outcome.Rel related (.wait c) (.wait c)
  | done {s : S} {a : A} (h : related s a) (reply : Q) (notice : C → Notice) :
      Outcome.Rel related (.done s reply notice) (.done a reply notice)

/-- The woken threads are waiters of notified conditions: all of them after a
broadcast, and at least one, if there is one, after a signal. -/
structure Wakes (notice : C → Notice) (phase : T → Phase Op C) (chosen : T → Bool) : Prop where
  only : ∀ t, chosen t = true → ∃ c, (phase t).BlockedOn c ∧ notice c ≠ .none
  all : ∀ c, notice c = .broadcast → ∀ t, (phase t).BlockedOn c → chosen t = true
  some : ∀ c, notice c = .signal → (∃ t, (phase t).BlockedOn c) →
    ∃ t, (phase t).BlockedOn c ∧ chosen t = true

/-- The phases after waking the chosen threads. -/
def wakeAll (chosen : T → Bool) (phase : T → Phase Op C) : T → Phase Op C :=
  fun t => if chosen t then (phase t).wake else phase t

variable [DecidableEq T] (body : S → (op : Op) → Except F (Outcome S C (R op)))

/-- One step of some thread: a call begins, or a stretch under the lock from taking it
to giving it back. Fairness to a thread's steps assumes a lock without starvation. -/
inductive Step : Config S T Op C → Event T Op C R → Config S T Op C → Prop
  | call {s phase} {t : T} (op : Op) (free : phase t = .idle) :
      Step ⟨s, phase⟩ (.call t op) ⟨s, Function.update phase t (.entering op)⟩
  | waits {s phase} {t : T} {op : Op} {c : C} (wants : (phase t).Wants op)
      (run : body s op = .ok (.wait c)) :
      Step ⟨s, phase⟩ (.waits t op c) ⟨s, Function.update phase t (.blocked op c)⟩
  | returns {s phase} {t : T} {op : Op} {s' : S} {reply : R op} {notice : C → Notice}
      {chosen : T → Bool} (wants : (phase t).Wants op)
      (run : body s op = .ok (.done s' reply notice)) (wakes : Wakes notice phase chosen) :
      Step ⟨s, phase⟩ (.returns t op reply)
        ⟨s', Function.update (wakeAll chosen phase) t .idle⟩
  | spurious {s phase} {t : T} {op : Op} {c : C} (asleep : phase t = .blocked op c) :
      Step ⟨s, phase⟩ (.spurious t) ⟨s, Function.update phase t (.woken op c)⟩

/-- Nobody is in a call yet. -/
def Config.start (s : S) : Config S T Op C := ⟨s, fun _ => .idle⟩

omit [DecidableEq T] in
@[simp] theorem Config.start_shared (s : S) :
    (Config.start s : Config S T Op C).shared = s := rfl

/-- The call, if any, that an event completes. -/
def Event.completed : Event T Op C R → List ((op : Op) × R op)
  | .returns _ op reply => [⟨op, reply⟩]
  | _ => []

/-- The shared object used by one caller after the other. -/
def ObjectStep (s : S) (e : (op : Op) × R op) (s' : S) : Prop :=
  ∃ notice, body s e.1 = .ok (.done s' e.2 notice)

variable {body} {σ τ : Config S T Op C} {es : List (Event T Op C R)}

omit [DecidableEq T] in
/-- Waking every waiter of every notified condition is always a choice. -/
theorem Wakes.exists (notice : C → Notice) (phase : T → Phase Op C) :
    ∃ chosen, Wakes notice phase chosen := by
  classical
  refine ⟨fun t => decide (∃ c, (phase t).BlockedOn c ∧ notice c ≠ .none), ?_, ?_, ?_⟩
  · intro t ht
    exact of_decide_eq_true ht
  · intro c hc t ht
    exact decide_eq_true ⟨c, ht, by simp [hc]⟩
  · rintro c hc ⟨t, ht⟩
    exact ⟨t, ht, decide_eq_true ⟨c, ht, by simp [hc]⟩⟩

/-- A thread whose section finishes can take its step. -/
theorem exists_returns {t : T} {op : Op} {s' : S} {reply : R op} {notice : C → Notice}
    (wants : (σ.phase t).Wants op) (run : body σ.shared op = .ok (.done s' reply notice)) :
    ∃ τ, Step body σ (.returns t op reply) τ := by
  obtain ⟨chosen, wakes⟩ := Wakes.exists notice σ.phase
  exact ⟨_, .returns wants run wakes⟩

/-- An uncontended call that has to wait leaves its thread asleep. -/
theorem solo_wait (t : T) {op : Op} {s : S} {c : C} (h : body s op = .ok (.wait c)) :
    Run (Step body) (Config.start s) [.call t op, .waits t op c]
      ⟨s, Function.update (fun _ => .idle) t (.blocked op c)⟩ := by
  have entered : (Function.update (fun _ : T => Phase.idle) t (.entering op) t : Phase Op C).Wants
      op := by simp [Phase.Wants]
  have slept := Step.waits entered h
  rw [Function.update_idem] at slept
  exact (Run.single (.call op rfl)).snoc slept

/-- A thread that entered alone finishes and leaves everybody outside again. -/
theorem solo_return (t : T) {op : Op} {s s' : S} {reply : R op} {notice : C → Notice}
    (h : body s op = .ok (.done s' reply notice)) :
    Step body ⟨s, Function.update (fun _ => .idle) t (.entering op)⟩ (.returns t op reply)
      (Config.start s') := by
  have wakes : Wakes notice (Function.update (fun _ => Phase.idle) t (.entering op))
      fun _ : T => false :=
    { only := by simp
      all := fun c _ u hu => by by_cases hut : u = t <;> simp_all [Phase.BlockedOn]
      some := fun c _ ⟨u, hu⟩ => by by_cases hut : u = t <;> simp_all [Phase.BlockedOn] }
  have returned := Step.returns (t := t) (by simp [Phase.Wants]) h wakes
  have outside : Function.update (wakeAll (fun _ : T => false)
      (Function.update (fun _ => Phase.idle) t (.entering op))) t .idle =
      fun _ => (Phase.idle : Phase Op C) := by
    funext u
    by_cases hut : u = t <;> simp [hut, wakeAll]
  rwa [outside] at returned

/-- An uncontended call enters, finishes and leaves everybody outside again. -/
theorem solo_call (t : T) {op : Op} {s s' : S} {reply : R op} {notice : C → Notice}
    (h : body s op = .ok (.done s' reply notice)) :
    Run (Step body) (Config.start s) [.call t op, .returns t op reply] (Config.start s') :=
  (Run.single (.call op rfl)).snoc (solo_return t h)

/-- Every interleaving acts on the shared state as its completed calls do, one
after the other in the order in which they held the lock. -/
theorem object_run (run : Run (Step body) σ es τ) :
    Run (ObjectStep body) σ.shared (es.flatMap Event.completed) τ.shared := by
  obtain ⟨s, hs, objectRun⟩ := run.simulate (ObjectStep body) Event.completed
    (R := fun σ s => σ.shared = s)
    (fun {σ e τ s} hs step => by
      subst hs
      cases step with
      | call => exact ⟨_, rfl, Run.refl _⟩
      | waits => exact ⟨_, rfl, Run.refl _⟩
      | returns _ run _ => exact ⟨_, rfl, Run.single ⟨_, run⟩⟩
      | spurious => exact ⟨_, rfl, Run.refl _⟩)
    rfl
  exact hs ▸ objectRun

/-- What every finished critical section preserves holds throughout a run. -/
theorem shared_invariant {I : S → Prop} (run : Run (Step body) σ es τ)
    (start : I σ.shared)
    (keep : ∀ {s op s' reply notice}, I s → body s op = .ok (.done s' reply notice) → I s') :
    I τ.shared :=
  (object_run run).invariant start fun h ⟨_, step⟩ => keep h step

/-- A body refines another when on related states neither fails and both end
alike. -/
def Refines (body : S → (op : Op) → Except F (Outcome S C (R op)))
    (abstractBody : A → (op : Op) → Except G (Outcome A C (R op)))
    (related : S → A → Prop) : Prop :=
  ∀ {s a}, related s a → ∀ op, ∃ o o', body s op = .ok o ∧ abstractBody a op = .ok o' ∧
    o.Rel related o'

variable {abstractBody : A → (op : Op) → Except G (Outcome A C (R op))} {related : S → A → Prop}

/-- One step of the refined monitor is a step of the abstract one with the same
event and the same effect on the threads. -/
theorem Refines.step (refines : Refines body abstractBody related) {e : Event T Op C R}
    (step : Step body σ e τ) {a : A} (h : related σ.shared a) :
    ∃ b, related τ.shared b ∧ Step abstractBody ⟨a, σ.phase⟩ e ⟨b, τ.phase⟩ := by
  cases step with
  | call op free => exact ⟨a, h, .call op free⟩
  | @waits s phase t op c wants run =>
      obtain ⟨o, o', ho, ho', rel⟩ := refines h op
      obtain rfl := Except.ok.inj (run.symm.trans ho)
      cases rel with
      | wait => exact ⟨a, h, .waits wants ho'⟩
  | @returns s phase t op s' reply notice chosen wants run wakes =>
      obtain ⟨o, o', ho, ho', rel⟩ := refines h op
      obtain rfl := Except.ok.inj (run.symm.trans ho)
      cases rel with
      | done hb => exact ⟨_, hb, .returns wants ho' wakes⟩
  | spurious asleep => exact ⟨a, h, .spurious asleep⟩

/-- Every run of the refined monitor is a run of the abstract one. -/
theorem Refines.run (refines : Refines body abstractBody related)
    (run : Run (Step body) σ es τ) {a : A} (h : related σ.shared a) :
    ∃ b, related τ.shared b ∧ Run (Step abstractBody) ⟨a, σ.phase⟩ es ⟨b, τ.phase⟩ := by
  obtain ⟨⟨b, phase⟩, ⟨hb, hphase⟩, abstractRun⟩ := run.simulate (Step abstractBody) (fun e => [e])
    (R := fun σ α => related σ.shared α.shared ∧ α.phase = σ.phase)
    (fun {σ e τ α} hR step => by
      obtain ⟨a, phase⟩ := α
      obtain ⟨h, rfl⟩ := hR
      obtain ⟨b, hb, next⟩ := refines.step step h
      exact ⟨⟨b, τ.phase⟩, ⟨hb, rfl⟩, Run.single next⟩)
    (a := ⟨a, σ.phase⟩) ⟨h, rfl⟩
  dsimp only at hb hphase
  subst hphase
  exact ⟨b, hb, by simpa using abstractRun⟩

end TelemetrixDb.Monitor
