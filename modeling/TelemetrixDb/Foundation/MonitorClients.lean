import TelemetrixDb.Foundation.Monitor
import TelemetrixDb.Foundation.Program

/-!
# Threads that run programs against a monitor

Each thread runs a program whose calls go to the shared object of the monitor or
are the thread's own, and begins a new turn when the program returns. What a run
does to the shared object is a run of the monitor. What one thread does can be
reasoned about along its own program, with the other threads showing only in what
their sections do to the shared state.

-/

namespace TelemetrixDb.Monitor
open Transition

/-- A call on the shared object or a call of the thread's own. -/
inductive ClientOp (Op L : Type)
  | shared (op : Op)
  | own (l : L)

abbrev ClientAns {Op L : Type} (R : Op → Type) (Q : L → Type) : ClientOp Op L → Type
  | .shared op => R op
  | .own l => Q l

abbrev Client {Op L : Type} (R : Op → Type) (Q : L → Type) (α : Type) :=
  Program (ClientOp Op L) (ClientAns R Q) α

/-- A call with its answer. -/
abbrev Called {Op L : Type} (R : Op → Type) (Q : L → Type) :=
  (op : ClientOp Op L) × ClientAns R Q op

/-- The monitor, each thread's code, and what the threads' own calls act on. -/
structure System (S T C W α : Type) {Op L : Type} (R : Op → Type) (Q : L → Type) where
  monitor : Config S T Op C
  code : T → Client R Q α
  world : W

/-- What a step of the system shows. -/
inductive SystemEvent (T C : Type) {Op L : Type} (R : Op → Type) (Q : L → Type)
  | shared (e : Event T Op C R)
  | own (t : T) (l : L) (x : Q l)
  | again (t : T)

variable {S T C W α F Op L β : Type} {R : Op → Type} {Q : L → Type}
variable [DecidableEq T] (body : S → (op : Op) → Except F (Outcome S C (R op)))
variable (own : (l : L) → W → Q l → W → Prop) (resume : α → Option (Client R Q α))

/-- One step of the system. A thread stays at its call on the shared object from
the moment it enters until the section that finishes the call. -/
inductive ClientStep : System S T C W α R Q → SystemEvent T C R Q → System S T C W α R Q → Prop
  | call {σ τ code world} {t : T} {op : Op} {next} (at_ : code t = .call (.shared op) next)
      (step : Step body σ (.call t op) τ) :
      ClientStep ⟨σ, code, world⟩ (.shared (.call t op)) ⟨τ, code, world⟩
  | waits {σ τ code world} {t : T} {op : Op} {c : C} (step : Step body σ (.waits t op c) τ) :
      ClientStep ⟨σ, code, world⟩ (.shared (.waits t op c)) ⟨τ, code, world⟩
  | spurious {σ τ code world} {t : T} (step : Step body σ (.spurious t) τ) :
      ClientStep ⟨σ, code, world⟩ (.shared (.spurious t)) ⟨τ, code, world⟩
  | returns {σ τ code world} {t : T} {op : Op} {reply : R op} {next}
      (at_ : code t = .call (.shared op) next) (step : Step body σ (.returns t op reply) τ) :
      ClientStep ⟨σ, code, world⟩ (.shared (.returns t op reply))
        ⟨τ, Function.update code t (next reply), world⟩
  | own {σ code world world'} {t : T} {l : L} {x : Q l} {next}
      (at_ : code t = .call (.own l) next) (run : own l world x world') :
      ClientStep ⟨σ, code, world⟩ (.own t l x) ⟨σ, Function.update code t (next x), world'⟩
  | again {σ code world} {t : T} {a : α} {p : Client R Q α} (at_ : code t = .ret a)
      (more : resume a = some p) :
      ClientStep ⟨σ, code, world⟩ (.again t) ⟨σ, Function.update code t p, world⟩

/-- The event of the monitor, if any, in an event of the system. -/
def SystemEvent.onMonitor : SystemEvent T C R Q → List (Event T Op C R)
  | .shared e => [e]
  | _ => []

/-- The call that an event completes, with its thread. -/
def SystemEvent.completed : SystemEvent T C R Q → List (T × Called R Q)
  | .shared (.returns t op reply) => [(t, ⟨.shared op, reply⟩)]
  | .own t l x => [(t, ⟨.own l, x⟩)]
  | _ => []

/-- The completed calls of one thread, in order. -/
def callsOf (t : T) (es : List (SystemEvent T C R Q)) : List (Called R Q) :=
  (es.flatMap SystemEvent.completed).filterMap fun c => if c.1 = t then some c.2 else none

variable {body own resume} {s s' : System S T C W α R Q} {e : SystemEvent T C R Q}
variable {es : List (SystemEvent T C R Q)}

/-- A run of the system is a run of its monitor. -/
theorem monitor_run (run : Run (ClientStep body own resume) s es s') :
    Run (Step body) s.monitor (es.flatMap SystemEvent.onMonitor) s'.monitor := by
  obtain ⟨σ, hσ, monitorRun⟩ := run.simulate (Step body) SystemEvent.onMonitor
    (R := fun s σ => s.monitor = σ)
    (fun {s e s' σ} hs step => by
      subst hs
      cases step with
      | call _ step => exact ⟨_, rfl, Run.single step⟩
      | waits step => exact ⟨_, rfl, Run.single step⟩
      | spurious step => exact ⟨_, rfl, Run.single step⟩
      | returns _ step => exact ⟨_, rfl, Run.single step⟩
      | own => exact ⟨_, rfl, Run.refl _⟩
      | again => exact ⟨_, rfl, Run.refl _⟩)
    rfl
  exact hσ ▸ monitorRun

/-- A thread that calls while everybody is outside gets its answer. -/
theorem solo_client_call {t : T} {op : Op} {x x' : S} {reply : R op} {notice : C → Notice}
    {code : T → Client R Q α} {next} {world : W} (at_ : code t = .call (.shared op) next)
    (h : body x op = .ok (.done x' reply notice)) :
    Run (ClientStep body own resume) ⟨Config.start x, code, world⟩
      [.shared (.call t op), .shared (.returns t op reply)]
      ⟨Config.start x', Function.update code t (next reply), world⟩ :=
  (Run.single (.call at_ (.call op rfl))).snoc (.returns at_ (solo_return t h))

theorem callsOf_append (t : T) (es fs : List (SystemEvent T C R Q)) :
    callsOf t (es ++ fs) = callsOf t es ++ callsOf t fs := by
  simp [callsOf]

@[simp] theorem callsOf_returns (t : T) (op : Op) (reply : R op) :
    callsOf t [(.shared (.returns t op reply) : SystemEvent T C R Q)] = [⟨.shared op, reply⟩] := by
  simp [callsOf, SystemEvent.completed]

@[simp] theorem callsOf_own (t : T) (l : L) (x : Q l) :
    callsOf t [(.own t l x : SystemEvent T C R Q)] = [⟨.own l, x⟩] := by
  simp [callsOf, SystemEvent.completed]

@[simp] theorem callsOf_again (t u : T) : callsOf t [(.again u : SystemEvent T C R Q)] = [] := rfl

/-- What a step is to one thread: a step of another thread, with what that does to
the shared state and to the world, or one of three kinds of steps of its own. -/
inductive ThreadStep (body : S → (op : Op) → Except F (Outcome S C (R op)))
    (own : (l : L) → W → Q l → W → Prop) (resume : α → Option (Client R Q α)) (t : T)
    (s : System S T C W α R Q) (e : SystemEvent T C R Q) (s' : System S T C W α R Q) : Prop
  | others (code : s'.code t = s.code t) (silent : callsOf t [e] = []) (noTurn : e ≠ .again t)
      (shared : s'.monitor.shared = s.monitor.shared ∨ ∃ op reply notice,
        body s.monitor.shared op = .ok (.done s'.monitor.shared reply notice))
      (world : s'.world = s.world ∨ ∃ u l x next, u ≠ t ∧ s.code u = .call (.own l) next ∧
        own l s.world x s'.world)
  | returns {op next reply notice} (before : s.code t = .call (.shared op) next)
      (event : e = .shared (.returns t op reply)) (after : s'.code t = next reply)
      (ran : body s.monitor.shared op = .ok (.done s'.monitor.shared reply notice))
      (world : s'.world = s.world)
  | own {l next x} (before : s.code t = .call (.own l) next) (event : e = .own t l x)
      (after : s'.code t = next x) (ran : own l s.world x s'.world)
      (monitor : s'.monitor = s.monitor)
  | again {a p} (before : s.code t = .ret a) (event : e = .again t) (more : resume a = some p)
      (after : s'.code t = p) (monitor : s'.monitor = s.monitor) (world : s'.world = s.world)

theorem ClientStep.thread (step : ClientStep body own resume s e s') (t : T) :
    ThreadStep body own resume t s e s' := by
  cases step with
  | call at_ step =>
      cases step
      exact .others rfl rfl (by simp) (Or.inl rfl) (Or.inl rfl)
  | waits step =>
      cases step
      exact .others rfl rfl (by simp) (Or.inl rfl) (Or.inl rfl)
  | spurious step =>
      cases step
      exact .others rfl rfl (by simp) (Or.inl rfl) (Or.inl rfl)
  | @returns σ τ code world u op reply next at_ step =>
      cases step with
      | returns _ run _ =>
          by_cases hut : u = t
          · subst hut
            exact .returns at_ rfl (Function.update_self _ _ _) run rfl
          · refine .others (Function.update_of_ne (Ne.symm hut) _ _) ?_ (by simp)
              (Or.inr ⟨op, reply, _, run⟩) (Or.inl rfl)
            simp [callsOf, SystemEvent.completed, hut]
  | @own σ code world world' u l x next at_ run =>
      by_cases hut : u = t
      · subst hut
        exact .own at_ rfl (Function.update_self _ _ _) run rfl
      · refine .others (Function.update_of_ne (Ne.symm hut) _ _) ?_ (by simp) (Or.inl rfl)
          (Or.inr ⟨u, l, x, next, hut, at_, run⟩)
        simp [callsOf, SystemEvent.completed, hut]
  | @again σ code world u a p at_ more =>
      by_cases hut : u = t
      · subst hut
        exact .again at_ rfl more (Function.update_self _ _ _) rfl rfl
      · exact .others (Function.update_of_ne (Ne.symm hut) _ _) rfl (by simpa using hut)
          (Or.inl rfl) (Or.inl rfl)

/-- An assertion about one thread: its completed calls, the rest of its code and
the shared state. It holds at the start, survives the sections of other threads,
and survives each kind of step of the thread itself. -/
structure ThreadRule (body : S → (op : Op) → Except F (Outcome S C (R op)))
    (own : (l : L) → W → Q l → W → Prop) (resume : α → Option (Client R Q α))
    (I : List (Called R Q) → Client R Q α → S → Prop) : Prop where
  rely : ∀ {calls p x op x' reply notice}, I calls p x →
    body x op = .ok (.done x' reply notice) → I calls p x'
  shared : ∀ {calls op next x x' reply notice}, I calls (.call (.shared op) next) x →
    body x op = .ok (.done x' reply notice) →
    I (calls ++ [⟨.shared op, reply⟩]) (next reply) x'
  own : ∀ {calls l next x w y w'}, I calls (.call (.own l) next) x → own l w y w' →
    I (calls ++ [⟨.own l, y⟩]) (next y) x
  again : ∀ {calls a p x}, I calls (.ret a) x → resume a = some p → I calls p x

theorem ThreadRule.step {I : List (Called R Q) → Client R Q α → S → Prop}
    (rule : ThreadRule body own resume I) {t : T}
    (h : I (callsOf t es) (s.code t) s.monitor.shared) (step : ClientStep body own resume s e s') :
    I (callsOf t (es ++ [e])) (s'.code t) s'.monitor.shared := by
  rw [callsOf_append]
  cases step.thread t with
  | others code silent _ shared _ =>
      rw [code, silent, List.append_nil]
      rcases shared with same | ⟨op, reply, notice, ran⟩
      · rwa [same]
      · exact rule.rely h ran
  | returns before event after ran _ =>
      rw [event, after, callsOf_returns]
      rw [before] at h
      exact rule.shared h ran
  | own before event after ran monitor =>
      rw [event, after, monitor, callsOf_own]
      rw [before] at h
      exact rule.own h ran
  | again before event more after monitor _ =>
      rw [event, after, monitor, callsOf_again, List.append_nil]
      rw [before] at h
      exact rule.again h more

/-- The assertion holds of the thread throughout every run. -/
theorem ThreadRule.run {I : List (Called R Q) → Client R Q α → S → Prop}
    (rule : ThreadRule body own resume I) {t : T}
    (run : Run (ClientStep body own resume) s es s') (start : I [] (s.code t) s.monitor.shared) :
    I (callsOf t es) (s'.code t) s'.monitor.shared := by
  let J : List (SystemEvent T C R Q) → System S T C W α R Q → Prop := fun es s =>
    I (callsOf t es) (s.code t) s.monitor.shared
  exact run.history_invariant (I := J) start fun h step => rule.step h step

/-- Every call in the code satisfies `P`, and every turn it ends with `K`. -/
def CallsOnly (P : ClientOp Op L → Prop) (K : α → Prop) : Client R Q α → Prop
  | .ret a => K a
  | .call op next => P op ∧ ∀ x, CallsOnly P K (next x)

theorem CallsOnly.mono {P P' : ClientOp Op L → Prop} {K : α → Prop} {p : Client R Q α}
    (h : CallsOnly P K p) (weaker : ∀ op, P op → P' op) : CallsOnly P' K p := by
  induction p with
  | ret a => exact h
  | call op next ih => exact ⟨weaker op h.1, fun x => ih x (h.2 x)⟩

/-- A sequence makes the calls of its parts. -/
theorem CallsOnly.bind {P : ClientOp Op L → Prop} {K : α → Prop} {J : β → Prop}
    {p : Client R Q α} {f : α → Client R Q β} (first : CallsOnly P K p)
    (second : ∀ a, K a → CallsOnly P J (f a)) : CallsOnly P J (p >>= f) := by
  induction p with
  | ret a => exact second a first
  | call op next ih => exact ⟨first.1, fun x => ih x (first.2 x)⟩

theorem callsOnly_rule {P : ClientOp Op L → Prop} {K : α → Prop}
    (turns : ∀ {a p}, K a → resume a = some p → CallsOnly P K p) :
    ThreadRule body own resume fun calls p _ => (∀ c ∈ calls, P c.1) ∧ CallsOnly P K p where
  rely := fun h _ => h
  shared := by
    rintro calls op next x x' reply notice ⟨past, now, later⟩ -
    refine ⟨?_, later reply⟩
    simpa [or_imp, forall_and] using ⟨past, now⟩
  own := by
    rintro calls l next x w y w' ⟨past, now, later⟩ -
    refine ⟨?_, later y⟩
    simpa [or_imp, forall_and] using ⟨past, now⟩
  again := fun ⟨past, now⟩ more => ⟨past, turns now more⟩

/-- A thread whose code makes only calls that satisfy `P`, turn after turn, has
made no other. -/
theorem callsOnly_run {P : ClientOp Op L → Prop} {K : α → Prop} {t : T}
    (turns : ∀ {a p}, K a → resume a = some p → CallsOnly P K p)
    (run : Run (ClientStep body own resume) s es s') (start : CallsOnly P K (s.code t)) :
    ∀ c ∈ callsOf t es, P c.1 :=
  ((callsOnly_rule turns).run run ⟨by simp, start⟩).1

/-- The rest of its code keeps to these calls too. -/
theorem callsOnly_code {P : ClientOp Op L → Prop} {K : α → Prop} {t : T}
    (turns : ∀ {a p}, K a → resume a = some p → CallsOnly P K p)
    (run : Run (ClientStep body own resume) s es s') (start : CallsOnly P K (s.code t)) :
    CallsOnly P K (s'.code t) :=
  ((callsOnly_rule turns).run run ⟨by simp, start⟩).2

/-- An assertion about one thread: its completed calls, the rest of its code and
what the threads' own calls act on. It survives the own calls that the other
threads may make, and each kind of step of the thread itself. -/
structure WorldRule (own : (l : L) → W → Q l → W → Prop) (resume : α → Option (Client R Q α))
    (may : T → ClientOp Op L → Prop) (t : T)
    (I : List (Called R Q) → Client R Q α → W → Prop) : Prop where
  rely : ∀ {u l calls p w y w'}, u ≠ t → may u (.own l) → I calls p w → own l w y w' → I calls p w'
  shared : ∀ {calls op next w reply}, I calls (.call (.shared op) next) w →
    I (calls ++ [⟨.shared op, reply⟩]) (next reply) w
  own : ∀ {calls l next w y w'}, I calls (.call (.own l) next) w → own l w y w' →
    I (calls ++ [⟨.own l, y⟩]) (next y) w'
  again : ∀ {calls a p w}, I calls (.ret a) w → resume a = some p → I calls p w

theorem WorldRule.step {may : T → ClientOp Op L → Prop} {K : T → α → Prop} {t : T}
    {I : List (Called R Q) → Client R Q α → W → Prop} (rule : WorldRule own resume may t I)
    (codes : ∀ u, CallsOnly (may u) (K u) (s.code u))
    (h : I (callsOf t es) (s.code t) s.world) (step : ClientStep body own resume s e s') :
    I (callsOf t (es ++ [e])) (s'.code t) s'.world := by
  rw [callsOf_append]
  cases step.thread t with
  | others code silent _ _ world =>
      rw [code, silent, List.append_nil]
      rcases world with same | ⟨u, l, x, next, other, at_, ran⟩
      · rwa [same]
      · have allowed := codes u
        rw [at_] at allowed
        exact rule.rely other allowed.1 h ran
  | returns before event after _ world =>
      rw [event, after, world, callsOf_returns]
      rw [before] at h
      exact rule.shared h
  | own before event after ran _ =>
      rw [event, after, callsOf_own]
      rw [before] at h
      exact rule.own h ran
  | again before event more after _ world =>
      rw [event, after, world, callsOf_again, List.append_nil]
      rw [before] at h
      exact rule.again h more

/-- The assertion holds throughout every run in which the threads keep to their
calls. -/
theorem WorldRule.run {may : T → ClientOp Op L → Prop} {K : T → α → Prop} {t : T}
    {I : List (Called R Q) → Client R Q α → W → Prop} (rule : WorldRule own resume may t I)
    (turns : ∀ {u a p}, K u a → resume a = some p → CallsOnly (may u) (K u) p)
    (codes : ∀ u, CallsOnly (may u) (K u) (s.code u))
    (run : Run (ClientStep body own resume) s es s') (start : I [] (s.code t) s.world) :
    I (callsOf t es) (s'.code t) s'.world := by
  induction run with
  | refl => exact start
  | snoc init last ih =>
      have kept u := callsOnly_code (fun h more => turns h more) init (codes u)
      exact rule.step kept ih last

omit [DecidableEq T] in
/-- What the calls that return contribute can be read off the events of the
monitor or off the completed calls. -/
theorem flatMap_onMonitor {f : Event T Op C R → List β} {g : Called R Q → List β}
    (returns : ∀ t op reply, f (.returns t op reply) = g ⟨.shared op, reply⟩)
    (silent : ∀ e : Event T Op C R, e.completed = [] → f e = [])
    (own : ∀ l x, g ⟨.own l, x⟩ = []) (es : List (SystemEvent T C R Q)) :
    (es.flatMap SystemEvent.onMonitor).flatMap f =
      (es.flatMap SystemEvent.completed).flatMap fun c => g c.2 := by
  induction es with
  | nil => rfl
  | cons e es ih =>
      rw [List.flatMap_cons, List.flatMap_cons, List.flatMap_append, List.flatMap_append, ih]
      congr 1
      cases e with
      | shared e =>
          cases e with
          | returns t op reply => simp [SystemEvent.onMonitor, SystemEvent.completed, returns]
          | _ => simpa [SystemEvent.onMonitor, SystemEvent.completed] using silent _ rfl
      | own t l x => simp [SystemEvent.onMonitor, SystemEvent.completed, own]
      | again t => rfl

/-- What only one thread's calls contribute to can be read off its calls alone. -/
theorem flatMap_callsOf {t : T} {f : Called R Q → List β}
    (others : ∀ u, u ≠ t → ∀ c ∈ callsOf u es, f c = []) :
    (es.flatMap SystemEvent.completed).flatMap (fun c => f c.2) = (callsOf t es).flatMap f := by
  have skip : ∀ cs : List (T × Called R Q), (∀ c ∈ cs, c.1 ≠ t → f c.2 = []) →
      cs.flatMap (fun c => f c.2) =
        (cs.filterMap fun c => if c.1 = t then some c.2 else none).flatMap f := by
    intro cs
    induction cs with
    | nil => simp
    | cons c cs ih =>
        intro h
        rw [List.flatMap_cons, ih fun d hd => h d (List.mem_cons_of_mem c hd)]
        by_cases hct : c.1 = t
        · simp [hct]
        · simp [hct, h c List.mem_cons_self hct]
  apply skip
  intro c hc hct
  apply others c.1 hct
  simp only [callsOf, List.mem_filterMap]
  exact ⟨c, hc, by simp⟩

end TelemetrixDb.Monitor
