import TelemetrixDb.Engine.Progress
import TelemetrixDb.Ring.Shutdown

/-!
# The loop of `main` and what follows it

After its loop `main` asks for a shutdown, joins the ingestion thread and destroys
the ring. The loop tests a constant and has no `break`, so a shutdown that anyone
asks for is not the end of it.

-/

namespace TelemetrixDb.Engine
open CMachine Monitor Ingestion Storage Transition

/-- The condition of the loop of `main`. -/
def loopCondition : Bool := true

/-- Where `main` stands. -/
inductive Stage
  | loop
  | signalling
  | joined
  | destroyed
  deriving DecidableEq

/-- The threads, and the stage of `main`. -/
structure WholeState (T : Type) where
  engine : EngineState T
  stage : Stage

/-- What a step of the program shows: a step of some thread, or `main` leaves its
loop, joins the ingestion thread, or destroys the ring. -/
inductive WholeEvent (T : Type)
  | engine (e : EngineEvent T)
  | leave
  | join
  | destroy

variable {T : Type} [DecidableEq T] {h3 : H3} {unpack : Bytes → Option FeedMessage}
variable {stack : Nat → Nat → VehicleData}

/-- One step of the program. Every turn of `main` begins with the test of the
loop's condition, and so does leaving the loop. -/
inductive WholeStep (h3 : H3) (unpack : Bytes → Option FeedMessage)
    (stack : Nat → Nat → VehicleData) : WholeState T → WholeEvent T → WholeState T → Prop
  | engine {s s' : EngineState T} {stage : Stage} {e : EngineEvent T}
      (step : EngineStep h3 unpack stack s e s')
      (turn : e = .again .main → stage = .loop ∧ loopCondition = true) :
      WholeStep h3 unpack stack ⟨s, stage⟩ (.engine e) ⟨s', stage⟩
  | leave {σ code world} {turn : Turn} (between : code .main = .ret turn)
      (ends : loopCondition = false) :
      WholeStep h3 unpack stack ⟨⟨σ, code, world⟩, .loop⟩ .leave
        ⟨⟨σ, Function.update code .main (.call (.shared .signalShutdown) fun _ => .ret turn), world⟩,
          .signalling⟩
  | join {s : EngineState T} {turn : Turn} (signalled : s.code .main = .ret turn)
      (ended : s.code .ingestion = .ret .ingestionDone) :
      WholeStep h3 unpack stack ⟨s, .signalling⟩ .join ⟨s, .joined⟩
  | destroy {s : EngineState T} : WholeStep h3 unpack stack ⟨s, .joined⟩ .destroy ⟨s, .destroyed⟩

/-- A step of a program whose `main` is in its loop is a step of a thread. -/
theorem whole_step {s s' : WholeState T} {e : WholeEvent T} (inLoop : s.stage = .loop)
    (step : WholeStep h3 unpack stack s e s') :
    s'.stage = .loop ∧ ∃ e', e = .engine e' ∧
      EngineStep h3 unpack stack s.engine e' s'.engine := by
  cases step with
  | engine step turn => exact ⟨inLoop, _, rfl, step⟩
  | leave between ends => cases ends
  | join => cases inLoop
  | destroy => cases inLoop

/-- The steps of the threads in a run of the program. -/
def threadEvents : List (WholeEvent T) → List (EngineEvent T) :=
  List.filterMap fun
    | .engine e => some e
    | _ => none

omit [DecidableEq T] in
@[simp] theorem threadEvents_map (es : List (EngineEvent T)) :
    threadEvents (es.map .engine) = es := by
  induction es with
  | nil => rfl
  | cons e es ih => exact congrArg (e :: ·) ih

omit [DecidableEq T] in
@[simp] theorem threadEvents_append (es fs : List (WholeEvent T)) :
    threadEvents (es ++ fs) = threadEvents es ++ threadEvents fs :=
  List.filterMap_append

/-- The runs of the program are those of its threads, with `main` in its loop. -/
theorem whole_run {s s' : WholeState T} {es : List (WholeEvent T)} (inLoop : s.stage = .loop)
    (run : Run (WholeStep h3 unpack stack) s es s') :
    s'.stage = .loop ∧ es = (threadEvents es).map .engine ∧
      Run (EngineStep h3 unpack stack) s.engine (threadEvents es) s'.engine := by
  induction run with
  | refl => exact ⟨inLoop, rfl, .refl _⟩
  | @snoc t u es e init last ih =>
      obtain ⟨inLoop', same, engineRun⟩ := ih
      obtain ⟨inLoop'', e', rfl, step⟩ := whole_step inLoop' last
      rw [threadEvents_append]
      refine ⟨inLoop'', ?_, engineRun.snoc step⟩
      rw [List.map_append, ← same]
      rfl

theorem whole_of_engine {s s' : EngineState T} {es : List (EngineEvent T)}
    (run : Run (EngineStep h3 unpack stack) s es s') :
    Run (WholeStep h3 unpack stack) ⟨s, .loop⟩ (es.map .engine) ⟨s', .loop⟩ := by
  induction run with
  | refl => exact .refl _
  | snoc init last ih =>
      rw [List.map_append]
      exact ih.snoc (.engine last fun _ => ⟨rfl, rfl⟩)

/-- The program once the ring is made and the ingestion thread is created. -/
def wholeStart (rb : Ring.RingBuffer VehicleData) (tables : Tables) : WholeState T :=
  ⟨start rb tables, .loop⟩

/-- The turns that `main` has begun. -/
def turnsBegun : List (EngineEvent T) → Nat :=
  List.countP fun
    | .again .main => true
    | _ => false

variable {rb : Ring.RingBuffer VehicleData} {tables : Tables}
variable {es fs : List (EngineEvent T)} {s s' : EngineState T} {e : EngineEvent T}

/-- The answers of the pops of the ring. -/
def popAnswers (es : List (EngineEvent T)) : List (Bool × VehicleData) :=
  Ring.popReplies (onRing es)

/-- Every turn of `main` makes one pop: those begun since some point are at most
the pops answered since, and one more while the next is not answered. -/
inductive Paced (fs : List (EngineEvent T)) (code : EngineCode Turn) : Prop
  | popping (poppedBus : VehicleData) (totalProcessed : UInt64)
      (at_ : code = consumerTurn poppedBus totalProcessed)
      (paced : turnsBegun fs ≤ (popAnswers fs).length + 1)
  | popped (rest : CallsOnly (OwnOnly ConsumerOwn) Turn.IsConsumer code)
      (paced : turnsBegun fs ≤ (popAnswers fs).length)

omit [DecidableEq T] in
theorem Paced.bound {code : EngineCode Turn} (h : Paced fs code) :
    turnsBegun fs ≤ (popAnswers fs).length + 1 := by
  cases h with
  | popping _ _ _ paced => exact paced
  | popped _ paced => omega

omit [DecidableEq T] in
theorem Paced.mono {code : EngineCode Turn} {fs' : List (EngineEvent T)} (h : Paced fs code)
    (same : turnsBegun fs' = turnsBegun fs)
    (more : (popAnswers fs).length ≤ (popAnswers fs').length) : Paced fs' code := by
  cases h with
  | popping poppedBus totalProcessed at_ paced =>
      exact .popping poppedBus totalProcessed at_ (by omega)
  | popped rest paced => exact .popped rest (by omega)

omit [DecidableEq T] in
theorem turnsBegun_append (es fs : List (EngineEvent T)) :
    turnsBegun (es ++ fs) = turnsBegun es + turnsBegun fs := List.countP_append

omit [DecidableEq T] in
theorem popAnswers_append (es fs : List (EngineEvent T)) :
    popAnswers (es ++ fs) = popAnswers es ++ popAnswers fs := by
  simp [popAnswers, onRing, Ring.popReplies]

omit [DecidableEq T] in
theorem turnsBegun_concat (noTurn : e ≠ .again .main) : turnsBegun (fs ++ [e]) = turnsBegun fs := by
  rw [turnsBegun_append]
  cases e with
  | shared => rfl
  | own => rfl
  | again t =>
      cases t with
      | main => exact absurd rfl noTurn
      | ingestion => rfl
      | signaller => rfl

theorem Paced.step (h : Paced fs (s.code .main)) (step : EngineStep h3 unpack stack s e s') :
    Paced (fs ++ [e]) (s'.code .main) := by
  have more : (popAnswers fs).length ≤ (popAnswers (fs ++ [e])).length := by
    rw [popAnswers_append, List.length_append]
    omega
  cases step.thread .main with
  | others code _ noTurn _ _ =>
      rw [code]
      exact h.mono (turnsBegun_concat noTurn) more
  | @returns op next reply _ before event after _ _ =>
      have same : turnsBegun (fs ++ [e]) = turnsBegun fs := turnsBegun_concat (by simp [event])
      rw [before] at h
      rw [after]
      cases h with
      | popping poppedBus totalProcessed top paced =>
          rw [consumerTurn_eq] at top
          cases top
          refine .popped (ownOnly_poppedCode totalProcessed reply) ?_
          rw [same, popAnswers_append, List.length_append, event]
          exact paced
      | popped rest paced => exact rest.1.elim
  | @own l next x before event after _ _ =>
      have same : turnsBegun (fs ++ [e]) = turnsBegun fs := turnsBegun_concat (by simp [event])
      rw [before] at h
      rw [after]
      cases h with
      | popping poppedBus totalProcessed top paced =>
          rw [consumerTurn_eq] at top
          cases top
      | popped rest paced => exact Paced.mono (.popped (rest.2 x) paced) same more
  | @again a p before event again after _ _ =>
      rw [before] at h
      rw [after]
      cases h with
      | popping poppedBus totalProcessed top paced =>
          rw [consumerTurn_eq] at top
          cases top
      | popped rest paced =>
          cases a with
          | consumer poppedBus totalProcessed =>
              cases again
              refine .popping poppedBus totalProcessed rfl ?_
              have one : turnsBegun [e] = 1 := by rw [event]; rfl
              rw [turnsBegun_append, one]
              exact Nat.succ_le_succ (paced.trans more)
          | ingestion => exact rest.elim
          | ingestionDone => exact rest.elim
          | signaller => exact rest.elim

/-- The turns that `main` begins from a reached state on. -/
theorem turnsBegun_le (run : Run (EngineStep h3 unpack stack) (start rb tables) es s)
    (rest : Run (EngineStep h3 unpack stack) s fs s') :
    turnsBegun fs ≤ (popAnswers fs).length + 1 := by
  obtain ⟨processed, hand, consuming⟩ := consuming_run run
  have first : Paced ([] : List (EngineEvent T)) (s.code .main) := by
    rcases consuming.at_.top_or_ownOnly with ⟨poppedBus, totalProcessed, at_⟩ | rest
    · exact .popping poppedBus totalProcessed at_ (Nat.zero_le _)
    · exact .popped rest (Nat.zero_le _)
  have paced : Paced fs (s'.code .main) := by
    refine rest.history_invariant (I := fun fs (s : EngineState T) => Paced fs (s.code .main))
      first fun h step => h.step step
  exact paced.bound

/-- A pop that the ring refused was one of `main`. -/
theorem refused_pop (run : Run (EngineStep h3 unpack stack) (start rb tables) (es ++ fs) s)
    {bus : VehicleData} (h : (false, bus) ∈ popAnswers fs) :
    ∃ item, .shared (.returns .main (.pop item) (false, bus)) ∈ fs := by
  obtain ⟨e, onMonitor, answered⟩ := List.mem_flatMap.mp h
  obtain ⟨e', he', inEvent⟩ := List.mem_flatMap.mp onMonitor
  cases e with
  | returns t op reply =>
      cases op with
      | pop item =>
          obtain rfl : reply = (false, bus) := (List.mem_singleton.mp answered).symm
          cases e' with
          | shared e' =>
              obtain rfl := List.mem_singleton.mp inEvent
              have completed : ⟨.shared (.pop item), (false, bus)⟩ ∈ callsOf t (es ++ fs) := by
                rw [callsOf, List.mem_filterMap]
                refine ⟨(t, ⟨.shared (.pop item), (false, bus)⟩), ?_, by simp⟩
                exact List.mem_flatMap.mpr
                  ⟨_, List.mem_append_right es he', List.mem_singleton.mpr rfl⟩
              have may := mayCall_run run t _ completed
              cases t with
              | main => exact ⟨item, he'⟩
              | ingestion => exact may.elim
              | signaller => exact may.elim
          | own => cases inEvent
          | again => cases inEvent
      | push => cases answered
      | signalShutdown => cases answered
      | isShutdown => cases answered
  | call => cases answered
  | waits => cases answered
  | spurious => cases answered

section Shutdown

variable {structAllocated : Bool} {malloc : Ring.Malloc VehicleData}

/-- After a shutdown `main` can come to the end of its turn. -/
theorem turn_ends_of_shutdown
    (init : Ring.bufferInit structAllocated malloc (.lit 1024) = some rb)
    (run : Run (EngineStep h3 unpack stack) (start rb tables) es s)
    (shutdown : s.monitor.shared.shutdown = true) :
    ∃ fs s' poppedBus totalProcessed, Run (EngineStep h3 unpack stack) s fs s' ∧
      turnsBegun fs = 0 ∧ s'.code .main = .ret (.consumer poppedBus totalProcessed) := by
  have noTurn {fs : List (EngineEvent T)} (mine : ∀ e ∈ fs, ∃ l x, e = .own .main l x) :
      turnsBegun fs = 0 := by
    apply List.countP_eq_zero.mpr
    intro e he
    obtain ⟨l, x, rfl⟩ := mine e he
    simp
  obtain ⟨processed, hand, consuming⟩ := consuming_run run
  rcases consuming.at_.top_or_ownOnly with ⟨poppedBus, totalProcessed, at_⟩ | calls
  · rw [consumerTurn_eq] at at_
    have synced : Synced s.monitor.phase s.code := Synced.run run fun t => rfl
    obtain ⟨items, -, -, after⟩ := Ring.drains_of_shutdown (by decide) init (monitor_run run) shutdown
    obtain ⟨-, awake, -, finishes, -⟩ := after (.refl _)
    obtain ⟨rb', reply, notice, done⟩ := finishes (.pop poppedBus)
    have popping : ∃ es s', Run (EngineStep h3 unpack stack) s es s' ∧
        SystemEvent.IsCallOf .main (.pop poppedBus) reply es ∧
        s'.code .main = poppedCode totalProcessed reply :=
      call_finishes synced at_ (awake .main) done
    obtain ⟨fs, s₁, popped, isCall, at₁⟩ := popping
    obtain ⟨gs, s₂, bus, total, rest, mine, between⟩ := turn_ends (run.trans popped)
      (at₁ ▸ ownOnly_poppedCode totalProcessed reply)
    refine ⟨fs ++ gs, s₂, bus, total, popped.trans rest, ?_, between⟩
    rw [turnsBegun_append, noTurn mine]
    rcases isCall with rfl | rfl <;> rfl
  · obtain ⟨fs, s', bus, total, rest, mine, between⟩ := turn_ends run calls
    exact ⟨fs, s', bus, total, rest, noTurn mine, between⟩

/-- After a shutdown `main` can begin any number of further turns. -/
theorem turns_after_shutdown
    (init : Ring.bufferInit structAllocated malloc (.lit 1024) = some rb)
    (run : Run (EngineStep h3 unpack stack) (start rb tables) es s)
    (shutdown : s.monitor.shared.shutdown = true) (n : Nat) :
    ∃ fs s', Run (EngineStep h3 unpack stack) s fs s' ∧ turnsBegun fs = n ∧
      (0 < n → ∃ before, fs = before ++ [.again .main]) := by
  induction n with
  | zero => exact ⟨[], s, .refl s, rfl, fun h => absurd h (Nat.lt_irrefl 0)⟩
  | succ n ih =>
      obtain ⟨fs, s₁, soFar, count, -⟩ := ih
      obtain ⟨items, -, -, after⟩ :=
        Ring.drains_of_shutdown (by decide) init (monitor_run run) shutdown
      have shutdown₁ := (after (monitor_run soFar)).1
      obtain ⟨gs, ⟨σ, code, world⟩, bus, total, ends, none, between⟩ :=
        turn_ends_of_shutdown init (run.trans soFar) shutdown₁
      have begins : EngineStep h3 unpack stack ⟨σ, code, world⟩ (.again .main)
          ⟨σ, Function.update code .main (consumerTurn bus total), world⟩ := .again between rfl
      refine ⟨fs ++ gs ++ [.again .main], _, (soFar.trans ends).snoc begins, ?_, fun _ => ⟨_, rfl⟩⟩
      rw [turnsBegun_append, turnsBegun_append, count, none]
      rfl

/-- From a state with the shutdown set on: when more pops are answered than records
were left, one is refused; while none is, `main` begins at most one turn more; and
once one is, every accepted record has been popped. -/
theorem refusal_after_shutdown
    (init : Ring.bufferInit structAllocated malloc (.lit 1024) = some rb)
    (run : Run (EngineStep h3 unpack stack) (start rb tables) es s)
    (shutdown : s.monitor.shared.shutdown = true) :
    ∃ left : Nat, s.monitor.shared.count.val = left ∧
      ∀ {fs s'}, Run (EngineStep h3 unpack stack) s fs s' →
        (left < (popAnswers fs).length → ∃ bus, (false, bus) ∈ popAnswers fs) ∧
        ((∀ bus, (false, bus) ∉ popAnswers fs) → turnsBegun fs ≤ left + 1) ∧
        ∀ bus, (false, bus) ∈ popAnswers fs →
          Ring.accepted (onRing (es ++ fs)) = Ring.returned (onRing (es ++ fs)) := by
  obtain ⟨items, count, -, after⟩ :=
    Ring.drains_of_shutdown (by decide) init (monitor_run run) shutdown
  refine ⟨items.length, count, fun {fs s'} rest => ?_⟩
  obtain ⟨-, -, -, -, -, -, answers, drained⟩ := after (monitor_run rest)
  have refused (more : items.length < (popAnswers fs).length) :
      ∃ bus, (false, bus) ∈ popAnswers fs := by
    have late := (answers (List.getElem?_eq_getElem more)).2 (Nat.le_refl _)
    refine ⟨(popAnswers fs)[items.length].2, ?_⟩
    rw [← late]
    exact List.getElem_mem more
  refine ⟨refused, fun unrefused => ?_, fun bus isRefused => ?_⟩
  · have pops : (popAnswers fs).length ≤ items.length := by
      by_contra more
      obtain ⟨bus, isRefused⟩ := refused (by omega)
      exact unrefused bus isRefused
    exact (turnsBegun_le run rest).trans (by omega)
  · rw [onRing, List.flatMap_append]
    exact drained bus isRefused

/-- A shutdown does not end the loop of `main`. From every reached state in which a
shutdown was asked for, `main` can begin any number of further turns, also after a
pop was refused, and nothing that follows the loop ever runs: `main` stays in its
loop and neither joins the ingestion thread nor destroys the ring. While no pop is
refused it begins at most one turn more than records were left; and when one has
been refused and a turn has ended, the updates are those of all known records ever
accepted. The program's own call of `buffer_signal_shutdown` follows the loop, so a
shutdown is asked for only by a thread added to it, a `signaller`. -/
theorem loop_outlives_shutdown
    (init : Ring.bufferInit structAllocated malloc (.lit 1024) = some rb)
    {es : List (WholeEvent T)} {s : WholeState T}
    (run : Run (WholeStep h3 unpack stack) (wholeStart rb tables) es s)
    (shutdown : s.engine.monitor.shared.shutdown = true) :
    (∀ n, ∃ fs s', Run (WholeStep h3 unpack stack) s fs s' ∧ turnsBegun (threadEvents fs) = n) ∧
    (∃ before s' item bus,
      Run (WholeStep h3 unpack stack) s (before ++ [.engine (.again .main)]) s' ∧
      .engine (.shared (.returns .main (.pop item) (false, bus))) ∈ before) ∧
    (∀ {fs s'}, Run (WholeStep h3 unpack stack) s fs s' →
      s'.stage = .loop ∧ .leave ∉ fs ∧ .join ∉ fs ∧ .destroy ∉ fs) ∧
    ∃ left : Nat, s.engine.monitor.shared.count.val = left ∧
      ∀ {fs s'}, Run (WholeStep h3 unpack stack) s fs s' →
        ((∀ bus, (false, bus) ∉ popAnswers (threadEvents fs)) →
          turnsBegun (threadEvents fs) ≤ left + 1) ∧
        ∀ bus turn, (false, bus) ∈ popAnswers (threadEvents fs) →
          s'.engine.code .main = .ret turn →
          updates (threadEvents (es ++ fs)) =
            ((Ring.accepted (onRing (threadEvents (es ++ fs)))).filter Known).map updateCall := by
  obtain ⟨inLoop, -, engineRun⟩ := whole_run rfl run
  obtain ⟨engine, stage⟩ := s
  dsimp only at inLoop shutdown engineRun
  subst inLoop
  obtain ⟨left, count, refusal⟩ := refusal_after_shutdown init engineRun shutdown
  refine ⟨fun n => ?_, ?_, fun {fs s'} rest => ?_, left, count, fun {fs s'} rest => ⟨?_, ?_⟩⟩
  · obtain ⟨fs, s', rest, begun, -⟩ := turns_after_shutdown init engineRun shutdown n
    refine ⟨_, _, whole_of_engine rest, ?_⟩
    rw [threadEvents_map, begun]
  · -- the pops of all but the last of these turns are more than the records left
    obtain ⟨fs, s', rest, begun, last⟩ := turns_after_shutdown init engineRun shutdown (left + 2)
    obtain ⟨before, rfl⟩ := last (by omega)
    have pops := turnsBegun_le engineRun rest
    obtain ⟨bus, isRefused⟩ := (refusal rest).1 (by omega)
    obtain ⟨item, inRun⟩ := refused_pop (engineRun.trans rest) isRefused
    have early : .shared (.returns .main (.pop item) (false, bus)) ∈ before := by
      simpa using inRun
    have whole := whole_of_engine rest
    rw [List.map_append] at whole
    exact ⟨_, _, item, bus, whole, List.mem_map_of_mem early⟩
  · obtain ⟨stays, onlyThreads, -⟩ := whole_run rfl rest
    rw [onlyThreads]
    exact ⟨stays, by simp, by simp, by simp⟩
  · exact (refusal (whole_run rfl rest).2.2).2.1
  · intro bus turn isRefused between
    obtain ⟨-, -, engineRest⟩ := whole_run rfl rest
    have all := (refusal engineRest).2.2 bus isRefused
    rw [threadEvents_append]
    obtain ⟨processed, hand, returned, at_, applied⟩ :=
      returned_consuming (engineRun.trans engineRest)
    rw [between] at at_
    rw [applied, all, returned, at_.between, List.append_nil]

end Shutdown

section Signaller

/-- A thread asks for a shutdown before anything was fetched. -/
theorem exists_signalled_run : ∃ rb s, ∃ es : List (EngineEvent Unit),
    Ring.bufferInit true (.granting zeroBus) (.lit 1024) = some rb ∧
    Run (EngineStep oneH3 (fun _ => none) fun _ _ => zeroBus) (start rb fun _ _ => none) es s ∧
    s.monitor.shared.shutdown = true ∧ s.monitor.shared.count.val = 0 := by
  have granted : ∃ rb, Ring.bufferInit true (.granting zeroBus) (.lit 1024) = some rb := ⟨_, rfl⟩
  obtain ⟨rb, init⟩ := granted
  have capacity : (CInt.lit 1024).val = (1024 : Nat) := rfl
  obtain ⟨represents, -⟩ := Ring.bufferInit_represents capacity init
  let code : Thread Unit → EngineCode Turn := Function.update (fun t => .ret (firstTurn t))
    (.signaller ()) signallerTurn
  have begun : EngineStep oneH3 (fun _ => none) (fun _ _ => zeroBus) (start rb fun _ _ => none)
      (.again (.signaller ())) ⟨Config.start rb, code, ⟨.init, fun _ _ => none⟩⟩ := .again rfl rfl
  have at_ : code (.signaller ()) = .call (.shared .signalShutdown) fun _ => .ret .signaller :=
    Function.update_self _ _ _
  have signals : Ring.body rb .signalShutdown =
      .ok (.done { rb with shutdown := true } () fun _ => .broadcast) := rfl
  exact ⟨rb, _, _, init, (Run.single begun).trans (solo_client_call at_ signals), rfl,
    represents.count_eq⟩

/-- After a shutdown of the fresh program `main` begins a thousand turns. -/
theorem loop_outlives_shutdown_fresh : ∃ rb s, ∃ es : List (WholeEvent Unit),
    Run (WholeStep oneH3 (fun _ => none) fun _ _ => zeroBus) (wholeStart rb fun _ _ => none) es s ∧
    s.engine.monitor.shared.shutdown = true ∧
    ∃ fs s', Run (WholeStep oneH3 (fun _ => none) fun _ _ => zeroBus) s fs s' ∧
      turnsBegun (threadEvents fs) = 1000 := by
  obtain ⟨rb, s, es, init, run, shutdown, -⟩ := exists_signalled_run
  have whole := whole_of_engine run
  exact ⟨rb, _, _, whole, shutdown, (loop_outlives_shutdown init whole shutdown).1 1000⟩

/-- With nothing left in the ring at the shutdown, `main` begins two turns. -/
theorem turns_exceed_records_left : ∃ rb s s', ∃ es fs : List (WholeEvent Unit),
    Run (WholeStep oneH3 (fun _ => none) fun _ _ => zeroBus) (wholeStart rb fun _ _ => none) es s ∧
    s.engine.monitor.shared.shutdown = true ∧
    Run (WholeStep oneH3 (fun _ => none) fun _ _ => zeroBus) s fs s' ∧
    ¬ (turnsBegun (threadEvents fs) : Int) ≤ s.engine.monitor.shared.count.val + 1 := by
  obtain ⟨rb, s, es, init, run, shutdown, none⟩ := exists_signalled_run
  obtain ⟨fs, s', rest, begun, -⟩ := turns_after_shutdown init run shutdown 2
  refine ⟨rb, _, _, _, _, whole_of_engine run, shutdown, whole_of_engine rest, ?_⟩
  rw [threadEvents_map, begun, none]
  decide

end Signaller

end TelemetrixDb.Engine
