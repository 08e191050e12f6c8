import TelemetrixDb.Ring.Refinement

/-!
# Shutdown drains the ring and leaves nobody asleep

A closed queue blocks no call and is entered by broadcasts to both conditions,
so the closing rule for monitors applies. From then on pushes are refused and
the pops hand out what is left, oldest first.

-/

namespace TelemetrixDb.Ring
open CMachine Monitor Transition

variable {V : Type} {cap : Nat} {T : Type*}

/-- The reply of a finished pop. -/
def popReplyOf : RingEvent T V → List (Bool × V)
  | .returns _ (.pop _) reply => [reply]
  | _ => []

/-- The answer to a finished push. -/
def pushReplyOf : RingEvent T V → List Bool
  | .returns _ (.push _) ok => [ok]
  | _ => []

/-- The replies of the pops, in lock order. -/
def popReplies (es : List (RingEvent T V)) : List (Bool × V) := es.flatMap popReplyOf

/-- The answers to the pushes, in lock order. -/
def pushReplies (es : List (RingEvent T V)) : List Bool := es.flatMap pushReplyOf

namespace ClosableQueue

theorem closes :
    Closes (body : ClosableQueue V cap → (call : Call V) → _) fun q => q.closed = true where
  stays := by
    intro q call q' reply notice closed run
    cases body_done run with
    | accept item wasOpen => exact absurd closed (by simp [wasOpen])
    | refuse => exact closed
    | hand item oldest items same => exact same.trans closed
    | drained => exact closed
    | close items closed' => exact closed'
    | ask => exact closed
  runs := by
    intro q call c closed run
    cases body_wait run with
    | full item isOpen => exact absurd closed (by simp [isOpen])
    | empty item isOpen => exact absurd closed (by simp [isOpen])
  enters := by
    intro q call q' reply notice isOpen closed run c
    cases body_done run with
    | accept item wasOpen items stillOpen => exact absurd closed (by simp [stillOpen])
    | refuse => exact absurd closed isOpen
    | hand item oldest items same => exact absurd (same.symm.trans closed) isOpen
    | drained => exact absurd closed isOpen
    | close => rfl
    | ask => exact absurd closed isOpen

section Runs

variable [DecidableEq T] {σ τ : Config (ClosableQueue V cap) T (Call V) Cond}
variable {e : RingEvent T V} {es : List (RingEvent T V)}

/-- What one step can do to a closed queue. -/
theorem closed_step (closed : σ.shared.closed = true) (step : Step body σ e τ) :
    acceptedBy e = [] ∧ (∀ ok ∈ pushReplyOf e, ok = false) ∧
    ((popReplyOf e = [] ∧ returnedBy e = [] ∧ τ.shared.items = σ.shared.items) ∨
      (∃ oldest, popReplyOf e = [(true, oldest)] ∧ returnedBy e = [oldest] ∧
        σ.shared.items = oldest :: τ.shared.items) ∨
      (∃ item, popReplyOf e = [(false, item)] ∧ returnedBy e = [] ∧ σ.shared.items = [] ∧
        τ.shared.items = [])) := by
  cases step with
  | call => simp [acceptedBy, pushReplyOf, popReplyOf, returnedBy]
  | waits => simp [acceptedBy, pushReplyOf, popReplyOf, returnedBy]
  | spurious => simp [acceptedBy, pushReplyOf, popReplyOf, returnedBy]
  | returns _ run _ =>
      cases body_done run with
      | accept item wasOpen => exact absurd closed (by simp [wasOpen])
      | refuse => simp [acceptedBy, pushReplyOf, popReplyOf, returnedBy]
      | hand item oldest items => simp [acceptedBy, pushReplyOf, popReplyOf, returnedBy, items]
      | drained item _ items => simp [acceptedBy, pushReplyOf, popReplyOf, returnedBy, items]
      | close items => simp [acceptedBy, pushReplyOf, popReplyOf, returnedBy, items]
      | ask => simp [acceptedBy, pushReplyOf, popReplyOf, returnedBy]

/-- What the calls since the closing have answered: no push was accepted, and
the pops returned records until none was left and nothing afterwards. -/
structure Drains (es : List (RingEvent T V)) (left : List V) : Prop where
  pushes : ∀ ok ∈ pushReplies es, ok = false
  accepted_nil : accepted es = []
  pops : ∃ refused : List V, popReplies es =
    (returned es).map (fun item => (true, item)) ++ refused.map (fun item => (false, item)) ∧
    (refused ≠ [] → left = [])

/-- One step of a closed queue continues the draining. -/
theorem Drains.step (h : Drains es σ.shared.items) (closed : σ.shared.closed = true)
    (step : Step body σ e τ) : Drains (es ++ [e]) τ.shared.items := by
  obtain ⟨pushes, acceptedNil, refused, replies, drained⟩ := h
  obtain ⟨noAccept, noPush, pop⟩ := closed_step closed step
  simp only [accepted, popReplies, returned, pushReplies] at acceptedNil replies pushes
  have acceptedNil' : accepted (es ++ [e]) = [] := by
    simp [accepted, List.flatMap_append, acceptedNil, noAccept]
  have pushes' : ∀ ok ∈ pushReplies (es ++ [e]), ok = false := by
    intro ok hok
    simp only [pushReplies, List.flatMap_append, List.flatMap_singleton, List.mem_append] at hok
    exact hok.elim (pushes ok) (noPush ok)
  refine ⟨pushes', acceptedNil', ?_⟩
  simp only [popReplies, returned, List.flatMap_append, List.flatMap_singleton, replies]
  rcases pop with ⟨none, nothing, same⟩ | ⟨oldest, one, got, items⟩ | ⟨item, one, nothing, was, is⟩
  · exact ⟨refused, by simp [none, nothing], fun h => same.trans (drained h)⟩
  · -- a record was left, so no pop has been refused yet
    obtain rfl : refused = [] := by
      by_contra h
      simp [drained h] at items
    exact ⟨[], by simp [one, got], fun h => absurd rfl h⟩
  · exact ⟨refused ++ [item], by simp [one, nothing], fun _ => is⟩

theorem Drains.run (run : Run (Step body) σ es τ) (closed : σ.shared.closed = true) :
    Drains es τ.shared.items := by
  have both : τ.shared.closed = true ∧ Drains es τ.shared.items := by
    refine run.history_invariant
      (I := fun es τ => τ.shared.closed = true ∧ Drains es τ.shared.items) ⟨closed, ?_⟩ ?_
    · exact ⟨by simp [pushReplies], by simp [accepted],
        [], by simp [popReplies, returned], fun h => absurd rfl h⟩
    · rintro es τ e υ ⟨closedT, drains⟩ step
      exact ⟨(closes.run (Run.single step) closedT).1, drains.step closedT step⟩
  exact both.2

/-- The pops since the closing return the records held then, one by one, and
nothing after the last. -/
theorem Drains.popReplies_get (run : Run (Step body) σ es τ) (closed : σ.shared.closed = true)
    {j : Nat} {reply : Bool × V} (hj : (popReplies es)[j]? = some reply) :
    (∀ h : j < σ.shared.items.length, reply = (true, σ.shared.items[j])) ∧
      (σ.shared.items.length ≤ j → reply.1 = false) := by
  obtain ⟨-, acceptedNil, refused, replies, drained⟩ := Drains.run run closed
  have split := items_run run
  rw [acceptedNil, List.append_nil] at split
  have lengths := congrArg List.length split
  rw [List.length_append] at lengths
  rw [replies, List.getElem?_append, List.length_map] at hj
  by_cases early : j < (returned es).length
  · rw [if_pos early, List.getElem?_map, List.getElem?_eq_getElem early] at hj
    have got : (true, (returned es)[j]) = reply := Option.some.inj hj
    refine ⟨fun h => ?_, fun h => by omega⟩
    rw [← got]
    simp only [split, List.getElem_append_left early]
  · rw [if_neg early, List.getElem?_map] at hj
    obtain ⟨item, hitem, rfl⟩ := Option.map_eq_some_iff.mp hj
    refine ⟨fun h => ?_, fun _ => rfl⟩
    -- a refused pop means that nothing is left
    have nothing : τ.shared.items = [] := drained (by rintro rfl; simp at hitem)
    rw [nothing, List.length_nil] at lengths
    omega

end Runs

end ClosableQueue

section Runs

variable [DecidableEq T] {structAllocated : Bool} {malloc : Malloc V} {capacity : CInt}
variable {rb₀ : RingBuffer V} {σ : Config (RingBuffer V) T (Call V) Cond}
variable {es : List (RingEvent T V)}

/-- A run that contains a finished shutdown ends with the queue closed. -/
theorem closed_of_signalled {q₀ : ClosableQueue V cap} {phase₀ : T → Phase (Call V) Cond}
    {τ : Config (ClosableQueue V cap) T (Call V) Cond} {t : T}
    (run : Run (Step ClosableQueue.body) ⟨q₀, phase₀⟩ es τ)
    (signalled : .returns t .signalShutdown () ∈ es) : τ.shared.closed = true := by
  obtain ⟨before, after, x, y, -, -, step, rest⟩ := run.split_mem signalled
  refine (ClosableQueue.closes.run rest ?_).1
  cases step with
  | returns _ run _ =>
      cases ClosableQueue.body_done run with
      | close _ closed => exact closed

/-- In a ring that stands for a closed queue every call finishes its section. -/
theorem body_finishes {rb : RingBuffer V} {q : ClosableQueue V cap} (h : Abstracts rb q)
    (closed : q.closed = true) (call : Call V) :
    ∃ rb' reply notice, body rb call = .ok (.done rb' reply notice) := by
  obtain ⟨o, o', run, abstractRun, rel⟩ := body_refines h call
  cases rel with
  | wait c => exact absurd abstractRun (ClosableQueue.closes.runs closed)
  | done _ reply notice => exact ⟨_, reply, notice, run⟩

/-- From a state with the flag set on, no thread is asleep or goes to sleep, every
section finishes, every push is refused and adds nothing, and the pops return the
records that were left, oldest first, and false for ever after. Once a pop is
refused, every record that was ever accepted has been returned. -/
theorem drains_of_shutdown (hcap : 0 ≤ capacity.val)
    (init : bufferInit structAllocated malloc capacity = some rb₀)
    (run : Run (Step body) (Config.start rb₀) es σ) (shutdown : σ.shared.shutdown = true) :
    ∃ items : List V, σ.shared.count.val = items.length ∧ accepted es = returned es ++ items ∧
      ∀ {fs τ}, Run (Step body) σ fs τ →
        τ.shared.shutdown = true ∧ Awake τ.phase ∧ (∀ t call c, .waits t call c ∉ fs) ∧
        (∀ call, ∃ rb reply notice, body τ.shared call = .ok (.done rb reply notice)) ∧
        (∀ ok ∈ pushReplies fs, ok = false) ∧ accepted fs = [] ∧
        (∀ {j reply}, (popReplies fs)[j]? = some reply →
          (∀ h : j < items.length, reply = (true, items[j])) ∧
          (items.length ≤ j → reply.1 = false)) ∧
        ∀ item, (false, item) ∈ popReplies fs → accepted (es ++ fs) = returned (es ++ fs) := by
  obtain ⟨cap, hcap'⟩ := Int.eq_ofNat_of_zero_le hcap
  obtain ⟨q, h, abstractRun⟩ := run_abstracts hcap' init run
  obtain ⟨⟨tail, represents⟩, flag⟩ := id h
  have closed : q.closed = true := flag.symm.trans shutdown
  refine ⟨q.items, represents.count_eq, by simpa using ClosableQueue.items_run abstractRun, ?_⟩
  intro fs τ rest
  obtain ⟨q', h', abstractRest⟩ := body_refines.run rest h
  obtain ⟨closed', quiet⟩ := ClosableQueue.closes.run abstractRest closed
  have drains := ClosableQueue.Drains.run abstractRest closed
  have whole := abstractRun.trans abstractRest
  refine ⟨h'.2.trans closed', ClosableQueue.closes.awake whole closed', quiet,
    body_finishes h' closed', drains.pushes, drains.accepted_nil,
    ClosableQueue.Drains.popReplies_get abstractRest closed, fun item isRefused => ?_⟩
  obtain ⟨refused, replies, drained⟩ := drains.pops
  have nothing : q'.items = [] := by
    apply drained
    rintro rfl
    simp [replies] at isRefused
  have split := ClosableQueue.items_run whole
  simpa [nothing] using split

/-- Shutdown drains the ring and never hangs. A pop is refused only when the
ring is shut down and empty and a push only when it is shut down. Once a
shutdown has run, no thread is asleep or goes to sleep again, every thread in a
call can finish it, the flag stays set, every push is refused and adds nothing,
and the pops return exactly the records accepted and not yet returned, oldest
first, and false for ever after. -/
theorem shutdown_drains (hcap : 0 ≤ capacity.val)
    (init : bufferInit structAllocated malloc capacity = some rb₀)
    (run : Run (Step body) (Config.start rb₀) es σ) :
    (∀ {t item result τ}, Step body σ (.returns t (.pop item) (false, result)) τ →
      σ.shared.shutdown = true ∧ σ.shared.count.val = 0) ∧
    (∀ {t item τ}, Step body σ (.returns t (.push item) false) τ → σ.shared.shutdown = true) ∧
    ((∃ t, .returns t .signalShutdown () ∈ es) →
      ∃ items : List V, accepted es = returned es ++ items ∧
      ∀ {fs τ}, Run (Step body) σ fs τ →
        τ.shared.shutdown = true ∧ Awake τ.phase ∧ (∀ t call c, .waits t call c ∉ fs) ∧
        (∀ t call, (τ.phase t).Wants call → ∃ reply υ, Step body τ (.returns t call reply) υ) ∧
        (∀ ok ∈ pushReplies fs, ok = false) ∧ accepted fs = [] ∧
        ∀ {j reply}, (popReplies fs)[j]? = some reply →
          (∀ h : j < items.length, reply = (true, items[j])) ∧
          (items.length ≤ j → reply.1 = false)) := by
  refine ⟨?_, ?_, ?_⟩
  · intro t item result τ step
    cases step with
    | returns _ run _ =>
        obtain ⟨flag, count, -⟩ := bufferPop_refused run
        exact ⟨flag, by simp [count]⟩
  · intro t item τ step
    cases step with
    | returns _ run _ => exact (bufferPush_refused run).1
  · rintro ⟨t₀, signalled⟩
    obtain ⟨cap, hcap'⟩ := Int.eq_ofNat_of_zero_le hcap
    obtain ⟨q, ⟨-, flag⟩, abstractRun⟩ := run_abstracts hcap' init run
    have shutdown := flag.trans (closed_of_signalled abstractRun signalled)
    obtain ⟨items, -, split, after⟩ := drains_of_shutdown hcap init run shutdown
    refine ⟨items, split, fun rest => ?_⟩
    obtain ⟨stays, awake, quiet, finishes, refused, nothing, pops, -⟩ := after rest
    refine ⟨stays, awake, quiet, fun t call wants => ?_, refused, nothing, pops⟩
    obtain ⟨rb, reply, notice, done⟩ := finishes call
    exact ⟨reply, exists_returns wants done⟩

end Runs

theorem oneSlot_shutdown :
    body (oneSlot (Function.update (fun _ => 0) 0 7) (.lit 1) false) .signalShutdown =
      .ok (.done (oneSlot (Function.update (fun _ => 0) 0 7) (.lit 1) true) ()
        fun _ => .broadcast) := rfl

theorem oneSlot_pop : body (oneSlot (Function.update (fun _ => 0) 0 7) (.lit 1) true) (.pop 0) =
    .ok (.done (oneSlot (Function.update (fun _ => 0) 0 7) (.lit 0) true) (true, 7)
      (signalTo .notFull)) := rfl

/-- A ring made with one slot is shut down holding 7: whatever the threads do next, the
first pop that is answered returns 7 and the later ones false. A pop comes to be answered. -/
theorem shutdown_drains_one_slot :
    ∃ rb, bufferInit true (.granting 0) (.lit 1) = some rb ∧
      ∃ σ : Config (RingBuffer Nat) Bool (Call Nat) Cond,
        Run (Step body) (Config.start rb)
          [.call true (.push 7), .returns true (.push 7) true,
            .call true .signalShutdown, .returns true .signalShutdown ()] σ ∧
        σ.shared.count.val = 1 ∧
        (∃ τ, Run (Step body) σ [.call false (.pop 0), .returns false (.pop 0) (true, 7)] τ) ∧
        ∀ {fs τ}, Run (Step body) σ fs τ → ∀ {j reply}, (popReplies fs)[j]? = some reply →
          (j = 0 → reply = (true, 7)) ∧ (1 ≤ j → reply.1 = false) := by
  have run := (solo_call true oneSlot_push).trans (solo_call true oneSlot_shutdown)
  obtain ⟨items, split, after⟩ := (shutdown_drains (by decide) oneSlot_init run).2.2
    ⟨true, by simp⟩
  obtain rfl : items = [7] := split.symm
  refine ⟨_, oneSlot_init, _, run, rfl, ⟨_, solo_call false oneSlot_pop⟩, ?_⟩
  intro fs τ rest j reply isReply
  obtain ⟨-, -, -, -, -, -, pops⟩ := after rest
  obtain ⟨early, late⟩ := pops isReply
  exact ⟨fun first => by subst first; exact early Nat.zero_lt_one, late⟩

end TelemetrixDb.Ring
