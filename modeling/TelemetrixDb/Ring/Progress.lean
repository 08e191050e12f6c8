import TelemetrixDb.Foundation.SharedProgress
import TelemetrixDb.Ring.Safety
import TelemetrixDb.Ring.Shutdown
import TelemetrixDb.Ring.Wakeup

/-!
# The ring goes on under any number of threads

The threads run any programs that call the ring. While it holds a record some pop
comes to its end, while it has room some push does, and after a shutdown every call
does, provided that the threads are scheduled fairly. No particular pop or push can
be promised more, since other threads may overtake it for ever.

-/

namespace TelemetrixDb.Ring
open CMachine Monitor Transition

variable {V T W α L : Type} {Q : L → Type} [DecidableEq T] {cap : Nat}
variable {own : (l : L) → W → Q l → W → Prop}
variable {resume : α → Option (Client (Reply (V := V)) Q α)}
variable {structAllocated : Bool} {malloc : Malloc V} {capacity : CInt} {rb : RingBuffer V}

/-- The events of the ring. -/
def ringEvents (es : List (SystemEvent T Cond (Reply (V := V)) Q)) : List (RingEvent T V) :=
  es.flatMap SystemEvent.onMonitor

/-- How many records the ring has accepted. -/
def entered (es : List (SystemEvent T Cond (Reply (V := V)) Q)) : Nat :=
  (accepted (ringEvents es)).length

/-- How many records the pops have returned. -/
def taken (es : List (SystemEvent T Cond (Reply (V := V)) Q)) : Nat :=
  (returned (ringEvents es)).length

omit [DecidableEq T] in
theorem entered_append (es fs : List (SystemEvent T Cond (Reply (V := V)) Q)) :
    entered (es ++ fs) = entered es + entered fs := by
  simp [entered, ringEvents, accepted]

omit [DecidableEq T] in
theorem taken_append (es fs : List (SystemEvent T Cond (Reply (V := V)) Q)) :
    taken (es ++ fs) = taken es + taken fs := by
  simp [taken, ringEvents, returned]

section Serving

/-- A pop finishes: a record is left, or the queue is closed. -/
def ClosableQueue.Poppable (q : ClosableQueue V cap) : Prop := q.closed = true ∨ q.items ≠ []

/-- A push finishes: a slot is left, or the queue is closed. -/
def ClosableQueue.Pushable (q : ClosableQueue V cap) : Prop :=
  q.closed = true ∨ q.items.length < cap

namespace ClosableQueue

/-- A call that does not wait finishes. -/
theorem body_finishes {q : ClosableQueue V cap} {call : Call V} (goes : ∀ c, ¬ Waits q call c) :
    ∃ q' reply notice, q.body call = .ok (.done q' reply notice) := by
  cases ends : q.body call with
  | error e => cases call <;> cases ends
  | ok o =>
      cases o with
      | wait c => exact absurd (body_wait ends) (goes c)
      | done q' reply notice => exact ⟨q', reply, notice, rfl⟩

theorem serves_pops :
    Serves (body : ClosableQueue V cap → (call : Call V) → _) IsPop Poppable where
  finishes := by
    intro q call ready pops
    apply body_finishes
    intro c waits
    cases waits with
    | full => exact pops.elim
    | empty item isOpen items => simp [Poppable, isOpen, items] at ready
  stays := by
    intro q call q' reply notice ready other run
    cases body_done run with
    | accept item wasOpen items => exact Or.inr (by simp [items])
    | refuse => exact ready
    | hand => exact absurd trivial other
    | drained => exact absurd trivial other
    | close items closed => exact Or.inl closed
    | ask => exact ready

theorem serves_pushes :
    Serves (body : ClosableQueue V cap → (call : Call V) → _) IsPush Pushable where
  finishes := by
    intro q call ready pushes
    apply body_finishes
    intro c waits
    cases waits with
    | full item isOpen items => simp [Pushable, isOpen, items] at ready
    | empty => exact pushes.elim
  stays := by
    intro q call q' reply notice ready other run
    cases body_done run with
    | accept => exact absurd trivial other
    | refuse => exact absurd trivial other
    | hand item oldest items closed =>
        have bound := q.bound
        rw [items, List.length_cons] at bound
        exact Or.inr bound
    | drained => exact ready
    | close items closed => exact Or.inl closed
    | ask => exact ready

end ClosableQueue

end Serving

section Steps

variable {s s' : System (RingBuffer V) T Cond W α (Reply (V := V)) Q}
variable {e : SystemEvent T Cond (Reply (V := V)) Q}

/-- A pop that ends while the ring is open returns a record. -/
theorem pop_takes (step : ClientStep body own resume s e s')
    (isOpen : s.monitor.shared.shutdown = false) (ends : e.Answers IsPop) :
    ∃ t item oldest, e = .shared (.returns t (.pop item) (true, oldest)) := by
  cases step with
  | @returns σ τ code world t call reply next at_ step =>
      cases call with
      | pop item =>
          obtain ⟨got, oldest⟩ := reply
          cases step with
          | returns _ run _ =>
              cases got with
              | false => simp [(bufferPop_refused run).1] at isOpen
              | true => exact ⟨t, item, oldest, rfl⟩
      | _ => exact ends.elim
  | _ => exact ends.elim

/-- A push that ends while the ring is open is accepted. -/
theorem push_enters (step : ClientStep body own resume s e s')
    (isOpen : s.monitor.shared.shutdown = false) (ends : e.Answers IsPush) :
    ∃ t item, e = .shared (.returns t (.push item) true) := by
  cases step with
  | @returns σ τ code world t call reply next at_ step =>
      cases call with
      | push item =>
          cases step with
          | returns _ run _ =>
              cases reply with
              | false => simp [(bufferPush_refused run).1] at isOpen
              | true => exact ⟨t, item, rfl⟩
      | _ => exact ends.elim
  | _ => exact ends.elim

end Steps

section Executions

variable {x : Execution (ClientStep (T := T) (body (V := V)) own resume)} {n : Nat}
/-- No step takes a shutdown back. -/
theorem shutdown_later {m : Nat} (later : n ≤ m)
    (shutdown : (x.state n).monitor.shared.shutdown = true) :
    (x.state m).monitor.shared.shutdown = true := by
  obtain ⟨es, -, rest⟩ := x.run_between later
  exact shared_invariant (I := fun rb : RingBuffer V => rb.shutdown = true)
    (monitor_run rest) shutdown fun closed run => shutdown_stays closed run

variable (begins : (x.state 0).monitor = Config.start rb)
include begins

theorem ring_run (m : Nat) :
    Run (Step body) (Config.start rb) (ringEvents (x.trace m)) (x.state m).monitor :=
  begins ▸ monitor_run (x.run m)

theorem synced_ring (m : Nat) : Synced (x.state m).monitor.phase (x.state m).code :=
  Synced.run (x.run m) fun t => by rw [begins]; rfl

variable (hcap : capacity.val = cap)
variable (init : bufferInit structAllocated malloc capacity = some rb)
include hcap init

/-- The queue that the ring stands for at an instant, with the run that led to it. -/
theorem queue_at (m : Nat) : ∃ q : ClosableQueue V cap,
    Abstracts (x.state m).monitor.shared q ∧
    Run (Step ClosableQueue.body) (Config.start (.empty cap)) (ringEvents (x.trace m))
      ⟨q, (x.state m).monitor.phase⟩ ∧
    entered (x.trace m) = taken (x.trace m) + q.items.length := by
  obtain ⟨q, related, run⟩ := run_abstracts hcap init (ring_run begins m)
  refine ⟨q, related, run, ?_⟩
  have split := ClosableQueue.items_run run
  rw [Config.start_shared, ClosableQueue.empty_items, List.nil_append] at split
  rw [entered, split, List.length_append, taken]

/-- At a shutdown ring nobody sleeps. -/
theorem awake_at {m : Nat} (shutdown : (x.state m).monitor.shared.shutdown = true) :
    Awake (x.state m).monitor.phase := by
  obtain ⟨q, related, run, -⟩ := queue_at begins hcap init m
  exact ClosableQueue.closes.awake run (related.2.symm.trans shutdown)

/-- A pop comes to its end while a record is left or the ring is shut down. -/
theorem pop_goes_on [Fintype T] (fair : ∀ t, x.Fair (SystemEvent.MovesOf t))
    (ready : (x.state n).monitor.shared.shutdown = true ∨ taken (x.trace n) < entered (x.trace n))
    (asks : Asks x IsPop n) : Eventually (Answers x IsPop) n := by
  obtain ⟨q, related, run, counts⟩ := queue_at begins hcap init n
  have poppable : q.Poppable := by
    rcases ready with shutdown | left
    · exact Or.inl (related.2.symm.trans shutdown)
    · exact Or.inr (List.ne_nil_of_length_pos (by omega))
  have roused : Roused IsPop (x.state n).monitor := by
    cases closed : q.closed with
    | true => exact (ClosableQueue.closes.awake run closed).roused IsPop
    | false =>
        have left : q.items ≠ [] := poppable.resolve_left (by simp [closed])
        apply ClosableQueue.accounts_notEmpty.roused trivial run
        dsimp only
        rw [ClosableQueue.records_of_open closed]
        exact List.length_pos_of_ne_nil left
  exact (body_refines.serves ClosableQueue.serves_pops).answers (synced_ring begins) fair roused
    ⟨q, related, poppable⟩ asks

/-- A push comes to its end while a slot is left or the ring is shut down. -/
theorem push_goes_on [Fintype T] (fair : ∀ t, x.Fair (SystemEvent.MovesOf t))
    (ready : (x.state n).monitor.shared.shutdown = true ∨
      entered (x.trace n) < taken (x.trace n) + cap)
    (asks : Asks x IsPush n) : Eventually (Answers x IsPush) n := by
  obtain ⟨q, related, run, counts⟩ := queue_at begins hcap init n
  have pushable : q.Pushable := by
    rcases ready with shutdown | left
    · exact Or.inl (related.2.symm.trans shutdown)
    · exact Or.inr (by omega)
  have roused : Roused IsPush (x.state n).monitor := by
    cases closed : q.closed with
    | true => exact (ClosableQueue.closes.awake run closed).roused IsPush
    | false =>
        have left : q.items.length < cap := pushable.resolve_left (by simp [closed])
        apply ClosableQueue.accounts_notFull.roused trivial run
        dsimp only
        rw [ClosableQueue.space_of_open closed]
        omega
  exact (body_refines.serves ClosableQueue.serves_pushes).answers (synced_ring begins) fair roused
    ⟨q, related, pushable⟩ asks

omit hcap init begins in
theorem entered_grows {n m : Nat} (later : n ≤ m) : entered (x.trace n) ≤ entered (x.trace m) :=
  (((x.trace_prefix later).flatMap _).flatMap _).length_le

omit hcap init begins in
theorem taken_grows {n m : Nat} (later : n ≤ m) : taken (x.trace n) ≤ taken (x.trace m) :=
  (((x.trace_prefix later).flatMap _).flatMap _).length_le

omit hcap init begins in
/-- The end of a pop of an open ring takes a record. -/
theorem taken_succ {m : Nat} (isOpen : (x.state m).monitor.shared.shutdown = false)
    (answers : Answers x IsPop m) : taken (x.trace m) < taken (x.trace (m + 1)) := by
  obtain ⟨e, event, ends⟩ := answers
  rcases x.tick_cases m with ⟨none, -⟩ | ⟨e', event', step⟩
  · cases event.symm.trans none
  · cases event.symm.trans event'
    obtain ⟨t, item, oldest, rfl⟩ := pop_takes step isOpen ends
    simp [x.trace_succ, event, taken, ringEvents, returned, returnedBy, SystemEvent.onMonitor]

omit hcap init begins in
/-- The end of a push to an open ring enters a record. -/
theorem entered_succ {m : Nat} (isOpen : (x.state m).monitor.shared.shutdown = false)
    (answers : Answers x IsPush m) : entered (x.trace m) < entered (x.trace (m + 1)) := by
  obtain ⟨e, event, ends⟩ := answers
  rcases x.tick_cases m with ⟨none, -⟩ | ⟨e', event', step⟩
  · cases event.symm.trans none
  · cases event.symm.trans event'
    obtain ⟨t, item, rfl⟩ := push_enters step isOpen ends
    simp [x.trace_succ, event, entered, ringEvents, accepted, acceptedBy, SystemEvent.onMonitor]

/-- As many pushes and pops as threads are at them pass through an open ring, when
there are records enough for the pops and room enough for the other pushes. -/
theorem comes_to_pass [Fintype T] (fair : ∀ t, x.Fair (SystemEvent.MovesOf t))
    (isOpen : ∀ m, n ≤ m → (x.state m).monitor.shared.shutdown = false) {pushes pops : Nat}
    (slot : 0 < cap) (enough : pops ≤ pushes) (room : pushes ≤ pops + cap)
    (pushing : ∀ m, n ≤ m → entered (x.trace m) < pushes → Asks x IsPush m)
    (popping : ∀ m, n ≤ m → taken (x.trace m) < pops → Asks x IsPop m) :
    Eventually (fun m => pushes ≤ entered (x.trace m) ∧ pops ≤ taken (x.trace m)) n := by
  -- each answer brings the sum of what is still to pass down
  have passes : ∀ k, ∀ m, n ≤ m →
      (pushes - entered (x.trace m)) + (pops - taken (x.trace m)) ≤ k →
      Eventually (fun m => pushes ≤ entered (x.trace m) ∧ pops ≤ taken (x.trace m)) m := by
    intro k
    induction k with
    | zero => exact fun m _ none => .now ⟨by omega, by omega⟩
    | succ k ih =>
        intro m later left
        have pushed (more : entered (x.trace m) < pushes)
            (space : entered (x.trace m) < taken (x.trace m) + cap) :
            Eventually (fun m => pushes ≤ entered (x.trace m) ∧ pops ≤ taken (x.trace m)) m := by
          have ends := push_goes_on begins hcap init fair (Or.inr space) (pushing m later more)
          refine ends.next fun j since answers => ?_
          have grown := entered_grows (x := x) since
          have one := entered_succ (isOpen j (later.trans since)) answers
          have kept := taken_grows (x := x) (since.trans (Nat.le_add_right j 1))
          obtain ⟨i, after, passed⟩ := ih (j + 1) (by omega) (by omega)
          exact ⟨i, by omega, passed⟩
        obtain ⟨q, -, -, counts⟩ := queue_at begins hcap init m
        rcases Nat.lt_or_ge (taken (x.trace m)) pops with more | popped
        · rcases Nat.eq_zero_or_pos q.items.length with empty | held
          · exact pushed (by omega) (by omega)
          · have ends := pop_goes_on begins hcap init fair (Or.inr (by omega))
              (popping m later more)
            refine ends.next fun j since answers => ?_
            have grown := taken_grows (x := x) since
            have one := taken_succ (isOpen j (later.trans since)) answers
            have kept := entered_grows (x := x) (since.trans (Nat.le_add_right j 1))
            obtain ⟨i, after, passed⟩ := ih (j + 1) (by omega) (by omega)
            exact ⟨i, by omega, passed⟩
        · rcases Nat.lt_or_ge (entered (x.trace m)) pushes with more | pushed'
          · exact pushed more (by omega)
          · exact .now ⟨pushed', popped⟩
  exact passes _ n le_rfl le_rfl

/-- A call that never waits, and every call after a shutdown, gets its answer. -/
theorem answered_at_once {t : T} (fair : x.Fair (SystemEvent.MovesOf t)) {call : Call V} {next}
    (ready : (x.state n).monitor.shared.shutdown = true ∨ ¬ IsPush call ∧ ¬ IsPop call)
    (at_ : (x.state n).code t = .call (.shared call) next) :
    Eventually (fun m => ∃ reply, AnsweredAt x t n (.shared call) next m reply) n := by
  have answered := call_answered (synced_ring begins) fair at_ fun m later here _ => ?_
  · exact answered.mono fun m _ ⟨reply, _, answer, _⟩ => ⟨reply, answer⟩
  obtain ⟨q, related, -⟩ := queue_at begins hcap init m
  rcases ready with shutdown | ⟨notPush, notPop⟩
  · have closed := shutdown_later later shutdown
    exact ⟨awake_at begins hcap init closed t, body_finishes related (related.2 ▸ closed) call⟩
  · constructor
    · intro c blocked
      obtain ⟨call', asleep⟩ := Phase.blockedOn_iff.mp blocked
      obtain ⟨next', at'⟩ := synced_ring begins m t call' (by rw [asleep]; rfl)
      cases here.symm.trans at'
      obtain ⟨rb', waits⟩ := sent_to_wait (ring_run begins m) (Or.inl asleep)
      cases call <;> first | exact notPush trivial | exact notPop trivial | cases waits
    · cases call with
      | push => exact absurd trivial notPush
      | pop => exact absurd trivial notPop
      | signalShutdown => exact ⟨_, _, _, rfl⟩
      | isShutdown => exact ⟨_, _, _, rfl⟩

end Executions

/-- In every execution that schedules each of finitely many threads fairly, over a mutex
that starves none of them, whatever programs over the ring they run: while a record is left or the ring is shut down, a
thread at a pop brings some pop to its end, and while a slot is left or the ring is
shut down, a thread at a push brings some push to its end. So a ring that has a slot
never keeps a thread at a push and one at a pop both waiting. A call that never waits
gets its answer, and after a shutdown every call of every thread does. -/
theorem ring_goes_on [Fintype T] {x : Execution (ClientStep (T := T) (body (V := V)) own resume)}
    (init : bufferInit structAllocated malloc capacity = some rb)
    (begins : (x.state 0).monitor = Config.start rb) (fair : ∀ t, x.Fair (SystemEvent.MovesOf t))
    (n : Nat) :
    ((x.state n).monitor.shared.shutdown = true ∨ taken (x.trace n) < entered (x.trace n) →
      Asks x IsPop n → Eventually (Answers x IsPop) n) ∧
    ((x.state n).monitor.shared.shutdown = true ∨
        (entered (x.trace n) : Int) < taken (x.trace n) + capacity.val →
      Asks x IsPush n → Eventually (Answers x IsPush) n) ∧
    (1 ≤ capacity.val → Asks x IsPop n → Asks x IsPush n →
      Eventually (fun m => Answers x IsPop m ∨ Answers x IsPush m) n) ∧
    ∀ t call next, (x.state n).code t = .call (.shared call) next →
      (x.state n).monitor.shared.shutdown = true ∨ ¬ IsPush call ∧ ¬ IsPop call →
      Eventually (fun m => ∃ reply, AnsweredAt x t n (.shared call) next m reply) n := by
  obtain ⟨cap, hcap⟩ := Int.eq_ofNat_of_zero_le (capacity_nonneg init)
  have pops := pop_goes_on (n := n) begins hcap init fair
  have pushes := push_goes_on (n := n) begins hcap init fair
  refine ⟨pops, fun ready asks => ?_, fun room popping pushing => ?_, ?_⟩
  · refine pushes (ready.imp_right fun room => ?_) asks
    rw [hcap] at room
    exact_mod_cast room
  · -- with one slot at least the ring holds a record or has room
    obtain ⟨q, -, -, counts⟩ := queue_at begins hcap init n
    rcases Nat.eq_zero_or_pos q.items.length with empty | left
    · have answers := pushes (Or.inr (by omega)) pushing
      exact answers.mono fun m _ h => Or.inr h
    · have answers := pops (Or.inr (by omega)) popping
      exact answers.mono fun m _ h => Or.inl h
  · intro t call next at_ ready
    exact answered_at_once begins hcap init (fair t) ready at_

/-- One thread pushes to the fresh ring of one slot and another pops from it. -/
theorem ring_goes_on_one_slot :
    ∃ x : Execution (ClientStep (T := Bool) (L := Empty) (W := Unit) (Q := fun l => nomatch l)
        (body (V := Nat)) (fun l => nomatch l) fun _ : Unit => none),
      (x.state 0).monitor = Config.start (oneSlot (fun _ => 0) (.lit 0) false) ∧
      Asks x IsPop 0 ∧ Asks x IsPush 0 ∧
      Eventually (fun m => Answers x IsPop m ∨ Answers x IsPush m) 0 := by
  let code : Bool → Client (Reply (V := Nat)) (fun l : Empty => nomatch l) Unit := fun pushes =>
    if pushes then .call (.shared (.push 7)) fun _ => .ret ()
    else .call (.shared (.pop 0)) fun _ => .ret ()
  obtain ⟨x, begins, fair, -⟩ := exists_fair
    (ClientStep (T := Bool) (W := Unit) (body (V := Nat)) (fun l => nomatch l) fun _ => none)
    SystemEvent.MovesOf ⟨Config.start (oneSlot (fun _ => 0) (.lit 0) false), code, ()⟩
  have pops : Asks x IsPop 0 := ⟨false, .pop 0, _, by rw [begins]; rfl, trivial⟩
  have pushes : Asks x IsPush 0 := ⟨true, .push 7, _, by rw [begins]; rfl, trivial⟩
  have monitor : (x.state 0).monitor = Config.start (oneSlot (fun _ => 0) (.lit 0) false) := by
    rw [begins]
  exact ⟨x, monitor, pops, pushes,
    (ring_goes_on oneSlot_init monitor fair 0).2.2.1 (by decide) pops pushes⟩

end TelemetrixDb.Ring
