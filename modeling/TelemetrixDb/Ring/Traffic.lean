import TelemetrixDb.Ring.Progress
import Mathlib.Algebra.BigOperators.Fin

/-!
# When producers and consumers come to their ends

Each of finitely many threads pushes the records of a list or pops a number of
times, and nobody asks for a shutdown. Such threads come to their ends exactly when
the pops have records enough, the ring has room for the records that are not popped,
and a ring without slots is asked for nothing.

-/

namespace TelemetrixDb.Ring
open CMachine Monitor Transition

section Loops

variable {V L : Type} {Q : L → Type}

abbrev RingCode (V : Type) {L : Type} (Q : L → Type) (α : Type) := Client (Reply (V := V)) Q α

def ringCall (call : Call V) : RingCode V Q (Reply call) := Program.perform (ClientOp.shared call)

/-- Push one record after the other, whatever the pushes answer. -/
def pushAll : List V → RingCode V Q Unit
  | [] => return ()
  | item :: items => do
      let _ ← ringCall (.push item)
      pushAll items

/-- Pop a number of times into one record of the caller's. -/
def popTimes : Nat → V → RingCode V Q V
  | 0, out => return out
  | pops + 1, out => do
      let (_, out) ← ringCall (.pop out)
      popTimes pops out

end Loops

variable {V T : Type}

/-- What one thread has to do. -/
inductive Job (V : Type)
  | produce (items : List V)
  | consume (pops : Nat) (out : V)

/-- A thread that makes no calls but those on the ring. -/
abbrev NoAns : Empty → Type := fun l => nomatch l

namespace Job

def code : Job V → RingCode V NoAns Unit
  | .produce items => pushAll items
  | .consume pops out => do
      let _ ← popTimes pops out

def pushes : Job V → Nat
  | .produce items => items.length
  | .consume _ _ => 0

def pops : Job V → Nat
  | .produce _ => 0
  | .consume pops _ => pops

variable {job : Job V}

/-- A job at a call has it to do. -/
theorem at_call {call : Call V} {next} (h : job.code = .call (.shared call) next) :
    (∃ item items, job = .produce (item :: items) ∧ call = .push item ∧
      ∀ reply : Reply call, next reply = (produce items).code) ∨
    (∃ pops out, job = .consume (pops + 1) out ∧ call = .pop out ∧
      ∀ reply : Reply call, ∃ out, next reply = (consume pops out).code) := by
  cases job with
  | produce items =>
      cases items with
      | nil => cases h
      | cons item items =>
          cases h
          exact Or.inl ⟨item, items, rfl, rfl, fun _ => rfl⟩
  | consume pops out =>
      cases pops with
      | zero => cases h
      | succ pops =>
          cases h
          exact Or.inr ⟨pops, out, rfl, rfl, fun reply => ⟨reply.2, rfl⟩⟩

theorem done_iff : job.code = .ret () ↔ job.pushes = 0 ∧ job.pops = 0 := by
  cases job with
  | produce items => cases items <;> simp [code, pushAll, ringCall, pushes, pops]
  | consume pops out => cases pops <;> simp [code, popTimes, ringCall, Job.pushes, Job.pops]

/-- A job with pushes left is at a push. -/
theorem asks_push (left : 0 < job.pushes) :
    ∃ call next, job.code = .call (.shared call) next ∧ IsPush call := by
  cases job with
  | produce items =>
      cases items with
      | nil => simp [pushes] at left
      | cons item items => exact ⟨_, _, rfl, trivial⟩
  | consume pops out => simp [pushes] at left

theorem asks_pop (left : 0 < job.pops) :
    ∃ call next, job.code = .call (.shared call) next ∧ IsPop call := by
  cases job with
  | produce items => simp [pops] at left
  | consume pops out =>
      cases pops with
      | zero => simp [Job.pops] at left
      | succ pops => exact ⟨_, _, rfl, trivial⟩

end Job

abbrev TrafficState (V T : Type) :=
  System (RingBuffer V) T Cond Unit Unit (Reply (V := V)) NoAns

/-- No thread has calls of its own, nor a second turn. -/
def noOwn (l : Empty) : Unit → NoAns l → Unit → Prop := nomatch l

def noMore : Unit → Option (RingCode V NoAns Unit) := fun _ => none

abbrev TrafficStep (V T : Type) [DecidableEq T] :=
  ClientStep (T := T) (body (V := V)) noOwn noMore

/-- The threads at the start of their jobs. -/
def traffic (rb : RingBuffer V) (jobs : T → Job V) : TrafficState V T where
  monitor := Config.start rb
  code := fun t => (jobs t).code
  world := ()

variable [DecidableEq T] [Fintype T] {jobs : T → Job V} {rb : RingBuffer V}
variable {es : List (SystemEvent T Cond (Reply (V := V)) NoAns)}
variable {s : TrafficState V T}

/-- The pushes that the threads have to make. -/
def pushesOf (jobs : T → Job V) : Nat := ∑ t, (jobs t).pushes

def popsOf (jobs : T → Job V) : Nat := ∑ t, (jobs t).pops

omit [Fintype T] in
theorem sum_update [Fintype T] (f : Job V → Nat) (jobs : T → Job V) (t : T) (job : Job V) :
    ∑ u, f (Function.update jobs t job u) + f (jobs t) = ∑ u, f (jobs u) + f job := by
  have split (g : T → Job V) : ∑ u, f (g u) = f (g t) + ∑ u ∈ Finset.univ.erase t, f (g u) :=
    (Finset.add_sum_erase _ (fun u => f (g u)) (Finset.mem_univ t)).symm
  have others : ∑ u ∈ Finset.univ.erase t, f (Function.update jobs t job u) =
      ∑ u ∈ Finset.univ.erase t, f (jobs u) := by
    apply Finset.sum_congr rfl
    intro u hu
    rw [Function.update_of_ne (Finset.ne_of_mem_erase hu)]
  rw [split, split jobs, others, Function.update_self]
  omega

/-- What is left of the jobs after the calls so far. -/
structure Remaining (jobs : T → Job V)
    (es : List (SystemEvent T Cond (Reply (V := V)) NoAns))
    (s : TrafficState V T) (left : T → Job V) : Prop where
  code : ∀ t, s.code t = (left t).code
  isOpen : s.monitor.shared.shutdown = false
  pushes : entered es + pushesOf left = pushesOf jobs
  pops : taken es + popsOf left = popsOf jobs

omit [DecidableEq T] in
theorem Remaining.start (isOpen : rb.shutdown = false) :
    Remaining jobs [] (traffic rb jobs) jobs where
  code := fun _ => rfl
  isOpen := isOpen
  pushes := by simp [entered, ringEvents, accepted]
  pops := by simp [taken, ringEvents, returned]

omit [DecidableEq T] in
/-- A step that ends no call leaves all that was left. -/
theorem Remaining.silent {e : SystemEvent T Cond (Reply (V := V)) NoAns} {s' : TrafficState V T}
    {left : T → Job V} (h : Remaining jobs es s left) (code : s'.code = s.code)
    (shared : s'.monitor.shared = s.monitor.shared) (pushes : entered [e] = 0)
    (pops : taken [e] = 0) : Remaining jobs (es ++ [e]) s' left where
  code := by
    rw [code]
    exact h.code
  isOpen := by
    rw [shared]
    exact h.isOpen
  pushes := by
    rw [entered_append, pushes, Nat.add_zero]
    exact h.pushes
  pops := by
    rw [taken_append, pops, Nat.add_zero]
    exact h.pops

/-- A call that ends leaves its thread with that much less. -/
theorem Remaining.move {e : SystemEvent T Cond (Reply (V := V)) NoAns} {s' : TrafficState V T}
    {left : T → Job V} (h : Remaining jobs es s left) (t : T) (job : Job V)
    (code : s'.code = Function.update s.code t job.code)
    (isOpen : s'.monitor.shared.shutdown = false)
    (pushes : (left t).pushes = job.pushes + entered [e])
    (pops : (left t).pops = job.pops + taken [e]) :
    Remaining jobs (es ++ [e]) s' (Function.update left t job) where
  code := by
    intro u
    rw [code]
    by_cases hut : u = t
    · subst hut
      simp
    · simpa [Function.update_of_ne hut] using h.code u
  isOpen := isOpen
  pushes := by
    have before := h.pushes
    have moved := sum_update Job.pushes left t job
    rw [entered_append]
    unfold pushesOf at *
    omega
  pops := by
    have before := h.pops
    have moved := sum_update Job.pops left t job
    rw [taken_append]
    unfold popsOf at *
    omega

/-- One step makes one push or one pop of what is left, or none. -/
theorem Remaining.step {e : SystemEvent T Cond (Reply (V := V)) NoAns} {s' : TrafficState V T}
    {left : T → Job V} (h : Remaining jobs es s left) (step : TrafficStep V T s e s') :
    ∃ left', Remaining jobs (es ++ [e]) s' left' := by
  have whole := step
  cases step with
  | call _ step =>
      cases step
      exact ⟨left, h.silent rfl rfl rfl rfl⟩
  | waits step =>
      cases step
      exact ⟨left, h.silent rfl rfl rfl rfl⟩
  | spurious step =>
      cases step
      exact ⟨left, h.silent rfl rfl rfl rfl⟩
  | @returns σ τ code world t call reply next at_ step =>
      have isOpen (other : call ≠ .signalShutdown) : τ.shared.shutdown = false := by
        cases step with
        | returns _ run _ =>
            rw [← Bool.not_eq_true]
            intro shutdown
            have already := (shutdown_set run shutdown).resolve_right other
            exact absurd (h.isOpen.symm.trans already) (by simp)
      rcases Job.at_call ((h.code t).symm.trans at_) with
        ⟨item, items, job, rfl, after⟩ | ⟨pops, out, job, rfl, after⟩
      · obtain ⟨_, _, same⟩ := push_enters whole h.isOpen trivial
        cases same
        refine ⟨_, h.move t (.produce items) ?_ (isOpen (by simp)) ?_ ?_⟩
        · rw [after]
        · rw [job]
          rfl
        · rw [job]
          rfl
      · obtain ⟨_, _, oldest, same⟩ := pop_takes whole h.isOpen trivial
        cases same
        obtain ⟨out', after⟩ := after (true, oldest)
        refine ⟨_, h.move t (.consume pops out') ?_ (isOpen (by simp)) ?_ ?_⟩
        · rw [after]
        · rw [job]
          rfl
        · rw [job]
          rfl
  | @own _ _ _ _ _ l => exact l.elim
  | again at_ more => cases more

theorem remaining_run (isOpen : rb.shutdown = false)
    (run : Run (TrafficStep V T) (traffic rb jobs) es s) : ∃ left, Remaining jobs es s left :=
  run.history_invariant (I := fun es s => ∃ left, Remaining jobs es s left)
    ⟨jobs, .start isOpen⟩ fun ⟨_, h⟩ step => h.step step

omit [DecidableEq T] in
theorem exists_left {f : Job V → Nat} {left : T → Job V} (some : ∑ t, f (left t) ≠ 0) :
    ∃ t, 0 < f (left t) := by
  obtain ⟨t, -, left⟩ := Finset.exists_ne_zero_of_sum_ne_zero some
  exact ⟨t, Nat.pos_of_ne_zero left⟩

omit [DecidableEq T] in
/-- While not all pushes are made some thread is at one. -/
theorem Remaining.pushing {left : T → Job V} (h : Remaining jobs es s left)
    (more : entered es < pushesOf jobs) :
    ∃ t call next, s.code t = .call (.shared call) next ∧ IsPush call := by
  have whole := h.pushes
  have some : pushesOf left ≠ 0 := by omega
  obtain ⟨t, some⟩ := exists_left some
  obtain ⟨call, next, at_, push⟩ := Job.asks_push some
  exact ⟨t, call, next, (h.code t).trans at_, push⟩

omit [DecidableEq T] in
/-- While not all pops are made some thread is at one. -/
theorem Remaining.popping {left : T → Job V} (h : Remaining jobs es s left)
    (more : taken es < popsOf jobs) :
    ∃ t call next, s.code t = .call (.shared call) next ∧ IsPop call := by
  have whole := h.pops
  have some : popsOf left ≠ 0 := by omega
  obtain ⟨t, some⟩ := exists_left some
  obtain ⟨call, next, at_, pop⟩ := Job.asks_pop some
  exact ⟨t, call, next, (h.code t).trans at_, pop⟩

omit [DecidableEq T] in
/-- All threads have come to their ends when all pushes and pops are made. -/
theorem Remaining.ended_iff {left : T → Job V} (h : Remaining jobs es s left) :
    (∀ t, s.code t = .ret ()) ↔ entered es = pushesOf jobs ∧ taken es = popsOf jobs := by
  have pushes := h.pushes
  have pops := h.pops
  have none : (∀ t, s.code t = .ret ()) ↔ pushesOf left = 0 ∧ popsOf left = 0 := by
    simp only [h.code, Job.done_iff, pushesOf, popsOf, Finset.sum_eq_zero_iff, Finset.mem_univ,
      forall_true_left, forall_and]
  rw [none]
  omega

/-- A queue without slots accepts nothing. -/
theorem ClosableQueue.accepted_of_no_slot {T : Type} [DecidableEq T]
    {σ τ : Config (ClosableQueue V 0) T (Call V) Cond} {es : List (RingEvent T V)}
    (run : Run (Step body) σ es τ) : accepted es = [] := by
  refine run.history_invariant (I := fun es _ => accepted es = []) rfl ?_
  intro es σ e τ none step
  have nothing : acceptedBy e = [] := by
    cases step with
    | @returns q phase t call q' reply notice chosen _ run _ =>
        cases body_done run with
        | accept item wasOpen items =>
            have bound := q'.bound
            simp [items] at bound
        | _ => rfl
    | _ => rfl
  rw [accepted, List.flatMap_append, List.flatMap_singleton, nothing, List.append_nil]
  exact none

section Executions

variable {structAllocated : Bool} {malloc : Malloc V} {capacity : CInt}
variable {x : Execution (TrafficStep V T)}

theorem remaining_at (init : bufferInit structAllocated malloc capacity = some rb)
    (begins : x.state 0 = traffic rb jobs) (m : Nat) :
    ∃ left, Remaining jobs (x.trace m) (x.state m) left := by
  obtain ⟨cap, hcap⟩ := Int.eq_ofNat_of_zero_le (capacity_nonneg init)
  exact remaining_run (bufferInit_represents hcap init).2 (begins ▸ x.run m)

/-- Threads that push and pop, finitely many and scheduled fairly, all come to their
ends exactly when there are records enough for the pops, room enough in the ring for
the records that are not popped, and a slot if there is a record at all. -/
theorem traffic_ends_iff (init : bufferInit structAllocated malloc capacity = some rb)
    (begins : x.state 0 = traffic rb jobs) (fair : ∀ t, x.Fair (SystemEvent.MovesOf t)) :
    Eventually (fun m => ∀ t, (x.state m).code t = .ret ()) 0 ↔
      popsOf jobs ≤ pushesOf jobs ∧ (pushesOf jobs : Int) ≤ popsOf jobs + capacity.val ∧
        (capacity.val = 0 → pushesOf jobs = 0) := by
  obtain ⟨cap, hcap⟩ := Int.eq_ofNat_of_zero_le (capacity_nonneg init)
  have monitor : (x.state 0).monitor = Config.start rb := by
    rw [begins]
    rfl
  have ended (m : Nat) : (∀ t, (x.state m).code t = .ret ()) ↔
      entered (x.trace m) = pushesOf jobs ∧ taken (x.trace m) = popsOf jobs := by
    obtain ⟨left, h⟩ := remaining_at init begins m
    exact h.ended_iff
  simp only [ended, hcap]
  constructor
  · rintro ⟨m, -, pushes, pops⟩
    obtain ⟨q, related, run, counts⟩ := queue_at monitor hcap init m
    have bound := q.bound
    refine ⟨by omega, by omega, fun none => ?_⟩
    obtain rfl : cap = 0 := by exact_mod_cast none
    rw [← pushes, entered, ClosableQueue.accepted_of_no_slot run, List.length_nil]
  · rintro ⟨enough, room, slot⟩
    rcases Nat.eq_zero_or_pos cap with none | some
    · obtain rfl := none
      have nothing := slot rfl
      obtain ⟨left, h⟩ := remaining_at init begins 0
      have pushes := h.pushes
      have pops := h.pops
      refine .now ⟨?_, ?_⟩ <;> omega
    · have passes := comes_to_pass (n := 0) monitor hcap init fair
        (fun m _ => (remaining_at init begins m).choose_spec.isOpen) some enough
        (by exact_mod_cast room) ?_ ?_
      · apply passes.mono
        intro m _ passed
        obtain ⟨pushes, pops⟩ := passed
        obtain ⟨left, h⟩ := remaining_at init begins m
        have allPushes := h.pushes
        have allPops := h.pops
        constructor <;> omega
      · intro m _ more
        exact (remaining_at init begins m).choose_spec.pushing more
      · intro m _ more
        exact (remaining_at init begins m).choose_spec.popping more

end Executions

/-- Two producers of one record each and a consumer of two, over the ring of one
slot, come to their ends. -/
theorem traffic_ends_iff_one_slot :
    let jobs : Fin 3 → Job Nat := ![.produce [7], .produce [8], .consume 2 0]
    ∃ x : Execution (TrafficStep Nat (Fin 3)),
      x.state 0 = traffic (oneSlot (fun _ => 0) (.lit 0) false) jobs ∧
      Eventually (fun m => ∀ t, (x.state m).code t = .ret ()) 0 := by
  intro jobs
  obtain ⟨x, begins, fair, -⟩ := exists_fair (TrafficStep Nat (Fin 3)) SystemEvent.MovesOf
    (traffic (oneSlot (fun _ => 0) (.lit 0) false) jobs)
  refine ⟨x, begins, (traffic_ends_iff oneSlot_init begins fair).mpr ?_⟩
  simp [jobs, pushesOf, popsOf, Fin.sum_univ_three, Job.pushes, Job.pops]

end TelemetrixDb.Ring
