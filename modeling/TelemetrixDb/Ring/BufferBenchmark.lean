import TelemetrixDb.Ring.Lifecycle
import TelemetrixDb.Ring.Traffic

/-!
# A round of `benchmark_buffer.cpp`

`main` makes a ring, creates a producer, pops as many records as the producer pushes,
joins it and destroys the ring. The program makes two such rounds.

## Implementation notes

The producer may push any records; those of the program are copies of one. A round
begins when the producer is created. The end of the producer's function is a call of
its own, which `pthread_join` waits for. Clocks and printed lines are left out.

-/

namespace TelemetrixDb.Ring.Benchmark
open CMachine Monitor Transition

variable {V : Type}

/-- What the threads do besides calling the ring. -/
inductive OwnOp
  | exit
  | join
  | destroy

abbrev OwnAns : OwnOp → Type := fun _ => Unit

def own (l : OwnOp) : RingCode V OwnAns Unit := Program.perform (ClientOp.own l)

/-- The start routine of the producer. -/
def producer (items : List V) : RingCode V OwnAns Unit := do
  pushAll items
  own .exit

/-- `main` from the creation of the producer on. -/
def main (nRecords : Nat) (out : V) : RingCode V OwnAns Unit := do
  let _ ← popTimes nRecords out
  own .join
  own .destroy

structure World where
  heap : Heap
  exited : Bool

/-- What a thread's own call may answer and leave. -/
def Own (blocks : RingBlocks) : (l : OwnOp) → World → OwnAns l → World → Prop
  | .exit, w, _, w' => w' = { w with exited := true }
  | .join, w, _, w' => w.exited = true ∧ w' = w
  | .destroy, w, _, w' => bufferDestroy w.heap (some blocks) = .ok w'.heap ∧ w'.exited = w.exited

inductive Thread
  | main
  | producer
  deriving DecidableEq

theorem mem_threads (t : Thread) : t ∈ ({.main, .producer} : Finset Thread) := by
  cases t <;> simp

instance thread_fintype : Fintype Thread := ⟨{.main, .producer}, mem_threads⟩

abbrev State (V : Type) :=
  System (RingBuffer V) Thread Cond World Unit (Reply (V := V)) OwnAns

abbrev Event (V : Type) := SystemEvent Thread Cond (Reply (V := V)) OwnAns

def noMore : Unit → Option (RingCode V OwnAns Unit) := fun _ => none

abbrev Step (V : Type) (blocks : RingBlocks) :=
  ClientStep (T := Thread) (body (V := V)) (Own blocks) noMore

/-- A round over a ring that was just made. -/
def start (rb : RingBuffer V) (heap : Heap) (items : List V) (out : V) : State V where
  monitor := Config.start rb
  code
    | .main => main items.length out
    | .producer => producer items
  world := ⟨heap, false⟩

/-- Where the producer stands, with the records accepted so far. -/
inductive ProducerAt (items accepted : List V) (exited : Bool) (code : RingCode V OwnAns Unit) :
    Prop
  | pushing (rest : List V) (at_ : code = producer rest) (all : items = accepted ++ rest)
      (notYet : exited = false)
  | ended (at_ : code = .ret ()) (all : items = accepted) (gone : exited = true)

/-- Where `main` stands, with the number of records popped so far. -/
inductive MainAt (made before : Heap) (nRecords taken : Nat) (w : World)
    (code : RingCode V OwnAns Unit) : Prop
  | popping (left : Nat) (out : V) (at_ : code = main left out) (count : taken + left = nRecords)
      (same : w.heap = made)
  | destroying (at_ : code = own .destroy) (count : taken = nRecords) (gone : w.exited = true)
      (same : w.heap = made)
  | ended (at_ : code = .ret ()) (count : taken = nRecords) (gone : w.exited = true)
      (restored : w.heap.block = before.block)

/-- What holds throughout a round. -/
structure Round (made before : Heap) (items : List V) (es : List (Event V)) (s : State V) :
    Prop where
  producer : ProducerAt items (accepted (ringEvents es)) s.world.exited (s.code .producer)
  main : MainAt made before items.length (taken es) s.world (s.code .main)
  isOpen : s.monitor.shared.shutdown = false

variable {made before : Heap} {items : List V} {es : List (Event V)} {e : Event V}
variable {s s' : State V} {blocks : RingBlocks} {rb : RingBuffer V} {out : V}

theorem Round.start (isOpen : rb.shutdown = false) :
    Round made before items [] (start rb made items out) where
  producer := .pushing items rfl rfl rfl
  main := .popping items.length out rfl (Nat.zero_add _) rfl
  isOpen := isOpen

theorem accepted_append (es fs : List (Event V)) :
    accepted (ringEvents (es ++ fs)) = accepted (ringEvents es) ++ accepted (ringEvents fs) := by
  simp [ringEvents, accepted]

/-- A step that ends no call leaves the round where it was. -/
theorem Round.silent (h : Round made before items es s) (code : s'.code = s.code)
    (world : s'.world = s.world) (shared : s'.monitor.shared = s.monitor.shared)
    (pushes : accepted (ringEvents [e]) = []) (pops : taken [e] = 0) :
    Round made before items (es ++ [e]) s' where
  producer := by
    rw [accepted_append, pushes, List.append_nil, code, world]
    exact h.producer
  main := by
    rw [taken_append, pops, Nat.add_zero, code, world]
    exact h.main
  isOpen := by
    rw [shared]
    exact h.isOpen

/-- The producer's calls on the ring are pushes of what is left. -/
theorem ProducerAt.at_ring {acc : List V} {exited : Bool} {call : Call V} {next}
    (h : ProducerAt items acc exited (.call (.shared call) next)) :
    ∃ item rest, call = .push item ∧ items = acc ++ item :: rest ∧ exited = false ∧
      ∀ reply : Reply call, next reply = producer rest := by
  cases h with
  | ended at_ => cases at_
  | pushing rest at_ all notYet =>
      cases rest with
      | nil => cases at_
      | cons item rest =>
          cases at_
          exact ⟨item, rest, rfl, all, notYet, fun _ => rfl⟩

/-- The calls of `main` on the ring are the pops that are left. -/
theorem MainAt.at_ring {nRecords count : Nat} {w : World} {call : Call V} {next}
    (h : MainAt made before nRecords count w (.call (.shared call) next)) :
    ∃ out left, call = .pop out ∧ count + (left + 1) = nRecords ∧ w.heap = made ∧
      ∀ reply : Reply call, ∃ out, next reply = main left out := by
  cases h with
  | destroying at_ => cases at_
  | ended at_ => cases at_
  | popping left out at_ count same =>
      cases left with
      | zero => cases at_
      | succ left =>
          cases at_
          exact ⟨out, left, rfl, count, same, fun reply => ⟨reply.2, rfl⟩⟩

/-- The calls of the producer's own are its end. -/
theorem ProducerAt.at_own {acc : List V} {exited : Bool} {l : OwnOp}
    {next : Unit → RingCode V OwnAns Unit}
    (h : ProducerAt items acc exited (.call (.own l) next)) :
    l = .exit ∧ items = acc ∧ next () = .ret () := by
  cases h with
  | ended at_ => cases at_
  | pushing rest at_ all =>
      cases rest with
      | cons item rest => cases at_
      | nil =>
          cases at_
          exact ⟨rfl, by simpa using all, rfl⟩

/-- The calls of `main` of its own come after its pops. -/
theorem MainAt.at_own {nRecords count : Nat} {w : World} {l : OwnOp}
    {next : Unit → RingCode V OwnAns Unit}
    (h : MainAt made before nRecords count w (.call (.own l) next)) :
    count = nRecords ∧ w.heap = made ∧
      (l = .join ∧ next () = own .destroy ∨
        l = .destroy ∧ w.exited = true ∧ next () = .ret ()) := by
  cases h with
  | ended at_ => cases at_
  | destroying at_ count gone same =>
      cases at_
      exact ⟨count, same, Or.inr ⟨rfl, gone, rfl⟩⟩
  | popping left out at_ count same =>
      cases left with
      | succ left => cases at_
      | zero =>
          cases at_
          exact ⟨count, same, Or.inl ⟨rfl, rfl⟩⟩

/-- No step of the other thread takes `main` elsewhere. -/
theorem MainAt.exit {nRecords count : Nat} {w : World} {code : RingCode V OwnAns Unit}
    (h : MainAt made before nRecords count w code) :
    MainAt made before nRecords count { w with exited := true } code := by
  cases h with
  | popping left out at_ count same => exact .popping left out at_ count same
  | destroying at_ count gone same => exact .destroying at_ count rfl same
  | ended at_ count gone restored => exact .ended at_ count rfl restored

section Rounds

variable (destroyed : ∀ {after}, bufferDestroy made (some blocks) = .ok after →
  after.block = before.block)
include destroyed

theorem Round.step (h : Round made before items es s) (step : Step V blocks s e s') :
    Round made before items (es ++ [e]) s' := by
  have whole := step
  cases step with
  | call _ step =>
      cases step
      exact h.silent rfl rfl rfl rfl rfl
  | waits step =>
      cases step
      exact h.silent rfl rfl rfl rfl rfl
  | spurious step =>
      cases step
      exact h.silent rfl rfl rfl rfl rfl
  | @returns σ τ code world t call reply next at_ step =>
      have isOpen (other : call ≠ .signalShutdown) : τ.shared.shutdown = false := by
        cases step with
        | returns _ run _ =>
            rw [← Bool.not_eq_true]
            intro shutdown
            have already := (shutdown_set run shutdown).resolve_right other
            exact absurd (h.isOpen.symm.trans already) (by simp)
      cases t with
      | producer =>
          have producer := h.producer
          dsimp only at producer
          rw [at_] at producer
          obtain ⟨item, rest, rfl, all, notYet, after⟩ := producer.at_ring
          obtain ⟨_, _, same⟩ := push_enters whole h.isOpen trivial
          cases same
          refine ⟨?_, ?_, isOpen (by simp)⟩ <;> dsimp only
          · rw [accepted_append, Function.update_self, after]
            exact .pushing rest rfl (all.trans (List.append_cons _ item rest)) notYet
          · rw [taken_append, Function.update_of_ne (by simp)]
            exact h.main
      | main =>
          have main := h.main
          dsimp only at main
          rw [at_] at main
          obtain ⟨out, left, rfl, count, same, after⟩ := main.at_ring
          obtain ⟨_, _, oldest, same'⟩ := pop_takes whole h.isOpen trivial
          cases same'
          obtain ⟨out', after⟩ := after (true, oldest)
          have one : taken [(.shared (.returns .main (.pop out) (true, oldest)) : Event V)] = 1 :=
            rfl
          refine ⟨?_, ?_, isOpen (by simp)⟩ <;> dsimp only
          · rw [accepted_append, Function.update_of_ne (by simp)]
            exact (List.append_nil (accepted (ringEvents es))).symm ▸ h.producer
          · rw [taken_append, Function.update_self, after, one]
            exact .popping left out' rfl (by omega) same
  | @own σ code world world' t l y next at_ ran =>
      cases t with
      | producer =>
          have producer := h.producer
          dsimp only at producer
          rw [at_] at producer
          obtain ⟨rfl, all, after⟩ := producer.at_own
          cases ran
          refine ⟨?_, ?_, h.isOpen⟩ <;> dsimp only
          · rw [accepted_append, Function.update_self]
            exact .ended after (all.trans (List.append_nil _).symm) rfl
          · rw [taken_append, Function.update_of_ne (by simp)]
            exact h.main.exit
      | main =>
          have main := h.main
          dsimp only at main
          rw [at_] at main
          obtain ⟨count, same, ⟨rfl, after⟩ | ⟨rfl, gone, after⟩⟩ := main.at_own
          · obtain ⟨gone, rfl⟩ := ran
            refine ⟨?_, ?_, h.isOpen⟩ <;> dsimp only
            · rw [accepted_append, Function.update_of_ne (by simp)]
              exact (List.append_nil (accepted (ringEvents es))).symm ▸ h.producer
            · rw [taken_append, Function.update_self]
              exact .destroying after count gone same
          · obtain ⟨freed, kept⟩ := ran
            refine ⟨?_, ?_, h.isOpen⟩ <;> dsimp only
            · rw [accepted_append, Function.update_of_ne (by simp), kept]
              exact (List.append_nil (accepted (ringEvents es))).symm ▸ h.producer
            · rw [taken_append, Function.update_self]
              exact .ended after count (kept.trans gone) (destroyed (same ▸ freed))
  | again at_ more => cases more

theorem Round.run (isOpen : rb.shutdown = false)
    (run : Run (Step V blocks) (Benchmark.start rb made items out) es s) :
    Round made before items es s :=
  run.history_invariant (I := fun es s => Round made before items es s) (Round.start isOpen)
    fun h step => h.step destroyed step

end Rounds

variable {sizeofRingBuffer : Nat} {first second : Grant} {cells : Nat → V} {capacity : CInt}

section Destroying

variable (init : bufferInitOn sizeofRingBuffer before first second cells capacity =
  .ok (some (blocks, rb), made))
include init

theorem round_run (run : Run (Step V blocks) (start rb made items out) es s) :
    Round made before items es s := by
  obtain ⟨isMade, structAllocated, malloc, ring⟩ := made_of_init init
  obtain ⟨cap, hcap⟩ := Int.eq_ofNat_of_zero_le (capacity_nonneg ring)
  obtain ⟨after, freed, restored⟩ := isMade.destroyed
  refine Round.run ?_ (bufferInit_represents hcap ring).2 run
  intro after' freed'
  obtain rfl := Except.ok.inj (freed.symm.trans freed')
  exact restored

/-- The returned records are the first of the accepted ones. -/
theorem popped_in_order (run : Run (Step V blocks) (start rb made items out) es s) :
    returned (ringEvents es) <+: accepted (ringEvents es) := by
  obtain ⟨-, structAllocated, malloc, ring⟩ := made_of_init init
  obtain ⟨cap, hcap⟩ := Int.eq_ofNat_of_zero_le (capacity_nonneg ring)
  obtain ⟨tail, left, -, split⟩ := run_items hcap ring (monitor_run run)
  exact ⟨left, split.symm⟩

/-- Both threads are outside every call on the ring, and `main` has all records. -/
structure Over (items : List V) (es : List (Event V)) (s : State V) : Prop where
  all : returned (ringEvents es) = items
  producer : s.code .producer = .ret ()
  idle : ∀ t, s.monitor.phase t = .idle

/-- After the join the round is over. -/
theorem over_of_end (run : Run (Step V blocks) (start rb made items out) es s)
    (count : taken es = items.length) (gone : s.world.exited = true)
    (off : ∀ call next, s.code .main ≠ .call (.shared call) next) : Over items es s := by
  have round := round_run init run
  have ended : s.code .producer = .ret () ∧ items = accepted (ringEvents es) := by
    cases round.producer with
    | pushing _ _ _ notYet => simp [gone] at notYet
    | ended at_ all => exact ⟨at_, all⟩
  have synced := Synced.run run fun _ => rfl
  refine ⟨?_, ended.1, ?_⟩
  · have long : (accepted (ringEvents es)).length ≤ (returned (ringEvents es)).length := by
      rw [← ended.2, ← count]
      rfl
    exact ((popped_in_order init run).eq_of_length_le long).trans ended.2.symm
  · intro t
    apply Phase.pending_eq_none
    cases t with
    | main => exact (synced .main).pending_none off
    | producer =>
        refine (synced .producer).pending_none fun call next at_ => ?_
        cases ended.1.symm.trans at_

section Executions

variable {x : Execution (Step V blocks)} {n : Nat} (begins : x.state 0 = start rb made items out)
include begins

omit init in
theorem run_at (m : Nat) :
    Run (Step V blocks) (start rb made items out) (x.trace m) (x.state m) :=
  begins ▸ x.run m

omit init in
theorem synced_at (m : Nat) : Synced (x.state m).monitor.phase (x.state m).code :=
  Synced.run (run_at begins m) fun _ => rfl

/-- When all records are pushed the producer comes to its end for good. -/
theorem producer_ends (fair : x.Fair (SystemEvent.MovesOf .producer))
    (pushed : items.length ≤ entered (x.trace n)) :
    Eventually (fun m => ∀ k, m ≤ k → (x.state k).world.exited = true) n := by
  have gone {k : Nat} (at_ : (x.state k).code .producer = .ret ()) :
      (x.state k).world.exited = true := by
    cases (round_run init (run_at begins k)).producer with
    | ended _ _ gone => exact gone
    | pushing rest at' => cases rest <;> cases at_.symm.trans at'
  have ends : Eventually (fun m => (x.state m).code .producer = .ret ()) n := by
    cases (round_run init (run_at begins n)).producer with
    | ended at_ => exact .now at_
    | pushing rest at_ all =>
        obtain rfl : rest = [] := by
          have lengths := congrArg List.length all
          rw [List.length_append] at lengths
          unfold entered at pushed
          exact List.length_eq_zero_iff.mp (by omega)
        have atExit : (x.state n).code .producer = .call (.own .exit) .ret := at_
        obtain ⟨m, later, y, answer⟩ := own_answered (synced_at begins) fair atExit
          fun m _ _ => ⟨(), _, rfl⟩
        exact ⟨m + 1, by omega, answer.after⟩
  exact ends.mono fun m _ at_ k later => gone (left_stays (synced_at begins) rfl at_ later)

/-- When all records are popped and the producer has ended `main` comes to its end. -/
theorem main_ends (fair : x.Fair (SystemEvent.MovesOf .main))
    (popped : items.length ≤ taken (x.trace n))
    (gone : ∀ k, n ≤ k → (x.state k).world.exited = true) :
    Eventually (fun m => (x.state m).code .main = .ret ()) n := by
  obtain ⟨isMade, -⟩ := made_of_init init
  have destroys {k : Nat} (at_ : (x.state k).code .main = own .destroy) :
      Eventually (fun m => (x.state m).code .main = .ret ()) k := by
    have atDestroy : (x.state k).code .main = .call (.own .destroy) .ret := at_
    obtain ⟨m, later, y, answer⟩ := own_answered (synced_at begins) fair atDestroy
      fun m later here => by
        have main := (round_run init (run_at begins m)).main
        rw [here] at main
        obtain ⟨-, same, -⟩ := main.at_own
        obtain ⟨after, freed, -⟩ := isMade.destroyed
        exact ⟨(), ⟨after, _⟩, same ▸ freed, rfl⟩
    exact ⟨m + 1, by omega, answer.after⟩
  cases (round_run init (run_at begins n)).main with
  | ended at_ => exact .now at_
  | destroying at_ => exact destroys at_
  | popping left out' at_ count =>
      obtain rfl : left = 0 := by omega
      have atJoin : (x.state n).code .main = .call (.own .join) fun _ => own .destroy := at_
      obtain ⟨m, later, y, answer⟩ := own_answered (synced_at begins) fair atJoin
        fun m later _ => ⟨(), _, gone m later, rfl⟩
      obtain ⟨k, after, ended⟩ := destroys answer.after
      exact ⟨k, by omega, ended⟩

/-- A round over a ring with a slot comes to its end. -/
theorem round_comes_to_end (fair : ∀ t, x.Fair (SystemEvent.MovesOf t))
    (enough : 0 < capacity.val ∨ items = []) :
    Eventually (fun m => (x.state m).code .main = .ret ()) 0 := by
  obtain ⟨-, structAllocated, malloc, ring⟩ := made_of_init init
  obtain ⟨cap, hcap⟩ := Int.eq_ofNat_of_zero_le (capacity_nonneg ring)
  have monitor : (x.state 0).monitor = Config.start rb := by
    rw [begins]
    rfl
  have round (m : Nat) := round_run init (run_at begins m)
  have passes : Eventually (fun m => items.length ≤ entered (x.trace m) ∧
      items.length ≤ taken (x.trace m)) 0 := by
    rcases enough with slot | rfl
    · apply comes_to_pass monitor hcap ring fair (fun m _ => (round m).isOpen) (by omega) le_rfl
        (Nat.le_add_right _ _)
      · intro m _ more
        cases (round m).producer with
        | ended _ all => simp [entered, ← all] at more
        | pushing rest at_ all =>
            cases rest with
            | nil => simp [entered, all] at more
            | cons item rest => exact ⟨.producer, .push item, _, at_, trivial⟩
      · intro m _ more
        cases (round m).main with
        | destroying _ count => omega
        | ended _ count => omega
        | popping left out' at_ count =>
            cases left with
            | zero => omega
            | succ left => exact ⟨.main, .pop out', _, at_, trivial⟩
    · exact .now ⟨Nat.zero_le _, Nat.zero_le _⟩
  apply passes.next
  intro m _ passed
  obtain ⟨pushed, popped⟩ := passed
  refine (producer_ends init begins (fair .producer) pushed).next fun k later gone => ?_
  exact main_ends init begins (fair .main) (popped.trans (taken_grows later)) gone

end Executions

end Destroying

/-- A ring of one slot in an empty heap, and a fair execution of a round of two
records over it. -/
theorem exists_fair_round : ∃ blocks rb made,
    bufferInitOn 168 .empty (.stay fun _ => 0) (.stay fun _ => 0) (fun _ => (0 : Nat)) (.lit 1) =
      .ok (some (blocks, rb), made) ∧
    ∃ x : Execution (Step Nat blocks), x.state 0 = start rb made [7, 8] 0 ∧
      ∀ t, x.Fair (SystemEvent.MovesOf t) := by
  refine ⟨_, _, _, rfl, ?_⟩
  obtain ⟨x, begins, fair, -⟩ := exists_fair (Step Nat ⟨0, 1⟩)
    (fun isMain : Bool => SystemEvent.MovesOf (if isMain then Thread.main else .producer))
    (start (freshRing (fun _ => 0) (.lit 1)) _ [7, 8] 0)
  refine ⟨x, begins, fun t => ?_⟩
  cases t with
  | main => exact fair true
  | producer => exact fair false

/-- In every interleaving of a round: the records popped are the first of those
pushed, in order. A thread at a call on the ring finds both blocks live, that of the
records with the size that bounds its accesses. When `main` is at its destruction it has
all records, no thread is in a call on the ring or comes to one, and the destruction
succeeds. When `main` has ended the heap has the blocks it had before the round. -/
theorem benchmark_round_exact
    (init : bufferInitOn sizeofRingBuffer before first second cells capacity =
      .ok (some (blocks, rb), made))
    (run : Run (Step V blocks) (start rb made items out) es s) :
    (returned (ringEvents es) <+: accepted (ringEvents es) ∧ accepted (ringEvents es) <+: items) ∧
    (∀ t call next, s.code t = .call (.shared call) next →
      (s.world.heap.block blocks.ring).isSome ∧
      (s.world.heap.block blocks.data).map List.length =
        some s.monitor.shared.data.bytes) ∧
    (s.code .main = own .destroy → Over items es s ∧
      ∃ after, bufferDestroy s.world.heap (some blocks) = .ok after ∧
        after.block = before.block) ∧
    (s.code .main = .ret () → Over items es s ∧ s.world.heap.block = before.block) := by
  have round := round_run init run
  obtain ⟨isMade, structAllocated, malloc, ring⟩ := made_of_init init
  refine ⟨⟨popped_in_order init run, ?_⟩, ?_, ?_, ?_⟩
  · cases round.producer with
    | pushing rest _ all => exact ⟨rest, all.symm⟩
    | ended _ all => exact all ▸ List.prefix_refl _
  · intro t call next at_
    have same : s.world.heap = made := by
      cases t with
      | main =>
          have main := round.main
          rw [at_] at main
          obtain ⟨-, -, -, -, same, -⟩ := main.at_ring
          exact same
      | producer =>
          have producer := round.producer
          rw [at_] at producer
          obtain ⟨-, -, -, -, notYet, -⟩ := producer.at_ring
          cases round.main with
          | popping _ _ _ _ same => exact same
          | destroying _ _ gone => simp [notYet] at gone
          | ended _ _ gone => simp [notYet] at gone
    obtain ⟨cap, hcap⟩ := Int.eq_ofNat_of_zero_le (capacity_nonneg ring)
    obtain ⟨tail, left, represents, -⟩ := run_items hcap ring (monitor_run run)
    have bytes : s.monitor.shared.data.bytes = rb.data.bytes :=
      represents.bytes_eq.trans (bufferInit_represents hcap ring).1.bytes_eq.symm
    rw [same, bytes]
    exact isMade.live
  · intro at_
    have main := round.main
    rw [at_] at main
    obtain ⟨count, same, ⟨wrong, -⟩ | ⟨-, gone, -⟩⟩ := main.at_own
    · cases wrong
    · refine ⟨over_of_end init run count gone fun call next at' => ?_, same ▸ isMade.destroyed⟩
      cases at_.symm.trans at'
  · intro at_
    have off : ∀ call next, s.code .main ≠ .call (.shared call) next := by
      intro call next at'
      cases at_.symm.trans at'
    cases round.main with
    | popping left _ at' => cases left <;> cases at_.symm.trans at'
    | destroying at' => cases at_.symm.trans at'
    | ended _ count gone restored => exact ⟨over_of_end init run count gone off, restored⟩

/-- Two records pass through a ring of one slot, and the heap is empty again. -/
theorem benchmark_round_exact_two_records : ∃ blocks rb made es s,
    Run (Step Nat blocks) (start rb made [7, 8] 0) es s ∧ s.code .main = .ret () ∧
      Over [7, 8] es s ∧ s.world.heap.block = Heap.empty.block := by
  obtain ⟨blocks, rb, made, init, x, begins, fair⟩ := exists_fair_round
  obtain ⟨m, -, ended⟩ := round_comes_to_end init begins fair (Or.inl (by decide))
  obtain ⟨-, -, -, atEnd⟩ := benchmark_round_exact init (run_at begins m)
  exact ⟨blocks, rb, made, _, _, run_at begins m, ended, atEnd ended⟩

/-- A round comes to its end, when both threads are scheduled fairly, exactly when the
ring has a slot or there is nothing to push. -/
theorem benchmark_round_ends_iff {x : Execution (Step V blocks)}
    (init : bufferInitOn sizeofRingBuffer before first second cells capacity =
      .ok (some (blocks, rb), made))
    (begins : x.state 0 = start rb made items out) (fair : ∀ t, x.Fair (SystemEvent.MovesOf t)) :
    Eventually (fun m => (x.state m).code .main = .ret ()) 0 ↔
      0 < capacity.val ∨ items = [] := by
  refine ⟨?_, round_comes_to_end init begins fair⟩
  rintro ⟨m, -, at_⟩
  obtain ⟨-, structAllocated, malloc, ring⟩ := made_of_init init
  obtain ⟨cap, hcap⟩ := Int.eq_ofNat_of_zero_le (capacity_nonneg ring)
  rcases Nat.eq_zero_or_pos cap with rfl | some
  · have monitor : (x.state 0).monitor = Config.start rb := by
      rw [begins]
      rfl
    obtain ⟨q, -, run, counts⟩ := queue_at monitor hcap ring m
    have nothing : entered (x.trace m) = 0 := by
      rw [entered, ClosableQueue.accepted_of_no_slot run, List.length_nil]
    have count : taken (x.trace m) = items.length := by
      cases (round_run init (run_at begins m)).main with
      | popping left _ at' => cases left <;> cases at_.symm.trans at'
      | destroying _ count => exact count
      | ended _ count => exact count
    exact Or.inr (List.length_eq_zero_iff.mp (by omega))
  · exact Or.inl (by omega)

/-- A round of two records over a ring of one slot comes to its end. -/
theorem benchmark_round_ends_iff_two_records : ∃ blocks rb made,
    ∃ x : Execution (Step Nat blocks), x.state 0 = start rb made [7, 8] 0 ∧
      Eventually (fun m => (x.state m).code .main = .ret ()) 0 := by
  obtain ⟨blocks, rb, made, init, x, begins, fair⟩ := exists_fair_round
  exact ⟨blocks, rb, made, x, begins,
    (benchmark_round_ends_iff init begins fair).mpr (Or.inl (by decide))⟩

end TelemetrixDb.Ring.Benchmark
