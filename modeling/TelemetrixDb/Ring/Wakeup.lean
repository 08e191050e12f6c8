import TelemetrixDb.Ring.Refinement

/-!
# No lost wake-up at the ring

Records are the units of `notEmpty` and free slots those of `notFull`. Each
operation takes a unit of the condition it may wait on and gives one, with a
signal, to the other, so the accounting rule for monitors applies to both.

-/

namespace TelemetrixDb.Ring
open CMachine Monitor Transition

variable {V : Type} {cap : Nat} {T : Type*}

def IsPush : Call V → Prop
  | .push _ => True
  | _ => False

def IsPop : Call V → Prop
  | .pop _ => True
  | _ => False

namespace ClosableQueue

/-- The records a consumer may be waiting for; a closed queue wakes everybody. -/
def records (q : ClosableQueue V cap) : Nat := if q.closed then 0 else q.items.length

/-- The slots a producer may be waiting for. -/
def space (q : ClosableQueue V cap) : Nat := if q.closed then 0 else cap - q.items.length

theorem records_of_closed {q : ClosableQueue V cap} (h : q.closed = true) : q.records = 0 :=
  if_pos h

theorem space_of_closed {q : ClosableQueue V cap} (h : q.closed = true) : q.space = 0 :=
  if_pos h

theorem records_of_open {q : ClosableQueue V cap} (h : q.closed = false) :
    q.records = q.items.length := if_neg (by simp [h])

theorem space_of_open {q : ClosableQueue V cap} (h : q.closed = false) :
    q.space = cap - q.items.length := if_neg (by simp [h])

theorem accounts_notEmpty :
    Accounts (body : ClosableQueue V cap → (call : Call V) → _) (fun _ => True) .notEmpty
      IsPop records where
  keep := fun _ _ => trivial
  stationed := by
    intro q call run
    cases body_wait run
    trivial
  only := by
    intro q call c hop run
    cases body_wait run with
    | full => exact absurd hop id
    | empty => rfl
  blocks := by
    intro q call _ run
    cases body_wait run with
    | empty item isOpen items => simp [records_of_open isOpen, items]
  takes := by
    intro q call q' reply notice _ hop run
    cases body_done run with
    | accept => exact absurd hop id
    | refuse => exact absurd hop id
    | hand item oldest items closed =>
        by_cases hc : q.closed = true
        · simp [records_of_closed (closed.trans hc)]
        · have isOpen : q.closed = false := by simpa using hc
          rw [records_of_open isOpen, records_of_open (closed.trans isOpen), items]
          simp
    | drained item closed => simp [records_of_closed closed]
    | close => exact absurd hop id
    | ask => exact absurd hop id
  gives := by
    intro q call q' reply notice _ hop run
    cases body_done run with
    | accept item wasOpen items isOpen =>
        simp [records_of_open wasOpen, records_of_open isOpen, items, signalTo]
    | refuse => simp
    | hand => exact absurd trivial hop
    | drained => exact absurd trivial hop
    | close items closed => simp [records_of_closed closed]
    | ask => simp

theorem accounts_notFull :
    Accounts (body : ClosableQueue V cap → (call : Call V) → _) (fun _ => True) .notFull
      IsPush space where
  keep := fun _ _ => trivial
  stationed := by
    intro q call run
    cases body_wait run
    trivial
  only := by
    intro q call c hop run
    cases body_wait run with
    | full => rfl
    | empty => exact absurd hop id
  blocks := by
    intro q call _ run
    cases body_wait run with
    | full item isOpen items => simp [space_of_open isOpen, items]
  takes := by
    intro q call q' reply notice _ hop run
    cases body_done run with
    | accept item wasOpen items isOpen =>
        rw [space_of_open wasOpen, space_of_open isOpen, items, List.length_append,
          List.length_singleton]
        omega
    | refuse item closed => simp [space_of_closed closed]
    | hand => exact absurd hop id
    | drained => exact absurd hop id
    | close => exact absurd hop id
    | ask => exact absurd hop id
  gives := by
    intro q call q' reply notice _ hop run
    cases body_done run with
    | accept => exact absurd trivial hop
    | refuse => exact absurd trivial hop
    | hand item oldest items closed =>
        by_cases hc : q.closed = true
        · simp [space_of_closed (closed.trans hc)]
        · have isOpen : q.closed = false := by simpa using hc
          rw [space_of_open isOpen, space_of_open (closed.trans isOpen), items,
            List.length_cons, if_neg (by simp [signalTo])]
          omega
    | drained => simp
    | close items closed => simp [space_of_closed closed]
    | ask => simp

/-- A section of the queue that lets a call go on tells its waiter. -/
theorem announces {q : ClosableQueue V cap} {call call' : Call V} {c : Cond}
    {q' : ClosableQueue V cap} {reply : Reply call'} {notice : Cond → Notice}
    (waits : q.body call = .ok (.wait c)) (done : q.body call' = .ok (.done q' reply notice)) :
    q'.body call = .ok (.wait c) ∨ notice c ≠ .none := by
  cases body_wait waits with
  | full item isOpen full =>
      cases body_done done with
      | accept item' wasOpen items stillOpen =>
          have bound := q'.bound
          rw [items, List.length_append, List.length_singleton] at bound
          omega
      | refuse item' closed => simp [isOpen] at closed
      | hand => exact Or.inr (by simp [signalTo])
      | drained item' closed => simp [isOpen] at closed
      | close => exact Or.inr (by simp)
      | ask => exact Or.inl waits
  | empty item isOpen empty =>
      cases body_done done with
      | accept => exact Or.inr (by simp [signalTo])
      | refuse item' closed => simp [isOpen] at closed
      | hand item' oldest items => simp [empty] at items
      | drained item' closed => simp [isOpen] at closed
      | close => exact Or.inr (by simp)
      | ask => exact Or.inl waits

end ClosableQueue

/-- The sections of `buffer.c` tell a waiter that they let go on. -/
theorem announces :
    Announces (body : RingBuffer V → (call : Call V) → _)
      fun rb => ∃ q : ClosableQueue V cap, Abstracts rb q where
  keep := by
    rintro rb call rb' reply notice ⟨q, h⟩ run
    obtain ⟨o, o', ho, -, rel⟩ := body_refines h call
    obtain rfl := Except.ok.inj (run.symm.trans ho)
    cases rel with
    | done h' => exact ⟨_, h'⟩
  notice := by
    rintro rb call c call' rb' reply notice ⟨q, h⟩ waits done
    obtain ⟨o, o', ho, waits', rel⟩ := body_refines h call
    obtain rfl := Except.ok.inj (waits.symm.trans ho)
    cases rel
    obtain ⟨o, o', ho, done', rel⟩ := body_refines h call'
    obtain rfl := Except.ok.inj (done.symm.trans ho)
    cases rel with
    | done h' =>
        refine (ClosableQueue.announces waits' done').imp_left fun still => ?_
        obtain ⟨o, o', ho, waits'', rel⟩ := body_refines h' call
        obtain rfl := Except.ok.inj (still.symm.trans waits'')
        cases rel
        exact ho

section Runs

variable [DecidableEq T] [Fintype T] {structAllocated : Bool} {malloc : Malloc V}
variable {capacity : CInt} {rb₀ : RingBuffer V}
variable {σ : Config (RingBuffer V) T (Call V) Cond} {es : List (RingEvent T V)}

/-- While the ring is open, a sleeping consumer leaves at most as many records
as there are consumers already woken, and a sleeping producer at most as many
free slots as there are producers already woken. So a record or a slot that
nobody was woken for never meets a sleeper, and a consumer and a producer never
both sleep with nobody woken. -/
theorem no_lost_wakeup (hcap : 1 ≤ capacity.val)
    (init : bufferInit structAllocated malloc capacity = some rb₀)
    (run : Run (Step body) (Config.start rb₀) es σ) (isOpen : σ.shared.shutdown = false) :
    ((∃ t, (σ.phase t).BlockedOn .notEmpty) →
      σ.shared.count.val ≤ (wokenSet .notEmpty σ.phase).card) ∧
    ((∃ t, (σ.phase t).BlockedOn .notFull) →
      capacity.val - σ.shared.count.val ≤ (wokenSet .notFull σ.phase).card) ∧
    ¬ ((∃ t, (σ.phase t).BlockedOn .notEmpty) ∧
      (wokenSet .notEmpty σ.phase).card < σ.shared.count.val) ∧
    ¬ ((∃ t, (σ.phase t).BlockedOn .notFull) ∧
      (wokenSet .notFull σ.phase).card < capacity.val - σ.shared.count.val) ∧
    ¬ ((∃ t, (σ.phase t).BlockedOn .notEmpty) ∧ (∃ t, (σ.phase t).BlockedOn .notFull) ∧
      ∀ t c, ¬ (σ.phase t).WokenOn c) := by
  obtain ⟨cap, hcap'⟩ := Int.eq_ofNat_of_zero_le (by omega : 0 ≤ capacity.val)
  obtain ⟨q, ⟨⟨tail, h⟩, flag⟩, abstractRun⟩ := run_abstracts hcap' init run
  have queueOpen : q.closed = false := flag.symm.trans isOpen
  have count := h.count_eq
  have consumers : (∃ t, (σ.phase t).BlockedOn .notEmpty) →
      σ.shared.count.val ≤ (wokenSet .notEmpty σ.phase).card := by
    intro asleep
    have covered : q.records ≤ (wokenSet .notEmpty σ.phase).card :=
      ClosableQueue.accounts_notEmpty.covered trivial abstractRun asleep
    rw [ClosableQueue.records_of_open queueOpen] at covered
    omega
  have producers : (∃ t, (σ.phase t).BlockedOn .notFull) →
      capacity.val - σ.shared.count.val ≤ (wokenSet .notFull σ.phase).card := by
    intro asleep
    have covered : q.space ≤ (wokenSet .notFull σ.phase).card :=
      ClosableQueue.accounts_notFull.covered trivial abstractRun asleep
    rw [ClosableQueue.space_of_open queueOpen] at covered
    omega
  refine ⟨consumers, producers, fun ⟨asleep, missed⟩ => ?_, fun ⟨asleep, missed⟩ => ?_,
    fun ⟨consumer, producer, nobody⟩ => ?_⟩
  · exact absurd (consumers asleep) (by omega)
  · exact absurd (producers asleep) (by omega)
  · have noneWoken (c : Cond) : (wokenSet c σ.phase).card = 0 := by
      rw [Finset.card_eq_zero, Finset.eq_empty_iff_forall_notMem]
      intro t ht
      exact nobody t c (mem_wokenSet.mp ht)
    have empty := consumers consumer
    have full := producers producer
    rw [noneWoken] at empty full
    omega

end Runs

theorem oneSlot_wait :
    body (oneSlot (fun _ => 0) (.lit 0) false) (.pop 0) = .ok (.wait .notEmpty) := rfl

/-- A signal may wake any one of the threads asleep on its condition. -/
theorem wakes_one [DecidableEq T] {phase : T → Phase (Call V) Cond} {c : Cond} {u : T}
    (asleep : (phase u).BlockedOn c) : Wakes (signalTo c) phase fun t => decide (t = u) where
  only := by
    intro t chosen
    obtain rfl := of_decide_eq_true chosen
    exact ⟨c, asleep, by simp [signalTo]⟩
  all := by
    intro c' broadcast
    unfold signalTo at broadcast
    split at broadcast <;> cases broadcast
  some := by
    intro c' signal _
    obtain rfl : c' = c := by
      by_contra other
      simp [signalTo, other] at signal
    exact ⟨u, asleep, decide_eq_true rfl⟩

/-- Two consumers sleep on a ring made with one slot. A push leaves a record there and
wakes one of them. -/
theorem no_lost_wakeup_sleeping_consumer :
    ∃ rb, bufferInit true (.granting 0) (.lit 1) = some rb ∧
      ∃ σ : Config (RingBuffer Nat) (Fin 3) (Call Nat) Cond,
        Run (Step body) (Config.start rb)
          [.call 0 (.pop 0), .waits 0 (.pop 0) .notEmpty, .call 1 (.pop 0),
            .waits 1 (.pop 0) .notEmpty, .call 2 (.push 7), .returns 2 (.push 7) true] σ ∧
        (σ.phase 0).WokenOn .notEmpty ∧ (σ.phase 1).BlockedOn .notEmpty ∧
        σ.shared.count.val = 1 ∧ (1 : Int) ≤ (wokenSet .notEmpty σ.phase).card := by
  have first := solo_wait (0 : Fin 3) oneSlot_wait
  have both := (first.snoc (.call (t := 1) (.pop 0) rfl)).snoc
    (.waits (t := 1) (by simp [Phase.Wants]) oneSlot_wait)
  have pushes := both.snoc (.call (t := 2) (.push 7) rfl)
  have run := pushes.snoc
    (.returns (t := 2) (by simp [Phase.Wants]) oneSlot_push (wakes_one (u := 0) rfl))
  exact ⟨_, oneSlot_init, _, run, rfl, rfl, rfl,
    (no_lost_wakeup (by decide) oneSlot_init run rfl).1 ⟨1, rfl⟩⟩

end TelemetrixDb.Ring
