import TelemetrixDb.Ring.RingBuffer
import TelemetrixDb.Foundation.MonitorRules

/-!
# What the ring is for: a bounded queue that can be closed

The queue holds at most `cap` records. A push waits while the queue is full and
is refused once it is closed; a pop waits while the queue is empty and is
refused once it is closed and drained.

-/

namespace TelemetrixDb.Ring
open CMachine Monitor Transition

/-- The records waiting, oldest first, and whether the queue is closed. -/
structure ClosableQueue (V : Type) (cap : Nat) where
  items : List V
  closed : Bool
  bound : items.length ≤ cap

namespace ClosableQueue

variable {V : Type} {cap : Nat} {T : Type*}

def empty (cap : Nat) : ClosableQueue V cap := ⟨[], false, Nat.zero_le cap⟩

@[simp] theorem empty_items : (empty cap : ClosableQueue V cap).items = [] := rfl

theorem length_concat_le {items : List V} (room : items.length < cap) (item : V) :
    (items ++ [item]).length ≤ cap := by
  rw [List.length_append]
  exact Nat.succ_le_of_lt room

def push (q : ClosableQueue V cap) (item : V) : Outcome (ClosableQueue V cap) Cond Bool :=
  if q.closed then .done q false noNotice
  else if h : q.items.length < cap then
    .done ⟨q.items ++ [item], q.closed, length_concat_le h item⟩ true (signalTo .notEmpty)
  else .wait .notFull

def pop (q : ClosableQueue V cap) (item : V) :
    Outcome (ClosableQueue V cap) Cond (Bool × V) :=
  match h : q.items with
  | [] => if q.closed then .done q (false, item) noNotice else .wait .notEmpty
  | oldest :: rest =>
      .done ⟨rest, q.closed, by have := q.bound; simp [h] at this; omega⟩ (true, oldest)
        (signalTo .notFull)

/-- The abstract section of each call; none of them can fail. -/
def body (q : ClosableQueue V cap) :
    (call : Call V) → Except Fault (Outcome (ClosableQueue V cap) Cond (Reply call))
  | .push item => .ok (q.push item)
  | .pop item => .ok (q.pop item)
  | .signalShutdown => .ok (.done { q with closed := true } () fun _ => .broadcast)
  | .isShutdown => .ok (.done q q.closed noNotice)

theorem push_closed {q : ClosableQueue V cap} (closed : q.closed = true) (item : V) :
    q.push item = .done q false noNotice := if_pos closed

theorem push_open {q : ClosableQueue V cap} (isOpen : q.closed = false)
    (room : q.items.length < cap) (item : V) :
    q.push item = .done ⟨q.items ++ [item], q.closed, length_concat_le room item⟩ true
      (signalTo .notEmpty) := by
  rw [push, if_neg (by simp [isOpen]), dif_pos room]

theorem push_full {q : ClosableQueue V cap} (isOpen : q.closed = false)
    (full : q.items.length = cap) (item : V) : q.push item = .wait .notFull := by
  rw [push, if_neg (by simp [isOpen]), dif_neg (by omega)]

theorem pop_drained {q : ClosableQueue V cap} (closed : q.closed = true) (items : q.items = [])
    (item : V) : q.pop item = .done q (false, item) noNotice := by
  unfold pop
  split
  · exact if_pos closed
  · next h => simp [items] at h

theorem pop_empty {q : ClosableQueue V cap} (isOpen : q.closed = false) (items : q.items = [])
    (item : V) : q.pop item = .wait .notEmpty := by
  unfold pop
  split
  · exact if_neg (by simp [isOpen])
  · next h => simp [items] at h

theorem pop_cons {q : ClosableQueue V cap} {oldest : V} {rest : List V}
    (items : q.items = oldest :: rest) (item : V) :
    ∃ q' : ClosableQueue V cap, q.pop item = .done q' (true, oldest) (signalTo .notFull) ∧
      q'.items = rest ∧ q'.closed = q.closed := by
  unfold pop
  split
  · next h => simp [items] at h
  · next oldest' rest' h =>
      obtain ⟨rfl, rfl⟩ := List.cons.inj (items.symm.trans h)
      exact ⟨_, rfl, rfl, rfl⟩

/-- What a finished call does to the queue, with its reply and its notices. -/
inductive Done : ClosableQueue V cap → (call : Call V) → Reply call → ClosableQueue V cap →
    (Cond → Notice) → Prop
  | accept {q q'} (item : V) (wasOpen : q.closed = false)
      (items : q'.items = q.items ++ [item]) (isOpen : q'.closed = false) :
      Done q (.push item) true q' (signalTo .notEmpty)
  | refuse {q} (item : V) (closed : q.closed = true) : Done q (.push item) false q noNotice
  | hand {q q'} (item oldest : V) (items : q.items = oldest :: q'.items)
      (closed : q'.closed = q.closed) :
      Done q (.pop item) (true, oldest) q' (signalTo .notFull)
  | drained {q} (item : V) (closed : q.closed = true) (items : q.items = []) :
      Done q (.pop item) (false, item) q noNotice
  | close {q q'} (items : q'.items = q.items) (closed : q'.closed = true) :
      Done q .signalShutdown () q' (fun _ => .broadcast)
  | ask {q} : Done q .isShutdown q.closed q noNotice

/-- When a call blocks, and on which condition. -/
inductive Waits : ClosableQueue V cap → Call V → Cond → Prop
  | full {q} (item : V) (isOpen : q.closed = false) (items : q.items.length = cap) :
      Waits q (.push item) .notFull
  | empty {q} (item : V) (isOpen : q.closed = false) (items : q.items = []) :
      Waits q (.pop item) .notEmpty

variable {q q' : ClosableQueue V cap} {call : Call V}

theorem body_done {reply : Reply call} {notice : Cond → Notice}
    (h : q.body call = .ok (.done q' reply notice)) : Done q call reply q' notice := by
  cases call with
  | push item =>
      simp only [body, push, Except.ok.injEq] at h
      split at h
      · next closed =>
          cases h
          exact .refuse item closed
      · next isOpen =>
          split at h
          · cases h
            exact .accept item (by simpa using isOpen) rfl (by simpa using isOpen)
          · cases h
  | pop item =>
      simp only [body, pop, Except.ok.injEq] at h
      split at h
      · next items =>
          split at h
          · next closed =>
              cases h
              exact .drained item closed items
          · cases h
      · next oldest rest items =>
          cases h
          exact .hand item oldest items rfl
  | signalShutdown =>
      cases h
      exact .close rfl rfl
  | isShutdown =>
      cases h
      exact .ask

theorem body_wait {c : Cond} (h : q.body call = .ok (.wait c)) : Waits q call c := by
  cases call with
  | push item =>
      simp only [body, push, Except.ok.injEq] at h
      split at h
      · cases h
      · next isOpen =>
          split at h
          · cases h
          · next full =>
              cases h
              have bound := q.bound
              exact .full item (by simpa using isOpen) (by omega)
  | pop item =>
      simp only [body, pop, Except.ok.injEq] at h
      split at h
      · next items =>
          split at h
          · cases h
          · next isOpen =>
              cases h
              exact .empty item (by simpa using isOpen) items
      · cases h
  | signalShutdown => cases h
  | isShutdown => cases h

section Runs

variable [DecidableEq T] {σ τ : Config (ClosableQueue V cap) T (Call V) Cond}
variable {e : RingEvent T V} {es : List (RingEvent T V)}

/-- One step moves records from the accepted end to the returned end and
nowhere else. -/
theorem items_step (step : Step body σ e τ) :
    σ.shared.items ++ acceptedBy e = returnedBy e ++ τ.shared.items := by
  cases step with
  | call => simp [acceptedBy, returnedBy]
  | waits => simp [acceptedBy, returnedBy]
  | spurious => simp [acceptedBy, returnedBy]
  | returns _ run _ =>
      cases body_done run with
      | accept item _ items _ => simp [acceptedBy, returnedBy, items]
      | refuse => simp [acceptedBy, returnedBy]
      | hand item oldest items _ => simp [acceptedBy, returnedBy, items]
      | drained => simp [acceptedBy, returnedBy]
      | close items _ => simp [acceptedBy, returnedBy, items]
      | ask => simp [acceptedBy, returnedBy]

/-- Over a run, the records held at the start and those accepted since are
those returned since and those held at the end, in this order. -/
theorem items_run (run : Run (Step body) σ es τ) :
    σ.shared.items ++ accepted es = returned es ++ τ.shared.items := by
  refine run.history_invariant
    (I := fun es τ => σ.shared.items ++ accepted es = returned es ++ τ.shared.items)
    (by simp [accepted, returned]) ?_
  intro es τ e υ ih step
  have next := items_step step
  simp only [accepted, returned, List.flatMap_append, List.flatMap_singleton] at ih ⊢
  rw [← List.append_assoc, ih, List.append_assoc, next, List.append_assoc]

end Runs

end ClosableQueue

end TelemetrixDb.Ring
