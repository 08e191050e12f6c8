import TelemetrixDb.Foundation.ClientProgress
import TelemetrixDb.Foundation.Execution
import TelemetrixDb.Foundation.MonitorRules

/-!
# What a fairly scheduled thread comes to

In an unending execution a thread that is scheduled fairly gets the answer of its
call when that can be given as long as it is not: of an own call that some answer
is open to, and of a call on the monitor whose section finishes. This needs that no
thread sleeps whose section would finish, which holds when each condition has one
waiter at most and no section lets a waiter go on without a notice.

-/

namespace TelemetrixDb.Monitor
open Transition

variable {S T C W α F Op L : Type} {R : Op → Type} {Q : L → Type} [DecidableEq T]
variable {body : S → (op : Op) → Except F (Outcome S C (R op))}
variable {own : (l : L) → W → Q l → W → Prop} {resume : α → Option (Client R Q α)}
variable {s s' : System S T C W α R Q} {e : SystemEvent T C R Q} {es : List (SystemEvent T C R Q)}

section Vigilance

/-- In every run in which the threads keep to their calls and each condition is
waited on by the calls of one thread, the sleeping threads would have to wait. -/
theorem Announces.run {I : S → Prop} (announces : Announces body I)
    {may : T → ClientOp Op L → Prop} {K : T → α → Prop}
    (alone : ∀ {t u op op' c x x'}, may t (.shared op) → may u (.shared op') →
      body x op = .ok (.wait c) → body x' op' = .ok (.wait c) → t = u)
    (turns : ∀ {u a p}, K u a → resume a = some p → CallsOnly (may u) (K u) p)
    (codes : ∀ u, CallsOnly (may u) (K u) (s.code u)) (inv : I s.monitor.shared)
    (idle : ∀ t, s.monitor.phase t = .idle) (run : Run (ClientStep body own resume) s es s') :
    Vigilant body s'.monitor := by
  induction run with
  | refl =>
      intro t op c asleep
      rw [idle t] at asleep
      cases asleep
  | @snoc x y es e init last ih =>
      have synced := Synced.run init idle
      have shared := shared_invariant (monitor_run init) inv announces.keep
      have mayCall {t op c} (asleep : x.monitor.phase t = .blocked op c) :
          may t (.shared op) := by
        obtain ⟨next, at_⟩ := synced t op (by rw [asleep]; rfl)
        have calls := callsOnly_code (fun h more => turns h more) init (codes t)
        rw [at_] at calls
        exact calls.1
      have sole : ∀ c t u, (x.monitor.phase t).BlockedOn c → (x.monitor.phase u).BlockedOn c →
          t = u := by
        intro c t u ht hu
        obtain ⟨op, ht⟩ := Phase.blockedOn_iff.mp ht
        obtain ⟨op', hu⟩ := Phase.blockedOn_iff.mp hu
        exact alone (mayCall ht) (mayCall hu) (ih t op c ht) (ih u op' c hu)
      cases last with
      | call _ step => exact announces.step shared sole ih step
      | waits step => exact announces.step shared sole ih step
      | spurious step => exact announces.step shared sole ih step
      | returns _ step => exact announces.step shared sole ih step
      | own => exact ih
      | again => exact ih

end Vigilance

section Moves

/-- The steps of thread `t`. To wake for no reason is not one of them. -/
def SystemEvent.MovesOf (t : T) : SystemEvent T C R Q → Prop
  | .shared (.call u _) | .shared (.waits u _ _) | .shared (.returns u _ _) => u = t
  | .shared (.spurious _) => False
  | .own u _ _ | .again u => u = t

/-- What a step of `t` is. -/
inductive Moved (body : S → (op : Op) → Except F (Outcome S C (R op)))
    (resume : α → Option (Client R Q α)) (t : T) (s : System S T C W α R Q) :
    SystemEvent T C R Q → System S T C W α R Q → Prop
  | enters {op next s'} (before : s.code t = .call (.shared op) next)
      (free : s.monitor.phase t = .idle) (inside : (s'.monitor.phase t).pending = some op)
      (same : s'.code t = s.code t) : Moved body resume t s (.shared (.call t op)) s'
  | sleeps {op next c s'} (before : s.code t = .call (.shared op) next)
      (waits : body s.monitor.shared op = .ok (.wait c)) (same : s'.code t = s.code t) :
      Moved body resume t s (.shared (.waits t op c)) s'
  | returns {op next reply notice s'} (before : s.code t = .call (.shared op) next)
      (ran : body s.monitor.shared op = .ok (.done s'.monitor.shared reply notice))
      (after : s'.code t = next reply) : Moved body resume t s (.shared (.returns t op reply)) s'
  | own {l next y s'} (before : s.code t = .call (.own l) next) (after : s'.code t = next y) :
      Moved body resume t s (.own t l y) s'
  | again {a p s'} (before : s.code t = .ret a) (more : resume a = some p)
      (after : s'.code t = p) : Moved body resume t s (.again t) s'

theorem ClientStep.moved {t : T} (synced : Synced s.monitor.phase s.code)
    (step : ClientStep body own resume s e s') (mine : e.MovesOf t) : Moved body resume t s e s' := by
  cases step with
  | call at_ step =>
      obtain rfl := mine
      cases step with
      | call _ free => exact .enters at_ free (by simp [Phase.pending]) rfl
  | waits step =>
      obtain rfl := mine
      cases step with
      | waits wants run =>
          obtain ⟨next, before⟩ := synced _ _ wants.pending
          exact .sleeps before run rfl
  | spurious => exact mine.elim
  | returns at_ step =>
      obtain rfl := mine
      cases step with
      | returns _ run _ => exact .returns at_ run (Function.update_self _ _ _)
  | own at_ run =>
      obtain rfl := mine
      exact .own at_ (Function.update_self _ _ _)
  | again at_ more =>
      obtain rfl := mine
      exact .again at_ more (Function.update_self _ _ _)

/-- A step that is not one of `t` leaves its code, its call and its answers. -/
theorem ClientStep.still {t : T} (step : ClientStep body own resume s e s')
    (other : ¬ e.MovesOf t) : s'.code t = s.code t ∧
      (s'.monitor.phase t).pending = (s.monitor.phase t).pending ∧ callsOf t [e] = [] := by
  cases step with
  | @call σ τ code world u op next at_ step =>
      have hut : t ≠ u := fun h => other h.symm
      cases step with
      | call => exact ⟨rfl, by simp [Function.update_of_ne hut], rfl⟩
  | @waits σ τ code world u op c step =>
      have hut : t ≠ u := fun h => other h.symm
      cases step with
      | waits => exact ⟨rfl, by simp [Function.update_of_ne hut], rfl⟩
  | @spurious σ τ code world u step =>
      cases step with
      | @spurious s phase _ op c asleep =>
          refine ⟨rfl, ?_, rfl⟩
          by_cases hut : t = u
          · subst hut
            simp [asleep, Phase.pending]
          · simp [Function.update_of_ne hut]
  | @returns σ τ code world u op reply next at_ step =>
      have hut : t ≠ u := fun h => other h.symm
      cases step with
      | @returns s phase _ _ s' _ notice chosen =>
          refine ⟨Function.update_of_ne hut _ _, ?_, ?_⟩
          · simp only [Function.update_of_ne hut, wakeAll]
            split
            · exact Phase.pending_wake _
            · rfl
          · simp [callsOf, SystemEvent.completed, hut.symm]
  | @own σ code world world' u l y next at_ run =>
      have hut : t ≠ u := fun h => other h.symm
      refine ⟨Function.update_of_ne hut _ _, rfl, ?_⟩
      simp [callsOf, SystemEvent.completed, hut.symm]
  | @again σ code world u a p at_ more =>
      have hut : t ≠ u := fun h => other h.symm
      exact ⟨Function.update_of_ne hut _ _, rfl, rfl⟩

/-- A thread at an own call that has an answer can move. -/
theorem enabled_own {t : T} {l : L} {next} (at_ : s.code t = .call (.own l) next)
    (answers : ∃ y w, own l s.world y w) :
    Enabled (ClientStep body own resume) (SystemEvent.MovesOf t) s := by
  obtain ⟨σ, code, world⟩ := s
  obtain ⟨y, w, ran⟩ := answers
  exact ⟨.own t l y, _, rfl, .own at_ ran⟩

/-- A thread between two turns can move. -/
theorem enabled_again {t : T} {a : α} {p : Client R Q α} (at_ : s.code t = .ret a)
    (more : resume a = some p) :
    Enabled (ClientStep body own resume) (SystemEvent.MovesOf t) s := by
  obtain ⟨σ, code, world⟩ := s
  exact ⟨.again t, _, rfl, .again at_ more⟩

/-- The thread is awake and the section of its call finishes. -/
structure CanFinish (body : S → (op : Op) → Except F (Outcome S C (R op))) (σ : Config S T Op C)
    (t : T) (op : Op) : Prop where
  awake : ∀ c, ¬ (σ.phase t).BlockedOn c
  finishes : ∃ x reply notice, body σ.shared op = .ok (.done x reply notice)

/-- A thread at a call that it can finish can move. -/
theorem enabled_shared {t : T} {op : Op} {next} (synced : Synced s.monitor.phase s.code)
    (at_ : s.code t = .call (.shared op) next) (can : CanFinish body s.monitor t op) :
    Enabled (ClientStep body own resume) (SystemEvent.MovesOf t) s := by
  obtain ⟨⟨shared, phase⟩, code, world⟩ := s
  obtain ⟨awake, x, reply, notice, finishes⟩ := can
  cases inside : (phase t).pending with
  | none => exact ⟨.shared (.call t op), _, rfl, .call at_ (.call op (Phase.pending_eq_none inside))⟩
  | some op' =>
      obtain ⟨next', at'⟩ := synced t op' inside
      obtain rfl : op = op' := by
        rw [at_] at at'
        cases at'
        rfl
      obtain ⟨chosen, wakes⟩ := Wakes.exists notice phase
      have wants := Phase.wants_of_pending inside awake
      exact ⟨.shared (.returns t op reply), _, rfl, .returns at_ (.returns wants finishes wakes)⟩

omit [DecidableEq T] in
/-- Where no thread sleeps without need, a thread whose section finishes is awake. -/
theorem Vigilant.canFinish {t : T} {op : Op} {next} (vigilant : Vigilant body s.monitor)
    (synced : Synced s.monitor.phase s.code) (at_ : s.code t = .call (.shared op) next)
    (finishes : ∃ x reply notice, body s.monitor.shared op = .ok (.done x reply notice)) :
    CanFinish body s.monitor t op := by
  refine ⟨fun c blocked => ?_, finishes⟩
  obtain ⟨op', asleep⟩ := Phase.blockedOn_iff.mp blocked
  obtain ⟨next', at'⟩ := synced t op' (by rw [asleep]; rfl)
  obtain ⟨x, reply, notice, done⟩ := finishes
  rw [at_] at at'
  cases at'
  cases (vigilant t _ c asleep).symm.trans done

end Moves

section Answers

variable {x : Execution (ClientStep (T := T) body own resume)} {t : T} {n : Nat}

/-- Since instant `n` thread `t` has not moved. -/
structure Stands (x : Execution (ClientStep (T := T) body own resume)) (t : T) (n m : Nat) :
    Prop where
  code : (x.state m).code t = (x.state n).code t
  pending : ((x.state m).monitor.phase t).pending = ((x.state n).monitor.phase t).pending
  calls : callsOf t (x.trace m) = callsOf t (x.trace n)

/-- At instant `m` thread `t` is given the answer `y` to the call at which it stands
since instant `n`. -/
structure AnsweredAt (x : Execution (ClientStep (T := T) body own resume)) (t : T) (n : Nat)
    (op : ClientOp Op L) (next : ClientAns R Q op → Client R Q α) (m : Nat)
    (y : ClientAns R Q op) : Prop where
  before : callsOf t (x.trace m) = callsOf t (x.trace n)
  answer : callsOf t (x.trace (m + 1)) = callsOf t (x.trace n) ++ [⟨op, y⟩]
  after : (x.state (m + 1)).code t = next y

theorem callsOf_trace_succ {m : Nat} {e : SystemEvent T C R Q} (event : x.event m = some e) :
    callsOf t (x.trace (m + 1)) = callsOf t (x.trace m) ++ callsOf t [e] := by
  rw [Execution.trace_succ, callsOf_append, event]
  rfl

theorem Stands.succ {m : Nat} (stands : Stands x t n m)
    (other : ∀ e, x.event m = some e → ¬ e.MovesOf t) : Stands x t n (m + 1) := by
  rcases x.tick_cases m with ⟨event, same⟩ | ⟨e, event, taken⟩
  · have trace : x.trace (m + 1) = x.trace m := by simp [Execution.trace_succ, event]
    constructor
    · rw [same, stands.code]
    · rw [same, stands.pending]
    · rw [trace, stands.calls]
  · obtain ⟨code, pending, silent⟩ := taken.still (other e event)
    refine ⟨code.trans stands.code, pending.trans stands.pending, ?_⟩
    rw [callsOf_trace_succ event, silent, List.append_nil, stands.calls]

/-- A thread that can move for as long as it does not comes to move. -/
theorem fair_moves (fair : x.Fair (SystemEvent.MovesOf t))
    (enabled : ∀ m, n ≤ m → Stands x t n m →
      Enabled (ClientStep body own resume) (SystemEvent.MovesOf t) (x.state m)) :
    Eventually (fun m => Stands x t n m ∧ ∃ e, x.event m = some e ∧ e.MovesOf t) n := by
  apply fair.eventually (p := Stands x t n)
  · exact ⟨rfl, rfl, rfl⟩
  · exact fun m later stands _ => enabled m later stands
  · intro m later stands notYet
    refine Or.inl (stands.succ fun e event mine => ?_)
    exact notYet ⟨stands, e, event, mine⟩
  · intro m e later stands event mine
    exact Or.inl ⟨stands, e, event, mine⟩

variable (synced : ∀ m, Synced (x.state m).monitor.phase (x.state m).code)
include synced

/-- The step of `t` at an instant. -/
theorem moved_at {m : Nat} {e : SystemEvent T C R Q} (event : x.event m = some e)
    (mine : e.MovesOf t) : Moved body resume t (x.state m) e (x.state (m + 1)) := by
  rcases x.tick_cases m with ⟨none, -⟩ | ⟨e', event', taken⟩
  · cases event.symm.trans none
  · obtain rfl : e = e' := Option.some.inj (event.symm.trans event')
    exact taken.moved (synced m) mine

/-- A fairly scheduled thread gets the answer of an own call that has one as long as the
thread stands at it. -/
theorem own_answered (fair : x.Fair (SystemEvent.MovesOf t)) {l : L} {next}
    (at_ : (x.state n).code t = .call (.own l) next)
    (answers : ∀ m, n ≤ m → (x.state m).code t = .call (.own l) next →
      ∃ y w, own l (x.state m).world y w) :
    Eventually (fun m => ∃ y : Q l, AnsweredAt x t n (.own l) next m y) n := by
  have moves := fair_moves (n := n) fair fun m later stands =>
    enabled_own (stands.code.trans at_) (answers m later (stands.code.trans at_))
  refine moves.mono fun m _ ⟨stands, e, event, mine⟩ => ?_
  have here := stands.code.trans at_
  cases moved_at synced event mine with
  | enters before => cases here.symm.trans before
  | sleeps before => cases here.symm.trans before
  | returns before => cases here.symm.trans before
  | @own l' next' y _ before after =>
      cases here.symm.trans before
      refine ⟨y, stands.calls, ?_, after⟩
      rw [callsOf_trace_succ event, stands.calls, callsOf_own]
  | again before => cases here.symm.trans before

/-- A fairly scheduled thread begins its next turn. -/
theorem begins_again (fair : x.Fair (SystemEvent.MovesOf t)) {a : α} {p : Client R Q α}
    (at_ : (x.state n).code t = .ret a) (more : resume a = some p) :
    Eventually (fun m => (x.state m).code t = p) n := by
  have moves := fair_moves (n := n) fair fun m later stands =>
    enabled_again (stands.code.trans at_) more
  obtain ⟨m, later, stands, e, event, mine⟩ := moves
  have here := stands.code.trans at_
  cases moved_at synced event mine with
  | enters before => cases here.symm.trans before
  | sleeps before => cases here.symm.trans before
  | returns before => cases here.symm.trans before
  | own before => cases here.symm.trans before
  | again before more' after =>
      cases here.symm.trans before
      cases more.symm.trans more'
      exact ⟨m + 1, by omega, after⟩

section Shared

variable {op : Op} {next : R op → Client R Q α}

/-- The answer of the monitor to a call that the thread can finish as long as it
stands at it. -/
theorem call_answered (fair : x.Fair (SystemEvent.MovesOf t))
    (at_ : (x.state n).code t = .call (.shared op) next)
    (can : ∀ m, n ≤ m → (x.state m).code t = .call (.shared op) next →
      callsOf t (x.trace m) = callsOf t (x.trace n) → CanFinish body (x.state m).monitor t op) :
    Eventually (fun m => ∃ (reply : R op) (notice : C → Notice),
      AnsweredAt x t n (.shared op) next m reply ∧
      body (x.state m).monitor.shared op =
        .ok (.done (x.state (m + 1)).monitor.shared reply notice)) n := by
  have moves : ∀ k, n ≤ k → (x.state k).code t = .call (.shared op) next →
      callsOf t (x.trace k) = callsOf t (x.trace n) →
      Eventually (fun m => Stands x t k m ∧ ∃ e, x.event m = some e ∧ e.MovesOf t) k := by
    intro k since here calls
    refine fair_moves fair fun m later stands => ?_
    exact enabled_shared (synced m) (stands.code.trans here)
      (can m (since.trans later) (stands.code.trans here) (stands.calls.trans calls))
  -- a move of a thread inside the call ends it, since the section finishes
  have ends : ∀ m e, n ≤ m → (x.state m).code t = .call (.shared op) next →
      callsOf t (x.trace m) = callsOf t (x.trace n) → x.event m = some e → e.MovesOf t →
      (∃ reply notice, AnsweredAt x t n (.shared op) next m reply ∧
        body (x.state m).monitor.shared op =
          .ok (.done (x.state (m + 1)).monitor.shared reply notice)) ∨
      ((x.state m).monitor.phase t = .idle ∧ callsOf t [e] = [] ∧
        (x.state (m + 1)).code t = (x.state m).code t ∧
        ((x.state (m + 1)).monitor.phase t).pending ≠ none) := by
    intro m e later here calls event mine
    cases moved_at synced event mine with
    | enters before free inside same => exact Or.inr ⟨free, rfl, same, by simp [inside]⟩
    | sleeps before waits =>
        cases here.symm.trans before
        obtain ⟨s, reply, notice, done⟩ := (can m later here calls).finishes
        cases waits.symm.trans done
    | @returns op' next' reply notice _ before ran after =>
        cases here.symm.trans before
        refine Or.inl ⟨reply, notice, ⟨calls, ?_, after⟩, ran⟩
        rw [callsOf_trace_succ event, calls, callsOf_returns]
    | own before => cases here.symm.trans before
    | again before => cases here.symm.trans before
  obtain ⟨m, later, stands, e, event, mine⟩ := moves n le_rfl at_ rfl
  have here := stands.code.trans at_
  rcases ends m e later here stands.calls event mine with answered | ⟨-, silent, same, inside⟩
  · exact ⟨m, later, answered⟩
  · have calls : callsOf t (x.trace (m + 1)) = callsOf t (x.trace n) := by
      rw [callsOf_trace_succ event, silent, List.append_nil, stands.calls]
    obtain ⟨k, later', stands', e', event', mine'⟩ :=
      moves (m + 1) (by omega) (same.trans here) calls
    have here' := stands'.code.trans (same.trans here)
    rcases ends k e' (by omega) here' (stands'.calls.trans calls) event' mine' with
      answered | ⟨free, -⟩
    · exact ⟨k, by omega, answered⟩
    · rw [← stands'.pending, free] at inside
      exact absurd rfl inside

variable (vigilant : ∀ m, Vigilant body (x.state m).monitor)

include vigilant in
/-- Where no thread sleeps without need it is enough that the section finishes. -/
theorem shared_answered (fair : x.Fair (SystemEvent.MovesOf t))
    (at_ : (x.state n).code t = .call (.shared op) next)
    (finishes : ∀ m, n ≤ m → (x.state m).code t = .call (.shared op) next →
      callsOf t (x.trace m) = callsOf t (x.trace n) →
      ∃ s reply notice, body (x.state m).monitor.shared op = .ok (.done s reply notice)) :
    Eventually (fun m => ∃ (reply : R op) (notice : C → Notice),
      AnsweredAt x t n (.shared op) next m reply ∧
      body (x.state m).monitor.shared op =
        .ok (.done (x.state (m + 1)).monitor.shared reply notice)) n :=
  call_answered synced fair at_ fun m later here calls =>
    (vigilant m).canFinish (synced m) here (finishes m later here calls)

/-- A thread stands at its call on the monitor until it has the answer. -/
theorem stands_or_answered (at_ : (x.state n).code t = .call (.shared op) next) {m : Nat}
    (later : n ≤ m) :
    ((x.state m).code t = .call (.shared op) next ∧
      callsOf t (x.trace m) = callsOf t (x.trace n)) ∨
    Eventually (fun k => ∃ y, (x.state k).code t = next y) n := by
  induction m, later using Nat.le_induction with
  | base => exact Or.inl ⟨at_, rfl⟩
  | succ m later ih =>
      refine ih.elim (fun ⟨here, calls⟩ => ?_) Or.inr
      rcases x.tick_cases m with ⟨event, same⟩ | ⟨e, event, taken⟩
      · refine Or.inl ⟨by rw [same, here], ?_⟩
        rw [Execution.trace_succ, event, ← calls]
        simp
      · by_cases mine : e.MovesOf t
        · have silent {m : Nat} (none : callsOf t [e] = []) :
              callsOf t (x.trace m) ++ callsOf t [e] = callsOf t (x.trace m) := by
            rw [none, List.append_nil]
          cases moved_at synced event mine with
          | enters before free inside same =>
              refine Or.inl ⟨same.trans here, ?_⟩
              rw [callsOf_trace_succ event, silent rfl, calls]
          | sleeps before waits same =>
              refine Or.inl ⟨same.trans here, ?_⟩
              rw [callsOf_trace_succ event, silent rfl, calls]
          | returns before ran after =>
              cases here.symm.trans before
              exact Or.inr ⟨m + 1, by omega, _, after⟩
          | own before => cases here.symm.trans before
          | again before => cases here.symm.trans before
        · obtain ⟨code, -, silent⟩ := taken.still mine
          refine Or.inl ⟨code.trans here, ?_⟩
          rw [callsOf_trace_succ event, silent, List.append_nil, calls]

include vigilant in
/-- It is enough that the section finishes from some later instant on. -/
theorem shared_answered_later (fair : x.Fair (SystemEvent.MovesOf t))
    (at_ : (x.state n).code t = .call (.shared op) next)
    (finishes : Eventually (fun k => ∀ m, k ≤ m → callsOf t (x.trace m) = callsOf t (x.trace n) →
      ∃ s reply notice, body (x.state m).monitor.shared op = .ok (.done s reply notice)) n) :
    Eventually (fun m => ∃ y, (x.state m).code t = next y) n := by
  obtain ⟨k, later, finishes⟩ := finishes
  rcases stands_or_answered synced at_ later with ⟨here, calls⟩ | answered
  · have answered := shared_answered synced vigilant fair here
      fun m since _ same => finishes m since (same.trans calls)
    obtain ⟨m, since, reply, notice, answer, -⟩ := answered
    exact ⟨m + 1, by omega, reply, answer.after⟩
  · exact answered

end Shared

omit synced in
/-- Code comes to the end of its turn when each of its calls comes to an answer. -/
theorem turn_comes_to_end {J : ClientOp Op L → Prop} {K : α → Prop}
    (answered : ∀ {k op next}, n ≤ k → J op → (x.state k).code t = .call op next →
      Eventually (fun m => ∃ y, (x.state m).code t = next y) k)
    (calls : CallsOnly J K ((x.state n).code t)) :
    Eventually (fun m => ∃ a, (x.state m).code t = .ret a ∧ K a) n := by
  have ends : ∀ code : Client R Q α, CallsOnly J K code → ∀ k, n ≤ k → (x.state k).code t = code →
      Eventually (fun m => ∃ a, (x.state m).code t = .ret a ∧ K a) k := by
    intro code calls
    induction code with
    | ret a => exact fun k _ at_ => .now ⟨a, at_, calls⟩
    | call op next ih =>
        intro k later at_
        refine (answered later calls.1 at_).next fun m since ⟨y, after⟩ => ?_
        exact ih y (calls.2 y) m (later.trans since) after
  exact ends _ calls n le_rfl rfl

/-- A thread that has left its loop stays there. -/
theorem left_stays {a : α} (left : resume a = none) (at_ : (x.state n).code t = .ret a) {m : Nat}
    (later : n ≤ m) : (x.state m).code t = .ret a := by
  induction m, later using Nat.le_induction with
  | base => exact at_
  | succ m later ih =>
      rcases x.tick_cases m with ⟨event, same⟩ | ⟨e, event, taken⟩
      · rw [same, ih]
      · by_cases mine : e.MovesOf t
        · cases moved_at synced event mine with
          | enters before => cases ih.symm.trans before
          | sleeps before => cases ih.symm.trans before
          | returns before => cases ih.symm.trans before
          | own before => cases ih.symm.trans before
          | again before more =>
              cases ih.symm.trans before
              cases left.symm.trans more
        · exact (taken.still mine).1.trans ih

end Answers

end TelemetrixDb.Monitor
