import Mathlib.Tactic.Common

/-!
# Programs as trees of calls

A program either returns or makes one call and continues with its answer. The
meaning of the calls is left to a handler, so one translation of a source
function serves a sequential run, a run against chosen answers, and a run in
which other threads act between the calls.

-/

namespace TelemetrixDb

/-- A terminating program over calls `Op` whose answers have types `Ans`. -/
inductive Program (Op : Type) (Ans : Op → Type) (α : Type)
  | ret (a : α)
  | call (op : Op) (next : Ans op → Program Op Ans α)

namespace Program

variable {Op : Type} {Ans : Op → Type} {α β : Type}

def bind : Program Op Ans α → (α → Program Op Ans β) → Program Op Ans β
  | .ret a, f => f a
  | .call op next, f => .call op fun x => (next x).bind f

instance : Monad (Program Op Ans) where
  pure := .ret
  bind := .bind

/-- The program that makes one call and returns its answer. -/
def perform (op : Op) : Program Op Ans (Ans op) := .call op .ret

@[simp] theorem pure_eq (a : α) : (pure a : Program Op Ans α) = .ret a := rfl

@[simp] theorem ret_bind (a : α) (f : α → Program Op Ans β) :
    (Program.ret a >>= f) = f a := rfl

@[simp] theorem call_bind (op : Op) (next : Ans op → Program Op Ans α)
    (f : α → Program Op Ans β) :
    (Program.call op next >>= f) = .call op fun x => next x >>= f := rfl

@[simp] theorem perform_bind (op : Op) (f : Ans op → Program Op Ans β) :
    (perform op >>= f) = .call op f := rfl

variable {γ : Type}

@[simp] theorem bind_bind (p : Program Op Ans α) (f : α → Program Op Ans β)
    (g : β → Program Op Ans γ) : ((p >>= f) >>= g) = (p >>= fun a => f a >>= g) := by
  induction p with
  | ret a => rfl
  | call op next ih =>
      simp only [call_bind]
      congr 1
      funext x
      exact ih x

section Exec

variable {S E : Type} (handle : (op : Op) → S → Except E (Ans op × S))

/-- Run alone against a handler of the calls. -/
def exec : Program Op Ans α → S → Except E (α × S)
  | .ret a, s => .ok (a, s)
  | .call op next, s =>
      match handle op s with
      | .ok (x, s') => exec (next x) s'
      | .error e => .error e

@[simp] theorem exec_ret (a : α) (s : S) : exec handle (.ret a) s = .ok (a, s) := rfl

theorem exec_call {op : Op} {next : Ans op → Program Op Ans α} {s s' : S} {x : Ans op}
    (h : handle op s = .ok (x, s')) :
    exec handle (.call op next) s = exec handle (next x) s' := by
  rw [exec, h]

/-- A sequence runs its second part from where the first one ends. -/
theorem exec_bind {s s' : S} {a : α} {p : Program Op Ans α} {f : α → Program Op Ans β}
    (h : exec handle p s = .ok (a, s')) : exec handle (p >>= f) s = exec handle (f a) s' := by
  induction p generalizing s with
  | ret b =>
      cases h
      rfl
  | call op next ih =>
      cases answer : handle op s with
      | error e => simp [exec, answer] at h
      | ok result =>
          rw [exec_call handle answer] at h
          rw [call_bind, exec_call handle answer]
          exact ih result.1 h

end Exec

/-- The handler that answers each call from the calls before it, and records the
calls with their answers. -/
def logged {R : Type} (answer : List (Op × R) → Op → R) (op : Op) (log : List (Op × R)) :
    Except Empty (R × List (Op × R)) :=
  .ok (answer log op, log ++ [(op, answer log op)])

end Program

end TelemetrixDb
