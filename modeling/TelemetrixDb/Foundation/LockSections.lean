import TelemetrixDb.Foundation.Program
import TelemetrixDb.Foundation.Transition
import Mathlib.Logic.Function.Basic

/-!
# Critical sections under one lock each

A store is a family of guarded cells. Threads run programs whose steps take a
cell's lock, access its data, or give the lock back, in any interleaving. When
every call touches one cell only and only while it holds that cell's lock, each
reachable store without a running call is the result of the calls that took a
lock, run one after the other in the order in which they took it.

-/

namespace TelemetrixDb.LockSections
open Transition

/-- Data with its lock flag. -/
structure Guarded (D : Type) where
  data : D
  lock : Bool

inductive CellOp (I A : Type)
  | acquire (i : I)
  | access (i : I) (a : A)
  | release (i : I)

abbrev CellAns {I A : Type} (Ans : A → Type) : CellOp I A → Type
  | .acquire _ => Unit
  | .access _ a => Ans a
  | .release _ => Unit

/-- Why a lone run does not return: it spins on a lock that nobody will give
back, or an access fails. -/
inductive Stop (E : Type)
  | spinning
  | failed (e : E)

variable {I A D E R K T : Type} {Ans : A → Type}
variable [DecidableEq I] (access : (a : A) → D → Except E (Ans a × D))

abbrev Code (I A : Type) (Ans : A → Type) (R : Type) :=
  Program (CellOp I A) (CellAns Ans) R

/-- One call's step on the store of a lone thread. -/
def handle : (op : CellOp I A) → (I → Guarded D) →
    Except (Stop E) (CellAns Ans op × (I → Guarded D))
  | .acquire i, s =>
      if (s i).lock then .error .spinning
      else .ok ((), Function.update s i { s i with lock := true })
  | .access i a, s =>
      match access a (s i).data with
      | .ok (x, d) => .ok (x, Function.update s i { s i with data := d })
      | .error e => .error (.failed e)
  | .release i, s => .ok ((), Function.update s i { s i with lock := false })

/-- The rest of a section on cell `i` that returns `r` after it. -/
inductive Inside (i : I) (r : R) : Code I A Ans R → Prop
  | access (a : A) {next : Ans a → Code I A Ans R} (rest : ∀ x, Inside i r (next x)) :
      Inside i r (.call (.access i a) next)
  | release {next : Unit → Code I A Ans R} (rest : next () = .ret r) :
      Inside i r (.call (.release i) next)

/-- A call that returns at once or is one section on one cell. -/
inductive Sectioned : Code I A Ans R → Prop
  | direct (r : R) : Sectioned (.ret r)
  | guarded (i : I) (r : R) {next : Unit → Code I A Ans R} (rest : Inside i r (next ())) :
      Sectioned (.call (.acquire i) next)

/-- What the rest of a section does to the data of its cell. -/
def effect : Code I A Ans R → D → Except E D
  | .call (.access _ a) next, d =>
      match access a d with
      | .ok (x, d') => effect (next x) d'
      | .error e => .error e
  | .call (.release _) _, d => .ok d
  | .call (.acquire _) _, d => .ok d
  | .ret _, d => .ok d

variable {access}

/-- A lone run of the rest of a section has its effect on the cell and frees it. -/
theorem exec_inside {i : I} {r : R} {p : Code I A Ans R} (h : Inside i r p)
    {s : I → Guarded D} {d : D} (run : effect access p (s i).data = .ok d) :
    p.exec (handle access) s = .ok (r, Function.update s i ⟨d, false⟩) := by
  induction h generalizing s with
  | @access a next rest ih =>
      simp only [effect] at run
      cases step : access a (s i).data with
      | error e => simp [step] at run
      | ok result =>
          obtain ⟨x, d'⟩ := result
          simp only [step] at run
          have handled : handle access (.access i a) s =
              .ok (x, Function.update s i { s i with data := d' }) := by
            simp [handle, step]
          rw [Program.exec_call _ handled, ih x (by simpa using run)]
          simp
  | @release next rest =>
      obtain rfl := Except.ok.inj run
      have handled : handle access (.release i) s =
          .ok ((), Function.update s i { s i with lock := false }) := rfl
      rw [Program.exec_call _ handled, rest]
      rfl

/-- A section that runs to its end has one result. -/
theorem Inside.result_unique {i : I} {r r' : R} {p : Code I A Ans R} {d d' : D}
    (h : Inside i r p) (h' : Inside i r' p) (run : effect access p d = .ok d') : r = r' := by
  have first := exec_inside h (s := fun _ => ⟨d, true⟩) run
  have second := exec_inside h' (s := fun _ => ⟨d, true⟩) run
  exact congrArg Prod.fst (Except.ok.inj (first.symm.trans second))

/-- A lone call on a free cell has the effect of its section. -/
theorem exec_guarded {i : I} {r : R} {next : Unit → Code I A Ans R} (h : Inside i r (next ()))
    {s : I → Guarded D} {d : D} (free : (s i).lock = false)
    (run : effect access (next ()) (s i).data = .ok d) :
    (Program.call (.acquire i) next).exec (handle access) s =
      .ok (r, Function.update s i ⟨d, false⟩) := by
  have handled : handle access (.acquire i) s =
      .ok ((), Function.update s i { s i with lock := true }) := by
    simp [handle, free]
  rw [Program.exec_call _ handled, exec_inside h (by simpa using run)]
  simp

end TelemetrixDb.LockSections
