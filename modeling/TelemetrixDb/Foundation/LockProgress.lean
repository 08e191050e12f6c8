import TelemetrixDb.Foundation.Execution
import TelemetrixDb.Foundation.LockSerialization

/-!
# Calls under spin locks come to return

A thread that finds a lock taken tests it again, so a fair scheduler may let it spin
for ever while others take the lock in turn. But the lock it finds taken has an owner,
whose section ends. So while some call is in progress some call comes to return, and
when no more calls begin all of them do.

-/

namespace TelemetrixDb.LockSections
open Transition

variable {I A D E R K T : Type} {Ans : A → Type} [DecidableEq I] [DecidableEq T]
variable {code : K → Code I A Ans R} {access : (a : A) → D → Except E (Ans a × D)} {P : D → Prop}
variable {w w' : World I A D R K T Ans} {S : I → Guarded D} {e : Event I A R K T}

/-- The steps of thread `t` in its calls. When it calls is up to it. -/
def Event.MovesOf (t : T) : Event I A R K T → Prop
  | .call _ _ => False
  | .acquire u _ _ | .spin u | .access u _ _ | .release u _ | .returns u _ _ => u = t

/-- A thread in a call can move. -/
theorem Serializes.enabled (h : Serializes code access P w S) (sound : Sound code access P) {t : T}
    {k : K} {p : Code I A Ans R} {held : Option I} (at_ : w.thread t = .running k p held) :
    Enabled (Step code access) (Event.MovesOf t) w := by
  obtain ⟨store, thread⟩ := w
  cases p with
  | ret r => exact ⟨.returns t k r, _, rfl, .returns at_⟩
  | call op next =>
      cases op with
      | acquire i =>
          cases busy : (store i).lock with
          | true => exact ⟨.spin t, _, rfl, .spin at_ busy⟩
          | false => exact ⟨.acquire t k i, _, rfl, .acquire at_ busy⟩
      | release i => exact ⟨.release t i, _, rfl, .release at_⟩
      | access i a =>
          obtain ⟨j, r, rfl, -, effect_, -, rest⟩ := h.holds sound at_ (by simp)
          cases rest with
          | access _ rest =>
              simp only [effect] at effect_
              cases result : access a (store i).data with
              | error e => simp [result] at effect_
              | ok y => exact ⟨.access t i a, _, rfl, .access at_ result⟩

/-- A thread in a call stands there until it moves. -/
theorem Step.still {t : T} {k : K} {p : Code I A Ans R} {held : Option I}
    (step : Step code access w e w') (at_ : w.thread t = .running k p held)
    (other : ¬ e.MovesOf t) : w'.thread t = .running k p held := by
  have stays {u : T} {y : Thread I A Ans R K} (hut : t ≠ u) :
      Function.update w.thread u y t = .running k p held := by
    rw [Function.update_of_ne hut, at_]
  cases step with
  | call k' idle =>
      apply stays
      rintro rfl
      cases at_.symm.trans idle
  | spin => exact at_
  | acquire => exact stays fun h => other h.symm
  | access => exact stays fun h => other h.symm
  | release => exact stays fun h => other h.symm
  | returns => exact stays fun h => other h.symm

/-- What a step of a thread in a call is. -/
inductive Moved (t : T) (k : K) (w : World I A D R K T Ans) :
    Code I A Ans R → Option I → Event I A R K T → World I A D R K T Ans → Prop
  | acquires {i next held w'} (free : (w.store i).lock = false)
      (after : w'.thread t = .running k (next ()) (some i)) :
      Moved t k w (.call (.acquire i) next) held (.acquire t k i) w'
  | spins {i next held} (busy : (w.store i).lock = true) :
      Moved t k w (.call (.acquire i) next) held (.spin t) w
  | accesses {i a next held w'} {y : Ans a} (after : w'.thread t = .running k (next y) held) :
      Moved t k w (.call (.access i a) next) held (.access t i a) w'
  | releases {i next held w'} (after : w'.thread t = .running k (next ()) none)
      (free : (w'.store i).lock = false) :
      Moved t k w (.call (.release i) next) held (.release t i) w'
  | returns {r held w'} (after : w'.thread t = .idle) :
      Moved t k w (.ret r) held (.returns t k r) w'

theorem Step.moved {t : T} {k : K} {p : Code I A Ans R} {held : Option I}
    (step : Step code access w e w') (at_ : w.thread t = .running k p held)
    (mine : e.MovesOf t) : Moved t k w p held e w' := by
  cases step with
  | call => exact mine.elim
  | acquire here free =>
      obtain rfl := mine
      cases at_.symm.trans here
      exact .acquires free (Function.update_self _ _ _)
  | spin here busy =>
      obtain rfl := mine
      cases at_.symm.trans here
      exact .spins busy
  | access here =>
      obtain rfl := mine
      cases at_.symm.trans here
      exact .accesses (Function.update_self _ _ _)
  | @release _ _ _ _ i _ _ here =>
      obtain rfl := mine
      cases at_.symm.trans here
      exact .releases (Function.update_self _ _ _) (by simp)
  | returns here =>
      obtain rfl := mine
      cases at_.symm.trans here
      exact .returns (Function.update_self _ _ _)

omit [DecidableEq I] [DecidableEq T] in
/-- A thread that finds the lock free takes it. -/
theorem Moved.of_acquire {t : T} {k : K} {i : I} {next} {held : Option I}
    (moved : Moved t k w (.call (.acquire i) next) held e w') (free : (w.store i).lock = false) :
    e = .acquire t k i ∧ w'.thread t = .running k (next ()) (some i) := by
  cases moved with
  | acquires _ after => exact ⟨rfl, after⟩
  | spins busy => simp [free] at busy

/-- A lock is set by the thread that takes it. -/
theorem Step.stays_free {i : I} (step : Step code access w e w') (free : (w.store i).lock = false)
    (notTaken : ∀ t k, e ≠ .acquire t k i) : (w'.store i).lock = false := by
  cases step with
  | call => exact free
  | @acquire _ _ t k j =>
      have hij : i ≠ j := by
        rintro rfl
        exact notTaken t k rfl
      simpa [Function.update_of_ne hij] using free
  | spin => exact free
  | @access _ _ _ _ j =>
      by_cases hij : i = j
      · subst hij
        simpa using free
      · simpa [Function.update_of_ne hij] using free
  | @release _ _ _ _ j =>
      by_cases hij : i = j
      · subst hij
        simp
      · simpa [Function.update_of_ne hij] using free
  | returns => exact free

/-- A call returns `r`: at once or after its section. -/
def Result (code : K → Code I A Ans R) (k : K) (r : R) : Prop :=
  code k = .ret r ∨ ∃ i, SectionOf code k i r

/-- The threads that are about to test a lock. -/
def Waiting (w : World I A D R K T Ans) : Set T :=
  {t | ∃ k i next held, w.thread t = .running k (.call (.acquire i) next) held}

/-- The threads in a call. -/
def Active (w : World I A D R K T Ans) : Set T :=
  {t | ∃ k p held, w.thread t = .running k p held}

omit [DecidableEq I] [DecidableEq T] in
theorem waiting_subset_active : Waiting w ⊆ Active w :=
  fun _ ⟨k, _, _, held, at_⟩ => ⟨k, _, held, at_⟩

/-- Only a call makes a thread active. -/
theorem Step.active (step : Step code access w e w') (noCall : ∀ t k, e ≠ .call t k) :
    Active w' ⊆ Active w := by
  rintro u ⟨k, p, held, at_⟩
  cases step with
  | call k => exact absurd rfl (noCall _ k)
  | spin => exact ⟨k, p, held, at_⟩
  | acquire here | access here | release here | returns here =>
      rcases thread_update at_ with ⟨rfl, -⟩ | ⟨-, old⟩
      · exact ⟨_, _, _, here⟩
      · exact ⟨k, p, held, old⟩

/-- A call that returns makes its thread idle. -/
theorem Step.returned {t : T} {k : K} {r : R} (step : Step code access w (.returns t k r) w') :
    t ∈ Active w ∧ t ∉ Active w' := by
  cases step with
  | returns at_ => exact ⟨⟨k, _, _, at_⟩, by simp [Active]⟩

/-- At any instant of a run finitely many threads are in calls. -/
theorem active_finite {es : List (Event I A R K T)} {s₀ : I → Guarded D}
    (run : Run (Step code access) ⟨s₀, fun _ => .idle⟩ es w) : (Active w).Finite := by
  apply run.invariant (I := fun w => (Active w).Finite)
  · have none : Active (⟨s₀, fun _ => .idle⟩ : World I A D R K T Ans) = ∅ := by
      simp [Active]
    rw [none]
    exact Set.finite_empty
  · intro w e w' finite step
    by_cases call : ∃ t k, e = .call t k
    · obtain ⟨t, k, rfl⟩ := call
      apply (finite.insert t).subset
      rintro u ⟨k', p, held, at_⟩
      cases step with
      | call =>
          rcases thread_update at_ with ⟨rfl, -⟩ | ⟨-, old⟩
          · exact Set.mem_insert _ _
          · exact Set.mem_insert_of_mem _ ⟨k', p, held, old⟩
    · exact finite.subset (step.active fun t k called => call ⟨t, k, called⟩)

/-- Only a call makes a thread wait, and one that takes a lock waits no more. -/
theorem Serializes.waiting (h : Serializes code access P w S) (sound : Sound code access P)
    (step : Step code access w e w') (noCall : ∀ t k, e ≠ .call t k) :
    Waiting w' ⊆ Waiting w ∧ ∀ t k i, e = .acquire t k i → t ∈ Waiting w ∧ t ∉ Waiting w' := by
  cases step with
  | call k => exact absurd rfl (noCall _ k)
  | spin => exact ⟨subset_rfl, by simp⟩
  | @acquire store thread t k i next held at_ free =>
      obtain ⟨-, r, rest⟩ := h.begins sound at_
      have gone : t ∉ Waiting (⟨Function.update store i { store i with lock := true },
          Function.update thread t (.running k (next ()) (some i))⟩ : World I A D R K T Ans) := by
        rintro ⟨k', j, next', held', waits⟩
        injection (Function.update_self _ _ _).symm.trans waits with _ begun
        rw [begun] at rest
        cases rest
      constructor
      · rintro u ⟨k', j, next', held', waits⟩
        rcases thread_update waits with ⟨rfl, -⟩ | ⟨-, old⟩
        · exact ⟨_, _, _, _, at_⟩
        · exact ⟨k', j, next', held', old⟩
      · rintro t' k' i' same
        cases same
        exact ⟨⟨_, _, _, _, at_⟩, gone⟩
  | access at_ =>
      obtain ⟨i, r, rfl, -, -, -, rest⟩ := h.holds sound at_ (by simp)
      refine ⟨?_, by simp⟩
      rintro u ⟨k', j, next', held', waits⟩
      rcases thread_update waits with ⟨rfl, new⟩ | ⟨-, old⟩
      · cases rest with
        | access _ rest =>
            injection new with _ new
            have more := new ▸ rest _
            cases more
      · exact ⟨k', j, next', held', old⟩
  | release at_ =>
      obtain ⟨i, r, rfl, -, -, -, rest⟩ := h.holds sound at_ (by simp)
      refine ⟨?_, by simp⟩
      rintro u ⟨k', j, next', held', waits⟩
      rcases thread_update waits with ⟨rfl, new⟩ | ⟨-, old⟩
      · cases rest with
        | release ended =>
            injection new with _ new
            cases ended.symm.trans new
      · exact ⟨k', j, next', held', old⟩
  | returns at_ =>
      refine ⟨?_, by simp⟩
      rintro u ⟨k', j, next', held', waits⟩
      rcases thread_update waits with ⟨rfl, new⟩ | ⟨-, old⟩
      · cases new
      · exact ⟨k', j, next', held', old⟩

section Executions

variable {x : Execution (Step (T := T) code access)} {n : Nat} {t : T} {k : K}
variable {p : Code I A Ans R} {held : Option I} {i : I} {r : R}
variable (sound : Sound code access P)
variable (serializes : ∀ m, ∃ S, Serializes code access P (x.state m) S)
include sound serializes

/-- A fairly scheduled thread in a call comes to move. -/
theorem comes_to_move (fair : x.Fair (Event.MovesOf t))
    (at_ : (x.state n).thread t = .running k p held) :
    Eventually (fun m => (x.state m).thread t = .running k p held ∧
      ∃ e, x.event m = some e ∧ Moved t k (x.state m) p held e (x.state (m + 1))) n := by
  have moves : Eventually (fun m => (x.state m).thread t = .running k p held ∧
      ∃ e, x.event m = some e ∧ e.MovesOf t) n := by
    apply fair.eventually (p := fun m => (x.state m).thread t = .running k p held) at_
    · intro m _ here _
      obtain ⟨S, h⟩ := serializes m
      exact h.enabled sound here
    · intro m _ here notYet
      rcases x.tick_cases m with ⟨-, same⟩ | ⟨e, event, taken⟩
      · exact Or.inl (by rw [same, here])
      · exact Or.inl (taken.still here fun mine => notYet ⟨here, e, event, mine⟩)
    · exact fun m e _ here event mine => Or.inl ⟨here, e, event, mine⟩
  refine moves.mono fun m _ ⟨here, e, event, mine⟩ => ⟨here, e, event, ?_⟩
  rcases x.tick_cases m with ⟨none, -⟩ | ⟨e', event', taken⟩
  · cases event.symm.trans none
  · cases event.symm.trans event'
    exact taken.moved here mine

/-- A thread at the end of its call comes to return. -/
theorem comes_to_return (fair : x.Fair (Event.MovesOf t))
    (at_ : (x.state n).thread t = .running k (.ret r) held) :
    Eventually (fun m => x.event m = some (.returns t k r)) n := by
  refine (comes_to_move sound serializes fair at_).mono fun m _ ⟨_, e, event, moved⟩ => ?_
  generalize x.state (m + 1) = w at moved
  cases moved with
  | returns => exact event

/-- A thread inside a section comes out of it, and the lock is free at that instant. -/
theorem comes_out (fair : x.Fair (Event.MovesOf t)) (rest : Inside i r p)
    (at_ : (x.state n).thread t = .running k p held) :
    Eventually (fun m => (∃ held', (x.state m).thread t = .running k (.ret r) held') ∧
      ((x.state m).store i).lock = false) n := by
  induction rest generalizing n held with
  | access a rest ih =>
      apply (comes_to_move sound serializes fair at_).next
      intro m _ ⟨_, e, event, moved⟩
      generalize after : x.state (m + 1) = w at moved
      cases moved with
      | accesses next =>
          obtain ⟨j, later, out⟩ := ih _ (after ▸ next)
          exact ⟨j, by omega, out⟩
  | @release next ended =>
      apply (comes_to_move sound serializes fair at_).next
      intro m _ ⟨_, e, event, moved⟩
      generalize after : x.state (m + 1) = w at moved
      cases moved with
      | releases next free =>
          subst after
          exact ⟨m + 1, by omega, ⟨none, next.trans (by rw [ended])⟩, free⟩

/-- A lock comes to be free. -/
theorem comes_free (fair : ∀ u, x.Fair (Event.MovesOf u)) (i : I) :
    Eventually (fun m => ((x.state m).store i).lock = false) n := by
  cases busy : ((x.state n).store i).lock with
  | false => exact .now busy
  | true =>
      obtain ⟨S, h⟩ := serializes n
      obtain ⟨u, k, p, at_⟩ := h.owner busy
      obtain ⟨-, -, r, -, rest⟩ := h.inside at_
      exact (comes_out sound serializes (fair u) rest at_).mono fun m _ out => out.2

omit sound serializes in
/-- A thread that waits for a lock does so until it takes it. -/
theorem waits_or_acquires {next}
    (at_ : (x.state n).thread t = .running k (.call (.acquire i) next) held) {m : Nat}
    (later : n ≤ m) :
    (x.state m).thread t = .running k (.call (.acquire i) next) held ∨
      ∃ j, n ≤ j ∧ x.event j = some (.acquire t k i) ∧
        (x.state (j + 1)).thread t = .running k (next ()) (some i) := by
  induction m, later using Nat.le_induction with
  | base => exact Or.inl at_
  | succ m later ih =>
      rcases ih with here | taken
      · rcases x.tick_cases m with ⟨-, same⟩ | ⟨e, event, taken⟩
        · exact Or.inl (by rw [same, here])
        · by_cases mine : e.MovesOf t
          · have moved := taken.moved here mine
            generalize after : x.state (m + 1) = w at moved
            cases moved with
            | acquires free next => exact Or.inr ⟨m, later, event, after ▸ next⟩
            | spins busy => exact Or.inl here
          · exact Or.inl (taken.still here mine)
      · exact Or.inr taken

/-- A thread that waits for a lock takes it, unless others take it for ever. -/
theorem acquires_or_contended (fair : ∀ u, x.Fair (Event.MovesOf u)) {next}
    (at_ : (x.state n).thread t = .running k (.call (.acquire i) next) held) :
    (∃ j, n ≤ j ∧ x.event j = some (.acquire t k i) ∧
      (x.state (j + 1)).thread t = .running k (next ()) (some i)) ∨
    ∀ m, Eventually (fun j => ∃ u k', u ≠ t ∧ x.event j = some (.acquire u k' i)) m := by
  by_cases contended : ∀ m, Eventually
      (fun j => ∃ u k', u ≠ t ∧ x.event j = some (.acquire u k' i)) m
  · exact Or.inr contended
  left
  simp only [not_forall] at contended
  obtain ⟨m₀, quiet⟩ := contended
  obtain ⟨m, later, free⟩ := comes_free sound serializes fair i (n := max n m₀)
  rcases waits_or_acquires at_ (by omega : n ≤ m) with here | taken
  · -- nobody else takes the free lock, so it is free when the thread tests it
    have takes : Eventually (fun j => x.event j = some (.acquire t k i) ∧
        (x.state (j + 1)).thread t = .running k (next ()) (some i)) m := by
      apply (fair t).eventually (p := fun j => ((x.state j).store i).lock = false ∧
        (x.state j).thread t = .running k (.call (.acquire i) next) held) ⟨free, here⟩
      · intro j _ now _
        obtain ⟨S, h⟩ := serializes j
        exact h.enabled sound now.2
      · intro j hj ⟨free, here⟩ notYet
        rcases x.tick_cases j with ⟨-, same⟩ | ⟨e, event, taken⟩
        · exact Or.inl (by rw [same]; exact ⟨free, here⟩)
        · by_cases mine : e.MovesOf t
          · obtain ⟨rfl, after⟩ := (taken.moved here mine).of_acquire free
            exact absurd ⟨event, after⟩ notYet
          · refine Or.inl ⟨taken.stays_free free fun u k' acquired => ?_, taken.still here mine⟩
            subst acquired
            exact quiet ⟨j, by omega, u, k', mine, event⟩
      · intro j e _ ⟨free, here⟩ event mine
        rcases x.tick_cases j with ⟨none, -⟩ | ⟨e', event', taken⟩
        · cases event.symm.trans none
        · cases event.symm.trans event'
          obtain ⟨rfl, after⟩ := (taken.moved here mine).of_acquire free
          exact Or.inl ⟨event, after⟩
    obtain ⟨j, hj, event, after⟩ := takes
    exact ⟨j, by omega, event, after⟩
  · exact taken

/-- A call comes to return its result, unless others take its lock for ever. -/
theorem returns_or_contended (fair : ∀ u, x.Fair (Event.MovesOf u))
    (at_ : (x.state n).thread t = .running k p held) :
    (∃ r, Result code k r ∧ Eventually (fun m => x.event m = some (.returns t k r)) n) ∨
    ∃ i r, SectionOf code k i r ∧
      ∀ m, Eventually (fun j => ∃ u k', u ≠ t ∧ x.event j = some (.acquire u k' i)) m := by
  have ends {r : R} (result : Result code k r) {held' : Option I}
      (out : Eventually (fun m => (x.state m).thread t = .running k (.ret r) held') n) :
      ∃ r, Result code k r ∧ Eventually (fun m => x.event m = some (.returns t k r)) n :=
    ⟨r, result, out.next fun m _ here => comes_to_return sound serializes (fair t) here⟩
  have leaves {m : Nat} {i : I} {r : R} {q : Code I A Ans R} {held' : Option I} (later : n ≤ m)
      (section_ : SectionOf code k i r) (rest : Inside i r q)
      (here : (x.state m).thread t = .running k q held') :
      ∃ r, Result code k r ∧ Eventually (fun m => x.event m = some (.returns t k r)) n := by
    obtain ⟨j, hj, ⟨held'', out⟩, -⟩ := comes_out sound serializes (fair t) rest here
    exact ends (.inr ⟨i, section_⟩) ⟨j, by omega, out⟩
  obtain ⟨S, h⟩ := serializes n
  cases held with
  | some i =>
      obtain ⟨-, -, r, section_, rest⟩ := h.inside at_
      exact Or.inl (leaves le_rfl section_ rest at_)
  | none =>
      rcases h.outside at_ with rfl | ⟨i, r, section_, rfl⟩
      · have shape : Sectioned (code k) := sound.sectioned k
        generalize hcode : code k = q at at_ shape
        cases shape with
        | direct r => exact Or.inl (ends (.inl hcode) (.now at_))
        | @guarded i r next rest =>
            have section_ : SectionOf code k i r := ⟨next, hcode, rest⟩
            rcases acquires_or_contended sound serializes fair at_ with
              ⟨j, later, -, inside⟩ | contended
            · exact Or.inl (leaves (by omega) section_ rest inside)
            · exact Or.inr ⟨i, r, section_, contended⟩
      · exact Or.inl (ends (.inr ⟨i, section_⟩) (.now at_))

/-- When no more calls begin, all calls return. -/
theorem comes_to_rest (fair : ∀ u, x.Fair (Event.MovesOf u))
    (finite : (Active (x.state n)).Finite)
    (noCall : ∀ m t k, n ≤ m → x.event m ≠ some (.call t k)) :
    Eventually (fun m => ∀ t, (x.state m).thread t = .idle) n := by
  have step (m : Nat) (later : n ≤ m) : x.state (m + 1) = x.state m ∨
      ∃ e, x.event m = some e ∧ Step code access (x.state m) e (x.state (m + 1)) ∧
        ∀ t k, e ≠ .call t k := by
    rcases x.tick_cases m with ⟨-, same⟩ | ⟨e, event, taken⟩
    · exact Or.inl same
    · refine Or.inr ⟨e, event, taken, fun t k call => ?_⟩
      exact noCall m t k later (event.trans (by rw [call]))
  -- each lock is taken at finitely many instants
  obtain ⟨m, later, noneTaken⟩ : Eventually
      (fun m => ∀ j, m ≤ j → ¬ ∃ t k i, x.event j = some (.acquire t k i)) n := by
    apply loses_finally (A := fun m => Waiting (x.state m)) (finite.subset waiting_subset_active)
    · intro m later
      rcases step m later with same | ⟨e, -, taken, no⟩
      · rw [same]
      · obtain ⟨S, h⟩ := serializes m
        exact (h.waiting sound taken no).1
    · rintro m later ⟨t, k, i, event⟩
      obtain ⟨S, h⟩ := serializes m
      rcases x.tick_cases m with ⟨none, -⟩ | ⟨e, event', taken⟩
      · cases event.symm.trans none
      · cases event.symm.trans event'
        exact ⟨t, (h.waiting sound taken (by simp)).2 t k i rfl⟩
  -- and each call returns, at finitely many instants
  obtain ⟨m', later', noneReturns⟩ : Eventually
      (fun m => ∀ j, m ≤ j → ¬ ∃ t k r, x.event j = some (.returns t k r)) n := by
    apply loses_finally (A := fun m => Active (x.state m)) finite
    · intro m later
      rcases step m later with same | ⟨e, -, taken, no⟩
      · rw [same]
      · exact taken.active no
    · rintro m later ⟨t, k, r, event⟩
      rcases x.tick_cases m with ⟨none, -⟩ | ⟨e, event', taken⟩
      · cases event.symm.trans none
      · cases event.symm.trans event'
        exact ⟨t, taken.returned⟩
  refine ⟨max m m', by omega, fun t => ?_⟩
  cases at_ : (x.state (max m m')).thread t with
  | idle => rfl
  | running k p held =>
      rcases returns_or_contended sound serializes fair at_ with
        ⟨r, -, returns⟩ | ⟨i, r, -, contended⟩
      · obtain ⟨j, hj, event⟩ := returns
        exact absurd ⟨t, k, r, event⟩ (noneReturns j (by omega))
      · obtain ⟨j, hj, u, k', -, event⟩ := contended (max m m')
        exact absurd ⟨u, k', i, event⟩ (noneTaken j (by omega))

end Executions

end TelemetrixDb.LockSections
