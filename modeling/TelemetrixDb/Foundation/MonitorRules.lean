import TelemetrixDb.Foundation.Monitor
import Mathlib.Tactic.Common

/-!
# Liveness rules for monitors

The first rule bounds the work a sleeping waiter may be missing by the number
of threads already woken for it. The second shows that a state after which no
operation blocks, entered by broadcasts, leaves nobody asleep. The third is for
conditions with one waiter at most: it sleeps only while it would have to wait.

-/

namespace TelemetrixDb.Monitor
open Transition

variable {S T Op C F : Type*} {R : Op → Type*} [DecidableEq T]
variable {body : S → (op : Op) → Except F (Outcome S C (R op))}
variable {σ τ : Config S T Op C} {es : List (Event T Op C R)} {e : Event T Op C R}

section Stationed

/-- Threads queue on `c` only for operations that may wait on it. -/
def Stationed (c : C) (waitsOn : Op → Prop) (phase : T → Phase Op C) : Prop :=
  ∀ t op, phase t = .blocked op c ∨ phase t = .woken op c → waitsOn op

theorem Stationed.update {c : C} {waitsOn : Op → Prop} {phase : T → Phase Op C}
    (h : Stationed c waitsOn phase) (t : T) (p : Phase Op C)
    (hp : ∀ op, p = .blocked op c ∨ p = .woken op c → waitsOn op) :
    Stationed c waitsOn (Function.update phase t p) := by
  intro u op hu
  by_cases hut : u = t
  · subst hut
    simp only [Function.update_self] at hu
    exact hp op hu
  · simp only [Function.update_of_ne hut] at hu
    exact h u op hu

omit [DecidableEq T] in
theorem Stationed.wakeAll {c : C} {waitsOn : Op → Prop} {phase : T → Phase Op C}
    (h : Stationed c waitsOn phase) (chosen : T → Bool) :
    Stationed c waitsOn (wakeAll chosen phase) := by
  intro t op ht
  apply h t op
  simp only [Monitor.wakeAll] at ht
  split at ht
  · cases hp : phase t <;> simp_all [Phase.wake]
  · exact ht

omit [DecidableEq T] in
/-- A thread about to run `op` that was woken from `c` runs an operation of `c`. -/
theorem Stationed.waitsOn_of_woken {c : C} {waitsOn : Op → Prop} {phase : T → Phase Op C}
    (h : Stationed c waitsOn phase) {t : T} {op : Op} (wants : (phase t).Wants op)
    (woken : (phase t).WokenOn c) : waitsOn op := by
  obtain ⟨op', hp⟩ := Phase.wokenOn_iff.mp woken
  have same : op' = op := by simpa [hp, Phase.Wants] using wants
  exact same ▸ h t op' (Or.inr hp)

/-- One step keeps every queue stationed. -/
theorem Stationed.step {c : C} {waitsOn : Op → Prop}
    (waits : ∀ {s op}, body s op = .ok (.wait c) → waitsOn op)
    (h : Stationed c waitsOn σ.phase) (step : Step body σ e τ) :
    Stationed c waitsOn τ.phase := by
  cases step with
  | call op free => exact h.update _ _ (by simp)
  | @waits s phase t op c' wants run =>
      refine h.update _ _ fun op' hop => ?_
      rcases hop with hop | hop
      · obtain ⟨rfl, rfl⟩ := Phase.blocked.inj hop
        exact waits run
      · exact absurd hop (by simp)
  | @returns s phase t op s' reply notice chosen wants run wakes =>
      exact (h.wakeAll chosen).update _ _ (by simp)
  | @spurious s phase t op c' asleep =>
      refine h.update _ _ fun op' hop => ?_
      rcases hop with hop | hop
      · exact absurd hop (by simp)
      · obtain ⟨rfl, rfl⟩ := Phase.woken.inj hop
        exact h t op (Or.inl asleep)

end Stationed

section Accounting

variable [Fintype T] [DecidableEq C]

/-- The threads woken from `c` that have not re-acquired the lock. -/
def wokenSet (c : C) (phase : T → Phase Op C) : Finset T :=
  Finset.univ.filter fun t => (phase t).WokenOn c

omit [DecidableEq T] in
@[simp] theorem mem_wokenSet {c : C} {phase : T → Phase Op C} {t : T} :
    t ∈ wokenSet c phase ↔ (phase t).WokenOn c := by
  simp [wokenSet]

/-- A condition `c` counts units of the shared state: a body blocks on `c` only
when there is none, an operation that may wait on `c` takes one when it
finishes, and another adds at most one and only with a notice to `c`. -/
structure Accounts (body : S → (op : Op) → Except F (Outcome S C (R op))) (I : S → Prop)
    (c : C) (waitsOn : Op → Prop) (units : S → Nat) : Prop where
  keep : ∀ {s op s' reply notice}, I s →
    body s op = .ok (.done s' reply notice) → I s'
  stationed : ∀ {s op}, body s op = .ok (.wait c) → waitsOn op
  only : ∀ {s op c'}, waitsOn op → body s op = .ok (.wait c') → c' = c
  blocks : ∀ {s op}, I s → body s op = .ok (.wait c) → units s = 0
  takes : ∀ {s op s' reply notice}, I s → waitsOn op →
    body s op = .ok (.done s' reply notice) → units s' ≤ units s - 1
  gives : ∀ {s op s' reply notice}, I s → ¬ waitsOn op →
    body s op = .ok (.done s' reply notice) →
    units s' ≤ units s + if notice c = .none then 0 else 1

/-- What the rule says of one configuration. -/
def Covered (c : C) (units : S → Nat) (σ : Config S T Op C) : Prop :=
  (∃ t, (σ.phase t).BlockedOn c) → units σ.shared ≤ (wokenSet c σ.phase).card

/-- A phase change that takes nobody out of the woken set keeps its size. -/
theorem card_wokenSet_le_update {c : C} {phase : T → Phase Op C} {t : T} {p : Phase Op C}
    (h : (phase t).WokenOn c → p.WokenOn c) :
    (wokenSet c phase).card ≤ (wokenSet c (Function.update phase t p)).card := by
  apply Finset.card_le_card
  intro u hu
  rw [mem_wokenSet] at hu ⊢
  by_cases hut : u = t
  · subst hut
    simpa using h hu
  · simpa [Function.update_of_ne hut] using hu

/-- When `t` finishes, at most `t` itself leaves the woken set. -/
theorem erase_wokenSet_subset {c : C} {phase : T → Phase Op C} (chosen : T → Bool) (t : T) :
    (wokenSet c phase).erase t ⊆
      wokenSet c (Function.update (wakeAll chosen phase) t .idle) := by
  intro u hu
  obtain ⟨hut, hw⟩ := Finset.mem_erase.mp hu
  rw [mem_wokenSet] at hw ⊢
  rw [Function.update_of_ne hut, wakeAll]
  split
  · exact hw.wake
  · exact hw

/-- A waiter chosen for a notice joins the woken set. -/
theorem card_erase_lt_of_chosen {c : C} {phase : T → Phase Op C} {chosen : T → Bool} {t u : T}
    {op : Op} (wants : (phase t).Wants op) (hu : (phase u).BlockedOn c)
    (hc : chosen u = true) :
    ((wokenSet c phase).erase t).card <
      (wokenSet c (Function.update (wakeAll chosen phase) t .idle)).card := by
  apply Finset.card_lt_card
  refine Finset.ssubset_iff_subset_ne.mpr ⟨erase_wokenSet_subset chosen t, fun heq => ?_⟩
  have hut : u ≠ t := by
    rintro rfl
    exact wants.not_blockedOn c hu
  have hin : u ∈ wokenSet c (Function.update (wakeAll chosen phase) t .idle) := by
    rw [mem_wokenSet, Function.update_of_ne hut, wakeAll, if_pos hc]
    exact hu.wake
  rw [← heq] at hin
  exact hu.not_wokenOn (mem_wokenSet.mp (Finset.mem_of_mem_erase hin))

omit [DecidableEq C] [Fintype T] in
/-- Finishing a call leaves asleep only threads that slept and were not chosen. -/
theorem blockedOn_of_returned {c : C} {phase : T → Phase Op C} {chosen : T → Bool} {t u : T}
    (h : (Function.update (wakeAll chosen phase) t .idle u).BlockedOn c) :
    (phase u).BlockedOn c ∧ chosen u = false := by
  by_cases hut : u = t
  · subst hut
    simp [Phase.BlockedOn] at h
  · rw [Function.update_of_ne hut, wakeAll] at h
    cases hc : chosen u with
    | true =>
        rw [if_pos hc] at h
        exact absurd h (Phase.not_blockedOn_wake c _)
    | false => exact ⟨by simpa [hc] using h, rfl⟩

/-- The woken set pays for what finishing a call does to the units. -/
theorem Accounts.returns {I : S → Prop} {c : C} {waitsOn : Op → Prop} {units : S → Nat}
    (acc : Accounts body I c waitsOn units) {s s' : S} {phase : T → Phase Op C} {t : T}
    {op : Op} {reply : R op} {notice : C → Notice} {chosen : T → Bool} (inv : I s)
    (stationed : Stationed c waitsOn phase) (covered : Covered c units ⟨s, phase⟩)
    (wants : (phase t).Wants op) (run : body s op = .ok (.done s' reply notice))
    (wakes : Wakes notice phase chosen) :
    Covered c units ⟨s', Function.update (wakeAll chosen phase) t .idle⟩ := by
  rintro ⟨u, hu⟩
  obtain ⟨asleep, spared⟩ := blockedOn_of_returned hu
  have before : units s ≤ (wokenSet c phase).card := covered ⟨u, asleep⟩
  have kept : ((wokenSet c phase).erase t).card ≤
      (wokenSet c (Function.update (wakeAll chosen phase) t .idle)).card :=
    Finset.card_le_card (erase_wokenSet_subset chosen t)
  have erased := Finset.pred_card_le_card_erase (s := wokenSet c phase) (a := t)
  by_cases hop : waitsOn op
  · have takes := acc.takes inv hop run
    dsimp only
    omega
  · have gives := acc.gives inv hop run
    have outside : t ∉ wokenSet c phase := fun h =>
      hop (stationed.waitsOn_of_woken wants (mem_wokenSet.mp h))
    rw [Finset.erase_eq_of_notMem outside] at kept
    cases hn : notice c with
    | none =>
        rw [if_pos hn] at gives
        dsimp only
        omega
    | broadcast => exact absurd (wakes.all c hn u asleep) (by simp [spared])
    | signal =>
        obtain ⟨v, hv, chosenV⟩ := wakes.some c hn ⟨u, asleep⟩
        have gain := card_erase_lt_of_chosen wants hv chosenV
        rw [Finset.erase_eq_of_notMem outside] at gain
        rw [hn, if_neg (by decide)] at gives
        dsimp only
        omega

/-- One step keeps every waiter covered. -/
theorem Accounts.step {I : S → Prop} {c : C} {waitsOn : Op → Prop} {units : S → Nat}
    (acc : Accounts body I c waitsOn units) (inv : I σ.shared)
    (stationed : Stationed c waitsOn σ.phase) (covered : Covered c units σ)
    (step : Step body σ e τ) : Covered c units τ := by
  cases step with
  | @call s phase t op free =>
      rintro ⟨u, hu⟩
      have asleep : (phase u).BlockedOn c := by
        by_cases hut : u = t
        · subst hut
          simp [Phase.BlockedOn] at hu
        · simpa [Function.update_of_ne hut] using hu
      exact (covered ⟨u, asleep⟩).trans
        (card_wokenSet_le_update (by simp [free, Phase.WokenOn]))
  | @waits s phase t op c' wants run =>
      rintro ⟨u, hu⟩
      by_cases hc : c' = c
      · subst hc
        simp [acc.blocks inv run]
      · have asleep : (phase u).BlockedOn c := by
          by_cases hut : u = t
          · subst hut
            simp [Phase.BlockedOn, hc] at hu
          · simpa [Function.update_of_ne hut] using hu
        -- a thread woken from `c` would block on `c` again, so `t` is not one
        refine (covered ⟨u, asleep⟩).trans (card_wokenSet_le_update fun woken => ?_)
        exact absurd (acc.only (stationed.waitsOn_of_woken wants woken) run) hc
  | returns wants run wakes => exact acc.returns inv stationed covered wants run wakes
  | @spurious s phase t op c' asleep =>
      rintro ⟨u, hu⟩
      have slept : (phase u).BlockedOn c := by
        by_cases hut : u = t
        · subst hut
          simp [Phase.BlockedOn] at hu
        · simpa [Function.update_of_ne hut] using hu
      exact (covered ⟨u, slept⟩).trans
        (card_wokenSet_le_update (by simp [asleep, Phase.WokenOn]))

/-- No lost wake-up: throughout every run, the units that a sleeping waiter of
`c` could take are at most the threads woken from `c` that have yet to run. -/
theorem Accounts.covered {I : S → Prop} {c : C} {waitsOn : Op → Prop} {units : S → Nat}
    (acc : Accounts body I c waitsOn units) {s₀ : S} (inv : I s₀)
    (run : Run (Step body) (Config.start s₀) es σ) : Covered c units σ := by
  have all : I σ.shared ∧ Stationed c waitsOn σ.phase ∧ Covered c units σ := by
    refine run.invariant (I := fun σ : Config S T Op C =>
      I σ.shared ∧ Stationed c waitsOn σ.phase ∧ Covered c units σ) ?_ ?_
    · refine ⟨inv, ?_, ?_⟩
      · intro t op h
        simp [Config.start] at h
      · rintro ⟨t, ht⟩
        simp [Config.start, Phase.BlockedOn] at ht
    · rintro σ e τ ⟨hi, hs, hc⟩ step
      exact ⟨shared_invariant (Run.single step) hi acc.keep,
        hs.step acc.stationed step, acc.step hi hs hc step⟩
  exact all.2.2

end Accounting

section Closing

/-- No thread sleeps on any condition. -/
def Awake (phase : T → Phase Op C) : Prop := ∀ t c, ¬ (phase t).BlockedOn c

theorem Awake.update {phase : T → Phase Op C} (h : Awake phase) (t : T) {p : Phase Op C}
    (hp : ∀ c, ¬ p.BlockedOn c) : Awake (Function.update phase t p) := by
  intro u c
  by_cases hut : u = t
  · subst hut
    simpa using hp c
  · simpa [Function.update_of_ne hut] using h u c

/-- A set of states that no operation leaves and in which none blocks, entered
only by sections that broadcast to every condition. -/
structure Closes (body : S → (op : Op) → Except F (Outcome S C (R op)))
    (closed : S → Prop) : Prop where
  stays : ∀ {s op s' reply notice}, closed s →
    body s op = .ok (.done s' reply notice) → closed s'
  runs : ∀ {s op c}, closed s → body s op ≠ .ok (.wait c)
  enters : ∀ {s op s' reply notice}, ¬ closed s → closed s' →
    body s op = .ok (.done s' reply notice) → ∀ c, notice c = .broadcast

/-- One step keeps everybody awake in a closed state. -/
theorem Closes.step {closed : S → Prop} (h : Closes body closed)
    (awake : closed σ.shared → Awake σ.phase) (step : Step body σ e τ) :
    closed τ.shared → Awake τ.phase := by
  intro hc
  cases step with
  | call op free => exact (awake hc).update _ (by simp [Phase.BlockedOn])
  | waits wants run => exact absurd run (h.runs hc)
  | @returns s phase t op s' reply notice chosen wants run wakes =>
      intro u c hu
      obtain ⟨asleep, spared⟩ := blockedOn_of_returned hu
      by_cases before : closed s
      · exact awake before u c asleep
      · have chosenU := wakes.all c (h.enters before hc run c) u asleep
        simp [spared] at chosenU
  | @spurious s phase t op c asleep =>
      exact absurd (by simp [asleep, Phase.BlockedOn]) (awake hc t c)

/-- In every run from a start where nobody is in a call, a closed state has no
sleeping thread. -/
theorem Closes.awake {closed : S → Prop} (h : Closes body closed) {s₀ : S}
    (run : Run (Step body) (Config.start s₀) es σ) (hc : closed σ.shared) :
    Awake σ.phase := by
  refine run.invariant (I := fun σ : Config S T Op C => closed σ.shared → Awake σ.phase)
    ?_ (fun awake step => h.step awake step) hc
  intro _ t c ht
  simp [Config.start, Phase.BlockedOn] at ht

/-- From a closed state on, the state stays closed and no thread blocks. -/
theorem Closes.run {closed : S → Prop} (h : Closes body closed)
    (run : Run (Step body) σ es τ) (hc : closed σ.shared) :
    closed τ.shared ∧ ∀ t op c, .waits t op c ∉ es := by
  refine run.history_invariant
    (I := fun es τ => closed τ.shared ∧ ∀ t op c, .waits t op c ∉ es) ⟨hc, by simp⟩ ?_
  rintro es τ e υ ⟨closedT, quiet⟩ step
  refine ⟨shared_invariant (Run.single step) closedT h.stays, fun t op c hmem => ?_⟩
  rcases List.mem_append.mp hmem with hmem | hmem
  · exact quiet t op c hmem
  · obtain rfl := List.mem_singleton.mp hmem
    cases step with
    | waits wants run => exact h.runs closedT run

end Closing

section Vigilance

/-- The section of a sleeping thread would have to wait. -/
def Vigilant (body : S → (op : Op) → Except F (Outcome S C (R op))) (σ : Config S T Op C) : Prop :=
  ∀ t op c, σ.phase t = .blocked op c → body σ.shared op = .ok (.wait c)

/-- A section that lets a waiting operation go on gives its condition a notice. -/
structure Announces (body : S → (op : Op) → Except F (Outcome S C (R op))) (I : S → Prop) :
    Prop where
  keep : ∀ {s op s' reply notice}, I s → body s op = .ok (.done s' reply notice) → I s'
  notice : ∀ {s op c op' s' reply notice}, I s → body s op = .ok (.wait c) →
    body s op' = .ok (.done s' reply notice) → body s' op = .ok (.wait c) ∨ notice c ≠ .none

/-- A sleeping thread that a section's end leaves asleep would still have to wait:
the notice would have chosen it, the only waiter. -/
theorem Announces.step {I : S → Prop} (announces : Announces body I) (inv : I σ.shared)
    (sole : ∀ c t u, (σ.phase t).BlockedOn c → (σ.phase u).BlockedOn c → t = u)
    (vigilant : Vigilant body σ) (step : Step body σ e τ) :
    Vigilant body τ := by
  intro u op c asleep
  cases step with
  | @call s phase t op' free =>
      by_cases hut : u = t
      · simp [hut] at asleep
      · exact vigilant u op c (by simpa [Function.update_of_ne hut] using asleep)
  | @waits s phase t op' c' wants run =>
      by_cases hut : u = t
      · simp only [hut, Function.update_self] at asleep
        cases asleep
        exact run
      · exact vigilant u op c (by simpa [Function.update_of_ne hut] using asleep)
  | @spurious s phase t op' c' slept =>
      by_cases hut : u = t
      · simp [hut] at asleep
      · exact vigilant u op c (by simpa [Function.update_of_ne hut] using asleep)
  | @returns s phase t op' s' reply notice chosen wants run wakes =>
      have blocked : (Function.update (wakeAll chosen phase) t .idle u).BlockedOn c := by
        dsimp only at asleep
        rw [asleep]
        rfl
      obtain ⟨slept, spared⟩ := blockedOn_of_returned blocked
      have before : phase u = .blocked op c := by
        have hut : u ≠ t := by
          rintro rfl
          simp at asleep
        simpa [Function.update_of_ne hut, wakeAll, spared] using asleep
      rcases announces.notice inv (vigilant u op c before) run with waits | told
      · exact waits
      · have chosenU : chosen u = true := by
          cases told' : notice c with
          | none => exact absurd told' told
          | broadcast => exact wakes.all c told' u slept
          | signal =>
              obtain ⟨v, hv, chosenV⟩ := wakes.some c told' ⟨u, slept⟩
              rwa [sole c u v slept hv]
        simp [spared] at chosenU

end Vigilance

end TelemetrixDb.Monitor
