import TelemetrixDb.Foundation.LockSections

/-!
# Interleaved sections are serializable

The invariant names the store that the calls holding or having held a lock
produce when they run one after the other in the order of their acquisitions.
A free cell already agrees with it, and the rest of a section turns the cell it
holds into that store's cell.

-/

namespace TelemetrixDb.LockSections
open Transition

variable {I A D E R K T : Type} {Ans : A → Type}

/-- A thread is outside every call, or in a call with the rest of its code and
the cell, if any, between whose acquisition and release it is. -/
inductive Thread (I A : Type) (Ans : A → Type) (R K : Type)
  | idle
  | running (k : K) (rest : Code I A Ans R) (held : Option I)

structure World (I A D R K T : Type) (Ans : A → Type) where
  store : I → Guarded D
  thread : T → Thread I A Ans R K

/-- What a step shows. -/
inductive Event (I A R K T : Type)
  | call (t : T) (k : K)
  | acquire (t : T) (k : K) (i : I)
  | spin (t : T)
  | access (t : T) (i : I) (a : A)
  | release (t : T) (i : I)
  | returns (t : T) (k : K) (r : R)

variable [DecidableEq I] [DecidableEq T]
variable (code : K → Code I A Ans R) (access : (a : A) → D → Except E (Ans a × D))

/-- One step of one thread. A failed test of the lock repeats the test. -/
inductive Step : World I A D R K T Ans → Event I A R K T → World I A D R K T Ans → Prop
  | call {store thread} {t : T} (k : K) (idle : thread t = .idle) :
      Step ⟨store, thread⟩ (.call t k)
        ⟨store, Function.update thread t (.running k (code k) none)⟩
  | acquire {store thread} {t : T} {k : K} {i : I} {next held}
      (at_ : thread t = .running k (.call (.acquire i) next) held)
      (free : (store i).lock = false) :
      Step ⟨store, thread⟩ (.acquire t k i)
        ⟨Function.update store i { store i with lock := true },
          Function.update thread t (.running k (next ()) (some i))⟩
  | spin {store thread} {t : T} {k : K} {i : I} {next held}
      (at_ : thread t = .running k (.call (.acquire i) next) held)
      (busy : (store i).lock = true) : Step ⟨store, thread⟩ (.spin t) ⟨store, thread⟩
  | access {store thread} {t : T} {k : K} {i : I} {a : A} {next held} {x : Ans a} {d : D}
      (at_ : thread t = .running k (.call (.access i a) next) held)
      (result : access a (store i).data = .ok (x, d)) :
      Step ⟨store, thread⟩ (.access t i a)
        ⟨Function.update store i { store i with data := d },
          Function.update thread t (.running k (next x) held)⟩
  | release {store thread} {t : T} {k : K} {i : I} {next held}
      (at_ : thread t = .running k (.call (.release i) next) held) :
      Step ⟨store, thread⟩ (.release t i)
        ⟨Function.update store i { store i with lock := false },
          Function.update thread t (.running k (next ()) none)⟩
  | returns {store thread} {t : T} {k : K} {r : R} {held}
      (at_ : thread t = .running k (.ret r) held) :
      Step ⟨store, thread⟩ (.returns t k r) ⟨store, Function.update thread t .idle⟩

/-- Calls made one after the other by one thread. -/
def serial : List K → (I → Guarded D) → Except (Stop E) (I → Guarded D)
  | [], s => .ok s
  | k :: ks, s =>
      match (code k).exec (handle access) s with
      | .ok (_, s') => serial ks s'
      | .error e => .error e

/-- The calls that took a lock, in the order of their acquisitions. -/
def acquired (es : List (Event I A R K T)) : List K :=
  es.flatMap fun
    | .acquire _ k _ => [k]
    | _ => []

/-- `k` is one section on cell `i` and returns `r`. -/
def SectionOf (k : K) (i : I) (r : R) : Prop :=
  ∃ next, code k = .call (.acquire i) next ∧ Inside i r (next ())

/-- Every call is sectioned, and on data of the invariant its section runs to
its end and keeps the invariant. -/
structure Sound (P : D → Prop) : Prop where
  sectioned : ∀ k, Sectioned (code k)
  runs : ∀ {k i next d}, code k = .call (.acquire i) next → P d →
    ∃ d', effect access (next ()) d = .ok d' ∧ P d'

/-- The store `S` is what the sections begun so far leave when each of them is
run to its end. -/
structure Serializes (P : D → Prop) (w : World I A D R K T Ans) (S : I → Guarded D) : Prop where
  unlocked : ∀ i, (S i).lock = false
  good : ∀ i, P (S i).data
  free : ∀ {i}, (w.store i).lock = false → w.store i = S i
  outside : ∀ {t k p}, w.thread t = .running k p none →
    p = code k ∨ ∃ i r, SectionOf code k i r ∧ p = .ret r
  inside : ∀ {t k p i}, w.thread t = .running k p (some i) →
    (w.store i).lock = true ∧ effect access p (w.store i).data = .ok (S i).data ∧
      ∃ r, SectionOf code k i r ∧ Inside i r p
  owner : ∀ {i}, (w.store i).lock = true → ∃ t k p, w.thread t = .running k p (some i)
  unique : ∀ {i t k p t' k' p'}, w.thread t = .running k p (some i) →
    w.thread t' = .running k' p' (some i) → t = t'

variable {code access} {P : D → Prop} {w w' : World I A D R K T Ans} {S : I → Guarded D}
variable {e : Event I A R K T} {es : List (Event I A R K T)} {s₀ : I → Guarded D}

omit [DecidableEq T] in
theorem serial_snoc {ks : List K} {k : K} {s s' s'' : I → Guarded D} {r : R}
    (h : serial code access ks s = .ok s')
    (last : (code k).exec (handle access) s' = .ok (r, s'')) :
    serial code access (ks ++ [k]) s = .ok s'' := by
  induction ks generalizing s with
  | nil =>
      obtain rfl := Except.ok.inj h
      simp [serial, last]
  | cons j js ih =>
      simp only [serial, List.cons_append] at h ⊢
      split at h
      · exact ih h
      · cases h

omit [DecidableEq I] in
/-- A thread seen after an update is the updated one or an untouched one. -/
theorem thread_update {thread : T → Thread I A Ans R K} {t u : T} {x : Thread I A Ans R K}
    {k : K} {p : Code I A Ans R} {held : Option I}
    (h : Function.update thread t x u = .running k p held) :
    (u = t ∧ x = .running k p held) ∨ (u ≠ t ∧ thread u = .running k p held) := by
  by_cases hut : u = t
  · subst hut
    exact Or.inl ⟨rfl, by simpa using h⟩
  · exact Or.inr ⟨hut, by simpa [Function.update_of_ne hut] using h⟩

namespace Serializes

omit [DecidableEq I] [DecidableEq T] in
/-- Nobody in a call and every lock free. -/
theorem start (unlocked : ∀ i, (s₀ i).lock = false) (good : ∀ i, P (s₀ i).data) :
    Serializes code access P (⟨s₀, fun _ => .idle⟩ : World I A D R K T Ans) s₀ where
  unlocked := unlocked
  good := good
  free := fun _ => rfl
  outside := by simp
  inside := by simp
  owner := fun h => by simp [unlocked] at h
  unique := by simp

omit [DecidableEq I] in
/-- Entering or leaving a call touches no cell. -/
theorem local_step (h : Serializes code access P w S) {t : T} {x : Thread I A Ans R K}
    (notHolding : ∀ {k p i}, w.thread t ≠ .running k p (some i))
    (outsideX : ∀ {k p held}, x = .running k p held → held = none ∧ p = code k) :
    Serializes code access P ⟨w.store, Function.update w.thread t x⟩ S where
  unlocked := h.unlocked
  good := h.good
  free := h.free
  outside := by
    intro u k p hu
    rcases thread_update hu with ⟨rfl, hx⟩ | ⟨-, hu⟩
    · exact Or.inl (outsideX hx).2
    · exact h.outside hu
  inside := by
    intro u k p i hu
    rcases thread_update hu with ⟨rfl, hx⟩ | ⟨-, hu⟩
    · exact absurd (outsideX hx).1 (by simp)
    · exact h.inside hu
  owner := by
    intro i hi
    obtain ⟨u, k, p, hu⟩ := h.owner hi
    have hut : u ≠ t := by
      rintro rfl
      exact notHolding hu
    exact ⟨u, k, p, by simpa [Function.update_of_ne hut] using hu⟩
  unique := by
    intro i u k p u' k' p' hu hu'
    rcases thread_update hu with ⟨rfl, hx⟩ | ⟨-, hu⟩
    · exact absurd (outsideX hx).1 (by simp)
    · rcases thread_update hu' with ⟨rfl, hx⟩ | ⟨-, hu'⟩
      · exact absurd (outsideX hx).1 (by simp)
      · exact h.unique hu hu'

omit [DecidableEq I] [DecidableEq T] in
/-- Nobody is inside a section on a free cell. -/
theorem not_inside (h : Serializes code access P w S) {i : I} (free : (w.store i).lock = false)
    {t : T} {k : K} {p : Code I A Ans R} : w.thread t ≠ .running k p (some i) := by
  intro holding
  have locked := (h.inside holding).1
  simp [free] at locked

omit [DecidableEq I] [DecidableEq T] in
/-- A thread about to take a lock is at the start of a section. -/
theorem begins (h : Serializes code access P w S) (sound : Sound code access P) {t : T} {k : K}
    {i : I} {next held} (at_ : w.thread t = .running k (.call (.acquire i) next) held) :
    code k = .call (.acquire i) next ∧ ∃ r, Inside i r (next ()) := by
  have atStart : .call (.acquire i) next = code k := by
    cases held with
    | none =>
        rcases h.outside at_ with atStart | ⟨j, r, -, ret⟩
        · exact atStart
        · cases ret
    | some j =>
        obtain ⟨-, -, r, -, rest⟩ := h.inside at_
        cases rest
  have shape : Sectioned (.call (.acquire i) next) := atStart ▸ sound.sectioned k
  cases shape with
  | guarded _ r rest => exact ⟨atStart.symm, r, rest⟩

/-- Once the lock is taken, the serial store has the effect of the section. -/
theorem begin_section (h : Serializes code access P w S) {t : T} {k : K} {i : I} {next held}
    {r : R} {d : D} (at_ : w.thread t = .running k (.call (.acquire i) next) held)
    (free : (w.store i).lock = false) (hcode : code k = .call (.acquire i) next)
    (rest : Inside i r (next ())) (run : effect access (next ()) (S i).data = .ok d)
    (good : P d) :
    Serializes code access P
      ⟨Function.update w.store i { w.store i with lock := true },
        Function.update w.thread t (.running k (next ()) (some i))⟩
      (Function.update S i ⟨d, false⟩) where
  unlocked := by
    intro j
    by_cases hj : j = i
    · subst hj
      simp
    · simpa [Function.update_of_ne hj] using h.unlocked j
  good := by
    intro j
    by_cases hj : j = i
    · subst hj
      simpa using good
    · simpa [Function.update_of_ne hj] using h.good j
  free := by
    intro j hfree
    by_cases hj : j = i
    · subst hj
      simp at hfree
    · simp only [Function.update_of_ne hj] at hfree ⊢
      exact h.free hfree
  outside := by
    intro u j p hu
    rcases thread_update hu with ⟨-, hx⟩ | ⟨-, old⟩
    · cases hx
    · exact h.outside old
  inside := by
    intro u j p i' hu
    rcases thread_update hu with ⟨-, hx⟩ | ⟨-, old⟩
    · cases hx
      refine ⟨by simp, ?_, r, ⟨next, hcode, rest⟩, rest⟩
      simpa [h.free free] using run
    · have hi : i' ≠ i := by
        rintro rfl
        exact h.not_inside free old
      simpa [Function.update_of_ne hi] using h.inside old
  owner := by
    intro j hlock
    by_cases hj : j = i
    · subst hj
      exact ⟨t, k, next (), by simp⟩
    · simp only [Function.update_of_ne hj] at hlock
      obtain ⟨u, l, p, hu⟩ := h.owner hlock
      have hut : u ≠ t := by
        rintro rfl
        cases at_.symm.trans hu
        obtain ⟨-, -, r', -, ended⟩ := h.inside hu
        cases ended
      exact ⟨u, l, p, by simpa [Function.update_of_ne hut] using hu⟩
  unique := by
    intro j u k₁ p₁ u' k₂ p₂ hu hu'
    rcases thread_update hu with ⟨rfl, hx⟩ | ⟨-, old⟩
    · cases hx
      rcases thread_update hu' with ⟨rfl, -⟩ | ⟨-, old'⟩
      · rfl
      · exact absurd old' (h.not_inside free)
    · rcases thread_update hu' with ⟨rfl, hx⟩ | ⟨-, old'⟩
      · cases hx
        exact absurd old (h.not_inside free)
      · exact h.unique old old'

/-- Taking a lock begins a section, and the serial store gains its effect. -/
theorem acquire_step (h : Serializes code access P w S) (sound : Sound code access P) {t : T}
    {k : K} {i : I} {next held}
    (at_ : w.thread t = .running k (.call (.acquire i) next) held)
    (free : (w.store i).lock = false) :
    ∃ S' r, (code k).exec (handle access) S = .ok (r, S') ∧
      Serializes code access P
        ⟨Function.update w.store i { w.store i with lock := true },
          Function.update w.thread t (.running k (next ()) (some i))⟩ S' := by
  obtain ⟨hcode, r, rest⟩ := h.begins sound at_
  obtain ⟨d, run, good⟩ := sound.runs hcode (h.good i)
  refine ⟨Function.update S i ⟨d, false⟩, r, ?_, h.begin_section at_ free hcode rest run good⟩
  rw [hcode]
  exact exec_guarded rest (h.unlocked i) run

/-- A step inside a section moves only its own cell along its own code. -/
theorem inside_step (h : Serializes code access P w S) {t : T} {k : K} {i : I} {p q held}
    {cell : Guarded D} (at_ : w.thread t = .running k p (some i))
    (freeCell : cell.lock = false → cell = S i)
    (restHeld : cell.lock = true → held = some i ∧ effect access q cell.data = .ok (S i).data ∧
      ∃ r, SectionOf code k i r ∧ Inside i r q)
    (restFree : cell.lock = false → held = none ∧ ∃ r, SectionOf code k i r ∧ q = .ret r) :
    Serializes code access P
      ⟨Function.update w.store i cell, Function.update w.thread t (.running k q held)⟩ S where
  unlocked := h.unlocked
  good := h.good
  free := by
    intro j hfree
    by_cases hj : j = i
    · subst hj
      simp only [Function.update_self] at hfree ⊢
      exact freeCell hfree
    · simp only [Function.update_of_ne hj] at hfree ⊢
      exact h.free hfree
  outside := by
    intro u j p' hu
    rcases thread_update hu with ⟨-, hx⟩ | ⟨-, old⟩
    · cases hx
      cases hlock : cell.lock with
      | true => exact absurd (restHeld hlock).1 (by simp)
      | false =>
          obtain ⟨-, r, section_, ret⟩ := restFree hlock
          exact Or.inr ⟨i, r, section_, ret⟩
    · exact h.outside old
  inside := by
    intro u j p' i' hu
    rcases thread_update hu with ⟨-, hx⟩ | ⟨hut, old⟩
    · cases hx
      cases hlock : cell.lock with
      | true =>
          obtain ⟨same, run, rest⟩ := restHeld hlock
          obtain rfl := Option.some.inj same
          exact ⟨by simpa using hlock, by simpa using run, rest⟩
      | false => exact absurd (restFree hlock).1 (by simp)
    · have hi : i' ≠ i := by
        rintro rfl
        exact hut (h.unique old at_)
      simpa [Function.update_of_ne hi] using h.inside old
  owner := by
    intro j hlock
    by_cases hj : j = i
    · subst hj
      simp only [Function.update_self] at hlock
      obtain ⟨rfl, -⟩ := restHeld hlock
      exact ⟨t, k, q, by simp⟩
    · simp only [Function.update_of_ne hj] at hlock
      obtain ⟨u, l, p', hu⟩ := h.owner hlock
      have hut : u ≠ t := by
        rintro rfl
        rw [at_] at hu
        injection hu with _ _ hi
        exact hj (Option.some.inj hi).symm
      exact ⟨u, l, p', by simpa [Function.update_of_ne hut] using hu⟩
  unique := by
    intro j u k₁ p₁ u' k₂ p₂ hu hu'
    have mine : ∀ {k' q'}, Thread.running k q held = .running k' q' (some j) →
        w.thread t = .running k p (some j) := by
      intro k' q' hx
      cases hx
      cases hlock : cell.lock with
      | true => rw [(restHeld hlock).1]; exact at_
      | false => exact absurd (restFree hlock).1 (by simp)
    rcases thread_update hu with ⟨rfl, hx⟩ | ⟨-, old⟩
    · rcases thread_update hu' with ⟨rfl, -⟩ | ⟨-, old'⟩
      · rfl
      · exact h.unique (mine hx) old'
    · rcases thread_update hu' with ⟨rfl, hx⟩ | ⟨-, old'⟩
      · exact h.unique old (mine hx)
      · exact h.unique old old'

omit [DecidableEq I] [DecidableEq T] in
/-- A thread about to access or to release a cell is inside its section on that cell. -/
theorem holds (h : Serializes code access P w S) (sound : Sound code access P) {t : T} {k : K}
    {op : CellOp I A} {next held} (at_ : w.thread t = .running k (.call op next) held)
    (notAcquire : ∀ i, op ≠ .acquire i) :
    ∃ i r, held = some i ∧ (w.store i).lock = true ∧
      effect access (.call op next) (w.store i).data = .ok (S i).data ∧
      SectionOf code k i r ∧ Inside i r (.call op next) := by
  cases held with
  | none =>
      rcases h.outside at_ with hcode | ⟨i, r, -, hret⟩
      · have shape : Sectioned (.call op next) := hcode ▸ sound.sectioned k
        cases shape with
        | guarded i => exact absurd rfl (notAcquire i)
      · cases hret
  | some i =>
      obtain ⟨locked, run, r, section_, rest⟩ := h.inside at_
      exact ⟨i, r, rfl, locked, run, section_, rest⟩

/-- Every step keeps a serial store for the acquisitions so far. -/
theorem step (h : Serializes code access P w S) (sound : Sound code access P)
    (log : serial code access (acquired es) s₀ = .ok S) (step : Step code access w e w') :
    ∃ S', serial code access (acquired (es ++ [e])) s₀ = .ok S' ∧
      Serializes code access P w' S' := by
  cases step with
  | @call store thread t k idle =>
      refine ⟨S, by simpa [acquired] using log, h.local_step (by simp [idle]) ?_⟩
      intro k' p held hx
      cases hx
      exact ⟨rfl, rfl⟩
  | @acquire store thread t k i next held at_ free =>
      obtain ⟨S', r, run, next⟩ := h.acquire_step sound at_ free
      refine ⟨S', ?_, next⟩
      simpa [acquired] using serial_snoc log run
  | spin at_ busy => exact ⟨S, by simpa [acquired] using log, h⟩
  | @access store thread t k i a next held x d at_ result =>
      refine ⟨S, by simpa [acquired] using log, ?_⟩
      obtain ⟨j, r, rfl, locked, run, section_, rest⟩ := h.holds sound at_ (by simp)
      cases rest with
      | access _ rest =>
          simp only [effect, result] at run
          have stillLocked : (store i).lock = true := locked
          exact h.inside_step at_ (by simp [stillLocked])
            (fun _ => ⟨rfl, run, r, section_, rest x⟩) (by simp [stillLocked])
  | @release store thread t k i next held at_ =>
      refine ⟨S, by simpa [acquired] using log, ?_⟩
      obtain ⟨j, r, rfl, locked, run, section_, rest⟩ := h.holds sound at_ (by simp)
      cases rest with
      | release ret =>
          have same : (store i).data = (S i).data := Except.ok.inj run
          have cell : (⟨(store i).data, false⟩ : Guarded D) = S i := by
            rw [same, ← h.unlocked i]
          exact h.inside_step at_ (fun _ => cell) (by simp)
            (fun _ => ⟨rfl, r, section_, ret⟩)
  | @returns store thread t k r held at_ =>
      refine ⟨S, by simpa [acquired] using log, h.local_step ?_ (by simp)⟩
      intro k' p i holding
      obtain ⟨-, -, r', -, rest⟩ := h.inside holding
      cases at_.symm.trans holding
      cases rest

/-- Every run keeps a serial store for its acquisitions. -/
theorem run (sound : Sound code access P) (unlocked : ∀ i, (s₀ i).lock = false)
    (good : ∀ i, P (s₀ i).data) (run : Run (Step code access) ⟨s₀, fun _ => .idle⟩ es w) :
    ∃ S, serial code access (acquired es) s₀ = .ok S ∧ Serializes code access P w S :=
  run.history_invariant
    (I := fun es w => ∃ S, serial code access (acquired es) s₀ = .ok S ∧
      Serializes code access P w S)
    ⟨s₀, rfl, start unlocked good⟩ fun ⟨_, log, h⟩ step => h.step sound log step

omit [DecidableEq I] [DecidableEq T] in
/-- With no thread inside a section the store is the serial one. -/
theorem store_eq (h : Serializes code access P w S)
    (outside : ∀ t k p i, w.thread t ≠ .running k p (some i)) : w.store = S := by
  funext i
  apply h.free
  cases hlock : (w.store i).lock with
  | false => rfl
  | true =>
      obtain ⟨t, k, p, hp⟩ := h.owner hlock
      exact absurd hp (outside t k p i)

end Serializes

section Completed

/-- The calls of one thread that took a lock, in order. -/
def acquiredBy (t : T) (es : List (Event I A R K T)) : List K :=
  es.flatMap fun
    | .acquire u k _ => if u = t then [k] else []
    | _ => []

/-- The calls of one thread that returned with a reply of the kind, in order. -/
def returnedBy (kind : R → Bool) (t : T) (es : List (Event I A R K T)) : List K :=
  es.flatMap fun
    | .returns u k r => if u = t ∧ kind r = true then [k] else []
    | _ => []

/-- Where a thread stands between the calls it took a lock for and those of
them that have returned. -/
inductive Ledger (code : K → Code I A Ans R) (x : Thread I A Ans R K) (taken done : List K) : Prop
  | outside (idle : x = .idle) (same : taken = done)
  | before (k : K) (entered : x = .running k (code k) none) (same : taken = done)
  | inside (k : K) (i : I) (r : R) (p : Code I A Ans R) (section_ : SectionOf code k i r)
      (rest : Inside i r p) (at_ : x = .running k p (some i)) (more : taken = done ++ [k])
  | after (k : K) (i : I) (r : R) (section_ : SectionOf code k i r)
      (at_ : x = .running k (.ret r) none) (more : taken = done ++ [k])

variable {kind : R → Bool} {t : T}

omit [DecidableEq I] in
/-- Steps of other threads do not move a thread's ledger. -/
theorem Ledger.other {u : T} {x : Thread I A Ans R K} {taken done : List K} (hut : t ≠ u)
    {thread : T → Thread I A Ans R K} (h : Ledger code (thread t) taken done) :
    Ledger code (Function.update thread u x t) taken done := by
  rwa [Function.update_of_ne hut]

omit [DecidableEq I] in
/-- A thread about to access or to release a cell has an open entry for its call. -/
theorem Ledger.holds (sectioned : ∀ k, Sectioned (code k)) {x : Thread I A Ans R K}
    {taken done : List K} (h : Ledger code x taken done) {k : K} {op : CellOp I A} {next held}
    (at_ : x = .running k (.call op next) held) (notAcquire : ∀ i, op ≠ .acquire i) :
    ∃ i r, held = some i ∧ SectionOf code k i r ∧ Inside i r (.call op next) ∧
      taken = done ++ [k] := by
  cases h with
  | outside idle => simp [at_] at idle
  | before k' entered =>
      obtain ⟨rfl, atStart, -⟩ := Thread.running.inj (at_.symm.trans entered)
      have shape : Sectioned (.call op next) := atStart ▸ sectioned k
      cases shape with
      | guarded i => exact absurd rfl (notAcquire i)
  | inside k' i r p section_ rest entered more =>
      obtain ⟨rfl, rfl, rfl⟩ := Thread.running.inj (at_.symm.trans entered)
      exact ⟨i, r, rfl, section_, rest, more⟩
  | after k' i r section_ entered => simp [at_] at entered

/-- One step moves a thread along its ledger. -/
theorem Ledger.step (sectioned : ∀ k, Sectioned (code k))
    (direct : ∀ {k r}, code k = .ret r → kind r = false)
    (guarded : ∀ {k i r}, SectionOf code k i r → kind r = true)
    (h : Ledger code (w.thread t) (acquiredBy t es) (returnedBy kind t es))
    (step : Step code access w e w') :
    Ledger code (w'.thread t) (acquiredBy t (es ++ [e])) (returnedBy kind t (es ++ [e])) := by
  simp only [acquiredBy, returnedBy, List.flatMap_append, List.flatMap_singleton] at h ⊢
  cases step with
  | @call store thread u k idle =>
      simp only [List.append_nil]
      by_cases hut : t = u
      · subst hut
        refine .before k (by simp) ?_
        cases h with
        | outside _ same => exact same
        | before _ entered => simp [idle] at entered
        | inside _ _ _ _ _ _ at_ => simp [idle] at at_
        | after _ _ _ _ at_ => simp [idle] at at_
      · exact h.other hut
  | @acquire store thread u k i next held at_ free =>
      by_cases hut : t = u
      · subst hut
        simp only [if_true, List.append_nil]
        cases h with
        | outside idle => simp [at_] at idle
        | before k' entered same =>
            obtain ⟨rfl, hcode, rfl⟩ := Thread.running.inj (at_.symm.trans entered)
            have shape : Sectioned (.call (.acquire i) next) := hcode ▸ sectioned k
            cases shape with
            | guarded _ r rest =>
                exact .inside k i r (next ()) ⟨next, hcode.symm, rest⟩ rest (by simp)
                  (by rw [same])
        | inside k' j r p _ rest entered =>
            obtain ⟨-, rfl, -⟩ := Thread.running.inj (at_.symm.trans entered)
            cases rest
        | after k' j r _ entered => simp [at_] at entered
      · simpa [Ne.symm hut] using h.other hut
  | spin => simpa using h
  | @access store thread u k i a next held x d at_ result =>
      simp only [List.append_nil]
      by_cases hut : t = u
      · subst hut
        obtain ⟨j, r, rfl, section_, rest, more⟩ := h.holds sectioned at_ (by simp)
        cases rest with
        | access _ rest => exact .inside k i r (next x) section_ (rest x) (by simp) more
      · exact h.other hut
  | @release store thread u k i next held at_ =>
      simp only [List.append_nil]
      by_cases hut : t = u
      · subst hut
        obtain ⟨j, r, rfl, section_, rest, more⟩ := h.holds sectioned at_ (by simp)
        cases rest with
        | release ret => exact .after k i r section_ (by simp [ret]) more
      · exact h.other hut
  | @returns store thread u k r held at_ =>
      by_cases hut : t = u
      · subst hut
        simp only [true_and, List.append_nil]
        cases h with
        | outside idle => simp [at_] at idle
        | before k' entered same =>
            obtain ⟨rfl, hcode, rfl⟩ := Thread.running.inj (at_.symm.trans entered)
            exact .outside (by simp) (by simp [direct hcode.symm, same])
        | inside k' j r' p section_ rest entered more =>
            obtain ⟨rfl, rfl, rfl⟩ := Thread.running.inj (at_.symm.trans entered)
            cases rest
        | after k' j r' section_ entered more =>
            obtain ⟨rfl, hret, rfl⟩ := Thread.running.inj (at_.symm.trans entered)
            obtain rfl := Program.ret.inj hret
            exact .outside (by simp) (by simp [guarded section_, more])
      · simpa [Ne.symm hut] using h.other hut

/-- A thread outside every call has returned, in the same order, exactly from
the calls it took a lock for. -/
theorem acquiredBy_eq_returnedBy (sectioned : ∀ k, Sectioned (code k))
    (direct : ∀ {k r}, code k = .ret r → kind r = false)
    (guarded : ∀ {k i r}, SectionOf code k i r → kind r = true)
    (run : Run (Step code access) ⟨s₀, fun _ => .idle⟩ es w) (idle : w.thread t = .idle) :
    acquiredBy t es = returnedBy kind t es := by
  have ledger : Ledger code (w.thread t) (acquiredBy t es) (returnedBy kind t es) :=
    run.history_invariant
      (I := fun es w => Ledger code (w.thread t) (acquiredBy t es) (returnedBy kind t es))
      (.outside rfl rfl) fun h step => h.step sectioned direct guarded step
  cases ledger with
  | outside _ same => exact same
  | before _ entered => simp [idle] at entered
  | inside _ _ _ _ _ _ at_ => simp [idle] at at_
  | after _ _ _ _ at_ => simp [idle] at at_

end Completed

end TelemetrixDb.LockSections
