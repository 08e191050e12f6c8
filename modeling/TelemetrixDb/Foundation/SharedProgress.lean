import TelemetrixDb.Foundation.FairClients

/-!
# Some waiter goes on

When several threads wait on one condition a notice may wake any of them, and a
thread that enters may overtake them all, so fair scheduling answers no particular
call. But while the calls of a kind finish, and one of them is awake whenever one
sleeps, some call of the kind comes to be answered.

-/

namespace TelemetrixDb.Monitor
open Transition

variable {S T C W α F Op L : Type} {R : Op → Type} {Q : L → Type} [DecidableEq T]
variable {body : S → (op : Op) → Except F (Outcome S C (R op))}
variable {own : (l : L) → W → Q l → W → Prop} {resume : α → Option (Client R Q α)}
variable {s s' : System S T C W α R Q} {e : SystemEvent T C R Q} {σ : Config S T Op C}

section Rousing

/-- When a call of the kind sleeps, a call of the kind may take the lock. -/
def Roused (kind : Op → Prop) (σ : Config S T Op C) : Prop :=
  ∀ t op c, σ.phase t = .blocked op c → kind op → ∃ u op', kind op' ∧ (σ.phase u).Wants op'

variable {s₀ : S} {es : List (Event T Op C R)}

/-- A thread in the queue of a condition was sent there by its operation. -/
theorem sent_to_wait (run : Run (Step body) (Config.start s₀) es σ) {t : T} {op : Op} {c : C}
    (queued : σ.phase t = .blocked op c ∨ σ.phase t = .woken op c) :
    ∃ s, body s op = .ok (.wait c) := by
  have stationed : Stationed c (fun op => ∃ s, body s op = .ok (.wait c)) σ.phase := by
    refine run.invariant (I := fun σ : Config S T Op C =>
      Stationed c (fun op => ∃ s, body s op = .ok (.wait c)) σ.phase) ?_ ?_
    · intro t op h
      simp [Config.start] at h
    · exact fun h step => h.step (fun waits => ⟨_, waits⟩) step
  exact stationed t op queued

/-- Units that are left keep the waiters of their condition roused. -/
theorem Accounts.roused [Fintype T] [DecidableEq C] {I : S → Prop} {c : C} {waitsOn : Op → Prop}
    {units : S → Nat} (acc : Accounts body I c waitsOn units) (inv : I s₀)
    (run : Run (Step body) (Config.start s₀) es σ) (left : 0 < units σ.shared) :
    Roused waitsOn σ := by
  intro t op c' asleep waiter
  obtain ⟨s, waits⟩ := sent_to_wait run (Or.inl asleep)
  obtain rfl := acc.only waiter waits
  have covered := acc.covered inv run ⟨t, by rw [asleep]; rfl⟩
  obtain ⟨u, hu⟩ := Finset.card_pos.mp (left.trans_le covered)
  obtain ⟨op', woken⟩ := Phase.wokenOn_iff.mp (mem_wokenSet.mp hu)
  obtain ⟨s', waits'⟩ := sent_to_wait run (Or.inr woken)
  refine ⟨u, op', acc.stationed waits', ?_⟩
  rw [woken]
  rfl

omit [DecidableEq T] in
theorem Awake.roused (awake : Awake σ.phase) (kind : Op → Prop) : Roused kind σ := by
  intro t op c asleep
  exact absurd (by rw [asleep]; rfl) (awake t c)

end Rousing

section Steps

/-- The event is the end of a call of the kind. -/
def SystemEvent.Answers (kind : Op → Prop) : SystemEvent T C R Q → Prop
  | .shared (.returns _ op _) => kind op
  | _ => False

/-- Only the end of a call changes the shared state. -/
theorem ClientStep.shared_cases (step : ClientStep body own resume s e s') :
    s'.monitor.shared = s.monitor.shared ∨ ∃ t op reply notice,
      e = .shared (.returns t op reply) ∧
      body s.monitor.shared op = .ok (.done s'.monitor.shared reply notice) := by
  cases step with
  | call _ step =>
      cases step
      exact Or.inl rfl
  | waits step =>
      cases step
      exact Or.inl rfl
  | spurious step =>
      cases step
      exact Or.inl rfl
  | returns _ step =>
      cases step with
      | returns _ run _ => exact Or.inr ⟨_, _, _, _, rfl, run⟩
  | own => exact Or.inl rfl
  | again => exact Or.inl rfl

/-- A thread falls asleep by a step of its own that finds it has to wait. -/
theorem ClientStep.awake_cases {t : T} (step : ClientStep body own resume s e s')
    (awake : ∀ c, ¬ (s.monitor.phase t).BlockedOn c) :
    (∀ c, ¬ (s'.monitor.phase t).BlockedOn c) ∨ ∃ op c, e = .shared (.waits t op c) := by
  cases step with
  | @call σ τ code world u op next at_ step =>
      cases step with
      | @call x phase _ _ free =>
          refine Or.inl fun c => ?_
          by_cases hut : t = u
          · subst hut
            simp [Phase.BlockedOn]
          · simpa [Function.update_of_ne hut] using awake c
  | @waits σ τ code world u op c step =>
      cases step with
      | @waits x phase _ _ _ wants run =>
          by_cases hut : t = u
          · subst hut
            exact Or.inr ⟨op, c, rfl⟩
          · exact Or.inl fun c => by simpa [Function.update_of_ne hut] using awake c
  | @spurious σ τ code world u step =>
      cases step with
      | @spurious x phase _ op c asleep =>
          refine Or.inl fun c => ?_
          by_cases hut : t = u
          · subst hut
            simp [Phase.BlockedOn]
          · simpa [Function.update_of_ne hut] using awake c
  | @returns σ τ code world u op reply next at_ step =>
      cases step with
      | @returns x phase _ _ x' _ notice chosen wants run wakes =>
          refine Or.inl fun c asleep => ?_
          exact awake c (blockedOn_of_returned asleep).1
  | own => exact Or.inl awake
  | again => exact Or.inl awake

end Steps

section Answers

variable {x : Execution (ClientStep (T := T) body own resume)} {n : Nat}
variable {kind : Op → Prop} {ready : S → Prop}

/-- At instant `m` a call of the kind ends. -/
def Answers (x : Execution (ClientStep (T := T) body own resume)) (kind : Op → Prop) (m : Nat) :
    Prop :=
  ∃ e, x.event m = some e ∧ e.Answers kind

/-- At instant `m` some thread is at a call of the kind. -/
def Asks (x : Execution (ClientStep (T := T) body own resume)) (kind : Op → Prop) (m : Nat) :
    Prop :=
  ∃ t op next, (x.state m).code t = .call (.shared op) next ∧ kind op

/-- In these states the calls of the kind finish, and only they lead out of them. -/
structure Serves (body : S → (op : Op) → Except F (Outcome S C (R op))) (kind : Op → Prop)
    (ready : S → Prop) : Prop where
  finishes : ∀ {s op}, ready s → kind op →
    ∃ s' reply notice, body s op = .ok (.done s' reply notice)
  stays : ∀ {s op s' reply notice}, ready s → ¬ kind op →
    body s op = .ok (.done s' reply notice) → ready s'

omit [DecidableEq T] in
/-- What serves calls of a refined monitor serves them in those that refine it. -/
theorem Refines.serves {A G : Type} {abstractBody : A → (op : Op) → Except G (Outcome A C (R op))}
    {related : S → A → Prop} (refines : Refines body abstractBody related) {ready : A → Prop}
    (serves : Serves abstractBody kind ready) :
    Serves body kind fun s => ∃ a, related s a ∧ ready a where
  finishes := by
    rintro s op ⟨a, h, isReady⟩ mine
    obtain ⟨a', reply, notice, finishes⟩ := serves.finishes isReady mine
    obtain ⟨o, o', run, abstractRun, rel⟩ := refines h op
    obtain rfl := Except.ok.inj (finishes.symm.trans abstractRun)
    cases rel with
    | done _ => exact ⟨_, reply, notice, run⟩
  stays := by
    rintro s op s' reply notice ⟨a, h, isReady⟩ other run
    obtain ⟨o, o', ran, abstractRun, rel⟩ := refines h op
    obtain rfl := Except.ok.inj (run.symm.trans ran)
    cases rel with
    | done h' => exact ⟨_, h', serves.stays isReady other abstractRun⟩

/-- A thread that is awake at a call of the kind, in a state that serves them. -/
structure AtHand (ready : S → Prop) (t : T) (op : Op) (next : R op → Client R Q α)
    (s : System S T C W α R Q) : Prop where
  at_ : s.code t = .call (.shared op) next
  awake : ∀ c, ¬ (s.monitor.phase t).BlockedOn c
  ready : ready s.monitor.shared

omit [DecidableEq T] in
theorem Serves.canFinish (serves : Serves body kind ready) {t : T} {op : Op}
    {next : R op → Client R Q α} (mine : kind op) (h : AtHand ready t op next s) :
    CanFinish body s.monitor t op :=
  ⟨h.awake, serves.finishes h.ready mine⟩

variable (synced : ∀ m, Synced (x.state m).monitor.phase (x.state m).code)
include synced

/-- A thread awake at a call of the kind stays so until some call of the kind ends,
and its own moves before that are to enter the call. -/
theorem AtHand.next (serves : Serves body kind ready) {t : T} {op : Op}
    {next : R op → Client R Q α} (mine : kind op) {m : Nat}
    (h : AtHand ready t op next (x.state m)) (notYet : ¬ Answers x kind m) :
    AtHand ready t op next (x.state (m + 1)) ∧
      (((x.state (m + 1)).monitor.phase t).pending = ((x.state m).monitor.phase t).pending ∨
        ((x.state m).monitor.phase t).pending = none) ∧
      ∀ e, x.event m = some e → e.MovesOf t →
        ((x.state m).monitor.phase t).pending = none ∧
        ((x.state (m + 1)).monitor.phase t).pending ≠ none := by
  rcases x.tick_cases m with ⟨event, same⟩ | ⟨e, event, taken⟩
  · refine ⟨same ▸ h, Or.inl (by rw [same]), fun e event' => ?_⟩
    cases event.symm.trans event'
  have ready' : ready (x.state (m + 1)).monitor.shared := by
    rcases taken.shared_cases with same | ⟨u, op', reply, notice, rfl, ran⟩
    · rw [same]
      exact h.ready
    · exact serves.stays h.ready (fun other => notYet ⟨_, event, other⟩) ran
  obtain ⟨x', reply, notice, finishes⟩ := serves.finishes h.ready mine
  have awake' : ∀ c, ¬ ((x.state (m + 1)).monitor.phase t).BlockedOn c := by
    refine (taken.awake_cases h.awake).resolve_right ?_
    rintro ⟨op', c, rfl⟩
    cases moved_at synced event rfl with
    | sleeps before waits =>
        cases h.at_.symm.trans before
        cases waits.symm.trans finishes
  by_cases moves : e.MovesOf t
  · cases moved_at synced event moves with
    | enters before free inside same =>
        have idle : ((x.state m).monitor.phase t).pending = none := by rw [free]; rfl
        refine ⟨⟨same.trans h.at_, awake', ready'⟩, Or.inr idle, fun _ _ _ => ⟨idle, ?_⟩⟩
        simp [inside]
    | sleeps before waits =>
        cases h.at_.symm.trans before
        cases waits.symm.trans finishes
    | returns before =>
        cases h.at_.symm.trans before
        exact absurd ⟨_, event, mine⟩ notYet
    | own before => cases h.at_.symm.trans before
    | again before => cases h.at_.symm.trans before
  · obtain ⟨code, pending, -⟩ := taken.still moves
    refine ⟨⟨code.trans h.at_, awake', ready'⟩, Or.inl pending, fun e' event' moves' => ?_⟩
    cases event.symm.trans event'
    exact absurd moves' moves

/-- From a thread awake at a call of the kind some call of the kind comes to end. -/
theorem AtHand.answers (serves : Serves body kind ready) {t : T} {op : Op}
    {next : R op → Client R Q α} (mine : kind op) (fair : x.Fair (SystemEvent.MovesOf t))
    (h : AtHand ready t op next (x.state n)) : Eventually (Answers x kind) n := by
  let inside (m : Nat) : Prop := ((x.state m).monitor.phase t).pending ≠ none
  have enabled {m : Nat} (h : AtHand ready t op next (x.state m)) :
      Enabled (ClientStep body own resume) (SystemEvent.MovesOf t) (x.state m) :=
    enabled_shared (synced m) h.at_ (serves.canFinish mine h)
  have enters : Eventually (fun m => Answers x kind m ∨
      AtHand ready t op next (x.state m) ∧ inside m) n := by
    apply fair.eventually (p := fun m => AtHand ready t op next (x.state m)) h
    · exact fun m _ h _ => enabled h
    · intro m _ h notYet
      exact Or.inl (h.next synced serves mine fun now => notYet (Or.inl now)).1
    · intro m e _ h event moves
      by_cases now : Answers x kind m
      · exact Or.inl (Or.inl now)
      · obtain ⟨after, -, entered⟩ := h.next synced serves mine now
        exact Or.inr (Or.inr ⟨after, (entered e event moves).2⟩)
  refine enters.next fun k _ reached => ?_
  rcases reached with now | ⟨h, within⟩
  · exact .now now
  apply fair.eventually (p := fun m => AtHand ready t op next (x.state m) ∧ inside m) ⟨h, within⟩
  · exact fun m _ ⟨h, _⟩ _ => enabled h
  · intro m _ ⟨h, within⟩ notYet
    obtain ⟨after, same, -⟩ := h.next synced serves mine notYet
    refine Or.inl ⟨after, ?_⟩
    rcases same with same | outside
    · exact fun none => within (same.symm.trans none)
    · exact absurd outside within
  · intro m e _ ⟨h, within⟩ event moves
    by_cases now : Answers x kind m
    · exact Or.inl now
    · exact absurd ((h.next synced serves mine now).2.2 e event moves).1 within

/-- Where calls of a kind are served and roused, a thread at one of them brings some
call of the kind to its end, if every thread is scheduled fairly. -/
theorem Serves.answers (serves : Serves body kind ready) (fair : ∀ t, x.Fair (SystemEvent.MovesOf t))
    (roused : Roused kind (x.state n).monitor) (now : ready (x.state n).monitor.shared)
    (asks : Asks x kind n) : Eventually (Answers x kind) n := by
  obtain ⟨t, op, next, at_, mine⟩ := asks
  by_cases asleep : ∃ c, ((x.state n).monitor.phase t).BlockedOn c
  · obtain ⟨c, blocked⟩ := asleep
    obtain ⟨op', asleep⟩ := Phase.blockedOn_iff.mp blocked
    obtain ⟨next', at'⟩ := synced n t op' (by rw [asleep]; rfl)
    cases at_.symm.trans at'
    obtain ⟨u, op', theirs, wants⟩ := roused t _ c asleep mine
    obtain ⟨next', at'⟩ := synced n u op' wants.pending
    exact AtHand.answers synced serves theirs (fair u) ⟨at', wants.not_blockedOn, now⟩
  · exact AtHand.answers synced serves mine (fair t) ⟨at_, fun c h => asleep ⟨c, h⟩, now⟩

end Answers

end TelemetrixDb.Monitor
