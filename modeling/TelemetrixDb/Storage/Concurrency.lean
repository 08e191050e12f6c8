import TelemetrixDb.Storage.History

/-!
# Concurrent updates are serializable per bucket

Every call to `update` is at most one section on one bucket, and its section runs
to its end on any data that updates leave. So the rule for sections under locks
applies to the arena: interleaved calls leave what the same calls leave in the
order in which they took their locks.

-/

namespace TelemetrixDb.Storage
open CMachine LockSections Program Transition

variable {h3 : H3} {c : UpdateCall} {d : BucketData}

theorem BucketData.wellFormed_init : BucketData.init.WellFormed := ⟨0, .fresh .blank, rfl⟩

theorem sectioned_code (h3 : H3) (c : UpdateCall) : Sectioned (c.code h3) := by
  cases hv : c.visit h3 with
  | none =>
      rw [code_of_visit_none hv]
      exact .direct false
  | some v =>
      rw [(code_of_visit hv).1]
      exact .guarded v.bucket true inside_sectionCode

/-- A call that takes a lock runs the section of its visit. -/
theorem section_of_code {b : Fin bucketCount} {next : Unit → BucketCode}
    (h : c.code h3 = .call (.acquire b) next) :
    ∃ v, c.visit h3 = some v ∧ b = v.bucket ∧
      next () = sectionCode v.bucket v.cell c.speed c.timestamp := by
  cases hv : c.visit h3 with
  | none =>
      rw [code_of_visit_none hv] at h
      cases h
  | some v =>
      rw [(code_of_visit hv).1] at h
      injection h with hop hnext
      injection hop with hb
      exact ⟨v, rfl, hb.symm, (congrFun hnext ()).symm⟩

theorem sound_update (h3 : H3) :
    Sound (UpdateCall.code h3) bucketAccess BucketData.WellFormed where
  sectioned := sectioned_code h3
  runs := by
    rintro c b next d hcode ⟨cell, w, rfl⟩
    obtain ⟨v, -, -, hnext⟩ := section_of_code hcode
    rw [hnext]
    exact ⟨_, effect_sectionCode, _, _, rfl⟩

theorem code_of_ret {r : Bool} (h : c.code h3 = .ret r) : r = false := by
  cases hv : c.visit h3 with
  | none =>
      rw [code_of_visit_none hv] at h
      injection h with hr
      exact hr.symm
  | some v =>
      rw [(code_of_visit hv).1] at h
      cases h

theorem result_of_section {b : Fin bucketCount} {r : Bool}
    (h : SectionOf (UpdateCall.code h3) c b r) : r = true := by
  obtain ⟨next, hcode, rest⟩ := h
  obtain ⟨d, ends, -⟩ := (sound_update h3).runs hcode BucketData.wellFormed_init
  obtain ⟨v, -, rfl, hnext⟩ := section_of_code hcode
  rw [hnext] at rest ends
  exact rest.result_unique inside_sectionCode ends

variable {T : Type} [DecidableEq T] {es : List (Event (Fin bucketCount) BucketOp Bool UpdateCall T)}
variable {w : World (Fin bucketCount) BucketOp BucketData Bool UpdateCall T BucketAns}

/-- At most one thread is inside the section of a bucket, and the bucket's flag
is set exactly while one is. No access of a section fails. A thread that returns
from a call holds no bucket. While no thread is inside a section the arena is
that of the calls that took a lock, run one after the other in the order in which
they took it: each bucket has the samples that they leave there. These are for each
idle thread the calls that returned true. -/
theorem updates_serializable (h3 : H3)
    (run : Run (Step (UpdateCall.code h3) bucketAccess) ⟨SpatialArena.init, fun _ => .idle⟩ es w) :
    (∀ b t c p t' c' p', w.thread t = .running c p (some b) →
      w.thread t' = .running c' p' (some b) → t = t') ∧
    (∀ b, (w.store b).lock = true ↔ ∃ t c p, w.thread t = .running c p (some b)) ∧
    (∀ t c b op next held, w.thread t = .running c (.call (.access b op) next) held →
      ∃ x d, bucketAccess op (w.store b).data = .ok (x, d)) ∧
    (∀ t c r held, w.thread t = .running c (.ret r) held → held = none) ∧
    ((∀ t c p b, w.thread t ≠ .running c p (some b)) →
      serial (UpdateCall.code h3) bucketAccess (acquired es) SpatialArena.init = .ok w.store ∧
      w.store = arenaAfter (visits h3 (acquired es)) ∧ ∀ b, (w.store b).lock = false) ∧
    ∀ t, w.thread t = .idle → acquiredBy t es = returnedBy id t es := by
  obtain ⟨S, log, h⟩ := Serializes.run (sound_update h3) (fun _ => rfl)
    (fun _ => BucketData.wellFormed_init) run
  refine ⟨fun b t c p t' c' p' => h.unique, ?_, ?_, ?_, ?_, ?_⟩
  · intro b
    constructor
    · exact h.owner
    · rintro ⟨t, c, p, inside⟩
      exact (h.inside inside).1
  · intro t c b op next held at_
    obtain ⟨b', r, -, -, effect_, -, rest⟩ := h.holds (sound_update h3) at_ (by simp)
    cases rest with
    | access _ rest =>
        simp only [effect] at effect_
        cases hstep : bucketAccess op (w.store b).data with
        | ok result => exact ⟨result.1, result.2, rfl⟩
        | error e => simp [hstep] at effect_
  · intro t c r held at_
    cases held with
    | none => rfl
    | some b =>
        obtain ⟨-, -, r', -, rest⟩ := h.inside at_
        cases rest
  · intro outside
    rw [h.store_eq outside]
    exact ⟨log, Except.ok.inj (log.symm.trans (serial_calls _)), h.unlocked⟩
  · intro t idle
    exact acquiredBy_eq_returnedBy (sectioned_code h3) code_of_ret result_of_section run idle

/-- Two threads update the same bucket: one is inside, the other spins. -/
theorem updates_serializable_contended :
    let h3 := H3.oneCell 0x89754e64993ffff (by decide)
    let c : UpdateCall := ⟨.zero, .zero, .zero, 1700000000⟩
    let b := bucketOf 0x89754e64993ffff
    ∃ w : World (Fin bucketCount) BucketOp BucketData Bool UpdateCall Bool BucketAns,
      Run (Step (UpdateCall.code h3) bucketAccess) ⟨SpatialArena.init, fun _ => .idle⟩
        [.call false c, .call true c, .acquire false c b, .spin true] w ∧
      ∃ t c p, w.thread t = .running c p (some b) := by
  intro h3 c b
  have code : c.code h3 = .call (.acquire b) fun _ => sectionCode b _ c.speed c.timestamp :=
    update_found _ rfl
  let entered : Bool → Thread (Fin bucketCount) BucketOp BucketAns Bool UpdateCall :=
    Function.update (Function.update (fun _ => .idle) false (.running c (c.code h3) none))
      true (.running c (c.code h3) none)
  have at_ : ∀ t, entered t = .running c (.call (.acquire b) fun _ =>
      sectionCode b 0x89754e64993ffff c.speed c.timestamp) none := by
    intro t
    cases t <;> simp [entered, code]
  have calls : Run (Step (UpdateCall.code h3) bucketAccess)
      ⟨SpatialArena.init, fun _ => .idle⟩ [.call false c, .call true c]
      ⟨SpatialArena.init, entered⟩ :=
    ((Run.refl _).snoc (Step.call c rfl)).snoc (Step.call (t := true) c rfl)
  have inside := calls.snoc (Step.acquire (at_ false) rfl)
  have run := inside.snoc (Step.spin (t := true) ((Function.update_of_ne (by simp) _ _).trans
    (at_ true)) (by simp))
  exact ⟨_, run, ((updates_serializable h3 run).2.1 b).mp (by simp)⟩

end TelemetrixDb.Storage
