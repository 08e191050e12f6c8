import TelemetrixDb.Foundation.LockProgress
import TelemetrixDb.Storage.Concurrency

/-!
# Updates come to return

An update spins on the flag of its bucket. Under a fair scheduler it can only spin
for ever when other updates enter that bucket without end, so the updates in progress
return once no more of them are made.

-/

namespace TelemetrixDb.Storage
open CMachine LockSections Program Transition

variable {h3 : H3} {c : UpdateCall} {T : Type} [DecidableEq T]

/-- An update that returns tells whether it found a bucket to visit. -/
theorem result_of_update {r : Bool} (h : Result (UpdateCall.code h3) c r) :
    r = (c.visit h3).isSome := by
  rcases h with direct | ⟨b, section_⟩
  · cases visit : c.visit h3 with
    | none => exact code_of_ret direct
    | some v =>
        rw [(code_of_visit visit).1] at direct
        cases direct
  · obtain ⟨next, hcode, rest⟩ := id section_
    obtain ⟨v, visit, -, -⟩ := section_of_code hcode
    rw [result_of_section section_, visit]
    rfl

/-- Every update in progress comes to return, with true exactly when it visits a
bucket, unless other threads enter the bucket it visits for ever. From when on no update is
called, all of them return, and the arena is then that of the calls that returned
true, one after the other in the order in which they took their locks. -/
theorem updates_return_or_contended (h3 : H3)
    {x : Execution (Step (T := T) (UpdateCall.code h3) bucketAccess)}
    (start : x.state 0 = ⟨SpatialArena.init, fun _ => .idle⟩)
    (fair : ∀ t, x.Fair (Event.MovesOf t)) :
    (∀ n t c p held, (x.state n).thread t = .running c p held →
      Eventually (fun m => x.event m = some (.returns t c (c.visit h3).isSome)) n ∨
      ∃ v, c.visit h3 = some v ∧ ∀ m, Eventually
        (fun j => ∃ u c', u ≠ t ∧ x.event j = some (.acquire u c' v.bucket)) m) ∧
    ∀ n, (∀ m t c, n ≤ m → x.event m ≠ some (.call t c)) →
      Eventually (fun m => (∀ t, (x.state m).thread t = .idle) ∧
        serial (UpdateCall.code h3) bucketAccess (acquired (x.trace m)) SpatialArena.init =
          .ok (x.state m).store ∧
        ∀ t, acquiredBy t (x.trace m) = returnedBy id t (x.trace m)) n := by
  have run (m : Nat) : Run (Step (UpdateCall.code h3) bucketAccess)
      ⟨SpatialArena.init, fun _ => .idle⟩ (x.trace m) (x.state m) := start ▸ x.run m
  have history (m : Nat) : ∃ S, serial (UpdateCall.code h3) bucketAccess (acquired (x.trace m))
      SpatialArena.init = .ok S ∧
      Serializes (UpdateCall.code h3) bucketAccess BucketData.WellFormed (x.state m) S :=
    Serializes.run (sound_update h3) (fun _ => rfl) (fun _ => BucketData.wellFormed_init) (run m)
  have serializes (m : Nat) : ∃ S,
      Serializes (UpdateCall.code h3) bucketAccess BucketData.WellFormed (x.state m) S := by
    obtain ⟨S, -, h⟩ := history m
    exact ⟨S, h⟩
  constructor
  · intro n t c p held at_
    rcases returns_or_contended (sound_update h3) serializes fair at_ with
      ⟨r, result, returns⟩ | ⟨b, r, ⟨next, hcode, -⟩, contended⟩
    · left
      rw [← result_of_update result]
      exact returns
    · obtain ⟨v, visit, rfl, -⟩ := section_of_code hcode
      exact Or.inr ⟨v, visit, contended⟩
  · intro n noCall
    apply (comes_to_rest (sound_update h3) serializes fair (active_finite (run n)) noCall).mono
    intro m _ idle
    refine ⟨idle, ?_, fun t => ?_⟩
    · obtain ⟨S, log, h⟩ := history m
      rw [h.store_eq fun t k p i => by simp [idle t]]
      exact log
    · exact acquiredBy_eq_returnedBy (sectioned_code h3) code_of_ret result_of_section (run m)
        (idle t)

theorem cell_ne_zero : (0x89754e64993ffff : UInt64) ≠ 0 := by decide

/-- Two threads contend for one bucket, and no more updates are called: the one inside
and the one that spins both come to return. -/
theorem updates_return_or_contended_two :
    let h3 := H3.oneCell 0x89754e64993ffff cell_ne_zero
    let c : UpdateCall := ⟨.zero, .zero, .zero, 1700000000⟩
    let b := bucketOf 0x89754e64993ffff
    ∃ x : Execution (Step (T := Bool) (UpdateCall.code h3) bucketAccess),
      x.trace 4 = [.call false c, .call true c, .acquire false c b, .spin true] ∧
      Eventually (fun m => (∀ t, (x.state m).thread t = .idle) ∧
        serial (UpdateCall.code h3) bucketAccess (acquired (x.trace m)) SpatialArena.init =
          .ok (x.state m).store ∧
        ∀ t, acquiredBy t (x.trace m) = returnedBy id t (x.trace m)) 4 := by
  intro h3 c b
  have code : c.code h3 = .call (.acquire b) fun _ => sectionCode b _ c.speed c.timestamp :=
    update_found _ rfl
  let w₀ : World (Fin bucketCount) BucketOp BucketData Bool UpdateCall Bool BucketAns :=
    ⟨SpatialArena.init, fun _ => .idle⟩
  let entered : Bool → Thread (Fin bucketCount) BucketOp BucketAns Bool UpdateCall :=
    Function.update (Function.update w₀.thread false (.running c (c.code h3) none))
      true (.running c (c.code h3) none)
  have at_ (t : Bool) : entered t = .running c (.call (.acquire b) fun _ =>
      sectionCode b 0x89754e64993ffff c.speed c.timestamp) none := by
    cases t <;> simp [entered, code]
  have calls : Run (Step (UpdateCall.code h3) bucketAccess) w₀ [.call false c, .call true c]
      ⟨SpatialArena.init, entered⟩ :=
    ((Run.refl w₀).snoc (Step.call c rfl)).snoc (Step.call (t := true) c rfl)
  have inside := calls.snoc (Step.acquire (at_ false) rfl)
  have contended := inside.snoc (Step.spin (t := true)
    ((Function.update_of_ne (by simp) _ _).trans (at_ true)) (by simp))
  obtain ⟨x, begins, -, trace, fair, only⟩ := contended.extends_fair Event.MovesOf
  refine ⟨x, trace, (updates_return_or_contended h3 begins fair).2 4 fun m t c' later call => ?_⟩
  obtain ⟨u, called⟩ := only m _ later call
  exact called

end TelemetrixDb.Storage
