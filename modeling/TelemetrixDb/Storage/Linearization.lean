import TelemetrixDb.Foundation.LockLinearization
import TelemetrixDb.Storage.Progress

/-!
# Updates are linearizable

An update takes effect when it takes the lock of its bucket. At every instant, also
while threads are inside their sections, the buckets that nobody holds are those of
the updates that have taken a lock, one after the other in this order.

-/

namespace TelemetrixDb.Storage
open CMachine LockSections Program Transition

variable {h3 : H3} {T : Type} [DecidableEq T]
variable {es : List (Event (Fin bucketCount) BucketOp Bool UpdateCall T)}
variable {w : World (Fin bucketCount) BucketOp BucketData Bool UpdateCall T BucketAns}

/-- An update returns whether the lookup succeeds, and when it does, it took the lock of its
bucket once, after it was called and before it returned. Nobody takes a lock but for the
update that it is in. And at every point of a run the updates that have taken a lock,
one after the other in the order in which they did, leave each bucket that is free as
it is. -/
theorem updates_linearizable (h3 : H3)
    (run : Run (Step (UpdateCall.code h3) bucketAccess) ⟨SpatialArena.init, fun _ => .idle⟩ es w) :
    (∀ before t c r after, es = before ++ .returns t c r :: after →
      r = (c.visit h3).isSome ∧ ∀ v, c.visit h3 = some v → Taken t c v.bucket before) ∧
    (∀ before t c b after, es = before ++ .acquire t c b :: after → Entered t c before) ∧
    ∃ S, serial (UpdateCall.code h3) bucketAccess (acquired es) SpatialArena.init = .ok S ∧
      ∀ b, (w.store b).lock = false → w.store b = S b := by
  refine ⟨?_, ?_, ?_⟩
  · rintro before t c r after rfl
    have standing := taken_of_returns (sectioned_code h3) run
    have result : Result (UpdateCall.code h3) c r :=
      standing.imp And.left fun ⟨b, section_, _⟩ => ⟨b, section_⟩
    refine ⟨result_of_update result, fun v visit => ?_⟩
    rcases standing with ⟨direct, -⟩ | ⟨b, ⟨next, hcode, -⟩, taken⟩
    · rw [(code_of_visit visit).1] at direct
      cases direct
    · obtain ⟨v', visit', rfl, -⟩ := section_of_code hcode
      obtain rfl := Option.some.inj (visit.symm.trans visit')
      exact taken
  · rintro before t c b after rfl
    exact entered_of_acquire (sectioned_code h3) run
  · obtain ⟨S, log, h⟩ := Serializes.run (sound_update h3) (fun _ => rfl)
      (fun _ => BucketData.wellFormed_init) run
    exact ⟨S, log, fun b free => h.free free⟩

/-- An update that returns while another thread spins took its lock in between. -/
theorem updates_linearizable_contended :
    let h3 := H3.oneCell 0x89754e64993ffff cell_ne_zero
    let c : UpdateCall := ⟨.zero, .zero, .zero, 1700000000⟩
    ∃ w : World (Fin bucketCount) BucketOp BucketData Bool UpdateCall Bool BucketAns, ∃ before,
      Run (Step (UpdateCall.code h3) bucketAccess) ⟨SpatialArena.init, fun _ => .idle⟩
        (before ++ [.returns false c true]) w ∧
      .spin true ∈ before ∧ Taken false c (bucketOf 0x89754e64993ffff) before := by
  intro h3 c
  obtain ⟨v, visit, bucket⟩ : ∃ v, c.visit h3 = some v ∧ v.bucket = bucketOf 0x89754e64993ffff :=
    ⟨_, rfl, rfl⟩
  obtain ⟨code, -⟩ := code_of_visit visit
  let entered : Bool → Thread (Fin bucketCount) BucketOp BucketAns Bool UpdateCall :=
    Function.update (Function.update (fun _ => .idle) false (.running c (c.code h3) none))
      true (.running c (c.code h3) none)
  have at_ (t : Bool) : entered t = .running c (.call (.acquire v.bucket) fun _ =>
      sectionCode v.bucket v.cell c.speed c.timestamp) none := by
    cases t <;> simp [entered, code]
  have calls : Run (Step (UpdateCall.code h3) bucketAccess) ⟨SpatialArena.init, fun _ => .idle⟩
      [.call false c, .call true c] ⟨SpatialArena.init, entered⟩ :=
    ((Run.refl _).snoc (Step.call c rfl)).snoc (Step.call (t := true) c rfl)
  have inside := calls.snoc (Step.acquire (at_ false) rfl)
  have contended := inside.snoc (Step.spin (t := true)
    ((Function.update_of_ne (by simp) _ _).trans (at_ true)) (by simp))
  obtain ⟨d, ran, -⟩ := (sound_update h3).runs code BucketData.wellFormed_init
  let held : SpatialArena := Function.update SpatialArena.init v.bucket ⟨.init, true⟩
  have here : effect bucketAccess (sectionCode v.bucket v.cell c.speed c.timestamp)
      (held v.bucket).data = .ok d := by
    simpa [held] using ran
  have section_ : ∃ fs, Run (Step (UpdateCall.code h3) bucketAccess) ⟨held, _⟩ fs ⟨_, _⟩ :=
    section_runs inside_sectionCode (Function.update_self false
      (.running c (sectionCode v.bucket v.cell c.speed c.timestamp) (some v.bucket)) entered) here
  obtain ⟨fs, section_⟩ := section_
  have run := (contended.trans section_).snoc (Step.returns (Function.update_self false _ _))
  refine ⟨_, _, run, by simp, ?_⟩
  rw [← bucket]
  exact ((updates_linearizable h3 run).1 _ false c true [] rfl).2 v visit

end TelemetrixDb.Storage
