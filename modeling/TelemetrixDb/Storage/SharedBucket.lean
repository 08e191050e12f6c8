import TelemetrixDb.Storage.Concurrency
import TelemetrixDb.Storage.Routing

/-!
# One lock and one window for all cells

Cells of resolution 9 share one bucket. So among threads that update the arena the
flags of all buckets are one lock, and the arena is one window: the samples of the
updates at the last cell since another cell was updated, wherever the vehicles are.

-/

namespace TelemetrixDb.Storage
open CMachine LockSections Program Transition

/-- The bucket of every cell of resolution 9. -/
def sharedBucket : Fin bucketCount := Fin.last 131071

variable {h3 : H3}

/-- The library answers with cells of resolution 9. -/
def H3.ResNine (h3 : H3) : Prop :=
  ∀ geo, (h3.latLngToCell geo h3Resolution).1 = 0 →
    IsResNine (h3.latLngToCell geo h3Resolution).2

theorem visit_bucket (resNine : h3.ResNine) {c : UpdateCall} {v : Visit}
    (h : c.visit h3 = some v) : v.bucket = sharedBucket := by
  have found := visit_cell h
  rw [UpdateCall.lookup] at found
  have layout : IsResNine v.cell := by
    simpa [found] using resNine _ (congrArg Prod.fst found)
  exact bucketOf_of_resNine layout

/-- The section of a call is on the shared bucket. -/
theorem section_bucket (resNine : h3.ResNine) {c : UpdateCall} {b : Fin bucketCount} {r : Bool}
    (h : SectionOf (UpdateCall.code h3) c b r) : b = sharedBucket := by
  obtain ⟨next, hcode, -⟩ := h
  obtain ⟨v, visit, rfl, -⟩ := section_of_code hcode
  exact visit_bucket resNine visit

/-- All visits are in the shared bucket. -/
theorem arenaAfter_resNine (resNine : h3.ResNine) (calls : List UpdateCall) :
    arenaAfter (visits h3 calls) =
      Function.update SpatialArena.init sharedBucket ⟨contents (visits h3 calls), false⟩ := by
  have routed (v : Visit) (hv : v ∈ visits h3 calls) : v.bucket = sharedBucket := by
    obtain ⟨c, -, visit⟩ := List.mem_filterMap.mp hv
    exact visit_bucket resNine visit
  funext b
  by_cases hb : b = sharedBucket
  · subst hb
    have all : (visits h3 calls).filter (fun v => v.bucket = sharedBucket) = visits h3 calls := by
      rw [List.filter_eq_self]
      intro v hv
      simpa using routed v hv
    rw [arenaAfter, all, Function.update_self]
  · have none : (visits h3 calls).filter (fun v => v.bucket = b) = [] := by
      rw [List.filter_eq_nil_iff]
      intro v hv
      simpa [routed v hv] using Ne.symm hb
    rw [arenaAfter, none, Function.update_of_ne hb]
    rfl

variable {T : Type} [DecidableEq T] {es : List (Event (Fin bucketCount) BucketOp Bool UpdateCall T)}
variable {w : World (Fin bucketCount) BucketOp BucketData Bool UpdateCall T BucketAns}

/-- However many threads update the arena, at most one of them is inside a section of
any bucket, every bucket but the shared one stays as constructed, and whenever nobody
is inside, the shared one holds the samples that the calls that took a lock left at
the last cell since another cell was updated. -/
theorem updates_share_one_window (h3 : H3) (resNine : h3.ResNine)
    (run : Run (Step (UpdateCall.code h3) bucketAccess) ⟨SpatialArena.init, fun _ => .idle⟩ es w) :
    (∀ b t c p b' t' c' p', w.thread t = .running c p (some b) →
      w.thread t' = .running c' p' (some b') → t = t' ∧ b = sharedBucket) ∧
    (∀ b, b ≠ sharedBucket → w.store b = SpatialArena.init b) ∧
    ((∀ t c p b, w.thread t ≠ .running c p (some b)) →
      w.store = Function.update SpatialArena.init sharedBucket
        ⟨contents (visits h3 (acquired es)), false⟩) := by
  obtain ⟨S, log, h⟩ := Serializes.run (sound_update h3) (fun _ => rfl)
    (fun _ => BucketData.wellFormed_init) run
  have serial_ : S = Function.update SpatialArena.init sharedBucket
      ⟨contents (visits h3 (acquired es)), false⟩ := by
    rw [← arenaAfter_resNine resNine]
    exact Except.ok.inj (log.symm.trans (serial_calls _))
  have shared {t c p b} (inside : w.thread t = .running c p (some b)) : b = sharedBucket := by
    obtain ⟨-, -, r, section_, -⟩ := h.inside inside
    exact section_bucket resNine section_
  refine ⟨?_, ?_, ?_⟩
  · intro b t c p b' t' c' p' inside inside'
    obtain rfl := shared inside
    obtain rfl := shared inside'
    exact ⟨h.unique inside inside', rfl⟩
  · intro b hb
    have free : (w.store b).lock = false := by
      cases hlock : (w.store b).lock with
      | false => rfl
      | true =>
          obtain ⟨t, c, p, inside⟩ := h.owner hlock
          exact absurd (shared inside) hb
    rw [h.free free, serial_, Function.update_of_ne hb]
  · intro outside
    rw [h.store_eq outside, serial_]

theorem twoSiblings_all_resNine : twoSiblings.ResNine := fun geo _ => twoSiblings_resNine geo

/-- Two threads update different cells: one is inside, the other spins. -/
theorem updates_share_one_window_siblings :
    ∃ c c', twoBuses = [c, c'] ∧ (c.lookup twoSiblings).2 ≠ (c'.lookup twoSiblings).2 ∧
    ∃ w : World (Fin bucketCount) BucketOp BucketData Bool UpdateCall Bool BucketAns,
      Run (Step (UpdateCall.code twoSiblings) bucketAccess) ⟨SpatialArena.init, fun _ => .idle⟩
        [.call false c, .call true c', .acquire false c sharedBucket, .spin true] w ∧
      ∀ b, b ≠ sharedBucket → w.store b = SpatialArena.init b := by
  obtain ⟨c, c', buses, different, found, found'⟩ : ∃ c c', twoBuses = [c, c'] ∧
      (c.lookup twoSiblings).2 ≠ (c'.lookup twoSiblings).2 ∧
      c.lookup twoSiblings = (0, 0x89754e64993ffff) ∧
      c'.lookup twoSiblings = (0, 0x89754e64983ffff) :=
    ⟨_, _, rfl, by decide, by decide, by decide⟩
  refine ⟨c, c', buses, different, ?_⟩
  have code : c.code twoSiblings = .call (.acquire sharedBucket) fun _ =>
      sectionCode sharedBucket 0x89754e64993ffff c.speed c.timestamp := update_found _ found
  have code' : c'.code twoSiblings = .call (.acquire sharedBucket) fun _ =>
      sectionCode sharedBucket 0x89754e64983ffff c'.speed c'.timestamp := update_found _ found'
  let entered : Bool → Thread (Fin bucketCount) BucketOp BucketAns Bool UpdateCall :=
    Function.update (Function.update (fun _ => .idle) false (.running c (c.code twoSiblings) none))
      true (.running c' (c'.code twoSiblings) none)
  have calls : Run (Step (UpdateCall.code twoSiblings) bucketAccess)
      ⟨SpatialArena.init, fun _ => .idle⟩ [.call false c, .call true c']
      ⟨SpatialArena.init, entered⟩ :=
    ((Run.refl _).snoc (Step.call c rfl)).snoc (Step.call (t := true) c' rfl)
  have first : entered false = .running c (.call (.acquire sharedBucket) fun _ =>
      sectionCode sharedBucket 0x89754e64993ffff c.speed c.timestamp) none := by
    simp [entered, code]
  have second : entered true = .running c' (.call (.acquire sharedBucket) fun _ =>
      sectionCode sharedBucket 0x89754e64983ffff c'.speed c'.timestamp) none := by
    simp [entered, code']
  have inside := calls.snoc (Step.acquire first rfl)
  have run := inside.snoc (Step.spin (t := true) ((Function.update_of_ne (by simp) _ _).trans
    second) (by simp))
  exact ⟨_, run, (updates_share_one_window twoSiblings twoSiblings_all_resNine run).2.1⟩

end TelemetrixDb.Storage
