import TelemetrixDb.Storage.History

/-!
# What a reader of a bucket can tell

A window has a write position and no count. A reader therefore sees the recent
samples up to the question whether a blank slot was never written or holds the
defaults of a sample without speed and timestamp, and sees their timestamps as
narrowed to 32 bits.

-/

namespace TelemetrixDb.Storage
open CMachine LockSections Window

/-- The last 60 samples since the bucket last changed cell, oldest first. -/
def recentSamples (vs : List Visit) : List Sample := recent 60 ((trailing vs).map Visit.sample)

/-- The timestamps of the updates since the bucket last changed cell. -/
def times (vs : List Visit) : List UInt64 := (trailing vs).map fun v => v.call.timestamp

/-- The written timestamps of a window after `n` samples, oldest first: from
`head` around the circle once every slot is written, and from slot 0 to the one
before `head` until then. -/
def TimeWindow.oldestFirst (n : Nat) (w : TimeWindow) : List UInt32 :=
  if 60 ≤ n then List.ofFn fun i : Fin 60 => w.timestamps (slotOf 60 (w.head.toNat + i))
  else (List.ofFn w.timestamps).take w.head.toNat

variable {vs ws : List Visit}

theorem trailing_of_same {cell : UInt64} (h : ∀ v ∈ vs, v.cell = cell) : trailing vs = vs := by
  rw [trailing, List.rtakeWhile_eq_self_iff]
  intro v hv
  have last : lastCell vs = cell := by
    have nonempty : vs ≠ [] := List.ne_nil_of_mem hv
    simpa [lastCell, List.getLast?_eq_some_getLast nonempty] using h _ (List.getLast_mem nonempty)
  simp [last, h v hv]

/-- In a world of one cell every call visits it. -/
theorem routed_oneCell {cell : UInt64} (hcell : cell ≠ 0) (calls : List UpdateCall) :
    routed (.oneCell cell hcell) (bucketOf cell) calls =
      calls.map fun c => ⟨c, cell, hcell⟩ := by
  have visit : UpdateCall.visit (.oneCell cell hcell) = some ∘ fun c => ⟨c, cell, hcell⟩ := rfl
  rw [routed, visits, visit, List.filterMap_eq_map, List.filter_eq_self]
  intro v hv
  obtain ⟨c, -, rfl⟩ := List.mem_map.mp hv
  simp [Visit.bucket]

theorem trailing_oneCell {cell : UInt64} (hcell : cell ≠ 0) (calls : List UpdateCall) :
    trailing (routed (.oneCell cell hcell) (bucketOf cell) calls) =
      calls.map fun c => ⟨c, cell, hcell⟩ := by
  rw [routed_oneCell]
  apply trailing_of_same
  intro v hv
  obtain ⟨c, -, rfl⟩ := List.mem_map.mp hv
  rfl

theorem lastCell_oneCell {cell : UInt64} (hcell : cell ≠ 0) {calls : List UpdateCall}
    (nonempty : calls ≠ []) :
    lastCell (routed (.oneCell cell hcell) (bucketOf cell) calls) = cell := by
  rw [routed_oneCell, lastCell, List.getLast?_map, List.getLast?_eq_some_getLast nonempty]
  rfl

section Recovery

/-- One bucket's contents are equal exactly when its cells and windows are. -/
theorem contents_eq_iff (cell : lastCell vs = lastCell ws) :
    contents vs = contents ws ↔ windowOf vs = windowOf ws := by
  constructor
  · intro h
    exact ofWindow_injective (congrArg BucketData.window h)
  · intro h
    rw [contents, contents, cell, h]

/-- When two histories of a bucket end in one cell and differ in their recent
samples, the contents of the bucket differ too, except where one window is not
full, the other is, both stand at the same position, and the recent samples of
the full one are the other's after a blank sample for each unwritten slot. -/
theorem contents_determine_recent (h3 : H3) (b : Fin bucketCount)
    {calls calls' : List UpdateCall} {arena arena' : SpatialArena}
    (run : serial (UpdateCall.code h3) bucketAccess calls SpatialArena.init = .ok arena)
    (run' : serial (UpdateCall.code h3) bucketAccess calls' SpatialArena.init = .ok arena')
    (sameCell : (arena b).data.h3Index = (arena' b).data.h3Index)
    (differ : recentSamples (routed h3 b calls) ≠ recentSamples (routed h3 b calls')) :
    let xs := (trailing (routed h3 b calls)).map Visit.sample
    let ys := (trailing (routed h3 b calls')).map Visit.sample
    (arena b).data = (arena' b).data ↔ Blanks 60 .blank xs ys ∨ Blanks 60 .blank ys xs := by
  intro xs ys
  obtain rfl := Except.ok.inj ((serial_calls calls).symm.trans run)
  obtain rfl := Except.ok.inj ((serial_calls calls').symm.trans run')
  calc
    contents (routed h3 b calls) = contents (routed h3 b calls') ↔
        written 60 .blank xs = written 60 .blank ys := contents_eq_iff sameCell
    _ ↔ Blanks 60 .blank xs ys ∨ Blanks 60 .blank ys xs := written_eq_iff_blanks differ

/-- One standing bus and two records of it leave different contents. -/
theorem contents_determine_recent_one_two :
    let h3 := H3.oneCell 0x89754e64993ffff (by decide)
    let b := bucketOf 0x89754e64993ffff
    let c : UpdateCall := ⟨.zero, .zero, .zero, 0⟩
    ∃ arena arena',
      serial (UpdateCall.code h3) bucketAccess [c] SpatialArena.init = .ok arena ∧
      serial (UpdateCall.code h3) bucketAccess [c, c] SpatialArena.init = .ok arena' ∧
      (arena b).data ≠ (arena' b).data := by
  intro h3 b c
  have one : trailing (routed h3 b [c]) = [⟨c, _, _⟩] := trailing_oneCell (by decide) [c]
  have two : trailing (routed h3 b [c, c]) = [⟨c, _, _⟩, ⟨c, _, _⟩] :=
    trailing_oneCell (by decide) [c, c]
  refine ⟨_, _, serial_calls [c], serial_calls [c, c], fun same => ?_⟩
  have cells : lastCell (routed h3 b [c]) = lastCell (routed h3 b [c, c]) :=
    (lastCell_oneCell _ (by simp)).trans (lastCell_oneCell _ (by simp)).symm
  have confused := (contents_determine_recent h3 b (serial_calls [c]) (serial_calls [c, c]) cells
    (by rw [recentSamples, recentSamples, one, two]; decide)).mp same
  rw [one, two] at confused
  rcases confused with h | h
  · exact absurd h.full (by decide)
  · exact absurd h.full (by decide)

/-- A window does not tell one default sample from 61. -/
theorem contents_confuse_defaults :
    ¬ ∀ (h3 : H3) (b : Fin bucketCount) (calls calls' : List UpdateCall)
      (arena arena' : SpatialArena),
      serial (UpdateCall.code h3) bucketAccess calls SpatialArena.init = .ok arena →
      serial (UpdateCall.code h3) bucketAccess calls' SpatialArena.init = .ok arena' →
      (arena b).data.h3Index = (arena' b).data.h3Index →
      recentSamples (routed h3 b calls) ≠ recentSamples (routed h3 b calls') →
      (arena b).data ≠ (arena' b).data := by
  intro always
  let h3 := H3.oneCell 0x89754e64993ffff (by decide)
  let b := bucketOf 0x89754e64993ffff
  let c : UpdateCall := ⟨.zero, .zero, .zero, 0⟩
  have one : (trailing (routed h3 b [c])).map Visit.sample = [.blank] := by
    rw [trailing_oneCell]
    rfl
  have many : (trailing (routed h3 b (List.replicate 61 c))).map Visit.sample =
      List.replicate 61 .blank := by
    rw [trailing_oneCell, List.map_map, List.map_replicate]
    rfl
  have cells : lastCell (routed h3 b [c]) = lastCell (routed h3 b (List.replicate 61 c)) :=
    (lastCell_oneCell _ (by simp)).trans (lastCell_oneCell _ (by simp)).symm
  refine always h3 b [c] (List.replicate 61 c) _ _ (serial_calls _) (serial_calls _) cells ?_ ?_
  · rw [recentSamples, recentSamples, one, many]
    decide
  · have same : windowOf (routed h3 b [c]) = windowOf (routed h3 b (List.replicate 61 c)) := by
      rw [windowOf, windowOf, one, many]
      exact Blanks.written_eq ⟨by decide, by decide, by decide, by decide⟩
    exact (contents_eq_iff cells).mpr same

end Recovery

section EventOrder

/-- The reading is the recent timestamps, narrowed, in the order of the updates. -/
theorem oldestFirst_contents (vs : List Visit) :
    (contents vs).window.oldestFirst (times vs).length =
      (recent 60 (times vs)).map UInt64.toUInt32 := by
  have items : recent 60 (times vs) = (recent 60 (trailing vs)).map fun v => v.call.timestamp :=
    recent_map _
  have samples : recent 60 ((trailing vs).map Visit.sample) =
      (recent 60 (trailing vs)).map Visit.sample := recent_map _
  have narrowed : (recent 60 (times vs)).map UInt64.toUInt32 =
      (recent 60 ((trailing vs).map Visit.sample)).map Sample.timestamp := by
    rw [items, samples, List.map_map, List.map_map]
    rfl
  have length : (times vs).length = ((trailing vs).map Visit.sample).length := by
    simp [times]
  rw [narrowed, TimeWindow.oldestFirst, length]
  split
  · next full =>
      rw [← around_full full, around, List.map_ofFn, contents, BucketData.holding,
        ofWindow_head_toNat]
      rfl
  · next short =>
      have head : (contents vs).window.head.toNat = ((trailing vs).map Visit.sample).length := by
        rw [contents_head, ← List.length_map Visit.sample, Nat.mod_eq_of_lt (by omega)]
      rw [← take_slots (by omega), head, List.map_take, List.map_ofFn]
      rfl

/-- The timestamps agree above their low 32 bits. -/
def SameEpoch (ts : List UInt64) : Prop := ∀ t ∈ ts, ∀ u ∈ ts, t.toNat / 2 ^ 32 = u.toNat / 2 ^ 32

instance (ts : List UInt64) : Decidable (SameEpoch ts) :=
  have (t : UInt64) : Decidable (∀ u ∈ ts, t.toNat / 2 ^ 32 = u.toNat / 2 ^ 32) :=
    List.decidableBAll _ ts
  List.decidableBAll _ ts

theorem toUInt32_mono {t u : UInt64} (epoch : t.toNat / 2 ^ 32 = u.toNat / 2 ^ 32) (h : t ≤ u) :
    t.toUInt32 ≤ u.toUInt32 := by
  rw [UInt64.le_iff_toNat_le] at h
  rw [UInt32.le_iff_toNat_le, UInt64.toNat_toUInt32, UInt64.toNat_toUInt32]
  omega

/-- Within one epoch narrowing keeps the order. -/
theorem pairwise_toUInt32 {ts : List UInt64} (ordered : ts.Pairwise (· ≤ ·))
    (epoch : SameEpoch ts) : (ts.map UInt64.toUInt32).Pairwise (· ≤ ·) := by
  rw [List.pairwise_map]
  exact ordered.imp_of_mem fun ht hu h => toUInt32_mono (epoch _ ht _ hu) h

theorem first_le {first : UInt64} {ts : List UInt64} (ordered : ts.Pairwise (· ≤ ·))
    (hfirst : ts.head? = some first) : ∀ t ∈ ts, first ≤ t := by
  obtain ⟨rest, rfl⟩ := List.head?_eq_some_iff.mp hfirst
  intro t ht
  rcases List.mem_cons.mp ht with rfl | ht
  · exact UInt64.le_refl t
  · exact List.rel_of_pairwise_cons ordered ht

theorem le_last {last : UInt64} {ts : List UInt64} (ordered : ts.Pairwise (· ≤ ·))
    (hlast : ts.getLast? = some last) : ∀ t ∈ ts, t ≤ last := by
  obtain ⟨init, rfl⟩ := List.getLast?_eq_some_iff.mp hlast
  intro t ht
  rcases List.mem_append.mp ht with ht | ht
  · exact (List.pairwise_append.mp ordered).2.2 t ht last (by simp)
  · obtain rfl := List.mem_singleton.mp ht
    exact UInt64.le_refl t

/-- Ordered timestamps that span less than an epoch and are still ordered after
narrowing are in one epoch. -/
theorem sameEpoch_of_pairwise {first last : UInt64} {ts : List UInt64}
    (ordered : ts.Pairwise (· ≤ ·)) (hfirst : ts.head? = some first)
    (hlast : ts.getLast? = some last) (span : last.toNat < first.toNat + 2 ^ 32)
    (narrowed : (ts.map UInt64.toUInt32).Pairwise (· ≤ ·)) : SameEpoch ts := by
  have le : ∀ t ∈ ts, first.toNat ≤ t.toNat ∧ t.toNat ≤ last.toNat := fun t ht =>
    ⟨UInt64.le_iff_toNat_le.mp (first_le ordered hfirst t ht),
      UInt64.le_iff_toNat_le.mp (le_last ordered hlast t ht)⟩
  have low : first.toNat % 2 ^ 32 ≤ last.toNat % 2 ^ 32 := by
    by_cases same : first = last
    · rw [same]
    · obtain ⟨rest, rfl⟩ := List.head?_eq_some_iff.mp hfirst
      have mem : last ∈ rest := by
        rcases List.mem_cons.mp (List.mem_of_getLast? hlast) with h | h
        · exact absurd h.symm same
        · exact h
      rw [List.pairwise_map] at narrowed
      have h := UInt32.le_iff_toNat_le.mp (List.rel_of_pairwise_cons narrowed mem)
      rwa [UInt64.toNat_toUInt32, UInt64.toNat_toUInt32] at h
  intro t ht u hu
  have ht := le t ht
  have hu := le u hu
  omega

/-- The written slots of a bucket, read oldest to newest, hold the recent
timestamps modulo `2 ^ 32` in the order of the updates. Where these did not
decrease, neither do the stored ones as long as the recent timestamps lie in one
epoch of `2 ^ 32` seconds, and if they span less than an epoch only then. -/
theorem window_keeps_event_order (h3 : H3) (b : Fin bucketCount) {calls : List UpdateCall}
    {arena : SpatialArena}
    (run : serial (UpdateCall.code h3) bucketAccess calls SpatialArena.init = .ok arena) :
    let ts := times (routed h3 b calls)
    let stored := (arena b).data.window.oldestFirst ts.length
    stored = (recent 60 ts).map UInt64.toUInt32 ∧
      (ts.Pairwise (· ≤ ·) →
        (SameEpoch (recent 60 ts) → stored.Pairwise (· ≤ ·)) ∧
        ∀ first last, (recent 60 ts).head? = some first → (recent 60 ts).getLast? = some last →
          last.toNat < first.toNat + 2 ^ 32 → stored.Pairwise (· ≤ ·) →
          SameEpoch (recent 60 ts)) := by
  intro ts stored
  obtain rfl := Except.ok.inj ((serial_calls calls).symm.trans run)
  have reading : stored = (recent 60 ts).map UInt64.toUInt32 := oldestFirst_contents _
  refine ⟨reading, fun ordered => ?_⟩
  have recentOrdered : (recent 60 ts).Pairwise (· ≤ ·) := ordered.sublist (List.drop_sublist _ _)
  rw [reading]
  exact ⟨pairwise_toUInt32 recentOrdered, fun first last => sameEpoch_of_pairwise recentOrdered⟩

/-- Two updates of one bus, one second apart. -/
theorem window_keeps_event_order_two :
    let h3 := H3.oneCell 0x89754e64993ffff (by decide)
    let b := bucketOf 0x89754e64993ffff
    let calls : List UpdateCall :=
      [⟨.zero, .zero, .zero, 1700000000⟩, ⟨.zero, .zero, .zero, 1700000001⟩]
    ∃ arena, serial (UpdateCall.code h3) bucketAccess calls SpatialArena.init = .ok arena ∧
      ((arena b).data.window.oldestFirst 2).Pairwise (· ≤ ·) := by
  intro h3 b calls
  have ts : times (routed h3 b calls) = [1700000000, 1700000001] := by
    rw [times, trailing_oneCell]
    rfl
  have order := (window_keeps_event_order h3 b (serial_calls calls)).2
  rw [ts] at order
  exact ⟨_, serial_calls calls, (order (by decide)).1 (by decide)⟩

/-- Two updates on the two sides of an epoch are read in the wrong order. -/
theorem window_reverses_across_epochs :
    ¬ ∀ (h3 : H3) (b : Fin bucketCount) (calls : List UpdateCall) (arena : SpatialArena),
      serial (UpdateCall.code h3) bucketAccess calls SpatialArena.init = .ok arena →
      (times (routed h3 b calls)).Pairwise (· ≤ ·) →
      ((arena b).data.window.oldestFirst (times (routed h3 b calls)).length).Pairwise (· ≤ ·) := by
  intro always
  let h3 := H3.oneCell 0x89754e64993ffff (by decide)
  let b := bucketOf 0x89754e64993ffff
  let calls : List UpdateCall :=
    [⟨.zero, .zero, .zero, 4294967295⟩, ⟨.zero, .zero, .zero, 4294967296⟩]
  have ts : times (routed h3 b calls) = [4294967295, 4294967296] := by
    rw [times, trailing_oneCell]
    rfl
  have stored := always h3 b calls _ (serial_calls calls) (by rw [ts]; decide)
  change ((contents (routed h3 b calls)).window.oldestFirst _).Pairwise _ at stored
  rw [oldestFirst_contents, ts] at stored
  exact absurd stored (by decide)

end EventOrder

end TelemetrixDb.Storage
