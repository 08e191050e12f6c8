import TelemetrixDb.Engine.HeapEngine
import TelemetrixDb.Engine.StoreDelivery

/-!
# The engine on its heap goes on

An unending execution with the heap is followed by one over payloads that is as fair. So
what the engine over payloads comes to, the engine on its heap comes to as well, with the
payloads that it reads from its blocks, and it comes to free each of them.

-/

namespace TelemetrixDb.Engine
open CMachine Monitor Ingestion Storage Transition

variable {T : Type} [DecidableEq T] {h3 : H3} {unpack : Bytes → Option FeedMessage}
variable {stack : Nat → Nat → VehicleData} {network : Nat → Fetch}
variable {rb : Ring.RingBuffer VehicleData} {tables : Tables}
variable {initial : Nat → Option Bytes} {leaks : Nat} {hold : Hold}
variable {code : Thread T → HeapCode Turn} {code' : Thread T → EngineCode Turn} {heap : Heap}
variable {t : Thread T}
variable {structAllocated : Bool} {malloc : Ring.Malloc VehicleData}

omit [DecidableEq T] in
/-- A thread on the heap is at a call of its own, or where the thread over payloads is. -/
theorem Paired.level (h : Paired initial leaks hold code code' heap) (t : Thread T) :
    (∃ l next, code t = .call (.own l) next) ∨
    (∃ a, code t = .ret a ∧ code' t = .ret a) ∨
    ∃ call next next', code t = .call (.shared call) next ∧
      code' t = .call (.shared call) next' := by
  by_cases ht : t = .ingestion
  · subst ht
    obtain ⟨kept, pairs, -⟩ := h.ingestion
    generalize code .ingestion = p at pairs
    generalize code' .ingestion = q at pairs
    cases pairs with
    | ret a => exact Or.inr (Or.inl ⟨a, rfl, rfl⟩)
    | shared => exact Or.inr (Or.inr ⟨_, _, _, rfl, rfl⟩)
    | sleep | fetch | read | free => exact Or.inl ⟨_, _, rfl⟩
  · rw [h.others t ht]
    generalize code' t = q
    cases q with
    | ret a => exact Or.inr (Or.inl ⟨a, rfl, rfl⟩)
    | call op next =>
        cases op with
        | shared call => exact Or.inr (Or.inr ⟨_, _, _, rfl, rfl⟩)
        | own l => exact Or.inl ⟨_, _, rfl⟩

/-- Whether the next step of the code reads a payload. -/
def reading : HeapCode Turn → Nat
  | .call (.own (.read _ _)) _ => 1
  | _ => 0

/-- A payload is read once. -/
theorem Pairs.reading_done {p : Nat} {payload : Bytes} {heapCode : HeapCode Turn}
    {engineCode : EngineCode Turn} (h : Pairs (.block true p payload) heapCode engineCode) :
    reading heapCode = 0 := by
  cases h <;> rfl

namespace Stands

variable {es : List (HeapEvent T)} {c c' : HeapState T} {es' : List (EngineEvent T)}
variable {a : EngineState T}

/-- Each call of a thread's own is answered. -/
theorem answered (h : Stands h3 unpack stack network rb tables initial es c es' a)
    {l : HeapOp} {next} (at_ : c.code t = .call (.own l) next) :
    ∃ y w, HeapOwn h3 network l c.world y w := by
  obtain ⟨hold, paired, -⟩ := h.paired
  have succeeds := paired.succeeds at_
  cases l with
  | fetchGtfsData =>
      obtain ⟨⟨ptr, size, heap'⟩, ran⟩ := succeeds (network c.world.fetches)
      exact ⟨(ptr, size), ⟨c.world.engine, heap', c.world.fetches + 1⟩, ran, rfl, rfl⟩
  | read p size =>
      obtain ⟨payload, loaded⟩ := succeeds
      exact ⟨payload, c.world, loaded, rfl⟩
  | free p =>
      obtain ⟨heap', freed⟩ := succeeds
      exact ⟨(), ⟨c.world.engine, heap', c.world.fetches⟩, freed, rfl, rfl⟩
  | engine l =>
      by_cases ht : t = .ingestion
      · subst ht
        obtain ⟨kept, pairs, -⟩ := paired.ingestion
        rw [at_] at pairs
        generalize a.code .ingestion = q at pairs
        cases pairs with
        | sleep => exact ⟨(), c.world, rfl, rfl, rfl⟩
      · have may := callsOnly_reached h.run t
        have same := paired.others t ht
        rw [at_] at same
        generalize a.code t = q at may same
        cases q with
        | ret => cases same
        | call op next' =>
            cases op with
            | shared call => cases same
            | own l' =>
                cases same
                have mine : ConsumerOwn l := by
                  cases t with
                  | ingestion => exact absurd rfl ht
                  | main => cases l <;> first | exact trivial | exact may.1.elim
                  | signaller => exact may.1.elim
                obtain ⟨y, w, ran⟩ := consumer_answered h.run mine
                rw [h.world] at ran
                cases l with
                | fetchGtfsData | free | sleep => exact mine.elim
                | update | count | index | display =>
                    exact ⟨y, ⟨w, c.world.heap, c.world.fetches⟩, ran, rfl, rfl⟩

/-- A thread that can move over payloads can move on the heap. -/
theorem enabled (h : Stands h3 unpack stack network rb tables initial es c es' a)
    (can : Enabled (EngineStep h3 unpack stack) (SystemEvent.MovesOf t) a) :
    Enabled (HeapStep h3 unpack stack network) (SystemEvent.MovesOf t) c := by
  obtain ⟨hold, paired, -⟩ := h.paired
  rcases paired.level t with ⟨l, next, at_⟩ | ⟨turn, at_, at'⟩ | ⟨call, next, next', at_, at'⟩
  · exact enabled_own at_ (h.answered at_)
  · obtain ⟨e, a', mine, step⟩ := can
    obtain ⟨σ, heapCode, w⟩ := c
    obtain rfl := h.monitor
    cases step with
    | call here =>
        obtain rfl := mine
        cases at'.symm.trans here
    | waits step => exact ⟨_, _, mine, .waits step⟩
    | spurious => exact mine.elim
    | returns here =>
        obtain rfl := mine
        cases at'.symm.trans here
    | own here =>
        obtain rfl := mine
        cases at'.symm.trans here
    | again here more =>
        obtain rfl := mine
        cases at'.symm.trans here
        obtain ⟨p, more'⟩ : ∃ p, heapResume unpack stack turn = some p := by
          cases turn with
          | ingestionDone => cases more
          | _ => exact ⟨_, rfl⟩
        exact enabled_again at_ more'
  · obtain ⟨e, a', mine, step⟩ := can
    obtain ⟨σ, heapCode, w⟩ := c
    obtain rfl := h.monitor
    cases step with
    | call here step =>
        obtain rfl := mine
        cases at'.symm.trans here
        exact ⟨.shared (.call _ _), _, rfl, .call at_ step⟩
    | waits step => exact ⟨_, _, mine, .waits step⟩
    | spurious => exact mine.elim
    | returns here step =>
        obtain rfl := mine
        cases at'.symm.trans here
        exact ⟨.shared (.returns _ _ _), _, rfl, .returns at_ step⟩
    | own here =>
        obtain rfl := mine
        cases at'.symm.trans here
    | again here =>
        obtain rfl := mine
        cases at'.symm.trans here

/-- A step of a thread is seen, or it was the reading of a payload. -/
theorem seen (h : Stands h3 unpack stack network rb tables initial es c es' a)
    {e : HeapEvent T} {o : Option (EngineEvent T)} (step : HeapStep h3 unpack stack network c e c')
    (mine : e.MovesOf t) (view : Seen e o) :
    (∃ f, o = some f ∧ f.MovesOf t) ∨ reading (c'.code t) < reading (c.code t) := by
  cases view with
  | shared e =>
      refine Or.inl ⟨_, rfl, ?_⟩
      cases e <;> exact mine
  | own | fetch | free | again => exact Or.inl ⟨_, rfl, mine⟩
  | read u p size payload =>
      obtain rfl := mine
      obtain ⟨hold, paired, -⟩ := h.paired
      cases step with
      | own at_ ran =>
          have isIngestion : u = .ingestion := by
            by_contra other
            have same := paired.others u other
            dsimp only at same
            rw [at_] at same
            generalize a.code u = q at same
            cases q with
            | ret => cases same
            | call op => cases op <;> cases same
          subst isIngestion
          obtain ⟨kept, pairs, -, here⟩ := paired.ingestion
          dsimp only at pairs here
          rw [at_] at pairs
          generalize a.code .ingestion = q at pairs
          cases pairs with
          | read rest =>
              cases here with
              | @block _ _ _ _ old spare block text inside =>
                  have live : _ = some old := (congrFun block p).trans (Function.update_self ..)
                  have loaded := ran.1
                  rw [Heap.load_live live inside, text] at loaded
                  cases loaded
                  right
                  simp only [Function.update_self, at_, rest.reading_done]
                  exact Nat.zero_lt_one

end Stands

/-- Every execution on the heap is followed by one over payloads, as fair to each thread. -/
theorem exists_stands {x : Execution (HeapStep (T := T) h3 unpack stack network)}
    (begins : x.state 0 = heapStart rb tables heap) :
    ∃ y : Execution (EngineStep (T := T) h3 unpack stack), y.state 0 = start rb tables ∧
      y.Follows x (Stands h3 unpack stack network rb tables heap.block) Seen ∧
      ∀ t, x.Fair (SystemEvent.MovesOf t) → y.Fair (SystemEvent.MovesOf t) := by
  have first := stands_start h3 unpack stack network rb tables (T := T) heap
  obtain ⟨y, begins', follows⟩ := x.exists_follows stands_answers (begins ▸ first)
  refine ⟨y, begins', follows, fun t fair => ?_⟩
  refine follows.fair (fun c => reading (c.code t)) (fun stands => stands.enabled)
    (fun stands step mine view => stands.seen step mine view) ?_ fair
  intro c e c' step other
  exact (congrArg reading (step.still other).1).le

omit [DecidableEq T] in
/-- At a download nothing is held, and the heap has no payload. -/
theorem Paired.at_download (h : Paired initial leaks hold code code' heap) {next'}
    (at_ : code' .ingestion = .call (.own .fetchGtfsData) next') :
    hold = .nothing ∧ Leaked initial leaks heap.block ∧
      ∃ next, code .ingestion = .call (.own .fetchGtfsData) next := by
  obtain ⟨kept, pairs, leaked, here⟩ := h.ingestion
  rw [at_] at pairs
  generalize code .ingestion = p at pairs
  cases pairs with
  | fetch =>
      cases here with
      | nothing same => exact ⟨rfl, same ▸ leaked, _, rfl⟩
  | @read p payload next _ rest =>
      generalize next payload = p' at rest
      cases rest

theorem mem_texts {payload : Bytes} {rawProtobuf : Option Bytes}
    (h : payload ∈ texts rawProtobuf) : rawProtobuf = some payload := by
  cases rawProtobuf with
  | none => cases h
  | some data =>
      obtain ⟨mem, -⟩ := List.mem_filter.mp h
      exact congrArg some (List.mem_singleton.mp mem).symm

/-- The lengths of the texts are the sizes that are not 0. -/
theorem length_texts (fetched : List (Option Bytes)) :
    (fetched.flatMap texts).map List.length =
      ((fetched.map (Option.map List.length)).filterMap id).filter (0 < ·) := by
  induction fetched with
  | nil => rfl
  | cons rawProtobuf rest ih =>
      rw [List.flatMap_cons, List.map_append, ih]
      cases rawProtobuf with
      | none => rfl
      | some payload => cases payload <;> rfl

section Executions

variable {x : Execution (HeapStep (T := T) h3 unpack stack network)}

/-- An execution on the heap that schedules the ingestion thread and the consumer fairly
and in which no shutdown is asked for comes to download after download. At each of them
what has been read is what `fetch_gtfs_data` returned pointers to, download `k` when it met
`network k`, but for those without a text; and the heap has no payload, but the blocks from
before and one for each download that returned a block without text. Each payload read is
one that such a download returned, the whole body when libcurl keeps its promise about it,
and each known record of it whose lookup succeeds comes to be the newest sample of its
bucket. -/
theorem heap_engine_goes_on
    (init : Ring.bufferInit structAllocated malloc (.lit 1024) = some rb)
    (begins : x.state 0 = heapStart rb tables heap)
    (ingestion : x.Fair (SystemEvent.MovesOf .ingestion))
    (main : x.Fair (SystemEvent.MovesOf .main))
    (isOpen : ∀ m, (x.state m).monitor.shared.shutdown = false) :
    (∀ n, Eventually (fun m => n ≤ ((x.trace m).flatMap downloads).length ∧
      (∃ next, (x.state m).code .ingestion = .call (.own .fetchGtfsData) next) ∧
      (∀ base, (x.trace m).flatMap readIn =
        ((List.range ((x.trace m).flatMap downloads).length).map fun k =>
          payloadOf (network k) base).flatMap texts) ∧
      ((x.trace m).flatMap readIn).map List.length =
        (((x.trace m).flatMap downloads).filterMap id).filter (0 < ·) ∧
      Leaked heap.block (emptyDownloads (x.trace m)) (x.state m).world.heap.block) n) ∧
    ∀ n payload, payload ∈ (x.trace n).flatMap readIn →
      (∃ k < ((x.trace n).flatMap downloads).length,
        (∀ base, payloadOf (network k) base = some payload) ∧
        ∀ body, (network k).transfer.Honest body [] → payload = body) ∧
      ∀ bus v, bus ∈ contribution unpack (some payload) → Known bus →
        (updateCall bus).visit h3 = some v →
        ∃ m, Newest ((x.state m).world.engine.arena v.bucket).data v.cell
          (updateCall bus).sample := by
  obtain ⟨y, begins', follows, fairness⟩ := exists_stands begins
  have fair : FairThreads y := ⟨fairness _ ingestion, fairness _ main⟩
  have isOpen' (m : Nat) : (y.state m).monitor.shared.shutdown = false := by
    rw [(follows.related m).monitor]
    exact isOpen m
  constructor
  · intro n
    refine (downloads_go_on begins' init fair isOpen' n n).next fun m later enough => ?_
    refine (comes_to_download begins' init fair isOpen' m).mono fun k since ⟨turn, at_⟩ => ?_
    have stands := follows.related k
    obtain ⟨hold, paired, reads⟩ := stands.paired
    obtain ⟨rfl, leaked, here⟩ := paired.at_download at_
    have all : (fetched (y.trace k)).flatMap texts = (x.trace k).flatMap readIn :=
      reads.trans (List.append_nil _)
    refine ⟨?_, here, fun base => ?_, ?_, leaked⟩
    · rw [← stands.sizes, List.length_map]
      exact enough.trans (fetched_grows since).length_le
    · rw [← stands.payloads base, all]
    · rw [← stands.sizes, ← length_texts, all]
  · intro n payload isRead
    have stands := follows.related n
    obtain ⟨hold, -, reads⟩ := stands.paired
    obtain ⟨rawProtobuf, isFetched, text⟩ : ∃ rawProtobuf ∈ fetched (y.trace n),
        payload ∈ texts rawProtobuf := by
      rw [← List.mem_flatMap, reads]
      exact List.mem_append_left _ isRead
    obtain rfl := mem_texts text
    obtain ⟨k, inside, isAt⟩ := List.mem_iff_getElem.mp isFetched
    have brings := stands.payloadText_of_getElem (List.getElem?_eq_some_iff.mpr ⟨inside, isAt⟩)
    rw [← List.length_map, stands.sizes] at inside
    refine ⟨⟨k, inside, fun base => (payloadOf_eq _ _).trans brings,
      fun body honest => payloadText_whole honest brings⟩, fun bus v inPayload known visit => ?_⟩
    have inFeed : bus ∈ feed unpack (y.trace n) :=
      List.mem_flatMap.mpr ⟨some payload, isFetched, inPayload⟩
    obtain ⟨m, newest⟩ := comes_to_be_newest init begins' fair isOpen' inFeed known visit
    rw [(follows.related m).world] at newest
    exact ⟨m, newest⟩

/-- The bus of a payload of two bytes comes to be the newest of its bucket. -/
theorem heap_engine_goes_on_two_bytes : ∃ rb made,
    ∃ x : Execution (HeapStep (T := Empty) oneH3 (fun _ => some oneMessage) (fun _ _ => zeroBus)
      fun _ => twoBytes),
      x.state 0 = heapStart rb (fun _ _ => none) made ∧
      ∃ m, Newest ((x.state m).world.engine.arena (bucketOf 0x89754e64993ffff)).data
        0x89754e64993ffff (updateCall oneItem).sample := by
  obtain ⟨blocks, rb, made, init, es, s, run, sizes, -⟩ :=
    exists_downloaded_run fun _ => some oneMessage
  obtain ⟨-, structAllocated, malloc, ring⟩ := Ring.made_of_init init
  let served : Bool → Thread Empty := fun ingests => if ingests then .ingestion else .main
  obtain ⟨x, begins, -, trace, fair, -⟩ :=
    run.extends_fair fun ingests => SystemEvent.MovesOf (served ingests)
  obtain ⟨y, begins', follows, -⟩ := exists_stands begins
  have isOpen (m : Nat) : (x.state m).monitor.shared.shutdown = false := by
    rw [← (follows.related m).monitor]
    exact never_shut_down ring begins' m
  obtain ⟨recurs, newest⟩ :=
    heap_engine_goes_on ring begins (fair true) (fair false) isOpen
  obtain ⟨m, later, -, -, -, lengths, -⟩ := recurs es.length
  have downloaded : some 2 ∈ (x.trace m).flatMap downloads := by
    apply ((x.trace_prefix later).flatMap downloads).subset
    rw [trace, sizes]
    exact List.mem_singleton_self _
  obtain ⟨payload, isRead, two⟩ : ∃ payload ∈ (x.trace m).flatMap readIn, payload.length = 2 := by
    rw [← List.mem_map, lengths]
    exact List.mem_filter.mpr ⟨List.mem_filterMap.mpr ⟨_, downloaded, rfl⟩, rfl⟩
  have inPayload : oneItem ∈ contribution (fun _ => some oneMessage) (some payload) := by
    rw [contribution, if_pos (by omega), oneItem, fillItem_eq]
    exact List.mem_singleton_self _
  refine ⟨rb, made, x, begins, ?_⟩
  exact (newest m payload isRead).2 oneItem ⟨updateCall oneItem, 0x89754e64993ffff, cell_ne_zero⟩
    inPayload (by decide) rfl

end Executions

end TelemetrixDb.Engine
