import TelemetrixDb.Engine.HeapCode
import TelemetrixDb.Engine.Delivery
import TelemetrixDb.Foundation.ExecutionRefinement
import TelemetrixDb.Ring.Lifecycle

/-!
# The engine on its heap refines the engine over payloads

What the ingestion thread holds on the heap stands for the payload that it carries in
the engine without a heap, so each run with the heap is a run without it. No step of
any interleaving uses a block that is not there, and the blocks that were there before
the threads began stay as they are.

-/

namespace TelemetrixDb.Engine
open CMachine Monitor Ingestion Storage Transition

/-- The blocks of a heap with `n` further blocks that nobody will free. -/
inductive Leaked (initial : Nat → Option Bytes) : Nat → (Nat → Option Bytes) → Prop
  | none : Leaked initial 0 initial
  | one {n kept p} {old : Bytes} (rest : Leaked initial n kept) (spare : kept p = none) :
      Leaked initial (n + 1) (Function.update kept p (some old))

/-- The heap has the blocks that are kept, and that of the payload at hand. -/
inductive HeapAt (kept : Nat → Option Bytes) : Hold → Heap → Prop
  | nothing {heap : Heap} (same : heap.block = kept) : HeapAt kept .nothing heap
  | block {heap : Heap} {isRead : Bool} {p : Nat} {payload old : Bytes} (spare : kept p = none)
      (block : heap.block = Function.update kept p (some old))
      (text : old.take payload.length = payload) (inside : payload.length ≤ old.length) :
      HeapAt kept (.block isRead p payload) heap

/-- A download's answer with the payload that it stands for, and what it leaves. -/
inductive Landed (kept : Nat → Option Bytes) (heap : Heap) : Option Nat × Nat → Option Bytes → Prop
  | failed (size : Nat) (same : heap.block = kept) : Landed kept heap (none, size) none
  | empty {p : Nat} {old : Bytes} (spare : kept p = none)
      (block : heap.block = Function.update kept p (some old)) :
      Landed kept heap (some p, 0) (some [])
  | held {p : Nat} {payload : Bytes} (some_ : payload ≠ [])
      (at_ : HeapAt kept (.block false p payload) heap) :
      Landed kept heap (some p, payload.length) (some payload)

theorem Landed.size {kept : Nat → Option Bytes} {heap : Heap} {answer : Option Nat × Nat}
    {rawProtobuf : Option Bytes} (h : Landed kept heap answer rawProtobuf) :
    rawProtobuf.map List.length = answer.1.map fun _ => answer.2 := by
  cases h <;> rfl

/-- A download's answer stands for the payload that the download brings. -/
theorem landed_of_fetch {fetch : Fetch} {heap heap' : Heap} {kept : Nat → Option Bytes}
    {answer : Option Nat × Nat} (run : fetchGtfsData fetch 0 heap = .ok (answer.1, answer.2, heap'))
    (same : heap.block = kept) : Landed kept heap' answer (payloadText fetch) := by
  subst same
  obtain ⟨ptr, size, heap₁, data, run', fetched, brings⟩ := fetch_text fetch heap
  rw [brings]
  have same : (answer.1, answer.2, heap') = (ptr, size, heap₁) :=
    Except.ok.inj (run.symm.trans run')
  obtain ⟨rfl, rest⟩ := Prod.mk.inj same
  obtain ⟨rfl, rfl⟩ := Prod.mk.inj rest
  obtain ⟨ptr, size⟩ := answer
  cases fetched with
  | failed size same => exact .failed size same
  | block spare block text inside =>
      by_cases none : data = []
      · subst none
        exact .empty spare block
      · exact .held none (.block spare block text inside)

/-- The threads on the heap stand where those over payloads do, and what the ingestion
thread holds is on the heap. -/
structure Paired {T : Type} (initial : Nat → Option Bytes) (leaks : Nat) (hold : Hold)
    (code : Thread T → HeapCode Turn) (code' : Thread T → EngineCode Turn) (heap : Heap) :
    Prop where
  others : ∀ t, t ≠ .ingestion → code t = heapless (code' t)
  ingestion : ∃ kept, Pairs hold (code .ingestion) (code' .ingestion) ∧
    Leaked initial leaks kept ∧ HeapAt kept hold heap

section Simulation

variable {T : Type} [DecidableEq T] {h3 : H3} {unpack : Bytes → Option FeedMessage}
variable {stack : Nat → Nat → VehicleData} {network : Nat → Fetch}
variable {initial : Nat → Option Bytes} {leaks : Nat} {hold : Hold}
variable {code : Thread T → HeapCode Turn} {code' : Thread T → EngineCode Turn} {heap : Heap}
variable {t : Thread T}

namespace Paired

theorem other (h : Paired initial leaks hold code code' heap) (ht : t ≠ .ingestion)
    (p : EngineCode Turn) :
    Paired initial leaks hold (Function.update code t (heapless p)) (Function.update code' t p)
      heap where
  others := by
    intro u hu
    by_cases hut : u = t
    · subst hut
      simp
    · simp [Function.update_of_ne hut, h.others u hu]
  ingestion := by
    simpa [Function.update_of_ne (Ne.symm ht)] using h.ingestion

theorem mine (h : Paired initial leaks hold code code' heap) {n : Nat} {hold' : Hold}
    {kept : Nat → Option Bytes} {heap' : Heap} {p : HeapCode Turn} {q : EngineCode Turn}
    (pairs : Pairs hold' p q) (leaked : Leaked initial n kept) (at_ : HeapAt kept hold' heap') :
    Paired initial n hold' (Function.update code .ingestion p)
      (Function.update code' .ingestion q) heap' where
  others := by
    intro u hu
    simp [Function.update_of_ne hu, h.others u hu]
  ingestion := ⟨kept, by simpa using pairs, leaked, at_⟩

/-- Threads at a call on the ring are at the same call. -/
theorem shared (h : Paired initial leaks hold code code' heap) {call : RingOp} {next}
    (at_ : code t = .call (.shared call) next) :
    ∃ next', code' t = .call (.shared call) next' ∧ ∀ reply,
      Paired initial leaks hold (Function.update code t (next reply))
        (Function.update code' t (next' reply)) heap := by
  by_cases ht : t = .ingestion
  · subst ht
    obtain ⟨kept, pairs, leaked, here⟩ := h.ingestion
    rw [at_] at pairs
    generalize before : code' .ingestion = q at pairs
    cases pairs with
    | shared rest => exact ⟨_, rfl, fun reply => h.mine (rest reply) leaked here⟩
  · have same := h.others t ht
    rw [at_] at same
    generalize before : code' t = q at same
    cases q with
    | ret a => cases same
    | call op next' =>
        cases op with
        | own l => cases same
        | shared call =>
            cases same
            exact ⟨next', rfl, fun reply => h.other ht (next' reply)⟩

/-- Threads between two turns begin the same one. -/
theorem again (h : Paired initial leaks hold code code' heap) {a : Turn} {p : HeapCode Turn}
    (at_ : code t = .ret a) (may : CallsOnly t.MayCall t.MayTurn (code' t))
    (more : heapResume unpack stack a = some p) :
    ∃ p', code' t = .ret a ∧ resume unpack stack a = some p' ∧
      Paired initial leaks hold (Function.update code t p) (Function.update code' t p') heap := by
  by_cases ht : t = .ingestion
  · subst ht
    obtain ⟨kept, pairs, leaked, here⟩ := h.ingestion
    rw [at_] at pairs
    generalize before : code' .ingestion = q at pairs may
    cases pairs with
    | ret a =>
        cases a with
        | ingestion n =>
            cases more
            exact ⟨_, rfl, rfl, h.mine (pairs_turn n) leaked here⟩
        | ingestionDone => cases more
        | consumer => exact may.elim
        | signaller => exact may.elim
  · have same := h.others t ht
    rw [at_] at same
    generalize before : code' t = q at same may
    cases q with
    | call op next' => cases op <;> cases same
    | ret b =>
        cases same
        cases a with
        | ingestion n => cases t <;> first | exact absurd rfl ht | exact may.elim
        | ingestionDone => cases more
        | consumer bus total =>
            cases more
            exact ⟨_, rfl, rfl, h.other ht _⟩
        | signaller =>
            cases more
            exact ⟨_, rfl, rfl, h.other ht _⟩

end Paired

/-- A call that has nothing to do with the heap. -/
def OffHeap : OwnOp → Prop
  | .fetchGtfsData | .free _ => False
  | _ => True

/-- What a step on the heap is seen as without it. A download answers with a payload of
the size returned. -/
inductive Seen : HeapEvent T → Option (EngineEvent T) → Prop
  | shared (e : Event (Thread T) RingOp Ring.Cond Ring.Reply) :
      Seen (.shared e) (some (.shared e))
  | own (t : Thread T) {l : OwnOp} (off : OffHeap l) (x : OwnAns l) :
      Seen (.own t (.engine l) x) (some (.own t l x))
  | fetch (t : Thread T) {answer : Option Nat × Nat} {rawProtobuf : Option Bytes}
      (size : rawProtobuf.map List.length = answer.1.map fun _ => answer.2) :
      Seen (.own t .fetchGtfsData answer) (some (.own t .fetchGtfsData rawProtobuf))
  | read (t : Thread T) (rawProtobuf payloadSize : Nat) (payload : Bytes) :
      Seen (.own t (.read rawProtobuf payloadSize) payload) none
  | free (t : Thread T) (rawProtobuf : Option Nat) (payload : Bytes) :
      Seen (.own t (.free rawProtobuf) ()) (some (.own t (.free payload) ()))
  | again (t : Thread T) : Seen (.again t) (some (.again t))

/-- The steps of the engine without a heap that are not about payloads. -/
def shown : EngineEvent T → List (EngineEvent T)
  | .own _ .fetchGtfsData _ => []
  | .own _ (.free _) _ => []
  | e => [e]

/-- The step of the engine without a heap, if any, that an event on the heap shows. -/
def visible : HeapEvent T → List (EngineEvent T)
  | .shared e => [.shared e]
  | .own t (.engine l) x => [.own t l x]
  | .own _ _ _ => []
  | .again t => [.again t]

/-- Whether a download returns a block without text. -/
def leaksIn : HeapEvent T → Nat
  | .own _ .fetchGtfsData (some _, 0) => 1
  | _ => 0

/-- The sizes of the payloads that downloads return. -/
def downloads : HeapEvent T → List (Option Nat)
  | .own _ .fetchGtfsData (rawProtobuf, payloadSize) => [rawProtobuf.map fun _ => payloadSize]
  | _ => []

/-- The payloads that are read from their blocks. -/
def readIn : HeapEvent T → List Bytes
  | .own _ (.read _ _) payload => [payload]
  | _ => []

/-- The payload of a download, when it has a text. -/
def texts (rawProtobuf : Option Bytes) : List Bytes := rawProtobuf.toList.filter (· ≠ [])

namespace Seen

variable {e : HeapEvent T} {o : Option (EngineEvent T)}

omit [DecidableEq T] in
theorem shows (h : Seen e o) : o.toList.flatMap shown = visible e := by
  cases h with
  | @own t l off x => cases l <;> first | rfl | exact off.elim
  | shared | fetch | read | free | again => rfl

omit [DecidableEq T] in
theorem sizes (h : Seen e o) :
    (fetched o.toList).map (Option.map List.length) = downloads e := by
  cases h with
  | own t off x =>
      rename_i l
      cases l <;> first | rfl | exact off.elim
  | @fetch t answer rawProtobuf size => exact congrArg (fun n => [n]) size
  | shared e => cases e <;> rfl
  | read | free | again => rfl

end Seen

/-- The payloads that a step brings after `k` downloads, and how many downloads there
have been after it. -/
inductive Brings (network : Nat → Fetch) (k : Nat) : List (Option Bytes) → Nat → Prop
  | nothing : Brings network k [] k
  | payload : Brings network k [payloadText (network k)] (k + 1)

/-- The downloads so far brought what the network brings, in order. -/
theorem Brings.range {k k' : Nat} {rawProtobufs : List (Option Bytes)}
    (h : Brings network k rawProtobufs k') :
    ((List.range k).map fun k => payloadText (network k)) ++ rawProtobufs =
      (List.range k').map fun k => payloadText (network k) := by
  cases h with
  | nothing => exact List.append_nil _
  | payload => rw [List.range_succ, List.map_append, List.map_singleton]

/-- What a step on the heap is without the heap. -/
structure Answered (h3 : H3) (unpack : Bytes → Option FeedMessage)
    (stack : Nat → Nat → VehicleData) (network : Nat → Fetch) (initial : Nat → Option Bytes)
    (leaks : Nat) (hold hold' : Hold) (a a' : EngineState T) (e : HeapEvent T)
    (o : Option (EngineEvent T)) (fetches : Nat) (code : Thread T → HeapCode Turn)
    (w' : HeapWorld) : Prop where
  tick : Tick (EngineStep h3 unpack stack) a o a'
  seen : Seen e o
  paired : Paired initial (leaks + leaksIn e) hold' code a'.code w'.heap
  brings : Brings network fetches (fetched o.toList) w'.fetches
  reads : hold.unread ++ (fetched o.toList).flatMap texts = readIn e ++ hold'.unread

/-- A step that is no download and reads nothing leaves what is held. -/
theorem Answered.quiet {a a' : EngineState T} {e : HeapEvent T} {o : Option (EngineEvent T)}
    {w' : HeapWorld} (tick : Tick (EngineStep h3 unpack stack) a o a') (seen : Seen e o)
    (paired : Paired initial (leaks + leaksIn e) hold code a'.code w'.heap)
    (noDownload : downloads e = []) (noRead : readIn e = []) :
    Answered h3 unpack stack network initial leaks hold hold a a' e o w'.fetches code w' := by
  have none : fetched o.toList = [] := List.map_eq_nil_iff.mp (seen.sizes.trans noDownload)
  refine { tick, seen, paired, brings := ?_, reads := ?_ }
  · rw [none]
    exact .nothing
  · rw [none, noRead, List.flatMap_nil, List.append_nil, List.nil_append]

omit [DecidableEq T] in
/-- A call that leaves the heap alone is one of the engine without a heap. -/
theorem engine_own {l : OwnOp} {x : OwnAns l} {w w' : HeapWorld}
    (ran : HeapOwn h3 network (.engine l) w x w') :
    Own h3 l w.engine x w'.engine ∧ w'.heap = w.heap ∧ w'.fetches = w.fetches ∧ OffHeap l := by
  cases l with
  | fetchGtfsData => exact ran.elim
  | free => exact ran.elim
  | sleep | update | count | index | display => exact ⟨ran.1, ran.2.1, ran.2.2, trivial⟩

/-- The same call without the heap. -/
theorem Answered.engine {σ : Config (Ring.RingBuffer VehicleData) (Thread T) RingOp Ring.Cond}
    {w w' : HeapWorld} {l : OwnOp} {x : OwnAns l} {next' : OwnAns l → EngineCode Turn}
    {after : Thread T → HeapCode Turn} (at_ : code' t = .call (.own l) next')
    (ran : HeapOwn h3 network (.engine l) w x w')
    (paired : Paired initial leaks hold after (Function.update code' t (next' x)) w.heap) :
    Answered h3 unpack stack network initial leaks hold hold ⟨σ, code', w.engine⟩
      ⟨σ, Function.update code' t (next' x), w'.engine⟩ (.own t (.engine l) x)
      (some (.own t l x)) w.fetches after w' := by
  obtain ⟨own, sameHeap, sameFetches, off⟩ := engine_own ran
  rw [← sameHeap] at paired
  rw [← sameFetches]
  exact .quiet (.step (.own at_ own)) (.own t off x) paired rfl rfl

/-- After a download the thread goes on with what the download left. -/
theorem Paired.landed (h : Paired initial leaks hold code code' heap)
    {next : Option Nat × Nat → HeapCode Turn} {next' : Option Bytes → EngineCode Turn}
    (failed : ∀ size, Pairs .nothing (next (none, size)) (next' none))
    (empty : ∀ p, Pairs .nothing (next (some p, 0)) (next' (some [])))
    (ended : ∀ p payload, payload ≠ [] →
      Pairs (.block false p payload) (next (some p, payload.length)) (next' (some payload)))
    {kept : Nat → Option Bytes} (leaked : Leaked initial leaks kept) {heap' : Heap}
    {answer : Option Nat × Nat} {rawProtobuf : Option Bytes}
    (landed : Landed kept heap' answer rawProtobuf) :
    ∃ hold', Paired initial (leaks + leaksIn (.own .ingestion .fetchGtfsData answer : HeapEvent T))
        hold' (Function.update code .ingestion (next answer))
        (Function.update code' .ingestion (next' rawProtobuf)) heap' ∧
      texts rawProtobuf = hold'.unread := by
  cases landed with
  | failed size same => exact ⟨.nothing, h.mine (failed size) leaked (.nothing same), rfl⟩
  | empty spare block =>
      exact ⟨.nothing, h.mine (empty _) (.one leaked spare) (.nothing block), rfl⟩
  | @held p payload some_ at_ =>
      have quiet : leaksIn
          (.own .ingestion .fetchGtfsData (some p, payload.length) : HeapEvent T) = 0 := by
        cases payload with
        | nil => exact absurd rfl some_
        | cons => rfl
      rw [quiet]
      refine ⟨_, h.mine (ended p payload some_) leaked at_, ?_⟩
      simp [texts, Hold.unread, some_]

/-- A call of a thread's own is one without the heap, or a reading step that shows as
none. -/
theorem Paired.own {w w' : HeapWorld} (h : Paired initial leaks hold code code' w.heap)
    {l : HeapOp} {next} {x : HeapAns l}
    {σ : Config (Ring.RingBuffer VehicleData) (Thread T) RingOp Ring.Cond}
    (at_ : code t = .call (.own l) next) (ran : HeapOwn h3 network l w x w') :
    ∃ hold' o a', a'.monitor = σ ∧ a'.world = w'.engine ∧
      Answered h3 unpack stack network initial leaks hold hold' ⟨σ, code', w.engine⟩ a'
        (.own t l x) o w.fetches (Function.update code t (next x)) w' := by
  by_cases ht : t = .ingestion
  · subst ht
    obtain ⟨kept, pairs, leaked, here⟩ := h.ingestion
    rw [at_] at pairs
    generalize before : code' .ingestion = q at pairs
    cases pairs with
    | @sleep _ _ next' rest =>
        exact ⟨hold, _, _, rfl, rfl, Answered.engine before ran (h.mine (rest x) leaked here)⟩
    | @fetch next next' failed empty ended =>
        obtain ⟨run, world, fetches⟩ := ran
        cases here with
        | nothing same =>
            have landed := landed_of_fetch run same
            obtain ⟨hold', after, unread⟩ := h.landed failed empty ended leaked landed
            refine ⟨hold', _, _, rfl, world.symm, .step (.own before rfl), .fetch _ landed.size,
              after, ?_, ?_⟩
            · rw [fetches]
              exact .payload
            · exact (List.append_nil _).trans unread
    | @read p payload _ q rest =>
        obtain ⟨loaded, same⟩ := ran
        cases same
        cases here with
        | @block _ _ _ _ old spare block text inside =>
            have live : w.heap.block p = some old := by rw [block, Function.update_self]
            rw [Heap.load_live live inside, text] at loaded
            cases loaded
            have stays := h.mine rest leaked (.block spare block text inside)
            rw [← before, Function.update_eq_self] at stays
            exact ⟨_, _, _, rfl, rfl, .idle _, .read _ _ _ _, stays, .nothing, rfl⟩
    | @free p payload _ next' rest =>
        obtain ⟨freed, world, fetches⟩ := ran
        cases here with
        | @block _ _ _ _ old spare block text inside =>
            have live : w.heap.block p = some old := by rw [block, Function.update_self]
            obtain ⟨heap₁, freed', after⟩ := Heap.free_live live
            have same : w'.heap.block = kept := by
              rw [Except.ok.inj (freed.symm.trans freed'), after, block, Function.update_idem,
                ← spare, Function.update_eq_self]
            refine ⟨_, _, _, rfl, world.symm, .step (.own before rfl), .free _ _ _,
              h.mine rest leaked (.nothing same), ?_, rfl⟩
            rw [fetches]
            exact .nothing
  · have same := h.others t ht
    rw [at_] at same
    generalize before : code' t = q at same
    cases q with
    | ret a => cases same
    | call op next' =>
        cases op with
        | shared call => cases same
        | own l =>
            cases same
            exact ⟨hold, _, _, rfl, rfl, Answered.engine before ran (h.other ht (next' x))⟩

/-- Each step on the heap is answered by one without it, or by none. -/
theorem heap_step {c c' : HeapState T} {e : HeapEvent T} {a : EngineState T}
    (monitor : a.monitor = c.monitor) (world : a.world = c.world.engine)
    (h : Paired initial leaks hold c.code a.code c.world.heap)
    (may : ∀ t, CallsOnly t.MayCall t.MayTurn (a.code t))
    (step : HeapStep h3 unpack stack network c e c') :
    ∃ hold' o a', a'.monitor = c'.monitor ∧ a'.world = c'.world.engine ∧
      Answered h3 unpack stack network initial leaks hold hold' a a' e o c.world.fetches c'.code
        c'.world := by
  obtain ⟨σ, code', w⟩ := a
  dsimp only at monitor world h may
  cases step with
  | @call σ' τ code world' t call next at_ step =>
      subst monitor world
      obtain ⟨next', same, -⟩ := h.shared at_
      exact ⟨hold, _, _, rfl, rfl, .quiet (.step (.call same step)) (.shared _) h rfl rfl⟩
  | waits step =>
      subst monitor world
      exact ⟨hold, _, _, rfl, rfl, .quiet (.step (.waits step)) (.shared _) h rfl rfl⟩
  | spurious step =>
      subst monitor world
      exact ⟨hold, _, _, rfl, rfl, .quiet (.step (.spurious step)) (.shared _) h rfl rfl⟩
  | returns at_ step =>
      subst monitor world
      obtain ⟨next', same, after⟩ := h.shared at_
      exact ⟨hold, _, _, rfl, rfl,
        .quiet (.step (.returns same step)) (.shared _) (after _) rfl rfl⟩
  | @own σ' code world' world'' t l x next at_ ran =>
      subst monitor world
      exact h.own at_ ran
  | @again σ' code world' t turn p at_ more =>
      subst monitor world
      obtain ⟨p', same, more', after⟩ := h.again at_ (may t) more
      exact ⟨hold, _, _, rfl, rfl, .quiet (.step (.again same more')) (.again t) after rfl rfl⟩

/-- The downloads so far that returned a block without text. -/
def emptyDownloads (es : List (HeapEvent T)) : Nat := (es.map leaksIn).sum

omit [DecidableEq T] in
theorem paired_start (rb : Ring.RingBuffer VehicleData) (tables : Tables) (heap : Heap) :
    Paired heap.block 0 .nothing (heapStart (T := T) rb tables heap).code
      (start (T := T) rb tables).code heap where
  others := fun _ _ => rfl
  ingestion := ⟨heap.block, .ret _, .none, .nothing rfl⟩

theorem callsOnly_reached {rb : Ring.RingBuffer VehicleData} {tables : Tables}
    {es : List (EngineEvent T)} {a : EngineState T}
    (run : Run (EngineStep h3 unpack stack) (start rb tables) es a) (t : Thread T) :
    CallsOnly t.MayCall t.MayTurn (a.code t) :=
  callsOnly_code (fun h more => callsOnly_turn t h more) run (by cases t <;> trivial)

/-- A run on the heap and a run over payloads that do the same up to the heap. Download
`k` brought what `network k` brings, and what has been read is what was downloaded, but for
a payload that is about to be read. -/
structure Stands (h3 : H3) (unpack : Bytes → Option FeedMessage)
    (stack : Nat → Nat → VehicleData) (network : Nat → Fetch) (rb : Ring.RingBuffer VehicleData)
    (tables : Tables) (initial : Nat → Option Bytes) (es : List (HeapEvent T)) (c : HeapState T)
    (es' : List (EngineEvent T)) (a : EngineState T) : Prop where
  run : Run (EngineStep h3 unpack stack) (start rb tables) es' a
  monitor : a.monitor = c.monitor
  world : a.world = c.world.engine
  shows : es'.flatMap shown = es.flatMap visible
  sizes : (fetched es').map (Option.map List.length) = es.flatMap downloads
  brings : fetched es' = (List.range c.world.fetches).map fun k => payloadText (network k)
  paired : ∃ hold, Paired initial (emptyDownloads es) hold c.code a.code c.world.heap ∧
    (fetched es').flatMap texts = es.flatMap readIn ++ hold.unread

theorem stands_start (h3 : H3) (unpack : Bytes → Option FeedMessage)
    (stack : Nat → Nat → VehicleData) (network : Nat → Fetch) (rb : Ring.RingBuffer VehicleData)
    (tables : Tables) (heap : Heap) :
    Stands (T := T) h3 unpack stack network rb tables heap.block [] (heapStart rb tables heap) []
      (start rb tables) where
  run := .refl _
  monitor := rfl
  world := rfl
  shows := rfl
  sizes := rfl
  brings := rfl
  paired := ⟨.nothing, paired_start rb tables heap, rfl⟩

/-- What stands for each other goes on to do so. -/
theorem stands_answers {rb : Ring.RingBuffer VehicleData} {tables : Tables} :
    Answers (HeapStep (T := T) h3 unpack stack network) (EngineStep h3 unpack stack)
      (Stands h3 unpack stack network rb tables initial) (Seen) := by
  intro es c es' a e c' stands step
  obtain ⟨hold, paired, reads⟩ := stands.paired
  obtain ⟨hold', o, a', monitor', world', answered⟩ :=
    heap_step stands.monitor stands.world paired (callsOnly_reached stands.run) step
  refine ⟨o, a', answered.seen, answered.tick, ?_⟩
  refine
    { run := stands.run.trans answered.tick.run
      monitor := monitor'
      world := world'
      shows := ?_
      sizes := ?_
      brings := ?_
      paired := ⟨hold', ?_, ?_⟩ }
  · rw [List.flatMap_append, List.flatMap_append, stands.shows, answered.seen.shows,
      List.flatMap_singleton]
  · rw [fetched_append, List.map_append, List.flatMap_append, stands.sizes, answered.seen.sizes,
      List.flatMap_singleton]
  · rw [fetched_append, stands.brings, answered.brings.range]
  · simpa [emptyDownloads] using answered.paired
  · rw [fetched_append, List.flatMap_append, List.flatMap_append, List.flatMap_singleton, reads,
      List.append_assoc, List.append_assoc, answered.reads]

variable {rb : Ring.RingBuffer VehicleData} {tables : Tables} {es : List (HeapEvent T)}
variable {s : HeapState T}

/-- Each download is one of those counted. -/
theorem Stands.fetches_eq {es' : List (EngineEvent T)} {s' : EngineState T}
    (h : Stands h3 unpack stack network rb tables initial es s es' s') :
    s.world.fetches = (es.flatMap downloads).length := by
  rw [← h.sizes, h.brings, List.length_map, List.length_map, List.length_range]

/-- Download `k` answered with what it returns a pointer to, in whatever heap. -/
theorem Stands.payloads {es' : List (EngineEvent T)} {s' : EngineState T}
    (h : Stands h3 unpack stack network rb tables initial es s es' s') (base : Heap) :
    fetched es' = (List.range (es.flatMap downloads).length).map fun k =>
      payloadOf (network k) base := by
  rw [h.brings, h.fetches_eq]
  simp only [payloadOf_eq]

/-- What a download answered with is what it brings. -/
theorem Stands.payloadText_of_getElem {es' : List (EngineEvent T)} {s' : EngineState T} {k : Nat}
    {rawProtobuf : Option Bytes} (h : Stands h3 unpack stack network rb tables initial es s es' s')
    (here : (fetched es')[k]? = some rawProtobuf) : payloadText (network k) = rawProtobuf := by
  rw [h.brings, List.getElem?_map] at here
  obtain ⟨k', isAt, brings⟩ := Option.map_eq_some_iff.mp here
  obtain ⟨inside, rfl⟩ := List.getElem?_eq_some_iff.mp isAt
  simpa using brings

/-- Every run on the heap is answered by a run without it. -/
theorem heap_run (run : Run (HeapStep h3 unpack stack network) (heapStart rb tables heap) es s) :
    ∃ es' s', Stands h3 unpack stack network rb tables heap.block es s es' s' := by
  obtain ⟨es', s', -, stands⟩ :=
    stands_answers.run (stands_start h3 unpack stack network rb tables heap) run
  exact ⟨es', s', stands⟩

/-- The transfer of two bytes keeps libcurl's promise. -/
theorem honest_twoBytes : twoBytes.transfer.Honest [65, 66] [] := by
  refine ⟨fun _ => rfl, fun returned other => ?_⟩
  have differs : ¬ returned = 2 := other
  simp [Transfer.NeverOk, curleOk, differs]

/-- The ingestion thread downloads two bytes over a ring just made in an empty heap. -/
theorem exists_downloaded_run (unpack : Bytes → Option FeedMessage) : ∃ blocks rb made,
    Ring.bufferInitOn 168 .empty plenty plenty (fun _ => zeroBus) (.lit 1024) =
      .ok (some (blocks, rb), made) ∧
    ∃ es s, Run (HeapStep (T := Empty) oneH3 unpack (fun _ _ => zeroBus) fun _ => twoBytes)
      (heapStart rb (fun _ _ => none) made) es s ∧
      es.flatMap downloads = [some 2] ∧ emptyDownloads es = 0 := by
  have init : ∃ blocks rb made,
      Ring.bufferInitOn 168 .empty plenty plenty (fun _ => zeroBus) (.lit 1024) =
        .ok (some (blocks, rb), made) ∧ rb.shutdown = false ∧
      ∃ p heap, fetchGtfsData twoBytes 0 made = .ok (some p, 2, heap) :=
    ⟨_, _, _, rfl, rfl, _, _, rfl⟩
  obtain ⟨blocks, rb, made, isMade, isOpen, p, heap, brought⟩ := init
  let code : Thread Empty → HeapCode Turn := Function.update (fun t => .ret (firstTurn t))
    .ingestion (heapIngestionTurn unpack (fun _ _ => zeroBus) 0)
  have begun : Run (HeapStep (T := Empty) oneH3 unpack (fun _ _ => zeroBus) fun _ => twoBytes)
      (heapStart rb (fun _ _ => none) made) [.again .ingestion]
      ⟨Config.start rb, code, ⟨⟨.init, fun _ _ => none⟩, made, 0⟩⟩ := .single (.again rfl rfl)
  have at_ : code .ingestion = _ := (Function.update_self _ _ _).trans (heapIngestionTurn_eq 0)
  have test : Ring.body rb .isShutdown = .ok (.done rb false Ring.noNotice) := by
    rw [← isOpen]
    rfl
  have own : HeapOwn oneH3 (fun _ => twoBytes) .fetchGtfsData
      ⟨⟨.init, fun _ _ => none⟩, made, 0⟩ (some p, 2) ⟨⟨.init, fun _ _ => none⟩, heap, 1⟩ :=
    ⟨brought, rfl, rfl⟩
  have downloaded := (begun.trans (solo_client_call at_ test)).snoc
    (.own (Function.update_self _ _ _) own)
  exact ⟨blocks, rb, made, isMade, _, _, downloaded, rfl, rfl⟩

/-- Every run of the threads on the heap is a run of the threads over payloads, with the
same steps but for those on the heap, and the same ring, arena and tables. Download `k`
answers there with the payload that `fetch_gtfs_data` returns a pointer to when it meets
`network k`, of the size returned: the whole body when libcurl keeps its promise about
that body. The payloads with a text are those that have been read from their blocks, but
for one at most that is about to be read. -/
theorem heap_engine_refines
    (run : Run (HeapStep h3 unpack stack network) (heapStart rb tables heap) es s) :
    ∃ es' s', Run (EngineStep h3 unpack stack) (start rb tables) es' s' ∧
      es'.flatMap shown = es.flatMap visible ∧ s'.monitor = s.monitor ∧
      s'.world = s.world.engine ∧
      (fetched es').map (Option.map List.length) = es.flatMap downloads ∧
      (∀ base, fetched es' = (List.range (es.flatMap downloads).length).map fun k =>
        payloadOf (network k) base) ∧
      (∀ k payload body, (fetched es')[k]? = some (some payload) →
        (network k).transfer.Honest body [] → payload = body) ∧
      ∃ unread, (fetched es').flatMap texts = es.flatMap readIn ++ unread ∧
        unread.length ≤ 1 := by
  obtain ⟨es', s', stands⟩ := heap_run run
  obtain ⟨hold, -, reads⟩ := stands.paired
  refine ⟨es', s', stands.run, stands.shows, stands.monitor, stands.world, stands.sizes,
    stands.payloads, fun k payload body here honest => ?_, hold.unread, reads,
    hold.length_unread_le⟩
  exact payloadText_whole honest (stands.payloadText_of_getElem here)

/-- The two bytes are fetched in the run without a heap. -/
theorem heap_engine_refines_two_bytes : ∃ rb, ∃ es' : List (EngineEvent Empty), ∃ s',
    Run (EngineStep oneH3 (fun _ => none) fun _ _ => zeroBus) (start rb fun _ _ => none) es' s' ∧
      fetched es' = [some [65, 66]] := by
  obtain ⟨blocks, rb, made, -, es, s, run, sizes, -⟩ := exists_downloaded_run fun _ => none
  obtain ⟨es', s', run', -, -, -, lengths, -, whole, -⟩ := heap_engine_refines run
  refine ⟨rb, es', s', run', ?_⟩
  rw [sizes] at lengths
  obtain ⟨rawProtobuf, one, size⟩ := List.map_eq_singleton_iff.mp lengths
  obtain ⟨payload, rfl, -⟩ := Option.map_eq_some_iff.mp size
  rw [one, whole 0 payload [65, 66] (by rw [one]; rfl) honest_twoBytes]

/-- A call on the heap succeeds, whatever a download meets. -/
def Succeeds (heap : Heap) : HeapOp → Prop
  | .fetchGtfsData => ∀ fetch, ∃ result, fetchGtfsData fetch 0 heap = .ok result
  | .read rawProtobuf payloadSize => ∃ payload, heap.load rawProtobuf payloadSize = .ok payload
  | .free rawProtobuf => ∃ heap', heap.free rawProtobuf = .ok heap'
  | .engine _ => True

theorem Paired.succeeds (h : Paired initial leaks hold code code' heap) {l : HeapOp} {next}
    (at_ : code t = .call (.own l) next) : Succeeds heap l := by
  by_cases ht : t = .ingestion
  · subst ht
    obtain ⟨kept, pairs, leaked, here⟩ := h.ingestion
    rw [at_] at pairs
    generalize code' .ingestion = q at pairs
    cases pairs with
    | sleep => trivial
    | fetch =>
        intro fetch
        obtain ⟨ptr, size, heap', data, run, -⟩ := fetch_spec fetch heap
        exact ⟨_, run⟩
    | @read p =>
        cases here with
        | @block _ _ _ _ old spare block text inside =>
            have live : heap.block p = some old := by rw [block, Function.update_self]
            exact ⟨_, Heap.load_live live inside⟩
    | @free p =>
        cases here with
        | @block _ _ _ _ old spare block text inside =>
            have live : heap.block p = some old := by rw [block, Function.update_self]
            obtain ⟨heap', freed, -⟩ := Heap.free_live live
            exact ⟨heap', freed⟩
  · have same := h.others t ht
    rw [at_] at same
    generalize code' t = q at same
    cases q with
    | ret a => cases same
    | call op next' =>
        cases op with
        | shared call => cases same
        | own l =>
            cases same
            trivial

omit [DecidableEq T] in
theorem Leaked.keeps {n : Nat} {kept : Nat → Option Bytes} (h : Leaked initial n kept) {p : Nat}
    {b : Bytes} (live : initial p = some b) : kept p = some b := by
  induction h with
  | none => exact live
  | @one n kept q old rest spare ih =>
      have hpq : p ≠ q := by
        rintro rfl
        cases ih.symm.trans spare
      rw [Function.update_of_ne hpq, ih]

omit [DecidableEq T] in
theorem HeapAt.keeps {kept : Nat → Option Bytes} {hold : Hold} (h : HeapAt kept hold heap) {p : Nat}
    {b : Bytes} (live : kept p = some b) : heap.block p = some b := by
  cases h with
  | nothing same => rw [same, live]
  | @block _ _ q _ old spare block =>
      have hpq : p ≠ q := by
        rintro rfl
        cases live.symm.trans spare
      rw [block, Function.update_of_ne hpq, live]

/-- In every interleaving of the threads over a ring that was made on the heap: its
blocks stay live, that of the records with the size that bounds the accesses to them;
no call on the heap faults; and on the heap there are the blocks from before, one for
each download that returned a block without text, and at most one more, none between
two turns of the ingestion thread. -/
theorem heap_engine_safe {sizeofRingBuffer : Nat} {before made : Heap} {first second : Grant}
    {cells : Nat → VehicleData} {blocks : Ring.RingBlocks}
    (init : Ring.bufferInitOn sizeofRingBuffer before first second cells (.lit 1024) =
      .ok (some (blocks, rb), made))
    (run : Run (HeapStep h3 unpack stack network) (heapStart rb tables made) es s) :
    ((s.world.heap.block blocks.ring).isSome ∧
      (s.world.heap.block blocks.data).map List.length = some s.monitor.shared.data.bytes) ∧
    (∀ t l next, s.code t = .call (.own l) next → Succeeds s.world.heap l) ∧
    ∃ kept, Leaked made.block (emptyDownloads es) kept ∧
      (s.world.heap.block = kept ∨ ∃ p old, kept p = none ∧
        s.world.heap.block = Function.update kept p (some old)) ∧
      ((∃ turn, s.code .ingestion = .ret turn) → s.world.heap.block = kept) := by
  obtain ⟨es', s', stands⟩ := heap_run run
  obtain ⟨isMade, structAllocated, malloc, ring⟩ := Ring.made_of_init init
  obtain ⟨hold, paired, -⟩ := stands.paired
  obtain ⟨kept, pairs, leaked, here⟩ := paired.ingestion
  refine ⟨?_, fun t l next at_ => paired.succeeds at_, kept, leaked, ?_, ?_⟩
  · obtain ⟨ringLive, dataLive⟩ := isMade.live
    obtain ⟨b, isRing⟩ := Option.isSome_iff_exists.mp ringLive
    obtain ⟨d, isData, length⟩ := Option.map_eq_some_iff.mp dataLive
    obtain ⟨q, ⟨⟨tail, represents⟩, -⟩, -⟩ := queue_run ring stands.run
    have bytes : s.monitor.shared.data.bytes = rb.data.bytes := by
      rw [← stands.monitor, represents.bytes_eq]
      exact (Ring.bufferInit_represents capacity_eq ring).1.bytes_eq.symm
    rw [here.keeps (leaked.keeps isRing), here.keeps (leaked.keeps isData), bytes]
    exact ⟨rfl, congrArg some length⟩
  · cases here with
    | nothing same => exact Or.inl same
    | block spare block => exact Or.inr ⟨_, _, spare, block⟩
  · rintro ⟨turn, at_⟩
    rw [at_] at pairs
    generalize s'.code .ingestion = q at pairs
    cases pairs
    cases here with
    | nothing same => exact same

/-- With the two bytes downloaded, what the thread does next on the heap succeeds. -/
theorem heap_engine_safe_two_bytes : ∃ rb made, ∃ es : List (HeapEvent Empty), ∃ s,
    Run (HeapStep oneH3 (fun _ => none) (fun _ _ => zeroBus) fun _ => twoBytes)
      (heapStart rb (fun _ _ => none) made) es s ∧
    es.flatMap downloads = [some 2] ∧
    (∀ t l next, s.code t = .call (.own l) next → Succeeds s.world.heap l) ∧
    ∃ kept, Leaked made.block 0 kept := by
  obtain ⟨blocks, rb, made, init, es, s, run, sizes, empty⟩ := exists_downloaded_run fun _ => none
  obtain ⟨-, succeeds, kept, leaked, -⟩ := heap_engine_safe init run
  exact ⟨rb, made, es, s, run, sizes, succeeds, kept, empty ▸ leaked⟩

end Simulation

end TelemetrixDb.Engine
