import Tracey.Isolation
import Tracey.WriterRuns

/-!
# What the reconstructor writes

Each call of `write_pending` interns its names, makes sure of the thread and
then writes its duration events by id. A reader of the trace sees exactly these
events, with the thread they are for, the id the cache holds for the raw symbol,
and the timestamp. The cache of symbol ids only grows, so the ids can be read
off the final cache.
-/

namespace Tracey

open FiniteMap FxtWriter

/-- The writer's id of a thread: the key widened to 64 bits. Nothing is lost, so
that different keys have different ids. -/
def ThreadKey.widen (key : ThreadKey) : ThreadId := ⟨key.pid.toUInt64, key.tid.toUInt64⟩

namespace StackReconstructor

/-- The id in the cache for a raw symbol. It is 0 for a symbol that is not
cached. -/
def nameId (s : StackReconstructor) (symbol : Text) : UInt16 :=
  (s.symbolIdCache.lookup symbol).getD 0

/-- The category and the cached ids stay as they are. New symbols may enter the
cache. -/
structure Keeps (s s' : StackReconstructor) : Prop where
  category : s'.categoryId = s.categoryId
  cached : ∀ symbol id, s.symbolIdCache.lookup symbol = some id →
    s'.symbolIdCache.lookup symbol = some id

/-- What changes nothing keeps the ids. -/
theorem Keeps.refl (s : StackReconstructor) : Keeps s s := ⟨rfl, fun _ _ known => known⟩

/-- What keeps the ids over one stretch and over the next keeps them over both. -/
theorem Keeps.trans {first second third : StackReconstructor} (begun : Keeps first second)
    (continued : Keeps second third) : Keeps first third :=
  ⟨continued.category.trans begun.category,
    fun symbol id known => continued.cached symbol id (begun.cached symbol id known)⟩

/-- A symbol's id is in the cache. This is so from its first write on. -/
def Cached (s : StackReconstructor) (symbol : Text) : Prop :=
  ∃ id, s.symbolIdCache.lookup symbol = some id

/-- A symbol that is cached stays cached. -/
theorem Keeps.cached_symbol {s s' : StackReconstructor} (keeps : Keeps s s') {symbol : Text}
    (cached : s.Cached symbol) : s'.Cached symbol := by
  obtain ⟨id, known⟩ := cached
  exact ⟨id, keeps.cached symbol id known⟩

/-- A symbol that is cached keeps its id. The string table is not asked again. -/
theorem Keeps.nameId {s s' : StackReconstructor} (keeps : Keeps s s') {symbol : Text}
    (cached : s.Cached symbol) : s'.nameId symbol = s.nameId symbol := by
  obtain ⟨id, known⟩ := cached
  rw [StackReconstructor.nameId, StackReconstructor.nameId, keeps.cached symbol id known, known]

/-- What one call of `intern_symbol` can do. In the second one the shortened
symbol is interned and its id cached. -/
theorem internSymbol_cases (s : StackReconstructor) (raw : Text) :
    (∃ id, s.symbolIdCache.lookup raw = some id ∧ s.internSymbol raw = (s, id)) ∨
      (s.symbolIdCache.lookup raw = none ∧
        s.internSymbol raw =
          ({ s with
              writer := (s.writer.internString (shortenSymbol raw)).1
              symbolIdCache := s.symbolIdCache.insert raw
                (s.writer.internString (shortenSymbol raw)).2 },
            (s.writer.internString (shortenSymbol raw)).2)) := by
  cases known : s.symbolIdCache.lookup raw with
  | some id =>
    left
    exact ⟨id, rfl, by simp only [internSymbol, known]⟩
  | none =>
    right
    exact ⟨rfl, by simp only [internSymbol, known]⟩

/-- After `intern_symbol` the symbol is cached, nothing cached is lost, no event
is shown and the threads are untouched. -/
theorem internSymbol_effect {s : StackReconstructor} (coherent : Coherent s.writer) (raw : Text) :
    Quiet s.writer (s.internSymbol raw).1.writer ∧
      SameThreads s.writer (s.internSymbol raw).1.writer ∧ Keeps s (s.internSymbol raw).1 ∧
      (s.internSymbol raw).1.symbolIdCache.lookup raw = some (s.internSymbol raw).2 := by
  rcases s.internSymbol_cases raw with ⟨id, known, same⟩ | ⟨unknown, new⟩
  · rw [same]
    exact ⟨Quiet.refl coherent, SameThreads.refl _, Keeps.refl s, known⟩
  · have interned := internString_interned coherent.strings (shortenSymbol raw)
    rw [new]
    refine ⟨interned.quiet coherent, interned.sameThreads, ⟨rfl, ?_⟩, AList.lookup_insert _⟩
    intro symbol id known
    have other : symbol ≠ raw := by
      rintro rfl
      rw [unknown] at known
      cases known
    exact (AList.lookup_insert_ne other).trans known

/-- The reconstructor with a thread made sure of in its writer. The thread gets
its records if it is new. -/
def enlist (s : StackReconstructor) (thread : ThreadKey) : StackReconstructor × UInt8 :=
  let ensured := s.writer.ensureThread thread.pid.toUInt64 thread.tid.toUInt64
  ({ s with writer := ensured.1 }, ensured.2)

/-- Enlisting a thread shows no event and keeps the ids, and behind it the
thread owns the slot that is returned. -/
theorem enlist_effect {s : StackReconstructor} (coherent : Coherent s.writer)
    (thread : ThreadKey) :
    Quiet s.writer (s.enlist thread).1.writer ∧ Keeps s (s.enlist thread).1 ∧
      (s.enlist thread).1.writer.threadTable.lookup thread.widen = some (s.enlist thread).2 := by
  obtain ⟨quiet, owned⟩ := ensureThread_quiet coherent thread.pid.toUInt64 thread.tid.toUInt64
  exact ⟨quiet, ⟨rfl, fun _ _ known => known⟩, owned⟩

/-- The state in which the events of a write are about to be written, and the
slot of its thread. -/
def prepare (s : StackReconstructor) (write : Write) : StackReconstructor × UInt8 :=
  let enlisted := (s.internSymbol write.event.symbol).1.enlist write.thread
  match write.event.kind with
  | .call | .ret => enlisted
  | .retFromUntraced => ((enlisted.1.internSymbol unknownSymbol).1, enlisted.2)

/-- Preparing a write shows no event, enters the thread and caches the names.
All that `write_pending` does before its first event is this. -/
theorem prepare_effect {s : StackReconstructor} (coherent : Coherent s.writer) (write : Write) :
    Quiet s.writer (s.prepare write).1.writer ∧ Keeps s (s.prepare write).1 ∧
      (s.prepare write).1.writer.threadTable.lookup write.thread.widen =
        some (s.prepare write).2 ∧
      ∀ stamp ∈ write.stamps, (s.prepare write).1.Cached stamp.symbol := by
  obtain ⟨named, _, kept, known⟩ := internSymbol_effect coherent write.event.symbol
  obtain ⟨enlisted, keptToo, owned⟩ := enlist_effect named.coherent write.thread
  have quiet := named.trans enlisted
  have keeps := kept.trans keptToo
  have cached := keptToo.cached_symbol ⟨_, known⟩
  simp only [prepare, Write.stamps]
  cases kind : write.event.kind with
  | call | ret =>
    refine ⟨quiet, keeps, owned, ?_⟩
    intro stamp member
    rw [List.mem_singleton.mp member]
    exact cached
  | retFromUntraced =>
    obtain ⟨unknown, threads, keptAgain, found⟩ :=
      internSymbol_effect enlisted.coherent unknownSymbol
    refine ⟨quiet.trans unknown, keeps.trans keptAgain, threads.threadTable ▸ owned, ?_⟩
    intro stamp member
    rcases List.mem_cons.mp member with rfl | last
    · exact ⟨_, found⟩
    · rw [List.mem_singleton.mp last]
      exact ⟨_, found⟩

/-- Write the duration events of a write. All references are known by then. -/
def writeStamps (s : StackReconstructor) (slot : UInt8) (stamps : List Stamp) : FxtWriter :=
  stamps.foldl (fun writer stamp => writer.writeEventById stamp.eventType slot s.categoryId
    (s.nameId stamp.symbol) stamp.timestamp) s.writer

/-- `write_pending` prepares and then writes the events of the write. The second
look for the name of unknown code finds it in the cache. -/
theorem writePending_eq {s : StackReconstructor} (coherent : Coherent s.writer) (write : Write) :
    s.writePending write =
      { (s.prepare write).1 with
        writer := (s.prepare write).1.writeStamps (s.prepare write).2 write.stamps } := by
  obtain ⟨named, _, _, known⟩ := internSymbol_effect coherent write.event.symbol
  obtain ⟨enlisted, _, _⟩ := enlist_effect named.coherent write.thread
  cases kind : write.event.kind with
  | call | ret =>
    simp only [writePending, prepare, enlist, kind, writeStamps, Write.stamps, List.foldl_cons,
      List.foldl_nil, nameId, known, Option.getD_some]
  | retFromUntraced =>
    obtain ⟨_, _, _, found⟩ := internSymbol_effect enlisted.coherent unknownSymbol
    simp only [enlist] at found
    simp only [writePending, prepare, enlist, kind, writeStamps, Write.stamps, List.foldl_cons,
      List.foldl_nil, nameId, found, Option.getD_some]

/-- What a reader sees of a duration event, given its tables. Its references
resolve as they do in these tables. -/
def shown (s : StackReconstructor) (reader : Reader) (thread : ThreadKey) (stamp : Stamp) : Seen :=
  .event stamp.eventType (some thread.widen) (reader.resolve s.categoryId)
    (reader.resolve (s.nameId stamp.symbol)) s.categoryId (s.nameId stamp.symbol) stamp.timestamp

/-- Every event that is written begins or ends a duration. No other type of
event is in a trace of this program. -/
theorem stamps_type {write : Write} {stamp : Stamp} (member : stamp ∈ write.stamps) :
    stamp.eventType = 2 ∨ stamp.eventType = 3 := by
  unfold Write.stamps at member
  split at member
  · rw [List.mem_singleton.mp member]
    exact .inl rfl
  · rw [List.mem_singleton.mp member]
    exact .inr rfl
  · rcases List.mem_cons.mp member with rfl | last
    · exact .inl rfl
    · rw [List.mem_singleton.mp last]
      exact .inr rfl

/-- Writing duration events shows them, and changes no table.

Induct over the events, from any writer with the tables of the first one. -/
theorem writeStamps_effect {s : StackReconstructor} (coherent : Coherent s.writer)
    {thread : ThreadKey} {slot : UInt8}
    (owned : s.writer.threadTable.lookup thread.widen = some slot) (stamps : List Stamp)
    (typed : ∀ stamp ∈ stamps, stamp.eventType = 2 ∨ stamp.eventType = 3) :
    Coherent (s.writeStamps slot stamps) ∧
      (∃ news, Extends s.writer (s.writeStamps slot stamps) news) ∧
      (s.writeStamps slot stamps).reader = s.writer.reader ∧
      (s.writeStamps slot stamps).stringTable = s.writer.stringTable ∧
      eventsSince s.writer (s.writeStamps slot stamps) =
        stamps.map (s.shown s.writer.reader thread) := by
  have written : ∀ w : FxtWriter, Coherent w → w.reader = s.writer.reader →
      let w' := stamps.foldl (fun writer stamp => writer.writeEventById stamp.eventType slot
        s.categoryId (s.nameId stamp.symbol) stamp.timestamp) w
      Coherent w' ∧ (∃ news, Extends w w' news) ∧ w'.reader = s.writer.reader ∧
        w'.stringTable = w.stringTable ∧
        eventsSince w w' = stamps.map (s.shown s.writer.reader thread) := by
    induction stamps with
    | nil =>
      intro w coherent same
      refine ⟨coherent, ⟨[], Extends.refl w⟩, same, rfl, ?_⟩
      rw [List.foldl_nil, eventsSince_self]
      rfl
    | cons stamp rest inductionHypothesis =>
      intro w coherentNow same
      have wellTyped : stamp.eventType.toNat < 2 ^ 4 := by
        rcases typed stamp List.mem_cons_self with code | code <;> rw [code] <;> decide
      obtain ⟨kept, grown, first⟩ := writeEventById_events coherentNow stamp.eventType wellTyped
        slot s.categoryId (s.nameId stamp.symbol) stamp.timestamp
      have sameReader : (w.writeEventById stamp.eventType slot s.categoryId
          (s.nameId stamp.symbol) stamp.timestamp).reader = w.reader := emit_reader w _
      obtain ⟨coherentLast, ⟨more, further⟩, sameLast, tableLast, others⟩ :=
        inductionHypothesis (fun other member => typed other (List.mem_cons_of_mem stamp member))
          _ kept (sameReader.trans same)
      refine ⟨coherentLast, ⟨_, grown.trans further⟩, sameLast, tableLast, ?_⟩
      have resolved := coherent.thread_resolves owned
      rw [List.foldl_cons, eventsSince_trans grown further, first, others, same, resolved]
      rfl
  exact written s.writer coherent rfl

/-- The effect of one call of `write_pending`. It shows the events of the write,
with the references that were prepared, and stays coherent. -/
theorem writePending_effect {s : StackReconstructor} (coherent : Coherent s.writer)
    (write : Write) :
    let s' := s.writePending write
    Coherent s'.writer ∧ (∃ news, Extends s.writer s'.writer news) ∧ Keeps s s' ∧
      (∀ stamp ∈ write.stamps, s'.Cached stamp.symbol) ∧
      eventsSince s.writer s'.writer =
        write.stamps.map (s'.shown s'.writer.reader write.thread) := by
  intro s'
  obtain ⟨quiet, keeps, owned, cached⟩ := prepare_effect coherent write
  obtain ⟨kept, ⟨more, further⟩, same, _, events⟩ := writeStamps_effect quiet.coherent owned
    write.stamps (fun _ member => stamps_type member)
  obtain ⟨news, grown⟩ := quiet.grown
  have result : s' = { (s.prepare write).1 with
      writer := (s.prepare write).1.writeStamps (s.prepare write).2 write.stamps } :=
    writePending_eq coherent write
  have writer : s'.writer = (s.prepare write).1.writeStamps (s.prepare write).2 write.stamps := by
    rw [result]
  rw [← writer] at kept further same events
  refine ⟨kept, ⟨_, grown.trans further⟩, ?_, ?_, ?_⟩
  · rw [result]
    exact ⟨keeps.category, keeps.cached⟩
  · rw [result]
    exact cached
  · rw [eventsSince_trans grown further, quiet.eventless, events, List.nil_append, same, result]
    rfl

end StackReconstructor

/-- A duration event without the texts its references resolve to. The ids are
kept, so that events under one id can be compared even where it has been given
away. -/
structure Outline where
  eventType : UInt8
  thread : Option ThreadId
  categoryRef : UInt16
  nameRef : UInt16
  timestamp : UInt64
deriving DecidableEq, Repr

/-- The outline of an event; a kernel object has none. -/
def Seen.outline : Seen → Option Outline
  | .event eventType thread _ _ categoryRef nameRef timestamp =>
    some ⟨eventType, thread, categoryRef, nameRef, timestamp⟩
  | _ => none

namespace StackReconstructor

/-- The outline of a duration event handed over for a thread. Its ids are those
of the category and of the symbol in the cache. -/
def outline (s : StackReconstructor) (thread : ThreadKey) (stamp : Stamp) : Outline :=
  ⟨stamp.eventType, some thread.widen, s.categoryId, s.nameId stamp.symbol, stamp.timestamp⟩

/-- What a reader makes of the stamps of a thread is outlined as these stamps
are. Each of them is a duration event, so that none is passed over. -/
theorem outline_shown (s : StackReconstructor) (reader : Reader) (thread : ThreadKey)
    (stamps : List Stamp) :
    (stamps.map (s.shown reader thread)).filterMap Seen.outline = stamps.map (s.outline thread) := by
  induction stamps with
  | nil => rfl
  | cons stamp rest inductionHypothesis =>
    exact congrArg (s.outline thread stamp :: ·) inductionHypothesis

/-- The effect of many calls of `write_pending`: the events seen are those
handed over, named by the final cache.

Induct over the writes; later ones do not change the ids that are cached. -/
theorem writeAll_outlines {s : StackReconstructor} (coherent : Coherent s.writer)
    (writes : List Write) :
    let s' := writes.foldl writePending s
    Coherent s'.writer ∧ (∃ news, Extends s.writer s'.writer news) ∧ Keeps s s' ∧
      (eventsSince s.writer s'.writer).filterMap Seen.outline =
        writes.flatMap (fun w => w.stamps.map (s'.outline w.thread)) := by
  induction writes generalizing s with
  | nil =>
    intro s'
    refine ⟨coherent, ⟨[], Extends.refl _⟩, Keeps.refl s, ?_⟩
    have same : s'.writer = s.writer := rfl
    rw [same, eventsSince_self]
    rfl
  | cons write rest inductionHypothesis =>
    intro s'
    obtain ⟨kept, ⟨news, grown⟩, keeps, cached, events⟩ := writePending_effect coherent write
    obtain ⟨last, ⟨more, further⟩, keepsToo, others⟩ := inductionHypothesis kept
    refine ⟨last, ⟨_, grown.trans further⟩, keeps.trans keepsToo, ?_⟩
    have named : write.stamps.map ((s.writePending write).outline write.thread) =
        write.stamps.map (s'.outline write.thread) := by
      apply List.map_congr_left
      intro stamp member
      have sameName := keepsToo.nameId (cached stamp member)
      have sameCategory := keepsToo.category
      rw [outline, outline, ← sameName, ← sameCategory]
      rfl
    have split : eventsSince s.writer s'.writer =
        eventsSince s.writer (s.writePending write).writer ++
          eventsSince (s.writePending write).writer s'.writer := eventsSince_trans grown further
    have others : (eventsSince (s.writePending write).writer s'.writer).filterMap Seen.outline =
        rest.flatMap (fun w => w.stamps.map (s'.outline w.thread)) := others
    rw [split, List.filterMap_append, events, outline_shown, named, others]
    rfl

/-- Writing does not look at the tracker. The two parts of the reconstructor
never meet in it. -/
theorem writePending_tracker (s : StackReconstructor) (tracker : Tracker) (write : Write) :
    ({ s with tracker } : StackReconstructor).writePending write =
      { s.writePending write with tracker } := by
  have interned : ∀ (s : StackReconstructor) (raw : Text),
      ({ s with tracker } : StackReconstructor).internSymbol raw =
        ({ (s.internSymbol raw).1 with tracker }, (s.internSymbol raw).2) := by
    intro s raw
    simp only [internSymbol]
    split <;> rfl
  cases kind : write.event.kind with
  | call | ret => simp only [writePending, interned, kind]
  | retFromUntraced =>
    have again := interned { (s.internSymbol write.event.symbol).1 with
      writer := ((s.internSymbol write.event.symbol).1.writer.ensureThread
        write.thread.pid.toUInt64 write.thread.tid.toUInt64).1 } unknownSymbol
    dsimp only at again
    simp only [writePending, interned, kind, again]

/-- Writing does not look at the tracker, and does not change it. -/
theorem writeAll_tracker (s : StackReconstructor) (tracker : Tracker) (writes : List Write) :
    writes.foldl writePending { s with tracker } =
      { writes.foldl writePending s with tracker } := by
  induction writes generalizing s with
  | nil => rfl
  | cons write rest inductionHypothesis =>
    rw [List.foldl_cons, writePending_tracker, inductionHypothesis]
    rfl

/-- Processing events is tracking them and writing what the tracker hands over.
In the source the two alternate, event by event. -/
theorem processAll_eq (s : StackReconstructor) (events : List Event) :
    s.processAll events =
      { (s.tracker.processAll events).2.foldl writePending s with
        tracker := (s.tracker.processAll events).1 } := by
  induction events generalizing s with
  | nil => rfl
  | cons event rest inductionHypothesis =>
    have first : s.processEvent event =
        { (s.tracker.processEvent event).2.foldl writePending s with
          tracker := (s.tracker.processEvent event).1 } := writeAll_tracker s _ _
    have step : s.processAll (event :: rest) = (s.processEvent event).processAll rest := rfl
    rw [step, inductionHypothesis, first]
    dsimp only
    rw [writeAll_tracker, ← List.foldl_append]
    rfl

/-- What is written through to the end is what the tracker hands over.
Everything about the file can be said of this list. -/
theorem finish_eq (s : StackReconstructor) (events : List Event) (order : HashOrder) :
    (s.processAll events).finish order =
      { (s.tracker.handed order events).foldl writePending s with
        tracker := ((s.tracker.processAll events).1.finish order).1 } := by
  rw [processAll_eq, finish, follow]
  dsimp only
  rw [writeAll_tracker, writeAll_tracker, ← List.foldl_append]
  rfl

/-- A reconstructor over a writer that has been used before, after some events.
The end is included, with the threads in the order of a hash table. -/
def reconstruct (before : List WriterCall) (order : HashOrder) (events : List Event) :
    StackReconstructor :=
  ((create (afterCalls before)).processAll events).finish order

/-- Creating a reconstructor shows no event and keeps the writer coherent. -/
theorem create_quiet {w : FxtWriter} (coherent : Coherent w) : Quiet w (create w).writer :=
  (internString_interned coherent.strings (text "trace")).quiet coherent

/-- The outlines of the events that a reader sees of a whole run. What was
written before the reconstructor was made is not in it. -/
def outlines (before : List WriterCall) (order : HashOrder) (events : List Event) : List Outline :=
  (eventsSince (afterCalls before) (reconstruct before order events).writer).filterMap Seen.outline

/-- The reader sees what the tracker hands over, from a fresh tracker to the
end. -/
theorem outlines_eq (before : List WriterCall) (order : HashOrder) (events : List Event) :
    outlines before order events =
      (({} : Tracker).handed order events).flatMap (fun w =>
        w.stamps.map ((reconstruct before order events).outline w.thread)) := by
  have quiet := create_quiet (afterCalls_coherent before)
  obtain ⟨news, grown⟩ := quiet.grown
  obtain ⟨_, ⟨more, further⟩, _, seen⟩ :=
    writeAll_outlines quiet.coherent (({} : Tracker).handed order events)
  have fresh : (create (afterCalls before)).tracker = {} := rfl
  rw [outlines, reconstruct, finish_eq, fresh]
  dsimp only
  rw [eventsSince_trans grown further, quiet.eventless, List.nil_append]
  exact seen

/-- Process and thread are widened from 32 bits to 64, and so no two threads
become one. -/
theorem widen_injective {key other : ThreadKey} (same : key.widen = other.widen) : key = other := by
  obtain ⟨pid, tid⟩ := key
  obtain ⟨otherPid, otherTid⟩ := other
  simp only [ThreadKey.widen, ThreadId.mk.injEq] at same
  rw [UInt32.toUInt64_inj.mp same.1, UInt32.toUInt64_inj.mp same.2]

/-- For each thread the reader sees what is handed over for it. Neither the
order of the threads nor what was called before makes a difference. -/
theorem outlines_thread (before : List WriterCall) (order : HashOrder) (events : List Event)
    (key : ThreadKey) :
    (outlines before order events).filter (fun o => o.thread = some key.widen) =
      (stampsFor key (({} : Tracker).handed order events)).map
        ((reconstruct before order events).outline key) := by
  rw [outlines_eq, stampsFor]
  induction ({} : Tracker).handed order events with
  | nil => rfl
  | cons w rest inductionHypothesis =>
    rw [List.flatMap_cons, List.filter_append, inductionHypothesis]
    by_cases mine : w.thread = key
    · have all : (w.stamps.map ((reconstruct before order events).outline w.thread)).filter
          (fun o => o.thread = some key.widen) =
            w.stamps.map ((reconstruct before order events).outline key) := by
        rw [mine, List.filter_eq_self]
        intro o member
        obtain ⟨stamp, _, rfl⟩ := List.mem_map.mp member
        exact decide_eq_true rfl
      rw [all, List.filter_cons_of_pos (by simpa using mine), List.flatMap_cons, List.map_append]
    · have foreign : (w.stamps.map ((reconstruct before order events).outline w.thread)).filter
          (fun o => o.thread = some key.widen) = [] := by
        rw [List.filter_eq_nil_iff]
        intro o member
        obtain ⟨stamp, _, rfl⟩ := List.mem_map.mp member
        intro same
        exact mine (widen_injective (Option.some.inj (of_decide_eq_true same)))
      rw [foreign, List.filter_cons_of_neg (by simpa using mine), List.nil_append]

end StackReconstructor

end Tracey
