import Tracey.Nesting
import Tracey.StringReferences

/-!
# The names of events

The reconstructor keeps the ids of its category and of every raw symbol it has
met. While strings are only added, and for all ids but the smallest also later,
a cached id stands for the shortened symbol it was interned for, so it resolves
to what interning the shortened symbol afresh would give.
-/

namespace Tracey

open FiniteMap FxtWriter

namespace FxtWriter

/-- Naming a thread takes no id away from a string that is settled. It interns
two strings. -/
theorem writeThreadName_retains {w : FxtWriter} (coherent : Coherent w) (pid tid : UInt64)
    (name : Text) : Retains w (w.writeThreadName pid tid name) := by
  have interned := internString_interned coherent.strings name
  have interned' := internString_interned (interned.coherent coherent).strings (text "process")
  exact (interned.retains.trans interned'.retains).trans (.of_same rfl rfl)

/-- Neither does making sure that a thread has a slot: it interns labels at
most. -/
theorem ensureThread_retains {w : FxtWriter} (coherent : Coherent w) (pid tid : UInt64) :
    Retains w (w.ensureThread pid tid).1 := by
  cases known : w.threadTable.lookup ⟨pid, tid⟩ with
  | some slot =>
    rw [ensureThread_known known]
    exact .of_same rfl rfl
  | none =>
    have claimed : Retains w (w.claimSlot pid tid) := .of_same rfl rfl
    have kept := (claimSlot_quiet coherent pid tid).coherent
    have named : Retains (w.claimSlot pid tid) ((w.claimSlot pid tid).nameProcess pid) := by
      unfold nameProcess
      split
      · exact .of_same rfl rfl
      · have interned := internString_interned (w := { w.claimSlot pid tid with
          namedProcesses := insert pid (w.claimSlot pid tid).namedProcesses })
          (kept.strings.of_same rfl rfl rfl) (processLabel pid)
        have marked : Retains (w.claimSlot pid tid) { w.claimSlot pid tid with
          namedProcesses := insert pid (w.claimSlot pid tid).namedProcesses } := .of_same rfl rfl
        exact (marked.trans interned.retains).trans (.of_same rfl rfl)
    rw [ensureThread_new known]
    exact (claimed.trans named).trans
      (writeThreadName_retains (nameProcess_quiet kept pid).1.coherent pid tid (threadLabel tid))

end FxtWriter

namespace StackReconstructor

/-- The cached ids stand for their strings as far as they have not been
reclaimed. -/
structure Named (s : StackReconstructor) : Prop where
  category : Settled s.writer s.categoryId → Stands s.writer (text "trace") s.categoryId
  symbols : ∀ raw id, s.symbolIdCache.lookup raw = some id → Settled s.writer id →
    Stands s.writer (shortenSymbol raw) id

/-- A step of the writer that retains settled ids retains the names. The cache
itself is not touched by the writer. -/
theorem Named.retain {s : StackReconstructor} (named : s.Named) {w : FxtWriter}
    (retains : Retains s.writer w) : ({ s with writer := w } : StackReconstructor).Named where
  category := fun settled => retains.stands _ _ (named.category (retains.settled settled)) settled
  symbols := fun raw id known settled =>
    retains.stands _ _ (named.symbols raw id known (retains.settled settled)) settled

/-- In the beginning nothing is cached, and the category has just been interned. -/
theorem create_named {w : FxtWriter} (coherent : Coherent w) : (create w).Named where
  category := fun _ => (internString_interned coherent.strings (text "trace")).stands
  symbols := by
    intro raw id known
    cases known

/-- Interning a symbol caches an id that stands for the shortened symbol. Its id
is settled as long as nothing is evicted. -/
theorem internSymbol_named {s : StackReconstructor} (coherent : Coherent s.writer)
    (named : s.Named) (raw : Text) : (s.internSymbol raw).1.Named := by
  rcases s.internSymbol_cases raw with ⟨id, _, same⟩ | ⟨_, new⟩
  · rw [same]
    exact named
  · have interned := internString_interned coherent.strings (shortenSymbol raw)
    have retained := named.retain interned.retains
    rw [new]
    refine ⟨retained.category, ?_⟩
    intro other id known settled
    rcases (lookup_insert_iff _ _ _ _ _).mp known with ⟨rfl, rfl⟩ | ⟨_, before⟩
    · exact interned.stands
    · exact retained.symbols other id before settled

/-- Preparing a write keeps the cached ids good. Each step interns a symbol or
enlists the thread. -/
theorem prepare_named {s : StackReconstructor} (coherent : Coherent s.writer) (named : s.Named)
    (write : Write) : (s.prepare write).1.Named := by
  obtain ⟨quiet, _⟩ := internSymbol_effect coherent write.event.symbol
  obtain ⟨enlisted, _⟩ := enlist_effect quiet.coherent write.thread
  have enlistedNamed := (internSymbol_named coherent named write.event.symbol).retain
    (ensureThread_retains quiet.coherent write.thread.pid.toUInt64 write.thread.tid.toUInt64)
  unfold prepare
  split
  · exact enlistedNamed
  · exact enlistedNamed
  · exact internSymbol_named enlisted.coherent enlistedNamed unknownSymbol

/-- Writing stamps by their ids interns nothing. So it takes no id away. -/
theorem writeStamps_retains (s : StackReconstructor) (slot : UInt8) (stamps : List Stamp) :
    Retains s.writer (s.writeStamps slot stamps) := by
  have written : ∀ w : FxtWriter, Retains w (stamps.foldl (fun writer stamp =>
      writer.writeEventById stamp.eventType slot s.categoryId (s.nameId stamp.symbol)
        stamp.timestamp) w) := by
    induction stamps with
    | nil =>
      intro w
      exact .of_same rfl rfl
    | cons stamp rest inductionHypothesis =>
      intro w
      have first : Retains w (w.writeEventById stamp.eventType slot s.categoryId
          (s.nameId stamp.symbol) stamp.timestamp) := .of_same rfl rfl
      exact first.trans (inductionHypothesis _)
  exact written s.writer

/-- Writing a recorded operation keeps the cached ids good. It may intern a
symbol, and names of a thread. -/
theorem writePending_named {s : StackReconstructor} (coherent : Coherent s.writer)
    (named : s.Named) (write : Write) : (s.writePending write).Named := by
  rw [writePending_eq coherent write]
  exact (prepare_named coherent named write).retain (writeStamps_retains _ _ _)

/-- The reconstructor after some of the writes handed over to it. It is followed
write by write, since each one can change what ids stand for. -/
def written (before : List WriterCall) (writes : List Write) : StackReconstructor :=
  writes.foldl writePending (create (afterCalls before))

/-- Writing one operation more continues what has been written. -/
theorem written_concat (before : List WriterCall) (writes : List Write) (w : Write) :
    written before (writes ++ [w]) = (written before writes).writePending w :=
  List.foldl_concat _ _ _ _

/-- Whatever is written, from any calls on, the writer stays coherent and the
cached ids stay good. Induct over the writes from the last one. -/
theorem written_named (before : List WriterCall) (writes : List Write) :
    Coherent (written before writes).writer ∧ (written before writes).Named := by
  induction writes using List.reverseRecOn with
  | nil =>
    have coherent := afterCalls_coherent before
    exact ⟨(create_quiet coherent).coherent, create_named coherent⟩
  | append_singleton past w inductionHypothesis =>
    obtain ⟨coherent, named⟩ := inductionHypothesis
    rw [written_concat]
    exact ⟨(writePending_effect coherent w).1, writePending_named coherent named w⟩

/-- A seen event is the one handed over, and its references resolve to the
category and to the stored form of the shortened symbol unless their ids may
have been reclaimed. -/
def NamedEvent (w : FxtWriter) (thread : ThreadKey) (stamp : Stamp) : Seen → Prop
  | .event eventType who category name categoryRef nameRef timestamp =>
    (eventType = stamp.eventType ∧ who = some thread.widen ∧ timestamp = stamp.timestamp) ∧
      (Settled w categoryRef → category = some (text "trace")) ∧
        (Settled w nameRef → name = some (effective (shortenSymbol stamp.symbol)))
  | _ => False

/-- What one more write shows at its position. Its names are those of the
symbols, unless an id has been given away. -/
theorem written_shows (before : List WriterCall) (past : List Write) (w : Write) :
    List.Forall₂ (NamedEvent (written before (past ++ [w])).writer w.thread) w.stamps
      (eventsSince (written before past).writer (written before (past ++ [w])).writer) := by
  obtain ⟨coherent, _⟩ := written_named before past
  obtain ⟨kept, named⟩ := written_named before (past ++ [w])
  rw [written_concat] at kept named ⊢
  obtain ⟨_, _, _, cached, events⟩ := writePending_effect coherent w
  rw [events, List.forall₂_map_right_iff]
  apply List.forall₂_same.mpr
  intro stamp member
  obtain ⟨id, known⟩ := cached stamp member
  have nameId : ((written before past).writePending w).nameId stamp.symbol = id := by
    rw [StackReconstructor.nameId, known]
    rfl
  refine ⟨⟨rfl, rfl, rfl⟩, ?_, ?_⟩
  · intro settled
    exact (named.category settled).resolves kept.strings
  · rw [nameId]
    intro settled
    exact (named.symbols stamp.symbol id known settled).resolves kept.strings

/-- The trace of some events is what is written of the operations that the
tracker hands over. -/
theorem reconstruct_written (before : List WriterCall) (order : HashOrder) (events : List Event) :
    (reconstruct before order events).writer =
      (written before (({} : Tracker).handed order events)).writer := by
  rw [reconstruct, finish_eq]
  rfl

/-- The trace of a run is written event by event, and at the position of each
event its references name the category and the function, as far as they are
settled there. -/
theorem names_resolve (before : List WriterCall) (order : HashOrder) (events : List Event) :
    (reconstruct before order events).writer =
        (written before (({} : Tracker).handed order events)).writer ∧
      ∀ past w future, ({} : Tracker).handed order events = past ++ w :: future →
        List.Forall₂ (NamedEvent (written before (past ++ [w])).writer w.thread) w.stamps
          (eventsSince (written before past).writer
            (written before (past ++ [w])).writer) := by
  constructor
  · exact reconstruct_written before order events
  · intro past w future _
    exact written_shows before past w

/-- What is written first shows in the trace. Later writes append to it. -/
theorem first_shows (before : List WriterCall) (w : Write) (rest : List Write) {seen : Seen}
    (member : seen ∈ eventsSince (written before []).writer (written before [w]).writer) :
    seen ∈ eventsSince (afterCalls before) (written before (w :: rest)).writer := by
  have quiet := create_quiet (afterCalls_coherent before)
  obtain ⟨news, grown⟩ := quiet.grown
  obtain ⟨kept, ⟨more, further⟩, _⟩ := writePending_effect quiet.coherent w
  obtain ⟨_, ⟨others, last⟩, _⟩ := writeAll_outlines kept rest
  have split : eventsSince (afterCalls before) (written before (w :: rest)).writer =
      eventsSince (afterCalls before) (written before []).writer ++
        (eventsSince (written before []).writer (written before [w]).writer ++
          eventsSince (written before [w]).writer (written before (w :: rest)).writer) :=
    (eventsSince_trans grown (further.trans last)).trans
      (congrArg _ (eventsSince_trans further last))
  rw [split]
  exact List.mem_append_right _ (List.mem_append_left _ member)

/-- The first symbol of a new writer gets the id behind that of the category. -/
theorem internSymbol_first {raw : Text} (nonblank : shortenSymbol raw ≠ [])
    (other : shortenSymbol raw ≠ text "trace") :
    ((written [] []).internSymbol raw).2 = 2 := by
  have unknown : (written [] []).writer.stringTable.lookup (shortenSymbol raw) = none :=
    (AList.lookup_insert_ne other).trans rfl
  have room : (written [] []).writer.nextStringId ≤ maxStringId := by decide
  have uncached : (written [] []).symbolIdCache.lookup raw = none := rfl
  simp only [internSymbol, uncached, internString, if_neg nonblank, unknown, if_pos room]
  rfl

/-- A run in which a thread starts in a function and ends. The function is
inferred, and ends with the trace. -/
def startIn (symbol : Text) (timeNs : UInt64) : List Event :=
  let br : BranchData := { traceState := .start, dst := { symbol } }
  [.ok { pid := 1, tid := 1, timeNs, data := .branch br }]

/-- A trace that starts in a function and goes no further hands over the begin
of the function, inferred, and its end. -/
theorem startIn_handed (symbol : Text) (timeNs : UInt64) :
    ({} : Tracker).handed .listed (startIn symbol timeNs) =
      [⟨⟨1, 1⟩, 0, Handling.callEvent { symbol } true⟩,
        ⟨⟨1, 1⟩, 0, Handling.leaveEvent { symbol }⟩] := by
  let started (last : UInt64) : Handling :=
    { key := ⟨1, 1⟩
      thread.callstack.stack := [{ symbol }]
      thread.pendingEvents := [Handling.callEvent { symbol } true]
      thread.lastEventTime := last }
  have processed : ({} : Tracker).processAll (startIn symbol timeNs) =
      (⟨timeNs, true, (∅ : Table ThreadKey ThreadInfo).insert ⟨1, 1⟩
        (started (timeNs - timeNs)).thread⟩, []) := rfl
  rw [Tracker.handed, processed, UInt64.sub_self]
  rfl

/-- A long symbol is not shown under its shortened form. Its record holds a part
of it and a mark. -/
theorem long_not_shown {symbol : Text} (plain : shortenSymbol symbol = symbol)
    (long : maxStringLength < symbol.length) :
    ¬ ∀ seen ∈ eventsSince (afterCalls []) (reconstruct [] .listed (startIn symbol 5)).writer,
      seen.names = [some (text "trace"), some (shortenSymbol symbol)] := by
  intro all
  have cut : effective symbol ≠ symbol := by
    intro same
    have bound := effective_length symbol
    rw [same] at bound
    omega
  have nonblank : symbol ≠ [] := by
    rintro rfl
    cases long
  have other : symbol ≠ text "trace" := by
    rintro rfl
    exact absurd long (by decide)
  have second : ((written [] []).internSymbol symbol).2 = 2 :=
    internSymbol_first (by rwa [plain]) (by rwa [plain])
  rw [reconstruct_written, startIn_handed] at all
  -- The event that begins the function has the id 2, which is settled.
  let w : Write := ⟨⟨1, 1⟩, 0, Handling.callEvent { symbol } true⟩
  obtain ⟨coherent, _⟩ := written_named [] []
  obtain ⟨kept, named⟩ := written_named [] [w]
  obtain ⟨_, _, _, cached⟩ := internSymbol_effect coherent symbol
  have known : (written [] [w]).symbolIdCache.lookup symbol = some 2 := second ▸ cached
  have events := (writePending_effect coherent w).2.2.2.2
  have shown : (written [] [w]).shown (written [] [w]).writer.reader ⟨1, 1⟩ ⟨2, symbol, 0⟩ ∈
      eventsSince (written [] []).writer (written [] [w]).writer := by
    refine events ▸ List.mem_map_of_mem ?_
    exact List.mem_cons_self
  have names := all _ (first_shows [] w _ shown)
  have nameId : (written [] [w]).nameId symbol = 2 := by
    rw [StackReconstructor.nameId, known]
    rfl
  have resolves := (named.symbols symbol 2 known (.inl (by decide))).resolves kept.strings
  simp only [StackReconstructor.shown, Seen.names, nameId, resolves, plain, List.cons.injEq,
    Option.some.injEq] at names
  exact cut names.2.1

/-- The name of a function whose symbol has 32000 bytes is cut in the trace. -/
theorem names_resolve_not_long :
    ¬ ∀ seen ∈ eventsSince (afterCalls [])
        (reconstruct [] .listed (startIn (List.replicate 32000 (byte 'a')) 5)).writer,
      seen.names =
        [some (text "trace"), some (shortenSymbol (List.replicate 32000 (byte 'a')))] := by
  apply long_not_shown
  · apply shortenSymbol_plain
    intro c member
    rw [List.eq_of_mem_replicate member]
    decide
  · rw [List.length_replicate]
    decide

end StackReconstructor

end Tracey
