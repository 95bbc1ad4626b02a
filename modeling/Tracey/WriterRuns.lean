import Tracey.ThreadTable

/-!
# Runs of the writer

Every public operation keeps the writer coherent, so every sequence of calls on
a fresh writer does. The bytes written by such a sequence are read back exactly.
-/

namespace Tracey.FxtWriter

/-- The state of the writer when an event is about to be emitted for a thread,
and the two string references it will carry. -/
def prepareEvent (w : FxtWriter) (pid tid : UInt64) (category name : Text) :
    FxtWriter × UInt16 × UInt16 :=
  let ensured := (w.ensureThread pid tid).1
  let categorized := ensured.internString category
  let named := categorized.1.internString name
  (named.1, categorized.2, named.2)

/-- Writing an event is preparing its references and then writing one record.
The references are computed before the record, so that what they need is in the
file before it. -/
theorem emitEvent_eq (w : FxtWriter) (eventType : UInt8) (pid tid : UInt64)
    (category name : Text) (timestamp : UInt64) :
    w.emitEvent eventType pid tid category name timestamp =
      (w.prepareEvent pid tid category name).1.emit
        (.event eventType (w.ensureThread pid tid).2 (w.prepareEvent pid tid category name).2.1
          (w.prepareEvent pid tid category name).2.2 timestamp) := rfl

/-- Preparing an event shows none, and leaves the thread in its slot. Interning
the two texts does not take the slot away. -/
theorem prepareEvent_quiet {w : FxtWriter} (coherent : Coherent w) (pid tid : UInt64)
    (category name : Text) :
    Quiet w (w.prepareEvent pid tid category name).1 ∧
      (w.prepareEvent pid tid category name).1.threadTable.lookup ⟨pid, tid⟩ =
        some (w.ensureThread pid tid).2 := by
  obtain ⟨ensured, owned⟩ := ensureThread_quiet coherent pid tid
  have categorized := internString_interned ensured.coherent.strings category
  have categorizedQuiet := categorized.quiet ensured.coherent
  have named := internString_interned categorizedQuiet.coherent.strings name
  have namedQuiet := named.quiet categorizedQuiet.coherent
  refine ⟨(ensured.trans categorizedQuiet).trans namedQuiet, ?_⟩
  have kept : (w.prepareEvent pid tid category name).1.threadTable =
      (w.ensureThread pid tid).1.threadTable :=
    named.sameThreads.threadTable.trans categorized.sameThreads.threadTable
  rw [kept, owned]

/-- An event emitted for a thread is the only one shown, and its thread
reference resolves to that thread. -/
theorem emitEvent_events {w : FxtWriter} (coherent : Coherent w) (eventType : UInt8)
    (wellTyped : eventType.toNat < 2 ^ 4) (pid tid : UInt64) (category name : Text)
    (timestamp : UInt64) :
    let prepared := w.prepareEvent pid tid category name
    let emitted := w.emitEvent eventType pid tid category name timestamp
    Coherent emitted ∧ (∃ news, Extends w emitted news) ∧
      eventsSince w emitted =
        [.event eventType (some ⟨pid, tid⟩) (prepared.1.reader.resolve prepared.2.1)
          (prepared.1.reader.resolve prepared.2.2) prepared.2.1 prepared.2.2 timestamp] := by
  intro prepared emitted
  obtain ⟨quiet, owned⟩ := prepareEvent_quiet coherent pid tid category name
  obtain ⟨news, grown⟩ := quiet.grown
  have written := emit_extends prepared.1
    (.event eventType (w.ensureThread pid tid).2 prepared.2.1 prepared.2.2 timestamp)
  refine ⟨quiet.coherent.emit _ wellTyped rfl, ⟨_, grown.trans written⟩, ?_⟩
  have resolved : prepared.1.reader.threads (w.ensureThread pid tid).2 = some ⟨pid, tid⟩ :=
    quiet.coherent.thread_resolves owned
  have written' : emitted = prepared.1.emit (.event eventType (w.ensureThread pid tid).2
      prepared.2.1 prepared.2.2 timestamp) :=
    emitEvent_eq w eventType pid tid category name timestamp
  rw [written', eventsSince_trans grown written, quiet.eventless, eventsSince, emit_seen,
    List.nil_append]
  rw [← resolved]
  rfl

/-- An event written with given references resolves them in the reader's tables.
What they resolve to may not be what the caller meant, if an id has been given
away. -/
theorem writeEventById_events {w : FxtWriter} (coherent : Coherent w) (eventType : UInt8)
    (wellTyped : eventType.toNat < 2 ^ 4) (threadRef : UInt8) (categoryId nameId : UInt16)
    (timestamp : UInt64) :
    let emitted := w.writeEventById eventType threadRef categoryId nameId timestamp
    Coherent emitted ∧ Extends w emitted [.event eventType threadRef categoryId nameId timestamp] ∧
      eventsSince w emitted =
        [.event eventType (w.reader.threads threadRef) (w.reader.resolve categoryId)
          (w.reader.resolve nameId) categoryId nameId timestamp] := by
  intro emitted
  refine ⟨coherent.emit _ wellTyped rfl, emit_extends w _, ?_⟩
  have written : emitted = w.emit (.event eventType threadRef categoryId nameId timestamp) := rfl
  rw [written, eventsSince, emit_seen]
  rfl

/-- The preamble contains no string, no thread and no event. It may come at any
place among the calls. -/
theorem writePreamble_quiet {w : FxtWriter} (coherent : Coherent w) (providerName : Text)
    (providerId : UInt32) (ticksPerSecond baseTicks baseTimeNs : UInt64) :
    Quiet w (w.writePreamble providerName providerId ticksPerSecond baseTicks baseTimeNs) := by
  have silent : ∀ (w : FxtWriter) (record : Record), Coherent w → record.WellFormed →
      w.reader.read record.stored = w.reader → w.reader.see record.stored = [] →
      Quiet w (w.emit record) := by
    intro w record coherent wellFormed quiet unseen
    refine ⟨coherent.emit record wellFormed quiet, ⟨_, emit_extends w record⟩, ?_⟩
    rw [eventsSince, emit_seen, unseen, List.filter_nil]
  have magic := silent w .magicNumber coherent trivial rfl rfl
  have info := silent _ (.providerInfo providerId providerName) magic.coherent trivial rfl rfl
  have provider := silent _ (.providerSection providerId) info.coherent trivial rfl rfl
  have init := silent _ (.init ticksPerSecond baseTicks baseTimeNs) provider.coherent trivial rfl rfl
  exact ((magic.trans info).trans provider).trans init

/-- Every public operation keeps the writer coherent and only appends. By
induction this holds of every sequence of calls. -/
theorem perform_coherent {w : FxtWriter} (coherent : Coherent w) (call : WriterCall) :
    Coherent (w.perform call) ∧ ∃ news, Extends w (w.perform call) news := by
  cases call with
  | preamble providerName providerId ticksPerSecond baseTicks baseTimeNs =>
    have quiet := writePreamble_quiet coherent providerName providerId ticksPerSecond baseTicks
      baseTimeNs
    exact ⟨quiet.coherent, quiet.grown⟩
  | internString s =>
    have quiet := (internString_interned coherent.strings s).quiet coherent
    exact ⟨quiet.coherent, quiet.grown⟩
  | ensureThread pid tid =>
    have quiet := (ensureThread_quiet coherent pid tid).1
    exact ⟨quiet.coherent, quiet.grown⟩
  | durationBegin pid tid category name timestamp =>
    obtain ⟨kept, grown, _⟩ :=
      emitEvent_events coherent eventDurationBegin (by decide) pid tid category name timestamp
    exact ⟨kept, grown⟩
  | durationEnd pid tid category name timestamp =>
    obtain ⟨kept, grown, _⟩ :=
      emitEvent_events coherent eventDurationEnd (by decide) pid tid category name timestamp
    exact ⟨kept, grown⟩
  | eventById eventType threadRef categoryId nameId timestamp =>
    obtain ⟨kept, grown, _⟩ := writeEventById_events coherent eventType.1 eventType.2 threadRef
      categoryId nameId timestamp
    exact ⟨kept, _, grown⟩
  | processName pid name =>
    have quiet := (writeProcessName_quiet coherent pid name).1
    exact ⟨quiet.coherent, quiet.grown⟩
  | threadName pid tid name =>
    have quiet := (writeThreadName_quiet coherent pid tid name).1
    exact ⟨quiet.coherent, quiet.grown⟩

/-- A fresh writer stays coherent through any sequence of calls.

Induct over the calls, starting from any coherent state. -/
theorem afterCalls_coherent (calls : List WriterCall) : Coherent (afterCalls calls) := by
  have kept : ∀ w, Coherent w → Coherent (calls.foldl perform w) := by
    induction calls with
    | nil => intro w coherent; exact coherent
    | cons call rest inductionHypothesis =>
      intro w coherent
      exact inductionHypothesis (w.perform call) (perform_coherent coherent call).1
  exact kept {} coherent_fresh

/-- Walking the bytes written by any sequence of calls lands exactly on their
end, and reading each record returns exactly what the calls emitted, overlong
strings and provider names cut as the writer cuts them; no field overflows its
width. -/
theorem output_decodes (calls : List WriterCall) :
    Record.readTrace (afterCalls calls).output =
        some ((afterCalls calls).records.map Record.stored) ∧
      ∀ record ∈ (afterCalls calls).records, record.FieldsFit := by
  have coherent := afterCalls_coherent calls
  refine ⟨Record.readTrace_encode _ coherent.wellFormed, ?_⟩
  intro record member
  exact Record.fields_fit record (coherent.wellFormed record member)

end Tracey.FxtWriter
