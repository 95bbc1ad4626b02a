import Tracey.Decoding
import Tracey.Nesting
import Tracey.SymbolNames

/-!
# The file that decoding leaves behind

A viewer starts from the bytes of the file alone. It reads the records, replays
the strings and the threads among them, and shows every duration event with what
its references stand for at its position. Whatever perf script prints, the
viewer reads the whole file, every event belongs to a thread of the recording,
and the events of each thread nest. As long as the writer does not warn that its
string ids are used up, the viewer shows exactly what the reconstruction has
handed over: the functions by their shortened names, and the times.
-/

namespace Tracey

open BracketWord FiniteMap FxtWriter

/-- The events that a viewer sees in the bytes of a trace. A file that cannot be
read to its end is not shown at all. -/
def view (bytes : List UInt8) : Option (List Seen) :=
  (Record.readTrace bytes).map (fun records => (({} : Reader).watch records).filter Seen.isEvent)

namespace Seen

/-- The thread of what is seen, if it is an event and its thread is known. A
kernel object is none. -/
def thread : Seen → Option ThreadId
  | .event _ thread _ _ _ _ _ => thread
  | _ => none

/-- Whether a duration begins. The types of the other events are not begins
either. -/
def begins : Seen → Bool
  | .event eventType _ _ _ _ _ _ => eventType == eventDurationBegin
  | _ => false

/-- Whether a duration ends. -/
def ends : Seen → Bool
  | .event eventType _ _ _ _ _ _ => eventType == eventDurationEnd
  | _ => false

end Seen

/-- A viewer sees what a writer has written since the beginning. Every record
has been read back by then. -/
theorem view_output {w : FxtWriter} (coherent : Coherent w) :
    view w.output = some (eventsSince {} w) := by
  rw [view, output, Record.readTrace_encode _ coherent.wellFormed, Option.map_some]
  rfl

namespace StackReconstructor

/-- The writer of a reconstruction is coherent, whatever has been written before
it. -/
theorem reconstruct_coherent (before : List WriterCall) (order : HashOrder) (events : List Event) :
    Coherent (reconstruct before order events).writer := by
  rw [reconstruct_written]
  exact (written_named before _).1

/-- Behind a preamble a viewer sees the events of the reconstruction and no
others. -/
theorem view_reconstruct (baseTimeNs : UInt64) (order : HashOrder) (events : List Event) :
    view (reconstruct [preambleCall baseTimeNs] order events).writer.output =
      some (eventsSince (afterCalls [preambleCall baseTimeNs])
        (reconstruct [preambleCall baseTimeNs] order events).writer) := by
  have preamble := writePreamble_quiet coherent_fresh (text "tracey_mctraceface") 0 1000000000 0
    baseTimeNs
  have created := create_quiet preamble.coherent
  obtain ⟨news, grown⟩ := preamble.grown
  obtain ⟨more, further⟩ := created.grown
  obtain ⟨_, ⟨last, written⟩, _⟩ := writeAll_outlines created.coherent
    (({} : Tracker).handed order events)
  have whole : (reconstruct [preambleCall baseTimeNs] order events).writer =
      ((({} : Tracker).handed order events).foldl writePending
        (create (afterCalls [preambleCall baseTimeNs]))).writer := reconstruct_written _ _ _
  rw [view_output (reconstruct_coherent _ order events), whole]
  have quiet : eventsSince {} (afterCalls [preambleCall baseTimeNs]) = [] := preamble.eventless
  have split := eventsSince_trans grown (further.trans written)
  exact congrArg some (split.trans (by rw [preamble.eventless, List.nil_append]; rfl))

/-! Every event belongs to a thread of the recording. -/

/-- A thread for which no event has been processed writes nothing. The threads
of a file are therefore threads of events. -/
theorem handed_thread (order : HashOrder) (events : List Event) {w : Write}
    (member : w ∈ ({} : Tracker).handed order events) :
    ∃ event ∈ events, w.thread = event.thread := by
  by_contra foreign
  have unowned : events.filter (fun event => event.thread = w.thread) = [] := by
    apply List.filter_eq_nil_iff.mpr
    intro event inside same
    exact foreign ⟨event, inside, (of_decide_eq_true same).symm⟩
  have own : w ∈ (({} : Tracker).handed order events).filter (fun v => v.thread = w.thread) :=
    List.mem_filter.mpr ⟨member, decide_eq_true rfl⟩
  rw [Tracker.handed_own, ← Tracker.history_own, unowned] at own
  exact absurd own (List.not_mem_nil)

/-- A viewer of the bytes sees the outlines of the reconstruction, and events
only. Its own outlines of what it sees are these. -/
theorem outlines_view (baseTimeNs : UInt64) (order : HashOrder) (events : List Event) :
    ∃ seen, view (reconstruct [preambleCall baseTimeNs] order events).writer.output = some seen ∧
      (∀ shown ∈ seen, shown.isEvent = true) ∧
      seen.filterMap Seen.outline = outlines [preambleCall baseTimeNs] order events := by
  refine ⟨_, view_reconstruct baseTimeNs order events, ?_, rfl⟩
  intro shown member
  exact (List.mem_filter.mp member).2

/-- The outline of an event that is written. Its thread is that of an event that
was processed. -/
theorem mem_outlines {before : List WriterCall} {order : HashOrder} {events : List Event}
    {o : Outline} (member : o ∈ outlines before order events) :
    (o.eventType = 2 ∨ o.eventType = 3) ∧
      ∃ event ∈ events, o.thread = some event.thread.widen := by
  rw [outlines_eq] at member
  obtain ⟨w, handed, inside⟩ := List.mem_flatMap.mp member
  obtain ⟨stamp, written, rfl⟩ := List.mem_map.mp inside
  obtain ⟨event, source, same⟩ := handed_thread order events handed
  exact ⟨stamps_type written, event, source, by rw [outline, same]⟩

/-- Beginning and ending events are the opening and closing marks. So a count
over the file is one over the marks. -/
theorem seen_marks {seen : List Seen} (events : ∀ shown ∈ seen, shown.isEvent = true)
    (typed : ∀ o ∈ seen.filterMap Seen.outline, o.eventType = 2 ∨ o.eventType = 3) :
    openings ((seen.filterMap Seen.outline).map Outline.mark) = seen.countP Seen.begins ∧
      closings ((seen.filterMap Seen.outline).map Outline.mark) = seen.countP Seen.ends := by
  induction seen with
  | nil => exact ⟨rfl, rfl⟩
  | cons shown rest inductionHypothesis =>
    obtain ⟨first, others⟩ := List.forall_mem_cons.mp events
    cases shown with
    | event eventType thread category name categoryRef nameRef timestamp =>
      have split : (Seen.event eventType thread category name categoryRef nameRef timestamp ::
          rest).filterMap Seen.outline =
            ⟨eventType, thread, categoryRef, nameRef, timestamp⟩ :: rest.filterMap Seen.outline :=
        List.filterMap_cons_some rfl
      rw [split] at typed ⊢
      obtain ⟨here, later⟩ := List.forall_mem_cons.mp typed
      obtain ⟨opened, closed⟩ := inductionHypothesis others later
      rw [List.map_cons, List.countP_cons, List.countP_cons, ← opened, ← closed]
      rcases here with rfl | rfl
      · exact ⟨openings_opening _ _, closings_opening _ _⟩
      · exact ⟨openings_closing _ _, closings_closing _ _⟩
    | processObject name pid => cases first
    | threadObject name tid argName pid => cases first

/-- The marks of a thread's events nest. The names in them are the ids of
strings. -/
theorem outlines_nested (before : List WriterCall) (order : HashOrder) (events : List Event)
    (key : ThreadKey) :
    WellNested (((outlines before order events).filter (fun o => o.thread = some key.widen)).map
      Outline.mark) := by
  have word := walk_map (reconstruct before order events).nameId (stampsFor_complete order events key)
  rw [← outlines_marks] at word
  exact wellNested_of_walk word

/-- As many events end as begin. This holds of all threads together, as it does
of each. -/
theorem outlines_level (before : List WriterCall) (order : HashOrder) (events : List Event) :
    closings ((outlines before order events).map Outline.mark) =
      openings ((outlines before order events).map Outline.mark) := by
  apply level_of_keys Outline.thread
  intro thread
  by_cases owned : ∃ key : ThreadKey, thread = some key.widen
  · obtain ⟨key, rfl⟩ := owned
    exact (outlines_nested before order events key).level
  · have unowned : (outlines before order events).filter (fun o => o.thread = thread) = [] := by
      apply List.filter_eq_nil_iff.mpr
      intro o member same
      obtain ⟨_, event, _, source⟩ := mem_outlines member
      exact owned ⟨event.thread, (of_decide_eq_true same).symm.trans source⟩
    rw [unowned]
    rfl

end StackReconstructor

/-- Whatever perf script prints and however the recording is sliced, the bytes
of the trace are read as a whole; every event shown begins or ends something on
a thread of which an event has been kept; the events of each thread nest; and as
many end as begin. -/
theorem file_nested (surroundings : Surroundings) (level : Level) (workingDir output : Text)
    (sampling : Bool) (config : TraceFilter.Config) :
    let kept := config.kept
      (eventsOf (surroundings.printed (scriptCommand surroundings workingDir sampling)))
    ∃ seen, view (decodePerfData surroundings level workingDir output sampling config).trace =
        some seen ∧
      (∀ shown ∈ seen, (shown.begins = true ∨ shown.ends = true) ∧
        ∃ event ∈ kept, shown.thread = some event.thread.widen) ∧
      (∀ pid tid : UInt32, WellNested (((seen.filterMap Seen.outline).filter
        (fun o => o.thread = some ⟨pid.toUInt64, tid.toUInt64⟩)).map Outline.mark)) ∧
      seen.countP Seen.begins = seen.countP Seen.ends := by
  intro kept
  obtain ⟨seen, read, events, outlined⟩ := StackReconstructor.outlines_view
    surroundings.baseTimeNs surroundings.order kept
  have typed : ∀ o ∈ seen.filterMap Seen.outline, o.eventType = 2 ∨ o.eventType = 3 := by
    intro o member
    rw [outlined] at member
    exact (StackReconstructor.mem_outlines member).1
  obtain ⟨opened, closed⟩ := StackReconstructor.seen_marks events typed
  refine ⟨seen, ?_, ?_, ?_, ?_⟩
  · rw [decodePerfData_trace]
    exact read
  · intro shown member
    have whole := events shown member
    cases shown with
    | event eventType thread category name categoryRef nameRef timestamp =>
      have inside : (⟨eventType, thread, categoryRef, nameRef, timestamp⟩ : Outline) ∈
          seen.filterMap Seen.outline := List.mem_filterMap.mpr ⟨_, member, rfl⟩
      rw [outlined] at inside
      obtain ⟨either, source⟩ := StackReconstructor.mem_outlines inside
      refine ⟨?_, source⟩
      rcases either with code | code
      · exact .inl (beq_iff_eq.mpr code)
      · exact .inr (beq_iff_eq.mpr code)
    | processObject name pid => cases whole
    | threadObject name tid argName pid => cases whole
  · intro pid tid
    rw [outlined]
    exact StackReconstructor.outlines_nested _ surroundings.order kept ⟨pid, tid⟩
  · rw [← opened, ← closed, outlined]
    exact (StackReconstructor.outlines_level _ surroundings.order kept).symm

/-! What is shown while no string has been evicted. -/

/-- A duration event as a viewer shows it: its references are what they stand
for. -/
structure Shown where
  eventType : UInt8
  thread : Option ThreadId
  category : Option Text
  name : Option Text
  timestamp : UInt64
deriving DecidableEq, Repr

/-- The duration event as a viewer shows it. Kernel objects are not shown. Its
references have been resolved to texts. -/
def Seen.shown : Seen → Option Shown
  | .event eventType thread category name _ _ timestamp =>
    some ⟨eventType, thread, category, name, timestamp⟩
  | _ => none

/-- A duration event of a thread as it is to be shown. The name is the shortened
symbol as far as a record can hold it. -/
def Stamp.shown (thread : ThreadKey) (stamp : Stamp) : Shown where
  eventType := stamp.eventType
  thread := some thread.widen
  category := some (text "trace")
  name := some (effective (shortenSymbol stamp.symbol))
  timestamp := stamp.timestamp

namespace FxtWriter

/-- When the writer has used up its ids, it has said so. The message is then on
the error stream. -/
def Reported (w : FxtWriter) : Prop :=
  w.stringIdWarningIssued = true → stringIdLimitReached ∈ w.stderr

/-- What has been reported stays so as long as nothing more has to be. The error
stream is never cut. -/
theorem Reported.grown {w w' : FxtWriter} (reported : Reported w)
    (same : w'.stringIdWarningIssued = w.stringIdWarningIssued) (more : w.stderr <+: w'.stderr) :
    Reported w' := by
  intro issued
  rw [same] at issued
  exact more.subset (reported issued)

/-- Writing a string record may print a warning of its own, which takes no other
away. -/
theorem Reported.emitStringRecord {w : FxtWriter} (reported : Reported w) (id : UInt16) (s : Text) :
    Reported (w.emitStringRecord id s) := by
  unfold FxtWriter.emitStringRecord
  split
  · exact reported.grown rfl (List.prefix_append _ _)
  · exact reported.grown rfl (List.prefix_refl _)

/-- The warning about the ids is what reports them. A second one is not needed. -/
theorem Reported.warnStringIds {w : FxtWriter} (reported : Reported w) : Reported w.warnStringIds := by
  unfold FxtWriter.warnStringIds
  split
  · exact reported
  · intro _
    exact List.mem_append_right _ (List.mem_singleton.mpr rfl)

/-- Interning reports when the ids are used up, since it warns before it
reclaims one. -/
theorem Reported.internString {w : FxtWriter} (reported : Reported w) (s : Text) :
    Reported (w.internString s).1 := by
  unfold FxtWriter.internString
  split
  · exact reported
  split
  · exact reported
  split
  · have entered : Reported { w with
        nextStringId := w.nextStringId + 1
        stringTable := w.stringTable.insert s w.nextStringId } :=
      reported.grown rfl (List.prefix_refl _)
    exact entered.emitStringRecord _ s
  · dsimp only
    split
    · next entry _ =>
      have entered : Reported { w.warnStringIds with
          stringTable := (w.warnStringIds.stringTable.erase entry.1).insert s entry.2 } :=
        reported.warnStringIds.grown rfl (List.prefix_refl _)
      exact entered.emitStringRecord _ s
    · exact reported.warnStringIds

/-- So does making sure that a thread has a slot, which interns labels. Any of
them may be the one that is too many. -/
theorem Reported.ensureThread {w : FxtWriter} (reported : Reported w) (pid tid : UInt64) :
    Reported (w.ensureThread pid tid).1 := by
  cases known : w.threadTable.lookup ⟨pid, tid⟩ with
  | some slot =>
    rw [ensureThread_known known]
    exact reported
  | none =>
    have claimed : Reported (w.claimSlot pid tid) := reported.grown rfl (List.prefix_refl _)
    have named : Reported ((w.claimSlot pid tid).nameProcess pid) := by
      unfold nameProcess
      split
      · exact claimed
      · have noted : Reported { w.claimSlot pid tid with
            namedProcesses := insert pid (w.claimSlot pid tid).namedProcesses } :=
          claimed.grown rfl (List.prefix_refl _)
        have interned := noted.internString (processLabel pid)
        exact interned.grown rfl (List.prefix_refl _)
    have interned := (named.internString (threadLabel tid)).internString (text "process")
    rw [ensureThread_new known]
    exact interned.grown rfl (List.prefix_refl _)

end FxtWriter

namespace StackReconstructor

/-- So does interning a symbol. -/
theorem internSymbol_reported {s : StackReconstructor} (reported : Reported s.writer) (raw : Text) :
    Reported (s.internSymbol raw).1.writer := by
  rcases s.internSymbol_cases raw with ⟨id, _, same⟩ | ⟨_, new⟩
  · rw [same]
    exact reported
  · rw [new]
    exact reported.internString _

/-- So does writing a recorded operation. -/
theorem writePending_reported {s : StackReconstructor} (reported : Reported s.writer)
    (write : Write) : Reported (s.writePending write).writer := by
  have enlisted := (internSymbol_reported reported write.event.symbol).ensureThread
    write.thread.pid.toUInt64 write.thread.tid.toUInt64
  unfold writePending
  dsimp only
  split
  · exact enlisted.grown rfl (List.prefix_refl _)
  · exact enlisted.grown rfl (List.prefix_refl _)
  · exact (internSymbol_reported (s := { (s.internSymbol write.event.symbol).1 with
      writer := _ }) enlisted unknownSymbol).grown rfl (List.prefix_refl _)

/-- Whatever is written behind a preamble, it is reported when the ids are used
up. -/
theorem written_reported (baseTimeNs : UInt64) (writes : List Write) :
    Reported (written [preambleCall baseTimeNs] writes).writer := by
  induction writes using List.reverseRecOn with
  | nil =>
    have preamble : Reported (afterCalls [preambleCall baseTimeNs]) := fun issued =>
      absurd issued Bool.false_ne_true
    exact preamble.internString (text "trace")
  | append_singleton past w inductionHypothesis =>
    rw [written_concat]
    exact writePending_reported inductionHypothesis w

/-- Interning a symbol takes no id away from a string that is settled. -/
theorem internSymbol_retains {s : StackReconstructor} (coherent : Coherent s.writer) (raw : Text) :
    Retains s.writer (s.internSymbol raw).1.writer := by
  rcases s.internSymbol_cases raw with ⟨id, _, same⟩ | ⟨_, new⟩
  · rw [same]
    exact .of_same rfl rfl
  · rw [new]
    exact (internString_interned coherent.strings _).retains

/-- Nor does writing a recorded operation. It may intern a symbol and the names
of a thread. -/
theorem writePending_retains {s : StackReconstructor} (coherent : Coherent s.writer)
    (write : Write) : Retains s.writer (s.writePending write).writer := by
  have named := internSymbol_retains coherent write.event.symbol
  obtain ⟨quiet, _⟩ := internSymbol_effect coherent write.event.symbol
  obtain ⟨enlisted, _⟩ := enlist_effect quiet.coherent write.thread
  have both := named.trans (ensureThread_retains quiet.coherent write.thread.pid.toUInt64
    write.thread.tid.toUInt64)
  have prepared : Retains s.writer (s.prepare write).1.writer := by
    unfold prepare
    split
    · exact both
    · exact both
    · exact both.trans (internSymbol_retains enlisted.coherent unknownSymbol)
  rw [writePending_eq coherent write]
  exact prepared.trans (writeStamps_retains _ _ _)

/-- Events that are named as handed over are shown so where no string has been
evicted. -/
theorem named_shown {w : FxtWriter} (calm : w.stringIdWarningIssued = false) {thread : ThreadKey}
    {stamps : List Stamp} {seen : List Seen}
    (named : List.Forall₂ (NamedEvent w thread) stamps seen) :
    seen.filterMap Seen.shown = stamps.map (Stamp.shown thread) := by
  induction named with
  | nil => rfl
  | @cons stamp event stamps seen first _ inductionHypothesis =>
    cases event with
    | event eventType who category name categoryRef nameRef timestamp =>
      obtain ⟨⟨rfl, rfl, rfl⟩, categorised, called⟩ := first
      have here : Seen.shown (.event stamp.eventType (some thread.widen) category name categoryRef
          nameRef stamp.timestamp) = some (stamp.shown thread) := by
        rw [categorised (.inr calm), called (.inr calm)]
        rfl
      rw [List.filterMap_cons_some here, List.map_cons, inductionHypothesis]
    | processObject name pid => exact first.elim
    | threadObject name tid argName pid => exact first.elim

/-- While no string has been evicted, every event that is handed over is shown
as it is.

Induct over the writes from the last one; the calm at the end was one all along. -/
theorem calm_shown (before : List WriterCall) (writes : List Write)
    (calm : (written before writes).writer.stringIdWarningIssued = false) :
    (∃ news, Extends (afterCalls before) (written before writes).writer news) ∧
      (eventsSince (afterCalls before) (written before writes).writer).filterMap Seen.shown =
        writes.flatMap (fun w => w.stamps.map (Stamp.shown w.thread)) := by
  induction writes using List.reverseRecOn with
  | nil =>
    have created := create_quiet (afterCalls_coherent before)
    refine ⟨created.grown, ?_⟩
    have eventless : eventsSince (afterCalls before) (written before []).writer = [] := created.eventless
    rw [eventless]
    rfl
  | append_singleton past w inductionHypothesis =>
    obtain ⟨coherent, _⟩ := written_named before past
    obtain ⟨_, ⟨more, further⟩, _⟩ := writePending_effect coherent w
    have retained := writePending_retains coherent w
    have named := written_shows before past w
    rw [written_concat] at calm named ⊢
    have before' : (written before past).writer.stringIdWarningIssued = false := by
      cases issued : (written before past).writer.stringIdWarningIssued with
      | false => rfl
      | true =>
        rw [retained.warned issued] at calm
        cases calm
    obtain ⟨⟨news, grown⟩, shown⟩ := inductionHypothesis before'
    refine ⟨⟨_, grown.trans further⟩, ?_⟩
    rw [eventsSince_trans grown further, List.filterMap_append, shown, named_shown calm named,
      List.flatMap_append, List.flatMap_singleton]

/-- What a viewer shows of a reconstruction that has evicted no string. Each
event is shown under the name of its symbol, on its thread and with its time. -/
theorem reconstruct_shown (baseTimeNs : UInt64) (order : HashOrder) (events : List Event)
    (calm : (reconstruct [preambleCall baseTimeNs] order events).writer.stringIdWarningIssued =
      false) :
    ∃ seen, view (reconstruct [preambleCall baseTimeNs] order events).writer.output = some seen ∧
      seen.filterMap Seen.shown = (({} : Tracker).handed order events).flatMap
        (fun w => w.stamps.map (Stamp.shown w.thread)) := by
  refine ⟨_, view_reconstruct baseTimeNs order events, ?_⟩
  rw [reconstruct_written] at calm ⊢
  exact (calm_shown _ _ calm).2

end StackReconstructor

/-- A decoding that has not warned of evicted strings has evicted none. The
message would be on the error stream otherwise. -/
theorem decodePerfData_calm {surroundings : Surroundings} {level : Level}
    {workingDir output : Text} {sampling : Bool} {config : TraceFilter.Config}
    (calm : stringIdLimitReached ∉
      (decodePerfData surroundings level workingDir output sampling config).stderr) :
    (StackReconstructor.reconstruct [preambleCall surroundings.baseTimeNs] surroundings.order
      (config.kept (eventsOf (surroundings.printed
        (scriptCommand surroundings workingDir sampling))))).writer.stringIdWarningIssued = false := by
  rw [decodePerfData_stderr] at calm
  rw [StackReconstructor.reconstruct_written] at calm ⊢
  have reported := StackReconstructor.written_reported surroundings.baseTimeNs
    (({} : Tracker).handed surroundings.order (config.kept (eventsOf (surroundings.printed
      (scriptCommand surroundings workingDir sampling)))))
  rw [← Bool.not_eq_true]
  intro issued
  exact calm (List.mem_append_left _ (List.mem_append_right _ (reported issued)))

/-- If decoding prints no warning that the string ids are used up, the bytes of
the trace show exactly the events that the reconstruction has handed over, in
their order: each begins or ends a function under its shortened name, on its
thread and at its time. -/
theorem file_names (surroundings : Surroundings) (level : Level) (workingDir output : Text)
    (sampling : Bool) (config : TraceFilter.Config)
    (calm : stringIdLimitReached ∉
      (decodePerfData surroundings level workingDir output sampling config).stderr) :
    let kept := config.kept
      (eventsOf (surroundings.printed (scriptCommand surroundings workingDir sampling)))
    ∃ seen, view (decodePerfData surroundings level workingDir output sampling config).trace =
        some seen ∧
      seen.filterMap Seen.shown = (({} : Tracker).handed surroundings.order kept).flatMap
        (fun w => w.stamps.map (Stamp.shown w.thread)) := by
  rw [decodePerfData_trace]
  exact StackReconstructor.reconstruct_shown _ _ _ (decodePerfData_calm calm)

/-- Surroundings in which perf script prints one call. The clock and the hash
table are fixed as well. -/
def callSurroundings : Surroundings where
  isDirectory := fun _ => true
  printed := fun _ => text ("25375/25375 4509191.343298468:            1   branches:uH:   " ++
    "call                     7f6fce0b71f4 __clock_gettime+0x24 (foo.so) => " ++
    "7ffd193838e0 __vdso_clock_gettime+0x0 (foo.so)\n")
  ended := fun _ => .exited 0
  baseTimeNs := 0
  order := .listed

/-- The caller and the called function are shown by their names. -/
theorem file_names_call :
    ∃ seen, view (decodePerfData callSurroundings .normal (text "/tmp") (text "out.fxt") false
        {}).trace = some seen ∧
      (seen.filterMap Seen.shown).map Shown.name =
        [some (text "__clock_gettime"), some (text "__vdso_clock_gettime"),
          some (text "__vdso_clock_gettime"), some (text "__clock_gettime")] := by
  obtain ⟨seen, read, shown⟩ := file_names callSurroundings .normal (text "/tmp") (text "out.fxt")
    false {} (by decide +kernel)
  rw [TraceFilter.kept_all rfl rfl] at shown
  refine ⟨seen, read, ?_⟩
  rw [shown]
  decide +kernel

end Tracey
