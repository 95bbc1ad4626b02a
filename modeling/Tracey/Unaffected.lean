import Tracey.PrintedEvents
import Tracey.Renaming
import Tracey.SymbolNames

/-!
# What the file does not depend on

The filter looks at the symbols of branches, and the writer at the symbols and
the times of what it is handed. So two recordings that ask the same of their
threads, apart from the time at which they were made, leave the same file
behind, byte for byte. In particular the file does not depend on what is lost
when a printed output is read: a frequency that blanks fill up, and the period
of a counter.
-/

namespace Tracey

open PerfScriptParser Tracker

namespace TraceFilter

/-- Whether some work passes, and the filter behind it. Its thread and its time
are not looked at. -/
def answer (filter : TraceFilter) : Work → TraceFilter × Bool
  | .branch br => filter.shouldPass (.ok { data := .branch br })
  | .sample _ | .lost => (filter, filter.state = .recording)

/-- What passes of what is asked. The filter moves on behind each input. -/
def sift : TraceFilter → List (ThreadKey × UInt64 × Work) → List (ThreadKey × UInt64 × Work)
  | _, [] => []
  | filter, request :: rest =>
    (if (filter.answer request.2.2).2 then [request] else []) ++
      (filter.answer request.2.2).1.sift rest

/-- An event without a time does not move the filter. It is no branch. -/
theorem shouldPass_untimed (filter : TraceFilter) {event : Event} (untimed : event.timed = none) :
    (filter.shouldPass event).1 = filter := by
  cases event with
  | ok event =>
    obtain ⟨pid, tid, timeNs, data⟩ := event
    cases data with
    | branch br => cases untimed
    | stacktraceSample st => rfl
    | power _ => rfl
    | eventSample _ => rfl
  | decodeError error => rfl

/-- The filter answers an event by its work, and looks at nothing but symbols.
What is left out of the work does not count for it. -/
theorem shouldPass_timed (filter : TraceFilter) {event : Event} {due : UInt64 × Work}
    (timed : event.timed = some due) :
    filter.shouldPass event = filter.answer (Renaming.keep.work due.2) := by
  cases event with
  | ok event =>
    obtain ⟨pid, tid, timeNs, data⟩ := event
    cases data with
    | branch br =>
      obtain rfl := Option.some.inj timed
      rfl
    | stacktraceSample st =>
      obtain rfl := Option.some.inj timed
      rfl
    | power _ => cases timed
    | eventSample _ => cases timed
  | decodeError error =>
    obtain ⟨_, -, rfl⟩ := Option.map_eq_some_iff.mp timed
    rfl

/-- What the passing events ask is what passes of what is asked. The events that
do not pass ask nothing. -/
theorem asked_passed (filter : TraceFilter) (distance : UInt64) (events : List Event) :
    asked .keep distance (filter.passed events) = filter.sift (asked .keep distance events) := by
  induction events generalizing filter with
  | nil => rfl
  | cons event rest inductionHypothesis =>
    have split : ∀ first second : List Event, asked .keep distance (first ++ second) =
        asked .keep distance first ++ asked .keep distance second :=
      fun _ _ => List.filterMap_append
    rw [passed_cons, split, inductionHypothesis]
    cases timed : event.timed with
    | none =>
      have skipped : asked .keep distance (event :: rest) = asked .keep distance rest :=
        List.filterMap_cons_none (by rw [timed]; rfl)
      have silent : asked .keep distance
          (if (filter.shouldPass event).2 then [event] else []) = [] := by
        split
        · exact List.filterMap_cons_none (by rw [timed]; rfl)
        · rfl
      rw [skipped, silent, filter.shouldPass_untimed timed, List.nil_append]
    | some due =>
      have first : asked .keep distance (event :: rest) =
          (event.thread, due.1 + distance, Renaming.keep.work due.2) ::
            asked .keep distance rest := List.filterMap_cons_some (by rw [timed]; rfl)
      have single : asked .keep distance [event] =
          [(event.thread, due.1 + distance, Renaming.keep.work due.2)] :=
        List.filterMap_cons_some (by rw [timed]; rfl)
      rw [first, sift, filter.shouldPass_timed timed]
      split
      · rw [single]
      · rfl

/-- What the kept events ask is what passes of what is asked, from the state in
which the filter is made. -/
theorem asked_kept (config : Config) (distance : UInt64) (events : List Event) :
    asked .keep distance (config.kept events) =
      (create config).sift (asked .keep distance events) := by
  rw [← passed_create, asked_passed]

end TraceFilter

namespace StackReconstructor

/-- Nothing but symbols and times is written. Addresses and offsets are never
written. -/
theorem writePending_keep (s : StackReconstructor) (w : Write) :
    s.writePending (Renaming.keep.write w) = s.writePending w := rfl

/-- Reducing the writes to their names and times changes nothing that is
written. -/
theorem written_keep (before : List WriterCall) (writes : List Write) :
    written before (writes.map Renaming.keep.write) = written before writes := by
  rw [written, List.foldl_map]
  simp only [writePending_keep]
  rfl

/-- The trace depends on what is asked only. The threads are finished in the
same order, as they were entered alike. -/
theorem reconstruct_alike {distance distance' : UInt64} {events events' : List Event}
    (alike : asked .keep distance events = asked .keep distance' events')
    (before : List WriterCall) (order : HashOrder) :
    (reconstruct before order events).writer = (reconstruct before order events').writer := by
  rw [reconstruct_written, reconstruct_written, ← written_keep, handed_alike alike order,
    written_keep]

end StackReconstructor

/-- Two recordings that ask the same of their threads, each from its own time
on, leave the same bytes behind when they are sliced alike: addresses, offsets,
marks of transactions, messages, changes of frequency, counters, errors without
a time, and the moment at which the recording began are all without influence. -/
theorem file_unaffected (first second : Surroundings) (level level' : Level)
    (workingDir workingDir' output output' : Text) (sampling sampling' : Bool)
    (config : TraceFilter.Config) (distance distance' : UInt64)
    (sameClock : first.baseTimeNs = second.baseTimeNs) (sameOrder : first.order = second.order)
    (alike : asked .keep distance
        (eventsOf (first.printed (scriptCommand first workingDir sampling))) =
      asked .keep distance'
        (eventsOf (second.printed (scriptCommand second workingDir' sampling')))) :
    (decodePerfData first level workingDir output sampling config).trace =
      (decodePerfData second level' workingDir' output' sampling' config).trace := by
  have kept : asked .keep distance (config.kept
        (eventsOf (first.printed (scriptCommand first workingDir sampling)))) =
      asked .keep distance' (config.kept
        (eventsOf (second.printed (scriptCommand second workingDir' sampling')))) := by
    rw [TraceFilter.asked_kept, TraceFilter.asked_kept, alike]
  have same := StackReconstructor.reconstruct_alike kept [preambleCall second.baseTimeNs]
    second.order
  rw [decodePerfData_trace, decodePerfData_trace, sameClock, sameOrder, same]

/-- The caller of the tests at another address. -/
def movedPlace : Place := { callLine.src with ip := 0x1000 }

/-- The moved place has no arrow in it. -/
theorem movedPlace_noArrow : ¬ text " => " <:+: movedPlace.text := by decide

/-- The moved place is not taken for the mark of a transaction. -/
theorem movedPlace_noMark : ¬ text "(x)" <:+: movedPlace.text := by decide

/-- The call of the tests, a microsecond later, from there and in a transaction.
Nothing of this is asked by it. -/
def movedLine : BranchLine :=
  { callLine with
    timeNs := 4509191343299468
    period := 7
    inTransaction := true
    src := movedPlace
    noArrow := movedPlace_noArrow
    noMark := movedPlace_noMark
    arrowPad := 3 }

/-- A recording of this output. The clock stands still in it. -/
def sessionOf (items : List Printed) : Surroundings where
  isDirectory := fun _ => false
  printed := fun _ => printedText items
  ended := fun _ => .exited 0
  baseTimeNs := 0
  order := .listed

/-- The moved call, with a change of frequency before it, leaves the file of the
call. -/
theorem file_unaffected_moved :
    (decodePerfData (sessionOf [.branch callLine]) .normal (text "/tmp") (text "out.fxt") false
        {}).trace =
      (decodePerfData (sessionOf [.frequency frequencyLine, .branch movedLine]) .quiet (text "/tmp")
        (text "moved.fxt") false {}).trace := by
  have call : eventsOf (printedText [.branch callLine]) = [callLine.event] :=
    eventsOf_printed (by decide)
  have moved : eventsOf (printedText [.frequency frequencyLine, .branch movedLine]) =
      [frequencyLine.read, movedLine.event] := eventsOf_printed (by decide)
  have alike : asked .keep 1000 (eventsOf (printedText [.branch callLine])) =
      asked .keep 0 (eventsOf (printedText [.frequency frequencyLine, .branch movedLine])) := by
    rw [call, moved]
    decide +kernel
  exact file_unaffected (sessionOf [.branch callLine])
    (sessionOf [.frequency frequencyLine, .branch movedLine]) .normal .quiet (text "/tmp")
    (text "/tmp") (text "out.fxt") (text "moved.fxt") false false {} 1000 0 rfl rfl alike

/-- What is lost when a printed output is read, no thread would have been asked.

Induct over what is printed. An item that loses something has no time, and so
neither what it stands for nor what is read of it is asked. -/
theorem asked_read (distance : UInt64) (items : List Printed) :
    asked .keep distance (items.filterMap Printed.read) =
      asked .keep distance (items.filterMap Printed.event) := by
  simp only [asked, List.filterMap_filterMap]
  apply List.filterMap_congr
  intro item _
  rcases item.read_timed with exact | ⟨unread, unprinted⟩
  · rw [exact]
  · have silent : ∀ answer : Option Event, (∀ event ∈ answer, event.timed = none) →
        answer.bind (fun event => event.timed.map (fun due =>
          (event.thread, due.1 + distance, Renaming.keep.work due.2))) = none := by
      intro answer untimed
      refine Option.bind_eq_none_iff.mpr (fun event found => ?_)
      rw [untimed event found, Option.map_none]
    exact (silent _ unread).trans (silent _ unprinted).symm

/-- An output of perf script is read item by item, whatever kinds are mixed and
wherever empty lines stand: every item as what it stands for, but for a
frequency that blanks fill up and the period of a counter, and items that are
ignored leave no trace. The file does not show the difference: what is decoded
is the reconstruction of those events the output stands for that the slices
contain. -/
theorem printed_decoded (items : List Printed)
    (oneLine : ∀ item ∈ items, ∀ line ∈ item.lines, byte '\n' ∉ line) :
    eventsOf (printedText items) = items.filterMap Printed.read ∧
      (∀ item ∈ items, item.read = item.event ↔ item.Exact) ∧
      ∀ (surroundings : Surroundings) (level : Level) (workingDir output : Text) (sampling : Bool)
        (config : TraceFilter.Config),
        surroundings.printed (scriptCommand surroundings workingDir sampling) = printedText items →
          (decodePerfData surroundings level workingDir output sampling config).trace =
            (StackReconstructor.reconstruct [preambleCall surroundings.baseTimeNs]
              surroundings.order (config.kept (items.filterMap Printed.event))).writer.output := by
  have read := eventsOf_printed oneLine
  refine ⟨read, fun item _ => item.read_event, ?_⟩
  intro surroundings level workingDir output sampling config shown
  have kept : asked .keep 0 (config.kept (items.filterMap Printed.read)) =
      asked .keep 0 (config.kept (items.filterMap Printed.event)) := by
    rw [TraceFilter.asked_kept, TraceFilter.asked_kept, asked_read]
  have same := StackReconstructor.reconstruct_alike kept [preambleCall surroundings.baseTimeNs]
    surroundings.order
  rw [decodePerfData_trace, shown, read, same]

/-- The change of frequency of the tests, but to one of three digits. It has to
be filled up with a blank. -/
def paddedLine : FrequencyLine := { frequencyLine with freqPad := 1, freqMhz := 800 }

/-- The sample of the tests is read behind two changes of frequency, the second
of which is read as one to no frequency. The file is that of the frequencies as
they are printed. -/
theorem printed_decoded_three :
    eventsOf (printedText [.frequency frequencyLine, .blank, .frequency paddedLine,
        .sample cyclesSample]) =
      [frequencyLine.event, paddedLine.changed 0, cyclesSample.event] ∧
    (decodePerfData (sessionOf [.frequency frequencyLine, .blank, .frequency paddedLine,
        .sample cyclesSample]) .normal (text "/tmp") (text "out.fxt") false {}).trace =
      (StackReconstructor.reconstruct [preambleCall 0] .listed (({} : TraceFilter.Config).kept
        [frequencyLine.event, paddedLine.event, cyclesSample.event])).writer.output := by
  obtain ⟨read, -, decoded⟩ := printed_decoded [.frequency frequencyLine, .blank,
    .frequency paddedLine, .sample cyclesSample] (by decide)
  exact ⟨read, decoded (sessionOf _) .normal (text "/tmp") (text "out.fxt") false {} rfl⟩

end Tracey
