import Tracey.DecodeSession
import Tracey.WrittenEvents

/-!
# Decoding as a composition

The loop of the decoder keeps a parser, a filter and a reconstructor in step.
Over a whole output they can be run one after the other: first the events of all
groups of lines, then the slices of these events, then the reconstruction of
what the slices contain. Every statement about the reconstruction of some events
is therefore one about decoding.
-/

namespace Tracey

open PerfScriptParser

/-- The events that an output of perf script stands for. It does not depend on
how the output arrives. -/
def eventsOf (printed : Text) : List Event :=
  (groups (Subprocess.lines printed)).filterMap (parseGroup ·.2)

namespace TraceFilter

/-- The events of the slices. The cut is made over the whole sequence. -/
def Config.kept (config : Config) (events : List Event) : List Event :=
  (config.pieces events).flatMap Slices.Piece.kept

/-- Without markers every event is kept. The number of slices makes no
difference. -/
theorem kept_all {config : Config} (start : config.startSymbol = []) (stop : config.endSymbol = [])
    (events : List Event) : config.kept events = events := by
  have opened : Slices.opening config.begins events = some ([], [], events) := by
    rw [Config.begins, if_pos start]
    rfl
  have open' : Slices.closing config.ends events = none :=
    Slices.closing_none.mpr (fun event _ => by simp [Config.ends, stop])
  rw [Config.kept, Config.pieces, Slices.pieces_open opened open']
  exact List.append_nil events

/-- The events that pass. They are in their order. -/
def passed (filter : TraceFilter) (events : List Event) : List Event :=
  ((filter.passAll events).2.filter Prod.snd).map Prod.fst

/-- Of several events pass the first, if it does, and those of the others that
pass behind it. -/
theorem passed_cons (filter : TraceFilter) (event : Event) (rest : List Event) :
    filter.passed (event :: rest) =
      (if (filter.shouldPass event).2 then [event] else []) ++
        (filter.shouldPass event).1.passed rest := by
  simp only [passed, passAll, List.filter_cons]
  split
  · rfl
  · rfl

/-- What passes a new filter is what the slices contain. The machine and the cut
agree about each event. -/
theorem passed_create (config : Config) (events : List Event) :
    (create config).passed events = config.kept events := by
  have follows := ready_follows (create config) rfl events
  rw [passed, follows.marked, Slices.marked_kept]
  rfl

/-- An event that does not pass leaves the filter as it was. A filter moves only
with an event that passes. -/
theorem shouldPass_rejected {filter : TraceFilter} {event : Event}
    (rejected : (filter.shouldPass event).2 = false) : (filter.shouldPass event).1 = filter := by
  unfold shouldPass at rejected ⊢
  split at rejected
  · split at rejected
    · split at rejected
      · cases rejected
      · next unmatched => rw [if_neg unmatched]
    · split at rejected
      · cases rejected
      · cases rejected
    · rfl
  · rfl

/-- What has passed passes again, and moves the filter as all events did. So a
filter that has been applied has nothing left to do. -/
theorem passAll_passed (filter : TraceFilter) (events : List Event) :
    filter.passAll (filter.passed events) =
      ((filter.passAll events).1, (filter.passed events).map (·, true)) := by
  induction events generalizing filter with
  | nil => rfl
  | cons event rest inductionHypothesis =>
    rw [passed_cons]
    cases passes : (filter.shouldPass event).2 with
    | false =>
      have same := shouldPass_rejected passes
      have again := inductionHypothesis filter
      simp only [Bool.false_eq_true, if_false, List.nil_append, passAll, same, again]
    | true =>
      have again := inductionHypothesis (filter.shouldPass event).1
      simp only [if_true, List.singleton_append, passAll, again, passes, List.map_cons]

/-- Slicing what has been sliced keeps all of it, and reports the same: as many
closed slices, and the start symbol as missing if it was. -/
theorem kept_again (config : Config) (events : List Event) :
    config.kept (config.kept events) = config.kept events ∧
      ((create config).passAll (config.kept events)).1 = ((create config).passAll events).1 ∧
      (config.pieces (config.kept events)).countP Slices.Piece.isClosed =
        (config.pieces events).countP Slices.Piece.isClosed := by
  have again := (create config).passAll_passed events
  rw [passed_create] at again
  have filter := congrArg Prod.fst again
  have closed : ∀ events, ((create config).passAll events).1.sliceCount =
      (config.pieces events).countP Slices.Piece.isClosed := by
    intro events
    have counted := (ready_follows (create config) rfl events).counted
    rwa [create, Int.zero_add] at counted
  refine ⟨?_, filter, ?_⟩
  · rw [← passed_create, passed, again, List.filter_eq_self.mpr (by simp), List.map_map]
    exact List.map_id _
  · have counts := congrArg TraceFilter.sliceCount filter
    rw [closed, closed] at counts
    exact Int.ofNat_inj.mp counts

/-- The messages behind the loop report the closed slices, and a start symbol
that was configured when no slice has opened. -/
theorem passAll_reports (config : Config) (events : List Event) :
    ((create config).passAll events).1.sliceCount =
        (config.pieces events).countP Slices.Piece.isClosed ∧
      ((create config).passAll events).1.startSymbolMissing =
        (config.startSymbol ≠ [] && !(config.pieces events).any Slices.Piece.isSlice) := by
  have follows := ready_follows (create config) rfl events
  have counted := follows.counted
  rw [create, Int.zero_add] at counted
  refine ⟨counted, ?_⟩
  rw [startSymbolMissing, follows.configured]
  by_cases configured : config.startSymbol = []
  · simp [create, configured]
  · rw [follows.saw configured]
    rfl

end TraceFilter

namespace Decoder

/-- Accepting does not look at the parser. The two can therefore be done one
after the other. -/
theorem accept_aside (d : Decoder) (parser : PerfScriptParser) (event : Event) :
    ({ d with parser } : Decoder).accept event = { d.accept event with parser } := by
  simp only [accept]
  split
  · rfl
  · rfl

/-- Handling an answer does not look at the parser. -/
theorem acceptAny_aside (d : Decoder) (parser : PerfScriptParser) (answer : Option Event) :
    ({ d with parser } : Decoder).acceptAny answer = { d.acceptAny answer with parser } := by
  cases answer with
  | none => rfl
  | some event => exact d.accept_aside parser event

/-- Nor does handling several events. -/
theorem acceptAll_aside (d : Decoder) (parser : PerfScriptParser) (events : List Event) :
    events.foldl accept { d with parser } = { events.foldl accept d with parser } := by
  induction events generalizing d with
  | nil => rfl
  | cons event rest inductionHypothesis =>
    rw [List.foldl_cons, accept_aside, inductionHypothesis]
    rfl

/-- Accepting events one by one filters them and reconstructs what passes. The
count goes up by the number of those. -/
theorem acceptAll_eq (d : Decoder) (events : List Event) :
    events.foldl accept d =
      { d with
        filter := (d.filter.passAll events).1
        reconstructor := d.reconstructor.processAll (d.filter.passed events)
        eventCount := d.eventCount + UInt64.ofNat (d.filter.passed events).length } := by
  induction events generalizing d with
  | nil =>
    have unchanged : d.eventCount + UInt64.ofNat 0 = d.eventCount := UInt64.add_zero _
    exact (congrArg (fun count => { d with eventCount := count }) unchanged).symm
  | cons event rest inductionHypothesis =>
    rw [List.foldl_cons, inductionHypothesis, TraceFilter.passed_cons]
    simp only [accept, TraceFilter.passAll]
    split
    · have counted : ∀ count : Nat, d.eventCount + 1 + UInt64.ofNat count =
          d.eventCount + UInt64.ofNat (count + 1) := by
        intro count
        rw [UInt64.ofNat_add, UInt64.add_assoc, UInt64.add_comm 1]
        rfl
      simp only [List.singleton_append, List.length_cons, counted]
      rfl
    · rfl

/-- Feeding lines to their end is accepting the answers of the parser. The last
answer is the one of the end. -/
theorem feedAll_finish (d : Decoder) (lines : List Text) (order : HashOrder) :
    (lines.foldl feed d).finish order =
      let fed := d.parser.feedLines lines
      let accepted := fed.2.reduceOption.foldl accept { d with parser := fed.1 }
      { accepted with reconstructor := accepted.reconstructor.finish order } := by
  have single : ∀ (d : Decoder) (answer : Option Event),
      d.acceptAny answer = answer.toList.foldl accept d := by
    intro d answer
    cases answer with
    | none => rfl
    | some event => rfl
  induction lines generalizing d with
  | nil =>
    have last : ∀ answer : Option Event, [answer].reduceOption = answer.toList := by
      intro answer
      cases answer with
      | none => rfl
      | some event => rfl
    simp only [List.foldl_nil, finish, feedLines, last, single]
  | cons line rest inductionHypothesis =>
    have parser : (d.feed line).parser = (d.parser.feedLine line).1 := by
      simp only [feed, acceptAny_aside]
    have moved : ∀ p : PerfScriptParser, ({ d.feed line with parser := p } : Decoder) =
        { d.acceptAny (d.parser.feedLine line).2 with parser := p } := by
      intro p
      simp only [feed, acceptAny_aside]
    rw [List.foldl_cons, inductionHypothesis, parser]
    simp only [feedLines, Grouping.reduceOption_cons, List.foldl_append, moved, acceptAll_aside,
      single]

/-- The loop feeds the lines of the output, all of them if the fuel is not used
up, and leaves nothing in the pipe.

Induct over the fuel; each line that is found shortens the output. -/
theorem readLoop_lines (fuel : Nat) (printed line : Text) (child : Option ExitStatus)
    (d : Decoder) (enough : printed.length < fuel) :
    d.readLoop fuel ⟨some printed, child⟩ line =
      (⟨some [], child⟩, (Subprocess.lines printed).foldl feed d) := by
  induction fuel generalizing printed line d with
  | zero => exact absurd enough (Nat.not_lt_zero _)
  | succ fuel inductionHypothesis =>
    rcases Subprocess.readLine_lines printed line child with
      ⟨empty, read⟩ | ⟨first, rest, found, shorter, read⟩
    · simp only [readLoop, read, empty, List.foldl_nil]
    · have later := inductionHypothesis rest first (d.feed first) (by omega)
      simp only [readLoop, read, later, found, List.foldl_cons]

/-- The loop takes the output apart into lines and feeds each of them once, in
order, until the pipe is empty. No line contains a newline; with newlines behind
them they are the output again, with a newline added where its last line had
none; and lines that are printed with newlines are the lines that are fed. -/
theorem readLoop_whole (printed line : Text) (child : Option ExitStatus) (d : Decoder)
    (spare : Nat) :
    ∃ lines, d.readLoop (printed.length + 1 + spare) ⟨some printed, child⟩ line =
        (⟨some [], child⟩, lines.foldl feed d) ∧
      (∀ line ∈ lines, byte '\n' ∉ line) ∧
      lines.flatMap (· ++ [byte '\n']) =
        (if printed = [] ∨ printed.getLast? = some (byte '\n') then printed
          else printed ++ [byte '\n']) ∧
      ∀ apart : List Text, (∀ line ∈ apart, byte '\n' ∉ line) →
        printed = apart.flatMap (· ++ [byte '\n']) → lines = apart := by
  refine ⟨Subprocess.lines printed, readLoop_lines _ printed line child d (by omega),
    Separated.terminated_plain printed, Separated.ended_terminated printed, ?_⟩
  rintro apart plain rfl
  exact Separated.terminated_ended plain

end Decoder

/-- The call that writes the preamble of a decoded trace. The name, the id and
the rate are fixed. -/
def preambleCall (baseTimeNs : UInt64) : WriterCall :=
  .preamble (text "tracey_mctraceface") 0 1000000000 0 baseTimeNs

/-- The decoder behind a whole output. It is what its parts give, one after the
other. -/
theorem Decoder.whole (config : TraceFilter.Config) (baseTimeNs : UInt64) (printed : Text)
    (order : HashOrder) :
    let kept := config.kept (eventsOf printed)
    let d := ((Subprocess.lines printed).foldl feed (create config baseTimeNs)).finish order
    d.filter = ((TraceFilter.create config).passAll (eventsOf printed)).1 ∧
      d.reconstructor = StackReconstructor.reconstruct [preambleCall baseTimeNs] order kept ∧
      d.eventCount = UInt64.ofNat kept.length := by
  intro kept d
  have parsed : (({} : PerfScriptParser).feedLines (Subprocess.lines printed)).2.reduceOption =
      eventsOf printed := feedLines_events _
  have passed : (TraceFilter.create config).passed (eventsOf printed) = kept :=
    TraceFilter.passed_create config _
  have finished := (create config baseTimeNs).feedAll_finish (Subprocess.lines printed) order
  have fresh : (create config baseTimeNs).parser = {} := rfl
  have filter : (create config baseTimeNs).filter = .create config := rfl
  simp only [fresh, parsed, acceptAll_eq, filter, passed] at finished
  have counted : d.eventCount = 0 + UInt64.ofNat kept.length := congrArg Decoder.eventCount finished
  refine ⟨congrArg Decoder.filter finished, congrArg Decoder.reconstructor finished, ?_⟩
  rw [counted, UInt64.zero_add]

/-- The loop and what finishes it, over a whole output. The fuel is enough for
any output of this length. -/
theorem Decoder.read_whole (config : TraceFilter.Config) (baseTimeNs : UInt64) (printed : Text)
    (status : ExitStatus) (order : HashOrder) :
    let kept := config.kept (eventsOf printed)
    ∃ d, (create config baseTimeNs).readLoop (printed.length + 1)
        (Subprocess.start printed status) [] = (⟨some [], some status⟩, d) ∧
      (d.finish order).filter = ((TraceFilter.create config).passAll (eventsOf printed)).1 ∧
      (d.finish order).reconstructor =
        StackReconstructor.reconstruct [preambleCall baseTimeNs] order kept ∧
      (d.finish order).eventCount = UInt64.ofNat kept.length := by
  intro kept
  have read := readLoop_lines (printed.length + 1) printed [] (some status)
    (create config baseTimeNs) (Nat.lt_succ_self _)
  exact ⟨_, read, whole config baseTimeNs printed order⟩

section

variable (surroundings : Surroundings) (level : Level) (workingDir output : Text)
  (sampling : Bool) (config : TraceFilter.Config)

/-- The trace of a decoding is that of the events in the whole output, as far as
the slices contain them. -/
theorem decodePerfData_trace :
    (decodePerfData surroundings level workingDir output sampling config).trace =
      (StackReconstructor.reconstruct [preambleCall surroundings.baseTimeNs] surroundings.order
        (config.kept (eventsOf (surroundings.printed
          (scriptCommand surroundings workingDir sampling))))).writer.output := by
  obtain ⟨d, read, -, reconstructor, -⟩ := Decoder.read_whole config surroundings.baseTimeNs
    (surroundings.printed (scriptCommand surroundings workingDir sampling))
    (surroundings.ended (scriptCommand surroundings workingDir sampling)) surroundings.order
  simp only [decodePerfData, read, reconstructor]

/-- What a decoding prints on the error stream is told by the whole output as
well: the command in front, the warnings of the writer, and the messages at the
end. -/
theorem decodePerfData_stderr :
    let command := scriptCommand surroundings workingDir sampling
    let events := eventsOf (surroundings.printed command)
    let kept := config.kept events
    let pieces := config.pieces events
    (decodePerfData surroundings level workingDir output sampling config).stderr =
      Log.debug level (shownCommand (text "perf script command:") command) ++
        (StackReconstructor.reconstruct [preambleCall surroundings.baseTimeNs] surroundings.order
          kept).writer.stderr ++
        closingMessages config.startSymbol
          (config.startSymbol ≠ [] && !pieces.any Slices.Piece.isSlice)
          (pieces.countP Slices.Piece.isClosed) (UInt64.ofNat kept.length) output
          (surroundings.ended command).code := by
  intro command events kept pieces
  obtain ⟨d, read, filter, reconstructor, eventCount⟩ := Decoder.read_whole config
    surroundings.baseTimeNs (surroundings.printed command) (surroundings.ended command)
    surroundings.order
  obtain ⟨counted, missing⟩ := TraceFilter.passAll_reports config events
  have started : scriptCommand surroundings workingDir sampling = command := rfl
  simp only [decodePerfData, started, read, filter, reconstructor, eventCount, Subprocess.wait]
  rw [show eventsOf (surroundings.printed command) = events from rfl, missing, counted]

/-- Decoding writes the reconstruction of the events in the slices of the whole
output of perf script, and reports their number, the number of closed slices, a
start symbol without any slice, and how perf script has ended; it always ends
with success. -/
theorem decode_composes :
    decodePerfData surroundings level workingDir output sampling config =
      let command := scriptCommand surroundings workingDir sampling
      let events := eventsOf (surroundings.printed command)
      let kept := config.kept events
      let pieces := config.pieces events
      let written := (StackReconstructor.reconstruct [preambleCall surroundings.baseTimeNs]
        surroundings.order kept).writer
      { trace := written.output
        stderr := Log.debug level (shownCommand (text "perf script command:") command) ++
          written.stderr ++ closingMessages config.startSymbol
            (config.startSymbol ≠ [] && !pieces.any Slices.Piece.isSlice)
            (pieces.countP Slices.Piece.isClosed)
            (UInt64.ofNat kept.length) output (surroundings.ended command).code
        exitCode := 0 } := by
  apply Decoded.ext
  · exact decodePerfData_trace surroundings level workingDir output sampling config
  · exact decodePerfData_stderr surroundings level workingDir output sampling config
  · rfl

end

end Tracey
