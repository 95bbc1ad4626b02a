import Tracey.Buffering
import Tracey.ShownSamples

/-!
# Outputs that are disturbed

What perf script prints may break off anywhere, when it is stopped, and lines
that are none of its events may stand among the others. An output is read group
by group, so that a disturbance stays where it is. Lines that are no event, in
front of a line that starts afresh, have no influence at all. Damaged lines
concern the threads of the events they stand for and of those they are taken
for. And as the filter and the reconstruction never go back, an output that
breaks off shows, on every thread but that of an event that is cut off, the
beginning of what the whole output shows, and then the ends of the functions
that are open.
-/

namespace Tracey

open BracketWord FxtWriter Numerals PerfScriptParser

/-! The events of a disturbed output. -/

/-- An output ends and goes on between two groups: behind a newline, with a line
that starts afresh. -/
def BetweenGroups (cut rest : Text) : Prop :=
  (cut = [] ∨ cut.getLast? = some (byte '\n')) ∧ rest.head? ≠ some (byte '\t')

/-- Whether an output is cut between two groups can be computed. -/
instance (cut rest : Text) : Decidable (BetweenGroups cut rest) :=
  inferInstanceAs (Decidable (_ ∧ _))

/-- The events of some groups of lines. The position at which they stand does
not matter. -/
theorem eventsOf_closings (printed : Text) (position : Nat) :
    eventsOf printed = ((Grouping.closings isEmptyLine isContinuationLine position
      (Subprocess.lines printed)).map Prod.snd).filterMap parseGroup := by
  rw [Grouping.closings_values position 0, List.filterMap_map]
  rfl

/-- The first line starts afresh if the output does. An output may begin with an
empty line. -/
theorem lines_start {printed : Text} (starts : printed.head? ≠ some (byte '\t')) :
    ∀ line ∈ (Subprocess.lines printed).head?, isContinuationLine line = false := by
  intro line first
  rcases Separated.piece_cases (byte '\n') printed with plain | ⟨piece, rest, plain, rfl⟩
  · by_cases nonempty : printed = []
    · subst nonempty
      cases first
    · rw [Subprocess.lines, Separated.terminated_last plain nonempty] at first
      rw [← Option.some.inj first]
      exact decide_eq_false starts
  · rw [Subprocess.lines, Separated.terminated_piece plain] at first
    rw [← Option.some.inj first]
    cases piece with
    | nil => rfl
    | cons c others => exact decide_eq_false starts

/-- Between two groups the events of an output are those before and those
behind. -/
theorem eventsOf_append {cut rest : Text} (between : BetweenGroups cut rest) :
    eventsOf (cut ++ rest) = eventsOf cut ++ eventsOf rest := by
  obtain ⟨ends, starts⟩ := between
  have lines : Subprocess.lines (cut ++ rest) = Subprocess.lines cut ++ Subprocess.lines rest :=
    Separated.terminated_append ends rest
  rw [eventsOf_closings (cut ++ rest) 0, lines, Grouping.closings_append (lines_start starts),
    List.map_append, List.filterMap_append, ← eventsOf_closings, ← eventsOf_closings]

/-- A line that is neither the header of an event nor a decode error: behind its
blanks stands no digit, and not the beginning of an error. -/
def Foreign (line : Text) : Prop :=
  (∀ c ∈ (skipSpaces line).head?, isDigit 10 c = false) ∧
    ¬ text "instruction trace error" <+: skipSpaces line

/-- Whether a line is foreign can be computed. -/
instance : DecidablePred Foreign := fun _ => inferInstanceAs (Decidable (_ ∧ _))

/-- A group that opens with a foreign line is no event. The lines below it are
lost with it, since they have no header of their own. -/
theorem parseGroup_foreign {line : Text} (foreign : Foreign line) (below : List Text) :
    parseGroup (line :: below) = none := by
  obtain ⟨undigited, unreported⟩ := foreign
  have unnumbered : (skipSpaces line).takeWhile (isDigit 10) = [] := by
    cases skipped : skipSpaces line with
    | nil => rfl
    | cons c rest =>
      rw [skipped] at undigited
      rw [List.takeWhile_cons, undigited c rfl]
      rfl
  have error : parseDecodeError line = none := if_neg unreported
  have header : parseHeader line = none := if_pos (.inl unnumbered)
  rw [parseGroup, error, header]

/-- Foreign lines are no events. They may still close the group before them. -/
theorem eventsOf_foreign {printed : Text}
    (foreign : ∀ line ∈ Subprocess.lines printed, Foreign line) : eventsOf printed = [] := by
  apply List.filterMap_eq_nil_iff.mpr
  rintro ⟨position, lines⟩ member
  cases lines with
  | nil => rfl
  | cons line below =>
    have inside := Grouping.closings_mem _ _ 0 _ member line List.mem_cons_self
    exact parseGroup_foreign (foreign line inside) below

/-- An output that breaks off has the first events of the whole and at most one
more; no more if it breaks off between two groups. -/
theorem eventsOf_cut (cut rest : Text) :
    ∃ front more last, eventsOf (cut ++ rest) = front ++ more ∧ eventsOf cut = front ++ last ∧
      last.length ≤ 1 ∧ (BetweenGroups cut rest → last = []) := by
  by_cases between : BetweenGroups cut rest
  · exact ⟨_, _, [], eventsOf_append between, (List.append_nil _).symm, Nat.zero_le 1, fun _ => rfl⟩
  obtain ⟨pieces, part, more, cutLines, wholeLines, left⟩ :=
    Separated.terminated_cut (byte '\n') cut rest
  have alike : ∀ line ∈ part, ∃ whole ∈ more.head?,
      isContinuationLine whole = isContinuationLine line := by
    intro line inside
    obtain ⟨nonempty, whole, first, ⟨others, rfl⟩⟩ := left line inside
    refine ⟨_, first, ?_⟩
    cases line with
    | nil => exact absurd rfl nonempty
    | cons c rest => rfl
  obtain ⟨front, behind, last, whole, cutGroups, few⟩ :=
    Grouping.closings_cut (fun _ => continuation_solid) 0 pieces part more alike
  refine ⟨(front.map Prod.snd).filterMap parseGroup, (behind.map Prod.snd).filterMap parseGroup,
    (last.map Prod.snd).filterMap parseGroup, ?_, ?_, ?_, fun still => absurd still between⟩
  · rw [eventsOf_closings (cut ++ rest) 0, Subprocess.lines, wholeLines, whole, List.map_append,
      List.filterMap_append]
  · rw [eventsOf_closings cut 0, Subprocess.lines, cutLines, cutGroups, List.map_append,
      List.filterMap_append]
  · exact (List.length_filterMap_le _ _).trans (by rwa [List.length_map])

/-! The filter and the reconstruction of a beginning. -/

namespace TraceFilter

/-- Of two sequences of events passes what the filter lets through of the first,
and then of the second in the state it is in by then. -/
theorem passed_append (filter : TraceFilter) (events more : List Event) :
    filter.passed (events ++ more) =
      filter.passed events ++ (filter.passAll events).1.passed more := by
  induction events generalizing filter with
  | nil => rfl
  | cons event rest inductionHypothesis =>
    rw [List.cons_append, passed_cons, inductionHypothesis, passed_cons, List.append_assoc]
    rfl

/-- What passes are some of the events, in their order.

Induct over the events; the filter takes each of them or leaves it out. -/
theorem passed_sublist (filter : TraceFilter) (events : List Event) :
    (filter.passed events).Sublist events := by
  induction events generalizing filter with
  | nil => exact List.Sublist.refl []
  | cons event rest inductionHypothesis =>
    have later := inductionHypothesis (filter.shouldPass event).1
    rw [passed_cons]
    split
    · exact later.cons_cons event
    · exact later.cons event

/-- What is kept of two sequences of events is what is kept of the first, and
then what passes of the second where the first has led the filter. -/
theorem kept_append (config : Config) (events more : List Event) :
    config.kept (events ++ more) =
      config.kept events ++ ((create config).passAll events).1.passed more := by
  rw [← passed_create, passed_append, passed_create]

/-- Of one event at most, that event passes or nothing does. -/
theorem passed_single {filter : TraceFilter} {events : List Event} (few : events.length ≤ 1)
    {event : Event} (passes : event ∈ filter.passed events) :
    events = [event] ∧ filter.passed events = [event] := by
  have passing := filter.passed_sublist events
  obtain ⟨only, rfl⟩ := List.length_eq_one_iff.mp
    (Nat.le_antisymm few (List.length_pos_of_mem (passing.subset passes)))
  obtain rfl := List.mem_singleton.mp (passing.subset passes)
  exact ⟨rfl, passing.eq_of_length
    (Nat.le_antisymm passing.length_le (List.length_pos_of_mem passes))⟩

end TraceFilter

namespace Handling

/-- An operation takes back nothing that has been recorded. A flush moves it to
what is written. -/
theorem perform_recorded (time : UInt64) (h : Handling) (operation : Operation) :
    h.recorded <+: (h.perform time operation).recorded := by
  have added : ∀ (h : Handling) time event stack,
      h.recorded <+: (h.record time event stack).recorded := by
    intro h time event stack
    rw [record_recorded]
    exact List.prefix_append _ _
  cases operation with
  | call loc =>
    rw [perform_call]
    exact added _ _ _ _
  | infer loc =>
    rw [perform_infer]
    exact added _ _ _ _
  | enter loc =>
    rw [perform_enter]
    exact added (h.save time) _ _ _
  | ret =>
    rw [perform_ret]
    exact added _ _ _ _
  | restore =>
    cases top : h.saved.getLast? with
    | some last =>
      simp only [perform, top]
      exact List.prefix_refl _
    | none =>
      simp only [perform, top]
      exact List.prefix_refl _
  | redate => exact List.prefix_refl _
  | flush =>
    have same : (h.perform time .flush).recorded = h.recorded := h.flush_recorded time
    rw [same]

/-- Whatever a thread lives through takes back nothing that has been recorded
for it. -/
theorem live_recorded (h : Handling) (history : List (UInt64 × Work)) :
    h.recorded <+: (h.live history).recorded := by
  induction history generalizing h with
  | nil => exact List.prefix_refl _
  | cons input rest inductionHypothesis =>
    obtain ⟨followed, permitted⟩ := (h.arrive input.1).handle_follow input.1 input.2
    have handled : h.recorded <+: ((h.arrive input.1).handle input.1 input.2).recorded := by
      rw [followed]
      exact @follow_keeps (fun after => h.recorded <+: after.recorded) input.1
        (fun after operation before _ => before.trans (perform_recorded input.1 after operation))
        _ _ (List.prefix_refl _) permitted
    exact handled.trans (inductionHypothesis _)

end Handling

namespace Tracker

/-- Later events take back nothing that has been recorded for a thread. Whatever
comes, the beginning of a thread stays the same. -/
theorem recordedFor_front (t : Tracker) (key : ThreadKey) (events more : List Event) :
    t.recordedFor key events <+: t.recordedFor key (events ++ more) := by
  have later := Handling.live_recorded ⟨key, (t.processAll events).1.getThread key, []⟩
    (history ((t.processAll events).1.base more) key more)
  rw [← recordedFor_live] at later
  obtain ⟨news, added⟩ := later
  exact ⟨news, (t.recordedFor_append key events added.symm).symm⟩

/-- The timed events of a thread in two sequences are those in the first and
then those in the second. -/
theorem timedOf_append (key : ThreadKey) (events more : List Event) :
    timedOf key (events ++ more) = timedOf key events ++ timedOf key more := by
  simp only [timedOf, List.filter_append, List.filterMap_append]

/-- Events of other threads ask nothing of a thread. Its history does not grow
by them. -/
theorem timedOf_foreign {key : ThreadKey} {events : List Event}
    (foreign : ∀ event ∈ events, event.thread ≠ key) : timedOf key events = [] := by
  have unowned : events.filter (fun event => event.thread = key) = [] :=
    List.filter_eq_nil_iff.mpr (fun event member => by simpa using foreign event member)
  rw [timedOf, unowned]
  rfl

/-- Events of other threads change nothing for a thread. Only the base of all
times is common to the threads. -/
theorem processAll_foreign (t : Tracker) {key : ThreadKey} (events : List Event)
    {others : List Event} (foreign : ∀ event ∈ others, event.thread ≠ key) :
    (t.processAll (events ++ others)).1.getThread key = (t.processAll events).1.getThread key ∧
      t.recordedFor key (events ++ others) = t.recordedFor key events := by
  have idle : ∀ base, history base key others = [] := by
    intro base
    rw [history_timed, timedOf_foreign foreign]
    rfl
  have state := ((t.processAll events).1.processAll_own others key).1
  have recorded := (t.processAll events).1.recordedFor_live key others
  rw [idle] at state recorded
  constructor
  · rw [processAll_append]
    exact state
  · rw [t.recordedFor_append key events (recorded.trans (List.append_nil _).symm)]
    exact List.append_nil _

end Tracker

/-- What is written for a thread by the beginning of a recording, with events of
other threads behind it, is the beginning of what the whole recording writes for
the thread, and then the ends of what is open. -/
theorem stamps_cut (order order' : HashOrder) (front more : List Event) {others : List Event}
    {key : ThreadKey} (foreign : ∀ event ∈ others, event.thread ≠ key) :
    ∃ shared opened,
      shared <+: (stampsFor key (({} : Tracker).handed order' (front ++ more))).map Stamp.mark ∧
        walk [] shared = some opened ∧
        (stampsFor key (({} : Tracker).handed order (front ++ others))).map Stamp.mark =
          shared ++ difference opened [] := by
  obtain ⟨state, recorded⟩ := ({} : Tracker).processAll_foreign front foreign
  refine ⟨_, _, ?_, Tracker.recordedFor_walk key front, ?_⟩
  · obtain ⟨news, added⟩ := Tracker.recordedFor_front {} key front more
    rw [stamps_recorded, ← added, List.flatMap_append, List.append_assoc]
    exact List.prefix_append _ _
  · rw [stamps_recorded, state, recorded]

/-! What stays of the trace. -/

/-- Foreign lines between two groups of lines change nothing at all, neither the
trace nor what is reported, however the recording is sliced. -/
theorem foreign_ignored (surroundings : Surroundings) (level : Level) (workingDir output : Text)
    (sampling : Bool) (config : TraceFilter.Config) {before strange after : Text}
    (printed : surroundings.printed (scriptCommand surroundings workingDir sampling) =
      before ++ (strange ++ after))
    (begins : BetweenGroups before (strange ++ after)) (ends : BetweenGroups strange after)
    (foreign : ∀ line ∈ Subprocess.lines strange, Foreign line) :
    decodePerfData surroundings level workingDir output sampling config =
      decodePerfData { surroundings with printed := fun _ => before ++ after } level workingDir
        output sampling config := by
  have events : eventsOf (before ++ (strange ++ after)) = eventsOf (before ++ after) := by
    rw [eventsOf_append begins, eventsOf_append ends, eventsOf_foreign foreign,
      eventsOf_append ⟨begins.1, ends.2⟩, List.nil_append]
  apply Decoded.ext
  · rw [decodePerfData_trace, decodePerfData_trace, printed, events]
  · rw [decodePerfData_stderr, decodePerfData_stderr, printed, events]
    rfl
  · rfl

/-- The recording of the two branches with a warning that goes to the same
output. -/
def warnedSession : Surroundings :=
  { callSession with
    printed := fun _ => printedText [.branch startLine] ++
      (text "Warning:\nProcessed 3 events and lost 1 chunks!\n" ++
        printedText [.sample cyclesSample, .branch callLine]) }

/-- The warning changes nothing. -/
theorem foreign_ignored_warning :
    decodePerfData warnedSession .normal (text "/tmp") (text "out.fxt") false {} =
      decodePerfData
        { warnedSession with
          printed := fun _ => printedText [.branch startLine] ++
            printedText [.sample cyclesSample, .branch callLine] }
        .normal (text "/tmp") (text "out.fxt") false {} :=
  foreign_ignored warnedSession .normal (text "/tmp") (text "out.fxt") false {} rfl
    (by decide +kernel) (by decide +kernel) (by decide +kernel)

/-- What is written for a thread is determined by what is asked of it. Neither
the times nor the other threads change what begins and ends. -/
theorem stamps_asked (order order' : HashOrder) {events events' : List Event} {key : ThreadKey}
    (same : (Tracker.timedOf key events).map Prod.snd = (Tracker.timedOf key events').map Prod.snd) :
    (stampsFor key (({} : Tracker).handed order events)).map Stamp.mark =
      (stampsFor key (({} : Tracker).handed order' events')).map Stamp.mark := by
  have histories : ∀ base base' : UInt64, (Tracker.history base key events).map Prod.snd =
      (Tracker.history base' key events').map Prod.snd := by
    intro base base'
    rw [Tracker.history_timed, Tracker.history_timed, List.map_map, List.map_map]
    exact same
  have start : Alike {} {} := ⟨⟨rfl, rfl⟩, rfl⟩
  rw [Tracker.stampsFor_performed, Tracker.stampsFor_performed]
  exact (start.live (histories _ _)).finish.marks

/-- If lines between two groups are damaged, whatever stands in their place, and
the recording is not sliced, then a viewer sees the same on every thread that
has no event in the lines that were printed and none in those that are read. -/
theorem damage_contained (first second : Surroundings) (level level' : Level)
    (workingDir workingDir' output output' : Text) (sampling sampling' : Bool)
    {config : TraceFilter.Config} (whole : config.startSymbol = []) (whole' : config.endSymbol = [])
    {before intact damaged after : Text}
    (printed : first.printed (scriptCommand first workingDir sampling) =
      before ++ (intact ++ after))
    (printed' : second.printed (scriptCommand second workingDir' sampling') =
      before ++ (damaged ++ after))
    (begins : BetweenGroups before (intact ++ after)) (ends : BetweenGroups intact after)
    (begins' : BetweenGroups before (damaged ++ after)) (ends' : BetweenGroups damaged after)
    (calm : stringIdLimitReached ∉
      (decodePerfData first level workingDir output sampling config).stderr)
    (calm' : stringIdLimitReached ∉
      (decodePerfData second level' workingDir' output' sampling' config).stderr) :
    ∃ seen seen' : List Seen,
      view (decodePerfData first level workingDir output sampling config).trace = some seen ∧
      view (decodePerfData second level' workingDir' output' sampling' config).trace = some seen' ∧
      ∀ key, (∀ event ∈ eventsOf intact ++ eventsOf damaged, event.thread ≠ key) →
        shownOn key seen = shownOn key seen' := by
  obtain ⟨seen, read, shown⟩ := marks_shown calm
  obtain ⟨seen', read', shown'⟩ := marks_shown calm'
  refine ⟨seen, seen', read, read', fun key untouched => ?_⟩
  obtain ⟨untouchedIntact, untouchedDamaged⟩ := List.forall_mem_append.mp untouched
  rw [TraceFilter.kept_all whole whole', printed, eventsOf_append begins, eventsOf_append ends]
    at shown
  rw [TraceFilter.kept_all whole whole', printed', eventsOf_append begins', eventsOf_append ends']
    at shown'
  rw [shown, shown']
  congr 1
  apply stamps_asked
  simp only [Tracker.timedOf_append, Tracker.timedOf_foreign untouchedIntact,
    Tracker.timedOf_foreign untouchedDamaged]

/-- Two branches and a sample do not use up the ids of strings. -/
theorem callSession_calm : stringIdLimitReached ∉
    (decodePerfData callSession .normal (text "/tmp") (text "out.fxt") false {}).stderr := by
  decide +kernel

/-- The recording of the two branches, in which the header of the sample is cut
in two. -/
def garbledSession : Surroundings :=
  { callSession with
    printed := fun _ => printedText [.branch startLine] ++
      (text "2060126/2060126 1780\n90.391624068:     555555 cycles:u:\n" ++
        printedText [.branch callLine]) }

/-- The thread of the branches is shown as ever. -/
theorem damage_contained_header :
    ∃ seen seen' : List Seen,
      view (decodePerfData callSession .normal (text "/tmp") (text "out.fxt") false {}).trace =
        some seen ∧
      view (decodePerfData garbledSession .normal (text "/tmp") (text "out.fxt") false {}).trace =
        some seen' ∧
      shownOn ⟨25375, 25375⟩ seen = shownOn ⟨25375, 25375⟩ seen' := by
  have printed : callSession.printed (scriptCommand callSession (text "/tmp") false) =
      printedText [.branch startLine] ++
        (printedText [.sample cyclesSample] ++ printedText [.branch callLine]) := by
    rw [← printedText_append, ← printedText_append]
    rfl
  obtain ⟨seen, seen', read, read', same⟩ := @damage_contained callSession garbledSession .normal
    .normal (text "/tmp") (text "/tmp") (text "out.fxt") (text "out.fxt") false false {} rfl rfl
    _ _ _ _ printed rfl (by decide +kernel) (by decide +kernel) (by decide +kernel)
    (by decide +kernel) callSession_calm (by decide +kernel)
  exact ⟨seen, seen', read, read', same _ (by decide +kernel)⟩

/-- If perf script stops, then what it has printed is decoded to a trace that
shows, on every thread but at most one, the beginning of what the trace of the
whole output shows, and then the ends of the functions that are open there. The
one thread is that of the event that has been cut off, the last one that is
read; there is none if the output ends between two groups of lines. -/
theorem interruption_shown (first second : Surroundings) (level level' : Level)
    (workingDir workingDir' output output' : Text) (sampling sampling' : Bool)
    (config : TraceFilter.Config) {rest : Text}
    (goesOn : second.printed (scriptCommand second workingDir' sampling') =
      first.printed (scriptCommand first workingDir sampling) ++ rest)
    (calm : stringIdLimitReached ∉
      (decodePerfData first level workingDir output sampling config).stderr)
    (calm' : stringIdLimitReached ∉
      (decodePerfData second level' workingDir' output' sampling' config).stderr) :
    ∃ early late : List Seen,
      view (decodePerfData first level workingDir output sampling config).trace = some early ∧
      view (decodePerfData second level' workingDir' output' sampling' config).trace = some late ∧
      ∃ broken : Option ThreadKey,
        (BetweenGroups (first.printed (scriptCommand first workingDir sampling)) rest →
          broken = none) ∧
        (∀ key, broken = some key → ∃ event,
          (eventsOf (first.printed (scriptCommand first workingDir sampling))).getLast? =
            some event ∧ event.thread = key) ∧
        ∀ key, broken ≠ some key → ∃ shared opened, shared <+: shownOn key late ∧
          walk [] shared = some opened ∧ shownOn key early = shared ++ difference opened [] := by
  obtain ⟨early, readEarly, shownEarly⟩ := marks_shown calm
  obtain ⟨late, readLate, shownLate⟩ := marks_shown calm'
  refine ⟨early, late, readEarly, readLate, ?_⟩
  rw [goesOn] at shownLate
  generalize first.printed (scriptCommand first workingDir sampling) = cut
    at shownEarly shownLate ⊢
  obtain ⟨front, more, last, whole, cutEvents, few, between⟩ := eventsOf_cut cut rest
  rw [cutEvents, TraceFilter.kept_append] at shownEarly
  rw [whole, TraceFilter.kept_append] at shownLate
  -- The thread in question is that of the last event, if it passes.
  refine ⟨(((TraceFilter.create config).passAll front).1.passed last).head?.map Event.thread,
    ?_, ?_, ?_⟩
  · intro complete
    rw [between complete]
    rfl
  · intro key broken
    obtain ⟨event, passes, thread⟩ := Option.map_eq_some_iff.mp broken
    refine ⟨event, ?_, thread⟩
    rw [cutEvents, (TraceFilter.passed_single few (List.mem_of_head? passes)).1]
    exact List.getLast?_concat
  · intro key other
    have foreign : ∀ event ∈ ((TraceFilter.create config).passAll front).1.passed last,
        event.thread ≠ key := by
      intro event member same
      rw [(TraceFilter.passed_single few member).2] at other
      exact other (congrArg some same)
    obtain ⟨shared, opened, begins, walked, shown⟩ := stamps_cut first.order second.order
      (config.kept front) (((TraceFilter.create config).passAll front).1.passed more) foreign
    refine ⟨shared.map (Mark.map displayed), opened.map displayed, ?_, walk_map displayed walked, ?_⟩
    · rw [shownLate]
      exact begins.map _
    · rw [shownEarly, shown, List.map_append, map_difference_empty]

/-- The recording of the two branches, stopped within the first frame of the
sample. -/
def stoppedSession : Surroundings :=
  { callSession with
    printed := fun command => (callSession.printed command).take 250 }

/-- The sample is read with the one frame that is left of it, and so its thread
is not vouched for; on the thread of the branches the caller alone is shown, and
it ends. -/
theorem interruption_shown_stopped :
    ∃ early late : List Seen,
      view (decodePerfData stoppedSession .normal (text "/tmp") (text "out.fxt") false {}).trace =
        some early ∧
      view (decodePerfData callSession .normal (text "/tmp") (text "out.fxt") false {}).trace =
        some late ∧
      ∃ shared opened, shared <+: shownOn ⟨25375, 25375⟩ late ∧ walk [] shared = some opened ∧
        shownOn ⟨25375, 25375⟩ early = shared ++ difference opened [] := by
  have goesOn : callSession.printed (scriptCommand callSession (text "/tmp") false) =
      stoppedSession.printed (scriptCommand stoppedSession (text "/tmp") false) ++
        (callSession.printed (scriptCommand callSession (text "/tmp") false)).drop 250 :=
    (List.take_append_drop 250 _).symm
  have last : (eventsOf (stoppedSession.printed (scriptCommand stoppedSession (text "/tmp")
      false))).getLast?.map Event.thread = some ⟨2060126, 2060126⟩ := by decide +kernel
  obtain ⟨early, late, readEarly, readLate, broken, -, cutOff, shown⟩ := interruption_shown
    stoppedSession callSession .normal .normal (text "/tmp") (text "/tmp") (text "out.fxt")
    (text "out.fxt") false false {} goesOn (by decide +kernel) callSession_calm
  refine ⟨early, late, readEarly, readLate, shown _ (fun same => ?_)⟩
  obtain ⟨event, read, thread⟩ := cutOff _ same
  rw [read, Option.map_some, thread] at last
  exact absurd last (by decide)

end Tracey
