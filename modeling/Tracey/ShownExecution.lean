import Tracey.PrintedEvents
import Tracey.ReferenceMachine
import Tracey.TraceFile

/-!
# From an execution to what a viewer shows

The ends of the chain: a program executes on a thread, perf script prints the
branches of its execution among whatever else its output holds, and a viewer
opens the file that decoding these bytes has left. What the viewer shows of the
thread is the execution, function by function, under the shortened names.
-/

namespace Tracey

open BracketWord FxtWriter PerfScriptParser

/-- What an event of a viewer begins or ends. The name is the one that is shown,
if there is one. -/
def Shown.mark (shown : Shown) : Mark (Option Text) :=
  if shown.eventType = eventDurationBegin then .opening shown.name else .closing shown.name

/-- The name that a viewer shows for a symbol. It is cut where a record cannot
hold all of it. -/
def displayed (symbol : Text) : Option Text := some (effective (shortenSymbol symbol))

/-- A stamp is shown as its mark, under the displayed name. Two symbols may be
displayed alike. -/
theorem shown_mark (thread : ThreadKey) (stamp : Stamp) :
    (stamp.shown thread).mark = stamp.mark.map displayed := by
  have type : (stamp.shown thread).eventType = stamp.eventType := rfl
  rw [Shown.mark, Stamp.mark, type]
  by_cases begins : stamp.eventType = 2
  · rw [if_pos begins]
    exact if_pos begins
  · rw [if_neg begins]
    exact if_neg begins

/-- What is shown of a thread are the events written for it. Their order is that
of the file. -/
theorem shown_thread (key : ThreadKey) (writes : List Write) :
    ((writes.flatMap (fun w => w.stamps.map (Stamp.shown w.thread))).filter
        (fun shown => shown.thread = some key.widen)).map Shown.mark =
      ((stampsFor key writes).map Stamp.mark).map (Mark.map displayed) := by
  induction writes with
  | nil => rfl
  | cons w rest inductionHypothesis =>
    rw [List.flatMap_cons, List.filter_append, List.map_append, inductionHypothesis, stampsFor,
      stampsFor]
    by_cases mine : w.thread = key
    · have all : (w.stamps.map (Stamp.shown w.thread)).filter
          (fun shown => shown.thread = some key.widen) = w.stamps.map (Stamp.shown w.thread) := by
        apply List.filter_eq_self.mpr
        intro shown member
        obtain ⟨stamp, -, rfl⟩ := List.mem_map.mp member
        rw [mine]
        exact decide_eq_true rfl
      have marks : (w.stamps.map (Stamp.shown w.thread)).map Shown.mark =
          (w.stamps.map Stamp.mark).map (Mark.map displayed) := by
        rw [List.map_map, List.map_map]
        exact List.map_congr_left (fun stamp _ => shown_mark w.thread stamp)
      have first : (w :: rest).filter (fun w => w.thread = key) =
          w :: rest.filter (fun w => w.thread = key) := List.filter_cons_of_pos (decide_eq_true mine)
      rw [all, marks, first, List.flatMap_cons, List.map_append, List.map_append]
    · have foreign : (w.stamps.map (Stamp.shown w.thread)).filter
          (fun shown => shown.thread = some key.widen) = [] := by
        apply List.filter_eq_nil_iff.mpr
        intro shown member same
        obtain ⟨stamp, -, rfl⟩ := List.mem_map.mp member
        exact mine (StackReconstructor.widen_injective (Option.some.inj (of_decide_eq_true same)))
      have first : (w :: rest).filter (fun w => w.thread = key) =
          rest.filter (fun w => w.thread = key) :=
        List.filter_cons_of_neg (fun same => mine (of_decide_eq_true same))
      rw [foreign, first]
      rfl

/-- What a viewer shows of a thread, begin by begin and end by end. The events
of the other threads are left out. -/
def shownOn (key : ThreadKey) (seen : List Seen) : List (Mark (Option Text)) :=
  ((seen.filterMap Seen.shown).filter (fun shown => shown.thread = some key.widen)).map Shown.mark

/-- What a viewer shows of the threads, as long as no string has been evicted.
The condition can be read off the error stream. -/
theorem marks_shown {surroundings : Surroundings} {level : Level} {workingDir output : Text}
    {sampling : Bool} {config : TraceFilter.Config}
    (calm : stringIdLimitReached ∉
      (decodePerfData surroundings level workingDir output sampling config).stderr) :
    ∃ seen, view (decodePerfData surroundings level workingDir output sampling config).trace =
        some seen ∧
      ∀ key, shownOn key seen =
        ((stampsFor key (({} : Tracker).handed surroundings.order (config.kept (eventsOf
          (surroundings.printed (scriptCommand surroundings workingDir sampling)))))).map
            Stamp.mark).map (Mark.map displayed) := by
  obtain ⟨seen, read, shown⟩ := StackReconstructor.reconstruct_shown surroundings.baseTimeNs
    surroundings.order _ (decodePerfData_calm calm)
  refine ⟨seen, ?_, fun key => ?_⟩
  · rw [decodePerfData_trace]
    exact read
  · rw [shownOn, shown, shown_thread]

/-- What is written for a thread that shows an execution are the marks of the
execution. -/
theorem execution_stamps {order : HashOrder} {events : List Event} {key : ThreadKey}
    {branches : List BranchData} {marks : List (Mark Text)} {m : ReferenceMachine}
    (execution : ReferenceMachine.Execution branches marks m)
    (shown : (Tracker.timedOf key events).map Prod.snd = branches.map .branch) :
    (stampsFor key (({} : Tracker).handed order events)).map Stamp.mark = marks ++ m.closing := by
  have history : (Tracker.history (({} : Tracker).base events) key events).map Prod.snd =
      branches.map .branch := by
    rw [Tracker.history_timed, List.map_map, ← shown]
    rfl
  have finished := (Handling.execution_simulates key execution history).finish
  rw [stampsFor, Tracker.handed_own, List.map_flatMap]
  simp only [Write.stamps_mark]
  exact finished

/-- If the slices of an output hold of a thread the branches of an execution and
nothing else, then a viewer that opens the decoded file sees on that thread
exactly what the execution begins and ends, each function under its shortened
name, and then the ends of the functions that were left. The output is any bytes
at all: other threads, ignored events, metadata, foreign lines and blanks make
no difference. -/
theorem execution_shown (surroundings : Surroundings) (level : Level) (workingDir output : Text)
    (sampling : Bool) (config : TraceFilter.Config) (key : ThreadKey)
    {branches : List BranchData} {marks : List (Mark Text)} {m : ReferenceMachine}
    (calm : stringIdLimitReached ∉
      (decodePerfData surroundings level workingDir output sampling config).stderr)
    (execution : ReferenceMachine.Execution branches marks m)
    (kept : (Tracker.timedOf key (config.kept (eventsOf (surroundings.printed
      (scriptCommand surroundings workingDir sampling))))).map Prod.snd = branches.map .branch) :
    ∃ seen, view (decodePerfData surroundings level workingDir output sampling config).trace =
        some seen ∧
      ((seen.filterMap Seen.shown).filter (fun shown => shown.thread = some key.widen)).map
        Shown.mark = (marks ++ m.closing).map (Mark.map displayed) := by
  obtain ⟨seen, read, shown⟩ := marks_shown calm
  have ofThread := shown key
  rw [execution_stamps execution kept] at ofThread
  exact ⟨seen, read, ofThread⟩

/-- The start of the trace in front of the call of the tests. The function of
the call is executing then. -/
def startLine : BranchLine :=
  { callLine with
    timeNs := 4509191343298467
    flags := ⟨none, .start, by decide⟩
    src := { callLine.src with ip := 0, name := .unknown }
    dst := callLine.src
    noArrow := by decide
    noMark := by decide }

/-- A recording of the two branches, and a sample on another thread. -/
def callSession : Surroundings where
  isDirectory := fun _ => false
  printed := fun _ => printedText [.branch startLine, .sample cyclesSample, .branch callLine]
  ended := fun _ => .exited 0
  baseTimeNs := 0
  order := .listed

/-- The caller and the called function are shown, and both end. -/
theorem execution_shown_call :
    ∃ seen, view (decodePerfData callSession .normal (text "/tmp") (text "out.fxt") false {}).trace =
        some seen ∧
      ((seen.filterMap Seen.shown).filter
        (fun shown => shown.thread = some (ThreadKey.widen ⟨25375, 25375⟩))).map Shown.mark =
          [.opening (some (text "__clock_gettime")), .opening (some (text "__vdso_clock_gettime")),
            .closing (some (text "__vdso_clock_gettime")),
            .closing (some (text "__clock_gettime"))] := by
  let caller : Routine := ⟨text "__clock_gettime", by decide⟩
  let called : Routine := ⟨text "__vdso_clock_gettime", by decide⟩
  have started : ReferenceMachine.Execution [startLine.data] _ ⟨[], [], caller⟩ :=
    .start caller rfl rfl rfl
  have execution := started.step
    (@ReferenceMachine.Step.call [] [] caller callLine.data called rfl rfl rfl rfl)
  have kept : (Tracker.timedOf ⟨25375, 25375⟩ (({} : TraceFilter.Config).kept (eventsOf
      (callSession.printed (scriptCommand callSession (text "/tmp") false))))).map Prod.snd =
        [.branch startLine.data, .branch callLine.data] := by
    rw [TraceFilter.kept_all rfl rfl, callSession, eventsOf_printed (by decide)]
    decide
  obtain ⟨seen, read, shown⟩ := execution_shown callSession .normal (text "/tmp") (text "out.fxt")
    false {} ⟨25375, 25375⟩ (by decide +kernel) execution kept
  refine ⟨seen, read, shown.trans ?_⟩
  decide +kernel

end Tracey
