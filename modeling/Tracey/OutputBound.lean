import Tracey.ReferenceMachine
import Tracey.Samples
import Tracey.TraceFile

/-!
# How much is written

A branch opens at most three functions: the one that continues behind the start
of the trace, the one it should have come from, and the one it goes to. A sample
opens at most the functions it lists. Everything else only ends what is open. So
the trace is at most linear in the recording, however badly the stacks and the
branches fit together.
-/

namespace Tracey

open BracketWord KeyedMachine

/-- The most functions that an event can open. -/
def Work.cost : Work → Nat
  | .branch br =>
    match br.traceState with
    | .none => 2
    | .start => 3
    | .end => 1
  | .sample st => st.callstack.length
  | .lost => 0

/-- The cost of an event; nothing is opened for one without a time or a stack. -/
def Event.cost (event : Event) : Nat := (event.timed.map (fun timed => timed.2.cost)).getD 0

namespace Handling

/-- The number of functions that have been opened. -/
def opened (h : Handling) : Nat := openings h.marks

/-- Leaving frames opens nothing. -/
theorem openings_leaving (frames : List Location) :
    openings ((frames.map leaveEvent).flatMap PendingEvent.marks) = 0 := by
  induction frames with
  | nil => rfl
  | cons frame rest inductionHypothesis => exact inductionHypothesis

/-- What a thread has opened is what it had opened at the start and what the
events since have. -/
theorem Emitted.opened {start events : List PendingEvent} {time : UInt64} {h : Handling}
    (emitted : Emitted start time events h) :
    h.opened = openings (start.flatMap PendingEvent.marks) +
      openings (events.flatMap PendingEvent.marks) := by
  rw [Handling.opened, marks, emitted.recorded, List.flatMap_append, openings_append]

/-- A call opens one function. -/
theorem opened_call (h : Handling) (time : UInt64) (loc : Location) (fromUntraced : Bool) :
    (h.call time loc fromUntraced).opened = h.opened + 1 := by
  rw [opened, call_eq, record_marks, openings_append]
  rfl

/-- Leaving a frame opens nothing; code that was never entered is opened and
left. -/
theorem opened_ret (h : Handling) (time : UInt64) :
    (h.ret time).opened = h.opened + if h.stack = [] then 1 else 0 := by
  rw [opened, ret_eq, record_marks, openings_append]
  rcases List.eq_nil_or_concat h.stack with empty | ⟨below, top, whole⟩
  · rw [retEvent_untraced empty, if_pos empty]
    rfl
  · rw [List.concat_eq_append] at whole
    have nonempty : h.stack ≠ [] := by simp [whole]
    rw [retEvent_top whole, if_neg nonempty]
    rfl

/-- Repairing the top opens one function at most. -/
theorem opened_check (h : Handling) (time : UInt64) (loc : Location) :
    (h.checkCurrentSymbol time loc).opened ≤ h.opened + 1 := by
  unfold checkCurrentSymbol
  split
  · exact (h.opened_call _ loc true).le
  · next top found =>
    split
    · have nonempty : h.stack ≠ [] := by
        intro empty
        rw [← stack, empty] at found
        cases found
      rw [opened_call, opened_ret, if_neg nonempty]
    · omega

/-- Clearing the active stack opens nothing: it returns from its frames only. -/
theorem opened_clearCallstack (h : Handling) (time : UInt64) :
    (h.clearCallstack time).opened = h.opened := by
  rw [(Emitted.none h time).clearCallstack.opened, List.nil_append, openings_leaving]
  rfl

/-- A branch of any kind opens two functions at most. The kinds that open two
are a call out of a function that was not known, and a return into one. -/
theorem opened_kind (h : Handling) (time : UInt64) (br : BranchData) :
    (h.processKind time br).opened ≤ h.opened + 2 := by
  have cleared := h.opened_clearCallstack time
  unfold processKind
  cases br.kind with
  | none => exact Nat.le_add_right _ 2
  | some kind =>
    cases kind with
    | call =>
      dsimp only
      rw [opened_call]
      exact Nat.succ_le_succ (h.opened_check time br.src)
    | «return» =>
      have left := h.opened_ret time
      have checked := (h.ret time).opened_check time br.dst
      dsimp only
      split at left
      · omega
      · omega
    | syscall | hardwareInterrupt =>
      have entered := (h.save time).opened_call time br.dst false
      have saved : (h.save time).opened = h.opened := rfl
      dsimp only
      omega
    | iret | sysret =>
      dsimp only
      split
      · next saved found =>
        have checked := ((h.clearCallstack time).restore saved).opened_check time br.dst
        have restored : ((h.clearCallstack time).restore saved).opened =
            (h.clearCallstack time).opened := rfl
        omega
      · have dated : ((h.clearCallstack time).setCreateTime time).opened =
            (h.clearCallstack time).opened := rfl
        omega
    | jump | interrupt | async | txAbort =>
      have checked := h.opened_check time br.dst
      dsimp only
      omega

/-- What resumes tracing leaves the marker of untraced code, which opens
nothing. -/
theorem opened_resume (h : Handling) (time : UInt64) : (h.resume time).opened = h.opened := by
  unfold resume
  split
  · next marker =>
    have nonempty : h.stack ≠ [] := by
      intro empty
      rw [← stack, empty] at marker
      cases marker
    rw [opened_ret, if_neg nonempty, Nat.add_zero]
  · rfl

/-- A branch opens no more than it costs. Where tracing starts, the repair in
front may open one function more. -/
theorem opened_branch (h : Handling) (time : UInt64) (br : BranchData) :
    (h.processBranch time br).opened ≤ h.opened + (Work.branch br).cost := by
  rw [processBranch, Work.cost]
  cases br.traceState with
  | none => exact h.opened_kind time br
  | start =>
    have resumed := h.opened_resume time
    have checked := (h.resume time).opened_check time br.dst
    have kinded := ((h.resume time).checkCurrentSymbol time br.dst).opened_kind time br
    dsimp only
    omega
  | «end» => exact (h.opened_call time { symbol := untracedSymbol } false).le

/-- A sample opens no more functions than it has. -/
theorem opened_sample (h : Handling) (time : UInt64) (st : StacktraceSampleData) :
    (h.processStacktrace time st).opened ≤ h.opened + (Work.sample st).cost := by
  have called : ∀ frames : List Location,
      openings ((frames.map (callEvent · false)).flatMap PendingEvent.marks) = frames.length := by
    intro frames
    induction frames with
    | nil => rfl
    | cons loc rest inductionHypothesis =>
      exact (openings_opening loc.symbol _).trans (congrArg (· + 1) inductionHypothesis)
  rw [(h.processStacktrace_emits time st).1.opened, replaced, List.flatMap_append, openings_append,
    openings_leaving, called, List.length_drop]
  exact Nat.add_le_add_left (by rw [Nat.zero_add]; exact Nat.sub_le _ _) _

/-- An event opens no more functions than it costs. What it closes costs
nothing. -/
theorem opened_handle (h : Handling) (time : UInt64) (work : Work) :
    (h.handle time work).opened ≤ h.opened + work.cost := by
  cases work with
  | branch br => exact h.opened_branch time br
  | sample st => exact h.opened_sample time st
  | lost =>
    rw [handle, (Emitted.none h time).clearAllCallstacks.opened, List.nil_append, openings_leaving]
    exact Nat.le_refl _

/-- A whole life opens no more functions than its events cost. The costs do not
depend on the state that an event finds. -/
theorem opened_live (h : Handling) (history : List (UInt64 × Work)) :
    (h.live history).opened ≤ h.opened + (history.map (fun input => input.2.cost)).sum := by
  induction history generalizing h with
  | nil => exact Nat.le_refl _
  | cons input rest inductionHypothesis =>
    have first := (h.arrive input.1).opened_handle input.1 input.2
    have arrived : (h.arrive input.1).opened = h.opened := rfl
    have others := inductionHypothesis ((h.arrive input.1).handle input.1 input.2)
    rw [live_cons, List.map_cons, List.sum_cons]
    omega

/-- Finishing opens nothing, and writes what was recorded. So only events cost
anything. -/
theorem opened_finish (h : Handling) : h.finish.opened = h.opened := by
  rw [opened, marks, finish_recorded, List.flatMap_append, openings_append, openings_leaving]
  rfl

end Handling

/-- The costs of the events of a thread are those of its history. -/
theorem Event.cost_timed (events : List Event) :
    ((events.filterMap Event.timed).map (fun timed => timed.2.cost)).sum =
      (events.map Event.cost).sum := by
  induction events with
  | nil => rfl
  | cons event rest inductionHypothesis =>
    rw [List.map_cons, List.sum_cons, ← inductionHypothesis, Event.cost]
    cases timed : event.timed with
    | none =>
      rw [List.filterMap_cons_none timed]
      exact (Nat.zero_add _).symm
    | some due =>
      rw [List.filterMap_cons_some timed]
      rfl

namespace Tracker

/-- What is handed over for one thread opens no more functions than its events
cost. -/
theorem opened_thread (order : HashOrder) (events : List Event) (key : ThreadKey) :
    (((({} : Tracker).handed order events).filter (fun w => w.thread = key)).map
        (fun w => openings w.event.marks)).sum ≤
      ((events.filter (fun event => event.thread = key)).map Event.cost).sum := by
  generalize based : ({} : Tracker).base events = base
  have lived := (⟨key, {}, []⟩ : Handling).opened_live (history base key events)
  have costs : ((history base key events).map (fun input => input.2.cost)).sum =
      ((events.filter (fun event => event.thread = key)).map Event.cost).sum := by
    rw [history_timed, List.map_map, ← Event.cost_timed]
    rfl
  have fresh : (⟨key, {}, []⟩ : Handling).opened = 0 := rfl
  obtain ⟨-, -, written⟩ := ((⟨key, {}, []⟩ : Handling).live (history base key events)).finish_empty
  have counted : ((((⟨key, {}, []⟩ : Handling).live (history base key events)).finish.writes).map
      (fun w => openings w.event.marks)).sum =
        ((⟨key, {}, []⟩ : Handling).live (history base key events)).finish.opened := by
    rw [Handling.opened, Handling.marks, Handling.recorded_written _ written, List.flatMap_map]
    generalize ((⟨key, {}, []⟩ : Handling).live (history base key events)).finish.writes = writes
    induction writes with
    | nil => rfl
    | cons w rest inductionHypothesis =>
      rw [List.map_cons, List.sum_cons, inductionHypothesis, List.flatMap_cons, openings_append]
  rw [handed_own, based]
  rw [fresh, Nat.zero_add, costs, ← Handling.opened_finish, ← counted] at lived
  exact lived

/-- What is handed over opens no more functions than the events cost. The
threads share the costs of the events among them. -/
theorem opened_handed (order : HashOrder) (events : List Event) :
    ((({} : Tracker).handed order events).map (fun w => openings w.event.marks)).sum ≤
      (events.map Event.cost).sum :=
  sum_le_of_keys Write.thread Event.thread _ _ (opened_thread order events)

end Tracker

namespace StackReconstructor

/-- As many functions begin in the file as are opened. Each write begins as many
as its marks open. -/
theorem openings_outlines (before : List WriterCall) (order : HashOrder) (events : List Event) :
    openings ((outlines before order events).map Outline.mark) =
      ((({} : Tracker).handed order events).map (fun w => openings w.event.marks)).sum := by
  have renamed : ∀ (key : ThreadKey) (stamps : List Stamp),
      openings ((stamps.map ((reconstruct before order events).outline key)).map Outline.mark) =
        openings (stamps.map Stamp.mark) := by
    intro key stamps
    induction stamps with
    | nil => rfl
    | cons stamp rest inductionHypothesis =>
      simp only [List.map_cons, outline_mark]
      cases stamp.mark with
      | opening name =>
        rw [openings_opening, ← inductionHypothesis]
        exact openings_opening _ _
      | closing name => exact inductionHypothesis
  rw [outlines_eq]
  induction ({} : Tracker).handed order events with
  | nil => rfl
  | cons w rest inductionHypothesis =>
    rw [List.flatMap_cons, List.map_append, openings_append, inductionHypothesis, renamed,
      Write.stamps_mark, List.map_cons, List.sum_cons]

/-- Every event that is shown either begins or ends something. Kernel objects
are not among the events. -/
theorem seen_length {seen : List Seen} (events : ∀ shown ∈ seen, shown.isEvent = true)
    (typed : ∀ o ∈ seen.filterMap Seen.outline, o.eventType = 2 ∨ o.eventType = 3) :
    seen.length = seen.countP Seen.begins + seen.countP Seen.ends := by
  rw [List.length_eq_countP_add_countP Seen.begins]
  congr 1
  apply List.countP_congr
  intro shown member
  have whole := events shown member
  cases shown with
  | event eventType thread category name categoryRef nameRef timestamp =>
    have either := typed ⟨eventType, thread, categoryRef, nameRef, timestamp⟩
      (List.mem_filterMap.mpr ⟨_, member, rfl⟩)
    dsimp only at either
    rcases either with rfl | rfl
    · exact iff_of_false (by simp [Seen.begins, FxtWriter.eventDurationBegin])
        (by simp [Seen.ends, FxtWriter.eventDurationEnd])
    · exact iff_of_true (by simp [Seen.begins, FxtWriter.eventDurationBegin])
        (by simp [Seen.ends, FxtWriter.eventDurationEnd])
  | processObject name pid => cases whole
  | threadObject name tid argName pid => cases whole

end StackReconstructor

/-- The file shows at most one begin for each function that the kept events can
open, three for a branch and one for each frame of a sample, and exactly twice
as many events as begins. -/
theorem file_bounded (surroundings : Surroundings) (level : Level) (workingDir output : Text)
    (sampling : Bool) (config : TraceFilter.Config) :
    let kept := config.kept
      (eventsOf (surroundings.printed (scriptCommand surroundings workingDir sampling)))
    ∃ seen, view (decodePerfData surroundings level workingDir output sampling config).trace =
        some seen ∧
      seen.countP Seen.begins ≤ (kept.map Event.cost).sum ∧
      seen.length = 2 * seen.countP Seen.begins := by
  intro kept
  obtain ⟨seen, read, events, outlined⟩ := StackReconstructor.outlines_view
    surroundings.baseTimeNs surroundings.order kept
  have typed : ∀ o ∈ seen.filterMap Seen.outline, o.eventType = 2 ∨ o.eventType = 3 := by
    intro o member
    rw [outlined] at member
    exact (StackReconstructor.mem_outlines member).1
  obtain ⟨opened, closed⟩ := StackReconstructor.seen_marks events typed
  have even := StackReconstructor.outlines_level [preambleCall surroundings.baseTimeNs]
    surroundings.order kept
  have bound := Tracker.opened_handed surroundings.order kept
  have either := StackReconstructor.seen_length events typed
  rw [outlined] at opened closed
  refine ⟨seen, ?_, ?_, ?_⟩
  · rw [decodePerfData_trace]
    exact read
  · rw [← opened, StackReconstructor.openings_outlines]
    exact bound
  · rw [either, ← opened, ← closed, even]
    omega

end Tracey
