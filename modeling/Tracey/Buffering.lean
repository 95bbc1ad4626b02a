import Tracey.Unbuffered

/-!
# Buffering is transparent

What is written for a thread, through the end, is what a machine without a
buffer performs, in order and one for one. That machine follows scripts, which
depend on the frames of the stacks only: the times of the events have no
influence on the kinds and the symbols of what it performs, and so none on what
is written.
-/

namespace Tracey

open BracketWord

/-- What the operations performed begin and end. Their times do not matter for
this. -/
def Unbuffered.marks (u : Unbuffered) : List (Mark Text) :=
  u.performed.flatMap (fun p => p.event.marks)

/-- Two machines with the same frames that have begun and ended the same. The
times in them may be any. -/
structure Alike (u u' : Unbuffered) : Prop where
  frames : SameFrames u.view u'.view
  marks : u.marks = u'.marks

/-- What a return ends does not depend on the creation time of the stack. Only
the time at which an untraced function begins does. -/
theorem retEvent_marks {callstack callstack' : Callstack}
    (same : callstack.stack = callstack'.stack) :
    (Handling.retEvent callstack).marks = (Handling.retEvent callstack').marks := by
  unfold Handling.retEvent
  rw [same]
  split <;> rfl

namespace Alike

variable {u u' : Unbuffered}

/-- Performing what begins and ends the same, onto the same frames, keeps the
machines alike. -/
theorem record (alike : Alike u u') (time time' : UInt64) {ev ev' : PendingEvent}
    (same : ev.marks = ev'.marks) {stack stack' : List Location} (equal : stack = stack') :
    Alike (u.record time ev stack) (u'.record time' ev' stack') := by
  refine ⟨⟨equal, alike.frames.saved⟩, ?_⟩
  simp only [Unbuffered.marks, Unbuffered.record, List.flatMap_append, List.flatMap_singleton]
  exact congrArg₂ (· ++ ·) alike.marks same

/-- Every operation keeps them alike, whatever the times on both sides are. No
operation looks at a time to decide what it does. -/
theorem perform (alike : Alike u u') (time time' : UInt64) (operation : Operation) :
    Alike (u.perform time operation) (u'.perform time' operation) := by
  have active : u.callstack.stack = u'.callstack.stack := alike.frames.active
  have saved : u.inactiveCallstacks.map Callstack.stack =
      u'.inactiveCallstacks.map Callstack.stack := alike.frames.saved
  cases operation with
  | call loc => exact alike.record _ _ rfl (congrArg (· ++ [loc]) active)
  | infer loc => exact alike.record _ _ rfl (congrArg (· ++ [loc]) active)
  | enter loc =>
    apply record _ _ _ rfl rfl
    refine ⟨⟨rfl, ?_⟩, alike.marks⟩
    change (u.inactiveCallstacks ++ [u.callstack]).map Callstack.stack =
      (u'.inactiveCallstacks ++ [u'.callstack]).map Callstack.stack
    rw [List.map_append, List.map_append]
    exact congrArg₂ (fun below top => below ++ [top]) saved active
  | ret => exact alike.record _ _ (retEvent_marks active) (congrArg List.dropLast active)
  | restore =>
    have last : u.inactiveCallstacks.getLast?.map Callstack.stack =
        u'.inactiveCallstacks.getLast?.map Callstack.stack := alike.frames.last
    have dropped := congrArg List.dropLast saved
    rw [← List.map_dropLast, ← List.map_dropLast] at dropped
    simp only [Unbuffered.perform]
    cases found : u.inactiveCallstacks.getLast? <;>
        cases found' : u'.inactiveCallstacks.getLast? <;>
      simp only [found, found', Option.map_none, Option.map_some, Option.some.injEq,
        reduceCtorEq] at last
    · exact alike
    · exact ⟨⟨last, dropped⟩, alike.marks⟩
  | redate => exact ⟨⟨active, saved⟩, alike.marks⟩
  | flush => exact alike

/-- So does every script. -/
theorem follow (alike : Alike u u') (time time' : UInt64) (operations : List Operation) :
    Alike (u.follow time operations) (u'.follow time' operations) := by
  induction operations generalizing u u' with
  | nil => exact alike
  | cons operation rest inductionHypothesis =>
    exact inductionHypothesis (alike.perform time time' operation)

/-- The same work keeps the machines alike, at whatever times. The inputs come
in the same order. -/
theorem live (alike : Alike u u') {history history' : List (UInt64 × Work)}
    (same : history.map Prod.snd = history'.map Prod.snd) :
    Alike (u.live history) (u'.live history') := by
  induction history generalizing u u' history' with
  | nil =>
    rw [List.map_eq_nil_iff.mp same.symm]
    exact alike
  | cons input rest inductionHypothesis =>
    obtain ⟨⟨time', _⟩, rest', rfl, rfl, others⟩ := List.map_eq_cons_iff.mp same.symm
    have planned := alike.frames.script input.1 time' input.2
    have arrived : Alike { u with lastEventTime := input.1 } { u' with lastEventTime := time' } :=
      ⟨alike.frames, alike.marks⟩
    have followed := arrived.follow input.1 time' (u.view.script input.1 input.2)
    apply inductionHypothesis _ others.symm
    dsimp only
    rwa [← planned]

/-- So does finishing. -/
theorem finish (alike : Alike u u') : Alike u.finish u'.finish := by
  rw [Unbuffered.finish, Unbuffered.finish, alike.frames.finishScript]
  exact alike.follow _ _ _

end Alike

/-- An event without its time. A decode error still tells whether it had one.
This is so because an error without a time asks for nothing. -/
def Event.untimed : Event → Event
  | .ok event => .ok { event with timeNs := 0 }
  | .decodeError error => .decodeError { error with timeNs := error.timeNs.map (fun _ => 0) }

/-- Taking its time away leaves an event with its thread. -/
theorem Event.untimed_thread (event : Event) : event.untimed.thread = event.thread := by
  cases event <;> rfl

/-- Taking its time away leaves an event what it asks for. Whether it asks for
something stays the same, too. -/
theorem Event.untimed_work (event : Event) :
    event.untimed.timed.map Prod.snd = event.timed.map Prod.snd := by
  cases event with
  | ok event =>
    obtain ⟨_, _, _, data⟩ := event
    cases data <;> rfl
  | decodeError error =>
    simp only [Event.untimed, Event.timed, Option.map_map]
    rfl

namespace Tracker

/-- The work that the events of a thread ask for does not depend on their times.
Neither does how much of it there is. -/
theorem timedOf_untimed (key : ThreadKey) (events : List Event) :
    (timedOf key (events.map Event.untimed)).map Prod.snd = (timedOf key events).map Prod.snd := by
  have mine : (fun event : Event => decide (event.thread = key)) ∘ Event.untimed =
      fun event => decide (event.thread = key) := by
    funext event
    rw [Function.comp_apply, Event.untimed_thread]
  have asked : (fun event : Event => (event.untimed.timed).map Prod.snd) =
      fun event => event.timed.map Prod.snd := funext Event.untimed_work
  simp only [timedOf, List.filter_map, mine, List.filterMap_map, List.map_filterMap]
  exact congrArg (List.filterMap · _) asked

/-- What is written for a thread is what the machine without a buffer performs,
event by event and in the same order. -/
theorem handed_performed (order : HashOrder) (events : List Event) (key : ThreadKey) :
    ((({} : Tracker).handed order events).filter (fun w => w.thread = key)).map Write.event =
      (performedFor key events).map Performed.event := by
  have pairs := performedFor_written order events key
  generalize (({} : Tracker).handed order events).filter (fun w => w.thread = key) = writes
    at pairs ⊢
  generalize performedFor key events = performed at pairs ⊢
  induction pairs with
  | nil => rfl
  | cons pair _ inductionHypothesis =>
    rw [List.map_cons, List.map_cons, pair.1, inductionHypothesis]

/-- So what the file begins and ends on a thread is what that machine begins and
ends. -/
theorem stampsFor_performed (order : HashOrder) (events : List Event) (key : ThreadKey) :
    (stampsFor key (({} : Tracker).handed order events)).map Stamp.mark =
      (performedFor key events).flatMap (fun p => p.event.marks) := by
  rw [stampsFor, List.map_flatMap]
  simp only [Write.stamps_mark]
  rw [← List.flatMap_map, handed_performed, List.flatMap_map]

/-- Events that differ only in their times make threads perform the same. This
compares traces that were recorded at different speeds. -/
theorem performedFor_untimed {events others : List Event}
    (same : events.map Event.untimed = others.map Event.untimed) (key : ThreadKey) :
    (performedFor key events).flatMap (fun p => p.event.marks) =
      (performedFor key others).flatMap (fun p => p.event.marks) := by
  have works : (timedOf key events).map Prod.snd = (timedOf key others).map Prod.snd := by
    rw [← timedOf_untimed, same, timedOf_untimed]
  have histories : ∀ base base' : UInt64,
      (history base key events).map Prod.snd = (history base' key others).map Prod.snd := by
    intro base base'
    rw [history_timed, history_timed, List.map_map, List.map_map]
    exact works
  have start : Alike {} {} := ⟨⟨rfl, rfl⟩, rfl⟩
  exact (start.live (histories _ _)).finish.marks

end Tracker

namespace StackReconstructor

/-- The calls and returns performed for a thread are what is written for it, in
order and one for one: what begins and ends in the trace is what they begin and
end. Events that differ only in their times are written with the same begins and
ends. -/
theorem buffering_transparent (before : List WriterCall) (order order' : HashOrder)
    (events others : List Event) (key : ThreadKey)
    (same : events.map Event.untimed = others.map Event.untimed) :
    let performed := Tracker.performedFor key events
    let marks := performed.flatMap (fun p => p.event.marks)
    ((({} : Tracker).handed order events).filter (fun w => w.thread = key)).map Write.event =
        performed.map Performed.event ∧
      (stampsFor key (({} : Tracker).handed order events)).map Stamp.mark = marks ∧
      (seenOf before order events key).map Outline.mark =
        marks.map (Mark.map (reconstruct before order events).nameId) ∧
      (stampsFor key (({} : Tracker).handed order' others)).map Stamp.mark = marks := by
  intro performed marks
  have written := Tracker.handed_performed order events key
  have stamped := Tracker.stampsFor_performed order events key
  refine ⟨written, stamped, ?_, ?_⟩
  · exact (outlines_marks before order events key).trans (congrArg _ stamped)
  · rw [Tracker.stampsFor_performed]
    exact (Tracker.performedFor_untimed same key).symm

/-- A call and a return at one time, and the same with the return four
nanoseconds later. -/
theorem buffering_transparent_call :
    let call : Event := .ok { pid := 1, tid := 1, timeNs := 5, data := .branch { kind := some .call } }
    let ret (timeNs : UInt64) : Event :=
      .ok { pid := 1, tid := 1, timeNs, data := .branch { kind := some .return } }
    (stampsFor ⟨1, 1⟩ (({} : Tracker).handed .listed [call, ret 9])).map Stamp.mark =
      (Tracker.performedFor ⟨1, 1⟩ [call, ret 5]).flatMap (fun p => p.event.marks) := by
  intro call ret
  exact (buffering_transparent [] .listed .listed [call, ret 5] [call, ret 9] ⟨1, 1⟩ rfl).2.2.2

end StackReconstructor

end Tracey
