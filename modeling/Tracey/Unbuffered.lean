import Tracey.Timing

/-!
# Without a buffer

The reconstructor keeps what it records until the time moves, in either
direction, and then writes it as a batch. The machine here has no buffer: it
performs each operation of an event's script at once and remembers it with its
time.

The buffered thread refines it: the stacks are the same, and what the machine
performed is what is written, in order and one for one, followed by what is
pending. A write never comes earlier than the operation it stands for. Scripts
only look at the frames on the stacks, so the times of the events decide when
something is written and not what.
-/

namespace Tracey

open BracketWord

/-- A call or return that was performed: its time and what it records. The time
is that of the operation, not one that a flush would give it. -/
structure Performed where
  time : UInt64
  event : PendingEvent
deriving DecidableEq, Repr

/-- One thread of a reconstructor without a buffer: the stacks, the time of the
last event, and what has been performed. -/
structure Unbuffered where
  callstack : Callstack := {}
  inactiveCallstacks : List Callstack := []
  lastEventTime : UInt64 := 0
  performed : List Performed := []
deriving DecidableEq, Repr

namespace Unbuffered

/-- The stacks as a script sees them. It has nothing pending and nothing
written. -/
def view (u : Unbuffered) : Handling :=
  ⟨⟨0, 0⟩, { callstack := u.callstack, inactiveCallstacks := u.inactiveCallstacks }, []⟩

/-- Perform a call or a return that leaves a stack. It is performed at once, at
its own time. -/
def record (u : Unbuffered) (time : UInt64) (event : PendingEvent) (stack : List Location) :
    Unbuffered :=
  { u with callstack.stack := stack, performed := u.performed ++ [⟨time, event⟩] }

/-- Perform an operation at once. What the reconstructor would record is
performed here at the time it is recorded for; there is nothing to flush. -/
def perform (time : UInt64) (u : Unbuffered) : Operation → Unbuffered
  | .call loc => u.record time (Handling.callEvent loc false) (u.callstack.stack ++ [loc])
  | .infer loc =>
    u.record u.callstack.createTime (Handling.callEvent loc true) (u.callstack.stack ++ [loc])
  | .enter loc =>
    let entered : Unbuffered :=
      { u with
        inactiveCallstacks := u.inactiveCallstacks ++ [u.callstack]
        callstack := { createTime := time } }
    entered.record time (Handling.callEvent loc false) [loc]
  | .ret => u.record time (Handling.retEvent u.callstack) u.callstack.stack.dropLast
  | .restore =>
    match u.inactiveCallstacks.getLast? with
    | some callstack =>
      { u with callstack := callstack, inactiveCallstacks := u.inactiveCallstacks.dropLast }
    | none => u
  | .redate => { u with callstack.createTime := time }
  | .flush => u

/-- Perform operations one after the other. The state changes with each one, as
in the reconstructor. -/
def follow (u : Unbuffered) (time : UInt64) (operations : List Operation) : Unbuffered :=
  operations.foldl (perform time) u

/-- Receive inputs one after the other. Each input is planned as a script on
what is seen then. -/
def live (u : Unbuffered) (history : List (UInt64 × Work)) : Unbuffered :=
  history.foldl (fun u input =>
    ({ u with lastEventTime := input.1 } : Unbuffered).follow input.1
      (u.view.script input.1 input.2)) u

/-- Finish the thread at the time of its last event, as the reconstructor does.
There is nothing to flush. -/
def finish (u : Unbuffered) : Unbuffered := u.follow u.lastEventTime u.view.finishScript

end Unbuffered

/-! Scripts depend on the frames only. -/

/-- The stacks hold the same frames, whenever they were created. Their creation
times may differ, and so may what has been written. -/
structure SameFrames (h h' : Handling) : Prop where
  active : h.stack = h'.stack
  saved : h.saved.map Callstack.stack = h'.saved.map Callstack.stack

namespace SameFrames

variable {h h' : Handling}

/-- Restoring finds a stack on both sides, with the same frames, or on neither.
What is restored may have been created at another time. -/
theorem last (same : SameFrames h h') :
    h.saved.getLast?.map Callstack.stack = h'.saved.getLast?.map Callstack.stack := by
  rw [← List.getLast?_map, ← List.getLast?_map, same.saved]

/-- Recording leaves the same frames on both sides if it is handed the same. The
times may differ. -/
theorem record (same : SameFrames h h') (time time' : UInt64) (ev ev' : PendingEvent)
    {stack stack' : List Location} (equal : stack = stack') :
    SameFrames (h.record time ev stack) (h'.record time' ev' stack') := by
  constructor
  · simp only [Handling.stack, Handling.record_callstack, equal]
  · simp only [Handling.saved, Handling.record_saved]
    exact same.saved

/-- Every operation keeps the frames the same, whatever the times on both sides
are. -/
theorem perform (same : SameFrames h h') (time time' : UInt64) (operation : Operation) :
    SameFrames (h.perform time operation) (h'.perform time' operation) := by
  cases operation with
  | call loc =>
    rw [Handling.perform_call, Handling.perform_call]
    exact same.record _ _ _ _ (by rw [same.active])
  | infer loc =>
    rw [Handling.perform_infer, Handling.perform_infer]
    exact same.record _ _ _ _ (by rw [same.active])
  | enter loc =>
    have saved : SameFrames (h.save time) (h'.save time') := by
      refine ⟨rfl, ?_⟩
      change (h.saved ++ [h.thread.callstack]).map Callstack.stack =
        (h'.saved ++ [h'.thread.callstack]).map Callstack.stack
      rw [List.map_append, List.map_append]
      exact congrArg₂ (fun below top => below ++ [top]) same.saved same.active
    rw [Handling.perform_enter, Handling.perform_enter]
    exact saved.record _ _ _ _ rfl
  | ret =>
    rw [Handling.perform_ret, Handling.perform_ret]
    exact same.record _ _ _ _ (by rw [same.active])
  | restore =>
    have last := same.last
    have dropped := congrArg List.dropLast same.saved
    rw [← List.map_dropLast, ← List.map_dropLast] at dropped
    simp only [Handling.perform]
    cases found : h.saved.getLast? <;> cases found' : h'.saved.getLast? <;>
      simp only [found, found', Option.map_none, Option.map_some, Option.some.injEq,
        reduceCtorEq] at last
    · exact same
    · exact ⟨last, dropped⟩
  | redate => exact ⟨same.active, same.saved⟩
  | flush =>
    constructor
    · simp only [Handling.perform, Handling.stack, Handling.flush_callstack]
      exact same.active
    · simp only [Handling.perform, Handling.saved, Handling.flush_saved]
      exact same.saved

/-- So does every script. -/
theorem follow (same : SameFrames h h') (time time' : UInt64) (operations : List Operation) :
    SameFrames (h.follow time operations) (h'.follow time' operations) := by
  induction operations generalizing h h' with
  | nil => exact same
  | cons operation rest inductionHypothesis =>
    exact inductionHypothesis (same.perform time time' operation)

/-- What a branch of its kind asks for depends on the frames only. The script is
planned before any of it is done. -/
theorem kindScript (same : SameFrames h h') (br : BranchData) :
    h.kindScript br = h'.kindScript br := by
  have last := same.last
  unfold Handling.kindScript
  rw [same.active]
  cases found : h.saved.getLast? <;> cases found' : h'.saved.getLast? <;>
    simp only [found, found', Option.map_none, Option.map_some, Option.some.injEq,
      reduceCtorEq] at last ⊢
  rw [last]

/-- So does what is asked where the trace starts. -/
theorem resumeScript (same : SameFrames h h') (br : BranchData) :
    h.resumeScript br = h'.resumeScript br := by
  rw [Handling.resumeScript, same.active]
  rfl

/-- So does what clearing all stacks asks for. -/
theorem clearScript (same : SameFrames h h') : h.clearScript = h'.clearScript := by
  have emptied : ∀ saved : List Callstack, Handling.savedScript saved =
      (saved.map Callstack.stack).reverse.flatMap
        (fun stack => .restore :: List.replicate stack.length .ret) := by
    intro saved
    rw [Handling.savedScript, ← List.map_reverse, List.flatMap_map]
  rw [Handling.clearScript, Handling.clearScript, same.active, emptied, emptied, same.saved]

/-- So does what any event asks for: a time is handed on and never looked at. So
the two machines always do the same operations. -/
theorem script (same : SameFrames h h') (time time' : UInt64) (work : Work) :
    h.script time work = h'.script time' work := by
  cases work with
  | branch br =>
    simp only [Handling.script, Handling.branchScript]
    cases br.traceState with
    | none => exact same.kindScript br
    | start =>
      rw [same.resumeScript br]
      exact congrArg _ ((same.follow time time' _).kindScript br)
    | «end» => rfl
  | sample st =>
    simp only [Handling.script, Handling.sampleScript, same.active]
  | lost => exact same.clearScript

/-- So does what finishing asks for. -/
theorem finishScript (same : SameFrames h h') : h.finishScript = h'.finishScript := by
  rw [Handling.finishScript, same.clearScript]
  rfl

end SameFrames

/-! The buffered thread refines the machine. -/

/-- A write stands for an operation and comes no earlier. It may come later, by
the shares of the calls before it. -/
def Performed.WrittenAs (p : Performed) (w : Write) : Prop := w.event = p.event ∧ p.time ≤ w.time

/-- A thread has the stacks of the machine, has written some of what it
performed and keeps the rest pending. -/
structure Buffers (h : Handling) (u : Unbuffered) : Prop where
  callstack : u.callstack = h.thread.callstack
  saved : u.inactiveCallstacks = h.saved
  lastEventTime : u.lastEventTime = h.thread.lastEventTime
  performed : ∃ past, List.Forall₂ Performed.WrittenAs past h.writes ∧
    u.performed = past ++ h.thread.pendingEvents.map (Performed.mk h.thread.pendingTime)

namespace Buffers

variable {h : Handling} {u : Unbuffered}

/-- The machine shows the frames of the thread. Both have carried out the same
operations. -/
theorem view (buffers : Buffers h u) : SameFrames h u.view where
  active := congrArg Callstack.stack buffers.callstack.symm
  saved := congrArg (List.map Callstack.stack) buffers.saved.symm

/-- A flush writes what is pending, in its order and no earlier than it was
performed. -/
theorem flush (buffers : Buffers h u) (time : UInt64) : Buffers (h.flush time) u := by
  obtain ⟨past, written, whole⟩ := buffers.performed
  have flushed := h.flush_flushed time
  generalize (h.placements time).map h.place = news at flushed
  refine ⟨?_, ?_, ?_, ?_⟩
  · rw [Handling.flush_callstack, buffers.callstack]
  · rw [Handling.saved, Handling.flush_saved, buffers.saved]
  · rw [Handling.flush_lastEventTime, buffers.lastEventTime]
  · refine ⟨u.performed, ?_, ?_⟩
    · rw [flushed.writes, whole, ← flushed.events, List.map_map]
      apply List.rel_append written
      apply List.forall₂_map_left_iff.mpr
      apply List.forall₂_same.mpr
      intro w member
      exact ⟨rfl, flushed.lower w member⟩
    · rw [Handling.flush_pending, List.map_nil, List.append_nil]

/-- Recording keeps the relation. If something waits for another time it is
flushed first, and waits no more. -/
theorem record (buffers : Buffers h u) (time : UInt64) (ev : PendingEvent)
    (stack : List Location) : Buffers (h.record time ev stack) (u.record time ev stack) := by
  have pushed : ∀ h : Handling, Buffers h u →
      (time = h.thread.pendingTime ∨ h.thread.pendingEvents = []) →
      Buffers (h.push time ev stack) (u.record time ev stack) := by
    intro h buffers apart
    obtain ⟨past, written, whole⟩ := buffers.performed
    refine ⟨?_, buffers.saved, buffers.lastEventTime, past, written, ?_⟩
    · exact congrArg (fun callstack => { callstack with stack := stack }) buffers.callstack
    · have waiting : h.thread.pendingEvents.map (Performed.mk h.thread.pendingTime) =
          h.thread.pendingEvents.map (Performed.mk time) := by
        rcases apart with same | empty
        · rw [same]
        · rw [empty, List.map_nil, List.map_nil]
      change u.performed ++ [⟨time, ev⟩] =
        past ++ (h.thread.pendingEvents ++ [ev]).map (Performed.mk time)
      rw [whole, waiting, List.map_append, List.append_assoc]
      rfl
  rcases h.record_push time ev stack with ⟨_, _, flushed⟩ | ⟨apart, quiet⟩
  · rw [flushed]
    exact pushed _ (buffers.flush time) (.inr (h.flush_pending time))
  · rw [quiet]
    exact pushed h buffers apart

/-- Every operation keeps the relation: what the thread records, the machine
performs. -/
theorem perform (buffers : Buffers h u) (time : UInt64) (operation : Operation) :
    Buffers (h.perform time operation) (u.perform time operation) := by
  cases operation with
  | call loc =>
    rw [Handling.perform_call, Unbuffered.perform, buffers.callstack]
    exact buffers.record _ _ _
  | infer loc =>
    rw [Handling.perform_infer, Unbuffered.perform, buffers.callstack]
    exact buffers.record _ _ _
  | enter loc =>
    obtain ⟨past, written, whole⟩ := buffers.performed
    rw [Handling.perform_enter]
    apply record (h := h.save time)
    refine ⟨rfl, ?_, buffers.lastEventTime, past, written, whole⟩
    exact congrArg₂ (fun below top => below ++ [top]) buffers.saved buffers.callstack
  | ret =>
    rw [Handling.perform_ret, Unbuffered.perform, buffers.callstack]
    exact buffers.record _ _ _
  | restore =>
    cases top : h.saved.getLast? with
    | some last =>
      simp only [Handling.perform, Unbuffered.perform, buffers.saved, top]
      exact ⟨rfl, rfl, buffers.lastEventTime, buffers.performed⟩
    | none =>
      simp only [Handling.perform, Unbuffered.perform, buffers.saved, top]
      exact buffers
  | redate =>
    refine ⟨?_, buffers.saved, buffers.lastEventTime, buffers.performed⟩
    exact congrArg (fun callstack => { callstack with createTime := time }) buffers.callstack
  | flush => exact buffers.flush time

/-- So does every script. -/
theorem follow (buffers : Buffers h u) (time : UInt64) (operations : List Operation) :
    Buffers (h.follow time operations) (u.follow time operations) := by
  induction operations generalizing h u with
  | nil => exact buffers
  | cons operation rest inductionHypothesis =>
    exact inductionHypothesis (buffers.perform time operation)

/-- So does a life. Induct over the history; both sides plan the same script for
an event, because scripts depend on the frames only. -/
theorem live (buffers : Buffers h u) (history : List (UInt64 × Work)) :
    Buffers (h.live history) (u.live history) := by
  induction history generalizing h u with
  | nil => exact buffers
  | cons input rest inductionHypothesis =>
    have arrived : Buffers (h.arrive input.1) { u with lastEventTime := input.1 } :=
      ⟨buffers.callstack, buffers.saved, rfl, buffers.performed⟩
    have planned : (h.arrive input.1).script input.1 input.2 = u.view.script input.1 input.2 :=
      arrived.view.script input.1 input.1 input.2
    have followed := arrived.follow input.1 (u.view.script input.1 input.2)
    rw [← planned, ← ((h.arrive input.1).handle_follow input.1 input.2).1, planned] at followed
    exact inductionHypothesis followed

/-- When a thread is finished, everything is written. Each operation has its
write, in the same order. -/
theorem finish (buffers : Buffers h u) :
    List.Forall₂ Performed.WrittenAs u.finish.performed h.finish.writes := by
  have followed := buffers.follow u.lastEventTime u.view.finishScript
  rw [← buffers.view.finishScript, buffers.lastEventTime, ← h.finish_follow.1] at followed
  obtain ⟨past, written, whole⟩ := followed.performed
  rw [h.finish_empty.2.2, List.map_nil, List.append_nil] at whole
  rw [Unbuffered.finish, ← buffers.view.finishScript, buffers.lastEventTime, whole]
  exact written

/-- What was performed is what was recorded. Nothing is recorded twice or left
out. -/
theorem length_performed (buffers : Buffers h u) : u.performed.length = h.recorded.length := by
  obtain ⟨past, written, whole⟩ := buffers.performed
  rw [whole, Handling.recorded, List.length_append, List.length_append, List.length_map,
    List.length_map, written.length_eq]

/-- In the beginning both have done nothing. -/
theorem fresh (key : ThreadKey) : Buffers ⟨key, {}, []⟩ {} := ⟨rfl, rfl, rfl, [], .nil, rfl⟩

end Buffers

namespace Tracker

/-- The calls and returns performed for a thread by some events and `finish`,
one after the other, with their times. -/
def performedFor (key : ThreadKey) (events : List Event) : List Performed :=
  (({} : Unbuffered).live (history (({} : Tracker).base events) key events)).finish.performed

/-- Everything written for a thread was performed for it, in this order and no
later. -/
theorem performedFor_written (order : HashOrder) (events : List Event) (key : ThreadKey) :
    List.Forall₂ Performed.WrittenAs (performedFor key events)
      ((({} : Tracker).handed order events).filter (fun w => w.thread = key)) := by
  rw [handed_own]
  exact ((Buffers.fresh key).live _).finish

end Tracker

end Tracey
