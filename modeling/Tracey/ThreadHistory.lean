import Tracey.KeyedMachine
import Tracey.Operations

/-!
# The history of one thread

The tracker is a family of machines, one for each thread, that share only the
base of their clock. An event that concerns its thread's stacks is an input for
that thread: its mapped time and the work to do. What the tracker hands over for
a thread, finishing included, is therefore what the thread alone makes of its
own inputs, in whatever order `finish` visits the threads.
-/

namespace Tracey

open FiniteMap KeyedMachine

namespace Event

/-- The thread an event belongs to. Every event belongs to one, also those that
do not concern its stacks. -/
def thread : Event → ThreadKey
  | .ok event => ⟨event.pid, event.tid⟩
  | .decodeError error => ⟨error.pid, error.tid⟩

/-- The time and the work of an event that concerns its thread's stacks. Changes
of frequency, counters and errors without a time are none of these. -/
def timed : Event → Option (UInt64 × Work)
  | .ok event =>
    match event.data with
    | .branch br => some (event.timeNs, .branch br)
    | .stacktraceSample st => some (event.timeNs, .sample st)
    | .power _ => none
    | .eventSample _ => none
  | .decodeError error => error.timeNs.map (·, .lost)

end Event

namespace Handling

/-- Note the time of an event. It is the time at which the thread will be closed
if nothing follows. -/
def arrive (h : Handling) (time : UInt64) : Handling := { h with thread.lastEventTime := time }

/-- Receive inputs one after the other. Each one is noted with its time and then
handled. -/
def live (h : Handling) (history : List (UInt64 × Work)) : Handling :=
  history.foldl (fun h input => (h.arrive input.1).handle input.1 input.2) h

/-- Without inputs nothing happens. -/
@[simp] theorem live_nil (h : Handling) : h.live [] = h := rfl

/-- The first input is received, and the others behind it. -/
@[simp] theorem live_cons (h : Handling) (input : UInt64 × Work) (rest : List (UInt64 × Work)) :
    h.live (input :: rest) = ((h.arrive input.1).handle input.1 input.2).live rest := rfl

/-- The same thread, with writes that were made before. They stand in front of
those made since. -/
def after (h : Handling) (earlier : List Write) : Handling :=
  { h with writes := earlier ++ h.writes }

/-- A handling is that of its thread afresh, after the writes made so far. -/
theorem fresh_after {h : Handling} {key : ThreadKey} (owner : h.key = key) :
    (⟨key, h.thread, []⟩ : Handling).after h.writes = h := by
  subst owner
  simp only [after, List.append_nil]

/-! Earlier writes make no difference to what is done. -/

/-- A flush does the same whatever has been written earlier. It appends, and
never looks at what is there. -/
theorem flush_after (h : Handling) (earlier : List Write) (time : UInt64) :
    (h.after earlier).flush time = (h.flush time).after earlier := by
  by_cases idle : h.thread.pendingEvents = []
  · have idle' : (h.after earlier).thread.pendingEvents = [] := idle
    rw [flush, flush, if_pos idle, if_pos idle']
  · have idle' : ¬ (h.after earlier).thread.pendingEvents = [] := idle
    rw [flush, flush, if_neg idle, if_neg idle']
    simp only [after, List.append_assoc]
    rfl

/-- Recording an operation does the same whatever has been written earlier. -/
theorem addEvent_after (h : Handling) (earlier : List Write) (time : UInt64) (ev : PendingEvent) :
    (h.after earlier).addEvent time ev = (h.addEvent time ev).after earlier := by
  have flushed := h.flush_after earlier time
  by_cases late : time ≠ h.thread.pendingTime ∧ h.thread.pendingEvents ≠ []
  · have late' : time ≠ (h.after earlier).thread.pendingTime ∧
        (h.after earlier).thread.pendingEvents ≠ [] := late
    simp only [addEvent, if_pos late, if_pos late', flushed]
    rfl
  · have late' : ¬ (time ≠ (h.after earlier).thread.pendingTime ∧
        (h.after earlier).thread.pendingEvents ≠ []) := late
    simp only [addEvent, if_neg late, if_neg late']
    rfl

/-- So does recording one that leaves a stack. Calls and returns are of this
form. -/
theorem record_after (h : Handling) (earlier : List Write) (time : UInt64) (ev : PendingEvent)
    (stack : List Location) :
    (h.after earlier).record time ev stack = (h.record time ev stack).after earlier := by
  rw [record, addEvent_after]
  rfl

/-- So does every operation. -/
theorem perform_after (h : Handling) (earlier : List Write) (time : UInt64)
    (operation : Operation) :
    (h.after earlier).perform time operation = (h.perform time operation).after earlier := by
  cases operation with
  | call loc =>
    rw [perform_call, perform_call]
    exact h.record_after earlier time _ _
  | infer loc =>
    rw [perform_infer, perform_infer]
    exact h.record_after earlier _ _ _
  | enter loc =>
    rw [perform_enter, perform_enter]
    exact (h.save time).record_after earlier time _ _
  | ret =>
    rw [perform_ret, perform_ret]
    exact h.record_after earlier time _ _
  | restore =>
    cases top : h.saved.getLast? with
    | none =>
      have top' : (h.after earlier).saved.getLast? = none := top
      simp only [perform, top, top']
    | some last =>
      have top' : (h.after earlier).saved.getLast? = some last := top
      simp only [perform, top, top']
      rfl
  | redate => rfl
  | flush => exact h.flush_after earlier time

/-- So does every script. -/
theorem follow_after (h : Handling) (earlier : List Write) (time : UInt64)
    (operations : List Operation) :
    (h.after earlier).follow time operations = (h.follow time operations).after earlier := by
  induction operations generalizing h with
  | nil => rfl
  | cons operation rest inductionHypothesis =>
    rw [follow_cons, perform_after, inductionHypothesis]
    rfl

/-- So does the work of every event: its script is read off the stacks. Nothing
in a script depends on writes. -/
theorem handle_after (h : Handling) (earlier : List Write) (time : UInt64) (work : Work) :
    (h.after earlier).handle time work = (h.handle time work).after earlier := by
  have planned : (h.after earlier).script time work = h.script time work := by
    cases work with
    | branch br =>
      have resumed := h.follow_after earlier time (h.resumeScript br)
      simp only [script, branchScript]
      cases br.traceState with
      | start =>
        have same : (h.after earlier).resumeScript br = h.resumeScript br := rfl
        rw [same, resumed]
        rfl
      | none => rfl
      | «end» => rfl
    | sample st => rfl
    | lost => rfl
  rw [((h.after earlier).handle_follow time work).1, planned, follow_after,
    ← (h.handle_follow time work).1]

/-- So does a life: earlier writes stay in front of what it adds. So a life can
be cut into parts and put together again. -/
theorem live_after (h : Handling) (earlier : List Write) (history : List (UInt64 × Work)) :
    (h.after earlier).live history = (h.live history).after earlier := by
  induction history generalizing h with
  | nil => rfl
  | cons input rest inductionHypothesis =>
    have arrived : (h.after earlier).arrive input.1 = (h.arrive input.1).after earlier := rfl
    rw [live_cons, arrived, handle_after, inductionHypothesis]
    rfl

/-- So does finishing the thread. -/
theorem finish_after (h : Handling) (earlier : List Write) :
    (h.after earlier).finish = h.finish.after earlier := by
  have planned : (h.after earlier).finishScript = h.finishScript := rfl
  rw [(h.after earlier).finish_follow.1, planned, follow_after]
  exact congrArg (Handling.after · earlier) h.finish_follow.1.symm

/-! Every write is made for the thread being handled. -/

/-- All writes are for one thread, the one at hand. This is kept by everything
that is done for the thread. -/
def Signed (key : ThreadKey) (h : Handling) : Prop := h.key = key ∧ ∀ w ∈ h.writes, w.thread = key

/-- The loop of `flush` writes for the thread it is given, and for no other. The
times and the order do not matter for this. -/
theorem flushLoop_thread (key : ThreadKey) (pendingTime totalNs : UInt64) (consumers : Int)
    (events : List PendingEvent) (nsOffset : UInt64) (sharesConsumed : Int) :
    ∀ w ∈ flushLoop key pendingTime totalNs consumers nsOffset sharesConsumed events,
      w.thread = key := by
  induction events generalizing nsOffset sharesConsumed with
  | nil =>
    intro w member
    cases member
  | cons ev rest inductionHypothesis =>
    intro w member
    simp only [flushLoop] at member
    split at member
    · rcases List.mem_cons.mp member with rfl | later
      · rfl
      · exact inductionHypothesis _ _ w later
    · rcases List.mem_cons.mp member with rfl | later
      · rfl
      · exact inductionHypothesis _ _ w later

/-- A flush signs what it writes with its own thread. -/
theorem flush_signed {key : ThreadKey} {h : Handling} (signed : Signed key h) (time : UInt64) :
    Signed key (h.flush time) := by
  refine ⟨(h.flush_key time).trans signed.1, ?_⟩
  unfold flush
  split
  · exact signed.2
  · intro w member
    rcases List.mem_append.mp member with old | new
    · exact signed.2 w old
    · exact (flushLoop_thread _ _ _ _ _ _ _ w new).trans signed.1

/-- Recording signs what it writes. -/
theorem record_signed {key : ThreadKey} {h : Handling} (signed : Signed key h) (time : UInt64)
    (ev : PendingEvent) (stack : List Location) : Signed key (h.record time ev stack) := by
  refine ⟨(h.record_key time ev stack).trans signed.1, ?_⟩
  simp only [record, addEvent, setStack]
  split
  · exact (flush_signed signed time).2
  · exact signed.2

/-- Every operation signs what it writes. -/
theorem perform_signed {key : ThreadKey} (time : UInt64) (h : Handling) (operation : Operation)
    (signed : Signed key h) : Signed key (h.perform time operation) := by
  cases operation with
  | call loc =>
    rw [perform_call]
    exact record_signed signed _ _ _
  | infer loc =>
    rw [perform_infer]
    exact record_signed signed _ _ _
  | enter loc =>
    rw [perform_enter]
    exact record_signed (h := h.save time) signed _ _ _
  | ret =>
    rw [perform_ret]
    exact record_signed signed _ _ _
  | restore =>
    simp only [perform]
    split
    · exact signed
    · exact signed
  | redate => exact signed
  | flush => exact flush_signed signed time

/-- The work of every event signs what it writes. No event of one thread writes
for another. -/
theorem handle_signed {key : ThreadKey} {h : Handling} (signed : Signed key h) (time : UInt64)
    (work : Work) : Signed key (h.handle time work) := by
  obtain ⟨followed, permitted⟩ := h.handle_follow time work
  rw [followed]
  exact follow_keeps (fun h operation signed _ => perform_signed time h operation signed) signed
    permitted

/-- A thread with nothing written yet has signed all its writes. -/
theorem signed_fresh (key : ThreadKey) (ti : ThreadInfo) : Signed key ⟨key, ti, []⟩ :=
  ⟨rfl, by intro w member; cases member⟩

/-- Whatever a thread lives through, its writes are its own. The same is true of
its end. -/
theorem live_signed {key : ThreadKey} {h : Handling} (signed : Signed key h)
    (history : List (UInt64 × Work)) : Signed key (h.live history) := by
  induction history generalizing h with
  | nil => exact signed
  | cons input rest inductionHypothesis =>
    exact inductionHypothesis (handle_signed (h := h.arrive input.1) signed input.1 input.2)

/-- Finishing a thread writes for that thread. -/
theorem finish_signed {key : ThreadKey} {h : Handling} (signed : Signed key h) :
    Signed key h.finish := by
  obtain ⟨followed, permitted⟩ := h.finish_follow
  rw [followed]
  exact follow_keeps (fun h operation signed _ => perform_signed _ h operation signed) signed
    permitted

end Handling

end Tracey
