import Tracey.BracketWord
import Tracey.WrittenEvents

/-!
# Nesting

The events recorded for a thread, those already written and then those pending,
form a bracket word whose open names are the frames of the saved stacks and of
the active one, outermost first. Entering and leaving frames moves both sides
alike; a return that has no frame to leave records a pair of marks; saving and
restoring stacks, and flushing, move neither. Finishing empties the stacks and
the pending events, so what is written is then a complete word.
-/

namespace Tracey

open BracketWord

/-- The marks an event writes. The end of an untraced duration is its begin and
its end. -/
def PendingEvent.marks (ev : PendingEvent) : List (Mark Text) :=
  match ev.kind with
  | .call => [.opening ev.symbol]
  | .ret => [.closing ev.symbol]
  | .retFromUntraced => [.opening unknownSymbol, .closing unknownSymbol]

/-- A duration event as a mark: type 2 begins and every other type ends. Only
types 2 and 3 occur. -/
def Stamp.mark (stamp : Stamp) : Mark Text :=
  if stamp.eventType = 2 then .opening stamp.symbol else .closing stamp.symbol

/-- The duration events of a write, as marks, are those of what it writes. So
the nesting can be shown before the times are known. -/
theorem Write.stamps_mark (w : Write) : w.stamps.map Stamp.mark = w.event.marks := by
  unfold Write.stamps PendingEvent.marks
  cases w.event.kind <;> rfl

namespace Handling

/-- The events written and pending, in the order they were recorded. Flushing
moves events from the second part to the first. -/
def recorded (h : Handling) : List PendingEvent :=
  h.writes.map Write.event ++ h.thread.pendingEvents

/-- The symbols of all frames, those of the saved stacks first. A return to them
will come only after those above are gone. -/
def frames (h : Handling) : List Text :=
  (h.saved.flatMap Callstack.stack ++ h.stack).map Location.symbol

/-- The recorded events leave exactly the frames open. This is the invariant of
a thread; it speaks of symbols, not of locations. -/
def Nested (h : Handling) : Prop :=
  walk [] (h.recorded.flatMap PendingEvent.marks) = some h.frames

/-- The loop of `flush` writes the pending events, all of them and in their
order. -/
theorem flushLoop_event (key : ThreadKey) (pendingTime totalNs : UInt64) (consumers : Int)
    (events : List PendingEvent) (nsOffset : UInt64) (sharesConsumed : Int) :
    (flushLoop key pendingTime totalNs consumers nsOffset sharesConsumed events).map Write.event =
      events := by
  induction events generalizing nsOffset sharesConsumed with
  | nil => rfl
  | cons ev rest inductionHypothesis =>
    simp only [flushLoop]
    split
    · rw [List.map_cons, inductionHypothesis]
    · rw [List.map_cons, inductionHypothesis]

/-- Flushing writes what was pending. It changes times, but neither events nor
their order. -/
theorem flush_recorded (h : Handling) (time : UInt64) : (h.flush time).recorded = h.recorded := by
  unfold flush
  split
  · rfl
  · simp only [recorded, List.map_append, flushLoop_event, List.append_nil]

/-- Behind a flush nothing waits, whether or not something did before. -/
theorem flush_pending (h : Handling) (time : UInt64) :
    (h.flush time).thread.pendingEvents = [] := by
  unfold flush
  split
  · assumption
  · rfl

/-- When nothing is pending, what is recorded is written. This is so behind the
last flush. -/
theorem recorded_written (h : Handling) (pending : h.thread.pendingEvents = []) :
    h.recorded = h.writes.map Write.event := by
  rw [recorded, pending, List.append_nil]

/-- Recording adds one event to those recorded, whether or not it flushes
before. -/
theorem record_recorded (h : Handling) (time : UInt64) (ev : PendingEvent)
    (stack : List Location) : (h.record time ev stack).recorded = h.recorded ++ [ev] := by
  have added : ∀ h : Handling,
      ({ h with
        thread.pendingTime := time
        thread.pendingEvents := h.thread.pendingEvents ++ [ev] } : Handling).recorded =
        h.recorded ++ [ev] := fun h => (List.append_assoc _ _ _).symm
  simp only [record, addEvent]
  split
  · exact (added (h.flush time)).trans (by rw [flush_recorded])
  · exact added h

/-- What leaving a frame that is there records. -/
def leaveEvent (loc : Location) : PendingEvent := { symbol := loc.symbol, kind := .ret }

/-- With a frame on the stack a return leaves the top of it. Its symbol is the
one that was pushed, whatever it was entered by. -/
theorem retEvent_top {callstack : Callstack} {below : List Location} {top : Location}
    (whole : callstack.stack = below ++ [top]) : retEvent callstack = leaveEvent top := by
  simp only [retEvent, whole, List.getLast?_concat]
  rfl

/-- Without a frame a return leaves unknown code, which it enters as well. Its
duration begins when the stack was made. -/
theorem retEvent_untraced {callstack : Callstack} (empty : callstack.stack = []) :
    retEvent callstack =
      ⟨unknownSymbol, .retFromUntraced, {}, callstack.createTime⟩ := by
  simp only [retEvent, empty, List.getLast?_nil]

/-- Since a start exactly some events were recorded, all of them at one time, so
that they wait at that time behind everything else. -/
structure Emitted (start : List PendingEvent) (time : UInt64) (events : List PendingEvent)
    (h : Handling) : Prop where
  recorded : h.recorded = start ++ events
  latest : events ≠ [] → h.thread.pendingTime = time ∧ events <:+ h.thread.pendingEvents

section Emitted

variable {start events : List PendingEvent} {time : UInt64} {h : Handling}

/-- From now on nothing has been recorded yet. -/
theorem Emitted.none (h : Handling) (time : UInt64) : Emitted h.recorded time [] h :=
  ⟨(List.append_nil _).symm, fun nonempty => absurd rfl nonempty⟩

/-- Only the first event recorded at another time flushes what is pending. All
others of the same time wait behind it. -/
theorem Emitted.record (emitted : Emitted start time events h) (ev : PendingEvent)
    (stack : List Location) :
    Emitted start time (events ++ [ev]) (h.record time ev stack) := by
  constructor
  · rw [record_recorded, emitted.recorded, List.append_assoc]
  · intro _
    refine ⟨rfl, ?_⟩
    simp only [Handling.record, addEvent, setStack]
    split
    · next late =>
      have first : events = [] := by
        by_contra nonempty
        exact late.1 (emitted.latest nonempty).1.symm
      rw [first]
      exact List.suffix_append _ _
    · by_cases first : events = []
      · rw [first]
        exact List.suffix_append _ _
      · obtain ⟨front, whole⟩ := (emitted.latest first).2
        exact ⟨front, by rw [← List.append_assoc, whole]⟩

/-- Leaving a frame that is there. -/
theorem Emitted.ret (emitted : Emitted start time events h) {below : List Location}
    {top : Location} (whole : h.stack = below ++ [top]) :
    Emitted start time (events ++ [leaveEvent top]) (h.ret time) := by
  rw [ret_eq, retEvent_top whole]
  exact emitted.record _ _

/-- Leaving the frames above some that are kept, from the top.

Induct over the frames to leave from the last one. -/
theorem Emitted.popDownTo (emitted : Emitted start time events h) {kept gone : List Location}
    (whole : h.stack = kept ++ gone) {fuel : Nat} (enough : gone.length ≤ fuel) :
    Emitted start time (events ++ gone.reverse.map leaveEvent)
      (popDownTo time kept.length fuel h) := by
  induction gone using List.reverseRecOn generalizing h events fuel with
  | nil =>
    have done : ∀ fuel, popDownTo time kept.length fuel h = h := by
      intro fuel
      cases fuel with
      | zero => rfl
      | succ fuel =>
        rw [Handling.popDownTo, if_neg]
        rw [← stack, whole, List.append_nil]
        exact Nat.lt_irrefl _
    rw [done]
    simpa using emitted
  | append_singleton below top inductionHypothesis =>
    rw [← List.append_assoc] at whole
    rw [List.length_append, List.length_singleton] at enough
    obtain ⟨fuel, rfl⟩ : ∃ less, fuel = less + 1 := ⟨fuel - 1, by omega⟩
    have more : h.thread.callstack.stack.length > kept.length := by
      rw [← stack, whole, List.length_append, List.length_append, List.length_singleton]
      omega
    have rest : (h.ret time).stack = kept ++ below := by
      rw [ret_stack, whole, List.dropLast_concat]
    rw [Handling.popDownTo, if_pos more]
    have left := inductionHypothesis (emitted.ret whole) rest (Nat.le_of_succ_le_succ enough)
    rwa [List.append_assoc, ← List.map_singleton, ← List.map_append, List.singleton_append,
      ← List.reverse_concat] at left

/-- Clearing the active stack leaves its frames from the top. Each of them ends
once. -/
theorem Emitted.clearCallstack (emitted : Emitted start time events h) :
    Emitted start time (events ++ h.stack.reverse.map leaveEvent) (h.clearCallstack time) :=
  emitted.popDownTo (List.nil_append h.stack).symm (Nat.le_refl _)

/-- Restoring and clearing the saved stacks leaves their frames, from the most
recent. -/
theorem Emitted.clearInactive (emitted : Emitted start time events h)
    (saved : List Callstack) (same : h.saved = saved) :
    Emitted start time (events ++ (saved.flatMap Callstack.stack).reverse.map leaveEvent)
      (clearInactive time saved.length h) := by
  induction saved using List.reverseRecOn generalizing h events with
  | nil =>
    rw [List.flatMap_nil, List.reverse_nil, List.map_nil, List.append_nil]
    exact emitted
  | append_singleton below last inductionHypothesis =>
    have top : h.saved.getLast? = some last := by rw [same, List.getLast?_concat]
    obtain ⟨_, rest⟩ := h.perform_restore time same
    obtain ⟨_, kept⟩ := (h.restore last).clearCallstack_stays time
    have restored : Emitted start time events (h.restore last) :=
      ⟨emitted.recorded, emitted.latest⟩
    have cleared := inductionHypothesis restored.clearCallstack (kept.trans rest)
    rw [List.length_append, List.length_singleton]
    simp only [Handling.clearInactive, top]
    have frames : (below ++ [last]).flatMap Callstack.stack =
        below.flatMap Callstack.stack ++ last.stack := by
      rw [List.flatMap_append, List.flatMap_singleton]
    rw [frames, List.reverse_append, List.map_append, ← List.append_assoc]
    exact cleared

/-- Clearing all stacks leaves every frame, from the top of the active stack.
The stack put aside last comes next, and so on outwards. -/
theorem Emitted.clearAllCallstacks (emitted : Emitted start time events h) :
    Emitted start time
      (events ++ (h.saved.flatMap Callstack.stack ++ h.stack).reverse.map leaveEvent)
      (h.clearAllCallstacks time) := by
  have kept := (h.clearCallstack_stays time).2
  have cleared := emitted.clearCallstack.clearInactive _ kept
  rw [List.append_assoc, ← List.map_append, ← List.reverse_append, ← kept] at cleared
  rw [← kept]
  exact cleared

end Emitted

/-- Finishing a thread leaves every frame, from the top of the active stack.
Nothing else is recorded then. -/
theorem finish_recorded (h : Handling) :
    h.finish.recorded =
      h.recorded ++ (h.saved.flatMap Callstack.stack ++ h.stack).reverse.map leaveEvent := by
  have flushed := Emitted.none (h.flush h.thread.lastEventTime) h.thread.lastEventTime
  have cleared := flushed.clearAllCallstacks.recorded
  rw [flush_recorded, Handling.saved, Handling.stack, flush_saved, flush_callstack,
    List.nil_append] at cleared
  rw [finish, flush_recorded]
  exact cleared

/-- Above some saved stacks: what was recorded since a start leaves open the
frames of the stacks saved since and of the active one, and ends no frame from
before. -/
structure Above (base : List Callstack) (start : List PendingEvent) (upper : List Callstack)
    (h : Handling) : Prop where
  saved : h.saved = base ++ upper
  word : ∃ since, h.recorded = start ++ since ∧ walk [] (since.flatMap PendingEvent.marks) =
    some ((upper.flatMap Callstack.stack ++ h.stack).map Location.symbol)

section Above

variable {base upper : List Callstack} {start : List PendingEvent} {h : Handling}

/-- The word of a thread is the one above no saved stack, from its first event. -/
theorem Nested.above (nested : h.Nested) : Above [] [] h.saved h :=
  ⟨rfl, h.recorded, rfl, nested⟩

/-- Above no saved stack, from the first event of a thread on, the word is that
of the whole thread. -/
theorem Above.nested (above : Above [] [] upper h) : h.Nested := by
  obtain ⟨since, whole, walked⟩ := above.word
  have same : h.saved = upper := above.saved
  rw [Nested, whole, frames, same]
  exact walked

/-- Recording an event moves the word by its marks. What is below the part in
question does not change. -/
theorem Above.record (above : Above base start upper h) (time : UInt64) (ev : PendingEvent)
    (stack : List Location)
    (moved : walk ((upper.flatMap Callstack.stack ++ h.stack).map Location.symbol) ev.marks =
      some ((upper.flatMap Callstack.stack ++ stack).map Location.symbol)) :
    Above base start upper (h.record time ev stack) := by
  obtain ⟨since, whole, walked⟩ := above.word
  constructor
  · rw [Handling.saved, record_saved]
    exact above.saved
  · refine ⟨since ++ [ev], ?_, ?_⟩
    · rw [record_recorded, whole, List.append_assoc]
    · rw [List.flatMap_append, List.flatMap_singleton, Handling.stack, record_callstack]
      exact walk_trans walked moved

/-- Entering a frame opens its symbol. -/
theorem Above.call (above : Above base start upper h) (time : UInt64) (loc : Location)
    (fromUntraced : Bool) : Above base start upper (h.call time loc fromUntraced) := by
  rw [call_eq]
  apply above.record
  simp [callEvent, PendingEvent.marks]

/-- Leaving closes the symbol on top, or a pair when there is no frame to leave.
In the second case the word moves nowhere. -/
theorem Above.ret (above : Above base start upper h) (time : UInt64) :
    Above base start upper (h.ret time) := by
  rw [ret_eq]
  apply above.record
  rcases List.eq_nil_or_concat' h.stack with empty | ⟨below, top, whole⟩
  · rw [retEvent_untraced empty, empty]
    simp only [PendingEvent.marks, List.dropLast_nil, walk_opening, walk_closing_top, walk_nil]
  · rw [retEvent_top whole]
    simp [leaveEvent, PendingEvent.marks, whole, ← List.append_assoc]

/-- Saving a stack moves its frames, in place, to the saved ones. Nothing is
recorded for it. -/
theorem Above.save (above : Above base start upper h) (time : UInt64) :
    Above base start (upper ++ [h.thread.callstack]) (h.save time) := by
  obtain ⟨since, whole, walked⟩ := above.word
  constructor
  · change h.saved ++ [h.thread.callstack] = _
    rw [above.saved, List.append_assoc]
  · have empty : (h.save time).stack = [] := rfl
    refine ⟨since, whole, walked.trans ?_⟩
    rw [empty, List.flatMap_append, List.flatMap_singleton, List.append_nil]

/-- Over an empty stack, restoring moves the frames back. An operation that
permits it finds the stack empty. -/
theorem Above.restore {rest : List Callstack} {last : Callstack}
    (above : Above base start (rest ++ [last]) h) (empty : h.stack = []) :
    h.saved.getLast? = some last ∧ Above base start rest (h.restore last) := by
  obtain ⟨since, whole, walked⟩ := above.word
  have split : h.saved = (base ++ rest) ++ [last] := by rw [above.saved, List.append_assoc]
  obtain ⟨_, below⟩ := h.perform_restore 0 split
  refine ⟨by rw [split, List.getLast?_concat], below, since, whole, walked.trans ?_⟩
  simp [empty, Handling.restore]

end Above

/-- Every permitted operation keeps the word and the frames together. Calls
open, returns close, and the other operations only move frames. -/
theorem perform_nested (time : UInt64) (h : Handling) (operation : Operation) (nested : h.Nested)
    (permits : h.Permits operation) : (h.perform time operation).Nested := by
  have above := nested.above
  cases operation with
  | call loc => exact (above.call time loc false).nested
  | infer loc => exact (above.call h.thread.callstack.createTime loc true).nested
  | enter loc => exact ((above.save time).call time loc false).nested
  | ret => exact (above.ret time).nested
  | restore =>
    obtain ⟨empty, nonempty⟩ := permits
    rcases List.eq_nil_or_concat' h.saved with unsaved | ⟨below, last, whole⟩
    · exact absurd unsaved nonempty
    · rw [whole] at above
      obtain ⟨top, restored⟩ := above.restore empty
      simp only [perform, top]
      exact restored.nested
  | redate => exact nested
  | flush =>
    have frames : (h.flush time).frames = h.frames := by
      simp only [Handling.frames, Handling.saved, Handling.stack, flush_saved, flush_callstack]
    simp only [perform]
    rw [Nested, flush_recorded, frames]
    exact nested

/-- The work of every event keeps the frames those that the recorded events
leave open. -/
theorem handle_nested {h : Handling} (nested : h.Nested) (time : UInt64) (work : Work) :
    (h.handle time work).Nested := by
  obtain ⟨followed, permitted⟩ := h.handle_follow time work
  rw [followed]
  exact follow_keeps (perform_nested time) nested permitted

/-- Whatever a thread lives through, its recorded events leave its frames open.
Induct over the history; each event is one script. -/
theorem live_nested {h : Handling} (nested : h.Nested) (history : List (UInt64 × Work)) :
    (h.live history).Nested := by
  induction history generalizing h with
  | nil => exact nested
  | cons input rest inductionHypothesis =>
    exact inductionHypothesis (handle_nested (h := h.arrive input.1) nested input.1 input.2)

/-- Finishing a thread keeps this too. -/
theorem finish_nested {h : Handling} (nested : h.Nested) : h.finish.Nested := by
  obtain ⟨followed, permitted⟩ := h.finish_follow
  rw [followed]
  exact follow_keeps (perform_nested _) nested permitted

/-- Restoring and clearing every saved stack leaves none. The fuel is their
number, of which each turn takes one. -/
theorem clearInactive_empty (time : UInt64) (saved : List Callstack) (h : Handling)
    (same : h.saved = saved) (empty : h.stack = []) :
    (clearInactive time saved.length h).stack = [] ∧
      (clearInactive time saved.length h).saved = [] := by
  induction saved using List.reverseRecOn generalizing h with
  | nil => exact ⟨empty, same⟩
  | append_singleton below last inductionHypothesis =>
    have top : h.saved.getLast? = some last := by rw [same, List.getLast?_concat]
    obtain ⟨_, rest⟩ := h.perform_restore time same
    obtain ⟨callstack, kept⟩ := (h.restore last).clearCallstack_stays time
    rw [List.length_append, List.length_singleton]
    simp only [clearInactive, top]
    exact inductionHypothesis ((h.restore last).clearCallstack time) (kept.trans rest)
      (by rw [stack, callstack])

/-- Clearing all stacks leaves no frame and no stack put aside. -/
theorem clearAllCallstacks_empty (h : Handling) (time : UInt64) :
    (h.clearAllCallstacks time).stack = [] ∧ (h.clearAllCallstacks time).saved = [] := by
  obtain ⟨callstack, _⟩ := h.clearCallstack_stays time
  exact clearInactive_empty time _ (h.clearCallstack time) rfl (by rw [stack, callstack])

/-- Nothing is left of a thread that is finished. A second end finds nothing to
do for this reason. -/
theorem finish_empty (h : Handling) :
    h.finish.stack = [] ∧ h.finish.saved = [] ∧ h.finish.thread.pendingEvents = [] := by
  obtain ⟨stack, saved⟩ :=
    (h.flush h.thread.lastEventTime).clearAllCallstacks_empty h.thread.lastEventTime
  refine ⟨?_, ?_, flush_pending _ _⟩
  · rw [finish, Handling.stack, flush_callstack]
    exact stack
  · rw [finish, Handling.saved, flush_saved]
    exact saved

/-- Finishing a thread of which nothing is left writes nothing. Its time may be
any. -/
theorem finish_again {h : Handling} (stack : h.stack = []) (saved : h.saved = [])
    (pending : h.thread.pendingEvents = []) : h.finish.writes = h.writes := by
  have still : ∀ time, h.flush time = h := fun time => if_pos pending
  have cleared : ∀ time, h.clearAllCallstacks time = h := by
    intro time
    have planned : h.clearScript = [] := by rw [clearScript, stack, saved]; rfl
    rw [(h.clearAllCallstacks_follow time).1, planned]
    rfl
  rw [finish, still, cleared, still]

/-- What a thread writes through to its end is a complete bracket word. Every
begin has its end, in the right order. -/
theorem finish_complete (key : ThreadKey) (history : List (UInt64 × Work)) :
    walk [] (((⟨key, {}, []⟩ : Handling).live history).finish.writes.flatMap
      (fun w => w.event.marks)) = some [] := by
  have start : (⟨key, {}, []⟩ : Handling).Nested := rfl
  have nested := finish_nested (live_nested start history)
  obtain ⟨stack, saved, pending⟩ := ((⟨key, {}, []⟩ : Handling).live history).finish_empty
  rw [Nested, recorded, frames, stack, saved, pending, List.append_nil, List.flatMap_map] at nested
  exact nested

end Handling

namespace Tracker

/-- What is recorded for a thread while a tracker processes some events: what
was pending or is handed over meanwhile, then what is pending afterwards. -/
def recordedFor (t : Tracker) (key : ThreadKey) (events : List Event) : List PendingEvent :=
  ((t.processAll events).2.filter (fun w => w.thread = key)).map Write.event ++
    ((t.processAll events).1.getThread key).pendingEvents

/-- What is recorded for a thread among others is what it records when it lives
on its own. -/
theorem recordedFor_live (t : Tracker) (key : ThreadKey) (events : List Event) :
    t.recordedFor key events = ((⟨key, t.getThread key, []⟩ : Handling).live
      (history (t.base events) key events)).recorded := by
  obtain ⟨state, writes⟩ := t.processAll_own events key
  rw [recordedFor, state, writes]
  rfl

/-- Processing events in two parts. The second part starts from the state the
first has led to. -/
theorem processAll_append (t : Tracker) (events more : List Event) :
    t.processAll (events ++ more) = (((t.processAll events).1.processAll more).1,
      (t.processAll events).2 ++ ((t.processAll events).1.processAll more).2) := by
  induction events generalizing t with
  | nil => rfl
  | cons event rest inductionHypothesis =>
    simp only [List.cons_append, processAll, inductionHypothesis, List.append_assoc]

/-- What later events add to the pending ones, they add to everything recorded.
The events that are pending are recorded already, but not written. -/
theorem recordedFor_append (t : Tracker) (key : ThreadKey) (events : List Event)
    {more : List Event} {news : List PendingEvent}
    (added : (t.processAll events).1.recordedFor key more =
      ((t.processAll events).1.getThread key).pendingEvents ++ news) :
    t.recordedFor key (events ++ more) = t.recordedFor key events ++ news := by
  have split : t.recordedFor key (events ++ more) =
      ((t.processAll events).2.filter (fun w => w.thread = key)).map Write.event ++
        (t.processAll events).1.recordedFor key more := by
    simp only [recordedFor, processAll_append, List.filter_append, List.map_append,
      List.append_assoc]
  rw [split, added, recordedFor, List.append_assoc]

/-- A thread that has been finished writes nothing when it is finished again.
Its state keeps only times. -/
theorem conclude_again (key : ThreadKey) (ti : ThreadInfo) :
    (conclude key (conclude key ti ()).1 ()).2 = [] := by
  obtain ⟨stack, saved, pending⟩ := (⟨key, ti, []⟩ : Handling).finish_empty
  dsimp only [conclude, Handling.stack, Handling.saved] at stack saved ⊢
  generalize (⟨key, ti, []⟩ : Handling).finish.thread = finished at stack saved pending
  exact Handling.finish_again (h := ⟨key, finished, []⟩) stack saved pending

end Tracker

/-- A duration event of the trace as a mark: type 2 begins and every other type
ends. -/
def Outline.mark (o : Outline) : Mark UInt16 :=
  if o.eventType = 2 then .opening o.nameRef else .closing o.nameRef

namespace StackReconstructor

/-- The outline of a stamp has its mark, with the id for the symbol. Symbols
with one id give marks with one name. -/
theorem outline_mark (s : StackReconstructor) (key : ThreadKey) (stamp : Stamp) :
    (s.outline key stamp).mark = stamp.mark.map s.nameId := by
  unfold Outline.mark Stamp.mark outline
  dsimp only
  split <;> rfl

/-- The duration events of a thread in the trace are the marks handed over, with
the ids of their symbols. -/
theorem outlines_marks (before : List WriterCall) (order : HashOrder) (events : List Event)
    (key : ThreadKey) :
    ((outlines before order events).filter (fun o => o.thread = some key.widen)).map
        Outline.mark =
      ((stampsFor key (({} : Tracker).handed order events)).map Stamp.mark).map
        (Mark.map (reconstruct before order events).nameId) := by
  have renamed : Outline.mark ∘ (reconstruct before order events).outline key =
      Mark.map (reconstruct before order events).nameId ∘ Stamp.mark :=
    funext (outline_mark (reconstruct before order events) key)
  rw [outlines_thread, List.map_map, renamed, List.map_map]

/-- The events handed over for a thread are a complete bracket word. The end in
`finish` closes what is still open. -/
theorem stampsFor_complete (order : HashOrder) (events : List Event) (key : ThreadKey) :
    walk [] ((stampsFor key (({} : Tracker).handed order events)).map Stamp.mark) = some [] := by
  have word := Handling.finish_complete key (Tracker.history (({} : Tracker).base events) key events)
  rw [stampsFor, Tracker.handed_own, List.map_flatMap]
  simp only [Write.stamps_mark]
  exact word

/-- A tracker that has been finished hands over nothing more. The second order
may be another one. -/
theorem finish_twice (t : Tracker) (order order' : HashOrder) :
    ((t.finish order).1.finish order').2 = [] := by
  apply List.eq_nil_iff_forall_not_mem.mpr
  intro w member
  have nothing : ((t.finish order).1.finish order').2.filter (fun v => v.thread = w.thread) = [] := by
    rw [((t.finish order).1.finish_own order' w.thread).2, (t.finish_own order w.thread).1,
      Tracker.conclude_again]
  have found : w ∈ ((t.finish order).1.finish order').2.filter (fun v => v.thread = w.thread) :=
    List.mem_filter.mpr ⟨member, decide_eq_true rfl⟩
  rw [nothing] at found
  cases found

/-- The duration events of each thread are well nested in the output: no prefix
has more ends than begins, each end has the name reference of the most recent
begin that is unmatched, and nothing is left open; finishing again writes
nothing. -/
theorem output_well_nested (before : List WriterCall) (order order' : HashOrder)
    (events : List Event) (pid tid : UInt32) :
    WellNested (((outlines before order events).filter
        (fun o => o.thread = some ⟨pid.toUInt64, tid.toUInt64⟩)).map Outline.mark) ∧
      ((reconstruct before order events).finish order').writer =
        (reconstruct before order events).writer := by
  constructor
  · have word := walk_map (reconstruct before order events).nameId
      (stampsFor_complete order events ⟨pid, tid⟩)
    rw [← outlines_marks] at word
    exact wellNested_of_walk word
  · have tracked : (reconstruct before order events).tracker =
        (((create (FxtWriter.afterCalls before)).tracker.processAll events).1.finish order).1 := by
      rw [reconstruct, finish_eq]
    have silent : ((reconstruct before order events).tracker.finish order').2 = [] := by
      rw [tracked]
      exact finish_twice _ order order'
    rw [finish, follow, silent]
    rfl

end StackReconstructor

end Tracey
