import Tracey.Timing

/-!
# When timestamps never decrease

Three things can make a timestamp go back on a thread: a frame inferred at the
time its stack was created, a return from a frame that was never entered, which
begins at that time, and such a return waiting in a batch behind calls, whose
begin stays where it is while the batch is spread over time. A run in which
every operation avoids them writes timestamps that never decrease.

`InOrder` states this about an operation and the state it is carried out in. An
operation that records something may not begin before the pending time, nor, if
calls are flushed first, before the time they are flushed to; and a flush may
not spread calls before an untraced return.
-/

namespace Tracey

namespace PendingEvent

/-- The first timestamp of an event that is placed at this time. It is the time
itself unless the event is an untraced return, which begins earlier. -/
def start (ev : PendingEvent) (time : UInt64) : UInt64 :=
  if ev.kind = .retFromUntraced then ev.resetTime else time

end PendingEvent

namespace Handling

/-- Flushing to this time leaves every untraced return that waits behind a call
where it is: there are at most as many nanoseconds to spread as calls behind the
return. -/
def Spreads (h : Handling) (toTime : UInt64) : Prop :=
  ∀ front ev back, h.thread.pendingEvents = front ++ ev :: back → ev.kind = .retFromUntraced →
    (∃ other ∈ front, other.kind = .call) → (h.totalNs toTime).toNat ≤ back.countP isCall

/-- An event that is recorded at a time and begins at a start follows what is
pending. -/
def Follows (h : Handling) (time start : UInt64) : Prop :=
  h.thread.pendingTime ≤ start ∧
    (time ≠ h.thread.pendingTime → h.Spreads time ∧
      ((∃ ev ∈ h.thread.pendingEvents, ev.kind = .call) → time ≤ start))

/-- An operation does not write a timestamp that goes back. It is a condition on
the state before it, and on the time. -/
def InOrder (time : UInt64) (h : Handling) : Operation → Prop
  | .call _ => h.Follows time time
  | .enter _ => h.Follows time time
  | .infer _ => h.Follows h.thread.callstack.createTime h.thread.callstack.createTime
  | .ret => h.Follows time (if h.stack = [] then h.thread.callstack.createTime else time)
  | .restore => True
  | .redate => True
  | .flush => h.Spreads time

/-- Every operation of a script is in order. Each one is looked at in the state
that those before it have led to. -/
def ScriptInOrder (time : UInt64) : Handling → List Operation → Prop
  | _, [] => True
  | h, operation :: rest =>
    h.InOrder time operation ∧ ScriptInOrder time (h.perform time operation) rest

/-- Every operation of a thread's life is in order, and so is the flush that
finishes it. -/
def LifeInOrder : Handling → List (UInt64 × Work) → Prop
  | h, [] => h.Spreads h.thread.lastEventTime
  | h, (time, work) :: rest =>
    ScriptInOrder time (h.arrive time) ((h.arrive time).script time work) ∧
      LifeInOrder ((h.arrive time).handle time work) rest

/-- Whether a flush spreads in order can be decided event by event. Only returns
from untraced code can go back. -/
theorem spreads_iff (h : Handling) (toTime : UInt64) :
    h.Spreads toTime ↔ ∀ position : Fin h.thread.pendingEvents.length,
      (h.thread.pendingEvents.get position).kind = .retFromUntraced →
        (∃ other ∈ h.thread.pendingEvents.take position, other.kind = .call) →
          (h.totalNs toTime).toNat ≤
            (h.thread.pendingEvents.drop (position + 1)).countP isCall := by
  constructor
  · intro spreads position
    apply spreads
    rw [List.get_eq_getElem, List.getElem_cons_drop, List.take_append_drop]
  · intro each front ev back whole untraced behind
    have bound : front.length < h.thread.pendingEvents.length := by
      rw [whole, List.length_append, List.length_cons]
      omega
    have here := each ⟨front.length, bound⟩
    simp only [whole, List.get_eq_getElem, List.getElem_append_right (Nat.le_refl _), Nat.sub_self,
      List.getElem_cons_zero, List.take_left', List.drop_append, List.drop_eq_nil_of_le,
      Nat.le_add_right, Nat.add_sub_cancel_left, List.drop_succ_cons, List.drop_zero,
      List.nil_append] at here
    exact here untraced behind

/-- Whether a flush spreads in order can be computed, since the pending events
are finitely many. -/
instance (h : Handling) (toTime : UInt64) : Decidable (h.Spreads toTime) :=
  decidable_of_iff _ (h.spreads_iff toTime).symm

/-- Whether an event follows what is pending can be computed. -/
instance (h : Handling) (time start : UInt64) : Decidable (h.Follows time start) :=
  inferInstanceAs (Decidable (_ ∧ _))

/-- Whether an operation is in order can be computed. -/
instance (time : UInt64) (h : Handling) : (operation : Operation) →
    Decidable (h.InOrder time operation)
  | .call _ | .enter _ | .infer _ | .ret => inferInstanceAs (Decidable (h.Follows _ _))
  | .restore | .redate => inferInstanceAs (Decidable True)
  | .flush => inferInstanceAs (Decidable (h.Spreads time))

/-- Whether a script is in order can be computed, operation by operation in the
state that each of them finds. -/
instance scriptInOrderDecidable (time : UInt64) : (h : Handling) → (operations : List Operation) →
    Decidable (h.ScriptInOrder time operations)
  | _, [] => inferInstanceAs (Decidable True)
  | h, operation :: rest =>
    have := scriptInOrderDecidable time (h.perform time operation) rest
    inferInstanceAs (Decidable (h.InOrder time operation ∧ _))

/-- Whether a life is in order can be computed, event by event. The flush in the
end counts as well. -/
instance lifeInOrderDecidable : (h : Handling) → (history : List (UInt64 × Work)) →
    Decidable (h.LifeInOrder history)
  | h, [] => inferInstanceAs (Decidable (h.Spreads _))
  | h, (time, work) :: rest =>
    have := lifeInOrderDecidable ((h.arrive time).handle time work) rest
    inferInstanceAs (Decidable (ScriptInOrder time _ _ ∧ _))

/-- What is written never goes back, what is pending will not go back behind it,
and no pending untraced return goes back behind another pending event. -/
structure Ordered (h : Handling) : Prop where
  sorted : h.stamps.Pairwise (fun first second => first.timestamp ≤ second.timestamp)
  first : ∀ stamp ∈ h.stamps, ∀ ev ∈ h.thread.pendingEvents.head?,
    stamp.timestamp ≤ ev.start h.thread.pendingTime
  later : h.thread.pendingEvents.Pairwise (fun _ ev =>
    ev.kind = .retFromUntraced → h.thread.pendingTime ≤ ev.resetTime)
  idle : h.thread.pendingEvents = [] → ∀ stamp ∈ h.stamps, stamp.timestamp ≤ h.thread.pendingTime

/-- A thread that has not begun is in order. -/
theorem ordered_fresh (key : ThreadKey) : Ordered ⟨key, {}, []⟩ where
  sorted := List.Pairwise.nil
  first := by
    intro stamp member
    cases member
  later := List.Pairwise.nil
  idle := by
    intro _ stamp member
    cases member

/-- Under the condition on a flush, untraced returns are written at the pending
time. -/
theorem Flushed.untraced {h : Handling} {toTime : UInt64} {news : List Write}
    (flushed : Flushed h toTime news) (spreads : h.Spreads toTime) {w : Write} (member : w ∈ news)
    (untraced : w.event.kind = .retFromUntraced) : w.time = h.thread.pendingTime := by
  obtain ⟨front, back, whole, unused, few⟩ := flushed.still w member
  by_cases behind : ∃ other ∈ front, other.kind = .call
  · exact few (spreads front w.event back whole untraced behind)
  · apply unused
    intro ev inside
    exact decide_eq_false (fun call => behind ⟨ev, inside, call⟩)

/-- Without calls everything is written at the pending time. There is nothing
that could take time. -/
theorem Flushed.unspread {h : Handling} {toTime : UInt64} {news : List Write}
    (flushed : Flushed h toTime news) (callless : ¬ ∃ ev ∈ h.thread.pendingEvents, ev.kind = .call)
    {w : Write} (member : w ∈ news) : w.time = h.thread.pendingTime := by
  obtain ⟨front, back, whole, unused, _⟩ := flushed.still w member
  apply unused
  intro ev inside
  refine decide_eq_false (fun call => callless ⟨ev, ?_, call⟩)
  rw [whole]
  exact List.mem_append_left _ inside

/-- Behind the first of a batch, an event's timestamps are not before the
write's time. -/
theorem Flushed.time_le {h : Handling} {toTime : UInt64} {news : List Write}
    (flushed : Flushed h toTime news) (spreads : h.Spreads toTime) {w : Write} (member : w ∈ news)
    (behind : w.event.kind = .retFromUntraced → h.thread.pendingTime ≤ w.event.resetTime)
    {stamp : Stamp} (inside : stamp ∈ w.stamps) : w.time ≤ stamp.timestamp := by
  rcases stamp_time inside with same | ⟨untraced, _, reset⟩
  · rw [same]
    exact UInt64.le_refl _
  · rw [reset, flushed.untraced spreads member untraced]
    exact behind untraced

/-- An event that is pending starts no later than the pending time. An untraced
one starts when its stack was made. -/
theorem Timely.start_le {h : Handling} (timely : Timely h) {ev : PendingEvent}
    (member : ev ∈ h.thread.pendingEvents) :
    ev.start h.thread.pendingTime ≤ h.thread.pendingTime := by
  unfold PendingEvent.start
  split
  · next untraced => exact timely.reset ev member untraced
  · exact UInt64.le_refl _

/-- What is written before a flush is not beyond the pending time. A flush
therefore goes on where the last one stopped. -/
theorem Ordered.written_le {h : Handling} (ordered : Ordered h) (timely : Timely h) :
    ∀ stamp ∈ h.stamps, stamp.timestamp ≤ h.thread.pendingTime := by
  intro stamp member
  cases pending : h.thread.pendingEvents with
  | nil => exact ordered.idle pending stamp member
  | cons ev rest =>
    have starts := ordered.first stamp member ev (by rw [pending]; rfl)
    exact UInt64.le_trans starts (timely.start_le (by rw [pending]; exact List.mem_cons_self))

/-- Untraced returns that a flush of an ordered thread writes behind other
events begin no earlier than the pending time. -/
theorem Flushed.behind {h : Handling} {toTime : UInt64} {news : List Write}
    (flushed : Flushed h toTime news) (ordered : Ordered h) :
    news.Pairwise (fun _ w =>
      w.event.kind = .retFromUntraced → h.thread.pendingTime ≤ w.event.resetTime) :=
  List.pairwise_map.mp (flushed.events ▸ ordered.later)

/-- The events that a flush of an ordered thread writes do not go back among
themselves. -/
theorem Flushed.stamps_sorted {h : Handling} {toTime : UInt64} {news : List Write}
    (flushed : Flushed h toTime news) (ordered : Ordered h) (timely : Timely h)
    (spreads : h.Spreads toTime) :
    (news.flatMap Write.stamps).Pairwise
      (fun first second => first.timestamp ≤ second.timestamp) := by
  rw [List.pairwise_flatMap]
  constructor
  · intro w member
    unfold Write.stamps
    split
    · exact List.pairwise_singleton _ _
    · exact List.pairwise_singleton _ _
    · next untraced =>
      refine List.pairwise_pair.mpr ?_
      exact UInt64.le_trans (timely.reset w.event (flushed.pending member) untraced)
        (flushed.lower w member)
  · refine (flushed.sorted.and (flushed.behind ordered)).imp_of_mem ?_
    rintro first second firstInside secondInside ⟨earlier, notFirst⟩ stamp mine other its
    exact UInt64.le_trans (flushed.stamp_le timely firstInside mine)
      (UInt64.le_trans earlier (flushed.time_le spreads secondInside notFirst its))

/-- Nor do they go back behind what was written before. -/
theorem Flushed.stamps_after {h : Handling} {toTime : UInt64} {news : List Write}
    (flushed : Flushed h toTime news) (ordered : Ordered h) (timely : Timely h)
    (spreads : h.Spreads toTime) :
    ∀ old ∈ h.stamps, ∀ new ∈ news.flatMap Write.stamps, old.timestamp ≤ new.timestamp := by
  intro old written new member
  obtain ⟨w, inside, mine⟩ := List.mem_flatMap.mp member
  have behind := flushed.behind ordered
  cases whole : news with
  | nil =>
    rw [whole] at inside
    cases inside
  | cons head tail =>
    have pending : h.thread.pendingEvents = head.event :: tail.map Write.event := by
      rw [← flushed.events, whole]
      rfl
    have starts := ordered.first old written head.event (by rw [pending]; rfl)
    have held : head.event ∈ h.thread.pendingEvents := by
      rw [pending]
      exact List.mem_cons_self
    have early := timely.start_le held
    have atLeast := flushed.lower w inside
    rw [whole] at inside behind
    rcases List.mem_cons.mp inside with rfl | later
    · rcases stamp_time mine with same | ⟨untraced, _, reset⟩
      · rw [same]
        exact UInt64.le_trans starts (UInt64.le_trans early atLeast)
      · rw [PendingEvent.start, if_pos untraced] at starts
        rw [reset]
        exact starts
    · have notFirst := (List.pairwise_cons.mp behind).1 w later
      have reached := flushed.time_le spreads (whole ▸ List.mem_cons_of_mem head later) notFirst
        mine
      exact UInt64.le_trans starts (UInt64.le_trans early (UInt64.le_trans atLeast reached))

/-- Flushing an ordered thread writes no timestamp that goes back, and none
beyond the pending time, or if there are calls beyond the time flushed to. -/
theorem flush_sorted {h : Handling} (ordered : Ordered h) (timely : Timely h) {toTime : UInt64}
    (spreads : h.Spreads toTime) :
    (h.flush toTime).stamps.Pairwise (fun first second => first.timestamp ≤ second.timestamp) ∧
      ∀ stamp ∈ (h.flush toTime).stamps, stamp.timestamp ≤ h.thread.pendingTime ∨
        ((∃ ev ∈ h.thread.pendingEvents, ev.kind = .call) ∧ stamp.timestamp ≤ toTime) := by
  have flushed := h.flush_flushed toTime
  generalize (h.placements toTime).map h.place = news at flushed
  have among := flushed.stamps_sorted ordered timely spreads
  have across := flushed.stamps_after ordered timely spreads
  rw [flushed.stamps]
  refine ⟨List.pairwise_append.mpr ⟨ordered.sorted, among, across⟩, ?_⟩
  intro stamp member
  rcases List.mem_append.mp member with old | new
  · exact .inl (ordered.written_le timely stamp old)
  · obtain ⟨w, inside, mine⟩ := List.mem_flatMap.mp new
    have bound := flushed.stamp_le timely inside mine
    by_cases calls : ∃ ev ∈ h.thread.pendingEvents, ev.kind = .call
    · rcases flushed.upper w inside with before | before
      · exact .inl (UInt64.le_trans bound before)
      · exact .inr ⟨calls, UInt64.le_trans bound before⟩
    · rw [flushed.unspread calls inside] at bound
      exact .inl bound

/-- An event that begins a batch behind a flush keeps the thread ordered.
Nothing else is pending then. -/
theorem Ordered.push_flushed {h : Handling} (ordered : Ordered h) (timely : Timely h)
    {time : UInt64} (ev : PendingEvent) (stack : List Location) (spreads : h.Spreads time)
    (notBefore : h.thread.pendingTime ≤ ev.start time)
    (afterCalls : (∃ ev ∈ h.thread.pendingEvents, ev.kind = .call) → time ≤ ev.start time) :
    Ordered ((h.flush time).push time ev stack) := by
  obtain ⟨sorted, bound⟩ := flush_sorted ordered timely spreads
  have alone : ((h.flush time).push time ev stack).thread.pendingEvents = [ev] := by
    change (h.flush time).thread.pendingEvents ++ [ev] = [ev]
    rw [flush_pending, List.nil_append]
  refine ⟨sorted, ?_, ?_, ?_⟩
  · rw [alone]
    intro stamp member other same
    obtain rfl : ev = other := Option.some.inj same
    rcases bound stamp member with before | ⟨calls, before⟩
    · exact UInt64.le_trans before notBefore
    · exact UInt64.le_trans before (afterCalls calls)
  · rw [alone]
    exact List.pairwise_singleton _ _
  · rw [alone]
    intro empty
    cases empty

/-- An event that joins a batch, or begins one, without a flush keeps the thread
ordered. -/
theorem Ordered.push {h : Handling} (ordered : Ordered h) {time : UInt64} (ev : PendingEvent)
    (stack : List Location) (apart : time = h.thread.pendingTime ∨ h.thread.pendingEvents = [])
    (notBefore : h.thread.pendingTime ≤ ev.start time) : Ordered (h.push time ev stack) := by
  refine ⟨ordered.sorted, ?_, ?_, ?_⟩
  · intro stamp member other same
    change other ∈ (h.thread.pendingEvents ++ [ev]).head? at same
    change stamp.timestamp ≤ other.start time
    cases pending : h.thread.pendingEvents with
    | nil =>
      rw [pending] at same
      obtain rfl : ev = other := Option.some.inj same
      exact UInt64.le_trans (ordered.idle pending stamp member) notBefore
    | cons head tail =>
      rw [pending] at same apart
      obtain rfl : head = other := Option.some.inj same
      obtain rfl : time = h.thread.pendingTime := apart.resolve_right (List.cons_ne_nil _ _)
      exact ordered.first stamp member head (by rw [pending]; rfl)
  · change (h.thread.pendingEvents ++ [ev]).Pairwise (fun _ ev =>
      ev.kind = .retFromUntraced → time ≤ ev.resetTime)
    rcases apart with rfl | empty
    · refine List.pairwise_append.mpr ⟨ordered.later, List.pairwise_singleton _ _, ?_⟩
      intro _ _ last inside untraced
      obtain rfl : last = ev := List.mem_singleton.mp inside
      rw [PendingEvent.start, if_pos untraced] at notBefore
      exact notBefore
    · rw [empty]
      exact List.pairwise_singleton _ _
  · intro empty
    exact absurd empty (List.append_ne_nil_of_right_ne_nil _ (List.cons_ne_nil ev []))

/-- Recording an event that follows what is pending keeps the thread ordered. It
may flush first, or join what is pending. -/
theorem record_ordered {h : Handling} (ordered : Ordered h) (timely : Timely h) {time : UInt64}
    (ev : PendingEvent) (stack : List Location) (follows : h.Follows time (ev.start time)) :
    Ordered (h.record time ev stack) := by
  obtain ⟨notBefore, spread⟩ := follows
  rcases h.record_push time ev stack with ⟨late, _, flushed⟩ | ⟨apart, quiet⟩
  · obtain ⟨spreads, afterCalls⟩ := spread late
    rw [flushed]
    exact ordered.push_flushed timely ev stack spreads notBefore afterCalls
  · rw [quiet]
    exact ordered.push ev stack apart notBefore

/-- A flush to the time of the last event keeps the thread ordered. -/
theorem flush_ordered {h : Handling} (ordered : Ordered h) (timely : Timely h)
    (spreads : h.Spreads h.thread.lastEventTime) : Ordered (h.flush h.thread.lastEventTime) := by
  have nothing := h.flush_pending h.thread.lastEventTime
  have bound := (flush_timely timely (UInt64.le_refl _)).written
  refine ⟨(flush_sorted ordered timely spreads).1, ?_, ?_, ?_⟩
  · rw [nothing]
    intro stamp _ ev head
    cases head
  · rw [nothing]
    exact List.Pairwise.nil
  · intro _ stamp member
    by_cases empty : h.thread.pendingEvents = []
    · have same : h.flush h.thread.lastEventTime = h := if_pos empty
      rw [same] at member ⊢
      exact ordered.idle empty stamp member
    · have moved : (h.flush h.thread.lastEventTime).thread.pendingTime =
          h.thread.lastEventTime := by rw [flush, if_neg empty]
      have before := bound stamp member
      rw [flush_lastEventTime] at before
      rw [moved]
      exact before

/-- A return begins when its frame ends, or where the stack of an untraced one
began. -/
theorem retEvent_start (callstack : Callstack) (time : UInt64) :
    (retEvent callstack).start time =
      if callstack.stack = [] then callstack.createTime else time := by
  rcases List.eq_nil_or_concat' callstack.stack with empty | ⟨below, top, whole⟩
  · rw [if_pos empty, retEvent_untraced empty]
    rfl
  · have nonempty : callstack.stack ≠ [] := by simp [whole]
    rw [if_neg nonempty, retEvent_top whole]
    rfl

/-- Only what is written and what is pending matters for the order. The stacks
may change freely. -/
theorem Ordered.of_same {h h' : Handling} (ordered : Ordered h) (writes : h'.writes = h.writes)
    (events : h'.thread.pendingEvents = h.thread.pendingEvents)
    (time : h'.thread.pendingTime = h.thread.pendingTime) : Ordered h' := by
  have stamps : h'.stamps = h.stamps := by rw [Handling.stamps, writes]; rfl
  refine ⟨?_, ?_, ?_, ?_⟩
  · rw [stamps]
    exact ordered.sorted
  · rw [stamps, events, time]
    exact ordered.first
  · rw [events, time]
    exact ordered.later
  · rw [stamps, events, time]
    exact ordered.idle

/-- Every operation that is in order keeps the thread ordered. The bounds are
needed for the times at which stacks were made. -/
theorem perform_ordered {h : Handling} (ordered : Ordered h) (timely : Timely h) {time : UInt64}
    (current : h.thread.lastEventTime = time) (operation : Operation)
    (inOrder : h.InOrder time operation) : Ordered (h.perform time operation) := by
  cases operation with
  | call loc =>
    rw [perform_call]
    exact record_ordered ordered timely _ _ inOrder
  | infer loc =>
    rw [perform_infer]
    exact record_ordered ordered timely _ _ inOrder
  | enter loc =>
    have saved : Ordered (h.save time) := ordered.of_same rfl rfl rfl
    rw [perform_enter]
    exact record_ordered saved (save_timely timely (current ▸ UInt64.le_refl _)) _ _ inOrder
  | ret =>
    rw [perform_ret]
    apply record_ordered ordered timely
    rw [retEvent_start]
    exact inOrder
  | restore =>
    simp only [perform]
    split
    · exact ordered.of_same rfl rfl rfl
    · exact ordered
  | redate => exact ordered.of_same rfl rfl rfl
  | flush =>
    obtain rfl := current
    exact flush_ordered ordered timely inOrder

/-- A script of operations that are in order keeps the thread ordered. -/
theorem follow_ordered {h : Handling} (ordered : Ordered h) (timely : Timely h) {time : UInt64}
    (current : h.thread.lastEventTime = time) {operations : List Operation}
    (inOrder : h.ScriptInOrder time operations) : Ordered (h.follow time operations) := by
  induction operations generalizing h with
  | nil => exact ordered
  | cons operation rest inductionHypothesis =>
    exact inductionHypothesis (perform_ordered ordered timely current operation inOrder.1)
      (perform_timely timely current operation)
      ((perform_lastEventTime time h operation).trans current) inOrder.2

/-- Following operations only adds writes. What has been written is never taken
back. -/
theorem follow_writes (h : Handling) (time : UInt64) (operations : List Operation) :
    ∃ news, (h.follow time operations).writes = h.writes ++ news := by
  have split := (⟨h.key, h.thread, []⟩ : Handling).follow_after h.writes time operations
  rw [fresh_after rfl] at split
  exact ⟨_, congrArg Handling.writes split⟩

/-- After the flush that finishes a thread only ends are written. All of them
bear the time of the last event. -/
theorem finish_writes (h : Handling) :
    ∃ news, h.finish.writes = (h.flush h.thread.lastEventTime).writes ++ news ∧
      ∀ w ∈ news, w.event.kind = .ret := by
  obtain ⟨news, writes⟩ := (h.flush h.thread.lastEventTime).follow_writes h.thread.lastEventTime
    (h.clearScript ++ [.flush])
  have finished : h.finish = (h.flush h.thread.lastEventTime).follow h.thread.lastEventTime
      (h.clearScript ++ [.flush]) := h.finish_follow.1
  rw [← finished] at writes
  have events := h.finish_recorded
  rw [recorded_written h.finish h.finish_empty.2.2, writes, List.map_append,
    ← h.flush_recorded h.thread.lastEventTime, recorded_written _ (h.flush_pending _)] at events
  refine ⟨news, writes, ?_⟩
  intro w member
  have inside := List.mem_map_of_mem (f := Write.event) member
  rw [List.append_cancel_left events] at inside
  obtain ⟨loc, _, left⟩ := List.mem_map.mp inside
  rw [← left]
  rfl

/-- Finishing an ordered thread with a flush that is in order writes no
timestamp that goes back: after that flush only ends are written, none earlier
than what is before. -/
theorem finish_sorted {h : Handling} (ordered : Ordered h) (timely : Timely h)
    (spreads : h.Spreads h.thread.lastEventTime) :
    h.finish.stamps.Pairwise (fun first second => first.timestamp ≤ second.timestamp) := by
  obtain ⟨news, writes, plain⟩ := h.finish_writes
  have stamps : h.finish.stamps =
      (h.flush h.thread.lastEventTime).stamps ++ news.flatMap Write.stamps := by
    rw [Handling.stamps, writes, List.flatMap_append]
    rfl
  have ends : ∀ stamp ∈ news.flatMap Write.stamps, stamp.eventType = 3 := by
    intro stamp member
    obtain ⟨w, inside, mine⟩ := List.mem_flatMap.mp member
    rw [Write.stamps, plain w inside] at mine
    rw [List.mem_singleton.mp mine]
  have bounded := (finish_timely timely).1.ends
  rw [stamps] at bounded ⊢
  obtain ⟨_, among, across⟩ := List.pairwise_append.mp bounded
  refine List.pairwise_append.mpr ⟨(flush_sorted ordered timely spreads).1, ?_, ?_⟩
  · exact among.imp_of_mem (fun _ inside before => before (ends _ inside))
  · intro first old second new
    exact across first old second new (ends second new)

/-- A life in order, in order of time, writes timestamps that never decrease.

Induct over the history. -/
theorem life_sorted {h : Handling} (ordered : Ordered h) (timely : Timely h)
    (history : List (UInt64 × Work))
    (chronological : (h.thread.lastEventTime :: history.map Prod.fst).Pairwise (· ≤ ·))
    (inOrder : h.LifeInOrder history) :
    (h.live history).finish.stamps.Pairwise
      (fun first second => first.timestamp ≤ second.timestamp) := by
  induction history generalizing h with
  | nil => exact finish_sorted ordered timely inOrder
  | cons input rest inductionHypothesis =>
    obtain ⟨script, others⟩ := inOrder
    rw [List.map_cons] at chronological
    obtain ⟨later, remaining⟩ := List.pairwise_cons.mp chronological
    have arrived := arrive_timely timely (later input.1 List.mem_cons_self)
    have arrivedOrdered : Ordered (h.arrive input.1) := ordered.of_same rfl rfl rfl
    have current : (h.arrive input.1).thread.lastEventTime = input.1 := rfl
    obtain ⟨followed, permitted⟩ := (h.arrive input.1).handle_follow input.1 input.2
    obtain ⟨kept, last⟩ := follow_timely arrived current permitted
    have keptOrdered := follow_ordered arrivedOrdered arrived current script
    rw [← followed] at kept last keptOrdered
    exact inductionHypothesis keptOrdered kept (by rw [last]; exact remaining) others

end Handling

namespace StackReconstructor

/-- For events in order of time, the timestamps of a thread never decrease if
every operation of its life is in order. -/
theorem timestamps_sorted (before : List WriterCall) (order : HashOrder) (events : List Event)
    (chronological : Chronological events) (key : ThreadKey)
    (inOrder : (⟨key, {}, []⟩ : Handling).LifeInOrder
      (Tracker.history (({} : Tracker).base events) key events)) :
    ((seenOf before order events key).map Outline.timestamp).Pairwise (· ≤ ·) := by
  have ordered : (0 :: (Tracker.history (({} : Tracker).base events) key events).map
      Prod.fst).Pairwise (· ≤ ·) := by
    refine List.pairwise_cons.mpr ⟨?_, Tracker.history_sorted chronological key⟩
    intro time _
    exact UInt64.zero_le
  have sorted := Handling.life_sorted (Handling.ordered_fresh key) (Handling.timely_fresh key)
    _ ordered inOrder
  rw [seenOf_eq, List.map_map, List.pairwise_map]
  exact sorted

/-- A trace that starts in a function, calls another one and returns from it. -/
theorem timestamps_sorted_call :
    let f : Location := { ip := 1, symbol := text "f" }
    let g : Location := { ip := 2, symbol := text "g" }
    let event (timeNs : UInt64) (data : BranchData) : Event :=
      .ok { pid := 1, tid := 1, timeNs, data := .branch data }
    let events := [event 5 { traceState := .start, dst := f },
      event 9 { kind := some .call, src := f, dst := g },
      event 12 { kind := some .return, src := g, dst := f }]
    ((seenOf [] .listed events ⟨1, 1⟩).map Outline.timestamp).Pairwise (· ≤ ·) := by
  intro f g event events
  apply timestamps_sorted
  · rw [Chronological]
    decide
  · decide

/-- A return out of the only frame that is known: the caller is inferred at the
time its stack was created, behind the end of the frame that was left. -/
theorem timestamps_sorted_not_underflow :
    let f : Location := { ip := 1, symbol := text "f" }
    let g : Location := { ip := 2, symbol := text "g" }
    let event (timeNs : UInt64) (data : BranchData) : Event :=
      .ok { pid := 1, tid := 1, timeNs, data := .branch data }
    let events := [event 5 { traceState := .start, dst := f },
      event 15 { kind := some .return, src := f, dst := g }]
    Chronological events ∧
      ¬ ((seenOf [] .listed events ⟨1, 1⟩).map Outline.timestamp).Pairwise (· ≤ ·) := by
  intro f g event events
  constructor
  · rw [Chronological]
    decide
  · have times : (seenOf [] .listed events ⟨1, 1⟩).map Outline.timestamp = [0, 10, 0, 10] := by
      rw [seenOf_eq, List.map_map]
      decide
    rw [times]
    decide

end StackReconstructor

end Tracey
