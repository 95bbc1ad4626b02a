import Tracey.Nesting
import Tracey.StackDiff

/-!
# Stack samples

A sample replaces the active stack by the sampled one. The events it records are
the difference of the two: the frames that the stacks do not share end, from the
top, and the sampled ones begin. Over samples of one thread a frame therefore
lives on from one sample to the next exactly as long as everything below it
does.
-/

namespace Tracey

open BracketWord

/-- What is recorded when the frames above some shared ones are replaced by
sampled ones. -/
def replaced (shared : Nat) (current sample : List Location) : List PendingEvent :=
  (current.drop shared).reverse.map Handling.leaveEvent ++
    (sample.drop shared).map (Handling.callEvent · false)

namespace Handling

/-- The count of the source is the longest common prefix of the symbols.
Addresses in a function may differ from sample to sample. -/
theorem matchCount_agreement (current sample : List Location) :
    matchCount current sample =
      agreement (current.map Location.symbol) (sample.map Location.symbol) := by
  induction current generalizing sample with
  | nil => rfl
  | cons first rest inductionHypothesis =>
    cases sample with
    | nil => rfl
    | cons other others =>
      rw [matchCount, List.map_cons, List.map_cons, agreement, inductionHypothesis]

/-- Stack and sample agree on no more frames than either of them has. -/
theorem matchCount_le (current sample : List Location) :
    matchCount current sample ≤ current.length ∧ matchCount current sample ≤ sample.length := by
  rw [matchCount_agreement]
  simpa using agreement_le (current.map Location.symbol) (sample.map Location.symbol)

/-- The count is the greatest number of outermost frames with the same symbols.
Frames further in are not compared, even if they are the same again. -/
theorem matchCount_greatest (current sample : List Location) :
    IsGreatest {count | count ≤ current.length ∧ count ≤ sample.length ∧
      (current.take count).map Location.symbol = (sample.take count).map Location.symbol}
      (matchCount current sample) := by
  have agrees : ∀ count, count ≤ current.length → count ≤ sample.length →
      ((current.take count).map Location.symbol = (sample.take count).map Location.symbol ↔
        count ≤ matchCount current sample) := by
    intro count left right
    rw [List.map_take, List.map_take, matchCount_agreement]
    apply take_eq_take_iff
    · rwa [List.length_map]
    · rwa [List.length_map]
  obtain ⟨left, right⟩ := matchCount_le current sample
  constructor
  · exact ⟨left, right, (agrees _ left right).mpr (Nat.le_refl _)⟩
  · rintro count ⟨left, right, same⟩
    exact (agrees count left right).mp same

/-- What a sample records is the difference of the symbols. The frames that are
shared leave no mark. -/
theorem replaced_marks (current sample : List Location) :
    (replaced (matchCount current sample) current sample).flatMap PendingEvent.marks =
      difference (current.map Location.symbol) (sample.map Location.symbol) := by
  have left : ∀ frames : List Location,
      (frames.map leaveEvent).flatMap PendingEvent.marks =
        (frames.map Location.symbol).map Mark.closing := by
    intro frames
    rw [List.flatMap_map, List.map_map]
    exact List.flatMap_pure_eq_map _ _
  have entered : ∀ frames : List Location,
      (frames.map (callEvent · false)).flatMap PendingEvent.marks =
        (frames.map Location.symbol).map Mark.opening := by
    intro frames
    rw [List.flatMap_map, List.map_map]
    exact List.flatMap_pure_eq_map _ _
  rw [replaced, List.flatMap_append, left, entered, difference, ← matchCount_agreement,
    List.map_reverse, List.map_drop, List.map_drop]

/-- Entering frames one after the other. None of them is inferred. -/
theorem Emitted.calls {start events : List PendingEvent} {time : UInt64} {h : Handling}
    (emitted : Emitted start time events h) (locs : List Location) :
    Emitted start time (events ++ locs.map (callEvent · false))
        (locs.foldl (fun h loc => h.call time loc) h) ∧
      (locs.foldl (fun h loc => h.call time loc) h).stack = h.stack ++ locs ∧
      (locs.foldl (fun h loc => h.call time loc) h).saved = h.saved := by
  induction locs generalizing h events with
  | nil =>
    rw [List.map_nil, List.append_nil, List.append_nil]
    exact ⟨emitted, rfl, rfl⟩
  | cons loc rest inductionHypothesis =>
    have called : Emitted start time (events ++ [callEvent loc false]) (h.call time loc) := by
      rw [call_eq]
      exact emitted.record _ _
    obtain ⟨others, stack, saved⟩ := inductionHypothesis called
    rw [List.append_assoc] at others
    refine ⟨others, ?_, ?_⟩
    · rw [List.foldl_cons, stack, Handling.stack, call_callstack, List.append_assoc]
      rfl
    · rw [List.foldl_cons, saved, Handling.saved, call_saved]

/-- A sample keeps the shared frames, replaces the others and records that. All
of this has the time of the sample. -/
theorem processStacktrace_emits (h : Handling) (time : UInt64) (st : StacktraceSampleData) :
    let shared := matchCount h.stack st.callstack
    Emitted h.recorded time (replaced shared h.stack st.callstack)
        (h.processStacktrace time st) ∧
      (h.processStacktrace time st).stack =
        h.stack.take shared ++ st.callstack.drop shared ∧
      (h.processStacktrace time st).saved = h.saved := by
  intro shared
  have bound := (matchCount_le h.stack st.callstack).1
  have kept : (h.stack.take shared).length = shared := by
    rw [List.length_take, Nat.min_eq_left bound]
  have enough : (h.stack.drop shared).length ≤ h.stack.length := by
    rw [List.length_drop]
    omega
  have left := (Emitted.none h time).popDownTo (List.take_append_drop shared h.stack).symm enough
  rw [kept, List.nil_append] at left
  have popped := popDownTo_follow time shared h.stack.length h (Nat.sub_le _ _)
  obtain ⟨callstack, saved⟩ := h.follow_pops time (h.stack.length - shared)
  rw [← popped] at callstack saved
  have stack : (popDownTo time shared h.stack.length h).stack = h.stack.take shared := by
    rw [Handling.stack, callstack]
    dsimp only
    congr 1
    omega
  obtain ⟨emitted, whole, same⟩ := left.calls (st.callstack.drop shared)
  rw [stack] at whole
  exact ⟨emitted, whole, same.trans saved⟩

end Handling

/-- What a sample at some time makes of a thread, and what is recorded on the
way. -/
structure Reconciled (time : UInt64) (sample : List Location) (before after : ThreadInfo)
    (recorded : List PendingEvent) (shared : Nat) : Prop where
  /-- Stack and sample share the frames of their longest common prefix of symbols. -/
  longest : IsGreatest {count | count ≤ before.callstack.stack.length ∧ count ≤ sample.length ∧
    (before.callstack.stack.take count).map Location.symbol =
      (sample.take count).map Location.symbol} shared
  stack : after.callstack.stack.map Location.symbol = sample.map Location.symbol
  saved : after.inactiveCallstacks = before.inactiveCallstacks
  kept : after.callstack.stack.take shared = before.callstack.stack.take shared
  /-- The frames that are not shared end, from the top, and those of the sample begin. -/
  recorded : recorded =
    before.pendingEvents ++ replaced shared before.callstack.stack sample
  dated : replaced shared before.callstack.stack sample ≠ [] → after.pendingTime = time ∧
    replaced shared before.callstack.stack sample <:+ after.pendingEvents
  /-- No fewer ends and begins lead from the one stack to the other. -/
  minimal : IsLeast {length | ∃ marks, walk (before.callstack.stack.map Location.symbol) marks =
      some (sample.map Location.symbol) ∧ marks.length = length}
    (replaced shared before.callstack.stack sample).length

/-- Handling a sample leaves the thread with the sampled stack, over the fewest
ends and begins, all of which are recorded behind what waits. -/
theorem Handling.processStacktrace_reconciled (h : Handling) (time : UInt64)
    (st : StacktraceSampleData) :
    Reconciled time st.callstack h.thread (h.processStacktrace time st).thread
      (h.thread.pendingEvents ++
        replaced (matchCount h.stack st.callstack) h.stack st.callstack)
      (matchCount h.stack st.callstack) := by
  obtain ⟨emitted, stack, saved⟩ := h.processStacktrace_emits time st
  obtain ⟨left, right⟩ := matchCount_le h.stack st.callstack
  have greatest := matchCount_greatest h.stack st.callstack
  have marks := replaced_marks h.stack st.callstack
  have length : (replaced (matchCount h.stack st.callstack) h.stack st.callstack).length =
      (difference (h.stack.map Location.symbol) (st.callstack.map Location.symbol)).length := by
    rw [difference, ← matchCount_agreement, replaced, List.length_append, List.length_append]
    simp only [List.length_map, List.length_reverse, List.length_drop]
  generalize matchCount h.stack st.callstack = shared at *
  have kept : (h.stack.take shared).length = shared := by
    rw [List.length_take, Nat.min_eq_left left]
  refine ⟨greatest, ?_, saved, ?_, rfl, emitted.latest, ?_⟩
  · change List.map Location.symbol (h.processStacktrace time st).stack = _
    rw [stack, List.map_append, greatest.1.2.2, ← List.map_append, List.take_append_drop]
  · change List.take shared (h.processStacktrace time st).stack = _
    rw [stack, List.take_append_of_le_length (Nat.le_of_eq kept.symm), List.take_take,
      Nat.min_self]
  · rw [length]
    exact difference_least _ _

/-- A sample of a thread's stack as an event. -/
def sampleEvent (key : ThreadKey) (sample : UInt64 × StacktraceSampleData) : Event :=
  .ok { pid := key.pid, tid := key.tid, timeNs := sample.1, data := .stacktraceSample sample.2 }

namespace Tracker

/-- The frames of a thread that are open after some events, those of the saved
stacks first. A frame goes by the position of its begin in everything recorded
for the thread. -/
def openFrames (key : ThreadKey) (events : List Event) : List Nat :=
  unmatched 0 [] ((({} : Tracker).recordedFor key events).flatMap PendingEvent.marks)

/-- What is recorded for a thread leaves its frames open. The saved stacks count
with the active one. -/
theorem recordedFor_walk (key : ThreadKey) (events : List Event) :
    walk [] ((({} : Tracker).recordedFor key events).flatMap PendingEvent.marks) =
      some (Handling.frames ⟨key, (({} : Tracker).processAll events).1.getThread key, []⟩) := by
  have start : (⟨key, {}, []⟩ : Handling).Nested := rfl
  have nested := Handling.live_nested start
    (history (({} : Tracker).base events) key events)
  have state := (({} : Tracker).processAll_own events key).1
  rw [recordedFor_live, state]
  exact nested

/-- So does processing a sample among events of other threads. Their states do
not matter to the thread at hand. -/
theorem sample_reconciled (t : Tracker) (key : ThreadKey) (timeNs : UInt64)
    (st : StacktraceSampleData) :
    Reconciled (t.mapTime timeNs) st.callstack (t.getThread key)
      ((t.processEvent (sampleEvent key (timeNs, st))).1.getThread key)
      (t.recordedFor key [sampleEvent key (timeNs, st)])
      (Handling.matchCount (t.getThread key).callstack.stack st.callstack) := by
  have due : (sampleEvent key (timeNs, st)).timed = some (timeNs, .sample st) := rfl
  have based : t.base [sampleEvent key (timeNs, st)] = (t.setBase timeNs).baseTime :=
    base_cons_timed t due []
  have received : history (t.setBase timeNs).baseTime key [sampleEvent key (timeNs, st)] =
      [(t.mapTime timeNs, .sample st)] := history_single _ due
  have state := (t.processAll_own [sampleEvent key (timeNs, st)] key).1
  rw [based, received] at state
  rw [recordedFor_live, based, received]
  let h := (⟨key, t.getThread key, []⟩ : Handling).arrive (t.mapTime timeNs)
  have reconciled := h.processStacktrace_reconciled (t.mapTime timeNs) st
  have recorded := (h.processStacktrace_emits (t.mapTime timeNs) st).1.recorded
  have after : (t.processEvent (sampleEvent key (timeNs, st))).1.getThread key =
      (h.processStacktrace (t.mapTime timeNs) st).thread := state
  rw [after]
  exact ⟨reconciled.longest, reconciled.stack, reconciled.saved, reconciled.kept, recorded,
    reconciled.dated, reconciled.minimal⟩

/-- Over samples of one thread no stack is ever saved. Only branches save
stacks. -/
theorem samples_saved (key : ThreadKey) (samples : List (UInt64 × StacktraceSampleData)) :
    ((({} : Tracker).processAll (samples.map (sampleEvent key))).1.getThread
      key).inactiveCallstacks = [] := by
  induction samples using List.reverseRecOn with
  | nil => rfl
  | append_singleton before last inductionHypothesis =>
    have reconciled := (({} : Tracker).processAll (before.map (sampleEvent key))).1
      |>.sample_reconciled key last.1 last.2
    rw [List.map_append, processAll_append]
    exact reconciled.saved.trans inductionHypothesis

/-- A sample changes the open frames by the difference of the stack and the
sample. -/
theorem openFrames_sample (key : ThreadKey) (events : List Event)
    (sample : UInt64 × StacktraceSampleData) :
    openFrames key (events ++ [sampleEvent key sample]) = unmatched 0 [] (
      (({} : Tracker).recordedFor key events).flatMap PendingEvent.marks ++
        difference
          (((({} : Tracker).processAll events).1.getThread key).callstack.stack.map Location.symbol)
          (sample.2.callstack.map Location.symbol)) := by
  have reconciled := (({} : Tracker).processAll events).1.sample_reconciled key sample.1 sample.2
  have added := recordedFor_append {} key events reconciled.recorded
  rw [openFrames, added, List.flatMap_append, Handling.replaced_marks]

/-- After samples of one thread its stack is the last of them. The earlier ones
have left nothing on it. -/
theorem samples_stack (key : ThreadKey) (samples : List (UInt64 × StacktraceSampleData))
    (last : UInt64 × StacktraceSampleData) :
    ((({} : Tracker).processAll ((samples ++ [last]).map (sampleEvent key))).1.getThread
      key).callstack.stack.map Location.symbol = last.2.callstack.map Location.symbol := by
  rw [List.map_append, processAll_append]
  exact ((({} : Tracker).processAll (samples.map (sampleEvent key))).1.sample_reconciled key
    last.1 last.2).stack

/-- What is recorded for samples of one thread leaves the frames of the last one
open and no others. -/
theorem samples_walk (key : ThreadKey) (samples : List (UInt64 × StacktraceSampleData))
    (last : UInt64 × StacktraceSampleData) :
    walk [] ((({} : Tracker).recordedFor key
        ((samples ++ [last]).map (sampleEvent key))).flatMap PendingEvent.marks) =
      some (last.2.callstack.map Location.symbol) := by
  rw [recordedFor_walk, Handling.frames, Handling.saved, samples_saved, List.flatMap_nil,
    List.nil_append, Handling.stack, samples_stack]

/-- A sample makes the active stack of a thread the sampled one by ending and
beginning as few frames as possible, from any state of the thread.

Over samples of one thread, beginning with the first event of a trace, a frame
at some depth is open after two successive samples exactly when they agree on
all symbols up to that depth. -/
theorem samples_reconciled (key : ThreadKey) :
    (∀ (t : Tracker) (timeNs : UInt64) (st : StacktraceSampleData),
      Reconciled (t.mapTime timeNs) st.callstack (t.getThread key)
        ((t.processEvent (sampleEvent key (timeNs, st))).1.getThread key)
        (t.recordedFor key [sampleEvent key (timeNs, st)])
        (Handling.matchCount (t.getThread key).callstack.stack st.callstack)) ∧
    ∀ (samples : List (UInt64 × StacktraceSampleData))
      (first second : UInt64 × StacktraceSampleData),
      let earlier := openFrames key ((samples ++ [first]).map (sampleEvent key))
      let later := openFrames key ((samples ++ [first, second]).map (sampleEvent key))
      earlier.length = first.2.callstack.length ∧
        ∀ depth, (∃ frame, earlier[depth]? = some frame ∧ later[depth]? = some frame) ↔
          depth < first.2.callstack.length ∧ depth < second.2.callstack.length ∧
            (first.2.callstack.take (depth + 1)).map Location.symbol =
              (second.2.callstack.take (depth + 1)).map Location.symbol := by
  refine ⟨fun t timeNs st => t.sample_reconciled key timeNs st, ?_⟩
  intro samples first second earlier later
  have walked := samples_walk key samples first
  have more : (samples ++ [first, second]).map (sampleEvent key) =
      (samples ++ [first]).map (sampleEvent key) ++ [sampleEvent key second] := by
    rw [List.append_cons, List.map_append]
    rfl
  have grown : later = unmatched 0 [] (
      (({} : Tracker).recordedFor key ((samples ++ [first]).map (sampleEvent key))).flatMap
          PendingEvent.marks ++
        difference (first.2.callstack.map Location.symbol)
          (second.2.callstack.map Location.symbol)) := by
    simp only [later]
    rw [more, openFrames_sample, samples_stack]
  constructor
  · rw [← List.length_map Location.symbol]
    exact length_unmatched walked 0 (Eq.refl ([] : List Nat).length)
  · intro depth
    rw [grown]
    apply (same_unmatched_iff walked depth).trans
    rw [lt_agreement_iff, List.length_map, List.length_map, List.map_take, List.map_take]

/-- Two functions are sampled in the same caller: the caller's frame lives on. -/
example :
    let sampled (timeNs : UInt64) (callee : String) : UInt64 × StacktraceSampleData :=
      (timeNs, { callstack := [{ symbol := text "main" }, { symbol := text callee }] })
    openFrames ⟨1, 1⟩ ([sampled 5 "f"].map (sampleEvent ⟨1, 1⟩)) = [0, 1] ∧
      openFrames ⟨1, 1⟩ ([sampled 5 "f", sampled 8 "g"].map (sampleEvent ⟨1, 1⟩)) = [0, 3] := by
  decide

end Tracker

end Tracey
