import Tracey.Isolation

/-!
# What the trace depends on

The reconstruction compares symbols and subtracts times. It never looks at an
address, an offset, the mark of a transaction or a message. So renaming all
symbols, with the two names of its own left alone, renames them in the trace and
changes nothing else; moving all times by the same distance changes nothing at
all; and events that have no time, or ask nothing of a thread, might as well not
be there.

A renaming forgets what is never looked at. Every function of the reconstructor
commutes with it, so the machine of a thread does, and the machines together.
-/

namespace Tracey

open KeyedMachine

/-- A renaming of symbols under which none of them become one. The names that
the reconstructor gives itself stay. -/
structure Renaming where
  apply : Text → Text
  injective : Function.Injective apply
  untraced : apply untracedSymbol = untracedSymbol
  unknown : apply unknownSymbol = unknownSymbol

namespace Renaming

/-- Every symbol keeps its name. This is used to compare events that differ in
what is not asked. -/
def keep : Renaming := ⟨id, Function.injective_id, rfl, rfl⟩

variable (f : Renaming)

/-- A place under its new name. Address and offset are left out, since nothing
that is written depends on them. -/
def location (loc : Location) : Location := { symbol := f.apply loc.symbol }

/-- Only a call has information about a call. A return has the default there,
which stays. -/
def event (ev : PendingEvent) : PendingEvent :=
  { ev with
    symbol := f.apply ev.symbol
    callInfo :=
      match ev.kind with
      | .call => ⟨f.location ev.callInfo.location, ev.callInfo.fromUntraced⟩
      | .ret | .retFromUntraced => ev.callInfo }

/-- A stack under new names. The time it was made stays. No address is renamed,
since none is looked at. -/
def callstack (c : Callstack) : Callstack := { c with stack := c.stack.map f.location }

/-- A thread under new names: its stacks, those put aside, and what waits. All
times stay. -/
def thread (ti : ThreadInfo) : ThreadInfo :=
  { ti with
    callstack := f.callstack ti.callstack
    inactiveCallstacks := ti.inactiveCallstacks.map f.callstack
    pendingEvents := ti.pendingEvents.map f.event }

/-- A write under its new name. Its thread and its time are those of the write. -/
def write (w : Write) : Write := { w with event := f.event w.event }

/-- A handling under new names, with what it has written. What is pending gets
new names as well. -/
def handling (h : Handling) : Handling :=
  { h with
    thread := f.thread h.thread
    writes := h.writes.map f.write }

/-- A branch under new names, without the mark of a transaction. Its kind and
its trace state stay. -/
def branch (br : BranchData) : BranchData :=
  { kind := br.kind
    traceState := br.traceState
    src := f.location br.src
    dst := f.location br.dst }

/-- Work under new names. A loss has no name. -/
def work : Work → Work
  | .branch br => .branch (f.branch br)
  | .sample st => .sample { callstack := st.callstack.map f.location }
  | .lost => .lost

end Renaming

namespace Handling

variable (f : Renaming)

/-! Recording. -/

/-- Two places have the same new name if and only if they had the same name,
since names do not become one. Comparing symbols is all that the reconstructor
does with them. -/
theorem location_symbol {loc loc' : Location} :
    (f.location loc).symbol = (f.location loc').symbol ↔ loc.symbol = loc'.symbol :=
  f.injective.eq_iff

/-- Renaming keeps the kind of an event. -/
theorem event_kind (kind : PendingKind) (ev : PendingEvent) :
    (f.event ev).kind = kind ↔ ev.kind = kind := Iff.rfl

/-- Renaming keeps the calls that share a time. The shares of time are therefore
the same. -/
theorem timeConsumers_renamed (events : List PendingEvent) :
    timeConsumers (events.map f.event) = timeConsumers events := by
  rw [timeConsumers, timeConsumers, List.countP_map]
  rfl

/-- The loop of `flush` does not look at names. Only the kind of an event
decides what it takes. -/
theorem flushLoop_renamed (key : ThreadKey) (pendingTime totalNs : UInt64) (consumers : Int)
    (nsOffset : UInt64) (sharesConsumed : Int) (events : List PendingEvent) :
    flushLoop key pendingTime totalNs consumers nsOffset sharesConsumed (events.map f.event) =
      (flushLoop key pendingTime totalNs consumers nsOffset sharesConsumed events).map f.write := by
  induction events generalizing nsOffset sharesConsumed with
  | nil => rfl
  | cons ev rest inductionHypothesis =>
    rw [List.map_cons, flushLoop, flushLoop]
    by_cases call : ev.kind = .call
    · rw [if_pos ((event_kind f .call ev).mpr call), if_pos call]
      exact congrArg (_ :: ·) (inductionHypothesis _ _)
    · rw [if_neg (mt (event_kind f .call ev).mp call), if_neg call]
      exact congrArg (_ :: ·) (inductionHypothesis _ _)

/-- A flush does not look at names. What it writes has the new names. -/
theorem flush_renamed (h : Handling) (time : UInt64) :
    f.handling (h.flush time) = (f.handling h).flush time := by
  have pending : (f.handling h).thread.pendingEvents = h.thread.pendingEvents.map f.event := rfl
  by_cases empty : h.thread.pendingEvents = []
  · have empty' : (f.handling h).thread.pendingEvents = [] := by rw [pending, empty]; rfl
    rw [flush, flush, if_pos empty, if_pos empty']
  · have nonempty : (f.handling h).thread.pendingEvents ≠ [] := by
      rw [pending]
      exact mt List.map_eq_nil_iff.mp empty
    rw [flush, flush, if_neg empty, if_neg nonempty]
    simp only [pending, flushLoop_renamed, timeConsumers_renamed]
    simp only [Renaming.handling, Renaming.thread, List.map_append, List.map_nil]
    rfl

/-- Recording an operation does not look at names. -/
theorem addEvent_renamed (h : Handling) (time : UInt64) (ev : PendingEvent) :
    f.handling (h.addEvent time ev) = (f.handling h).addEvent time (f.event ev) := by
  have pending : (f.handling h).thread.pendingEvents ≠ [] ↔ h.thread.pendingEvents ≠ [] :=
    not_congr List.map_eq_nil_iff
  have due : (f.handling h).thread.pendingTime = h.thread.pendingTime := rfl
  simp only [addEvent, pending, due]
  split
  · rw [← flush_renamed]
    simp only [Renaming.handling, Renaming.thread, List.map_append, List.map_cons, List.map_nil]
  · simp only [Renaming.handling, Renaming.thread, List.map_append, List.map_cons, List.map_nil]

/-- Nor does recording one that leaves a stack. -/
theorem record_renamed (h : Handling) (time : UInt64) (ev : PendingEvent) (stack : List Location) :
    f.handling (h.record time ev stack) =
      (f.handling h).record time (f.event ev) (stack.map f.location) := by
  rw [record, record, ← addEvent_renamed]
  rfl

/-- A call under the new name is the call renamed. What is pushed is the renamed
location. -/
theorem call_renamed (h : Handling) (time : UInt64) (loc : Location) (fromUntraced : Bool) :
    f.handling (h.call time loc fromUntraced) =
      (f.handling h).call time (f.location loc) fromUntraced := by
  rw [call_eq, call_eq, record_renamed, List.map_append]
  rfl

/-- What a return leaves is renamed; unknown code keeps its name. The names that
stand for no symbol are kept by every renaming. -/
theorem retEvent_renamed (c : Callstack) : f.event (retEvent c) = retEvent (f.callstack c) := by
  have top : (f.callstack c).stack.getLast? = c.stack.getLast?.map f.location := List.getLast?_map
  rw [retEvent, retEvent, top]
  cases c.stack.getLast? with
  | none =>
    simp only [Renaming.event, f.unknown]
    rfl
  | some top => rfl

/-- A return after renaming is the return renamed. The frame that is left is the
renamed one. -/
theorem ret_renamed (h : Handling) (time : UInt64) :
    f.handling (h.ret time) = (f.handling h).ret time := by
  have under : h.stack.dropLast.map f.location = (f.handling h).stack.dropLast := List.map_dropLast
  rw [ret_eq, ret_eq, record_renamed, retEvent_renamed, under]
  rfl

/-- Repairing the top compares its symbol, which renaming does not change the
outcome of. -/
theorem checkCurrentSymbol_renamed (h : Handling) (time : UInt64) (loc : Location) :
    f.handling (h.checkCurrentSymbol time loc) =
      (f.handling h).checkCurrentSymbol time (f.location loc) := by
  have top : (f.handling h).thread.callstack.stack.getLast? =
      h.thread.callstack.stack.getLast?.map f.location := List.getLast?_map
  rw [checkCurrentSymbol, checkCurrentSymbol, top]
  cases h.thread.callstack.stack.getLast? with
  | none => exact call_renamed f h _ loc true
  | some top =>
    simp only [Option.map_some, ne_eq, location_symbol]
    split
    · rw [← ret_renamed, ← call_renamed]
    · rfl

/-! Emptying the stacks. -/

/-- Returning down to a depth looks at the depth only. Renaming changes no
depth. -/
theorem popDownTo_renamed (time : UInt64) (count fuel : Nat) (h : Handling) :
    f.handling (popDownTo time count fuel h) = popDownTo time count fuel (f.handling h) := by
  induction fuel generalizing h with
  | zero => rfl
  | succ fuel inductionHypothesis =>
    have size : (f.handling h).thread.callstack.stack.length = h.thread.callstack.stack.length :=
      List.length_map _
    rw [popDownTo, popDownTo, size]
    split
    · rw [inductionHypothesis, ret_renamed]
    · rfl

/-- Clearing the active stack looks at its depth only. -/
theorem clearCallstack_renamed (h : Handling) (time : UInt64) :
    f.handling (h.clearCallstack time) = (f.handling h).clearCallstack time := by
  have size : (f.handling h).thread.callstack.stack.length = h.thread.callstack.stack.length :=
    List.length_map _
  rw [clearCallstack, clearCallstack, popDownTo_renamed, size]

/-- Restoring a renamed stack is restoring the stack and renaming it. -/
theorem restore_renamed (h : Handling) (saved : Callstack) :
    f.handling (h.restore saved) = (f.handling h).restore (f.callstack saved) := by
  simp only [restore, Renaming.handling, Renaming.thread, List.map_dropLast]

/-- The stack put aside last is the renamed one that was put aside last. -/
theorem saved_last (h : Handling) : (f.handling h).thread.inactiveCallstacks.getLast? =
    h.thread.inactiveCallstacks.getLast?.map f.callstack := List.getLast?_map

/-- Clearing the stacks put aside looks at no name. Their number stays the same. -/
theorem clearInactive_renamed (time : UInt64) (fuel : Nat) (h : Handling) :
    f.handling (clearInactive time fuel h) = clearInactive time fuel (f.handling h) := by
  induction fuel generalizing h with
  | zero => rfl
  | succ fuel inductionHypothesis =>
    rw [clearInactive, clearInactive, saved_last]
    cases h.thread.inactiveCallstacks.getLast? with
    | none => rfl
    | some saved =>
      simp only [Option.map_some]
      rw [inductionHypothesis, clearCallstack_renamed, restore_renamed]

/-- Nor does clearing all stacks. -/
theorem clearAllCallstacks_renamed (h : Handling) (time : UInt64) :
    f.handling (h.clearAllCallstacks time) = (f.handling h).clearAllCallstacks time := by
  have size : ∀ h : Handling, (f.handling h).thread.inactiveCallstacks.length =
      h.thread.inactiveCallstacks.length := fun _ => List.length_map _
  rw [clearAllCallstacks, clearAllCallstacks]
  rw [clearInactive_renamed, ← clearCallstack_renamed, size]

/-! Handling an event. -/

/-- Putting the active stack aside looks at no name. -/
theorem save_renamed (h : Handling) (time : UInt64) :
    f.handling (h.save time) = (f.handling h).save time := by
  simp only [save, Renaming.handling, Renaming.thread, List.map_append]
  rfl

/-- Handling a branch by its kind is handling the renamed branch. Cases on the
kind; each of them is one of the operations above. -/
theorem processKind_renamed (h : Handling) (time : UInt64) (br : BranchData) :
    f.handling (h.processKind time br) = (f.handling h).processKind time (f.branch br) := by
  have kind : (f.branch br).kind = br.kind := rfl
  have dst : (f.branch br).dst = f.location br.dst := rfl
  have src : (f.branch br).src = f.location br.src := rfl
  have last := saved_last f (h.clearCallstack time)
  rw [clearCallstack_renamed] at last
  rw [processKind, processKind, kind, dst, src]
  cases br.kind with
  | none => rfl
  | some kind =>
    cases kind with
    | call => simp only [call_renamed, checkCurrentSymbol_renamed]
    | «return» => simp only [checkCurrentSymbol_renamed, ret_renamed]
    | syscall | hardwareInterrupt => simp only [call_renamed, save_renamed]
    | iret | sysret =>
      cases found : (h.clearCallstack time).thread.inactiveCallstacks.getLast? with
      | none =>
        rw [found, Option.map_none] at last
        simp only [found, last]
        rw [← clearCallstack_renamed]
        rfl
      | some saved =>
        rw [found, Option.map_some] at last
        simp only [found, last]
        rw [checkCurrentSymbol_renamed, restore_renamed, clearCallstack_renamed]
    | jump | interrupt | async | txAbort => exact checkCurrentSymbol_renamed f h time br.dst

/-- Leaving untraced code asks for its symbol, which keeps its name. Another
symbol does not get that name, since renaming is injective. -/
theorem resume_renamed (h : Handling) (time : UInt64) :
    f.handling (h.resume time) = (f.handling h).resume time := by
  have top : (f.handling h).thread.callstack.stack.getLast? =
      h.thread.callstack.stack.getLast?.map f.location := List.getLast?_map
  have marker : (f.handling h).thread.callstack.stack.getLast?.map Location.symbol =
      some untracedSymbol ↔
        h.thread.callstack.stack.getLast?.map Location.symbol = some untracedSymbol := by
    rw [top]
    cases h.thread.callstack.stack.getLast? with
    | none => exact Iff.rfl
    | some top =>
      simp only [Option.map_some, Option.some.injEq]
      nth_rewrite 1 [← f.untraced]
      exact f.injective.eq_iff
  simp only [resume, marker]
  split
  · exact ret_renamed f h time
  · rfl

/-- Handling a branch is handling the renamed branch, on each of the three ways
in which tracing may go on. -/
theorem processBranch_renamed (h : Handling) (time : UInt64) (br : BranchData) :
    f.handling (h.processBranch time br) = (f.handling h).processBranch time (f.branch br) := by
  have state : (f.branch br).traceState = br.traceState := rfl
  have marker : f.location { symbol := untracedSymbol } = { symbol := untracedSymbol } := by
    rw [Renaming.location, f.untraced]
  rw [processBranch, processBranch, state]
  cases br.traceState with
  | none => exact processKind_renamed f h time br
  | start =>
    simp only [processKind_renamed, checkCurrentSymbol_renamed, resume_renamed]
    rfl
  | «end» => simp only [call_renamed, marker]

/-- Stack and sample agree on as many frames as before, since names do not
become one. -/
theorem matchCount_renamed (stack sample : List Location) :
    matchCount (stack.map f.location) (sample.map f.location) = matchCount stack sample := by
  induction stack generalizing sample with
  | nil => cases sample <;> rfl
  | cons current currents inductionHypothesis =>
    cases sample with
    | nil => rfl
    | cons first samples =>
      simp only [List.map_cons, matchCount, location_symbol, inductionHypothesis]

/-- Handling a sample is handling the renamed sample. Frames agree after
renaming exactly if they did before. -/
theorem processStacktrace_renamed (h : Handling) (time : UInt64) (st : StacktraceSampleData) :
    f.handling (h.processStacktrace time st) =
      (f.handling h).processStacktrace time { callstack := st.callstack.map f.location } := by
  have called : ∀ (frames : List Location) (h : Handling),
      f.handling (frames.foldl (fun h loc => h.call time loc) h) =
        (frames.map f.location).foldl (fun h loc => h.call time loc) (f.handling h) := by
    intro frames
    induction frames with
    | nil => exact fun _ => rfl
    | cons loc rest inductionHypothesis =>
      intro h
      rw [List.foldl_cons, inductionHypothesis, call_renamed]
      rfl
  have stack : (f.handling h).thread.callstack.stack =
      h.thread.callstack.stack.map f.location := rfl
  simp only [processStacktrace, stack, matchCount_renamed, List.length_map, called,
    popDownTo_renamed, List.map_drop]

/-- The work of an event is done alike. A branch is taken apart by its kind,
which stays. -/
theorem handle_renamed (h : Handling) (time : UInt64) (work : Work) :
    f.handling (h.handle time work) = (f.handling h).handle time (f.work work) := by
  cases work with
  | branch br => exact processBranch_renamed f h time br
  | sample st => exact processStacktrace_renamed f h time st
  | lost => exact clearAllCallstacks_renamed f h time

/-- Finishing a thread is finishing the renamed thread. Its time stays. -/
theorem finish_renamed (h : Handling) : f.handling h.finish = (f.handling h).finish := by
  simp only [finish, flush_renamed, clearAllCallstacks_renamed]
  rfl

end Handling

namespace Tracker

variable (f : Renaming)

/-- What some events ask of the threads, with all times moved by a distance and
all symbols renamed. -/
def asked (distance : UInt64) (events : List Event) : List (ThreadKey × UInt64 × Work) :=
  events.filterMap (fun event =>
    event.timed.map (fun timed => (event.thread, timed.1 + distance, f.work timed.2)))

/-- What a thread does with its input, its renamed self does with the renamed
input. -/
theorem receive_renamed (key : ThreadKey) (ti : ThreadInfo) (input : UInt64 × Work) :
    receive key (f.thread ti) (Prod.map id f.work input) =
      (f.thread (receive key ti input).1, (receive key ti input).2.map f.write) := by
  have same := Handling.handle_renamed f ((⟨key, ti, []⟩ : Handling).arrive input.1) input.1 input.2
  have arrived : f.handling ((⟨key, ti, []⟩ : Handling).arrive input.1) =
      (⟨key, f.thread ti, []⟩ : Handling).arrive input.1 := rfl
  rw [arrived] at same
  simp only [receive, Prod.map_fst, Prod.map_snd, id_eq, ← same]
  rfl

/-- So it is where the thread is finished. -/
theorem conclude_renamed (key : ThreadKey) (ti : ThreadInfo) (visit : Unit) :
    conclude key (f.thread ti) visit =
      (f.thread (conclude key ti visit).1, (conclude key ti visit).2.map f.write) := by
  have same := Handling.finish_renamed f ⟨key, ti, []⟩
  have fresh : f.handling ⟨key, ti, []⟩ = ⟨key, f.thread ti, []⟩ := rfl
  rw [fresh] at same
  simp only [conclude, ← same]
  rfl

/-- The base time of some events is the first time that is asked for. Events
that ask nothing do not set it. -/
theorem asked_base (distance : UInt64) (events : List Event) :
    (asked f distance events).head?.map (fun input => input.2.1) =
      (events.findSome? Event.timed).map (fun timed => timed.1 + distance) := by
  induction events with
  | nil => rfl
  | cons event rest inductionHypothesis =>
    cases timed : event.timed with
    | none =>
      have skipped : asked f distance (event :: rest) = asked f distance rest :=
        List.filterMap_cons_none (by rw [timed]; rfl)
      rw [skipped, inductionHypothesis, List.findSome?_cons, timed]
    | some due =>
      have first : asked f distance (event :: rest) =
          (event.thread, due.1 + distance, f.work due.2) :: asked f distance rest :=
        List.filterMap_cons_some (by rw [timed]; rfl)
      rw [first, List.findSome?_cons, timed]
      rfl

/-- The inputs of the threads, renamed, follow from what is asked: the distance
between a time and the base does not change when both are moved. -/
theorem inputs_asked (distance base : UInt64) (events : List Event) :
    (inputs base events).map (Prod.map id (Prod.map id f.work)) =
      (asked f distance events).map
        (fun input => (input.1, input.2.1 - (base + distance), input.2.2)) := by
  rw [inputs, asked, List.map_filterMap, List.map_filterMap]
  congr 1
  funext event
  unfold input
  cases event.timed with
  | none => rfl
  | some due =>
    have moved : due.1 + distance - (base + distance) = due.1 - base :=
      add_sub_add_right_eq_sub due.1 base distance
    simp only [Option.map_some, moved]
    rfl

variable {f f' : Renaming} {distance distance' : UInt64} {events events' : List Event}

/-- Events that ask the same are the same inputs. The distance is taken away
with the base. -/
theorem inputs_alike (alike : asked f distance events = asked f' distance' events') :
    (inputs (({} : Tracker).base events) events).map (Prod.map id (Prod.map id f.work)) =
      (inputs (({} : Tracker).base events') events').map (Prod.map id (Prod.map id f'.work)) := by
  rw [inputs_asked f distance, inputs_asked f' distance', ← alike]
  have first := asked_base f distance events
  have first' := asked_base f' distance' events'
  rw [← alike, first] at first'
  cases found : events.findSome? Event.timed with
  | none =>
    rw [found, Option.map_none, Option.map_eq_none_iff, List.head?_eq_none_iff] at first
    rw [first]
    rfl
  | some due =>
    rw [found, Option.map_some] at first'
    obtain ⟨due', found', same⟩ := Option.map_eq_some_iff.mp first'.symm
    have base : ({} : Tracker).base events = due.1 := by simp [base, found]
    have base' : ({} : Tracker).base events' = due'.1 := by simp [Tracker.base, found']
    rw [base, base', ← same]

/-- The threads that are known after some events. A thread that is handled again
moves to the front. -/
theorem processAll_keys (t : Tracker) (base : UInt64) (events : List Event) :
    (t.processAll events).1.threads.keys =
      (inputs base events).foldl (fun keys input => input.1 :: keys.erase input.1)
        t.threads.keys := by
  induction events generalizing t with
  | nil => rfl
  | cons event rest inductionHypothesis =>
    simp only [processAll, inductionHypothesis]
    cases timed : event.timed with
    | none =>
      have skipped : inputs base (event :: rest) = inputs base rest :=
        List.filterMap_cons_none (by rw [input, timed]; rfl)
      rw [t.processEvent_untimed timed, skipped]
    | some due =>
      have received : inputs base (event :: rest) =
          (event.thread, due.1 - base, due.2) :: inputs base rest :=
        List.filterMap_cons_some (by rw [input, timed]; rfl)
      have entered : (t.processEvent event).1.threads.keys =
          event.thread :: t.threads.keys.erase event.thread := by
        rw [t.processEvent_timed timed]
        simp only [handle, setBase_threads, AList.keys_insert]
      rw [received, List.foldl_cons, entered]

/-- Everything that is handed over, as the machines of the threads hand it over.
First they receive their inputs, and then they are finished. -/
theorem handed_run (order : HashOrder) (events : List Event) :
    let received := inputs (({} : Tracker).base events) events
    let ran := run receive (fun _ => {}) received
    let known := received.foldl (fun keys input => input.1 :: keys.erase input.1) []
    marked (({} : Tracker).handed order events) =
      ran.2 ++ (run conclude ran.1 ((order.arrange known).map (·, ()))).2 := by
  intro received ran known
  obtain ⟨states, writes⟩ := ({} : Tracker).processAll_run events _ rfl
  have keys := ({} : Tracker).processAll_keys (({} : Tracker).base events) events
  obtain ⟨-, last⟩ := ((({} : Tracker).processAll events).1).finishThreads_run
    (order.arrange (({} : Tracker).processAll events).1.threads.keys)
  rw [states, keys] at last
  rw [handed, marked, List.map_append, finish, keys]
  exact congrArg₂ (· ++ ·) writes last

/-- Events that ask the same, each under a renaming of its own, hand over the
same under these renamings. -/
theorem handed_alike (alike : asked f distance events = asked f' distance' events')
    (order : HashOrder) :
    (({} : Tracker).handed order events).map f.write =
      (({} : Tracker).handed order events').map f'.write := by
  have whole : ∀ (f : Renaming) (events : List Event),
      let received := (inputs (({} : Tracker).base events) events).map
        (Prod.map id (Prod.map id f.work))
      let ran := run receive (fun _ => {}) received
      let known := received.foldl (fun keys input => input.1 :: keys.erase input.1) []
      (({} : Tracker).handed order events).map f.write =
        (ran.2 ++ (run conclude ran.1 ((order.arrange known).map (·, ()))).2).map Prod.snd := by
    intro f events
    have handed := handed_run order events
    generalize inputs (({} : Tracker).base events) events = original at handed ⊢
    intro received ran known
    have begun : ran = (f.thread ∘ (run receive (fun _ => {}) original).1,
        (run receive (fun _ => {}) original).2.map (Prod.map id f.write)) :=
      run_map (receive_renamed f) (fun _ => {}) original
    have same : known = original.foldl (fun keys input => input.1 :: keys.erase input.1) [] :=
      List.foldl_map
    have visits : ∀ (key : ThreadKey) (ti : ThreadInfo) (visit : Unit),
        conclude key (f.thread ti) (id visit) =
          (f.thread (conclude key ti visit).1, (conclude key ti visit).2.map f.write) :=
      conclude_renamed f
    have ended := run_map visits (run receive (fun _ => {}) original).1
      ((order.arrange known).map (·, ()))
    rw [Prod.map_id, List.map_id] at ended
    simp only [← same] at handed
    have unmarked : (({} : Tracker).handed order events).map f.write =
        ((marked (({} : Tracker).handed order events)).map (Prod.map id f.write)).map Prod.snd := by
      rw [marked, List.map_map, List.map_map]
      rfl
    rw [unmarked, handed, List.map_append, begun, ended]
  rw [whole f events, whole f' events', inputs_alike alike]

end Tracker

namespace Renaming

/-- A stamp under its new name. Its type and its time stay. -/
def stamp (f : Renaming) (stamp : Stamp) : Stamp := { stamp with symbol := f.apply stamp.symbol }

/-- The stamps of a write are renamed one by one; those of an unknown return
keep their name. -/
theorem stamps_renamed (f : Renaming) (w : Write) : (f.write w).stamps = w.stamps.map f.stamp := by
  have kind : (f.write w).event.kind = w.event.kind := rfl
  rw [Write.stamps, Write.stamps, kind]
  cases w.event.kind with
  | call => rfl
  | ret => rfl
  | retFromUntraced =>
    simp only [List.map_cons, List.map_nil, stamp, f.unknown]
    rfl

end Renaming

namespace Tracker

/-- The duration events that are written, each with its thread. Their order is
that of the writes. -/
def stamped (writes : List Write) : List (ThreadKey × Stamp) :=
  writes.flatMap (fun w => w.stamps.map (w.thread, ·))

/-- So are the stamps of several writes, each on its own thread. -/
theorem stamped_renamed (f : Renaming) (writes : List Write) :
    stamped (writes.map f.write) = (stamped writes).map (Prod.map id f.stamp) := by
  rw [stamped, stamped, List.flatMap_map, List.map_flatMap]
  congr 1
  funext w
  rw [f.stamps_renamed, List.map_map, List.map_map]
  rfl

/-- If one recording asks of the threads what another one does, but for new
names of the symbols and for the time at which it was made, then exactly the
same duration events are written for both, in the same order and at the same
times, but for the new names. Addresses, offsets, marks of transactions,
messages, and events without a time or a stack are free. -/
theorem symbols_renamed (f : Renaming) (distance distance' : UInt64) (events events' : List Event)
    (alike : asked .keep distance' events' = asked f distance events) (order : HashOrder) :
    stamped (({} : Tracker).handed order events') =
      (stamped (({} : Tracker).handed order events)).map (Prod.map id f.stamp) := by
  have same := handed_alike alike order
  have kept : stamped ((({} : Tracker).handed order events').map Renaming.keep.write) =
      stamped (({} : Tracker).handed order events') := by
    rw [stamped_renamed]
    exact List.map_id _
  rw [← kept, same, stamped_renamed]

/-- Two functions that exchange their names, in a later recording at other
addresses. -/
theorem symbols_renamed_swapped :
    let f : Renaming := ⟨Equiv.swap (text "f") (text "g"), Equiv.injective _,
      Equiv.swap_apply_of_ne_of_ne (by decide) (by decide),
      Equiv.swap_apply_of_ne_of_ne (by decide) (by decide)⟩
    let call (timeNs ip : UInt64) (src dst : Text) : Event :=
      .ok { pid := 1, tid := 1, timeNs,
            data := .branch { kind := some .call, src := { ip, symbol := src }, dst := { symbol := dst } } }
    let power : Event := .ok { data := .power { freqMhz := 3000 } }
    stamped (({} : Tracker).handed .listed [power, call 100 7 (text "g") (text "f")]) =
      (stamped (({} : Tracker).handed .listed [call 5 0 (text "f") (text "g")])).map
        (Prod.map id f.stamp) := by
  intro f call power
  exact symbols_renamed f 95 0 [call 5 0 (text "f") (text "g")]
    [power, call 100 7 (text "g") (text "f")] (by decide +kernel) .listed

end Tracker

end Tracey
