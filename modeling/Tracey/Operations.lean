import Tracey.StackReconstructor

/-!
# What an event does, as a list of operations

Every handler of the reconstructor is a sequence of a few operations on one
thread: entering a frame, leaving one, saving and restoring a stack. The script
of an event lists them; its loops become repetitions. Each handler is equal to
following its script, so a property that every operation keeps holds after any
event and after any run of a thread.

A script only restores a saved stack over an empty one, and only infers a frame
or dates a stack while it is empty.
-/

namespace Tracey

/-- One operation on a thread. All events of the trace are made of these,
whatever the kind of branch or sample behind them. -/
inductive Operation where
  | call (loc : Location)
  | infer (loc : Location)
  | enter (loc : Location)
  | ret
  | restore
  | redate
  | flush
deriving DecidableEq, Repr

/-- What an event that concerns a thread asks for: a branch, a sample, or a
decode error, which asks that everything be closed. -/
inductive Work where
  | branch (data : BranchData)
  | sample (data : StacktraceSampleData)
  | lost
deriving DecidableEq, Repr

namespace Handling

/-- The frames of the active stack, the outermost first. -/
abbrev stack (h : Handling) : List Location := h.thread.callstack.stack

/-- The stacks put aside, the one put aside last at the end. -/
abbrev saved (h : Handling) : List Callstack := h.thread.inactiveCallstacks

/-- Carry out one operation of an event at the given time. Only an inferred call
is recorded at another time, that at which its stack was made. -/
def perform (time : UInt64) (h : Handling) : Operation → Handling
  | .call loc => h.call time loc
  | .infer loc => h.call h.thread.callstack.createTime loc true
  | .enter loc => (h.save time).call time loc
  | .ret => h.ret time
  | .restore =>
    match h.saved.getLast? with
    | some callstack => h.restore callstack
    | none => h
  | .redate => h.setCreateTime time
  | .flush => h.flush time

/-- Carry out operations one after the other. All of them have the time of their
event. -/
def follow (h : Handling) (time : UInt64) (operations : List Operation) : Handling :=
  operations.foldl (perform time) h

/-- The state a script needs for an operation. The handlers see to it that it
has this state; other operations can be carried out in any. -/
def Permits (h : Handling) : Operation → Prop
  | .infer _ => h.stack = []
  | .restore => h.stack = [] ∧ h.saved ≠ []
  | .redate => h.stack = [] ∧ h.saved = []
  | _ => True

/-- Every operation finds the state it needs. The state is looked at when the
operation's turn comes. -/
def Permitted (time : UInt64) : Handling → List Operation → Prop
  | _, [] => True
  | h, operation :: rest => h.Permits operation ∧ Permitted time (h.perform time operation) rest

/-- Make the top of a stack the function that is executing. Nothing is to be
done if it already is. -/
def currentScript (stack : List Location) (loc : Location) : List Operation :=
  match stack.getLast? with
  | none => [.infer loc]
  | some top => if top.symbol ≠ loc.symbol then [.ret, .call loc] else []

/-- What a branch of its kind asks for, in the state it finds: which frames it
leaves and enters, and what it does to the stacks put aside. -/
def kindScript (h : Handling) (br : BranchData) : List Operation :=
  match br.kind with
  | none => []
  | some .call => currentScript h.stack br.src ++ [.call br.dst]
  | some .return => .ret :: currentScript h.stack.dropLast br.dst
  | some .jump => currentScript h.stack br.dst
  | some .syscall | some .hardwareInterrupt => [.enter br.dst]
  | some .iret | some .sysret =>
    List.replicate h.stack.length .ret ++
      match h.saved.getLast? with
      | some callstack => .restore :: currentScript callstack.stack br.dst
      | none => [.redate]
  | some .interrupt | some .async | some .txAbort => currentScript h.stack br.dst

/-- Leave the marker of untraced code, then enter the frame that is executing. -/
def resumeScript (h : Handling) (br : BranchData) : List Operation :=
  if h.stack.getLast?.map Location.symbol = some untracedSymbol then
    .ret :: currentScript h.stack.dropLast br.dst
  else currentScript h.stack br.dst

/-- What a branch asks for. The end of a trace enters untraced code whatever the
kind; at its start the kind is handled in the state that leaving untraced code
has made. -/
def branchScript (h : Handling) (time : UInt64) (br : BranchData) : List Operation :=
  match br.traceState with
  | .end => [.call { symbol := untracedSymbol }]
  | .start =>
    h.resumeScript br ++ (h.follow time (h.resumeScript br)).kindScript br
  | .none => h.kindScript br

/-- What a sample asks for: leave the frames that it does not share with the
stack, and enter those of its own. -/
def sampleScript (h : Handling) (st : StacktraceSampleData) : List Operation :=
  let count := matchCount h.stack st.callstack
  List.replicate (h.stack.length - count) .ret ++ (st.callstack.drop count).map .call

/-- Restore and empty every saved stack, from the most recent one. Each one
becomes the active stack for a moment. -/
def savedScript (saved : List Callstack) : List Operation :=
  saved.reverse.flatMap (fun callstack => .restore :: List.replicate callstack.stack.length .ret)

/-- Empty the active stack, then every saved one. The frames are left in the
order in which they would return. -/
def clearScript (h : Handling) : List Operation :=
  List.replicate h.stack.length .ret ++ savedScript h.saved

/-- What an event asks for, in the state it finds. The script is planned before
anything is carried out. -/
def script (h : Handling) (time : UInt64) : Work → List Operation
  | .branch br => h.branchScript time br
  | .sample st => h.sampleScript st
  | .lost => h.clearScript

/-- What finishing a thread asks for. The flush in front keeps the ends apart
from what waits. -/
def finishScript (h : Handling) : List Operation := .flush :: (h.clearScript ++ [.flush])

/-- Do the work of an event. These are the handlers of the source. -/
def handle (h : Handling) (time : UInt64) : Work → Handling
  | .branch br => h.processBranch time br
  | .sample st => h.processStacktrace time st
  | .lost => h.clearAllCallstacks time

/-! Recording an operation leaves the stacks alone. -/

/-- A flush writes and leaves everything else: the owner, the stacks and the
time of the last event. -/
theorem flush_stays (h : Handling) (time : UInt64) :
    (h.flush time).key = h.key ∧ (h.flush time).thread.callstack = h.thread.callstack ∧
      (h.flush time).saved = h.saved ∧
      (h.flush time).thread.lastEventTime = h.thread.lastEventTime := by
  unfold flush
  split <;> exact ⟨rfl, rfl, rfl, rfl⟩

/-- A flush keeps the owner of the thread. -/
@[simp] theorem flush_key (h : Handling) (time : UInt64) : (h.flush time).key = h.key :=
  (h.flush_stays time).1

/-- A flush keeps the active stack. Only what waits is touched. -/
@[simp] theorem flush_callstack (h : Handling) (time : UInt64) :
    (h.flush time).thread.callstack = h.thread.callstack := (h.flush_stays time).2.1

/-- A flush keeps the stacks put aside. -/
@[simp] theorem flush_saved (h : Handling) (time : UInt64) :
    (h.flush time).thread.inactiveCallstacks = h.saved := (h.flush_stays time).2.2.1

/-- A flush is no event. -/
@[simp] theorem flush_lastEventTime (h : Handling) (time : UInt64) :
    (h.flush time).thread.lastEventTime = h.thread.lastEventTime := (h.flush_stays time).2.2.2

/-- Recording an operation leaves the owner, the stacks and the time of the last
event, whether or not it flushes. -/
theorem addEvent_stays (h : Handling) (time : UInt64) (ev : PendingEvent) :
    (h.addEvent time ev).key = h.key ∧
      (h.addEvent time ev).thread.callstack = h.thread.callstack ∧
      (h.addEvent time ev).saved = h.saved ∧
      (h.addEvent time ev).thread.lastEventTime = h.thread.lastEventTime := by
  simp only [addEvent]
  split
  · exact h.flush_stays time
  · exact ⟨rfl, rfl, rfl, rfl⟩

/-- Record an event and replace the active stack, as entering and leaving do.
What this has in common is all that the proofs about calls and returns need. -/
def record (h : Handling) (time : UInt64) (ev : PendingEvent) (stack : List Location) : Handling :=
  (h.addEvent time ev).setStack stack

/-- Recording keeps the owner of the thread. -/
@[simp] theorem record_key (h : Handling) (time : UInt64) (ev : PendingEvent)
    (stack : List Location) : (h.record time ev stack).key = h.key := (h.addEvent_stays time ev).1

/-- Recording gives the active stack the frames it is handed, and keeps the time
it was made. -/
@[simp] theorem record_callstack (h : Handling) (time : UInt64) (ev : PendingEvent)
    (stack : List Location) :
    (h.record time ev stack).thread.callstack = { h.thread.callstack with stack := stack } := by
  simp only [record, setStack, (h.addEvent_stays time ev).2.1]

/-- Recording keeps the stacks put aside. -/
@[simp] theorem record_saved (h : Handling) (time : UInt64) (ev : PendingEvent)
    (stack : List Location) : (h.record time ev stack).thread.inactiveCallstacks = h.saved :=
  (h.addEvent_stays time ev).2.2.1

/-- Recording is no event. -/
@[simp] theorem record_lastEventTime (h : Handling) (time : UInt64) (ev : PendingEvent)
    (stack : List Location) :
    (h.record time ev stack).thread.lastEventTime = h.thread.lastEventTime :=
  (h.addEvent_stays time ev).2.2.2

/-- What entering a frame records. -/
def callEvent (loc : Location) (fromUntraced : Bool) : PendingEvent :=
  { symbol := loc.symbol, kind := .call, callInfo := ⟨loc, fromUntraced⟩ }

/-- What a return records, for the top frame or for code that was never entered.
In the second case the creation time of the stack is recorded with it. -/
def retEvent (callstack : Callstack) : PendingEvent :=
  match callstack.stack.getLast? with
  | some top => { symbol := top.symbol, kind := .ret }
  | none =>
    { symbol := unknownSymbol, kind := .retFromUntraced, resetTime := callstack.createTime }

/-- A call records its event and pushes the frame. Where the frame comes from
makes no difference to the stack. -/
theorem call_eq (h : Handling) (time : UInt64) (loc : Location) (fromUntraced : Bool) :
    h.call time loc fromUntraced =
      h.record time (callEvent loc fromUntraced) (h.stack ++ [loc]) := by
  have same := (h.addEvent_stays time (callEvent loc fromUntraced)).2.1
  rw [stack, ← same]
  rfl

/-- Replacing the stack by what it is changes nothing. -/
theorem record_stack (h : Handling) (time : UInt64) (ev : PendingEvent) :
    h.record time ev h.stack = h.addEvent time ev := by
  have same := (h.addEvent_stays time ev).2.1
  rw [stack, ← same]
  rfl

/-- A return records its event and drops the top frame if there is one. An empty
stack stays empty. -/
theorem ret_eq (h : Handling) (time : UInt64) :
    h.ret time = h.record time (retEvent h.thread.callstack) h.stack.dropLast := by
  cases found : h.stack.getLast? with
  | some top =>
    have event : retEvent h.thread.callstack = { symbol := top.symbol, kind := .ret } := by
      simp only [retEvent, found]
    have same := (h.addEvent_stays time { symbol := top.symbol, kind := .ret }).2.1
    simp only [ret, found, event, record, same]
  | none =>
    have event : retEvent h.thread.callstack =
        { symbol := unknownSymbol, kind := .retFromUntraced,
          resetTime := h.thread.callstack.createTime } := by
      simp only [retEvent, found]
    have empty : h.stack.dropLast = h.stack := by
      rw [List.getLast?_eq_none_iff.mp found]
      rfl
    rw [empty, record_stack, event]
    simp only [ret, found]

/-- A call puts its callee on top of the active stack. -/
@[simp] theorem call_callstack (h : Handling) (time : UInt64) (loc : Location)
    (fromUntraced : Bool) : (h.call time loc fromUntraced).thread.callstack =
      { h.thread.callstack with stack := h.stack ++ [loc] } := by
  rw [call_eq, record_callstack]

/-- A call keeps the stacks put aside. -/
@[simp] theorem call_saved (h : Handling) (time : UInt64) (loc : Location) (fromUntraced : Bool) :
    (h.call time loc fromUntraced).thread.inactiveCallstacks = h.saved := by
  rw [call_eq, record_saved]

/-- A return takes the top off the active stack, if there is one. -/
@[simp] theorem ret_callstack (h : Handling) (time : UInt64) :
    (h.ret time).thread.callstack = { h.thread.callstack with stack := h.stack.dropLast } := by
  rw [ret_eq, record_callstack]

/-- The frames behind a return are those before it but for the top. -/
theorem ret_stack (h : Handling) (time : UInt64) : (h.ret time).stack = h.stack.dropLast := by
  rw [stack, ret_callstack]

/-- A return keeps the stacks put aside. -/
@[simp] theorem ret_saved (h : Handling) (time : UInt64) :
    (h.ret time).thread.inactiveCallstacks = h.saved := by
  rw [ret_eq, record_saved]

/-! The operations that enter or leave a frame record one event. -/

/-- A call records its begin. -/
theorem perform_call (h : Handling) (time : UInt64) (loc : Location) :
    h.perform time (.call loc) = h.record time (callEvent loc false) (h.stack ++ [loc]) :=
  h.call_eq time loc false

/-- An inferred call records its begin at the time its stack was made. The stack
may have been made at an earlier event. -/
theorem perform_infer (h : Handling) (time : UInt64) (loc : Location) :
    h.perform time (.infer loc) =
      h.record h.thread.callstack.createTime (callEvent loc true) (h.stack ++ [loc]) :=
  h.call_eq h.thread.callstack.createTime loc true

/-- Entering the kernel records a call on a new stack. The stack it comes from
waits among the saved ones. -/
theorem perform_enter (h : Handling) (time : UInt64) (loc : Location) :
    h.perform time (.enter loc) = (h.save time).record time (callEvent loc false) [loc] :=
  (h.save time).call_eq time loc false

/-- A return records the end of the top, or of unknown code where there is no
top. -/
theorem perform_ret (h : Handling) (time : UInt64) :
    h.perform time .ret = h.record time (retEvent h.thread.callstack) h.stack.dropLast :=
  h.ret_eq time

/-! Following a list of operations goes on from where the first part ends. -/

/-- Without operations nothing is done. -/
@[simp] theorem follow_nil (h : Handling) (time : UInt64) : h.follow time [] = h := rfl

/-- Operations are carried out from the first one on. -/
@[simp] theorem follow_cons (h : Handling) (time : UInt64) (operation : Operation)
    (rest : List Operation) :
    h.follow time (operation :: rest) = (h.perform time operation).follow time rest := rfl

/-- Two scripts in a row are one script. So a script can be put together from
those of the parts of a handler. -/
theorem follow_append (h : Handling) (time : UInt64) (operations more : List Operation) :
    h.follow time (operations ++ more) = (h.follow time operations).follow time more :=
  List.foldl_append

/-- Two scripts in a row are permitted if the first is, and the second in the
state that the first leaves. -/
theorem permitted_append {h : Handling} {time : UInt64} {operations more : List Operation}
    (begun : h.Permitted time operations)
    (continued : (h.follow time operations).Permitted time more) :
    h.Permitted time (operations ++ more) := by
  induction operations generalizing h with
  | nil => exact continued
  | cons operation rest inductionHypothesis =>
    exact ⟨begun.1, inductionHypothesis begun.2 continued⟩

/-- A property that every permitted operation keeps is kept by permitted
operations. -/
theorem follow_keeps {P : Handling → Prop} {time : UInt64}
    (kept : ∀ h operation, P h → h.Permits operation → P (h.perform time operation))
    {operations : List Operation} {h : Handling} (start : P h)
    (permitted : h.Permitted time operations) : P (h.follow time operations) := by
  induction operations generalizing h with
  | nil => exact start
  | cons operation rest inductionHypothesis =>
    exact inductionHypothesis (kept h operation start permitted.1) permitted.2

/-- Leaving frames repeatedly. -/
def pops (count : Nat) : List Operation := List.replicate count .ret

/-- One return more is one return in front. -/
theorem pops_succ (count : Nat) : pops (count + 1) = .ret :: pops count := rfl

/-- Leaving frames takes them off the top and touches nothing else of the
stacks. -/
theorem follow_pops (h : Handling) (time : UInt64) (count : Nat) :
    (h.follow time (pops count)).thread.callstack =
        { h.thread.callstack with stack := h.stack.take (h.stack.length - count) } ∧
      (h.follow time (pops count)).saved = h.saved := by
  induction count generalizing h with
  | zero => simp [pops]
  | succ count inductionHypothesis =>
    obtain ⟨callstack, saved⟩ := inductionHypothesis (h.ret time)
    rw [pops_succ, follow_cons]
    refine ⟨callstack.trans ?_, saved.trans (h.ret_saved time)⟩
    rw [stack, ret_callstack]
    simp only [List.dropLast_eq_take, List.length_take, List.take_take]
    congr 2
    omega

/-- Returns need nothing: without a frame they record the end of unknown code. -/
theorem permitted_pops (h : Handling) (time : UInt64) (count : Nat) :
    h.Permitted time (pops count) := by
  induction count generalizing h with
  | zero => trivial
  | succ count inductionHypothesis => exact ⟨trivial, inductionHypothesis (h.ret time)⟩

/-- The loop that pops frames leaves as many as are too many. The loop of the
source has run dry by then. -/
theorem popDownTo_follow (time : UInt64) (count fuel : Nat) (h : Handling)
    (enough : h.stack.length - count ≤ fuel) :
    popDownTo time count fuel h = h.follow time (pops (h.stack.length - count)) := by
  induction fuel generalizing h with
  | zero =>
    rw [Nat.le_zero.mp enough]
    rfl
  | succ fuel inductionHypothesis =>
    rw [popDownTo]
    split
    · next more =>
      have more : h.stack.length > count := more
      have dropped : (h.ret time).stack.length = h.stack.length - 1 := by
        rw [ret_stack, List.length_dropLast]
      have one : h.stack.length - count = (h.ret time).stack.length - count + 1 := by omega
      rw [inductionHypothesis (h.ret time) (by omega), one, pops_succ]
      rfl
    · next done =>
      have done : ¬ h.stack.length > count := done
      have reached : h.stack.length - count = 0 := by omega
      rw [reached]
      rfl

/-- Clearing the active stack returns once from each of its frames. The fuel of
the loop is just enough. -/
theorem clearCallstack_follow (h : Handling) (time : UInt64) :
    h.clearCallstack time = h.follow time (pops h.stack.length) :=
  popDownTo_follow time 0 h.stack.length h (Nat.sub_le _ _)

/-- Clearing empties the active stack and nothing else. The time the stack was
made stays. -/
theorem clearCallstack_stays (h : Handling) (time : UInt64) :
    (h.clearCallstack time).thread.callstack = { h.thread.callstack with stack := [] } ∧
      (h.clearCallstack time).saved = h.saved := by
  have popped := h.follow_pops time h.stack.length
  rwa [← clearCallstack_follow, Nat.sub_self, List.take_zero] at popped

/-- Repairing the top follows its script: infer a frame, replace the top, or
nothing. -/
theorem checkCurrentSymbol_follow (h : Handling) (time : UInt64) (loc : Location) :
    h.checkCurrentSymbol time loc = h.follow time (currentScript h.stack loc) := by
  unfold checkCurrentSymbol currentScript
  split
  · next empty =>
    rw [empty]
    rfl
  · next top found =>
    rw [found]
    dsimp only
    split <;> rfl

/-- Repairing the top is permitted, since a frame is inferred on an empty stack
only. -/
theorem permitted_currentScript (h : Handling) (time : UInt64) (loc : Location) :
    h.Permitted time (currentScript h.stack loc) := by
  unfold currentScript
  split
  · next empty => exact ⟨List.getLast?_eq_none_iff.mp empty, trivial⟩
  · split
    · exact ⟨trivial, trivial, trivial⟩
    · trivial

/-- Following a script as planned for the stack that is there. The stack has to
be the one for which the script was planned. -/
theorem follow_current (h : Handling) (time : UInt64) (loc : Location) (stack : List Location)
    (same : h.stack = stack) :
    h.follow time (currentScript stack loc) = h.checkCurrentSymbol time loc ∧
      h.Permitted time (currentScript stack loc) := by
  subst same
  exact ⟨(h.checkCurrentSymbol_follow time loc).symm, h.permitted_currentScript time loc⟩

/-- The stack put aside last is restored and cleared first. -/
theorem savedScript_concat (saved : List Callstack) (last : Callstack) :
    savedScript (saved ++ [last]) =
      (.restore :: List.replicate last.stack.length .ret) ++ savedScript saved := by
  simp [savedScript]

/-- Restoring the most recently saved stack is the move a script asks for. A
script that restores is planned with the saved stacks in view. -/
theorem perform_restore (h : Handling) (time : UInt64) {below : List Callstack}
    {last : Callstack} (saved : h.saved = below ++ [last]) :
    h.perform time .restore = h.restore last ∧ (h.restore last).saved = below := by
  have top : h.saved.getLast? = some last := by rw [saved, List.getLast?_concat]
  constructor
  · simp only [perform, top]
  · change h.saved.dropLast = below
    rw [saved, List.dropLast_concat]

/-- Restoring and emptying stack after stack, from the most recently saved one.

Induct over the saved stacks from the last. -/
theorem clearInactive_follow (time : UInt64) (saved : List Callstack) (h : Handling)
    (same : h.saved = saved) (empty : h.stack = []) :
    clearInactive time saved.length h = h.follow time (savedScript saved) ∧
      h.Permitted time (savedScript saved) := by
  induction saved using List.reverseRecOn generalizing h with
  | nil => exact ⟨rfl, trivial⟩
  | append_singleton below last inductionHypothesis =>
    obtain ⟨restored, rest⟩ := h.perform_restore time same
    have top : h.saved.getLast? = some last := by rw [same, List.getLast?_concat]
    obtain ⟨callstack, kept⟩ := (h.restore last).clearCallstack_stays time
    have lastPops := (h.restore last).clearCallstack_follow time
    obtain ⟨followed, permitted⟩ := inductionHypothesis ((h.restore last).clearCallstack time)
      (kept.trans rest) (by rw [stack, callstack])
    have script : savedScript (below ++ [last]) =
        (.restore :: pops last.stack.length) ++ savedScript below :=
      savedScript_concat below last
    have first : h.follow time (.restore :: pops last.stack.length) =
        (h.restore last).clearCallstack time := by
      rw [follow_cons, restored, lastPops]
      rfl
    rw [script]
    constructor
    · rw [follow_append, first, ← followed, List.length_append, List.length_singleton]
      simp only [clearInactive, top]
    · refine permitted_append ⟨⟨empty, ?_⟩, permitted_pops _ time _⟩ (first ▸ permitted)
      rw [same]
      exact List.append_ne_nil_of_right_ne_nil below (List.cons_ne_nil last [])

/-- Clearing all stacks follows its script, and every stack is restored onto an
empty one. -/
theorem clearAllCallstacks_follow (h : Handling) (time : UInt64) :
    h.clearAllCallstacks time = h.follow time h.clearScript ∧
      h.Permitted time h.clearScript := by
  obtain ⟨callstack, kept⟩ := h.clearCallstack_stays time
  obtain ⟨followed, permitted⟩ := clearInactive_follow time h.saved (h.clearCallstack time) kept
    (by rw [stack, callstack])
  have script : h.clearScript = pops h.stack.length ++ savedScript h.saved := rfl
  rw [clearCallstack_follow] at permitted
  rw [script, follow_append]
  refine ⟨?_, permitted_append (h.permitted_pops time _) permitted⟩
  rw [← clearCallstack_follow, ← followed, ← kept]
  rfl

/-- Entering frames one after the other. A call is permitted in any state. -/
theorem calls_follow (h : Handling) (time : UInt64) (locs : List Location) :
    locs.foldl (fun h loc => h.call time loc) h = h.follow time (locs.map .call) ∧
      h.Permitted time (locs.map .call) := by
  induction locs generalizing h with
  | nil => exact ⟨rfl, trivial⟩
  | cons loc rest inductionHypothesis =>
    obtain ⟨followed, permitted⟩ := inductionHypothesis (h.call time loc)
    exact ⟨followed, trivial, permitted⟩

/-- Handling a sample follows its script. The frames to leave are known before
the first of them is left. -/
theorem processStacktrace_follow (h : Handling) (time : UInt64) (st : StacktraceSampleData) :
    h.processStacktrace time st = h.follow time (h.sampleScript st) ∧
      h.Permitted time (h.sampleScript st) := by
  have popped := popDownTo_follow time (matchCount h.stack st.callstack) h.stack.length h
    (Nat.sub_le _ _)
  obtain ⟨followed, permitted⟩ := calls_follow
    (h.follow time (pops (h.stack.length - matchCount h.stack st.callstack))) time
    (st.callstack.drop (matchCount h.stack st.callstack))
  rw [sampleScript, follow_append]
  refine ⟨?_, permitted_append (h.permitted_pops time _) permitted⟩
  rw [processStacktrace, popped, followed]
  rfl

/-- Leaving a context empties its stack and goes on in the one saved before, or
dates the empty stack. -/
theorem leaving_follow (h : Handling) (time : UInt64) (loc : Location) :
    let cleared := h.clearCallstack time
    let script := List.replicate h.stack.length .ret ++
      match h.saved.getLast? with
      | some callstack => .restore :: currentScript callstack.stack loc
      | none => [.redate]
    (match cleared.thread.inactiveCallstacks.getLast? with
      | some saved => (cleared.restore saved).checkCurrentSymbol time loc
      | none => cleared.setCreateTime time) = h.follow time script ∧
      h.Permitted time script := by
  intro cleared script
  obtain ⟨callstack, kept⟩ := h.clearCallstack_stays time
  have empty : cleared.stack = [] := by rw [stack, callstack]
  have popped : cleared = h.follow time (pops h.stack.length) := h.clearCallstack_follow time
  cases top : h.saved.getLast? with
  | none =>
    have planned : script = pops h.stack.length ++ [.redate] := by
      simp only [script, top]
      rfl
    have nothing : cleared.saved = [] := kept.trans (List.getLast?_eq_none_iff.mp top)
    rw [planned, follow_append, ← popped]
    refine ⟨?_, permitted_append (h.permitted_pops time _) (popped ▸ ⟨⟨empty, nothing⟩, trivial⟩)⟩
    have missing : cleared.thread.inactiveCallstacks.getLast? = none :=
      (congrArg List.getLast? kept).trans top
    rw [missing]
    rfl
  | some last =>
    obtain ⟨below, whole⟩ := List.getLast?_eq_some_iff.mp top
    obtain ⟨restored, _⟩ := cleared.perform_restore time (kept.trans whole)
    obtain ⟨followed, permitted⟩ := (cleared.restore last).follow_current time loc last.stack rfl
    have planned : script =
        pops h.stack.length ++ (.restore :: currentScript last.stack loc) := by
      simp only [script, top]
      rfl
    have something : cleared.saved ≠ [] := by
      rw [kept, whole]
      exact List.append_ne_nil_of_right_ne_nil below (List.cons_ne_nil last [])
    rw [planned, follow_append, ← popped, follow_cons, restored, followed]
    refine ⟨?_, permitted_append (h.permitted_pops time _) (popped ▸ ⟨⟨empty, something⟩, ?_⟩)⟩
    · have found : cleared.thread.inactiveCallstacks.getLast? = some last :=
        (congrArg List.getLast? kept).trans top
      rw [found]
    · rw [restored]
      exact permitted

/-- Handling a branch by its kind follows its script. Cases on the kind, and for
a way out of the kernel on whether a stack has been put aside. -/
theorem processKind_follow (h : Handling) (time : UInt64) (br : BranchData) :
    h.processKind time br = h.follow time (h.kindScript br) ∧
      h.Permitted time (h.kindScript br) := by
  obtain ⟨toSource, sourcePermitted⟩ := h.follow_current time br.src h.stack rfl
  obtain ⟨toTarget, targetPermitted⟩ := h.follow_current time br.dst h.stack rfl
  cases kind : br.kind with
  | none =>
    simp only [processKind, kindScript, kind]
    exact ⟨rfl, trivial⟩
  | some branchKind =>
    cases branchKind with
    | call =>
      simp only [processKind, kindScript, kind, follow_append, toSource]
      exact ⟨rfl, permitted_append sourcePermitted ⟨trivial, trivial⟩⟩
    | «return» =>
      obtain ⟨followed, permitted⟩ := (h.ret time).follow_current time br.dst h.stack.dropLast
        (h.ret_stack time)
      simp only [processKind, kindScript, kind, follow_cons]
      exact ⟨followed.symm, trivial, permitted⟩
    | syscall | hardwareInterrupt =>
      simp only [processKind, kindScript, kind]
      exact ⟨rfl, trivial, trivial⟩
    | iret | sysret =>
      simp only [processKind, kindScript, kind]
      exact h.leaving_follow time br.dst
    | jump | interrupt | async | txAbort =>
      simp only [processKind, kindScript, kind]
      exact ⟨toTarget.symm, targetPermitted⟩

/-- Resuming after a gap, up to the branch kind. The marker, if it is there, is
on top of the stack. -/
theorem resume_follow (h : Handling) (time : UInt64) (br : BranchData) :
    (h.resume time).checkCurrentSymbol time br.dst =
        h.follow time (h.resumeScript br) ∧
      h.Permitted time (h.resumeScript br) := by
  unfold resume resumeScript
  split
  · obtain ⟨followed, permitted⟩ := (h.ret time).follow_current time br.dst h.stack.dropLast
      (h.ret_stack time)
    exact ⟨followed.symm, trivial, permitted⟩
  · obtain ⟨followed, permitted⟩ := h.follow_current time br.dst h.stack rfl
    exact ⟨followed.symm, permitted⟩

/-- Handling a branch follows its script, on each of the three ways in which
tracing may go on. -/
theorem processBranch_follow (h : Handling) (time : UInt64) (br : BranchData) :
    h.processBranch time br = h.follow time (h.branchScript time br) ∧
      h.Permitted time (h.branchScript time br) := by
  cases state : br.traceState with
  | none =>
    simp only [processBranch, branchScript, state]
    exact h.processKind_follow time br
  | start =>
    obtain ⟨resumed, permitted⟩ := h.resume_follow time br
    obtain ⟨followed, more⟩ :=
      (h.follow time (h.resumeScript br)).processKind_follow time br
    simp only [processBranch, branchScript, state, resumed, follow_append]
    exact ⟨followed, permitted_append permitted more⟩
  | «end» =>
    simp only [processBranch, branchScript, state]
    exact ⟨rfl, trivial, trivial⟩

/-- Every handler follows its script. Every statement about events is proved for
operations and carried over by this. -/
theorem handle_follow (h : Handling) (time : UInt64) (work : Work) :
    h.handle time work = h.follow time (h.script time work) ∧
      h.Permitted time (h.script time work) := by
  cases work with
  | branch br => exact h.processBranch_follow time br
  | sample st => exact h.processStacktrace_follow time st
  | lost => exact h.clearAllCallstacks_follow time

/-- Finishing a thread flushes, empties all stacks and flushes again. The
flushes are operations like the others. -/
theorem finish_follow (h : Handling) :
    h.finish = h.follow h.thread.lastEventTime h.finishScript ∧
      h.Permitted h.thread.lastEventTime h.finishScript := by
  obtain ⟨followed, permitted⟩ :=
    (h.flush h.thread.lastEventTime).clearAllCallstacks_follow h.thread.lastEventTime
  have same : (h.flush h.thread.lastEventTime).clearScript = h.clearScript := by
    simp only [clearScript, stack, saved, flush_callstack, flush_saved]
  rw [same] at followed permitted
  simp only [finishScript, follow_cons, follow_append]
  refine ⟨?_, trivial, permitted_append permitted ⟨trivial, trivial⟩⟩
  rw [finish, followed]
  rfl

end Handling

end Tracey
