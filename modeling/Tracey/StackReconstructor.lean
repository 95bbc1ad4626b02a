import Tracey.FxtWriter
import Tracey.ShortenSymbol

/-!
# The stack reconstructor

The state machine of `StackReconstructor`. The functions that work on one thread
take that thread's `ThreadInfo` by reference and reach the writer only through
`write_pending`; here they transform a `Handling`, which carries the thread's
key and state and the calls of `write_pending` made so far. A processed event
hands these calls to the writer in their order.

Stacks are vectors, so the last element of a list is the top frame and the most
recently saved stack. `while` loops recurse on a fuel argument that starts at
the size of the container they empty. Times are 64-bit words and wrap. The `int`
counters of `flush` are unbounded integers.

`finish` visits the threads in the order of a hash table, which the model leaves
open: it is any rearrangement of the known keys.
-/

namespace Tracey

open FiniteMap

/-- The symbol of the frame that stands for code that was not traced. It is
pushed where tracing ends and popped where it starts again. -/
def untracedSymbol : Text := text "[untraced]"

/-- The symbol of a return from a frame that was never entered. Its duration
begins where the stack was made. -/
def unknownSymbol : Text := text "[unknown]"

/-- The key of a thread in the reconstructor. Threads of different processes are
different even if the thread ids agree. -/
structure ThreadKey where
  pid : UInt32
  tid : UInt32
deriving DecidableEq, Repr

/-- What a call remembers of its callee, and whether it was not seen to be
called. -/
structure CallInfo where
  location : Location := {}
  fromUntraced : Bool := false
deriving DecidableEq, Repr

/-- What is recorded: the begin of a function, its end, or the end of a function
that was entered before tracing began, of which both are written. -/
inductive PendingKind where
  | call
  | ret
  | retFromUntraced
deriving DecidableEq, Repr

/-- A recorded operation that waits for its final time. What is remembered of a
callee is not written; the reset time matters only for a return from untraced
code. -/
structure PendingEvent where
  symbol : Text
  kind : PendingKind
  callInfo : CallInfo := {}
  resetTime : UInt64 := 0
deriving DecidableEq, Repr

/-- The functions that are open, the outermost first, and the time the stack was
made. -/
structure Callstack where
  stack : List Location := []
  createTime : UInt64 := 0
deriving DecidableEq, Repr

/-- What is known of one thread: its active stack, those that system calls and
interrupts have put aside, the operations that wait for their times, and the
times that these depend on. -/
structure ThreadInfo where
  callstack : Callstack := {}
  inactiveCallstacks : List Callstack := []
  pendingEvents : List PendingEvent := []
  pendingTime : UInt64 := 0
  lastEventTime : UInt64 := 0
deriving DecidableEq, Repr

/-- The arguments of one call of `write_pending`. All that the reconstructor
puts into the trace is a list of these. -/
structure Write where
  thread : ThreadKey
  time : UInt64
  event : PendingEvent
deriving DecidableEq, Repr

/-- One thread while an event is handled for it: the reference that the
functions of the source get, and what they have handed to the writer. -/
structure Handling where
  key : ThreadKey
  thread : ThreadInfo
  writes : List Write := []
deriving DecidableEq, Repr

namespace Handling

/-- Replace the active stack, keeping its creation time. Nothing is recorded,
which is left to the callers. -/
def setStack (h : Handling) (stack : List Location) : Handling :=
  { h with thread.callstack.stack := stack }

/-- The number of operations in a batch that take time. These are the calls: a
return takes none. -/
def timeConsumers (events : List PendingEvent) : Int :=
  (events.countP (fun ev => ev.kind = .call) : Nat)

/-- The loop of `flush`: write every pending event at its share of the time.
Each call takes an equal part of what the calls before it have left, so that the
remainders of the divisions are spread as well; any other operation is written
where the call before it ended. -/
def flushLoop (key : ThreadKey) (pendingTime totalNs : UInt64) (consumers : Int) :
    UInt64 → Int → List PendingEvent → List Write
  | _, _, [] => []
  | nsOffset, sharesConsumed, ev :: rest =>
    if ev.kind = .call then
      let sharesConsumed := sharesConsumed + 1
      let remaining := consumers - sharesConsumed + 1
      let nsShare :=
        if remaining > 0 then UInt64.ofNat ((totalNs - nsOffset).toNat / remaining.toNat) else 0
      ⟨key, pendingTime + nsOffset, ev⟩ ::
        flushLoop key pendingTime totalNs consumers (nsOffset + nsShare) sharesConsumed rest
    else
      ⟨key, pendingTime + nsOffset, ev⟩ ::
        flushLoop key pendingTime totalNs consumers nsOffset sharesConsumed rest

/-- Write the pending events, spreading the time up to `toTime` over the calls.
All are written at their own time if that is not before `toTime`. -/
def flush (h : Handling) (toTime : UInt64) : Handling :=
  if h.thread.pendingEvents = [] then h
  else
    let totalNs := if toTime > h.thread.pendingTime then toTime - h.thread.pendingTime else 0
    { h with
      thread.pendingTime := toTime
      thread.pendingEvents := []
      writes := h.writes ++ flushLoop h.key h.thread.pendingTime totalNs
        (timeConsumers h.thread.pendingEvents) 0 0 h.thread.pendingEvents }

/-- Record an operation. Operations of one time wait together; the first one of
another time writes those that wait, spread over the time up to it. -/
def addEvent (h : Handling) (time : UInt64) (ev : PendingEvent) : Handling :=
  let h := if time ≠ h.thread.pendingTime ∧ h.thread.pendingEvents ≠ [] then h.flush time else h
  { h with
    thread.pendingTime := time
    thread.pendingEvents := h.thread.pendingEvents ++ [ev] }

/-- Enter a function. It is recorded first and pushed then, also if it is on the
stack already. -/
def call (h : Handling) (time : UInt64) (loc : Location) (fromUntraced : Bool := false) :
    Handling :=
  let h := h.addEvent time
    { symbol := loc.symbol, kind := .call, callInfo := ⟨loc, fromUntraced⟩ }
  h.setStack (h.thread.callstack.stack ++ [loc])

/-- Leave the top frame, or record a complete duration for an untraced one. The
stack stays empty in the second case. -/
def ret (h : Handling) (time : UInt64) : Handling :=
  match h.thread.callstack.stack.getLast? with
  | some top =>
    let h := h.addEvent time { symbol := top.symbol, kind := .ret }
    h.setStack h.thread.callstack.stack.dropLast
  | none =>
    h.addEvent time
      { symbol := unknownSymbol, kind := .retFromUntraced,
        resetTime := h.thread.callstack.createTime }

/-- Make the top frame the function that is executing. On an empty stack it is
entered at the time the stack was made, since it must have been running; another
top frame is exchanged for it. -/
def checkCurrentSymbol (h : Handling) (time : UInt64) (loc : Location) : Handling :=
  match h.thread.callstack.stack.getLast? with
  | none => h.call h.thread.callstack.createTime loc true
  | some top => if top.symbol ≠ loc.symbol then (h.ret time).call time loc else h

/-- Return until at most `count` frames are left. The fuel is the number of
frames, of which each turn removes one. -/
def popDownTo (time : UInt64) (count : Nat) : Nat → Handling → Handling
  | 0, h => h
  | fuel + 1, h =>
    if h.thread.callstack.stack.length > count then popDownTo time count fuel (h.ret time) else h

/-- Return from all functions of the active stack. The empty stack remains, with
its creation time. -/
def clearCallstack (h : Handling) (time : UInt64) : Handling :=
  popDownTo time 0 h.thread.callstack.stack.length h

/-- Make the most recently saved stack the active one. The one that was active
is dropped; the callers have emptied it. -/
def restore (h : Handling) (saved : Callstack) : Handling :=
  { h with
    thread.callstack := saved
    thread.inactiveCallstacks := h.thread.inactiveCallstacks.dropLast }

/-- The loop that restores each stack put aside and returns from its functions,
from the one that was put aside last. The fuel is the number of these stacks. -/
def clearInactive (time : UInt64) : Nat → Handling → Handling
  | 0, h => h
  | fuel + 1, h =>
    match h.thread.inactiveCallstacks.getLast? with
    | some saved => clearInactive time fuel ((h.restore saved).clearCallstack time)
    | none => h

/-- Return from all functions of all stacks, from the innermost interruption
outwards. No stack is left that a later return could restore. -/
def clearAllCallstacks (h : Handling) (time : UInt64) : Handling :=
  let h := h.clearCallstack time
  clearInactive time h.thread.inactiveCallstacks.length h

/-- Save the active stack and start an empty one at this time. A system call or
an interrupt runs on a stack of its own. -/
def save (h : Handling) (time : UInt64) : Handling :=
  { h with
    thread.inactiveCallstacks := h.thread.inactiveCallstacks ++ [h.thread.callstack]
    thread.callstack := { createTime := time } }

/-- Date the active stack. This is where functions that are later found on it
without having been entered begin. -/
def setCreateTime (h : Handling) (time : UInt64) : Handling :=
  { h with thread.callstack.createTime := time }

/-- The switch over the branch kind at the end of `process_branch`. System calls
and hardware interrupts put the stack aside, and the returns from them take it
up again; a branch without a kind does nothing. -/
def processKind (h : Handling) (time : UInt64) (br : BranchData) : Handling :=
  match br.kind with
  | none => h
  | some .call => (h.checkCurrentSymbol time br.src).call time br.dst
  | some .return => (h.ret time).checkCurrentSymbol time br.dst
  | some .jump => h.checkCurrentSymbol time br.dst
  | some .syscall | some .hardwareInterrupt => (h.save time).call time br.dst
  | some .iret | some .sysret =>
    let h := h.clearCallstack time
    match h.thread.inactiveCallstacks.getLast? with
    | some saved => (h.restore saved).checkCurrentSymbol time br.dst
    | none => h.setCreateTime time
  | some .interrupt | some .async | some .txAbort => h.checkCurrentSymbol time br.dst

/-- Remove the marker of untraced code from the top of the stack. Another top
frame stays, as tracing may start more than once. -/
def resume (h : Handling) (time : UInt64) : Handling :=
  if h.thread.callstack.stack.getLast?.map Location.symbol = some untracedSymbol then h.ret time
  else h

/-- Handle a branch. Where tracing ends the thread enters untraced code,
whatever the kind; where it starts, it first leaves untraced code and then has
to be in the function that the branch leads to. -/
def processBranch (h : Handling) (time : UInt64) (br : BranchData) : Handling :=
  match br.traceState with
  | .end => h.call time { symbol := untracedSymbol }
  | .start => ((h.resume time).checkCurrentSymbol time br.dst).processKind time br
  | .none => h.processKind time br

/-- The number of frames, from the outermost, on which stack and sample agree.
Only symbols are compared, not addresses. -/
def matchCount : List Location → List Location → Nat
  | current :: currents, sample :: samples =>
    if current.symbol = sample.symbol then matchCount currents samples + 1 else 0
  | _, _ => 0

/-- Handle a sample: return from the functions that are not in it, and enter
those that are new. What both have in common, from the outermost function on,
stays open. -/
def processStacktrace (h : Handling) (time : UInt64) (st : StacktraceSampleData) : Handling :=
  let count := matchCount h.thread.callstack.stack st.callstack
  let h := popDownTo time count h.thread.callstack.stack.length h
  (st.callstack.drop count).foldl (fun h loc => h.call time loc) h

/-- The body of the loop in `finish`. What waits is spread up to the thread's
last event, and all functions that are open end there. -/
def finish (h : Handling) : Handling :=
  let last := h.thread.lastEventTime
  ((h.flush last).clearAllCallstacks last).flush last

end Handling

/-- The part of the reconstructor that follows the threads. It never reads what
has been written, so it can be studied without the writer. -/
structure Tracker where
  baseTime : UInt64 := 0
  baseTimeSet : Bool := false
  threads : Table ThreadKey ThreadInfo := ∅

/-- An order in which a hash table may list its keys. No order is assumed: any
rearrangement of the keys is one. -/
structure HashOrder where
  arrange : List ThreadKey → List ThreadKey
  perm : ∀ keys, (arrange keys).Perm keys

/-- The order of the table itself, in which the key entered last comes first. It
stands for one possible hash table where a run is evaluated. -/
def HashOrder.listed : HashOrder := ⟨id, fun keys => List.Perm.refl keys⟩

namespace Tracker

/-- The state of a thread; an unknown thread starts with an empty one. Its stack
counts as made at the base time. -/
def getThread (t : Tracker) (key : ThreadKey) : ThreadInfo := (t.threads.lookup key).getD {}

/-- The first mapped time becomes the base of all later ones, also if a later
event carries an earlier time. -/
def setBase (t : Tracker) (timeNs : UInt64) : Tracker :=
  if t.baseTimeSet then t else { t with baseTime := timeNs, baseTimeSet := true }

/-- The time since the base, which an unsigned subtraction takes even from a
time before the base. -/
def mapTime (t : Tracker) (timeNs : UInt64) : UInt64 := timeNs - (t.setBase timeNs).baseTime

/-- Handle one event of a thread at its mapped time, which is noted before
anything else. All other threads keep their states. -/
def handle (t : Tracker) (key : ThreadKey) (timeNs : UInt64)
    (handler : Handling → UInt64 → Handling) : Tracker × List Write :=
  let time := t.mapTime timeNs
  let t := t.setBase timeNs
  let h := handler ⟨key, { t.getThread key with lastEventTime := time }, []⟩ time
  ({ t with threads := t.threads.insert key h.thread }, h.writes)

/-- Handle an event. Changes of frequency and counters are ignored, and so is a
decode error without a time; one with a time closes all functions of its thread. -/
def processEvent (t : Tracker) : Event → Tracker × List Write
  | .ok ok =>
    match ok.data with
    | .branch br => t.handle ⟨ok.pid, ok.tid⟩ ok.timeNs (fun h time => h.processBranch time br)
    | .stacktraceSample st =>
      t.handle ⟨ok.pid, ok.tid⟩ ok.timeNs (fun h time => h.processStacktrace time st)
    | .power _ => (t, [])
    | .eventSample _ => (t, [])
  | .decodeError error =>
    match error.timeNs with
    | some timeNs =>
      t.handle ⟨error.pid, error.tid⟩ timeNs (fun h time => h.clearAllCallstacks time)
    | none => (t, [])

/-- Finish the threads with the given keys, one after the other. Each one is
finished from its own state alone. -/
def finishThreads (t : Tracker) : List ThreadKey → Tracker × List Write
  | [] => (t, [])
  | key :: rest =>
    let h := Handling.finish ⟨key, t.getThread key, []⟩
    let (t, writes) := finishThreads { t with threads := t.threads.insert key h.thread } rest
    (t, h.writes ++ writes)

/-- Finish all threads, in the order in which the hash table lists them. The
threads stay in the table, without anything to write. -/
def finish (t : Tracker) (order : HashOrder) : Tracker × List Write :=
  t.finishThreads (order.arrange t.threads.keys)

/-- Process events one after the other. What they hand over is in the order of
the events. -/
def processAll (t : Tracker) : List Event → Tracker × List Write
  | [] => (t, [])
  | event :: rest =>
    let (t, writes) := t.processEvent event
    let (t, more) := t.processAll rest
    (t, writes ++ more)

/-- Everything handed to `write_pending` by some events and `finish`. This is
the trace before its strings and threads get numbers. -/
def handed (t : Tracker) (order : HashOrder) (events : List Event) : List Write :=
  (t.processAll events).2 ++ ((t.processAll events).1.finish order).2

end Tracker

/-- The reconstructor with its writer and its cache of string ids. The cache is
keyed by raw symbols and is never cleared. -/
structure StackReconstructor where
  tracker : Tracker := {}
  writer : FxtWriter
  categoryId : UInt16 := 0
  symbolIdCache : Table Text UInt16 := ∅

namespace StackReconstructor

/-- The constructor interns the category of all events. Its id is kept, as those
in the cache are. -/
def create (writer : FxtWriter) : StackReconstructor :=
  let (writer, id) := writer.internString (text "trace")
  { writer, categoryId := id }

/-- The cached id of a raw symbol, or that of its shortened form on first use.
The writer is not asked again, even if it has given the id away. -/
def internSymbol (s : StackReconstructor) (rawSymbol : Text) : StackReconstructor × UInt16 :=
  match s.symbolIdCache.lookup rawSymbol with
  | some id => (s, id)
  | none =>
    let (writer, id) := s.writer.internString (shortenSymbol rawSymbol)
    ({ s with writer, symbolIdCache := s.symbolIdCache.insert rawSymbol id }, id)

/-- Write a recorded operation. A return that no call is known for begins and
ends at once, under the name of unknown code and from the time its stack was
made. -/
def writePending (s : StackReconstructor) (write : Write) : StackReconstructor :=
  let (s, nameId) := s.internSymbol write.event.symbol
  let (writer, threadRef) :=
    s.writer.ensureThread write.thread.pid.toUInt64 write.thread.tid.toUInt64
  let s := { s with writer }
  match write.event.kind with
  | .call =>
    { s with writer := s.writer.writeEventById 2 threadRef s.categoryId nameId write.time }
  | .ret =>
    { s with writer := s.writer.writeEventById 3 threadRef s.categoryId nameId write.time }
  | .retFromUntraced =>
    let (s, unknownId) := s.internSymbol unknownSymbol
    { s with
      writer :=
        (s.writer.writeEventById 2 threadRef s.categoryId unknownId write.event.resetTime
          ).writeEventById 3 threadRef s.categoryId unknownId write.time }

/-- Follow one step of the tracker and write what it hands over, in that order.
The tracker has changed before the first write, but no write depends on it. -/
def follow (s : StackReconstructor) (step : Tracker × List Write) : StackReconstructor :=
  step.2.foldl writePending { s with tracker := step.1 }

/-- Process an event and write what it hands over. An event that hands over
nothing leaves the writer as it is. -/
def processEvent (s : StackReconstructor) (event : Event) : StackReconstructor :=
  s.follow (s.tracker.processEvent event)

/-- Process events one after the other, writing each one's calls before the next
event is looked at. -/
def processAll (s : StackReconstructor) (events : List Event) : StackReconstructor :=
  events.foldl processEvent s

/-- Finish all threads and write what is left of them. The order in which they
are visited is the hash table's. -/
def finish (s : StackReconstructor) (order : HashOrder) : StackReconstructor :=
  s.follow (s.tracker.finish order)

end StackReconstructor

end Tracey
