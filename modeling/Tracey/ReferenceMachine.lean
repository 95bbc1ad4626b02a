import Tracey.Timing

/-!
# Consistent executions

The reference machine executes functions: its state is a stack of contexts, each
a stack of functions that is never empty. A step calls, returns, jumps, enters
or leaves a context, or goes on behind a gap in the trace, and produces the
branches a trace shows of it together with the functions that begin and end. The
machine stands for what the traced program did.

The reconstructor simulates it: on the branches of an execution its stacks carry
the machine's contexts and its events the machine's marks. The repairs it makes
for traces that lost something are never made for an execution.
-/

namespace Tracey

open BracketWord

/-- A function as the trace names it. No function has the name of untraced code. -/
structure Routine where
  symbol : Text
  traced : symbol ≠ untracedSymbol

/-- A stack of functions with one that is executing. There is always one, so
that a context is never empty. -/
structure Context where
  below : List Routine
  top : Routine

/-- The contexts that wait, the most recent one last, and the one that executes.
A system call or an interrupt begins a context of its own. -/
structure ReferenceMachine where
  saved : List Context
  current : Context

namespace Context

/-- The functions of a context, the outermost first. The last one is executing. -/
def functions (c : Context) : List Routine := c.below ++ [c.top]

/-- The symbols of the functions of a context, the outermost first. This is what
the reconstructor can know of them. -/
def symbols (c : Context) : List Text := c.functions.map Routine.symbol

/-- Ending every function of a context, from the top. Each of them has been
begun before. -/
def closing (c : Context) : List (Mark Text) := c.symbols.reverse.map .closing

end Context

namespace ReferenceMachine

/-- The symbols of every context, those that wait first. The one that executes
is the last of them. -/
def contexts (m : ReferenceMachine) : List (List Text) :=
  m.saved.map Context.symbols ++ [m.current.symbols]

/-- Ending every function of every context, from the one that executes. -/
def closing (m : ReferenceMachine) : List (Mark Text) :=
  m.contexts.flatten.reverse.map .closing

/-- A step of the machine, with the branches a trace shows and the functions
that begin and end. -/
inductive Step : ReferenceMachine → List BranchData → List (Mark Text) → ReferenceMachine → Prop
  | call {saved below top} {br : BranchData} (g : Routine)
      (state : br.traceState = .none) (kind : br.kind = some .call)
      (source : br.src.symbol = top.symbol) (target : br.dst.symbol = g.symbol) :
      Step ⟨saved, below, top⟩ [br] [.opening g.symbol] ⟨saved, below ++ [top], g⟩
  | return {saved below caller top} {br : BranchData}
      (state : br.traceState = .none) (kind : br.kind = some .return)
      (target : br.dst.symbol = caller.symbol) :
      Step ⟨saved, below ++ [caller], top⟩ [br] [.closing top.symbol] ⟨saved, below, caller⟩
  | jumpWithin {saved below top} {br : BranchData}
      (state : br.traceState = .none) (kind : br.kind = some .jump)
      (target : br.dst.symbol = top.symbol) :
      Step ⟨saved, below, top⟩ [br] [] ⟨saved, below, top⟩
  | jumpTo {saved below top} {br : BranchData} (h : Routine)
      (state : br.traceState = .none) (kind : br.kind = some .jump)
      (target : br.dst.symbol = h.symbol) (another : h.symbol ≠ top.symbol) :
      Step ⟨saved, below, top⟩ [br] [.closing top.symbol, .opening h.symbol] ⟨saved, below, h⟩
  | enter {saved current} {br : BranchData} (k : Routine)
      (state : br.traceState = .none)
      (kind : br.kind = some .syscall ∨ br.kind = some .hardwareInterrupt)
      (target : br.dst.symbol = k.symbol) :
      Step ⟨saved, current⟩ [br] [.opening k.symbol] ⟨saved ++ [current], [], k⟩
  | leave {saved resumed current} {br : BranchData}
      (state : br.traceState = .none)
      (kind : br.kind = some .sysret ∨ br.kind = some .iret)
      (target : br.dst.symbol = resumed.top.symbol) :
      Step ⟨saved ++ [resumed], current⟩ [br] current.closing ⟨saved, resumed⟩
  | gap {saved below top} {last first : BranchData}
      (stop : last.traceState = .end) (start : first.traceState = .start)
      (kind : first.kind = none ∨ first.kind = some .jump)
      (target : first.dst.symbol = top.symbol) :
      Step ⟨saved, below, top⟩ [last, first]
        [.opening untracedSymbol, .closing untracedSymbol] ⟨saved, below, top⟩

/-- An execution begins with the start of the trace in a function and makes any
number of steps. -/
inductive Execution : List BranchData → List (Mark Text) → ReferenceMachine → Prop
  | start {br : BranchData} (f : Routine) (state : br.traceState = .start)
      (kind : br.kind = none) (target : br.dst.symbol = f.symbol) :
      Execution [br] [.opening f.symbol] ⟨[], [], f⟩
  | step {branches more marks moved m m'} (begun : Execution branches marks m)
      (continued : Step m more moved m') : Execution (branches ++ more) (marks ++ moved) m'

end ReferenceMachine

/-- The symbols of every stack of a thread, the saved ones first. They are
compared with those of the machine. -/
def ThreadInfo.contexts (ti : ThreadInfo) : List (List Text) :=
  (ti.inactiveCallstacks ++ [ti.callstack]).map (fun c => c.stack.map Location.symbol)

namespace Handling

/-- What the recorded events begin and end. It does not matter whether it has
been written yet. -/
def marks (h : Handling) : List (Mark Text) := h.recorded.flatMap PendingEvent.marks

/-- The stacks carry some symbols, and what was recorded begins and ends these.
The frames may have any addresses and creation times. -/
structure Carries (h : Handling) (saved : List (List Text)) (active : List Text)
    (marks : List (Mark Text)) : Prop where
  saved : h.saved.map (fun c => c.stack.map Location.symbol) = saved
  active : h.stack.map Location.symbol = active
  marks : h.marks = marks

/-- The stacks carry the contexts of a machine. What was recorded is what the
machine has begun and ended. -/
def Simulates (h : Handling) (m : ReferenceMachine) (marks : List (Mark Text)) : Prop :=
  h.Carries (m.saved.map Context.symbols) m.current.symbols marks

section Carries

variable {h : Handling} {saved : List (List Text)} {active : List Text} {marks : List (Mark Text)}

/-- The contexts of the thread are the symbols of its stacks, the active one
last. -/
theorem Carries.contexts (carries : h.Carries saved active marks) :
    h.thread.contexts = saved ++ [active] := by
  rw [ThreadInfo.contexts, List.map_append, carries.saved, ← carries.active]
  rfl

/-- The frame that carries the last symbol. Its address and offset may be any. -/
theorem Carries.top {below : List Text} {top : Text}
    (carries : h.Carries saved (below ++ [top]) marks) :
    ∃ under frame, h.stack = under ++ [frame] ∧ under.map Location.symbol = below ∧
      frame.symbol = top := by
  obtain ⟨under, last, whole, underSame, lastSame⟩ := List.map_eq_append_iff.mp carries.active
  obtain ⟨frame, rfl, frameSame⟩ := List.map_eq_singleton_iff.mp lastSame
  exact ⟨under, frame, whole, underSame, frameSame⟩

/-- Recording an event adds its marks. A flush in between adds none. -/
theorem record_marks (h : Handling) (time : UInt64) (ev : PendingEvent) (stack : List Location) :
    (h.record time ev stack).marks = h.marks ++ ev.marks := by
  rw [Handling.marks, record_recorded, List.flatMap_append, List.flatMap_singleton]
  rfl

/-- A call is carried as one function more. Where it was called from makes no
difference. -/
theorem Carries.call (carries : h.Carries saved active marks) (time : UInt64) (loc : Location)
    (fromUntraced : Bool) : (h.call time loc fromUntraced).Carries saved (active ++ [loc.symbol])
      (marks ++ [.opening loc.symbol]) where
  saved := by rw [Handling.saved, call_saved, carries.saved]
  active := by
    rw [stack, call_callstack, List.map_append, carries.active]
    rfl
  marks := by
    rw [call_eq, record_marks, carries.marks]
    rfl

/-- A return is carried as one function less. The context must have one more
than it leaves. -/
theorem Carries.ret {below : List Text} {top : Text}
    (carries : h.Carries saved (below ++ [top]) marks) (time : UInt64) :
    (h.ret time).Carries saved below (marks ++ [.closing top]) := by
  obtain ⟨under, frame, whole, underSame, rfl⟩ := carries.top
  refine ⟨?_, ?_, ?_⟩
  · rw [Handling.saved, ret_saved, carries.saved]
  · rw [ret_stack, whole, List.dropLast_concat, underSame]
  · rw [ret_eq, record_marks, retEvent_top whole, carries.marks]
    rfl

/-- Entering the kernel is carried as a new context. The one before it waits. -/
theorem Carries.enter (carries : h.Carries saved active marks) (time : UInt64) (loc : Location) :
    ((h.save time).call time loc).Carries (saved ++ [active]) [loc.symbol]
      (marks ++ [.opening loc.symbol]) := by
  have waiting : (h.save time).Carries (saved ++ [active]) [] marks := by
    refine ⟨?_, rfl, carries.marks⟩
    rw [← carries.saved, ← carries.active]
    exact List.map_append
  exact waiting.call time loc false

/-- Clearing the active stack ends its functions, from the top. The context is
over then. -/
theorem Carries.clear (carries : h.Carries saved active marks) (time : UInt64) :
    (h.clearCallstack time).Carries saved [] (marks ++ active.reverse.map .closing) := by
  obtain ⟨callstack, kept⟩ := h.clearCallstack_stays time
  refine ⟨?_, ?_, ?_⟩
  · rw [kept, carries.saved]
  · rw [stack, callstack]
    rfl
  · have ended : (h.stack.reverse.map leaveEvent).flatMap PendingEvent.marks =
        active.reverse.map Mark.closing := by
      rw [← carries.active, ← List.map_reverse, List.map_map, List.flatMap_map]
      exact List.flatMap_pure_eq_map _ _
    rw [Handling.marks, (Emitted.none h time).clearCallstack.recorded, List.nil_append,
      List.flatMap_append, ended, ← carries.marks]
    rfl

/-- Over an empty stack the most recently saved one becomes active. -/
theorem Carries.restore {resumed : List Text}
    (carries : h.Carries (saved ++ [resumed]) [] marks) :
    ∃ callstack, h.saved.getLast? = some callstack ∧
      (h.restore callstack).Carries saved resumed marks := by
  obtain ⟨below, last, whole, belowSame, lastSame⟩ := List.map_eq_append_iff.mp carries.saved
  obtain ⟨callstack, rfl, same⟩ := List.map_eq_singleton_iff.mp lastSame
  obtain ⟨_, rest⟩ := h.perform_restore 0 whole
  refine ⟨callstack, by rw [whole, List.getLast?_concat], ?_, same, carries.marks⟩
  rw [rest, belowSame]

/-- A check against the function that executes does nothing. The repair of the
stack is not needed while the trace is complete. -/
theorem Carries.silent {below : List Text} {top : Text}
    (carries : h.Carries saved (below ++ [top]) marks) (time : UInt64) {loc : Location}
    (same : loc.symbol = top) : h.checkCurrentSymbol time loc = h := by
  obtain ⟨under, frame, whole, _, rfl⟩ := carries.top
  have top : h.thread.callstack.stack.getLast? = some frame := by
    rw [show h.thread.callstack.stack = under ++ [frame] from whole, List.getLast?_concat]
  have equal : ¬ frame.symbol ≠ loc.symbol := fun different => different same.symm
  simp only [checkCurrentSymbol, top, if_neg equal]

/-- A check against another function replaces the top. Its caller stays below. -/
theorem Carries.replaced {below : List Text} {top : Text}
    (carries : h.Carries saved (below ++ [top]) marks) (time : UInt64) {loc : Location}
    (another : loc.symbol ≠ top) :
    (h.checkCurrentSymbol time loc).Carries saved (below ++ [loc.symbol])
      (marks ++ [.closing top, .opening loc.symbol]) := by
  have moved := (carries.ret time).call time loc false
  obtain ⟨under, frame, whole, _, rfl⟩ := carries.top
  have top : h.thread.callstack.stack.getLast? = some frame := by
    rw [show h.thread.callstack.stack = under ++ [frame] from whole, List.getLast?_concat]
  simp only [checkCurrentSymbol, top, if_pos another.symm]
  rwa [List.append_assoc] at moved

end Carries

/-! Each step of the machine is followed by the events that show it. -/

section Steps

variable {h : Handling} {saved : List Context} {below : List Routine} {top : Routine}
  {marks : List (Mark Text)} {time : UInt64} {br : BranchData}

/-- A thread that received one branch without a trace state did what its kind
asks for. -/
theorem live_branch (h : Handling) (state : br.traceState = .none)
    {history : List (UInt64 × Work)} (shown : history.map Prod.snd = [.branch br]) :
    ∃ time, h.live history = (h.arrive time).processKind time br := by
  obtain ⟨⟨time, _⟩, rfl, rfl⟩ := List.map_eq_singleton_iff.mp shown
  refine ⟨time, ?_⟩
  simp only [live_cons, live_nil, handle, processBranch, state]

/-- The arrival of an event is not a step of the program. Only the thread's time
changes. -/
theorem Simulates.arrive {m : ReferenceMachine} (simulates : h.Simulates m marks)
    (time : UInt64) : (h.arrive time).Simulates m marks :=
  ⟨simulates.saved, simulates.active, simulates.marks⟩

/-- The active stack of a simulation has the executing function at its top. The
functions that wait below it are all there. -/
theorem simulates_iff : h.Simulates ⟨saved, below, top⟩ marks ↔
    h.Carries (saved.map Context.symbols) (below.map Routine.symbol ++ [top.symbol]) marks := by
  have symbols : Context.symbols ⟨below, top⟩ = below.map Routine.symbol ++ [top.symbol] :=
    List.map_append
  rw [Simulates, symbols]

/-- A call of the program is handled as one. The source of the branch is the
function that is executing, so that nothing has to be repaired. -/
theorem call_simulates (simulates : h.Simulates ⟨saved, below, top⟩ marks) (g : Routine)
    (kind : br.kind = some .call) (source : br.src.symbol = top.symbol)
    (target : br.dst.symbol = g.symbol) :
    (h.processKind time br).Simulates ⟨saved, below ++ [top], g⟩
      (marks ++ [.opening g.symbol]) := by
  have carries := simulates_iff.mp simulates
  have called := carries.call time br.dst false
  simp only [processKind, kind, carries.silent time source]
  rw [target] at called
  apply simulates_iff.mpr
  rwa [List.map_append]

/-- A return of the program is handled as one. The target is the caller, so that
nothing is repaired. -/
theorem return_simulates {caller : Routine}
    (simulates : h.Simulates ⟨saved, below ++ [caller], top⟩ marks)
    (kind : br.kind = some .return) (target : br.dst.symbol = caller.symbol) :
    (h.processKind time br).Simulates ⟨saved, below, caller⟩
      (marks ++ [.closing top.symbol]) := by
  have returned := (simulates_iff.mp simulates).ret time
  rw [List.map_append] at returned
  simp only [processKind, kind, returned.silent time target]
  exact simulates_iff.mpr returned

/-- A jump within a function is no step. The loops of a program are made of
these. -/
theorem jumpWithin_simulates (simulates : h.Simulates ⟨saved, below, top⟩ marks)
    (kind : br.kind = some .jump) (target : br.dst.symbol = top.symbol) :
    (h.processKind time br).Simulates ⟨saved, below, top⟩ marks := by
  simp only [processKind, kind, (simulates_iff.mp simulates).silent time target]
  exact simulates

/-- A jump into another function leaves the one and enters the other. This is
how a tail call looks. -/
theorem jumpTo_simulates (simulates : h.Simulates ⟨saved, below, top⟩ marks) (g : Routine)
    (kind : br.kind = some .jump) (target : br.dst.symbol = g.symbol)
    (another : g.symbol ≠ top.symbol) :
    (h.processKind time br).Simulates ⟨saved, below, g⟩
      (marks ++ [.closing top.symbol, .opening g.symbol]) := by
  rw [← target] at another
  have replaced := (simulates_iff.mp simulates).replaced time another
  rw [target] at replaced
  simp only [processKind, kind]
  exact simulates_iff.mpr replaced

/-- A system call or an interrupt begins a new context. The context that is left
waits with all its functions. -/
theorem enter_simulates {current : Context} (simulates : h.Simulates ⟨saved, current⟩ marks)
    (k : Routine) (kind : br.kind = some .syscall ∨ br.kind = some .hardwareInterrupt)
    (target : br.dst.symbol = k.symbol) :
    (h.processKind time br).Simulates ⟨saved ++ [current], [], k⟩
      (marks ++ [.opening k.symbol]) := by
  have entered := simulates.enter time br.dst
  have same : h.processKind time br = (h.save time).call time br.dst := by
    rcases kind with kind | kind <;> simp only [processKind, kind]
  rw [target] at entered
  rw [same, Simulates, List.map_append]
  exact entered

/-- The way out of the kernel closes what is open there and goes on where the
program was. -/
theorem leave_simulates {resumed current : Context}
    (simulates : h.Simulates ⟨saved ++ [resumed], current⟩ marks)
    (kind : br.kind = some .sysret ∨ br.kind = some .iret)
    (target : br.dst.symbol = resumed.top.symbol) :
    (h.processKind time br).Simulates ⟨saved, resumed⟩ (marks ++ current.closing) := by
  have cleared := simulates.clear time
  rw [List.map_append] at cleared
  obtain ⟨callstack, found, restored⟩ := cleared.restore
  have silent := (simulates_iff.mp restored).silent time target
  have same : h.processKind time br = (h.clearCallstack time).restore callstack := by
    rcases kind with kind | kind <;> simp only [processKind, kind, found, silent]
  rw [same]
  exact restored

/-- A gap puts the marker of untraced code on the stack and removes it again.
The program goes on in the function it was in. -/
theorem gap_simulates (simulates : h.Simulates ⟨saved, below, top⟩ marks) {later : UInt64}
    {last first : BranchData} (stop : last.traceState = .end) (start : first.traceState = .start)
    (kind : first.kind = none ∨ first.kind = some .jump)
    (target : first.dst.symbol = top.symbol) :
    ((((h.arrive time).processBranch time last).arrive later).processBranch later first).Simulates
      ⟨saved, below, top⟩ (marks ++ [.opening untracedSymbol, .closing untracedSymbol]) := by
  have stopped := (simulates_iff.mp (simulates.arrive time)).call time
    { symbol := untracedSymbol } false
  have paused : ((h.arrive time).processBranch time last).arrive later =
      ((h.arrive time).call time { symbol := untracedSymbol }).arrive later := by
    simp only [processBranch, stop]
  rw [paused]
  generalize (h.arrive time).call time { symbol := untracedSymbol } = waiting at stopped ⊢
  have arrived : (waiting.arrive later).Carries _ _ _ :=
    ⟨stopped.saved, stopped.active, stopped.marks⟩
  have resumed := arrived.ret later
  rw [List.append_assoc] at resumed
  obtain ⟨under, frame, whole, _, marker⟩ := arrived.top
  have top : (waiting.arrive later).thread.callstack.stack.getLast? = some frame :=
    (congrArg List.getLast? whole).trans List.getLast?_concat
  have gone : (waiting.arrive later).resume later = (waiting.arrive later).ret later := by
    rw [resume, top, Option.map_some, marker, if_pos rfl]
  have silent := resumed.silent later target
  have same : (waiting.arrive later).processBranch later first =
      (waiting.arrive later).ret later := by
    rcases kind with kind | kind <;>
      simp only [processBranch, start, gone, silent, processKind, kind]
  rw [same]
  exact simulates_iff.mpr resumed

/-- The reconstructor follows a step on any branches that show it, at any times.
A step may take several branches, or none. -/
theorem step_simulates {m m' : ReferenceMachine} {branches : List BranchData}
    {moved : List (Mark Text)} (step : ReferenceMachine.Step m branches moved m')
    (simulates : h.Simulates m marks) {history : List (UInt64 × Work)}
    (shown : history.map Prod.snd = branches.map .branch) :
    (h.live history).Simulates m' (marks ++ moved) := by
  cases step with
  | call g state kind source target =>
    obtain ⟨time, lived⟩ := h.live_branch state shown
    exact lived ▸ call_simulates (simulates.arrive time) g kind source target
  | «return» state kind target =>
    obtain ⟨time, lived⟩ := h.live_branch state shown
    exact lived ▸ return_simulates (simulates.arrive time) kind target
  | jumpWithin state kind target =>
    obtain ⟨time, lived⟩ := h.live_branch state shown
    rw [lived, List.append_nil]
    exact jumpWithin_simulates (simulates.arrive time) kind target
  | jumpTo g state kind target another =>
    obtain ⟨time, lived⟩ := h.live_branch state shown
    exact lived ▸ jumpTo_simulates (simulates.arrive time) g kind target another
  | enter k state kind target =>
    obtain ⟨time, lived⟩ := h.live_branch state shown
    exact lived ▸ enter_simulates (simulates.arrive time) k kind target
  | leave state kind target =>
    obtain ⟨time, lived⟩ := h.live_branch state shown
    exact lived ▸ leave_simulates (simulates.arrive time) kind target
  | gap stop start kind target =>
    obtain ⟨⟨time, _⟩, rest, rfl, rfl, others⟩ := List.map_eq_cons_iff.mp shown
    obtain ⟨⟨later, _⟩, rfl, rfl⟩ := List.map_eq_singleton_iff.mp others
    exact gap_simulates simulates stop start kind target

end Steps

/-- The start of an execution infers the function that is executing. Its callers
are not known. -/
theorem start_simulates (key : ThreadKey) {br : BranchData} (f : Routine)
    (state : br.traceState = .start) (kind : br.kind = none) (target : br.dst.symbol = f.symbol)
    {history : List (UInt64 × Work)} (shown : history.map Prod.snd = [.branch br]) :
    ((⟨key, {}, []⟩ : Handling).live history).Simulates ⟨[], [], f⟩ [.opening f.symbol] := by
  obtain ⟨⟨time, _⟩, rfl, rfl⟩ := List.map_eq_singleton_iff.mp shown
  have fresh : ((⟨key, {}, []⟩ : Handling).arrive time).Carries [] [] [] := ⟨rfl, rfl, rfl⟩
  have inferred := fresh.call 0 br.dst true
  have same : (⟨key, {}, []⟩ : Handling).live [(time, .branch br)] =
      ((⟨key, {}, []⟩ : Handling).arrive time).call 0 br.dst true := by
    simp only [live_cons, live_nil, handle, processBranch, state, processKind, kind]
    rfl
  rw [target] at inferred
  rw [same]
  exact inferred

/-- The reconstructor follows an execution.

Induct over the execution; the history splits where its last step begins. -/
theorem execution_simulates (key : ThreadKey) {branches : List BranchData}
    {marks : List (Mark Text)} {m : ReferenceMachine}
    (execution : ReferenceMachine.Execution branches marks m) {history : List (UInt64 × Work)}
    (shown : history.map Prod.snd = branches.map .branch) :
    ((⟨key, {}, []⟩ : Handling).live history).Simulates m marks := by
  induction execution generalizing history with
  | start f state kind target => exact start_simulates key f state kind target shown
  | step begun continued inductionHypothesis =>
    rw [List.map_append] at shown
    obtain ⟨past, last, rfl, pastShown, lastShown⟩ := List.map_eq_append_iff.mp shown
    have split : (⟨key, {}, []⟩ : Handling).live (past ++ last) =
        ((⟨key, {}, []⟩ : Handling).live past).live last := List.foldl_append
    rw [split]
    exact step_simulates continued (inductionHypothesis pastShown) lastShown

/-- Finishing ends every function of every context. The contexts that wait are
ended last. -/
theorem Simulates.finish {h : Handling} {m : ReferenceMachine} {marks : List (Mark Text)}
    (simulates : h.Simulates m marks) :
    h.finish.writes.flatMap (fun w => w.event.marks) = marks ++ m.closing := by
  have frames : (h.saved.flatMap Callstack.stack ++ h.stack).map Location.symbol =
      m.contexts.flatten := by
    rw [ReferenceMachine.contexts, ← simulates.saved, ← simulates.active, List.map_append,
      List.flatten_append, List.flatten_singleton, List.flatMap_def, List.map_flatten,
      List.map_map]
    rfl
  have ended : ((h.saved.flatMap Callstack.stack ++ h.stack).reverse.map leaveEvent).flatMap
      PendingEvent.marks = m.closing := by
    rw [ReferenceMachine.closing, ← frames, ← List.map_reverse, List.map_map, List.flatMap_map]
    exact List.flatMap_pure_eq_map _ _
  have written := h.finish_recorded
  rw [recorded_written h.finish h.finish_empty.2.2] at written
  rw [← List.flatMap_map, written, List.flatMap_append, ended, ← simulates.marks]
  rfl

end Handling

namespace StackReconstructor

/-- A thread whose timed events show an execution is reconstructed faithfully:
its stacks carry the contexts the execution has reached, and what is written for
it through the end begins and ends the functions of the execution, then ends
what is left of it; the trace names them by the ids of their symbols. -/
theorem execution_reconstructed (before : List WriterCall) (order : HashOrder)
    (events : List Event) (key : ThreadKey) {branches : List BranchData}
    {marks : List (Mark Text)} {m : ReferenceMachine}
    (execution : ReferenceMachine.Execution branches marks m)
    (shown : (Tracker.timedOf key events).map Prod.snd = branches.map .branch) :
    (((create (FxtWriter.afterCalls before)).processAll events).tracker.getThread key).contexts =
        m.contexts ∧
      (stampsFor key (({} : Tracker).handed order events)).map Stamp.mark = marks ++ m.closing ∧
      (seenOf before order events key).map Outline.mark =
        (marks ++ m.closing).map (Mark.map (reconstruct before order events).nameId) := by
  generalize base : ({} : Tracker).base events = start
  have history : (Tracker.history start key events).map Prod.snd = branches.map .branch := by
    rw [Tracker.history_timed, List.map_map, ← shown]
    rfl
  have simulates := Handling.execution_simulates key execution history
  have written : (stampsFor key (({} : Tracker).handed order events)).map Stamp.mark =
      marks ++ m.closing := by
    rw [stampsFor, Tracker.handed_own, List.map_flatMap, base]
    simp only [Write.stamps_mark]
    exact simulates.finish
  refine ⟨?_, written, ?_⟩
  · have reached := (({} : Tracker).processAll_own events key).1
    have fresh : (create (FxtWriter.afterCalls before)).tracker = {} := rfl
    rw [processAll_eq, fresh]
    dsimp only
    rw [reached, base]
    exact simulates.contexts
  · rw [← written]
    exact outlines_marks before order events key

/-- A function calls another one, which enters the kernel, returns from it and
goes on behind a gap. -/
theorem execution_reconstructed_kernel :
    let f : Location := { symbol := text "f" }
    let g : Location := { symbol := text "g" }
    let k : Location := { symbol := text "k" }
    let event (timeNs : UInt64) (data : BranchData) : Event :=
      .ok { pid := 1, tid := 1, timeNs, data := .branch data }
    let events := [event 5 { traceState := .start, dst := f },
      event 6 { kind := some .call, src := f, dst := g },
      event 7 { kind := some .syscall, src := g, dst := k },
      event 8 { kind := some .sysret, src := k, dst := g },
      event 9 { traceState := .end, src := g },
      event 10 { traceState := .start, kind := some .jump, dst := g }]
    (((create (FxtWriter.afterCalls [])).processAll events).tracker.getThread ⟨1, 1⟩).contexts =
        [[text "f", text "g"]] ∧
      (stampsFor ⟨1, 1⟩ (({} : Tracker).handed .listed events)).map Stamp.mark =
        [.opening (text "f"), .opening (text "g"), .opening (text "k"), .closing (text "k"),
          .opening untracedSymbol, .closing untracedSymbol, .closing (text "g"),
          .closing (text "f")] := by
  intro f g k event events
  let asRoutine (loc : Location) (traced : loc.symbol ≠ untracedSymbol) : Routine :=
    ⟨loc.symbol, traced⟩
  let f' := asRoutine f (by decide)
  let g' := asRoutine g (by decide)
  let k' := asRoutine k (by decide)
  have started : ReferenceMachine.Execution [{ traceState := .start, dst := f }] _ ⟨[], [], f'⟩ :=
    .start f' rfl rfl rfl
  have called := started.step
    (@ReferenceMachine.Step.call _ _ _ { kind := some .call, src := f, dst := g } g'
      rfl rfl rfl rfl)
  have entered := called.step
    (@ReferenceMachine.Step.enter _ _ { kind := some .syscall, src := g, dst := k } k'
      rfl (.inl rfl) rfl)
  have left := entered.step
    (@ReferenceMachine.Step.leave [] _ _ { kind := some .sysret, src := k, dst := g }
      rfl (.inl rfl) rfl)
  have resumed := left.step
    (@ReferenceMachine.Step.gap _ _ _ { traceState := .end, src := g }
      { traceState := .start, kind := some .jump, dst := g } rfl rfl (.inr rfl) rfl)
  obtain ⟨contexts, marks, _⟩ :=
    execution_reconstructed [] .listed events ⟨1, 1⟩ resumed (by decide)
  exact ⟨contexts, marks⟩

end StackReconstructor

end Tracey
