import Tracey.Timing

/-!
# Visits to the kernel

A branch into the kernel saves the active stack, and a branch out of it empties
the active stack and restores the one saved last. In between nothing reaches
through the active stack into the saved ones: a return without a frame, the
repair of the top frame and the reconciliation with a sample all stop where the
active stack ends.

So what a thread does while the entries and exits after an entry are bracketed
stays above the stacks that were saved then, and the exit that closes the visit
finds them as they were.
-/

namespace Tracey

open BracketWord

namespace BranchData

/-- A branch into the kernel, while the trace goes on. Its kind says so; the
address does not matter. -/
def EntersKernel (br : BranchData) : Prop :=
  br.traceState = .none ∧ (br.kind = some .syscall ∨ br.kind = some .hardwareInterrupt)

/-- A branch out of the kernel, while the trace goes on. It is the counterpart
of either way in. -/
def LeavesKernel (br : BranchData) : Prop :=
  br.traceState = .none ∧ (br.kind = some .sysret ∨ br.kind = some .iret)

end BranchData

/-- The entry into the kernel or exit from it that a kind of branch stands for.
All other kinds stay on their side. -/
def BranchKind.crossings : BranchKind → List (Mark Unit)
  | .syscall | .hardwareInterrupt => [.opening ()]
  | .iret | .sysret => [.closing ()]
  | _ => []

/-- The entries and exits that the work of an event shows. The end of a trace
shows none. -/
def Work.crossings : Work → List (Mark Unit)
  | .branch br => if br.traceState = .end then [] else (br.kind.elim [] BranchKind.crossings)
  | _ => []

namespace Handling

section Above

variable {base upper : List Callstack} {start : List PendingEvent} {h : Handling}

/-- The repair of the top frame infers a frame or replaces one. It never looks
below the active stack. -/
theorem Above.checkCurrentSymbol (above : Above base start upper h) (time : UInt64)
    (loc : Location) : Above base start upper (h.checkCurrentSymbol time loc) := by
  unfold Handling.checkCurrentSymbol
  split
  · exact above.call _ loc true
  · split
    · exact (above.ret time).call time loc false
    · exact above

/-- Leaving frames stops where the active stack ends. What waits below it is not
reached. -/
theorem Above.popDownTo (above : Above base start upper h) (time : UInt64) (count fuel : Nat) :
    Above base start upper (popDownTo time count fuel h) := by
  induction fuel generalizing h with
  | zero => exact above
  | succ fuel inductionHypothesis =>
    rw [Handling.popDownTo]
    split
    · exact inductionHypothesis (above.ret time)
    · exact above

/-- Leaving untraced code stops where the active stack ends. The marker is on
the active stack, if anywhere. -/
theorem Above.resume (above : Above base start upper h) (time : UInt64) :
    Above base start upper (h.resume time) := by
  unfold Handling.resume
  split
  · exact above.ret time
  · exact above

/-- Calls open frames above those that are open already. -/
theorem Above.calls (above : Above base start upper h) (time : UInt64) (locs : List Location) :
    Above base start upper (locs.foldl (fun h loc => h.call time loc) h) := by
  induction locs generalizing h with
  | nil => exact above
  | cons loc rest inductionHypothesis => exact inductionHypothesis (above.call time loc false)

/-- Leaving the kernel over a stack saved since goes on in that one. The
function it was interrupted in is checked against the target. -/
theorem Above.leave {rest : List Callstack} {last : Callstack}
    (above : Above base start (rest ++ [last]) h) (time : UInt64) (loc : Location) :
    (h.clearCallstack time).saved.getLast? = some last ∧
      Above base start rest
        (((h.clearCallstack time).restore last).checkCurrentSymbol time loc) := by
  have cleared : Above base start (rest ++ [last]) (h.clearCallstack time) :=
    above.popDownTo time 0 _
  have empty : (h.clearCallstack time).stack = [] := by
    rw [stack, (h.clearCallstack_stays time).1]
  obtain ⟨top, restored⟩ := cleared.restore empty
  exact ⟨top, restored.checkCurrentSymbol time loc⟩

/-- The branch kinds move the stacks saved since by their entry or exit. An exit
needs a stack that was saved since. -/
theorem Above.processKind (above : Above base start upper h) (time : UInt64) (br : BranchData)
    (room : closings (br.kind.elim [] BranchKind.crossings) ≤
      upper.length + openings (br.kind.elim [] BranchKind.crossings)) :
    ∃ later, Above base start later (h.processKind time br) ∧
      later.length + closings (br.kind.elim [] BranchKind.crossings) =
        upper.length + openings (br.kind.elim [] BranchKind.crossings) := by
  cases kind : br.kind with
  | none =>
    simp only [Handling.processKind, kind]
    exact ⟨upper, above, rfl⟩
  | some branchKind =>
    rw [kind] at room
    cases branchKind with
    | call =>
      simp only [Handling.processKind, kind]
      exact ⟨upper, (above.checkCurrentSymbol time br.src).call time br.dst false, rfl⟩
    | «return» =>
      simp only [Handling.processKind, kind]
      exact ⟨upper, (above.ret time).checkCurrentSymbol time br.dst, rfl⟩
    | syscall | hardwareInterrupt =>
      simp only [Handling.processKind, kind]
      refine ⟨_, (above.save time).call time br.dst false, ?_⟩
      exact List.length_append
    | iret | sysret =>
      rcases List.eq_nil_or_concat' upper with rfl | ⟨rest, last, rfl⟩
      · exact absurd room (by decide)
      · obtain ⟨top, left⟩ := above.leave time br.dst
        simp only [Handling.processKind, kind, top]
        refine ⟨rest, left, ?_⟩
        rw [List.length_append]
        rfl
    | jump | interrupt | async | txAbort =>
      simp only [Handling.processKind, kind]
      exact ⟨upper, above.checkCurrentSymbol time br.dst, rfl⟩

/-- The work of an event moves the stacks saved since by its entries and exits.
A decode error is left out, since it closes what waits. -/
theorem Above.handle (above : Above base start upper h) (time : UInt64) {work : Work}
    (traced : work ≠ .lost)
    (room : closings work.crossings ≤ upper.length + openings work.crossings) :
    ∃ later, Above base start later (h.handle time work) ∧
      later.length + closings work.crossings = upper.length + openings work.crossings := by
  cases work with
  | lost => exact absurd rfl traced
  | sample st =>
    refine ⟨upper, ?_, rfl⟩
    exact (above.popDownTo time _ _).calls time _
  | branch br =>
    simp only [Handling.handle, processBranch, Work.crossings] at room ⊢
    cases state : br.traceState with
    | none =>
      rw [state] at room
      exact above.processKind time br room
    | start =>
      rw [state] at room
      exact ((above.resume time).checkCurrentSymbol time br.dst).processKind time br room
    | «end» => exact ⟨upper, above.call time { symbol := untracedSymbol } false, rfl⟩

/-- A life in which no exit lacks its entry stays above.

Induct over the history; the stacks saved since are as many as the entries that
are still open. -/
theorem Above.live (above : Above base start upper h) (history : List (UInt64 × Work))
    (traced : ∀ input ∈ history, input.2 ≠ .lost)
    (room : ∀ before after, history = before ++ after →
      closings (before.flatMap (fun input => input.2.crossings)) ≤
        upper.length + openings (before.flatMap (fun input => input.2.crossings))) :
    ∃ later, Above base start later (h.live history) ∧
      later.length + closings (history.flatMap (fun input => input.2.crossings)) =
        upper.length + openings (history.flatMap (fun input => input.2.crossings)) := by
  induction history generalizing h upper with
  | nil => exact ⟨upper, above, rfl⟩
  | cons input rest inductionHypothesis =>
    have arrived : Above base start upper (h.arrive input.1) := ⟨above.saved, above.word⟩
    obtain ⟨middle, handled, first⟩ := arrived.handle input.1
      (traced input List.mem_cons_self) (by simpa using room [input] rest rfl)
    obtain ⟨later, lived, others⟩ := inductionHypothesis handled
      (fun other member => traced other (List.mem_cons_of_mem input member)) (by
        intro before after split
        have whole := room (input :: before) after (congrArg (input :: ·) split)
        simp only [List.flatMap_cons, closings_append, openings_append] at whole
        omega)
    refine ⟨later, lived, ?_⟩
    simp only [List.flatMap_cons, closings_append, openings_append]
    omega

end Above

/-- Right after an entry nothing is open above the stacks that wait. The
function in the kernel is the first that is. -/
theorem enter_above (h : Handling) (time : UInt64) {into : BranchData}
    (enters : into.EntersKernel) :
    Above (h.saved ++ [h.thread.callstack]) h.recorded [] (h.handle time (.branch into)) := by
  have saved : Above (h.saved ++ [h.thread.callstack]) h.recorded [] (h.save time) :=
    ⟨(List.append_nil _).symm, [], (List.append_nil _).symm, rfl⟩
  have entered := saved.call time into.dst false
  obtain ⟨state, kind | kind⟩ := enters <;>
    simpa only [handle, processBranch, state, Handling.processKind, kind] using entered

/-- An exit over the stacks that waited goes on in the last of them, as it was.
It has the frames and the creation time it was put aside with. -/
theorem leave_restores {h : Handling} {saved : List Callstack} {callstack : Callstack}
    {start : List PendingEvent} (above : Above (saved ++ [callstack]) start [] h) (time : UInt64)
    {out : BranchData} {top : Location} (executing : callstack.stack.getLast? = some top)
    (leaves : out.LeavesKernel) (resumes : out.dst.symbol = top.symbol) :
    (h.handle time (.branch out)).thread.callstack = callstack ∧
      (h.handle time (.branch out)).saved = saved ∧
      ∃ between, (h.handle time (.branch out)).recorded = start ++ between ∧
        WellNested (between.flatMap PendingEvent.marks) := by
  have cleared := above.popDownTo time 0 h.stack.length
  have empty : (h.clearCallstack time).stack = [] := by
    rw [stack, (h.clearCallstack_stays time).1]
  have waiting : (h.clearCallstack time).saved = saved ++ [callstack] :=
    cleared.saved.trans (List.append_nil _)
  have last : (h.clearCallstack time).thread.inactiveCallstacks.getLast? = some callstack :=
    (congrArg List.getLast? waiting).trans List.getLast?_concat
  have silent : ((h.clearCallstack time).restore callstack).checkCurrentSymbol time out.dst =
      (h.clearCallstack time).restore callstack := by
    have equal : ¬ top.symbol ≠ out.dst.symbol := fun different => different resumes.symm
    have found : ((h.clearCallstack time).restore callstack).thread.callstack.stack.getLast? =
        some top := executing
    simp only [checkCurrentSymbol, found, if_neg equal]
  have same : h.handle time (.branch out) = (h.clearCallstack time).restore callstack := by
    obtain ⟨state, kind | kind⟩ := leaves <;>
      simp only [handle, processBranch, state, processKind, kind, last, silent]
  obtain ⟨between, whole, walked⟩ := cleared.word
  have closed : walk [] (between.flatMap PendingEvent.marks) = some [] := by
    refine walked.trans ?_
    exact congrArg (fun stack => some (List.map Location.symbol stack)) empty
  rw [same]
  refine ⟨rfl, ?_, between, whole, wellNested_of_walk closed⟩
  exact ((h.clearCallstack time).perform_restore time waiting).2

/-- A visit to the kernel: an entry, a life whose entries and exits are
bracketed, and an exit to the function that was interrupted. -/
theorem visit_restores (h : Handling) {into out : BranchData} {top : Location}
    (executing : h.stack.getLast? = some top) (enters : into.EntersKernel)
    (leaves : out.LeavesKernel) (resumes : out.dst.symbol = top.symbol)
    (enterTime leaveTime : UInt64) {history : List (UInt64 × Work)}
    (traced : ∀ input ∈ history, input.2 ≠ .lost)
    (bracketed : Balanced (history.flatMap (fun input => input.2.crossings))) :
    let visited := h.live ((enterTime, .branch into) :: (history ++ [(leaveTime, .branch out)]))
    visited.thread.callstack = h.thread.callstack ∧ visited.saved = h.saved ∧
      ∃ between, visited.recorded = h.recorded ++ between ∧
        WellNested (between.flatMap PendingEvent.marks) := by
  intro visited
  have entered := (h.arrive enterTime).enter_above enterTime enters
  obtain ⟨later, inside, count⟩ := entered.live history traced (by
    rintro before after rfl
    rw [List.length_nil, Nat.zero_add]
    exact bracketed.never _ _ List.flatMap_append)
  have ended : later = [] := by
    rw [bracketed.level, List.length_nil, Nat.zero_add] at count
    exact List.length_eq_zero_iff.mp (Nat.add_eq_right.mp count)
  subst ended
  have arrived : ∀ {h : Handling} {base : List Callstack} {start : List PendingEvent},
      Above base start [] h → Above base start [] (h.arrive leaveTime) :=
    fun above => ⟨above.saved, above.word⟩
  have left := leave_restores (arrived inside) leaveTime executing leaves resumes
  have whole : visited = ((((h.arrive enterTime).handle enterTime (.branch into)).live
      history).arrive leaveTime).handle leaveTime (.branch out) := by
    simp only [visited, live_cons]
    exact List.foldl_append
  rw [whole]
  exact left

end Handling

namespace Tracker

/-- From any state, a visit of a thread to the kernel restores the stack it
interrupted.

The thread executes a function, enters the kernel, does anything but lose data,
with its further entries and exits bracketed, and leaves the kernel to the
function that was executing; other threads do what they like. Then the active
stack, with its creation time, and the saved ones are what they were, and what
was recorded meanwhile begins and ends frames of its own only, and all of them. -/
theorem kernel_visit_restores (t : Tracker) (pid tid : UInt32) {into out : BranchData}
    {top : Location}
    (executing : (t.getThread ⟨pid, tid⟩).callstack.stack.getLast? = some top)
    (enters : into.EntersKernel) (leaves : out.LeavesKernel)
    (resumes : out.dst.symbol = top.symbol) (enterNs leaveNs : UInt64) (middle : List Event)
    (traced : ∀ timed ∈ timedOf ⟨pid, tid⟩ middle, timed.2 ≠ .lost)
    (bracketed : Balanced ((timedOf ⟨pid, tid⟩ middle).flatMap
      (fun timed => timed.2.crossings))) :
    let enter : Event := .ok { pid, tid, timeNs := enterNs, data := .branch into }
    let leave : Event := .ok { pid, tid, timeNs := leaveNs, data := .branch out }
    let visit := enter :: (middle ++ [leave])
    let before := t.getThread ⟨pid, tid⟩
    let after := (t.processAll visit).1.getThread ⟨pid, tid⟩
    after.callstack = before.callstack ∧
      after.inactiveCallstacks = before.inactiveCallstacks ∧
      ∃ between, t.recordedFor ⟨pid, tid⟩ visit = before.pendingEvents ++ between ∧
        WellNested (between.flatMap PendingEvent.marks) := by
  intro enter leave visit before after
  have shown : timedOf ⟨pid, tid⟩ visit = (enterNs, .branch into) ::
      (timedOf ⟨pid, tid⟩ middle ++ [(leaveNs, .branch out)]) := by
    simp [timedOf, visit, enter, leave, Event.thread, Event.timed]
  generalize based : t.base visit = base
  have inputs : history base ⟨pid, tid⟩ visit = (enterNs - base, .branch into) ::
      (history base ⟨pid, tid⟩ middle ++ [(leaveNs - base, .branch out)]) := by
    rw [history_timed, history_timed, shown, List.map_cons, List.map_append]
    rfl
  have middleTraced : ∀ input ∈ history base ⟨pid, tid⟩ middle, input.2 ≠ .lost := by
    intro input member
    rw [history_timed] at member
    obtain ⟨timed, inside, rfl⟩ := List.mem_map.mp member
    exact traced timed inside
  have middleBracketed : Balanced ((history base ⟨pid, tid⟩ middle).flatMap
      (fun input => input.2.crossings)) := by
    rw [history_timed, List.flatMap_map]
    exact bracketed
  obtain ⟨active, saved, recorded⟩ := Handling.visit_restores ⟨⟨pid, tid⟩, before, []⟩ executing
    enters leaves resumes (enterNs - base) (leaveNs - base) middleTraced middleBracketed
  rw [← inputs] at active saved recorded
  have state := (t.processAll_own visit ⟨pid, tid⟩).1
  rw [based] at state
  rw [recordedFor_live, based]
  refine ⟨?_, ?_, recorded⟩
  · exact (congrArg ThreadInfo.callstack state).trans active
  · exact (congrArg ThreadInfo.inactiveCallstacks state).trans saved

/-- A function enters the kernel, which calls a function, is interrupted,
returns further than it was entered and goes on; a sample is taken on the way. -/
theorem kernel_visit_restores_interrupted :
    let event (timeNs : UInt64) (data : BranchData) : Event :=
      .ok { pid := 1, tid := 1, timeNs, data := .branch data }
    let f : Location := { symbol := text "f" }
    let k : Location := { symbol := text "k" }
    let into : BranchData := { kind := some .syscall, src := f, dst := k }
    let out : BranchData := { kind := some .sysret, src := k, dst := f }
    let middle := [event 7 { kind := some .hardwareInterrupt, src := k, dst := k },
      event 7 { kind := some .return, src := k, dst := f },
      event 6 { kind := some .return, src := k, dst := {} },
      event 8 { kind := some .iret, src := k, dst := k },
      .ok { pid := 1, tid := 1, timeNs := 9, data := .stacktraceSample { callstack := [f, k] } },
      event 9 { kind := some .sysret, traceState := .end, src := k, dst := f }]
    let t := (({} : Tracker).processAll [event 5 { traceState := .start, dst := f }]).1
    let after := (t.processAll (event 6 into :: (middle ++ [event 10 out]))).1.getThread ⟨1, 1⟩
    after.callstack = ⟨[f], 0⟩ ∧ after.inactiveCallstacks = [] := by
  intro event f k into out middle t after
  have bracketed : Balanced ((timedOf ⟨1, 1⟩ middle).flatMap (fun timed => timed.2.crossings)) :=
    (wellNested_of_walk (by decide)).toBalanced
  obtain ⟨active, saved, _⟩ := @kernel_visit_restores t 1 1 into out f rfl ⟨rfl, .inl rfl⟩
    ⟨rfl, .inl rfl⟩ rfl 6 10 middle (by decide) bracketed
  exact ⟨active, saved⟩

end Tracker

end Tracey
