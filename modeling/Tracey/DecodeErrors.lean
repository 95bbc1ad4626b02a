import Tracey.Unbuffered

/-!
# Decode errors

At a decode error every frame of a thread ends, and nothing is known of it until
the next event. The active stack is then empty, but it is still the one that was
created last of those unwound, with the time of its creation. A frame that is
inferred on it begins at that time, before the error, over the data that were
lost.

Frames begin after the error as long as no frame is inferred on a stack that was
created before it. A return from the kernel with no stack to restore dates the
empty stack anew; the clearing of all stacks does not.
-/

namespace Tracey

open BracketWord

namespace Handling

/-- Every operation of a script meets a condition on the state it finds. The
condition may look at the thread as it is when the operation's turn comes. -/
def ScriptMeets (condition : Handling → Operation → Prop) (time : UInt64) :
    Handling → List Operation → Prop
  | _, [] => True
  | h, operation :: rest =>
    condition h operation ∧ ScriptMeets condition time (h.perform time operation) rest

/-- Every operation of a thread's life meets a condition on the state it finds.
The end of the thread counts as well. -/
def LifeMeets (condition : Handling → Operation → Prop) : Handling → List (UInt64 × Work) → Prop
  | _, [] => True
  | h, (time, work) :: rest =>
    ScriptMeets condition time (h.arrive time) ((h.arrive time).script time work) ∧
      LifeMeets condition ((h.arrive time).handle time work) rest

/-- An operation infers no frame on a stack created before some time. Only these
operations are recorded at a time other than that of their event. -/
def InfersFrom (start : UInt64) (h : Handling) : Operation → Prop
  | .infer _ => start ≤ h.thread.callstack.createTime
  | _ => True

/-- Whether an operation infers no such frame can be computed. -/
instance (start : UInt64) (h : Handling) : (operation : Operation) →
    Decidable (h.InfersFrom start operation)
  | .infer _ => inferInstanceAs (Decidable (start ≤ _))
  | .call _ | .enter _ | .ret | .restore | .redate | .flush => inferInstanceAs (Decidable True)

section Meets

variable {condition : Handling → Operation → Prop}
  [∀ h operation, Decidable (condition h operation)]

/-- Whether a script meets a condition can be computed, if the condition can. -/
instance scriptMeetsDecidable (time : UInt64) : (h : Handling) → (operations : List Operation) →
    Decidable (h.ScriptMeets condition time operations)
  | _, [] => inferInstanceAs (Decidable True)
  | h, operation :: rest =>
    have := scriptMeetsDecidable time (h.perform time operation) rest
    inferInstanceAs (Decidable (condition h operation ∧ _))

/-- Whether a life meets a condition can be computed, if the condition can. -/
instance lifeMeetsDecidable : (h : Handling) → (history : List (UInt64 × Work)) →
    Decidable (h.LifeMeets condition history)
  | _, [] => inferInstanceAs (Decidable True)
  | h, (time, work) :: rest =>
    have := lifeMeetsDecidable ((h.arrive time).handle time work) rest
    inferInstanceAs (Decidable (ScriptMeets condition time _ _ ∧ _))

end Meets

/-- A script that infers nothing meets the condition. All other operations meet
it in any state. -/
theorem scriptMeets_uninferred (start time : UInt64) {operations : List Operation}
    (uninferred : ∀ loc, .infer loc ∉ operations) (h : Handling) :
    h.ScriptMeets (InfersFrom start) time operations := by
  induction operations generalizing h with
  | nil => trivial
  | cons operation rest inductionHypothesis =>
    constructor
    · cases operation with
      | infer loc => exact absurd List.mem_cons_self (uninferred loc)
      | call _ | enter _ | ret | restore | redate | flush => trivial
    · apply inductionHypothesis
      intro loc member
      exact uninferred loc (List.mem_cons_of_mem operation member)

/-- Finishing a thread infers nothing. It only leaves frames. -/
theorem finishScript_uninferred (h : Handling) (loc : Location) : .infer loc ∉ h.finishScript := by
  simp [finishScript, clearScript, savedScript]

end Handling

/-- The calls performed behind a cut are dated no earlier than some time, and no
later event will be. -/
structure Unbuffered.LateSince (cut : Nat) (start : UInt64) (u : Unbuffered) : Prop where
  current : start ≤ u.lastEventTime
  calls : ∀ p ∈ u.performed.drop cut, p.event.kind = .call → start ≤ p.time

/-- Performing something is no event. -/
theorem Unbuffered.follow_lastEventTime (u : Unbuffered) (time : UInt64)
    (operations : List Operation) :
    (u.follow time operations).lastEventTime = u.lastEventTime := by
  induction operations generalizing u with
  | nil => rfl
  | cons operation rest inductionHypothesis =>
    apply (inductionHypothesis (u.perform time operation)).trans
    cases operation with
    | restore =>
      simp only [perform]
      split <;> rfl
    | call _ | infer _ | enter _ | ret | redate | flush => rfl

/-- Nothing is performed yet behind the present, which is the time of the last
event. -/
theorem Unbuffered.late_now (u : Unbuffered) (history : List (UInt64 × Work)) (time : UInt64)
    (work : Work) : (u.live (history ++ [(time, work)])).LateSince
      (u.live (history ++ [(time, work)])).performed.length time := by
  constructor
  · rw [live, List.foldl_append, List.foldl_cons, List.foldl_nil, follow_lastEventTime]
    exact UInt64.le_refl time
  · intro p member
    rw [List.drop_length] at member
    cases member

namespace Unbuffered.LateSince

variable {cut : Nat} {start : UInt64} {u : Unbuffered} {h : Handling}

/-- Performing at a later time keeps the calls late. -/
theorem record (late : u.LateSince cut start) (time : UInt64) (event : PendingEvent)
    (stack : List Location) (begun : event.kind = .call → start ≤ time) :
    (u.record time event stack).LateSince cut start := by
  refine ⟨late.current, ?_⟩
  intro p member call
  simp only [Unbuffered.record, List.drop_append] at member
  rcases List.mem_append.mp member with old | new
  · exact late.calls p old call
  · rw [List.mem_singleton.mp (List.mem_of_mem_drop new)] at call ⊢
    exact begun call

/-- What a return records is no call. This is so with a frame and without one. -/
theorem ret_kind (callstack : Callstack) : (Handling.retEvent callstack).kind ≠ .call := by
  unfold Handling.retEvent
  split <;> exact PendingKind.noConfusion

/-- Every operation keeps the calls late, as long as it infers no frame on an
older stack. Calls are dated now, and inferred ones when their stack was made. -/
theorem perform (late : u.LateSince cut start) (buffers : Buffers h u) (time : UInt64)
    (past : start ≤ time) {operation : Operation} (infers : h.InfersFrom start operation) :
    (u.perform time operation).LateSince cut start := by
  cases operation with
  | call loc => exact late.record _ _ _ (fun _ => past)
  | infer loc =>
    apply late.record
    intro _
    rw [buffers.callstack]
    exact infers
  | enter loc =>
    have entered : ({ u with
        inactiveCallstacks := u.inactiveCallstacks ++ [u.callstack]
        callstack := { createTime := time } } : Unbuffered).LateSince cut start :=
      ⟨late.current, late.calls⟩
    exact entered.record _ _ _ (fun _ => past)
  | ret => exact late.record _ _ _ (fun call => absurd call (ret_kind _))
  | restore =>
    simp only [Unbuffered.perform]
    split
    · exact ⟨late.current, late.calls⟩
    · exact late
  | redate => exact ⟨late.current, late.calls⟩
  | flush => exact late

/-- So does every script. -/
theorem follow (late : u.LateSince cut start) (buffers : Buffers h u) (time : UInt64)
    (past : start ≤ time) {operations : List Operation}
    (meets : h.ScriptMeets (Handling.InfersFrom start) time operations) :
    (u.follow time operations).LateSince cut start := by
  induction operations generalizing h u with
  | nil => exact late
  | cons operation rest inductionHypothesis =>
    exact inductionHypothesis (late.perform buffers time past meets.1)
      (buffers.perform time operation) meets.2

/-- A life keeps its calls behind a time if its events are, and infers nothing
before. -/
theorem live (late : u.LateSince cut start) (buffers : Buffers h u)
    {history : List (UInt64 × Work)} (past : ∀ input ∈ history, start ≤ input.1)
    (meets : h.LifeMeets (Handling.InfersFrom start) history) :
    (u.live history).LateSince cut start := by
  induction history generalizing h u with
  | nil => exact late
  | cons input rest inductionHypothesis =>
    have reached := past input List.mem_cons_self
    have arrived : Buffers (h.arrive input.1) { u with lastEventTime := input.1 } :=
      ⟨buffers.callstack, buffers.saved, rfl, buffers.performed⟩
    have planned : (h.arrive input.1).script input.1 input.2 = u.view.script input.1 input.2 :=
      arrived.view.script input.1 input.1 input.2
    have lateArrived : ({ u with lastEventTime := input.1 } : Unbuffered).LateSince cut start :=
      ⟨reached, late.calls⟩
    have first := lateArrived.follow arrived input.1 reached meets.1
    rw [planned] at first
    exact inductionHypothesis first (buffers.live [input])
      (fun other member => past other (List.mem_cons_of_mem input member)) meets.2

/-- So does finishing, which begins nothing. -/
theorem finish (late : u.LateSince cut start) (buffers : Buffers h u) :
    u.finish.LateSince cut start := by
  apply late.follow buffers u.lastEventTime late.current
  rw [← buffers.view.finishScript]
  exact Handling.scriptMeets_uninferred _ _ h.finishScript_uninferred h

/-- What is written of calls behind the cut comes no earlier either. A write is
never earlier than its operation. -/
theorem written (late : u.LateSince cut start) {writes : List Write}
    (pairs : List.Forall₂ Performed.WrittenAs u.performed writes) :
    ∀ w ∈ writes.drop cut, w.event.kind = .call → start ≤ w.time := by
  intro w member call
  obtain ⟨position, inside, rfl⟩ := List.mem_iff_getElem.mp member
  have behind := List.forall₂_drop cut pairs
  obtain ⟨same, noEarlier⟩ := behind.get (behind.length_eq ▸ inside) inside
  refine UInt64.le_trans (late.calls _ (List.get_mem _ _) ?_) noEarlier
  rw [← same]
  exact call

/-- Behind an input at some time, a life whose further inputs come no earlier
and that infers nothing before calls nothing before, through its end. -/
theorem whole (key : ThreadKey) (past future : List (UInt64 × Work)) (time : UInt64) (work : Work)
    (later : ∀ input ∈ future, time ≤ input.1)
    (inferred : ((⟨key, {}, []⟩ : Handling).live (past ++ [(time, work)])).LifeMeets
      (Handling.InfersFrom time) future) :
    (({} : Unbuffered).live (past ++ (time, work) :: future)).finish.LateSince
      ((⟨key, {}, []⟩ : Handling).live (past ++ [(time, work)])).recorded.length time := by
  have buffers := (Buffers.fresh key).live (past ++ [(time, work)])
  have now := late_now {} past time work
  rw [buffers.length_performed] at now
  have split : ({} : Unbuffered).live (past ++ (time, work) :: future) =
      (({} : Unbuffered).live (past ++ [(time, work)])).live future := by
    rw [List.append_cons]
    exact List.foldl_append
  rw [split]
  exact (now.live buffers later inferred).finish (buffers.live future)

end Unbuffered.LateSince

namespace Tracker

/-- What a decode error at a time ends: all frames, those of the active stack
first and then those of the saved ones from the most recent, each stack from its
top. -/
def errorEnds (ti : ThreadInfo) : List PendingEvent :=
  (ti.callstack.stack.reverse ++
    ti.inactiveCallstacks.reverse.flatMap (fun callstack => callstack.stack.reverse)).map
      Handling.leaveEvent

/-- A decode error that has a time is an event that is handled. -/
theorem decodeError_due (error : DecodeError) {timeNs : UInt64}
    (timed : error.timeNs = some timeNs) :
    (Event.decodeError error).timed = some (timeNs, .lost) := by
  rw [Event.timed, timed]
  rfl

/-- A decode error, from any state: the frames of its thread end, nothing else
is recorded, no stack is left and the other threads are as they were. -/
theorem decodeError_ends (t : Tracker) (error : DecodeError) {timeNs : UInt64}
    (timed : error.timeNs = some timeNs) :
    let key : ThreadKey := ⟨error.pid, error.tid⟩
    let after := (t.processEvent (.decodeError error)).1
    t.recordedFor key [.decodeError error] =
        (t.getThread key).pendingEvents ++ errorEnds (t.getThread key) ∧
      (after.getThread key).callstack.stack = [] ∧
      (after.getThread key).inactiveCallstacks = [] ∧
      ∀ other, other ≠ key → after.getThread other = t.getThread other ∧
        t.recordedFor other [.decodeError error] = (t.getThread other).pendingEvents := by
  intro key after
  have due := decodeError_due error timed
  have received : history (t.base [.decodeError error]) key [.decodeError error] =
      [(t.mapTime timeNs, .lost)] := by
    rw [base_cons_timed t due]
    exact history_single _ due
  let h := (⟨key, t.getThread key, []⟩ : Handling).arrive (t.mapTime timeNs)
  have state : after.getThread key = (h.clearAllCallstacks (t.mapTime timeNs)).thread := by
    have own := (t.processAll_own [.decodeError error] key).1
    rwa [received] at own
  obtain ⟨active, saved⟩ := h.clearAllCallstacks_empty (t.mapTime timeNs)
  refine ⟨?_, ?_, ?_, ?_⟩
  · rw [recordedFor_live, received]
    refine (Handling.Emitted.none h (t.mapTime timeNs)).clearAllCallstacks.recorded.trans ?_
    rw [errorEnds, List.nil_append, List.reverse_append, List.reverse_flatMap]
    rfl
  · rw [state]
    exact active
  · rw [state]
    exact saved
  · intro other different
    obtain ⟨same, silent⟩ := t.processAll_own [.decodeError error] other
    have unheard : history (t.base [.decodeError error]) other [.decodeError error] = [] :=
      history_foreign _ (Ne.symm different)
    rw [unheard] at same silent
    refine ⟨same, ?_⟩
    rw [recordedFor_live, unheard]
    rfl

/-- The thread that a decode error concerns. -/
def errorThread (error : DecodeError) : ThreadKey := ⟨error.pid, error.tid⟩

section Around

variable {error : DecodeError} {timeNs : UInt64} (timed : error.timeNs = some timeNs)
include timed

/-- The base, and with it every mapped time, is settled when an error is past.
The future of the trace does not change it. -/
theorem base_settled (past future : List Event) :
    ({} : Tracker).base (past ++ .decodeError error :: future) =
      ((({} : Tracker).processAll past).1.setBase timeNs).baseTime := by
  rw [← processAll_base, base_cons_timed _ (decodeError_due error timed)]

/-- The inputs of a thread around an error. The error itself is one of them. -/
theorem history_error (start : UInt64) (past future : List Event) :
    history start (errorThread error) (past ++ .decodeError error :: future) =
      history start (errorThread error) past ++
        (timeNs - start, .lost) :: history start (errorThread error) future := by
  have single : history start (errorThread error) [.decodeError error] =
      [(timeNs - start, .lost)] := history_single start (decodeError_due error timed)
  rw [List.append_cons, history_append, history_append, single, ← List.append_cons]

/-- In order of time, the inputs behind an error come no earlier. Inputs of the
same time may be among them. -/
theorem history_later {past future : List Event}
    (chronological : Chronological (past ++ .decodeError error :: future)) :
    ∀ input ∈ history (({} : Tracker).base (past ++ .decodeError error :: future))
        (errorThread error) future,
      timeNs - ({} : Tracker).base (past ++ .decodeError error :: future) ≤ input.1 := by
  intro input member
  have sorted := history_sorted chronological (errorThread error)
  rw [history_error timed, List.map_append, List.map_cons, List.pairwise_append] at sorted
  exact (List.pairwise_cons.mp sorted.2.1).1 _ (List.mem_map_of_mem member)

end Around

/-- A decode error is a clean cut of a run from its start through `finish`. All
that was open ends there, and nothing behind it begins earlier. -/
structure CleanCut (order : HashOrder) (past future : List Event) (error : DecodeError)
    (timeNs : UInt64) : Prop where
  /-- Every frame that is open ends, and nothing else is recorded. -/
  ends : let t := (({} : Tracker).processAll past).1
    t.recordedFor (errorThread error) [.decodeError error] =
      (t.getThread (errorThread error)).pendingEvents ++ errorEnds (t.getThread (errorThread error))
  active : ((({} : Tracker).processAll (past ++ [.decodeError error])).1.getThread
    (errorThread error)).callstack.stack = []
  saved : ((({} : Tracker).processAll (past ++ [.decodeError error])).1.getThread
    (errorThread error)).inactiveCallstacks = []
  others : let t := (({} : Tracker).processAll past).1
    ∀ other, other ≠ errorThread error →
      (t.processEvent (.decodeError error)).1.getThread other = t.getThread other ∧
        t.recordedFor other [.decodeError error] = (t.getThread other).pendingEvents
  /-- The begins written of what is recorded behind the error are no earlier than it. -/
  begins : ∀ w ∈ ((({} : Tracker).handed order (past ++ .decodeError error :: future)).filter
      (fun w => w.thread = errorThread error)).drop
        (({} : Tracker).recordedFor (errorThread error) (past ++ [.decodeError error])).length,
    w.event.kind = .call → (({} : Tracker).processAll past).1.mapTime timeNs ≤ w.time

/-- A decode error is a clean cut when no frame is inferred behind it on a stack
that was created before it. -/
theorem decodeError_cuts (order : HashOrder) (past future : List Event) (error : DecodeError)
    {timeNs : UInt64} (timed : error.timeNs = some timeNs)
    (chronological : Chronological (past ++ .decodeError error :: future))
    (inferred : ((⟨errorThread error, {}, []⟩ : Handling).live
        (history (({} : Tracker).base (past ++ .decodeError error :: future)) (errorThread error)
          (past ++ [.decodeError error]))).LifeMeets
      (Handling.InfersFrom ((({} : Tracker).processAll past).1.mapTime timeNs))
      (history (({} : Tracker).base (past ++ .decodeError error :: future)) (errorThread error)
        future)) :
    CleanCut order past future error timeNs := by
  obtain ⟨ends, active, saved, others⟩ :=
    (({} : Tracker).processAll past).1.decodeError_ends error timed
  have last : (({} : Tracker).processAll (past ++ [.decodeError error])).1 =
      ((({} : Tracker).processAll past).1.processEvent (.decodeError error)).1 := by
    rw [processAll_append]
    rfl
  refine ⟨ends, last ▸ active, last ▸ saved, others, ?_⟩
  have later := history_later timed chronological
  have recorded := recordedFor_live {} (errorThread error) (past ++ [.decodeError error])
  have pairs := performedFor_written order (past ++ .decodeError error :: future) (errorThread error)
  have mapped : (({} : Tracker).processAll past).1.mapTime timeNs =
      timeNs - ((({} : Tracker).processAll past).1.setBase timeNs).baseTime := rfl
  rw [base_settled timed, history_error timed] at inferred recorded
  rw [base_settled timed] at later
  rw [performedFor, base_settled timed, history_error timed] at pairs
  rw [mapped] at inferred ⊢
  rw [recorded]
  exact (Unbuffered.LateSince.whole (errorThread error) _ _ _ _ later inferred).written pairs

/-- A function runs, an error follows, and the thread calls again from a kernel
entry. -/
theorem decodeError_cuts_entry :
    let f : Location := { symbol := text "f" }
    let event (timeNs : UInt64) (data : BranchData) : Event :=
      .ok { pid := 1, tid := 1, timeNs, data := .branch data }
    CleanCut .listed [event 5 { traceState := .start, dst := f }]
      [event 20 { kind := some .syscall, dst := f }] { pid := 1, tid := 1, timeNs := some 15 } 15 := by
  intro f event
  apply decodeError_cuts
  · rfl
  · rw [Chronological]
    decide
  · decide

/-- A function runs and an error follows; the next function is then inferred on
the stack that was there before the error, and begins when that stack was
created. -/
theorem decodeError_not_cut :
    let f : Location := { symbol := text "f" }
    let g : Location := { symbol := text "g" }
    let event (timeNs : UInt64) (data : BranchData) : Event :=
      .ok { pid := 1, tid := 1, timeNs, data := .branch data }
    let past := [event 5 { traceState := .start, dst := f }]
    let error : DecodeError := { pid := 1, tid := 1, timeNs := some 15 }
    let future := [event 20 { kind := some .jump, src := f, dst := g }]
    Chronological (past ++ .decodeError error :: future) ∧
      ¬ CleanCut .listed past future error 15 := by
  intro f g event past error future
  constructor
  · rw [Chronological]
    decide
  · intro cut
    have begins := cut.begins
    revert begins
    decide

end Tracker

end Tracey
