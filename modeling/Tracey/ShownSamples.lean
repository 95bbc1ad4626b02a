import Tracey.Samples
import Tracey.ShownExecution

/-!
# From samples to what a viewer shows

What a viewer shows of a thread is what has been recorded for it, and then the
ends of the functions that are still open. For a thread of which the slices
contain stack samples only, what has been recorded is the trail through the
samples: from each stack to the next with as few ends and begins as possible. So
somewhere in what the viewer shows of the thread exactly the functions of a
sample are open, for each sample, in the order of the samples.
-/

namespace Tracey

open BracketWord FxtWriter PerfScriptParser

/-- The symbols of a sampled stack. The outermost function comes first. -/
def StacktraceSampleData.symbols (st : StacktraceSampleData) : List Text :=
  st.callstack.map Location.symbol

namespace Handling

/-- Finishing a thread ends what is open behind what has been recorded. This is
the way from the last stack to the empty one. -/
theorem finish_marks (h : Handling) :
    h.finish.writes.flatMap (fun w => w.event.marks) =
      h.recorded.flatMap PendingEvent.marks ++ difference h.frames [] := by
  have ended : ((h.saved.flatMap Callstack.stack ++ h.stack).reverse.map leaveEvent).flatMap
      PendingEvent.marks = difference h.frames [] := by
    rw [difference_empty, frames, ← List.map_reverse, List.map_map, List.flatMap_map]
    exact List.flatMap_pure_eq_map _ _
  have written := h.finish_recorded
  rw [recorded_written h.finish h.finish_empty.2.2] at written
  rw [← List.flatMap_map, written, List.flatMap_append, ended]

/-- Over samples alone, from the beginning, the stack is the last of them, no
other stack is saved, and what is recorded is the trail through them.

Induct over the samples from the last one. -/
theorem live_samples (key : ThreadKey) {history : List (UInt64 × Work)}
    {samples : List StacktraceSampleData} (shown : history.map Prod.snd = samples.map .sample) :
    let h := (⟨key, {}, []⟩ : Handling).live history
    h.recorded.flatMap PendingEvent.marks = trail [] (samples.map StacktraceSampleData.symbols) ∧
      h.stack.map Location.symbol = (samples.map StacktraceSampleData.symbols).getLastD [] ∧
      h.saved = [] := by
  induction samples using List.reverseRecOn generalizing history with
  | nil =>
    obtain rfl := List.map_eq_nil_iff.mp shown
    exact ⟨rfl, rfl, rfl⟩
  | append_singleton before last inductionHypothesis =>
    rw [List.map_append] at shown
    obtain ⟨past, now, rfl, pastShown, nowShown⟩ := List.map_eq_append_iff.mp shown
    obtain ⟨input, rfl, work⟩ := List.map_eq_singleton_iff.mp nowShown
    obtain ⟨recorded, stack, saved⟩ := inductionHypothesis pastShown
    have arrived : (⟨key, {}, []⟩ : Handling).live (past ++ [input]) =
        (((⟨key, {}, []⟩ : Handling).live past).arrive input.1).processStacktrace input.1 last := by
      rw [live, List.foldl_append, List.foldl_cons, work]
      rfl
    generalize (⟨key, {}, []⟩ : Handling).live past = h at recorded stack saved arrived
    obtain ⟨emitted, -, kept⟩ := (h.arrive input.1).processStacktrace_emits input.1 last
    have reconciled := (h.arrive input.1).processStacktrace_reconciled input.1 last
    have same : (h.arrive input.1).recorded = h.recorded := rfl
    have active : (h.arrive input.1).stack = h.stack := rfl
    have now : ((h.arrive input.1).processStacktrace input.1 last).stack.map Location.symbol =
        last.symbols := reconciled.stack
    rw [arrived]
    dsimp only
    rw [List.map_append, List.map_singleton, List.getLastD_concat, trail_concat]
    refine ⟨?_, now, kept.trans saved⟩
    rw [emitted.recorded, List.flatMap_append, replaced_marks, same, active, recorded, stack]
    rfl

end Handling

/-- What is written for a thread is what has been recorded for it, and then the
ends of what is open. -/
theorem stamps_recorded (order : HashOrder) (events : List Event) (key : ThreadKey) :
    (stampsFor key (({} : Tracker).handed order events)).map Stamp.mark =
      (({} : Tracker).recordedFor key events).flatMap PendingEvent.marks ++
        difference
          (Handling.frames ⟨key, (({} : Tracker).processAll events).1.getThread key, []⟩) [] := by
  have state := (({} : Tracker).processAll_own events key).1
  have finished := ((⟨key, {}, []⟩ : Handling).live
    (Tracker.history (({} : Tracker).base events) key events)).finish_marks
  rw [stampsFor, Tracker.handed_own, List.map_flatMap, Tracker.recordedFor_live, state]
  simp only [Write.stamps_mark]
  exact finished

/-- If the slices of an output hold only stack samples of a thread, then a
viewer that opens the decoded file sees on that thread the trail from nothing
through the sampled stacks and back, each function under its shortened name. So
for each sample there is a point at which exactly its functions are open. -/
theorem samples_shown (surroundings : Surroundings) (level : Level) (workingDir output : Text)
    (sampling : Bool) (config : TraceFilter.Config) (key : ThreadKey)
    {samples : List StacktraceSampleData}
    (calm : stringIdLimitReached ∉
      (decodePerfData surroundings level workingDir output sampling config).stderr)
    (kept : (Tracker.timedOf key (config.kept (eventsOf (surroundings.printed
      (scriptCommand surroundings workingDir sampling))))).map Prod.snd = samples.map .sample) :
    ∃ seen, view (decodePerfData surroundings level workingDir output sampling config).trace =
        some seen ∧
      shownOn key seen = (trail [] (samples.map StacktraceSampleData.symbols ++ [[]])).map
        (Mark.map displayed) ∧
      ∀ before sample after, samples = before ++ sample :: after →
        ∃ early, early <+: shownOn key seen ∧
          walk [] early = some (sample.symbols.map displayed) := by
  obtain ⟨seen, read, shown⟩ := marks_shown calm
  have shown := shown key
  generalize config.kept (eventsOf (surroundings.printed (scriptCommand surroundings workingDir
    sampling))) = events at kept shown
  have history : (Tracker.history (({} : Tracker).base events) key events).map Prod.snd =
      samples.map .sample := by
    rw [Tracker.history_timed, List.map_map, ← kept]
    rfl
  obtain ⟨recorded, stack, saved⟩ := Handling.live_samples key history
  have whole : shownOn key seen =
      (trail [] (samples.map StacktraceSampleData.symbols ++ [[]])).map (Mark.map displayed) := by
    have frames : Handling.frames ⟨key, (({} : Tracker).processAll events).1.getThread key, []⟩ =
        (samples.map StacktraceSampleData.symbols).getLastD [] := by
      have state := (({} : Tracker).processAll_own events key).1
      rw [state, ← stack]
      change ((((⟨key, {}, []⟩ : Handling).live _).saved.flatMap Callstack.stack ++ _).map _) = _
      rw [saved]
      rfl
    rw [shown, stamps_recorded, frames, trail_concat, Tracker.recordedFor_live, ← recorded]
    rfl
  refine ⟨seen, read, whole, ?_⟩
  rintro before sample after rfl
  have split : (before ++ sample :: after).map StacktraceSampleData.symbols ++ [[]] =
      (before.map StacktraceSampleData.symbols ++ [sample.symbols]) ++
        (after.map StacktraceSampleData.symbols ++ [[]]) := by
    simp only [List.map_append, List.map_cons, List.append_assoc, List.cons_append, List.nil_append]
  refine ⟨(trail [] (before.map StacktraceSampleData.symbols ++ [sample.symbols])).map
    (Mark.map displayed), ?_, ?_⟩
  · rw [whole, split]
    exact (trail_front _ _ _).map _
  · have walked := walk_trail [] (before.map StacktraceSampleData.symbols ++ [sample.symbols])
    rw [List.getLastD_concat] at walked
    exact walk_map displayed walked

/-- The sample of the tests, and the one after the innermost function has
returned. -/
def sampledSession : Surroundings where
  isDirectory := fun _ => false
  printed := fun _ => printedText
    [.sample cyclesSample, .sample { cyclesSample with frames := cyclesSample.frames.tail }]
  ended := fun _ => .exited 0
  baseTimeNs := 0
  order := .listed

/-- The innermost function ends between the samples; the others live on. -/
theorem samples_shown_two :
    ∃ seen, view (decodePerfData sampledSession .normal (text "/tmp") (text "out.fxt") true
        {}).trace = some seen ∧
      shownOn ⟨2060126, 2060126⟩ seen =
        [.opening (some (text "main")), .opening (some (text "_dl_setup_hash")),
          .opening (some (text "[unknown]")), .closing (some (text "[unknown]")),
          .closing (some (text "_dl_setup_hash")), .closing (some (text "main"))] := by
  have kept : (Tracker.timedOf ⟨2060126, 2060126⟩ (({} : TraceFilter.Config).kept (eventsOf
      (sampledSession.printed (scriptCommand sampledSession (text "/tmp") true))))).map Prod.snd =
        ([⟨cyclesSample.frames.reverse.map (fun frame => frame.place.location)⟩,
          ⟨cyclesSample.frames.tail.reverse.map (fun frame => frame.place.location)⟩] :
            List StacktraceSampleData).map .sample := by
    rw [TraceFilter.kept_all rfl rfl, sampledSession, eventsOf_printed (by decide)]
    decide
  obtain ⟨seen, read, shown, -⟩ := samples_shown sampledSession .normal (text "/tmp")
    (text "out.fxt") true {} ⟨2060126, 2060126⟩ (by decide +kernel) kept
  refine ⟨seen, read, shown.trans ?_⟩
  decide +kernel

end Tracey
