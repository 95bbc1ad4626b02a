import Tracey.WrittenEvents

/-!
# Thread references

However many threads share the 255 slots, and however often they are recycled, a
slot belongs to one thread at a time and the reader knows which. The wrap of the
8-bit slot counter plays no role: only the slot that it yields is reclaimed, and
its previous owner leaves the table when the new one is announced.
-/

namespace Tracey

open FiniteMap FxtWriter

namespace StackReconstructor

/-- Every event of a reconstructed trace is attributed to the thread it was
handed over for. -/
theorem outlines_threads (before : List WriterCall) (order : HashOrder) (events : List Event) :
    (outlines before order events).map Outline.thread =
      (({} : Tracker).handed order events).flatMap (fun w =>
        w.stamps.map (fun _ => some w.thread.widen)) := by
  rw [outlines_eq, List.map_flatMap]
  congr 1
  funext w
  rw [List.map_map]
  rfl

end StackReconstructor

namespace FxtWriter

/-- A duration event written for a thread is attributed to it. The slot in the
event resolves to it at this place of the file. -/
theorem emitEvent_thread {w : FxtWriter} (coherent : Coherent w) (eventType : UInt8)
    (wellTyped : eventType.toNat < 2 ^ 4) (pid tid : UInt64) (category name : Text)
    (timestamp : UInt64) :
    ((eventsSince w (w.emitEvent eventType pid tid category name timestamp)).filterMap
      Seen.outline).map Outline.thread = [some ⟨pid, tid⟩] := by
  obtain ⟨_, _, events⟩ :=
    emitEvent_events coherent eventType wellTyped pid tid category name timestamp
  rw [events]
  rfl

/-- After any calls no slot has two owners, all slots lie between 1 and 255, and
the reader knows the owner of each; so the events written next, by the writer's
own operations or by a reconstructor on this writer, resolve to the threads they
are written for. -/
theorem threads_resolve (calls : List WriterCall) :
    (∀ thread other slot, (afterCalls calls).threadTable.lookup thread = some slot →
        (afterCalls calls).threadTable.lookup other = some slot → thread = other) ∧
      (∀ thread slot, (afterCalls calls).threadTable.lookup thread = some slot →
        (1 ≤ slot.toNat ∧ slot.toNat ≤ 255) ∧
          (afterCalls calls).reader.threads slot = some thread) ∧
      (∀ pid tid category name timestamp,
        ((eventsSince (afterCalls calls) ((afterCalls calls).writeDurationBegin pid tid category
          name timestamp)).filterMap Seen.outline).map Outline.thread = [some ⟨pid, tid⟩] ∧
        ((eventsSince (afterCalls calls) ((afterCalls calls).writeDurationEnd pid tid category
          name timestamp)).filterMap Seen.outline).map Outline.thread = [some ⟨pid, tid⟩]) ∧
      ∀ order events, (StackReconstructor.outlines calls order events).map Outline.thread =
        (({} : Tracker).handed order events).flatMap (fun w => w.stamps.map
          (fun _ => some ⟨w.thread.pid.toUInt64, w.thread.tid.toUInt64⟩)) := by
  have coherent := afterCalls_coherent calls
  refine ⟨?_, ?_, ?_, ?_⟩
  · intro thread other slot owned shared
    exact coherent.threads.distinct thread other slot owned shared
  · intro thread slot owned
    exact ⟨coherent.threads.range thread slot owned, coherent.thread_resolves owned⟩
  · intro pid tid category name timestamp
    constructor
    · exact emitEvent_thread coherent eventDurationBegin (by decide) pid tid category name timestamp
    · exact emitEvent_thread coherent eventDurationEnd (by decide) pid tid category name timestamp
  · intro order events
    exact StackReconstructor.outlines_threads calls order events

end FxtWriter

end Tracey
