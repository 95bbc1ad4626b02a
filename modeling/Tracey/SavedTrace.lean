import Tracey.CompressedSink
import Tracey.TraceFile
import Tracey.TraceServer

/-!
# The file, and what is fetched of it

The sink of a plain file, and the way of a trace from the decoder over the disk
to a client of the server. The file system decides how much of a write it takes
and how much has reached the disk when the file is closed, the network how much
of an attempt to send.

Whatever they decide, the file begins as the trace does, and a viewer that
accepts it sees the first of the events. A client that reads a whole response
reads the whole file.
-/

namespace Tracey

open FxtWriter
open ZstdSink (Ending)

/-- The sink of a plain file: whether the file is open, what `fwrite` has taken,
and what the closed file holds. -/
structure FileSink where
  file : Bool := true
  accepted : Text := []
  contents : Text := []
deriving DecidableEq, Repr

namespace FileSink

/-- Write data, of which `fwrite` takes so many bytes. A short write throws, and
what was taken stays. -/
def write (s : FileSink) (data : Text) (taken : Nat) : FileSink × Ending :=
  if s.file = true ∧ data ≠ [] then
    let written := (data.take taken).length
    let s := { s with accepted := s.accepted ++ data.take taken }
    if written ≠ data.length then (s, .threw) else (s, .returned)
  else (s, .returned)

/-- Close the file, when so many bytes reach the disk. Nothing tells whether
these are all. -/
def close (s : FileSink) (flushed : Nat) : FileSink :=
  if s.file then { s with file := false, contents := s.accepted.take flushed } else s

/-- Writes in a row, up to the first that throws. The file is closed by the
destructor even then. -/
def writeAll (s : FileSink) : List (Text × Nat) → FileSink × Ending
  | [] => (s, .returned)
  | (data, taken) :: rest =>
    match s.write data taken with
    | (s, .returned) => writeAll s rest
    | other => other

/-- Writes to a new sink, and its closing, which the destructor does in any
case. -/
def session (writes : List (Text × Nat)) (flushed : Nat) : FileSink × Ending :=
  let (s, ending) := ({} : FileSink).writeAll writes
  (s.close flushed, ending)

/-- What is to be written. It is what the file would hold if nothing failed. -/
def data (writes : List (Text × Nat)) : Text := (writes.map Prod.fst).flatten

/-- An open file takes a part of the data from the front, and the write throws
unless that is all of it. -/
theorem write_open (s : FileSink) (opened : s.file = true) (data : Text) (taken : Nat) :
    s.write data taken = ({ s with accepted := s.accepted ++ data.take taken },
      if data.length ≤ taken then .returned else .threw) := by
  unfold write
  by_cases empty : data = []
  · have whole : ([] : Text).length ≤ taken := Nat.zero_le taken
    rw [if_neg (fun both => both.2 empty), empty, List.take_nil, List.append_nil, if_pos whole]
  · rw [if_pos ⟨opened, empty⟩]
    have written : (data.take taken).length ≠ data.length ↔ ¬ data.length ≤ taken := by
      rw [List.length_take]
      omega
    by_cases whole : data.length ≤ taken
    · rw [if_pos whole]
      exact if_neg (fun short => written.mp short whole)
    · rw [if_neg whole]
      exact if_pos (written.mpr whole)

/-- The first write is made first. If it is short it throws, and no other is
made. -/
theorem writeAll_cons (s : FileSink) (opened : s.file = true) (piece : Text) (taken : Nat)
    (rest : List (Text × Nat)) :
    s.writeAll ((piece, taken) :: rest) =
      if piece.length ≤ taken then { s with accepted := s.accepted ++ piece }.writeAll rest
      else ({ s with accepted := s.accepted ++ piece.take taken }, .threw) := by
  rw [writeAll, s.write_open opened]
  by_cases whole : piece.length ≤ taken
  · rw [if_pos whole, if_pos whole, List.take_of_length_le whole]
  · rw [if_neg whole, if_neg whole]

/-- What is taken is the beginning of what is to be written, and all of it if no
write is short; a short one throws.

Induct over the writes; one that throws ends them. -/
theorem writeAll_spec (s : FileSink) (opened : s.file = true) (writes : List (Text × Nat)) :
    let result := s.writeAll writes
    result.1.file = true ∧ (result.2 = .returned ↔ ∀ w ∈ writes, w.1.length ≤ w.2) ∧
      ∃ taken, taken <+: data writes ∧ result.1.accepted = s.accepted ++ taken ∧
        (result.2 = .returned → taken = data writes) := by
  induction writes generalizing s with
  | nil =>
    exact ⟨opened, ⟨fun _ w member => absurd member List.not_mem_nil, fun _ => rfl⟩, [],
      List.nil_prefix, (List.append_nil _).symm, fun _ => rfl⟩
  | cons w rest inductionHypothesis =>
    obtain ⟨piece, most⟩ := w
    have all : data ((piece, most) :: rest) = piece ++ data rest := rfl
    rw [s.writeAll_cons opened, all, List.forall_mem_cons]
    by_cases whole : piece.length ≤ most
    · obtain ⟨opened', returns, more, front, accepted, complete⟩ :=
        inductionHypothesis { s with accepted := s.accepted ++ piece } opened
      rw [if_pos whole]
      refine ⟨opened', ?_, piece ++ more, (List.prefix_append_right_inj piece).mpr front, ?_, ?_⟩
      · rw [returns]
        exact ⟨fun others => ⟨whole, others⟩, fun both => both.2⟩
      · rw [accepted, List.append_assoc]
      · intro returned
        rw [complete returned]
    · rw [if_neg whole]
      refine ⟨opened, ?_, piece.take most, ?_, rfl, ?_⟩
      · constructor
        · intro returned
          cases returned
        · intro both
          exact absurd both.1 whole
      · exact (List.take_prefix most piece).trans (List.prefix_append _ _)
      · intro returned
        cases returned

/-- The file begins as what is to be written does. No write throws exactly if
none is short, and then the file holds everything exactly if everything has
reached the disk. -/
theorem session_front (writes : List (Text × Nat)) (flushed : Nat) :
    (session writes flushed).1.contents <+: data writes ∧
      ((session writes flushed).2 = .returned ↔ ∀ w ∈ writes, w.1.length ≤ w.2) ∧
      ((session writes flushed).2 = .returned →
        ((session writes flushed).1.contents = data writes ↔ (data writes).length ≤ flushed)) := by
  obtain ⟨opened, returns, taken, front, accepted, complete⟩ := writeAll_spec {} rfl writes
  have contents : (session writes flushed).1.contents = taken.take flushed := by
    have closed : (session writes flushed).1 =
        (({} : FileSink).writeAll writes).1.close flushed := rfl
    rw [closed, close, if_pos opened]
    exact congrArg (List.take flushed) (accepted.trans (List.nil_append _))
  rw [contents]
  refine ⟨(List.take_prefix flushed taken).trans front, returns, fun returned => ?_⟩
  rw [complete returned]
  exact List.take_eq_self_iff _

/-- What is to be written in one piece is that piece. -/
theorem data_single (piece : Text) (taken : Nat) : data [(piece, taken)] = piece :=
  List.append_nil piece

end FileSink

/-! What a viewer makes of such a file. -/

/-- Of a trace that has been cut off a viewer sees, if anything, the first of
the events. -/
theorem view_truncated {w : FxtWriter} (coherent : Coherent w) {bytes : List UInt8}
    (cut : bytes <+: w.output) {early : List Seen} (accepted : view bytes = some early) :
    early <+: eventsSince {} w := by
  obtain ⟨records, read, rfl⟩ := Option.map_eq_some_iff.mp accepted
  obtain ⟨rest, whole⟩ := Record.readTrace_truncated coherent.wellFormed cut read
  have all : eventsSince {} w =
      (({} : Reader).watch (w.records.map Record.stored)).filter Seen.isEvent := by
    have seen := view_output coherent
    rw [view, output, Record.readTrace_encode _ coherent.wellFormed, Option.map_some] at seen
    exact (Option.some.inj seen).symm
  rw [all, ← whole, Reader.watch_append, List.filter_append]
  exact List.prefix_append _ _

namespace StackReconstructor

end StackReconstructor

/-- However the writes of a decoded trace end and whatever has reached the disk,
the file is the beginning of the trace, and a viewer that accepts it sees the
first of the events of the trace; all of them, if no write throws and all has
reached the disk. Then the file is the trace. -/
theorem saved_viewed (surroundings : Surroundings) (level : Level) (workingDir output : Text)
    (sampling : Bool) (config : TraceFilter.Config) {writes : List (Text × Nat)} (flushed : Nat)
    (handed : FileSink.data writes =
      (decodePerfData surroundings level workingDir output sampling config).trace) :
    let trace := (decodePerfData surroundings level workingDir output sampling config).trace
    let saved := FileSink.session writes flushed
    saved.1.contents <+: trace ∧
      ∃ seen, view trace = some seen ∧
        (∀ early, view saved.1.contents = some early → early <+: seen) ∧
        (saved.2 = .returned →
          (saved.1.contents = trace ↔ trace.length ≤ flushed) ∧
            (trace.length ≤ flushed → view saved.1.contents = some seen)) := by
  intro trace saved
  obtain ⟨front, -, whole⟩ := FileSink.session_front writes flushed
  rw [handed] at front whole
  have written := decodePerfData_trace surroundings level workingDir output sampling config
  have coherent := StackReconstructor.reconstruct_coherent [preambleCall surroundings.baseTimeNs]
    surroundings.order (config.kept (eventsOf (surroundings.printed
      (scriptCommand surroundings workingDir sampling))))
  have seen := view_output coherent
  rw [← written] at seen
  refine ⟨front, _, seen, fun early accepted => ?_,
    fun returned => ⟨whole returned, fun enough => ?_⟩⟩
  · rw [written] at front
    exact view_truncated coherent front accepted
  · have same : saved.1.contents = trace := (whole returned).mpr enough
    rw [same]
    exact seen

/-- A recorded call begins two functions and ends them. The disk is full behind
the record of the second begin, and the file shows the two begins. -/
theorem saved_viewed_call :
    let trace := (decodePerfData callSurroundings .normal (text "/tmp") (text "out.fxt") false
      {}).trace
    let file := (FileSink.session [(trace, 320)] 352).1.contents
    file <+: trace ∧ ∃ seen early, view trace = some seen ∧ view file = some early ∧
      early <+: seen ∧ seen.length = 4 ∧ early.length = 2 := by
  intro trace file
  obtain ⟨front, seen, whole, first, -⟩ := saved_viewed callSurroundings .normal (text "/tmp")
    (text "out.fxt") false {} 352 (FileSink.data_single trace 320)
  have all : (view trace).map List.length = some 4 := by decide +kernel
  have begun : (view file).map List.length = some 2 := by decide +kernel
  obtain ⟨early, accepted, two⟩ := Option.map_eq_some_iff.mp begun
  rw [whole, Option.map_some, Option.some.injEq] at all
  exact ⟨front, seen, early, whole, accepted, first early accepted, all, two⟩

end Tracey
