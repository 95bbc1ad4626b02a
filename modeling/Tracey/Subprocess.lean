import Tracey.PerfEvent
import Tracey.Separated

/-!
# The child whose output is read

`Subprocess` from the side of the parent: a pipe with what the child has
printed, which is read byte by byte up to the end of a line, and a child that is
waited for once. The end of the output is not the end of a line; what stands
before it counts as a line only if there is something.

Read to its end, the output comes as the pieces that its newlines end.
-/

namespace Tracey

/-- How a child ends: by itself, with a code, or by a signal. -/
inductive ExitStatus where
  | exited (code : UInt8)
  | signaled (signal : Nat)
deriving DecidableEq, Repr

/-- The exit code, or -1 for the death by a signal. The number of the signal is
not passed on. -/
def ExitStatus.code : ExitStatus → Int
  | .exited code => code.toNat
  | .signaled _ => -1

/-- A child that has been started: what is left in the pipe until the pipe is
closed, and how the child ends until it has been waited for. -/
structure Subprocess where
  pipe : Option Text
  child : Option ExitStatus
deriving DecidableEq, Repr

namespace Subprocess

/-- The constructor, for a child that prints this and ends so. All that the
child will do is fixed from the beginning. -/
def start (output : Text) (status : ExitStatus) : Subprocess := ⟨some output, some status⟩

/-- The loop over the bytes of a line: what is left, the line, and whether there
is one. -/
def readLineLoop (line : Text) : Text → Text × Text × Bool
  | [] => ([], line, line ≠ [])
  | c :: rest => if c = byte '\n' then (rest, line, true) else readLineLoop (line ++ [c]) rest

/-- The next line. A closed pipe leaves the caller's line as it is, while one
that has nothing left clears it. -/
def readLine (s : Subprocess) (line : Text) : Subprocess × Text × Bool :=
  match s.pipe with
  | none => (s, line, false)
  | some output =>
    let (rest, line, found) := readLineLoop [] output
    ({ s with pipe := some rest }, line, found)

/-- Close the pipe and wait for the child, if it has not been waited for. A
second call returns -1 and does nothing. -/
def wait (s : Subprocess) : Subprocess × Int :=
  match s.child with
  | some status => (⟨none, none⟩, status.code)
  | none => (⟨none, none⟩, -1)

/-- The lines of an output, as its newlines end them. A last line without a
newline counts. -/
def lines (output : Text) : List Text := Separated.terminated (byte '\n') output

/-- Bytes without a newline are added to the line. The loop goes on behind them. -/
theorem readLineLoop_plain (line : Text) {piece : Text} (plain : byte '\n' ∉ piece) (rest : Text) :
    readLineLoop line (piece ++ rest) = readLineLoop (line ++ piece) rest := by
  induction piece generalizing line with
  | nil => rw [List.nil_append, List.append_nil]
  | cons c more inductionHypothesis =>
    obtain ⟨different, others⟩ := not_or.mp (mt List.mem_cons.mpr plain)
    rw [List.cons_append, readLineLoop, if_neg (Ne.symm different), inductionHypothesis _ others,
      List.append_assoc]
    rfl

/-- The next line is the first of the lines that are left; without one nothing
is left. -/
theorem readLine_lines (output line : Text) (child : Option ExitStatus) :
    (lines output = [] ∧ readLine ⟨some output, child⟩ line = (⟨some [], child⟩, [], false)) ∨
      ∃ first rest, lines output = first :: lines rest ∧ rest.length < output.length ∧
        readLine ⟨some output, child⟩ line = (⟨some rest, child⟩, first, true) := by
  rcases Separated.piece_cases (byte '\n') output with plain | ⟨piece, rest, plain, rfl⟩
  · have read : readLineLoop [] output = ([], output, (output ≠ [] : Bool)) := by
      have whole := readLineLoop_plain [] plain []
      rwa [List.append_nil, List.nil_append] at whole
    by_cases nonempty : output = []
    · subst nonempty
      exact .inl ⟨Separated.terminated_nil, rfl⟩
    · right
      refine ⟨output, [], ?_, List.length_pos_iff.mpr nonempty, ?_⟩
      · rw [lines, Separated.terminated_last plain nonempty, lines, Separated.terminated_nil]
      · simp only [readLine, read]
        rw [decide_eq_true nonempty]
  · right
    have read : readLineLoop [] (piece ++ byte '\n' :: rest) = (rest, piece, true) := by
      rw [readLineLoop_plain [] plain, readLineLoop, if_pos rfl, List.nil_append]
    refine ⟨piece, rest, Separated.terminated_piece plain rest, ?_, ?_⟩
    · rw [List.length_append, List.length_cons]
      omega
    · simp only [readLine, read]

end Subprocess

end Tracey
