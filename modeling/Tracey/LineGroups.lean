import Tracey.PerfScriptParser
import Tracey.Grouping

/-!
# Lines grouped into events

The parser holds the lines of one group until it sees that the group is
complete. Over a whole input its answers are the parses of the groups of lines,
each given by the call that completes the group, and empty lines only separate.
-/

namespace Tracey.PerfScriptParser

/-- An empty line belongs to no group. It closes the group before it, if there
is one. -/
def isEmptyLine (line : Text) : Bool := line = []

/-- A line that continues a group is not empty. The first byte of such a line is
a tab. -/
theorem continuation_solid {line : Text} (continues : isContinuationLine line = true) :
    isEmptyLine line = false := by
  cases line with
  | nil => simp [isContinuationLine] at continues
  | cons first rest => simp [isEmptyLine]

/-- The answers to the lines of an input and to its end. The last answer is the
one of `finish`. -/
def feedLines : PerfScriptParser → List Text → PerfScriptParser × List (Option Event)
  | p, [] => (p.finish.1, [p.finish.2])
  | p, line :: rest =>
    let fed := p.feedLine line
    ((feedLines fed.1 rest).1, fed.2 :: (feedLines fed.1 rest).2)

/-- The groups of an input, each with the number of the call that completes it:
a line is fed by the call of its own number, and the end of the input follows
the last line. -/
def groups (lines : List Text) : List (Nat × List Text) :=
  Grouping.closings isEmptyLine isContinuationLine 0 lines

/-- The events returned by a sequence of calls, each with the number of its
call. -/
def returned (answers : List (Option Event)) : List (Nat × Event) := Grouping.stamped 0 answers

/-- One input has an empty line more, in front of a line without a tab or at the
end. -/
def BlankAdded (lines more : List Text) : Prop :=
  ∃ before after, (∀ next ∈ after.head?, isContinuationLine next = false) ∧
    lines = before ++ after ∧ more = before ++ [] :: after

/-- Flushing parses the group that is held. Behind it nothing is held, whether
or not the group was an event. -/
theorem flushAccumulated_close (p : PerfScriptParser) :
    p.flushAccumulated = ({}, (Grouping.close p.accumulatedLines).bind parseGroup) := by
  obtain ⟨held⟩ := p
  cases held with
  | nil => rfl
  | cons first rest => simp [flushAccumulated, Grouping.close]

/-- A line is taken as the accumulator takes it, and a complete group is parsed.
The three branches of the source are those of the accumulator. -/
theorem feedLine_feed (p : PerfScriptParser) (line : Text) :
    p.feedLine line =
      (⟨(Grouping.feed isEmptyLine isContinuationLine p.accumulatedLines line).1⟩,
        (Grouping.feed isEmptyLine isContinuationLine p.accumulatedLines line).2.bind parseGroup) := by
  by_cases empty : line = []
  · subst empty
    exact flushAccumulated_close p
  · have solid : isEmptyLine line = false := by simp [isEmptyLine, empty]
    by_cases continues : isContinuationLine line = true
    · simp [feedLine, Grouping.feed, solid, empty, continues]
    · simp [feedLine, Grouping.feed, solid, empty, continues, flushAccumulated_close]

/-- The answers of the parser are the parses of what the accumulator hands out,
and nothing is held behind the end. -/
theorem feedLines_feedAll (p : PerfScriptParser) (lines : List Text) :
    p.feedLines lines =
      ({}, (Grouping.feedAll isEmptyLine isContinuationLine p.accumulatedLines lines).map
        (·.bind parseGroup)) := by
  induction lines generalizing p with
  | nil => simp only [feedLines, finish, flushAccumulated_close, Grouping.feedAll, List.map_cons,
      List.map_nil]
  | cons line rest inductionHypothesis =>
    simp only [feedLines, inductionHypothesis, feedLine_feed, Grouping.feedAll, List.map_cons]

/-- The events of an input are the parses of its groups, in order. This connects
the parser, which sees one line after the other, with a cut of the whole output. -/
theorem feedLines_events (lines : List Text) :
    (feedLines {} lines).2.reduceOption = (groups lines).filterMap (parseGroup ·.2) := by
  rw [feedLines_feedAll, Grouping.reduceOption_bind, ← Grouping.stamped_values 0,
    (Grouping.feedAll_closings (fun _ => continuation_solid) lines 0).1, List.filterMap_map]
  rfl

/-- An empty line more changes no event. Only a line that is put into a group
changes what the parser sees. -/
theorem blank_events {lines more : List Text} (added : BlankAdded lines more) :
    (feedLines {} more).2.reduceOption = (feedLines {} lines).2.reduceOption := by
  obtain ⟨before, after, stops, rfl, rfl⟩ := added
  rw [feedLines_feedAll, feedLines_feedAll, Grouping.reduceOption_bind, Grouping.reduceOption_bind,
    Grouping.feedAll_blank (by rfl) stops]

/-- The parser answers an input with the parses of its groups, in order, each
from the call that completes its group; nothing is held behind the end, and
empty lines in front of a line without a tab or at the end, more of them or
fewer, change no event. -/
theorem lines_grouped (lines : List Text) :
    (feedLines {} lines).1 = {} ∧
      (feedLines {} lines).2.length = lines.length + 1 ∧
      returned (feedLines {} lines).2 =
        (groups lines).filterMap (fun group => (parseGroup group.2).map (group.1, ·)) ∧
      (feedLines {} lines).2.reduceOption = (groups lines).filterMap (parseGroup ·.2) ∧
      ∀ spaced, Relation.EqvGen BlankAdded lines spaced →
        (feedLines {} spaced).2.reduceOption = (feedLines {} lines).2.reduceOption := by
  refine ⟨by rw [feedLines_feedAll], ?_, ?_, feedLines_events lines, ?_⟩
  · generalize ({} : PerfScriptParser) = p
    induction lines generalizing p with
    | nil => rfl
    | cons line rest inductionHypothesis =>
      simp only [feedLines, List.length_cons, inductionHypothesis]
  · rw [returned, feedLines_feedAll, Grouping.stamped_bind,
      (Grouping.feedAll_closings (fun _ => continuation_solid) lines 0).1]
    rfl
  · intro spaced respaced
    induction respaced with
    | rel _ _ added => exact blank_events added
    | refl _ => rfl
    | symm _ _ _ same => exact same.symm
    | trans _ _ _ _ _ first second => exact second.trans first

end Tracey.PerfScriptParser
