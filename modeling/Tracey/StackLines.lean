import Tracey.BranchLines
import Tracey.LineGroups

/-!
# Sampled call stacks are read back

A sample is printed as a header line and one line for each frame of the call
stack, the innermost first. The parser holds the lines until the group is
closed. Every frame is then read back from its own line, and the stack is turned
around.
-/

namespace Tracey

open Numerals

namespace PerfScriptParser

/-- The line of a frame: a tab and more blanks before its place. The blanks may
be tabs, too. -/
structure FrameLine where
  place : Place
  indent : Text
  blank : ∀ c ∈ indent, isBlank c = true

/-- A line of a stack begins with a tab, by which it continues its group. -/
def FrameLine.text (f : FrameLine) : Text := byte '\t' :: (f.indent ++ f.place.text)

/-- The lines of a sample: the header of its event and a line for each frame,
the innermost first. -/
structure SampleLines where
  header : HeaderFrame
  selector : Text
  frames : List FrameLine

namespace SampleLines

/-- The first line of a sample, which names the event and may name the scope it
was taken in. -/
def headerLine (s : SampleLines) : Text :=
  s.header.text (Tracey.text "cycles" ++ (Tracey.text ":" ++ (s.selector ++ Tracey.text ":")))

/-- The lines as perf script prints them. There may be no frames at all. -/
def lines (s : SampleLines) : List Text := s.headerLine :: s.frames.map FrameLine.text

/-- The event the lines stand for. Its call stack has the outermost frame first. -/
def event (s : SampleLines) : Event :=
  .ok
    { pid := s.header.pid
      tid := s.header.tid
      timeNs := s.header.timeNs
      data := .stacktraceSample
        { callstack := (s.frames.map (fun frame => frame.place.location)).reverse } }

end SampleLines

/-- A frame is read back as the destination of a branch is. The blanks before it
are skipped. -/
theorem parseFrame_text (f : FrameLine) : parseFrame f.text = some f.place.location := by
  have blanks : ∀ c ∈ byte '\t' :: f.indent, isBlank c = true :=
    List.forall_mem_cons.mpr ⟨by decide, f.blank⟩
  have indented : skipSpaces f.text = skipSpaces f.place.text := by
    rw [FrameLine.text, ← List.cons_append, skipSpaces, List.dropWhile_append_of_pos blanks]
    rfl
  have address : skipSpaces f.place.text = f.place.text :=
    skipSpaces_numeral (by decide) (by decide) 0 _ _
  have digits : (consumeHex f.place.text).1 = numeral 16 f.place.ip.toNat :=
    (takeWhile_digits (numeral_isDigit (by decide) (by decide) _) _ (head_stops (by decide))).1
  have nonempty : (consumeHex (skipSpaces f.text)).1 ≠ [] := by
    rw [indented, address, digits]
    exact numeral_ne_nil 16 _
  have read : parseDestination f.text = f.place.location := by
    have destination := parseDestination_text f.place 0
    rw [parseDestination, indented]
    exact destination
  rw [← read]
  exact if_neg nonempty

/-- All frames are read back, in reverse. None is left out, since each has an
address. -/
theorem parseCallstack_frames (frames : List FrameLine) :
    parseCallstack (frames.map FrameLine.text) =
      { callstack := (frames.map (fun frame => frame.place.location)).reverse } := by
  have each : frames.filterMap (fun frame => parseFrame frame.text) =
      frames.map (fun frame => frame.place.location) := by
    simp only [parseFrame_text, List.filterMap_eq_map']
  rw [parseCallstack, List.filterMap_map]
  exact congrArg (fun stack => StacktraceSampleData.mk stack.reverse) each

/-- The lines of a sample are parsed as its event. The selector of the event is
not looked at. -/
theorem parseGroup_sample (s : SampleLines) : parseGroup s.lines = some s.event := by
  have letters : ∀ c ∈ text "cycles", isNameByte c = true := List.all_eq_true.mp (by decide)
  have stops : ∀ c ∈ (text ":" ++ (s.selector ++ text ":")).head?, isNameByte c = false :=
    head_stops (by decide)
  have header := parseHeader_frame s.header (by decide) letters stops
  have data : ∀ rest, parseData (text "cycles") rest (s.frames.map FrameLine.text) =
      some (.stacktraceSample (parseCallstack (s.frames.map FrameLine.text))) := fun _ => rfl
  rw [SampleLines.lines, parseGroup]
  simp only [SampleLines.headerLine, parseDecodeError_header, header, data, Option.map_some,
    parseCallstack_frames]
  rfl

/-! Lines that continue a group, and lines that close it. -/

/-- A frame continues the group of its header. The group ends with the next line
that has no tab. -/
theorem frames_continue (frames : List FrameLine) :
    ∀ line ∈ frames.map FrameLine.text, isContinuationLine line = true := by
  intro line member
  obtain ⟨frame, -, rfl⟩ := List.mem_map.mp member
  rfl

/-- A line that continues a group is accumulated and answers nothing. This is so
also when no group has been begun. -/
theorem feedLine_continues (p : PerfScriptParser) {line : Text}
    (continues : isContinuationLine line = true) :
    p.feedLine line = ({ accumulatedLines := p.accumulatedLines ++ [line] }, none) := by
  have nonempty : line ≠ [] := by
    rintro rfl
    cases continues
  rw [feedLine, if_neg nonempty, if_pos continues]

/-- Lines that continue a group are held, and nothing is returned for them. Each
of them answers with nothing. -/
theorem feedLines_continue (p : PerfScriptParser) {lines : List Text}
    (continues : ∀ line ∈ lines, isContinuationLine line = true) (rest : List Text) :
    p.feedLines (lines ++ rest) =
      ((feedLines { accumulatedLines := p.accumulatedLines ++ lines } rest).1,
        List.replicate lines.length none ++
          (feedLines { accumulatedLines := p.accumulatedLines ++ lines } rest).2) := by
  induction lines generalizing p with
  | nil =>
    rw [List.append_nil]
    rfl
  | cons line others inductionHypothesis =>
    obtain ⟨first, later⟩ := List.forall_mem_cons.mp continues
    have fed := inductionHypothesis { accumulatedLines := p.accumulatedLines ++ [line] } later
    rw [List.append_assoc, List.singleton_append] at fed
    rw [List.cons_append, feedLines, feedLine_continues p first]
    simp only [fed]
    rfl

/-- A line that closes a group leaves the parser as a fresh one that is fed the
line. -/
theorem feedLine_closes (p : PerfScriptParser) {line : Text}
    (starts : isContinuationLine line = false) :
    (p.feedLine line).1 = (({} : PerfScriptParser).feedLine line).1 := by
  by_cases empty : line = []
  · rw [feedLine, feedLine, if_pos empty, if_pos empty, flushAccumulated_empties,
      flushAccumulated_empties]
  · rw [feedLine_starts p empty starts, feedLine_starts {} empty starts]

/-- A printed sample is read back. Feeding its lines returns nothing but the
event of the group before, if there was one; the sample's event comes out at the
end of the input, at an empty line or at the next line that starts an event,
with the frames from the outermost to the innermost, and the input goes on as if
it began there. -/
theorem sample_round_trips (p : PerfScriptParser) (s : SampleLines) :
    p.feedLines s.lines =
        ({}, p.finish.2 :: (List.replicate s.frames.length none ++ [some s.event])) ∧
      ∀ next rest, isContinuationLine next = false →
        p.feedLines (s.lines ++ next :: rest) =
          ((feedLines (({} : PerfScriptParser).feedLine next).1 rest).1,
            p.finish.2 :: (List.replicate s.frames.length none ++ some s.event ::
              (feedLines (({} : PerfScriptParser).feedLine next).1 rest).2)) := by
  obtain ⟨nonempty, starts⟩ := header_starts s.header
    (text "cycles" ++ (text ":" ++ (s.selector ++ text ":")))
  have flushed : ({ accumulatedLines := s.lines } : PerfScriptParser).flushAccumulated =
      ({}, some s.event) := by
    have nonempty : s.lines ≠ [] := List.cons_ne_nil _ _
    rw [flushAccumulated, if_neg nonempty, parseGroup_sample]
  have fed : ∀ rest, p.feedLines (s.lines ++ rest) =
      ((feedLines { accumulatedLines := s.lines } rest).1,
        p.finish.2 :: (List.replicate s.frames.length none ++
          (feedLines { accumulatedLines := s.lines } rest).2)) := by
    intro rest
    have frames := feedLines_continue { accumulatedLines := [s.headerLine] }
      (frames_continue s.frames) rest
    rw [List.length_map] at frames
    rw [SampleLines.lines, List.cons_append, feedLines, SampleLines.headerLine,
      feedLine_starts p nonempty starts]
    simp only [SampleLines.headerLine] at frames
    simp only [frames]
    rfl
  constructor
  · have whole := fed []
    rw [List.append_nil, feedLines, finish, flushed] at whole
    exact whole
  · intro next rest starts'
    rw [fed, feedLines]
    simp only [feedLine_closes _ starts', feedLine_result _ starts', flushed]

/-- The first byte of a symbol has an offset. It has to be shown for each offset
that is written down. -/
theorem offset_zero_small : 0 < 2 ^ 31 := Nat.two_pow_pos 31

/-- A frame behind nothing but the tab. -/
def frameLine (ip : UInt64) (name : Name) (dso : Text) (plain : ¬ text "+0x" <:+: dso) : FrameLine where
  place := { ip, name, dso, dsoPlain := plain, namePad := 0, dsoPad := 0 }
  indent := []
  blank := fun _ member => absurd member List.not_mem_nil

/-- The sample of the tests. The symbol of its innermost frame is not known. -/
def cyclesSample : SampleLines where
  header :=
    { pid := 2060126
      tid := 2060126
      timeNs := 178090391624068
      period := 555555
      linePad := 0
      timePad := 0
      periodPad := 4
      eventPad := 0 }
  selector := text "u"
  frames :=
    [frameLine 0xffffffff97201100 .unknown (text "[unknown]") (by decide),
      frameLine 0x7f9bd48c1d80 (.known (text "_dl_setup_hash") 0 offset_zero_small (head_stops (by decide)))
        (text "/usr/lib64/ld-2.28.so") (by decide),
      frameLine 0x4008de (.known (text "main") 0x87 (by decide) (head_stops (by decide)))
        (text "/home/demo") (by decide)]

/-- The sample of the tests, spelled out. -/
example : cyclesSample.lines =
    [text "2060126/2060126 178090.391624068:     555555 cycles:u:",
      text "\tffffffff97201100 [unknown] ([unknown])",
      text "\t7f9bd48c1d80 _dl_setup_hash+0x0 (/usr/lib64/ld-2.28.so)",
      text "\t4008de main+0x87 (/home/demo)"] := by decide

/-- The sample of the tests is read at the empty line behind it. -/
theorem sample_round_trips_cycles :
    (({} : PerfScriptParser).feedLines (cyclesSample.lines ++ [[]])).2 =
      [none, none, none, none, some cyclesSample.event, none] :=
  congrArg Prod.snd ((sample_round_trips {} cyclesSample).2 [] [] (by decide))

end PerfScriptParser

end Tracey
