import Tracey.BranchRoundTrip
import Tracey.Decoding
import Tracey.ErrorLines
import Tracey.StackLines

/-!
# Printed outputs are read back

An output of perf script is a sequence of printed events of all kinds, in any
order and with empty lines anywhere between them. Each kind has its own lines:
one for a branch, a decode error, a change of frequency or an event that is
ignored, and several for a sample or a counter. Every event but the error opens
with a header. The whole output is read event by event, in the printed order,
and nothing besides.

An event is read as what it stands for, with two exceptions that have theorems
of their own: a frequency that perf fills up with blanks is read as none, and
the period of a counter is not taken up into its count.
-/

namespace Tracey

open Numerals TextSearch

namespace PerfScriptParser

/-! Changes of frequency. -/

/-- The line for a change of frequency. perf fills the frequency up with blanks
to four places; what follows it may be anything that does not begin with a
digit. -/
structure FrequencyLine where
  header : HeaderFrame
  labelPad : Nat
  ratioPad : Nat
  ratio : Nat
  freqPad : Nat
  freqMhz : UInt32
  rest : Text
  stops : ∀ c ∈ rest.head?, isDigit 10 c = false

namespace FrequencyLine

/-- The frequency and what is behind it. Four digits need no blank. -/
def frequency (l : FrequencyLine) : Text := spaces l.freqPad ++ (decimal l.freqMhz.toNat ++ l.rest)

/-- What stands between the name of the event and the label of the frequency. It
holds the ratio, whose digits are not read. -/
def ratioText (l : FrequencyLine) : Text :=
  spaces (l.labelPad + 1) ++ (Tracey.text "cbr: " ++ (spaces l.ratioPad ++ decimal l.ratio)) ++
    Tracey.text " "

/-- The whole line, with the ratio in front of the frequency and whatever
follows it. -/
def text (l : FrequencyLine) : Text :=
  l.header.text (Tracey.text "cbr" ++ (Tracey.text ":" ++
    (l.ratioText ++ (Tracey.text "freq: " ++ l.frequency))))

/-- A change to a frequency, at the time and on the thread of the line. The
frequency is left open, since the one that is read may not be the one printed. -/
def changed (l : FrequencyLine) (freqMhz : UInt32) : Event :=
  .ok
    { pid := l.header.pid
      tid := l.header.tid
      timeNs := l.header.timeNs
      data := .power { freqMhz } }

/-- The event the line stands for: a change to the printed frequency, however
many blanks perf has put before it. -/
def event (l : FrequencyLine) : Event := l.changed l.freqMhz

/-- The event the line is read as. The parser skips no blanks between the label
and the frequency, so that a frequency of fewer than four digits, which perf
fills up to four places, is read as 0. -/
def read (l : FrequencyLine) : Event := l.changed (if l.freqPad = 0 then l.freqMhz else 0)

end FrequencyLine

/-- Nothing is read where no digit stands. A blank in front of a number is
enough for this. -/
theorem fromChars_stopped {base bits : Nat} {s : Text} (stops : ∀ c ∈ s.head?, isDigit base c = false) :
    fromChars base bits s = 0 := by
  have empty : s.takeWhile (isDigit base) = [] := by
    cases s with
    | nil => rfl
    | cons c rest => rw [List.takeWhile_cons, stops c rfl]; rfl
  rw [fromChars, empty]
  split
  · rfl
  · rfl

/-- The frequency is read if it stands directly behind its label, and no number
is read where a blank stands. -/
theorem parseUint32_frequency (l : FrequencyLine) :
    parseUint32 l.frequency = if l.freqPad = 0 then l.freqMhz else 0 := by
  unfold FrequencyLine.frequency
  cases l.freqPad with
  | zero =>
    have digits : ∀ c ∈ decimal l.freqMhz.toNat, isDigit 10 c = true :=
      numeral_isDigit (by decide) (by decide) _
    have leading : fromChars 10 32 (decimal l.freqMhz.toNat ++ l.rest) =
        fromChars 10 32 (decimal l.freqMhz.toNat) := by
      rw [fromChars, fromChars, (takeWhile_digits digits l.rest l.stops).1,
        List.takeWhile_eq_self_iff.mpr digits]
    rw [if_pos rfl, parseUint32, spaces, List.replicate_zero, List.nil_append, leading]
    exact parseUint32_decimal l.freqMhz
  | succ pad =>
    have blank : ∀ c ∈ (spaces (pad + 1) ++ (decimal l.freqMhz.toNat ++ l.rest)).head?,
        isDigit 10 c = false := head_stops (by decide)
    rw [if_neg (Nat.succ_ne_zero pad), parseUint32, fromChars_stopped blank]
    rfl

/-- The frequency is found behind its label: what stands before it has no `f`.
The number read is 0 where a blank stands before it. -/
theorem parseFrequency_text (l : FrequencyLine) :
    parseFrequency (l.ratioText ++ (text "freq: " ++ l.frequency)) =
      some { freqMhz := if l.freqPad = 0 then l.freqMhz else 0 } := by
  have absent : byte 'f' ∉ l.ratioText := by
    intro member
    simp only [FrequencyLine.ratioText, List.mem_append] at member
    rcases member with (blank | word | blank | digit) | blank
    · exact absurd (mem_spaces blank) (by decide)
    · exact absurd word (by decide)
    · exact absurd (mem_spaces blank) (by decide)
    · exact absurd (numeral_isDigit (by decide) (by decide) l.ratio _ digit) (by decide)
    · exact absurd blank (by decide)
  have label : behind (text "freq: ") (l.ratioText ++ (text "freq: " ++ l.frequency)) =
      some l.frequency := by
    apply behind_label
    exact (found_pass (find_skip (text "req: ") _ absent)).trans
      (found_begins (List.prefix_append _ _))
  rw [parseFrequency, label, Option.map_some, parseUint32_frequency]

/-! Groups that open with a header. -/

/-- A group with a header is parsed by the name of its event. The rest of the
line is handed on without a look at it. -/
theorem parseGroup_header (f : HeaderFrame) {name tail : Text}
    (begins : name.head?.map isBlank = some false) (letters : ∀ c ∈ name, isNameByte c = true)
    (stops : ∀ c ∈ tail.head?, isNameByte c = false) (below : List Text) :
    parseGroup (f.text (name ++ tail) :: below) =
      (parseData name (tail.dropWhile (fun c => c ≠ byte ' ')) below).map (fun data =>
        .ok { pid := f.pid, tid := f.tid, timeNs := f.timeNs, data }) := by
  have header := parseHeader_frame f begins letters stops
  rw [parseGroup]
  simp only [parseDecodeError_header, header]

/-- A change of frequency is parsed as what is read of its line. The lines below
it, if there are any, are not looked at. -/
theorem parseGroup_frequency (l : FrequencyLine) : parseGroup [l.text] = some l.read := by
  have letters : ∀ c ∈ text "cbr", isNameByte c = true := List.all_eq_true.mp (by decide)
  have stops : ∀ c ∈ (text ":" ++ (l.ratioText ++ (text "freq: " ++ l.frequency))).head?,
      isNameByte c = false := head_stops (by decide)
  have behind : (text ":" ++ (l.ratioText ++ (text "freq: " ++ l.frequency))).dropWhile
      (fun c => c ≠ byte ' ') = l.ratioText ++ (text "freq: " ++ l.frequency) := rfl
  have data : ∀ rest, parseData (text "cbr") rest [] = (parseFrequency rest).map .power :=
    fun _ => rfl
  rw [FrequencyLine.text, parseGroup_header l.header (by decide) letters stops, behind, data,
    parseFrequency_text]
  rfl

/-- A change of frequency is read as what it stands for exactly if nothing fills
the frequency up, or if there is nothing to lose. -/
theorem FrequencyLine.read_event (l : FrequencyLine) :
    l.read = l.event ↔ l.freqPad = 0 ∨ l.freqMhz = 0 := by
  simp only [read, event, changed, Event.ok.injEq, OkEvent.mk.injEq, EventData.power.injEq,
    PowerData.mk.injEq, true_and]
  by_cases unpadded : l.freqPad = 0
  · simp only [unpadded, if_true, true_or]
  · simp only [unpadded, if_false, false_or]
    exact eq_comm

/-- The parser loses a frequency exactly if blanks fill it up: it is read as the
line prints it if and only if none do, or if the frequency is 0 anyway. -/
theorem parseGroup_frequency_iff (l : FrequencyLine) :
    parseGroup [l.text] = some l.event ↔ l.freqPad = 0 ∨ l.freqMhz = 0 := by
  rw [parseGroup_frequency, Option.some.injEq, l.read_event]

/-! Counters. -/

/-- The lines of a counter: a header and the frames of a stack, the innermost
first. -/
structure CounterLines where
  header : HeaderFrame
  counter : SampleEventName
  selector : Text
  frames : List FrameLine

namespace CounterLines

/-- The name of the event, as perf prints it. It is one of two. -/
def name (l : CounterLines) : Text :=
  match l.counter with
  | .branchMisses => Tracey.text "branch-misses"
  | .cacheMisses => Tracey.text "cache-misses"

/-- The lines as they are printed, the header first. The location comes below
it, behind a tab. -/
def lines (l : CounterLines) : List Text :=
  l.header.text (l.name ++ (Tracey.text ":" ++ (l.selector ++ Tracey.text ":"))) ::
    l.frames.map FrameLine.text

/-- As many more as the count says, at the innermost place, and no event if no
place is known. -/
def counted (l : CounterLines) (count : Int32) : Option Event :=
  l.frames.head?.map (fun frame =>
    .ok
      { pid := l.header.pid
        tid := l.header.tid
        timeNs := l.header.timeNs
        data := .eventSample { location := frame.place.location, count, name := l.counter } })

/-- The event the lines stand for: as many more as the period of the header
says, which an `int` has to hold. -/
def event (l : CounterLines) : Option Event := l.counted (Int32.ofNat l.header.period)

/-- The event the lines are read as: one more, however many the period says. The
parser has passed over the period by then, and takes 1 for now. -/
def read (l : CounterLines) : Option Event := l.counted 1

/-- A counter is read as what it stands for exactly if its period is 1, or if
there is no event at all. -/
theorem read_event (l : CounterLines) :
    l.read = l.event ↔ l.frames = [] ∨ Int32.ofNat l.header.period = 1 := by
  cases frames : l.frames with
  | nil => simp only [read, event, counted, frames, List.head?_nil, Option.map_none, true_or]
  | cons frame others =>
    simp only [read, event, counted, frames, List.head?_cons, Option.map_some, Option.some.injEq,
      Event.ok.injEq, OkEvent.mk.injEq, EventData.eventSample.injEq, EventSampleData.mk.injEq,
      true_and, and_true, reduceCtorEq, false_or]
    exact eq_comm

end CounterLines

/-- Of the frames of a counter the innermost one is read, and the count is
always 1. -/
theorem parseSample_frames (counter : SampleEventName) (frames : List FrameLine) :
    parseSample counter (frames.map FrameLine.text) =
      frames.head?.map (fun frame =>
        { location := frame.place.location, count := 1, name := counter }) := by
  cases frames with
  | nil => rfl
  | cons frame others =>
    have read := parseFrame_text frame
    simp only [parseFrame] at read
    split at read
    · cases read
    · simp only [List.map_cons, parseSample, List.head?_cons, Option.map_some, Option.some.inj read]

/-- A counter is parsed as what is read of its lines. The count is 1, whatever
the header says. -/
theorem parseGroup_counter (l : CounterLines) : parseGroup l.lines = l.read := by
  have letters : ∀ c ∈ l.name, isNameByte c = true := by
    unfold CounterLines.name
    split
    · exact List.all_eq_true.mp (by decide)
    · exact List.all_eq_true.mp (by decide)
  have begins : l.name.head?.map isBlank = some false := by
    unfold CounterLines.name
    split
    · decide
    · decide
  have stops : ∀ c ∈ (text ":" ++ (l.selector ++ text ":")).head?, isNameByte c = false :=
    head_stops (by decide)
  have data : ∀ rest, parseData l.name rest (l.frames.map FrameLine.text) =
      (parseSample l.counter (l.frames.map FrameLine.text)).map .eventSample := by
    intro rest
    unfold CounterLines.name
    cases l.counter with
    | branchMisses => rfl
    | cacheMisses => rfl
  rw [CounterLines.lines, parseGroup_header l.header begins letters stops, data, parseSample_frames,
    Option.map_map, Option.map_map]
  rfl

/-! Events that are ignored. -/

/-- The names of the events that are read. An event of any other name gives
nothing. -/
def readNames : List Text :=
  [text "branches", text "cbr", text "cycles", text "branch-misses", text "cache-misses"]

/-- The lines of an event with another name, such as `psb`. The lines below its
header, if there are any, are those of frames. -/
structure IgnoredLines where
  header : HeaderFrame
  name : Text
  begins : name.head?.map isBlank = some false
  letters : ∀ c ∈ name, isNameByte c = true
  unread : name ∉ readNames
  tail : Text
  stops : ∀ c ∈ tail.head?, isNameByte c = false
  frames : List FrameLine

/-- The lines as they are printed, the header first. -/
def IgnoredLines.lines (l : IgnoredLines) : List Text :=
  l.header.text (l.name ++ l.tail) :: l.frames.map FrameLine.text

/-- The parser has no use for an event of another name, and answers nothing. The
header itself is read, but nothing is made of it. -/
theorem parseGroup_ignored (l : IgnoredLines) : parseGroup l.lines = none := by
  have unread := l.unread
  simp only [readNames, List.mem_cons, List.not_mem_nil, or_false, not_or] at unread
  obtain ⟨branches, cbr, cycles, branchMisses, cacheMisses⟩ := unread
  have data : ∀ rest below, parseData l.name rest below = none := by
    intro rest below
    simp only [parseData, branches, cbr, cycles, branchMisses, cacheMisses, if_false, ite_self]
  rw [IgnoredLines.lines, parseGroup_header l.header l.begins l.letters l.stops, data]
  rfl

/-! Whole outputs. -/

/-- What perf script prints for one event, or an empty line. Each case carries
what is free in its lines. -/
inductive Printed where
  | blank
  | branch (line : BranchLine)
  | error (line : ErrorLine)
  | sample (lines : SampleLines)
  | frequency (line : FrequencyLine)
  | counter (lines : CounterLines)
  | ignored (lines : IgnoredLines)

namespace Printed

/-- The lines that are printed for an event. An empty line is one line. -/
def lines : Printed → List Text
  | blank => [[]]
  | branch line => [line.text]
  | error line => [line.text]
  | sample lines => lines.lines
  | frequency line => [line.text]
  | counter lines => lines.lines
  | ignored lines => lines.lines

/-- The event that the lines stand for, if they stand for one that the program
has. -/
def event : Printed → Option Event
  | blank => none
  | branch line => some line.event
  | error line => some (.decodeError line.error)
  | sample lines => some lines.event
  | frequency line => some line.event
  | counter lines => lines.event
  | ignored _ => none

/-- The event that the lines are read as. -/
def read : Printed → Option Event
  | blank => none
  | branch line => some line.event
  | error line => some (.decodeError line.error)
  | sample lines => some lines.event
  | frequency line => some line.read
  | counter lines => lines.read
  | ignored _ => none

/-- Whether nothing is lost when the lines are read: no blanks fill a frequency
up, and the period of a counter is 1. -/
def Exact : Printed → Prop
  | frequency line => line.freqPad = 0 ∨ line.freqMhz = 0
  | counter lines => lines.frames = [] ∨ Int32.ofNat lines.header.period = 1
  | _ => True

/-- What is printed is read as what it stands for exactly if nothing is lost.
Only frequencies and counts can be lost. -/
theorem read_event (item : Printed) : item.read = item.event ↔ item.Exact := by
  cases item with
  | frequency line => exact Option.some_inj.trans line.read_event
  | counter lines => exact lines.read_event
  | blank => exact iff_of_true rfl trivial
  | branch line => exact iff_of_true rfl trivial
  | error line => exact iff_of_true rfl trivial
  | sample lines => exact iff_of_true rfl trivial
  | ignored lines => exact iff_of_true rfl trivial

/-- What is lost when the lines are read is nothing that a thread is asked for:
a change of frequency and a counter ask nothing of their thread, whatever they
say. -/
theorem read_timed (item : Printed) :
    item.read = item.event ∨
      (∀ event ∈ item.read, event.timed = none) ∧ (∀ event ∈ item.event, event.timed = none) := by
  cases item with
  | frequency line =>
    refine .inr ⟨?_, ?_⟩
    · exact fun event read => Option.some.inj read ▸ rfl
    · exact fun event printed => Option.some.inj printed ▸ rfl
  | counter lines =>
    have silent : ∀ count, ∀ event ∈ lines.counted count, event.timed = none := by
      intro count event counted
      obtain ⟨frame, -, rfl⟩ := Option.map_eq_some_iff.mp counted
      rfl
    exact .inr ⟨silent 1, silent _⟩
  | blank => exact .inl rfl
  | branch line => exact .inl rfl
  | error line => exact .inl rfl
  | sample lines => exact .inl rfl
  | ignored lines => exact .inl rfl

end Printed

/-- Lines that are one group, and what they are parsed as. No line of it but the
first is anything other than a continuation. -/
structure Grouped (lines : List Text) (answer : Option Event) : Prop where
  opens : ∃ head below, lines = head :: below ∧ head ≠ [] ∧ isContinuationLine head = false ∧
    ∀ line ∈ below, isContinuationLine line = true
  parsed : parseGroup lines = answer

/-- A header and the frames below it are one group: no header is empty or begins
with a tab, and every frame does. -/
theorem grouped_header (f : HeaderFrame) (rest : Text) (frames : List FrameLine)
    {answer : Option Event} (parsed : parseGroup (f.text rest :: frames.map FrameLine.text) = answer) :
    Grouped (f.text rest :: frames.map FrameLine.text) answer := by
  obtain ⟨nonempty, starts⟩ := header_starts f rest
  exact ⟨⟨_, _, rfl, nonempty, starts, frames_continue frames⟩, parsed⟩

/-- Whatever is printed is an empty line or one group, which is parsed as what
is read of it. -/
theorem printed_grouped (item : Printed) :
    (item.lines = [[]] ∧ item.read = none) ∨ Grouped item.lines item.read := by
  cases item with
  | blank => exact .inl ⟨rfl, rfl⟩
  | branch line => exact .inr (grouped_header line.frame.header _ [] (parseGroup_text line []))
  | error line =>
    have starts : isContinuationLine line.text = false := by
      apply decide_eq_false
      exact fun same => absurd (Option.some.inj same) (by decide)
    have parsed : parseGroup [line.text] = some (.decodeError line.error) := by
      rw [parseGroup, parseDecodeError_report]
    exact .inr ⟨⟨_, [], rfl, List.cons_ne_nil _ _, starts, by simp⟩, parsed⟩
  | sample lines => exact .inr (grouped_header lines.header _ lines.frames (parseGroup_sample lines))
  | frequency line => exact .inr (grouped_header line.header _ [] (parseGroup_frequency line))
  | counter lines => exact .inr (grouped_header lines.header _ lines.frames (parseGroup_counter lines))
  | ignored lines => exact .inr (grouped_header lines.header _ lines.frames (parseGroup_ignored lines))

/-- No printed lines begin with one that continues a group. The items do not run
into each other. -/
theorem printed_starts (items : List Printed) :
    ∀ line ∈ (items.flatMap Printed.lines).head?, isContinuationLine line = false := by
  cases items with
  | nil => simp
  | cons item rest =>
    rw [List.flatMap_cons]
    rcases printed_grouped item with ⟨blank, -⟩ | ⟨⟨head, below, shape, -, starts, -⟩, -⟩
    · rw [blank]
      exact fun line first => by rw [← Option.some.inj first]; rfl
    · rw [shape]
      exact fun line first => by rw [← Option.some.inj first]; exact starts

/-- The groups of a printed output are read one by one, in their order.

Induct over what is printed. Behind the lines of a group the next ones start
afresh, so that the group ends where its event does. -/
theorem printed_groups (items : List Printed) (position : Nat) :
    (Grouping.closings isEmptyLine isContinuationLine position
      (items.flatMap Printed.lines)).filterMap (parseGroup ·.2) = items.filterMap Printed.read := by
  induction items generalizing position with
  | nil => simp
  | cons item rest inductionHypothesis =>
    rw [List.flatMap_cons]
    rcases printed_grouped item with
      ⟨blank, silent⟩ | ⟨⟨head, below, shape, nonempty, starts, continues⟩, parsed⟩
    · have empty : isEmptyLine ([] : Text) = true := rfl
      rw [blank, List.singleton_append, Grouping.closings_blank empty, inductionHypothesis,
        List.filterMap_cons_none silent]
    · have solid : isEmptyLine head = false := decide_eq_false nonempty
      have stops := printed_starts rest
      obtain ⟨taken, left⟩ := Grouping.run_stops continues stops
      rw [shape] at parsed ⊢
      rw [List.cons_append, Grouping.closings_group solid, taken, left, List.filterMap_cons,
        parsed, inductionHypothesis, List.filterMap_cons]

/-- The bytes of a printed output: every line with its newline. The last line
has one, too. -/
def printedText (items : List Printed) : Text :=
  (items.flatMap Printed.lines).flatMap (· ++ [byte '\n'])

/-- What is printed in two parts is what both parts print. -/
theorem printedText_append (items more : List Printed) :
    printedText (items ++ more) = printedText items ++ printedText more := by
  rw [printedText, List.flatMap_append, List.flatMap_append]
  rfl

end PerfScriptParser

open PerfScriptParser

/-- A printed output is read item by item, in the printed order, and nothing
besides. -/
theorem eventsOf_printed {items : List Printed}
    (oneLine : ∀ item ∈ items, ∀ line ∈ item.lines, byte '\n' ∉ line) :
    eventsOf (printedText items) = items.filterMap Printed.read := by
  have lines : Subprocess.lines (printedText items) = items.flatMap Printed.lines := by
    apply Separated.terminated_ended
    intro line member
    obtain ⟨item, printed, inside⟩ := List.mem_flatMap.mp member
    exact oneLine item printed line inside
  rw [eventsOf, lines]
  exact printed_groups items 0

/-- A change of frequency as the tests spell it. Its frequency has four digits. -/
def frequencyLine : FrequencyLine where
  header :=
    { pid := 2937048
      tid := 2937048
      timeNs := 448556689322817
      period := 1
      linePad := 0
      timePad := 0
      periodPad := 34
      eventPad := 3 }
  labelPad := 23
  ratioPad := 0
  ratio := 46
  freqPad := 0
  freqMhz := 4606
  rest := text " MHz (159%)      " ++ text "             0                0 [unknown] ([unknown])"
  stops := head_stops (by decide)

end Tracey
