import Tracey.Numerals
import Tracey.PerfEvent
import Tracey.TextSearch

/-!
# The parser of perf script output

The functions of `perf_script_parser.cpp`. A `string_view` that is consumed from
the front is a text that is handed on; `find` and `rfind` return positions. The
long `parse_group` is split at the header, which every event shares, and into
one function for each kind of event.
-/

namespace Tracey

open Numerals TextSearch

namespace PerfScriptParser

/-- Read an address, with or without `0x` in front of it. As `from_chars` does,
it stops at the first byte that is no digit, and gives 0 for an address that 64
bits do not hold. -/
def parseHex64 (s : Text) : UInt64 :=
  let s := if text "0x" <+: s ∨ text "0X" <+: s then s.drop 2 else s
  UInt64.ofNat (fromChars 16 64 s)

/-- Read an unsigned number of 32 bits from the front of a text. Nothing is
skipped before it, so that a text beginning with a blank is read as 0. -/
def parseUint32 (s : Text) : UInt32 := UInt32.ofNat (fromChars 10 32 s)

/-- Read a signed number of 32 bits, which may have a minus sign, from the front
of a text. -/
def parseInt32 (s : Text) : Int32 := Int32.ofInt (fromCharsSigned 10 32 s)

/-- A space or a tab. These separate the fields of a line; a line is never split
at anything else. -/
def isBlank (c : UInt8) : Bool := c = byte ' ' ∨ c = byte '\t'

/-- Remove the spaces and tabs at the front. A text of blanks alone becomes
empty. -/
def skipSpaces (s : Text) : Text := s.dropWhile isBlank

/-- The leading decimal digits and what follows them. Either part may be empty;
a field without digits is then read as 0 or refused by the caller. -/
def consumeDigits (s : Text) : Text × Text := (s.takeWhile (isDigit 10), s.dropWhile (isDigit 10))

/-- The leading hexadecimal digits, in either case, and what follows them. A
prefix `0x` is not passed over: only its zero is a digit. -/
def consumeHex (s : Text) : Text × Text := (s.takeWhile (isDigit 16), s.dropWhile (isDigit 16))

/-- The kind of a branch, by its word. Conditional jumps are jumps, and no other
word has a kind: such a branch is kept, with its kind unknown. -/
def parseBranchKind (kindStr : Text) : Option BranchKind :=
  if kindStr = text "call" then some .call
  else if kindStr = text "return" then some .return
  else if kindStr = text "jmp" ∨ kindStr = text "jcc" then some .jump
  else if kindStr = text "syscall" then some .syscall
  else if kindStr = text "sysret" then some .sysret
  else if kindStr = text "hw int" then some .hardwareInterrupt
  else if kindStr = text "int" then some .interrupt
  else if kindStr = text "iret" then some .iret
  else if kindStr = text "async" then some .async
  else if kindStr = text "tx abrt" then some .txAbort
  else none

/-- What the column of the branch kind says: the kind itself, and whether
tracing starts or ends with the branch. -/
structure KindAndTraceState where
  kind : Option BranchKind
  traceState : TraceState := .none
deriving DecidableEq, Repr

/-- Remove what says that the trace starts, and a space behind it. With a jump
behind it, which is printed in the same column, only the word of the jump is
left. -/
def removeStart (raw : Text) : Text :=
  let raw := raw.drop 7
  if text " jmp" <+: raw then text "jmp"
  else if raw.head? = some (byte ' ') then raw.drop 1
  else raw

/-- Remove what says that the trace ends, and up to two spaces behind it: perf
fills the column with blanks before the kind. -/
def removeEnd (raw : Text) : Text :=
  let raw := raw.drop 6
  if text "  " <+: raw then raw.drop 2
  else if raw.head? = some (byte ' ') then raw.drop 1
  else raw

/-- Take the column of the branch kind apart. The words for the start and for
the end of the trace are removed one after the other; a branch that has both
neither starts nor ends the trace. -/
def parseKindAndTrace (raw : Text) : KindAndTraceState :=
  let startsTrace : Bool := text "tr strt" <+: raw
  let raw := if startsTrace then removeStart raw else raw
  let endsTrace : Bool := text "tr end" <+: raw
  let raw := if endsTrace then removeEnd raw else raw
  { kind := parseBranchKind raw
    traceState :=
      if startsTrace && !endsTrace then .start
      else if !startsTrace && endsTrace then .end
      else .none }

/-- A line that begins with a tab belongs to the group above it: perf prints the
frames of a stack in this way. -/
def isContinuationLine (line : Text) : Bool := line.head? = some (byte '\t')

/-- The time in nanoseconds; the fraction is filled up with zeros or cut to nine
digits. The product and the sum are taken in 64 bits and wrap. -/
def parseTime (hi lo : Text) : UInt64 :=
  let timeHi := UInt64.ofNat (fromChars 10 64 hi)
  let loBuf := lo.take 9 ++ List.replicate (9 - lo.length) (byte '0')
  let timeLo := UInt64.ofNat (fromChars 10 64 loBuf)
  timeHi * 1000000000 + timeLo

/-- The part of a text before its first space, or all of it. A tab does not end
a word. -/
def firstWord (s : Text) : Text :=
  match find (text " ") s with
  | some space => s.take space
  | none => s

/-- A symbol and its offset, which stands behind the last `+0x`. Without one the
symbol counts as unknown, whatever its text. The offset is narrowed to the 32
bits of an `int`. -/
def parseSymbolAndOffset (str : Text) : Text × Int32 :=
  match rfind (text "+0x") str with
  | some plusPos =>
    let offset64 := parseHex64 (firstWord (str.drop (plusPos + 1)))
    (str.take plusPos, offset64.toUInt32.toInt32)
  | none => (text "[unknown]", 0)

/-- A place in the program, from its address and from what is printed as its
symbol. -/
def parseLocation (ipHex symStr : Text) : Location :=
  { ip := parseHex64 ipHex
    symbol := (parseSymbolAndOffset symStr).1
    symbolOffset := (parseSymbolAndOffset symStr).2 }

/-- What follows the first occurrence of a label. Labels are looked for anywhere
in the text, also inside a longer word. -/
def behind (label s : Text) : Option Text :=
  (find label s).map (fun position => s.drop (position + label.length))

/-- The optional time of a decode error, which stands behind its label. A number
of seconds without a point is no time. -/
def parseErrorTime (s : Text) : Option UInt64 :=
  (behind (text "time ") s).bind (fun t =>
    let (hi, t) := consumeDigits t
    if t.head? = some (byte '.') then
      let (lo, _) := consumeDigits (t.drop 1)
      some (parseTime hi lo)
    else none)

/-- The message behind the code of a decode error: all that follows the first
colon and space from the code on. It is empty without a code. -/
def parseErrorMessage (s : Text) : Text :=
  match find (text "code ") s with
  | some codePos => (behind (text ": ") (s.drop codePos)).getD []
  | none => []

/-- Read a line that reports a decode error, if it does so. The parts of the
report are looked for by their labels, each from the front of the line; process
and thread are read as signed numbers and default to 0, and an address of 0 is
none. -/
def parseDecodeError (line : Text) : Option DecodeError :=
  let s := skipSpaces line
  if text "instruction trace error" <+: s then
    some
      { timeNs := parseErrorTime s
        pid := ((behind (text "pid ") s).map (fun p => (parseInt32 p).toUInt32)).getD 0
        tid := ((behind (text "tid ") s).map (fun t => (parseInt32 t).toUInt32)).getD 0
        ip := (behind (text "ip ") s).bind (fun i =>
          if firstWord i = text "0" then none else some (parseHex64 (firstWord i)))
        message := parseErrorMessage s }
  else none

/-- What the header line says of any event, and the rest of the line, which the
kinds of events read in their own ways. The period is passed over. -/
structure Header where
  pid : UInt32
  tid : UInt32
  timeNs : UInt64
  eventName : Text
  rest : Text
deriving DecidableEq, Repr

/-- The event's name ends at a slash, a colon or a space. What is between it and
the next space, its configuration and selector, is dropped. -/
def isNameByte (c : UInt8) : Bool := c ≠ byte '/' ∧ c ≠ byte ':' ∧ c ≠ byte ' '

/-- Parse the header, `pid/tid time_hi.time_lo: period
event_name/config:selector:rest`. A missing slash, point or colon, or a line
that does not begin with a digit, refuses the whole group. -/
def parseHeader (headerLine : Text) : Option Header :=
  let (pidSv, s) := consumeDigits (skipSpaces headerLine)
  if pidSv = [] ∨ s.head? ≠ some (byte '/') then none
  else
    let (tidSv, s) := consumeDigits (s.drop 1)
    let (timeHi, s) := consumeDigits (skipSpaces s)
    if s.head? ≠ some (byte '.') then none
    else
      let (timeLo, s) := consumeDigits (s.drop 1)
      if s.head? ≠ some (byte ':') then none
      else
        let (_, s) := consumeDigits (skipSpaces (s.drop 1))
        let s := skipSpaces s
        some
          { pid := parseUint32 pidSv
            tid := parseUint32 tidSv
            timeNs := parseTime timeHi timeLo
            eventName := s.takeWhile isNameByte
            rest := (s.dropWhile isNameByte).dropWhile (fun c => c ≠ byte ' ') }

/-- A digit, or a letter as perf prints it in an address. Letters in upper case
do not count here, although they are read as digits elsewhere. -/
def isLowerHex (c : UInt8) : Bool :=
  (byte '0' ≤ c ∧ c ≤ byte '9') ∨ (byte 'a' ≤ c ∧ c ≤ byte 'f')

/-- Look for the address: the first run of hexadecimal digits between two
spaces. The byte before the current one is at hand. -/
def addrStartLoop (previous : UInt8) (i : Nat) : Text → Option Nat
  | [] => none
  | c :: rest =>
    if previous = byte ' ' ∧ isLowerHex c = true ∧
        ((c :: rest).dropWhile isLowerHex).head? = some (byte ' ') then some i
    else addrStartLoop c (i + 1) rest

/-- The place of the address before the arrow of a branch. It is never the first
byte, since a space has to stand before it. -/
def findAddr (beforeArrow : Text) : Option Nat :=
  match beforeArrow with
  | [] => none
  | c :: rest => addrStartLoop c 1 rest

/-- Remove trailing spaces. Trailing tabs stay. -/
def trimSpaces (s : Text) : Text := s.rdropWhile (fun c => c = byte ' ')

/-- Remove trailing spaces and the mark of a transaction, which stands behind
the kind, so that the word of the kind is left. -/
def trimKind (rawKind : Text) : Text :=
  let rawKind := trimSpaces rawKind
  if text "(x)" <:+ rawKind then trimSpaces (rawKind.take (rawKind.length - 3)) else rawKind

/-- The source of a branch, which starts with its address. The address ends at
the next space, behind which the symbol stands. -/
def parseSource (srcRest : Text) : Location :=
  match find (text " ") srcRest with
  | some space => parseLocation (srcRest.take space) (skipSpaces (srcRest.drop space))
  | none => parseLocation srcRest []

/-- The destination of a branch: its address, as far as there are hexadecimal
digits, and then the symbol up to the end of the line. -/
def parseDestination (afterArrow : Text) : Location :=
  let (hex, rest) := consumeHex (skipSpaces afterArrow)
  parseLocation hex (skipSpaces rest)

/-- Read a branch, which has an arrow and an address before it. The mark of a
transaction is looked for in all of the text before the arrow, not only behind
the kind. -/
def parseBranch (rest : Text) : Option BranchData :=
  let r := skipSpaces rest
  match find (text " => ") r with
  | none => none
  | some arrow =>
    let beforeArrow := r.take arrow
    match findAddr beforeArrow with
    | none => none
    | some addrStart =>
      let kindAndTrace := parseKindAndTrace (trimKind (beforeArrow.take addrStart))
      some
        { kind := kindAndTrace.kind
          traceState := kindAndTrace.traceState
          inTransaction := (find (text "(x)") beforeArrow).isSome
          src := parseSource (beforeArrow.drop addrStart)
          dst := parseDestination (r.drop (arrow + 4)) }

/-- Read a change of frequency. The number is looked for directly behind its
label, so that one filled up with blanks is read as 0. -/
def parseFrequency (rest : Text) : Option PowerData :=
  (behind (text "freq: ") rest).map (fun f => { freqMhz := parseUint32 f })

/-- One frame of a sampled call stack, if the line holds an address. The frame's
library stays outside the symbol, which ends at its offset. -/
def parseFrame (line : Text) : Option Location :=
  let (hex, entry) := consumeHex (skipSpaces line)
  if hex = [] then none else some (parseLocation hex (skipSpaces entry))

/-- The call stack of a sample. perf prints the innermost frame first, and it is
kept the other way round; lines without an address are left out. -/
def parseCallstack (lines : List Text) : StacktraceSampleData :=
  { callstack := (lines.filterMap parseFrame).reverse }

/-- Read the innermost frame of a counter. The count is 1 in any case, since the
period of the header has been passed over. -/
def parseSample (name : SampleEventName) (lines : List Text) : Option EventSampleData :=
  match lines with
  | [] => none
  | line :: _ =>
    let (hex, entry) := consumeHex (skipSpaces line)
    some { location := parseLocation hex (skipSpaces entry), count := 1, name }

/-- The data of an event, from what follows its name and from the lines below
it. Synchronization packets and events of any other name have none. -/
def parseData (eventName rest : Text) (lines : List Text) : Option EventData :=
  if eventName = text "branches" then (parseBranch rest).map .branch
  else if eventName = text "cbr" then (parseFrequency rest).map .power
  else if eventName = text "psb" then none
  else if eventName = text "cycles" then some (.stacktraceSample (parseCallstack lines))
  else if eventName = text "branch-misses" then (parseSample .branchMisses lines).map .eventSample
  else if eventName = text "cache-misses" then (parseSample .cacheMisses lines).map .eventSample
  else none

/-- Parse a group of lines, a header line and the lines below it. A report of a
decode error is recognized first; without a header, or if the event is none of
those that are read, there is no event. -/
def parseGroup (lines : List Text) : Option Event :=
  match lines with
  | [] => none
  | headerLine :: below =>
    match parseDecodeError headerLine with
    | some err => some (.decodeError err)
    | none =>
      match parseHeader headerLine with
      | none => none
      | some header =>
        (parseData header.eventName header.rest below).map (fun data =>
          .ok { pid := header.pid, tid := header.tid, timeNs := header.timeNs, data })

end PerfScriptParser

/-- The lines that have been fed and not been parsed. They are one group in the
making: a header line, if it is one, and the lines below it. -/
structure PerfScriptParser where
  accumulatedLines : List Text := []
deriving DecidableEq, Repr

namespace PerfScriptParser

/-- Parse the lines that have been accumulated, and start afresh. Without lines
nothing happens. -/
def flushAccumulated (p : PerfScriptParser) : PerfScriptParser × Option Event :=
  if p.accumulatedLines = [] then (p, none)
  else ({ p with accumulatedLines := [] }, parseGroup p.accumulatedLines)

/-- Feed one line. An empty line and the first line of the next group close the
group that is held; a line that begins with a tab joins it. -/
def feedLine (p : PerfScriptParser) (line : Text) : PerfScriptParser × Option Event :=
  if line = [] then p.flushAccumulated
  else if isContinuationLine line then
    ({ p with accumulatedLines := p.accumulatedLines ++ [line] }, none)
  else
    let (p, result) := p.flushAccumulated
    ({ p with accumulatedLines := p.accumulatedLines ++ [line] }, result)

/-- The output has ended, and with it the last group. Nothing else is done at
the end: a parser that holds no lines gives no event. -/
def finish (p : PerfScriptParser) : PerfScriptParser × Option Event := p.flushAccumulated

end PerfScriptParser

end Tracey
