import Tracey.LineGroups
import Tracey.PerfDriver
import Tracey.StackReconstructor
import Tracey.Subprocess
import Tracey.TraceFilter

/-!
# Decoding a recording

`decode_perf_data` of the main program and the log it reports to. The lines that
perf script prints go one after the other through the parser, the filter and the
reconstructor, whose writer hands the trace to the sink. The program perf script
is an argument: for every command line, what it prints and how it ends. So is
the clock.

What the loop does line by line is what the parts do with the whole: the trace
is the reconstruction of those events of the whole output that the slices of the
whole contain.
-/

namespace Tracey

open Numerals PerfScriptParser

/-- Verbosity levels for diagnostic output. Warnings are printed at every level. -/
inductive Level where
  | quiet
  | normal
  | verbose
deriving DecidableEq, Repr

namespace Log

/-- A status message, if the level is at least normal. It goes to the standard
error stream. -/
def info (level : Level) (message : Text) : List Text :=
  match level with
  | .quiet => []
  | .normal | .verbose => [message ++ text "\n"]

/-- A debug message, if the level is verbose. -/
def debug (level : Level) (message : Text) : List Text :=
  match level with
  | .quiet | .normal => []
  | .verbose => [message ++ text "\n"]

end Log

/-- The parser, the filter and the reconstructor in a row. The count is that of
the events that have passed; it has 64 bits. -/
structure Decoder where
  parser : PerfScriptParser := {}
  filter : TraceFilter
  reconstructor : StackReconstructor
  eventCount : UInt64 := 0

namespace Decoder

/-- The writer behind its preamble, which gives the wall clock as the base of
time. -/
def preamble (baseTimeNs : UInt64) : FxtWriter :=
  ({} : FxtWriter).writePreamble (text "tracey_mctraceface") 0 1000000000 0 baseTimeNs

/-- A decoder that has read nothing, with the preamble written. The category has
been interned behind the preamble. -/
def create (config : TraceFilter.Config) (baseTimeNs : UInt64) : Decoder :=
  { filter := .create config, reconstructor := .create (preamble baseTimeNs) }

/-- Process an event if it passes the filter. Only what passes is counted. -/
def accept (d : Decoder) (event : Event) : Decoder :=
  let (filter, passes) := d.filter.shouldPass event
  if passes then
    { d with
      filter
      reconstructor := d.reconstructor.processEvent event
      eventCount := d.eventCount + 1 }
  else { d with filter }

/-- Process what the parser has answered. Most lines are answered with nothing. -/
def acceptAny (d : Decoder) : Option Event → Decoder
  | some event => d.accept event
  | none => d

/-- The body of the loop over the lines. A line may complete the group before
it. -/
def feed (d : Decoder) (line : Text) : Decoder :=
  let (parser, event) := d.parser.feedLine line
  { d with parser }.acceptAny event

/-- The loop over the lines that perf script prints. It ends at the first line
that is not there. The fuel has to be greater than the number of lines. -/
def readLoop : Nat → Subprocess → Text → Decoder → Subprocess × Decoder
  | 0, s, _, d => (s, d)
  | fuel + 1, s, line, d =>
    match s.readLine line with
    | (s, line, true) => readLoop fuel s line (d.feed line)
    | (s, _, false) => (s, d)

/-- The end of the output: the last group is parsed, and all threads are
finished. -/
def finish (d : Decoder) (order : HashOrder) : Decoder :=
  let (parser, event) := d.parser.finish
  let d := { d with parser }.acceptAny event
  { d with reconstructor := d.reconstructor.finish order }

end Decoder

/-- What the file system, the clock, perf script and a hash table contribute.
What perf script prints and how it ends depends on its command line. -/
structure Surroundings where
  isDirectory : Text → Bool
  printed : List Text → Text
  ended : List Text → ExitStatus
  baseTimeNs : UInt64
  order : HashOrder

/-- What decoding leaves behind: the bytes handed to the sink, what was printed
on the standard error stream, and the exit code. -/
@[ext]
structure Decoded where
  trace : List UInt8
  stderr : List Text
  exitCode : Int

/-- What follows a label and a space, for each argument. Arguments are not
quoted, so that the line may be ambiguous. -/
def shownCommand (label : Text) (args : List Text) : Text :=
  label ++ args.flatMap (fun arg => text " " ++ arg)

/-- The byte of an apostrophe. -/
def apostrophe : UInt8 := 39

/-- The messages behind the loop. The count of events is always printed, the
others only where there is something to say. -/
def closingMessages (startSymbol : Text) (startSymbolMissing : Bool) (sliceCount : Int)
    (eventCount : UInt64) (output : Text) (exitCode : Int) : List Text :=
  (if startSymbolMissing then
    [text "warning: start symbol " ++ [apostrophe] ++ startSymbol ++ [apostrophe] ++
      text " was not found in the trace\n"] else []) ++
  (if sliceCount > 0 then [text "Recorded " ++ signed sliceCount ++ text " slice(s)\n"] else []) ++
  [text "Decoded " ++ decimal eventCount.toNat ++ text " events -> " ++ output ++ text "\n"] ++
  (if exitCode ≠ 0 then
    [text "warning: perf script exited with code " ++ signed exitCode ++ text "\n"] else [])

/-- The command line for perf script. The directory of a recording is recognized
by asking the file system. -/
def scriptCommand (surroundings : Surroundings) (workingDir : Text) (sampling : Bool) : List Text :=
  PerfDriver.buildPerfScriptArgs { sampling } workingDir (surroundings.isDirectory workingDir)

/-- Decode a recording: run perf script on it, feed its lines to the parser,
hand on what passes the filter, and finish. What is reported at the end comes
last on the error stream; the result is 0 however perf script has ended. -/
def decodePerfData (surroundings : Surroundings) (level : Level) (workingDir output : Text)
    (sampling : Bool) (filterConfig : TraceFilter.Config) : Decoded :=
  let scriptArgs := scriptCommand surroundings workingDir sampling
  let printed := surroundings.printed scriptArgs
  let perfScript := Subprocess.start printed (surroundings.ended scriptArgs)
  let (perfScript, d) := (Decoder.create filterConfig surroundings.baseTimeNs).readLoop
    (printed.length + 1) perfScript []
  let d := d.finish surroundings.order
  { trace := d.reconstructor.writer.output
    stderr := Log.debug level (shownCommand (text "perf script command:") scriptArgs) ++
      d.reconstructor.writer.stderr ++
      closingMessages filterConfig.startSymbol d.filter.startSymbolMissing d.filter.sliceCount
        d.eventCount output perfScript.wait.2
    exitCode := 0 }

end Tracey
