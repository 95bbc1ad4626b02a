import Mathlib

/-!
# Events parsed from the output of perf script

The event types of `perf_event.hpp`. A symbol, a message and every other
`std::string` is a list of bytes: nothing in the program depends on an encoding,
and the recorded trace stores the bytes as they are. Machine integers keep the
widths the header declares.

The defaults written in the header are the defaults here, so a partially built
event (a trace end with no source, say) is the value the program builds.
-/

namespace Tracey

/-- The bytes of a `std::string` or `std::string_view`. -/
abbrev Text := List UInt8

/-- The bytes of an ASCII literal of the source. -/
def text (literal : String) : Text := literal.toList.map (fun character => character.toNat.toUInt8)

/-- The byte of an ASCII character literal of the source. -/
def byte (character : Char) : UInt8 := character.toNat.toUInt8

/-- Kind of a branch in an Intel PT trace, by the word that perf prints for it.
A branch with another word has no kind and is kept all the same. -/
inductive BranchKind where
  | call
  | return
  | jump
  | syscall
  | sysret
  | hardwareInterrupt
  | interrupt
  | iret
  | async
  | txAbort
deriving DecidableEq, Repr

/-- Change of the trace state carried by a branch. Tracing of the thread starts
or ends with it, so what ran before, or runs behind it, is not known from the
trace. -/
inductive TraceState where
  | none
  | start
  | end
deriving DecidableEq, Repr

/-- The named sampling events. A line of such an event counts at one location,
where a sample of `cycles` carries a whole stack. -/
inductive SampleEventName where
  | branchMisses
  | cacheMisses
deriving DecidableEq, Repr

/-- A resolved code location: the address, the symbol and the offset in it. By
default it is address 0 with an empty symbol. -/
structure Location where
  ip : UInt64 := 0
  symbol : Text := []
  symbolOffset : Int32 := 0
deriving DecidableEq, Repr

/-- A branch from `src` to `dst`. Without a kind and with no change of the trace
state it still counts as an event of its thread. -/
structure BranchData where
  kind : Option BranchKind := none
  traceState : TraceState := .none
  inTransaction : Bool := false
  src : Location := {}
  dst : Location := {}
deriving DecidableEq, Repr

/-- A change of the processor frequency. The line names a thread, as for every
event, but the reconstructor ignores it. -/
structure PowerData where
  freqMhz : UInt32 := 0
deriving DecidableEq, Repr

/-- A sampled call stack, outermost frame first. perf prints the frames the
other way round. -/
structure StacktraceSampleData where
  callstack : List Location := []
deriving DecidableEq, Repr

/-- A sampled event at one location. The count is kept as a field although the
parser always sets it to 1. -/
structure EventSampleData where
  location : Location := {}
  count : Int32 := 0
  name : SampleEventName := .branchMisses
deriving DecidableEq, Repr

/-- The data of a successfully parsed event. Of its four kinds only branches and
stack samples change the stack of a thread. -/
inductive EventData where
  | branch (data : BranchData)
  | power (data : PowerData)
  | stacktraceSample (data : StacktraceSampleData)
  | eventSample (data : EventSampleData)
deriving DecidableEq, Repr

/-- A successfully parsed event of one thread. Its time is in nanoseconds, on
the clock of the recording and not yet relative to its first event. -/
structure OkEvent where
  pid : UInt32 := 0
  tid : UInt32 := 0
  timeNs : UInt64 := 0
  data : EventData
deriving DecidableEq, Repr

/-- A decode error reported by perf for one thread, possibly without a time.
Only an error with a time has an effect: it closes the functions of its thread. -/
structure DecodeError where
  pid : UInt32 := 0
  tid : UInt32 := 0
  timeNs : Option UInt64 := none
  ip : Option UInt64 := none
  message : Text := []
deriving DecidableEq, Repr

/-- A parsed event, or the report that a part of the trace could not be decoded.
A group of lines that is neither gives no event at all. -/
inductive Event where
  | ok (event : OkEvent)
  | decodeError (error : DecodeError)
deriving DecidableEq, Repr

end Tracey
