import Tracey.FiniteMap
import Tracey.FxtRecord
import Tracey.Numerals

/-!
# The FXT writer

The state and the public operations of `FxtWriter`. The hash tables are finite
maps; wherever the source iterates over one, the order is left to the list that
represents it, and the invariants show that the result does not depend on it.
The sink is the list of records emitted so far, whose bytes are `output`.
Messages for the standard error stream are kept beside it.

A record's sizes, casts and truncations are computed when it is encoded; the
operations here decide which records are emitted, with which ids and slots.
-/

namespace Tracey

open FiniteMap Numerals

/-- A process and thread id, as the writer's thread table holds them: in 64
bits, where the events carry 32. -/
structure ThreadId where
  pid : UInt64
  tid : UInt64
deriving DecidableEq, Repr

/-- The writer's tables and counters, and what it has written. String ids start
at 1, since 0 refers to the empty string; the counter of the thread slots is one
byte and wraps. -/
structure FxtWriter where
  records : List Record := []
  stderr : List Text := []
  stringTable : Table Text UInt16 := ∅
  nextStringId : UInt16 := 1
  stringIdWarningIssued : Bool := false
  threadTable : Table ThreadId UInt8 := ∅
  namedProcesses : Finset UInt64 := ∅
  nextThreadSlot : UInt8 := 0

namespace FxtWriter

/-- The greatest string id, the last one of 15 bits. Id 0 is the empty string. -/
def maxStringId : UInt16 := 32767

/-- How many slots there are for threads, from slot 1 on. Slot 0 is never handed
out. -/
def maxThreadSlots : UInt8 := 255

/-- The event that begins a duration. Its end is found by the order of the
events of the thread, not by its name. -/
def eventDurationBegin : UInt8 := 2

/-- The event that ends a duration: the one that was begun last on its thread
and has not been ended. -/
def eventDurationEnd : UInt8 := 3

/-- The bytes of the trace written so far. A record is encoded when it is
emitted, and nothing that was written is changed later. -/
def output (w : FxtWriter) : List UInt8 := w.records.flatMap Record.encode

/-- Hand one record to the sink. This is the only place where something is
written. -/
def emit (w : FxtWriter) (record : Record) : FxtWriter :=
  { w with records := w.records ++ [record] }

/-- Print a message on the standard error stream. No message goes into the
trace. -/
def warn (w : FxtWriter) (message : Text) : FxtWriter :=
  { w with stderr := w.stderr ++ [message] }

/-- The warning about a string that does not fit into a record; it shows the
first 60 bytes. -/
def symbolTooLong (s : Text) : Text :=
  text "warning: symbol name too long (" ++ decimal s.length ++ text " bytes). Truncating: " ++
    s.take 60 ++ text "...\n"

/-- The warning that the string ids are used up. It is printed once in the life
of a writer. -/
def stringIdLimitReached : Text :=
  text "warning: string ID limit reached (" ++ decimal maxStringId.toNat ++
    text " unique symbols). Evicting old entries.\n"

/-- Write a string record, with a warning first if the string has to be cut. The
table keeps the whole string, so that it is cut only once. -/
def emitStringRecord (w : FxtWriter) (id : UInt16) (s : Text) : FxtWriter :=
  (if s.length > maxStringLength then w.warn (symbolTooLong s) else w).emit (.string id s)

/-- Write a thread record: from here on the slot stands for this thread in the
file, whatever it stood for before. -/
def emitThreadRecord (w : FxtWriter) (slot : UInt8) (pid tid : UInt64) : FxtWriter :=
  w.emit (.thread slot pid tid)

/-- The magic number, the provider and the time base, in the order of the file.
The operation may be called again; no table is touched. -/
def writePreamble (w : FxtWriter) (providerName : Text) (providerId : UInt32)
    (ticksPerSecond baseTicks baseTimeNs : UInt64) : FxtWriter :=
  (((w.emit .magicNumber).emit (.providerInfo providerId providerName)).emit
    (.providerSection providerId)).emit (.init ticksPerSecond baseTicks baseTimeNs)

/-- The table entry with the smallest id, found by one pass over the table. Ids
are distinct, so the result does not depend on the order of the pass. -/
def victim (table : Table Text UInt16) : Option (Σ _ : Text, UInt16) :=
  match table.entries with
  | [] => none
  | first :: rest =>
    some (rest.foldl (fun victim entry => if entry.2 < victim.2 then entry else victim) first)

/-- Warn once that the ids are used up. Strings that are evicted later are not
reported. -/
def warnStringIds (w : FxtWriter) : FxtWriter :=
  if w.stringIdWarningIssued then w
  else { w.warn stringIdLimitReached with stringIdWarningIssued := true }

/-- The id of a string: none for the empty string, the table's for a known one,
the next free one for a new one, and a reclaimed one when all are used. An empty
table has no entry to reclaim; the source would then read past its end, which
the table's invariant rules out. -/
def internString (w : FxtWriter) (s : Text) : FxtWriter × UInt16 :=
  if s = [] then (w, 0)
  else
    match w.stringTable.lookup s with
    | some id => (w, id)
    | none =>
      if w.nextStringId ≤ maxStringId then
        let id := w.nextStringId
        let w := { w with
          nextStringId := w.nextStringId + 1
          stringTable := w.stringTable.insert s id }
        (w.emitStringRecord id s, id)
      else
        let w := w.warnStringIds
        match victim w.stringTable with
        | some entry =>
          let id := entry.2
          let w := { w with stringTable := (w.stringTable.erase entry.1).insert s id }
          (w.emitStringRecord id s, id)
        | none => (w, 0)

/-- Name a process. Its name is interned first, so that the record can refer to
it. -/
def writeProcessName (w : FxtWriter) (pid : UInt64) (name : Text) : FxtWriter :=
  let (w, nameId) := w.internString name
  w.emit (.processObject nameId pid)

/-- Name a thread, and refer it to its process under the name `process`. -/
def writeThreadName (w : FxtWriter) (pid tid : UInt64) (name : Text) : FxtWriter :=
  let (w, nameId) := w.internString name
  let (w, processStrId) := w.internString (text "process")
  w.emit (.threadObject nameId tid processStrId pid)

/-- The name shown for a process that has not been named. It is written when the
first thread of the process gets a slot. -/
def processLabel (pid : UInt64) : Text := text "[pid=" ++ decimal pid.toNat ++ text "]"

/-- The name shown for a thread. It is written again whenever the thread gets a
new slot. -/
def threadLabel (tid : UInt64) : Text := text "[tid=" ++ decimal tid.toNat ++ text "]"

/-- Remove the first entry that holds a slot. There is at most one, and none
before the slots have been used once. -/
def dropSlot (table : Table ThreadId UInt8) (slot : UInt8) :
    Table ThreadId UInt8 :=
  match table.entries.find? (fun entry => entry.2 == slot) with
  | some entry => table.erase entry.1
  | none => table

/-- The slot of a thread. A new thread takes the next slot of the circular
buffer, whose previous owner leaves the table, and its names are written; the
process is named with its first thread only. -/
def ensureThread (w : FxtWriter) (pid tid : UInt64) : FxtWriter × UInt8 :=
  match w.threadTable.lookup ⟨pid, tid⟩ with
  | some slot => (w, slot)
  | none =>
    let slot := w.nextThreadSlot % maxThreadSlots + 1
    let w := { w with
      nextThreadSlot := w.nextThreadSlot + 1
      threadTable := (dropSlot w.threadTable slot).insert ⟨pid, tid⟩ slot }
    let w := w.emitThreadRecord slot pid tid
    let w :=
      if pid ∈ w.namedProcesses then w
      else { w with namedProcesses := insert pid w.namedProcesses }.writeProcessName pid
        (processLabel pid)
    (w.writeThreadName pid tid (threadLabel tid), slot)

/-- Write an event whose references the caller has already got. They are written
as they are, also if the tables have moved on since. -/
def writeEventById (w : FxtWriter) (eventType threadRef : UInt8) (categoryId nameId : UInt16)
    (timestamp : UInt64) : FxtWriter :=
  w.emit (.event eventType threadRef categoryId nameId timestamp)

/-- Write an event. Its thread, its category and its name get their records
first if they are new, in this order. -/
def emitEvent (w : FxtWriter) (eventType : UInt8) (pid tid : UInt64) (category name : Text)
    (timestamp : UInt64) : FxtWriter :=
  let (w, threadRef) := w.ensureThread pid tid
  let (w, catId) := w.internString category
  let (w, nameId) := w.internString name
  w.emit (.event eventType threadRef catId nameId timestamp)

/-- Begin a duration on a thread. The thread and the texts need not have been
announced before. -/
def writeDurationBegin (w : FxtWriter) (pid tid : UInt64) (category name : Text)
    (timestamp : UInt64) : FxtWriter :=
  w.emitEvent eventDurationBegin pid tid category name timestamp

/-- End a duration on a thread. The name is written again, although viewers do
not need it. -/
def writeDurationEnd (w : FxtWriter) (pid tid : UInt64) (category name : Text)
    (timestamp : UInt64) : FxtWriter :=
  w.emitEvent eventDurationEnd pid tid category name timestamp

end FxtWriter

/-- A call of one of the writer's public operations. The type of an event
written by id fits the four bits it has in the record. -/
inductive WriterCall where
  | preamble (providerName : Text) (providerId : UInt32)
      (ticksPerSecond baseTicks baseTimeNs : UInt64)
  | internString (s : Text)
  | ensureThread (pid tid : UInt64)
  | durationBegin (pid tid : UInt64) (category name : Text) (timestamp : UInt64)
  | durationEnd (pid tid : UInt64) (category name : Text) (timestamp : UInt64)
  | eventById (eventType : { code : UInt8 // code.toNat < 2 ^ 4 }) (threadRef : UInt8)
      (categoryId nameId : UInt16) (timestamp : UInt64)
  | processName (pid : UInt64) (name : Text)
  | threadName (pid tid : UInt64) (name : Text)

namespace FxtWriter

/-- Perform one call, dropping the value it returns. Callers pass ids and slots
back in by `eventById`, and any values of theirs are allowed. -/
def perform (w : FxtWriter) : WriterCall → FxtWriter
  | .preamble providerName providerId ticksPerSecond baseTicks baseTimeNs =>
    w.writePreamble providerName providerId ticksPerSecond baseTicks baseTimeNs
  | .internString s => (w.internString s).1
  | .ensureThread pid tid => (w.ensureThread pid tid).1
  | .durationBegin pid tid category name timestamp =>
    w.writeDurationBegin pid tid category name timestamp
  | .durationEnd pid tid category name timestamp =>
    w.writeDurationEnd pid tid category name timestamp
  | .eventById eventType threadRef categoryId nameId timestamp =>
    w.writeEventById eventType.1 threadRef categoryId nameId timestamp
  | .processName pid name => w.writeProcessName pid name
  | .threadName pid tid name => w.writeThreadName pid tid name

/-- The state a fresh writer reaches by a sequence of calls. An invariant of the
writer is what holds of all these states. -/
def afterCalls (calls : List WriterCall) : FxtWriter := calls.foldl perform {}

end FxtWriter

end Tracey
