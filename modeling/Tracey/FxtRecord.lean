import Tracey.BitLayout
import Tracey.PerfEvent

/-!
# Records of the Fuchsia Trace Format

The record layouts of `fxt.bes.xml`, the bytes the writer hands to its sink for
each record, and a reader of those bytes. The generated wire types are taken to
pack the fields of a message contiguously, least significant field first, in
little-endian bytes with zero padding, which is what the layout file states.

A record holds the arguments of the function that emits it; the casts, the
truncations and the word counts of that function are part of `encode`. The
reader is strict: it accepts only the declared sizes and zero padding, and it
returns what the file stores, which for an overlong string or provider name is
the cut text.
-/

namespace Tracey

open BitLayout

/-- The records the writer emits, with the values they are emitted for. Texts
are kept whole here; how much of them is stored is decided when a record is
encoded. -/
inductive Record where
  | magicNumber
  | providerInfo (providerId : UInt32) (name : Text)
  | providerSection (providerId : UInt32)
  | init (ticksPerSecond baseTicks baseTimeNs : UInt64)
  | string (id : UInt16) (value : Text)
  | thread (slot : UInt8) (pid tid : UInt64)
  | event (eventType threadRef : UInt8) (categoryRef nameRef : UInt16) (timestamp : UInt64)
  | processObject (nameRef : UInt16) (pid : UInt64)
  | threadObject (nameRef : UInt16) (tid : UInt64) (processRef : UInt16) (pid : UInt64)
deriving DecidableEq, Repr

namespace Wire

/-! The messages of `fxt.bes.xml` that the writer uses, as functions of their fields. -/

/-- The magic number is one word that no field divides. -/
def magicNumberRecord (magic : Nat) : Message := [(64, magic)]

/-- The second of the metadata records, which begins the section of a provider. -/
def providerSectionMetadata (rtype rsize mtype providerId : Nat) : Message :=
  [(4, rtype), (12, rsize), (4, mtype), (32, providerId), (12, 0)]

/-- The record of the clock: how many ticks a second has, and which tick and
which time of the wall clock are the base. -/
def initRecord (rtype rsize ticksPerSecond baseTicks baseTimeNs : Nat) : Message :=
  [(4, rtype), (12, rsize), (48, 0), (64, ticksPerSecond), (64, baseTicks), (64, baseTimeNs)]

/-- The record that puts a thread into a slot, by which events then refer to it.
The index is never 0, which has a meaning of its own in an event. -/
def threadRecord (rtype rsize threadIndex pid tid : Nat) : Message :=
  [(4, rtype), (12, rsize), (8, threadIndex), (40, 0), (64, pid), (64, tid)]

/-- The header of the first metadata record. The name of the provider follows,
padded to words. -/
def providerInfoHeader (rtype rsize mtype providerId nameLen : Nat) : Message :=
  [(4, rtype), (12, rsize), (4, mtype), (32, providerId), (8, nameLen), (4, 0)]

/-- The header of a string record. The id and the length of the text have 15
bits each, and what is around them is reserved. -/
def stringRecordHeader (rtype rsize stringId strLen : Nat) : Message :=
  [(4, rtype), (12, rsize), (15, stringId), (1, 0), (15, strLen), (17, 0)]

/-- An event with its thread, its category and its name by reference. The events
of this program have no arguments. -/
def eventRecordHeader (rtype rsize eventType numArgs threadRef categoryRef nameRef
    timestamp : Nat) : Message :=
  [(4, rtype), (12, rsize), (4, eventType), (4, numArgs), (8, threadRef), (16, categoryRef),
    (16, nameRef), (64, timestamp)]

/-- The header of a kernel object, here a process or a thread, with its name by
reference. -/
def kernelObjectHeader (rtype rsize objType nameRef numArgs koid : Nat) : Message :=
  [(4, rtype), (12, rsize), (8, objType), (16, nameRef), (4, numArgs), (20, 0), (64, koid)]

/-- An argument of a kernel object that refers to another one, such as the
process of a thread. -/
def argKoid (argType argSize argName value : Nat) : Message :=
  [(4, argType), (12, argSize), (16, argName), (32, 0), (64, value)]

end Wire

namespace FxtWriter

/-- The word that a trace begins with, by which viewers recognize the format. -/
def fxtMagic : Nat := 0x0016547846040010

/-- The type of the metadata records, the magic number among them. -/
def rtypeMetadata : Nat := 0

/-- The type of the record of the clock. -/
def rtypeInit : Nat := 1

/-- The type of string records. -/
def rtypeString : Nat := 2

/-- The type of thread records. -/
def rtypeThread : Nat := 3

/-- The type of events. -/
def rtypeEvent : Nat := 4

/-- The type of kernel objects. -/
def rtypeKernelObject : Nat := 7

/-- The metadata type of the record that names the provider. -/
def mtypeProviderInfo : Nat := 1

/-- The metadata type of the record that begins a section. -/
def mtypeProviderSection : Nat := 2

/-- The kind of kernel object that a process is. -/
def objTypeProcess : Nat := 1

/-- The kind of kernel object that a thread is. -/
def objTypeThread : Nat := 2

/-- The type of an argument that refers to a kernel object. -/
def argTypeKoid : Nat := 8

/-- The longest string that a record stores, in bytes. The length field has 15
bits, of which the source uses a little less. -/
def maxStringLength : Nat := 31999

/-- The number of words that hold some bytes, as a 16-bit count. No byte takes
no word. -/
def wordsForBytes (bytes : Nat) : UInt16 := UInt16.ofNat ((bytes + 7) / 8)

/-- The zero bytes that complete the last word, `-byte_count & 7` of them. A
text that fills its last word gets none. -/
def padToWord (byteCount : Nat) : List UInt8 := List.replicate ((8 - byteCount % 8) % 8) 0

/-- The text a string record stores: an overlong string is cut and marked. The
mark is 14 bytes long, and what is left of the string 31984 bytes. -/
def effective (s : Text) : Text :=
  if s.length > maxStringLength then s.take (maxStringLength - 15) ++ text "<...truncated>" else s

/-- The stored length of a provider name. A longer name is cut at 255 bytes,
without a mark. -/
def providerNameLen (name : Text) : UInt8 := UInt8.ofNat (min name.length 255)

/-- The stored length of a string. It never exceeds the limit, so that nothing
is lost in 16 bits. -/
def strLen (s : Text) : UInt16 := UInt16.ofNat (effective s).length

end FxtWriter

namespace Record

open FxtWriter

/-- The fixed-size message a record starts with. Its first fields are the type
and the size in words, but for the magic number. -/
def header : Record → Message
  | magicNumber => Wire.magicNumberRecord fxtMagic
  | providerInfo providerId name =>
    Wire.providerInfoHeader rtypeMetadata (1 + wordsForBytes (providerNameLen name).toNat).toNat
      mtypeProviderInfo providerId.toNat (providerNameLen name).toNat
  | providerSection providerId =>
    Wire.providerSectionMetadata rtypeMetadata 1 mtypeProviderSection providerId.toNat
  | init ticksPerSecond baseTicks baseTimeNs =>
    Wire.initRecord rtypeInit 4 ticksPerSecond.toNat baseTicks.toNat baseTimeNs.toNat
  | string id value =>
    Wire.stringRecordHeader rtypeString (1 + wordsForBytes (strLen value).toNat).toNat
      id.toNat (strLen value).toNat
  | thread slot pid tid => Wire.threadRecord rtypeThread 3 slot.toNat pid.toNat tid.toNat
  | event eventType threadRef categoryRef nameRef timestamp =>
    Wire.eventRecordHeader rtypeEvent 2 eventType.toNat 0 threadRef.toNat categoryRef.toNat
      nameRef.toNat timestamp.toNat
  | processObject nameRef pid =>
    Wire.kernelObjectHeader rtypeKernelObject 2 objTypeProcess nameRef.toNat 0 pid.toNat
  | threadObject nameRef tid _ _ =>
    Wire.kernelObjectHeader rtypeKernelObject 4 objTypeThread nameRef.toNat 1 tid.toNat

/-- The argument message that follows the header of a thread's kernel object. No
other record has one. -/
def argument : Record → Message
  | threadObject _ _ processRef pid => Wire.argKoid argTypeKoid 2 processRef.toNat pid.toNat
  | _ => []

/-- The text that follows the header of a string or provider record, with its
padding. -/
def payload : Record → List UInt8
  | providerInfo _ name =>
    name.take (providerNameLen name).toNat ++ padToWord (providerNameLen name).toNat
  | string _ value => (effective value).take (strLen value).toNat ++ padToWord (strLen value).toNat
  | _ => []

/-- The bytes the sink receives for a record. The text of a record follows its
header and is filled up to whole words. -/
def encode (record : Record) : List UInt8 :=
  buffer record.header ++ buffer record.argument ++ record.payload

/-- The record as the file stores it: overlong texts are cut, all else is kept.
A file keeps nothing else of what was emitted. -/
def stored : Record → Record
  | providerInfo providerId name => providerInfo providerId (name.take 255)
  | string id value => string id (effective value)
  | record => record

/-- No field of the record's messages exceeds its declared width. No bit of a
field reaches into its neighbour then. -/
def FieldsFit (record : Record) : Prop := Fits record.header ∧ Fits record.argument

/-- The size in bytes that the first word of a record announces. A size field of
0 announces nothing; no record has one. -/
def announcedSize (stream : List UInt8) : Nat :=
  match readFields [4, 12] stream with
  | [_, rsize] => 8 * rsize
  | _ => 0

/-- Read one of the metadata records, told apart by the metadata type. The word
of the magic number has no such type and is compared as a whole. -/
def decodeMetadata (chunk : List UInt8) : Option Record :=
  match readFields [4, 12, 4, 44] chunk with
  | [_, _, 1, _] =>
    match readFields [4, 12, 4, 32, 8, 4] chunk with
    | [_, _, _, providerId, nameLen, 0] =>
      if (chunk.drop 8).drop nameLen = padToWord nameLen then
        some (providerInfo (UInt32.ofNat providerId) ((chunk.drop 8).take nameLen))
      else none
    | _ => none
  | [_, _, 2, _] =>
    match readFields [4, 12, 4, 32, 12] chunk with
    | [_, 1, _, providerId, 0] => some (providerSection (UInt32.ofNat providerId))
    | _ => none
  | _ => if chunk = buffer (Wire.magicNumberRecord fxtMagic) then some magicNumber else none

/-- Read the record of the clock, whose reserved bits have to be 0. -/
def decodeInit (chunk : List UInt8) : Option Record :=
  match readFields [4, 12, 48, 64, 64, 64] chunk with
  | [_, 4, 0, ticksPerSecond, baseTicks, baseTimeNs] =>
    some (init (UInt64.ofNat ticksPerSecond) (UInt64.ofNat baseTicks) (UInt64.ofNat baseTimeNs))
  | _ => none

/-- Read a string record. The bytes behind the text have to be the padding that
its length calls for, so that no byte of a record is left unread. -/
def decodeString (chunk : List UInt8) : Option Record :=
  match readFields [4, 12, 15, 1, 15, 17] chunk with
  | [_, _, id, 0, strLen, 0] =>
    if (chunk.drop 8).drop strLen = padToWord strLen then
      some (string (UInt16.ofNat id) ((chunk.drop 8).take strLen))
    else none
  | _ => none

/-- Read a thread record, which is three words long. -/
def decodeThread (chunk : List UInt8) : Option Record :=
  match readFields [4, 12, 8, 40, 64, 64] chunk with
  | [_, 3, slot, 0, pid, tid] =>
    some (thread (UInt8.ofNat slot) (UInt64.ofNat pid) (UInt64.ofNat tid))
  | _ => none

/-- Read an event, which is two words long as long as it has no arguments. -/
def decodeEvent (chunk : List UInt8) : Option Record :=
  match readFields [4, 12, 4, 4, 8, 16, 16, 64] chunk with
  | [_, 2, eventType, 0, threadRef, categoryRef, nameRef, timestamp] =>
    some (event (UInt8.ofNat eventType) (UInt8.ofNat threadRef) (UInt16.ofNat categoryRef)
      (UInt16.ofNat nameRef) (UInt64.ofNat timestamp))
  | _ => none

/-- Read a process or a thread. A thread has one argument, which refers to its
process. -/
def decodeKernelObject (chunk : List UInt8) : Option Record :=
  match readFields [4, 12, 8, 16, 4, 20, 64] chunk with
  | [_, 2, 1, nameRef, 0, 0, pid] => some (processObject (UInt16.ofNat nameRef) (UInt64.ofNat pid))
  | [_, 4, 2, nameRef, 1, 0, tid] =>
    match readFields [4, 12, 16, 32, 64] (chunk.drop 16) with
    | [8, 2, processRef, 0, pid] =>
      some (threadObject (UInt16.ofNat nameRef) (UInt64.ofNat tid) (UInt16.ofNat processRef)
        (UInt64.ofNat pid))
    | _ => none
  | _ => none

/-- Read one record from the bytes its first word announces. A record whose type
is none of the writer's is not read. -/
def decode (chunk : List UInt8) : Option Record :=
  match readFields [4, 12] chunk with
  | [0, _] => decodeMetadata chunk
  | [1, _] => decodeInit chunk
  | [2, _] => decodeString chunk
  | [3, _] => decodeThread chunk
  | [4, _] => decodeEvent chunk
  | [7, _] => decodeKernelObject chunk
  | _ => none

/-- Walk the bytes of a trace record by record and read each of them. A trace is
read whole or not at all: one bad record refuses it. -/
def readTrace (bytes : List UInt8) : Option (List Record) :=
  (walk announcedSize bytes.length bytes).bind (fun chunks => chunks.mapM decode)

/-- What the writer keeps to: string ids have 15 bits and event types 4. All
other values fit their fields by their types. -/
def WellFormed : Record → Prop
  | string id _ => id.toNat < 2 ^ 15
  | event eventType _ _ _ _ => eventType.toNat < 2 ^ 4
  | _ => True

end Record

namespace FxtWriter

/-- A stored string is never longer than the limit, marker included. A string of
exactly that length is not cut. -/
theorem effective_length (s : Text) : (effective s).length ≤ maxStringLength := by
  unfold effective
  split
  · have marker : (text "<...truncated>").length = 14 := by decide
    simp only [List.length_append, List.length_take, marker, maxStringLength]
    omega
  · omega

/-- The empty string is stored as it is. -/
@[simp] theorem effective_nil : effective [] = [] := rfl

/-- The length that a string record announces is that of the text it stores: the
text is cut before its length is narrowed to 16 bits. -/
theorem strLen_toNat (s : Text) : (strLen s).toNat = (effective s).length := by
  have bound : (effective s).length ≤ maxStringLength := effective_length s
  simp only [maxStringLength] at bound
  rw [strLen, UInt16.toNat_ofNat_of_lt' (by change _ < 65536; omega)]

/-- The length of the provider's name is narrowed to 8 bits only after it has
been bounded. -/
theorem providerNameLen_toNat (name : Text) :
    (providerNameLen name).toNat = min name.length 255 := by
  rw [providerNameLen, UInt8.toNat_ofNat_of_lt' (by change _ < 256; omega)]

/-- The size word counts the header and the padded text, without overflow. The
limit on the length is what rules the overflow out. -/
theorem rsize_toNat (bytes : Nat) (bound : bytes ≤ maxStringLength) :
    (1 + wordsForBytes bytes).toNat = 1 + (bytes + 7) / 8 := by
  simp only [maxStringLength] at bound
  rw [wordsForBytes, UInt16.toNat_add, UInt16.toNat_ofNat_of_lt' (by change _ < 65536; omega)]
  change (1 + (bytes + 7) / 8) % 65536 = _
  omega

/-- Text and padding fill the counted words. The reader finds the next record
right behind them. -/
theorem length_padToWord (byteCount : Nat) :
    byteCount + (padToWord byteCount).length = 8 * ((byteCount + 7) / 8) := by
  simp only [padToWord, List.length_replicate]
  omega

end FxtWriter

namespace Record

open FxtWriter

/-! Every field of a record fits its width: the counts because the texts are cut
first, the others because the integer types are as wide, or because the record
is well formed. -/

/-- A message without fields fits. -/
theorem fits_nil : Fits [] := by
  intro field member
  cases member

/-- The fields of the provider's name fit, since its length is bounded by what 8
bits can say. -/
theorem providerInfo_fits (providerId : UInt32) (name : Text) :
    Fits (header (providerInfo providerId name)) := by
  have nameBound : (providerNameLen name).toNat ≤ 255 := by rw [providerNameLen_toNat]; omega
  have size := rsize_toNat (providerNameLen name).toNat (by simp only [maxStringLength]; omega)
  have idBound := providerId.toNat_lt
  simp only [header, Wire.providerInfoHeader, Fits, List.forall_mem_cons, size, rtypeMetadata,
    mtypeProviderInfo]
  refine ⟨?_, ?_, ?_, ?_, ?_, ?_, by simp⟩ <;> omega

/-- The fields that begin a section fit. -/
theorem providerSection_fits (providerId : UInt32) :
    Fits (header (providerSection providerId)) := by
  have idBound := providerId.toNat_lt
  simp only [header, Wire.providerSectionMetadata, Fits, List.forall_mem_cons, rtypeMetadata,
    mtypeProviderSection]
  refine ⟨?_, ?_, ?_, ?_, ?_, by simp⟩ <;> omega

/-- The fields of the clock fit: each number has a word of its own. -/
theorem init_fits (ticksPerSecond baseTicks baseTimeNs : UInt64) :
    Fits (header (init ticksPerSecond baseTicks baseTimeNs)) := by
  have ticksBound := ticksPerSecond.toNat_lt
  have baseBound := baseTicks.toNat_lt
  have timeBound := baseTimeNs.toNat_lt
  simp only [header, Wire.initRecord, Fits, List.forall_mem_cons, rtypeInit]
  refine ⟨?_, ?_, ?_, ?_, ?_, ?_, by simp⟩ <;> omega

/-- The size of a string record fits because the text is cut. Its id is the only
value that has to be bounded by the writer. -/
theorem string_fits {id : UInt16} (idBound : id.toNat < 2 ^ 15) (value : Text) :
    Fits (header (string id value)) := by
  have length : (strLen value).toNat ≤ maxStringLength := by
    rw [strLen_toNat]
    exact effective_length value
  have size := rsize_toNat (strLen value).toNat length
  simp only [maxStringLength] at length
  simp only [header, Wire.stringRecordHeader, Fits, List.forall_mem_cons, size, rtypeString]
  refine ⟨?_, ?_, ?_, ?_, ?_, ?_, by simp⟩ <;> omega

/-- The fields of a thread record fit. -/
theorem thread_fits (slot : UInt8) (pid tid : UInt64) : Fits (header (thread slot pid tid)) := by
  have slotBound := slot.toNat_lt
  have pidBound := pid.toNat_lt
  have tidBound := tid.toNat_lt
  simp only [header, Wire.threadRecord, Fits, List.forall_mem_cons, rtypeThread]
  refine ⟨?_, ?_, ?_, ?_, ?_, ?_, by simp⟩ <;> omega

/-- The fields of an event fit if its type is one of the sixteen that four bits
can say. -/
theorem event_fits {eventType : UInt8} (typeBound : eventType.toNat < 2 ^ 4) (threadRef : UInt8)
    (categoryRef nameRef : UInt16) (timestamp : UInt64) :
    Fits (header (event eventType threadRef categoryRef nameRef timestamp)) := by
  have threadBound := threadRef.toNat_lt
  have categoryBound := categoryRef.toNat_lt
  have nameBound := nameRef.toNat_lt
  have timeBound := timestamp.toNat_lt
  simp only [header, Wire.eventRecordHeader, Fits, List.forall_mem_cons, rtypeEvent]
  refine ⟨?_, ?_, ?_, ?_, ?_, ?_, ?_, ?_, by simp⟩ <;> omega

/-- The fields of a process fit. -/
theorem processObject_fits (nameRef : UInt16) (pid : UInt64) :
    Fits (header (processObject nameRef pid)) := by
  have nameBound := nameRef.toNat_lt
  have pidBound := pid.toNat_lt
  simp only [header, Wire.kernelObjectHeader, Fits, List.forall_mem_cons, rtypeKernelObject,
    objTypeProcess]
  refine ⟨?_, ?_, ?_, ?_, ?_, ?_, ?_, by simp⟩ <;> omega

/-- The fields in the header of a thread fit. -/
theorem threadObject_fits (nameRef : UInt16) (tid : UInt64) (processRef : UInt16) (pid : UInt64) :
    Fits (header (threadObject nameRef tid processRef pid)) := by
  have nameBound := nameRef.toNat_lt
  have tidBound := tid.toNat_lt
  simp only [header, Wire.kernelObjectHeader, Fits, List.forall_mem_cons, rtypeKernelObject,
    objTypeThread]
  refine ⟨?_, ?_, ?_, ?_, ?_, ?_, ?_, by simp⟩ <;> omega

/-- The argument of a thread object names the process and says which one it is.
Both are within its fields by their types. -/
theorem koid_fits (nameRef : UInt16) (tid : UInt64) (processRef : UInt16) (pid : UInt64) :
    Fits (argument (threadObject nameRef tid processRef pid)) := by
  have processBound := processRef.toNat_lt
  have pidBound := pid.toNat_lt
  simp only [argument, Wire.argKoid, Fits, List.forall_mem_cons, argTypeKoid]
  refine ⟨?_, ?_, ?_, ?_, ?_, by simp⟩ <;> omega

/-- Every field of a well-formed record fits its width. Only a thread object has
fields besides those of its header. -/
theorem fields_fit (record : Record) (wellFormed : record.WellFormed) : record.FieldsFit := by
  cases record with
  | magicNumber => exact ⟨by decide, fits_nil⟩
  | providerInfo providerId name => exact ⟨providerInfo_fits providerId name, fits_nil⟩
  | providerSection providerId => exact ⟨providerSection_fits providerId, fits_nil⟩
  | init ticksPerSecond baseTicks baseTimeNs =>
    exact ⟨init_fits ticksPerSecond baseTicks baseTimeNs, fits_nil⟩
  | string id value => exact ⟨string_fits wellFormed value, fits_nil⟩
  | thread slot pid tid => exact ⟨thread_fits slot pid tid, fits_nil⟩
  | event eventType threadRef categoryRef nameRef timestamp =>
    exact ⟨event_fits wellFormed threadRef categoryRef nameRef timestamp, fits_nil⟩
  | processObject nameRef pid => exact ⟨processObject_fits nameRef pid, fits_nil⟩
  | threadObject nameRef tid processRef pid =>
    exact ⟨threadObject_fits nameRef tid processRef pid, koid_fits nameRef tid processRef pid⟩

/-- The number of words a record occupies. Only texts make a difference in it. -/
def words : Record → Nat
  | magicNumber => 1
  | providerInfo _ name => 1 + (min name.length 255 + 7) / 8
  | providerSection _ => 1
  | init _ _ _ => 4
  | string _ value => 1 + ((effective value).length + 7) / 8
  | thread _ _ _ => 3
  | event _ _ _ _ _ => 2
  | processObject _ _ => 2
  | threadObject _ _ _ _ => 4

/-- The record type stored in the lowest four bits. The three metadata records
share one type and are told apart by another field. -/
def rtype : Record → Nat
  | magicNumber | providerInfo _ _ | providerSection _ => rtypeMetadata
  | init _ _ _ => rtypeInit
  | string _ _ => rtypeString
  | thread _ _ _ => rtypeThread
  | event _ _ _ _ _ => rtypeEvent
  | processObject _ _ | threadObject _ _ _ _ => rtypeKernelObject

/-- No record is empty, so that walking a trace comes to an end. -/
theorem words_pos (record : Record) : 0 < record.words := by
  cases record <;> simp only [words] <;> omega

/-- A text and its padding fill whole words. -/
theorem length_padded (value : Text) (count : Nat) (exact : count = value.length) :
    (value.take count ++ padToWord count).length = 8 * ((value.length + 7) / 8) := by
  subst exact
  rw [List.length_append, List.length_take, Nat.min_self, length_padToWord]

/-- The bytes handed to the sink fill exactly the record's words. So the size
word says the truth, and a reader that believes it stays in step. -/
theorem length_encode (record : Record) : record.encode.length = 8 * record.words := by
  cases record with
  | providerInfo providerId name =>
    have cut : (name.take 255).length = min name.length 255 := by
      rw [List.length_take, Nat.min_comm]
    have same : name.take (providerNameLen name).toNat =
        (name.take 255).take (providerNameLen name).toNat := by
      rw [List.take_take, providerNameLen_toNat]
      congr 1
      omega
    have padded := length_padded (name.take 255) (providerNameLen name).toNat
      (by rw [providerNameLen_toNat, cut])
    rw [encode, List.length_append, List.length_append, length_buffer, length_buffer, payload,
      same, padded, cut]
    simp only [layout, header, Wire.providerInfoHeader, argument, words, List.map_cons,
      List.map_nil, List.sum_cons, List.sum_nil]
    omega
  | string id value =>
    have padded := length_padded (effective value) (strLen value).toNat (strLen_toNat value)
    rw [encode, List.length_append, List.length_append, length_buffer, length_buffer, payload,
      padded]
    simp only [layout, header, Wire.stringRecordHeader, argument, words, List.map_cons,
      List.map_nil, List.sum_cons, List.sum_nil]
    omega
  | _ => simp [encode, layout, header, argument, payload, words, Wire.magicNumberRecord,
      Wire.providerSectionMetadata, Wire.initRecord, Wire.threadRecord, Wire.eventRecordHeader,
      Wire.kernelObjectHeader, Wire.argKoid]

/-- Every record but the magic number starts with its type and its size. The
magic number has its own bits there, which make the same type and size. -/
theorem header_front (record : Record) (ordinary : record ≠ magicNumber) :
    ∃ back, record.header = [(4, record.rtype), (12, record.words)] ++ back := by
  cases record with
  | magicNumber => exact absurd rfl ordinary
  | providerInfo providerId name =>
    have nameBound : (providerNameLen name).toNat ≤ 255 := by rw [providerNameLen_toNat]; omega
    have size := rsize_toNat (providerNameLen name).toNat (by simp only [maxStringLength]; omega)
    rw [header, size, words, ← providerNameLen_toNat]
    exact ⟨_, rfl⟩
  | string id value =>
    have length : (strLen value).toNat ≤ maxStringLength := by
      rw [strLen_toNat]
      exact effective_length value
    rw [header, rsize_toNat _ length, words, ← strLen_toNat]
    exact ⟨_, rfl⟩
  | _ => exact ⟨_, rfl⟩

/-- The magic number is the constant eight bytes that start every trace. They
are those of the word in little-endian order. -/
theorem magicNumber_bytes :
    magicNumber.encode = [0x10, 0x00, 0x04, 0x46, 0x78, 0x54, 0x16, 0x00] := by decide

/-- The layouts of the records fill whole words. No field is split between a
header and what follows it. -/
theorem header_whole (record : Record) : 8 ∣ (layout record.header).sum := by
  cases record <;> simp [layout, header, Wire.magicNumberRecord, Wire.providerInfoHeader,
    Wire.stringRecordHeader, Wire.providerSectionMetadata, Wire.initRecord, Wire.threadRecord,
    Wire.eventRecordHeader, Wire.kernelObjectHeader]

/-- The type and the size are read off the front of a record, whatever follows
it. -/
theorem readFields_encode_front (record : Record) (ordinary : record ≠ magicNumber)
    (fits : record.FieldsFit) (rest : List UInt8) :
    readFields [4, 12] (record.encode ++ rest) = [record.rtype, record.words] := by
  obtain ⟨back, front⟩ := header_front record ordinary
  have read := readFields_front [(4, record.rtype), (12, record.words)] back
    (buffer record.argument ++ record.payload ++ rest) (front ▸ fits.1)
    (front ▸ header_whole record) (by simp [layout])
  rw [← front] at read
  simpa [encode, layout, List.append_assoc] using read

/-- The first word of a record announces exactly the bytes written for it. This
holds for the magic number too, whose size field happens to be 1. -/
theorem announcedSize_encode (record : Record) (fits : record.FieldsFit) (rest : List UInt8) :
    announcedSize (record.encode ++ rest) = record.encode.length := by
  rw [length_encode]
  by_cases magic : record = magicNumber
  · subst magic
    rw [magicNumber_bytes]
    simp [announcedSize, readFields, unpack, ofBytes, words]
  · simp only [announcedSize, readFields_encode_front record magic fits rest]

/-- All fields of a record's header are read back from its bytes. -/
theorem readFields_header (record : Record) (fits : record.FieldsFit) :
    readFields (layout record.header) record.encode = record.header.map Prod.snd := by
  rw [encode, List.append_assoc]
  exact readFields_buffer record.header _ fits.1 (header_whole record)

/-- The metadata type is found without knowing which metadata record follows.
The reserved bits depend on the record and are not looked at. -/
theorem metadata_type (back : List Nat) (chunk : List UInt8) (rtype rsize mtype : Nat)
    (rest : List Nat) (total : (4 :: 12 :: 4 :: back).sum = 64)
    (read : readFields (4 :: 12 :: 4 :: back) chunk = rtype :: rsize :: mtype :: rest) :
    ∃ reserved, readFields [4, 12, 4, 44] chunk = [rtype, rsize, mtype, reserved] := by
  simp only [readFields, total, unpack, List.cons.injEq] at read
  obtain ⟨typeRead, sizeRead, kindRead, _⟩ := read
  have whole : ([4, 12, 4, 44] : List Nat).sum = 64 := rfl
  refine ⟨ofBytes (chunk.take (64 / 8)) / 2 ^ 4 / 2 ^ 12 / 2 ^ 4 % 2 ^ 44, ?_⟩
  simp only [readFields, whole, unpack, typeRead, sizeRead, kindRead]

/-- A text is found again between the header and the padding. -/
theorem text_between (front value : Text) (count : Nat) (eight : front.length = 8)
    (exact : count = value.length) :
    ((front ++ (value.take count ++ padToWord count)).drop 8).take count = value ∧
      ((front ++ (value.take count ++ padToWord count)).drop 8).drop count = padToWord count := by
  subst exact
  rw [← eight, List.drop_left, List.take_length]
  exact ⟨List.take_left, List.drop_left⟩

/-! The reader takes each kind of record for what it is. What tells the kinds apart
is read first: the type that the lowest bits of the header hold, and for some
kinds a type of their own behind it. -/

/-- The type and the size of a record are read off its own bytes. -/
theorem readFields_type {record : Record} (ordinary : record ≠ magicNumber)
    (fits : record.FieldsFit) : readFields [4, 12] record.encode = [record.rtype, record.words] := by
  have front := readFields_encode_front record ordinary fits []
  rwa [List.append_nil] at front

/-- The record of the provider is read back, its name cut to 255 bytes. -/
theorem decode_providerInfo (providerId : UInt32) (name : Text)
    (fits : (providerInfo providerId name).FieldsFit) :
    decode (encode (providerInfo providerId name)) = some (providerInfo providerId name).stored := by
  have front := readFields_type Record.noConfusion fits
  have fields := readFields_header _ fits
  obtain ⟨reserved, kind⟩ := metadata_type [32, 8, 4] _ _ _ _ _ (by decide) fields
  -- The name is cut twice: to what the length can say, and to that length.
  have cut : (providerNameLen name).toNat = (name.take 255).length := by
    rw [providerNameLen_toNat, List.length_take, Nat.min_comm]
  have same : name.take (providerNameLen name).toNat =
      (name.take 255).take (providerNameLen name).toNat := by
    rw [List.take_take, cut, List.length_take]
    congr 1
    omega
  obtain ⟨found, padding⟩ := text_between
    (buffer (header (providerInfo providerId name)) ++ buffer []) (name.take 255)
    (providerNameLen name).toNat (by simp [layout, header, Wire.providerInfoHeader]) cut
  have bytes : encode (providerInfo providerId name) =
      buffer (header (providerInfo providerId name)) ++ buffer [] ++
        ((name.take 255).take (providerNameLen name).toNat ++
          padToWord (providerNameLen name).toNat) := by
    rw [← same]
    rfl
  rw [← bytes] at found padding
  change readFields [4, 12, 4, 32, 8, 4] _ = [_, _, _, _, _, _] at fields
  simp only [decode, front, rtype, rtypeMetadata, decodeMetadata, kind, fields,
    mtypeProviderInfo, found, padding, if_true, stored, UInt32.ofNat_toNat]

/-- The record that begins a section is read back. -/
theorem decode_providerSection (providerId : UInt32)
    (fits : (providerSection providerId).FieldsFit) :
    decode (encode (providerSection providerId)) = some (providerSection providerId).stored := by
  have front := readFields_type Record.noConfusion fits
  have fields := readFields_header _ fits
  obtain ⟨reserved, kind⟩ := metadata_type [32, 12] _ _ _ _ _ (by decide) fields
  change readFields [4, 12, 4, 32, 12] _ = [_, _, _, _, _] at fields
  simp only [decode, front, rtype, rtypeMetadata, decodeMetadata, kind, fields,
    mtypeProviderSection, stored, UInt32.ofNat_toNat]

/-- The record of the clock is read back, with all of its three numbers. -/
theorem decode_init (ticksPerSecond baseTicks baseTimeNs : UInt64)
    (fits : (init ticksPerSecond baseTicks baseTimeNs).FieldsFit) :
    decode (encode (init ticksPerSecond baseTicks baseTimeNs)) =
      some (init ticksPerSecond baseTicks baseTimeNs).stored := by
  have front := readFields_type Record.noConfusion fits
  have fields := readFields_header _ fits
  change readFields [4, 12, 48, 64, 64, 64] _ = [_, _, _, _, _, _] at fields
  simp only [decode, front, rtype, rtypeInit, decodeInit, fields, stored, UInt64.ofNat_toNat]

/-- A string record is read back with its id and with the text as it is stored.
A cut string comes back cut. -/
theorem decode_string (id : UInt16) (value : Text) (fits : (string id value).FieldsFit) :
    decode (encode (string id value)) = some (string id value).stored := by
  have front := readFields_type Record.noConfusion fits
  have fields := readFields_header _ fits
  obtain ⟨found, padding⟩ := text_between (buffer (header (string id value)) ++ buffer [])
    (effective value) (strLen value).toNat (by simp [layout, header, Wire.stringRecordHeader])
    (strLen_toNat value)
  change ((encode (string id value)).drop 8).take _ = _ at found
  change ((encode (string id value)).drop 8).drop _ = _ at padding
  change readFields [4, 12, 15, 1, 15, 17] _ = [_, _, _, _, _, _] at fields
  simp only [decode, front, rtype, rtypeString, decodeString, fields, found, padding, if_true,
    stored, UInt16.ofNat_toNat]

/-- A thread record is read back. -/
theorem decode_thread (slot : UInt8) (pid tid : UInt64) (fits : (thread slot pid tid).FieldsFit) :
    decode (encode (thread slot pid tid)) = some (thread slot pid tid).stored := by
  have front := readFields_type Record.noConfusion fits
  have fields := readFields_header _ fits
  change readFields [4, 12, 8, 40, 64, 64] _ = [_, _, _, _, _, _] at fields
  simp only [decode, front, rtype, rtypeThread, decodeThread, fields, stored,
    UInt8.ofNat_toNat, UInt64.ofNat_toNat]

/-- An event is read back with all of its references and its time. -/
theorem decode_event (eventType threadRef : UInt8) (categoryRef nameRef : UInt16)
    (timestamp : UInt64)
    (fits : (event eventType threadRef categoryRef nameRef timestamp).FieldsFit) :
    decode (encode (event eventType threadRef categoryRef nameRef timestamp)) =
      some (event eventType threadRef categoryRef nameRef timestamp).stored := by
  have front := readFields_type Record.noConfusion fits
  have fields := readFields_header _ fits
  change readFields [4, 12, 4, 4, 8, 16, 16, 64] _ = [_, _, _, _, _, _, _, _] at fields
  simp only [decode, front, rtype, rtypeEvent, decodeEvent, fields, stored,
    UInt8.ofNat_toNat, UInt16.ofNat_toNat, UInt64.ofNat_toNat]

/-- A process is read back. -/
theorem decode_processObject (nameRef : UInt16) (pid : UInt64)
    (fits : (processObject nameRef pid).FieldsFit) :
    decode (encode (processObject nameRef pid)) = some (processObject nameRef pid).stored := by
  have front := readFields_type Record.noConfusion fits
  have fields := readFields_header _ fits
  change readFields [4, 12, 8, 16, 4, 20, 64] _ = [_, _, _, _, _, _, _] at fields
  simp only [decode, front, rtype, rtypeKernelObject, decodeKernelObject, fields,
    objTypeProcess, stored, UInt16.ofNat_toNat, UInt64.ofNat_toNat]

/-- A thread is read back. Its argument begins behind the first two words. -/
theorem decode_threadObject (nameRef : UInt16) (tid : UInt64) (processRef : UInt16) (pid : UInt64)
    (fits : (threadObject nameRef tid processRef pid).FieldsFit) :
    decode (encode (threadObject nameRef tid processRef pid)) =
      some (threadObject nameRef tid processRef pid).stored := by
  have front := readFields_type Record.noConfusion fits
  have fields := readFields_header _ fits
  have rest : (encode (threadObject nameRef tid processRef pid)).drop 16 =
      buffer (argument (threadObject nameRef tid processRef pid)) ++ [] := by
    rw [encode, List.append_assoc]
    exact List.drop_left' (by simp [layout, header, Wire.kernelObjectHeader])
  have argumentFields := readFields_buffer (argument (threadObject nameRef tid processRef pid)) []
    fits.2 (by simp [layout, argument, Wire.argKoid])
  rw [← rest] at argumentFields
  change readFields [4, 12, 16, 32, 64] _ = [_, _, _, _, _] at argumentFields
  change readFields [4, 12, 8, 16, 4, 20, 64] _ = [_, _, _, _, _, _, _] at fields
  simp only [decode, front, rtype, rtypeKernelObject, decodeKernelObject, fields,
    objTypeThread, argumentFields, argTypeKoid, stored, UInt16.ofNat_toNat, UInt64.ofNat_toNat]

/-- The reader returns exactly what the file stores of a record: its type, its
field values and its text. -/
theorem decode_encode (record : Record) (wellFormed : record.WellFormed) :
    decode record.encode = some record.stored := by
  have fits : record.FieldsFit := fields_fit record wellFormed
  cases record with
  | magicNumber => decide
  | providerInfo providerId name => exact decode_providerInfo providerId name fits
  | providerSection providerId => exact decode_providerSection providerId fits
  | init ticksPerSecond baseTicks baseTimeNs =>
    exact decode_init ticksPerSecond baseTicks baseTimeNs fits
  | string id value => exact decode_string id value fits
  | thread slot pid tid => exact decode_thread slot pid tid fits
  | event eventType threadRef categoryRef nameRef timestamp =>
    exact decode_event eventType threadRef categoryRef nameRef timestamp fits
  | processObject nameRef pid => exact decode_processObject nameRef pid fits
  | threadObject nameRef tid processRef pid =>
    exact decode_threadObject nameRef tid processRef pid fits

/-- Reading every chunk of a cut trace returns the stored records in order. -/
theorem decode_all (records : List Record) (wellFormed : ∀ r ∈ records, r.WellFormed) :
    (records.map encode).mapM decode = some (records.map stored) := by
  induction records with
  | nil => rfl
  | cons r rest inductionHypothesis =>
    have first : decode r.encode = some r.stored :=
      decode_encode r (wellFormed r List.mem_cons_self)
    have others : (rest.map encode).mapM decode = some (rest.map stored) :=
      inductionHypothesis (fun other member => wellFormed other (List.mem_cons_of_mem r member))
    simp [first, others]

/-- Reading a written trace lands exactly on its end and returns exactly what
the file stores of the records, in order. -/
theorem readTrace_encode (records : List Record) (wellFormed : ∀ r ∈ records, r.WellFormed) :
    readTrace (records.flatMap encode) = some (records.map stored) := by
  have walked : walk announcedSize (records.flatMap encode).length (records.flatMap encode) =
      some (records.map encode) := by
    rw [List.flatMap_def]
    apply walk_flatten
    · rw [List.length_flatten, List.map_map]
      have positive : ∀ r ∈ records, 1 ≤ (List.length ∘ encode) r := by
        intro r _
        have words := words_pos r
        rw [Function.comp_apply, length_encode]
        omega
      simpa using List.length_le_sum_of_one_le (records.map (List.length ∘ encode))
        (by simpa using positive)
    · intro chunk member
      obtain ⟨r, inside, rfl⟩ := List.mem_map.mp member
      have size : r.encode.length = 8 * r.words := length_encode r
      have words := words_pos r
      refine ⟨?_, announcedSize_encode r (fields_fit r (wellFormed r inside))⟩
      intro empty
      rw [empty, List.length_nil] at size
      omega
  rw [readTrace, walked]
  exact decode_all records wellFormed

/-- What a record announces is a number of whole words. A walk that starts at a
word stays at words. -/
theorem announcedSize_dvd (stream : List UInt8) : 8 ∣ announcedSize stream := by
  unfold announcedSize
  split
  · exact Nat.dvd_mul_right 8 _
  · exact Nat.dvd_zero 8

/-- Every record has bytes. -/
theorem encode_ne_nil (record : Record) : record.encode ≠ [] := by
  have size := length_encode record
  have words := words_pos record
  exact List.length_pos_iff.mp (by omega)

/-- A record that has been cut off announces more bytes than are left of it, if
any. -/
theorem announcedSize_short (record : Record) (fits : record.FieldsFit) {part : List UInt8}
    (front : part <+: record.encode) (proper : part ≠ record.encode) :
    announcedSize part = 0 ∨ part.length < announcedSize part := by
  have fewer : part.length < record.encode.length :=
    Nat.lt_of_le_of_ne front.length_le (fun same => proper (front.eq_of_length same))
  by_cases long : 2 ≤ part.length
  · have taken : part.take 2 = record.encode.take 2 := by
      obtain ⟨rest, whole⟩ := front
      rw [← whole, List.take_append_of_le_length long]
    have same : announcedSize part = announcedSize record.encode :=
      congrArg (fun word => match unpack [4, 12] (ofBytes word) with
        | [_, rsize] => 8 * rsize
        | _ => 0) taken
    have announced := announcedSize_encode record fits []
    rw [List.append_nil] at announced
    rw [same, announced]
    exact .inr fewer
  · obtain ⟨words, announced⟩ := announcedSize_dvd part
    omega

/-- A trace that has been cut off is read, if at all, as the first of its
records. -/
theorem readTrace_truncated {records : List Record} (wellFormed : ∀ r ∈ records, r.WellFormed)
    {bytes : List UInt8} (cut : bytes <+: records.flatMap encode) {read : List Record}
    (accepted : readTrace bytes = some read) : read <+: records.map stored := by
  obtain ⟨chunks, walked, decoded⟩ := Option.bind_eq_some_iff.mp accepted
  rw [List.flatMap_def] at cut
  have first : chunks <+: records.map encode := by
    refine walk_truncated announcedSize (records.map encode) bytes.length ?_ ?_ cut walked
    · intro chunk member
      obtain ⟨r, inside, rfl⟩ := List.mem_map.mp member
      refine ⟨encode_ne_nil r, announcedSize_encode r (fields_fit r (wellFormed r inside))⟩
    · intro chunk member part front proper
      obtain ⟨r, inside, rfl⟩ := List.mem_map.mp member
      exact announcedSize_short r (fields_fit r (wellFormed r inside)) front proper
  obtain ⟨part, front, rfl⟩ := List.prefix_map_iff.mp first
  rw [decode_all part (fun r member => wellFormed r (front.subset member))] at decoded
  rw [← Option.some.inj decoded]
  exact front.map stored

end Record

end Tracey
