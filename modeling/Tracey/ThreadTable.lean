import Tracey.StringTable

/-!
# The writer's thread table and the reader's

Every thread in the table owns its slot, the slots are numbered from 1 to 255,
and the reader's thread for an owned slot is the owner. A new thread takes over
the next slot of the circular buffer. The search for the previous owner stops at
the first entry with that slot, which is the only one, so the slot is free when
the new owner is entered and announced.

Together with the agreement of the string table and the well-formedness of every
record written, this is kept by all public operations of the writer.
-/

namespace Tracey

/-- Whether a reader sees an event rather than a kernel object. -/
def Seen.isEvent : Seen → Bool
  | .event _ _ _ _ _ _ _ => true
  | _ => false

namespace FxtWriter

open FiniteMap

/-- The events among what a later state shows beyond an earlier one. Records
that only change the reader's tables do not count. -/
def eventsSince (earlier later : FxtWriter) : List Seen :=
  (seenSince earlier later).filter Seen.isEvent

/-- Between a state and itself a reader sees no event. -/
@[simp] theorem eventsSince_self (w : FxtWriter) : eventsSince w w = [] := by
  rw [eventsSince, seenSince_self, List.filter_nil]

/-- The thread table agrees with the slots announced to the reader: each slot
has its range, no two threads share one, and the reader's thread for an owned
slot is its owner. -/
structure ThreadsAgree (w : FxtWriter) : Prop where
  range : ∀ thread slot, w.threadTable.lookup thread = some slot →
    1 ≤ slot.toNat ∧ slot.toNat ≤ 255
  distinct : OneOwner w.threadTable
  stored : Mirrors id w.threadTable w.reader.threads

/-- What holds of a writer in every state its operations can reach: both tables
agree with the reader's, and every record that was written can be read. -/
structure Coherent (w : FxtWriter) : Prop where
  strings : StringsAgree w
  threads : ThreadsAgree w
  wellFormed : ∀ record ∈ w.records, record.WellFormed

/-- A new writer is coherent: its tables are empty, and it has written nothing.
All statements about runs start from it. -/
theorem coherent_fresh : Coherent {} where
  strings := strings_fresh
  threads :=
    { range := by intro thread slot owned; cases owned
      distinct := oneOwner_empty
      stored := mirrors_empty id _ }
  wellFormed := by intro record member; cases member

/-- The threads still agree behind an operation that touches neither the
writer's table nor the slots the reader knows. Most operations are of this kind. -/
theorem ThreadsAgree.of_same {w w' : FxtWriter} (agree : ThreadsAgree w)
    (table : w'.threadTable = w.threadTable) (threads : w'.reader.threads = w.reader.threads) :
    ThreadsAgree w' where
  range := by rw [table]; exact agree.range
  distinct := by rw [table]; exact agree.distinct
  stored := by rw [table, threads]; exact agree.stored

/-- A record that changes no table of the reader keeps the writer coherent.
Events and kernel objects are such records. -/
theorem Coherent.emit {w : FxtWriter} (coherent : Coherent w) (record : Record)
    (wellFormed : record.WellFormed) (quiet : w.reader.read record.stored = w.reader) :
    Coherent (w.emit record) where
  strings := coherent.strings.of_same rfl rfl (by rw [emit_reader, quiet])
  threads := coherent.threads.of_same rfl (by rw [emit_reader, quiet])
  wellFormed := by
    intro other member
    rcases List.mem_append.mp member with old | new
    · exact coherent.wellFormed other old
    · rw [List.mem_singleton.mp new]
      exact wellFormed

/-- Interning keeps the writer coherent: the ids it records have 15 bits. The
threads are left alone, so only the strings need an argument. -/
theorem Interned.coherent {w w' : FxtWriter} {s : Text} {id : UInt16} (coherent : Coherent w)
    (interned : Interned w s w' id) : Coherent w' where
  strings := interned.agree coherent.strings
  threads := coherent.threads.of_same interned.sameThreads.threadTable interned.readerThreads
  wellFormed := by
    cases interned with
    | empty => exact coherent.wellFormed
    | hit => exact coherent.wellFormed
    | fresh _ nonblank unknown room table next emitted threads =>
      intro record member
      rw [emitted] at member
      rcases List.mem_append.mp member with old | new
      · exact coherent.wellFormed record old
      · rw [List.mem_singleton.mp new]
        change w.nextStringId.toNat < 2 ^ 15
        omega
    | evicted _ old nonblank unknown full owner table next emitted threads =>
      intro record member
      rw [emitted] at member
      rcases List.mem_append.mp member with old | new
      · exact coherent.wellFormed record old
      · rw [List.mem_singleton.mp new]
        change (1 : UInt16).toNat < 2 ^ 15
        decide

/-- What the operations that show no event have in common: they stay coherent,
they only append, and a reader sees no event in what they append. -/
structure Quiet (w w' : FxtWriter) : Prop where
  coherent : Coherent w'
  grown : ∃ news, Extends w w' news
  eventless : eventsSince w w' = []

/-- Doing nothing shows no event. -/
theorem Quiet.refl {w : FxtWriter} (coherent : Coherent w) : Quiet w w where
  coherent := coherent
  grown := ⟨[], Extends.refl w⟩
  eventless := eventsSince_self w

/-- The events beyond the first state are those up to a state in between, and
then those beyond that one. -/
theorem eventsSince_trans {first second third : FxtWriter} {news more : List Record}
    (begun : Extends first second news) (continued : Extends second third more) :
    eventsSince first third = eventsSince first second ++ eventsSince second third := by
  rw [eventsSince, seenSince_trans begun continued, List.filter_append]
  rfl

/-- Quiet operations in a row are quiet together. Preparing an event takes
several of them. -/
theorem Quiet.trans {first second third : FxtWriter} (begun : Quiet first second)
    (continued : Quiet second third) : Quiet first third := by
  obtain ⟨news, grown⟩ := begun.grown
  obtain ⟨more, further⟩ := continued.grown
  refine ⟨continued.coherent, ⟨_, grown.trans further⟩, ?_⟩
  rw [eventsSince_trans grown further, begun.eventless, continued.eventless, List.append_nil]

/-- Interning shows no event: it writes a string record at most. -/
theorem Interned.quiet {w w' : FxtWriter} {s : Text} {id : UInt16} (coherent : Coherent w)
    (interned : Interned w s w' id) : Quiet w w' := by
  obtain ⟨news, grown, _⟩ := interned.extends
  refine ⟨interned.coherent coherent, ⟨news, grown⟩, ?_⟩
  rw [eventsSince, interned.unseen, List.filter_nil]

/-- Writing a record touches no thread of the writer. -/
theorem emit_sameThreads (w : FxtWriter) (record : Record) : SameThreads w (w.emit record) :=
  ⟨rfl, rfl, rfl⟩

/-- Naming a process interns the name and announces it. Neither of the two is an
event. -/
theorem writeProcessName_quiet {w : FxtWriter} (coherent : Coherent w) (pid : UInt64)
    (name : Text) :
    Quiet w (w.writeProcessName pid name) ∧ SameThreads w (w.writeProcessName pid name) := by
  have interned := internString_interned coherent.strings name
  have quiet := interned.quiet coherent
  obtain ⟨news, grown⟩ := quiet.grown
  have emitted := emit_extends (w.internString name).1 (.processObject (w.internString name).2 pid)
  refine ⟨⟨?_, ⟨_, grown.trans emitted⟩, ?_⟩,
    interned.sameThreads.trans (emit_sameThreads _ _)⟩
  · exact quiet.coherent.emit _ trivial rfl
  · rw [writeProcessName, eventsSince_trans grown emitted, quiet.eventless, eventsSince, emit_seen]
    rfl

/-- Naming a thread interns the name and the argument's name and announces both. -/
theorem writeThreadName_quiet {w : FxtWriter} (coherent : Coherent w) (pid tid : UInt64)
    (name : Text) :
    Quiet w (w.writeThreadName pid tid name) ∧ SameThreads w (w.writeThreadName pid tid name) := by
  have interned := internString_interned coherent.strings name
  have quiet := interned.quiet coherent
  have interned' := internString_interned quiet.coherent.strings (text "process")
  have quiet' := quiet.trans (interned'.quiet quiet.coherent)
  obtain ⟨news, grown⟩ := quiet'.grown
  have emitted := emit_extends ((w.internString name).1.internString (text "process")).1
    (.threadObject (w.internString name).2 tid
      ((w.internString name).1.internString (text "process")).2 pid)
  refine ⟨⟨?_, ⟨_, grown.trans emitted⟩, ?_⟩,
    (interned.sameThreads.trans interned'.sameThreads).trans (emit_sameThreads _ _)⟩
  · exact quiet'.coherent.emit _ trivial rfl
  · rw [writeThreadName, eventsSince_trans grown emitted, quiet'.eventless, eventsSince, emit_seen]
    rfl

/-- The slot the next new thread takes. The counter is taken modulo 255, so that
it starts again with slot 1. -/
def nextSlot (w : FxtWriter) : UInt8 := w.nextThreadSlot % maxThreadSlots + 1

/-- The state in which a new thread has its slot and has been announced. Its
former owner, if it has one, has lost it. The names have not been written yet. -/
def claimSlot (w : FxtWriter) (pid tid : UInt64) : FxtWriter :=
  { w with
    nextThreadSlot := w.nextThreadSlot + 1
    threadTable := (dropSlot w.threadTable w.nextSlot).insert ⟨pid, tid⟩ w.nextSlot
    }.emitThreadRecord w.nextSlot pid tid

/-- The state in which the process has a name. A process is marked as named
before its name is written. -/
def nameProcess (w : FxtWriter) (pid : UInt64) : FxtWriter :=
  if pid ∈ w.namedProcesses then w
  else { w with namedProcesses := insert pid w.namedProcesses }.writeProcessName pid
    (processLabel pid)

/-- A new thread is entered, its process named if need be, and named itself. The
three parts are those of the source, in its order. -/
theorem ensureThread_new {w : FxtWriter} {pid tid : UInt64}
    (unknown : w.threadTable.lookup ⟨pid, tid⟩ = none) :
    w.ensureThread pid tid = (((w.claimSlot pid tid).nameProcess pid).writeThreadName pid tid
      (threadLabel tid), w.nextSlot) := by
  rw [ensureThread, unknown]
  rfl

/-- A known thread keeps its slot and nothing is written. The counter of the
slots is not moved either. -/
theorem ensureThread_known {w : FxtWriter} {pid tid : UInt64} {slot : UInt8}
    (known : w.threadTable.lookup ⟨pid, tid⟩ = some slot) :
    w.ensureThread pid tid = (w, slot) := by
  rw [ensureThread, known]

/-- The slots handed out are those of the circular buffer. Slot 0 is left out,
and the value fits its byte. -/
theorem nextSlot_range (w : FxtWriter) : 1 ≤ w.nextSlot.toNat ∧ w.nextSlot.toNat ≤ 255 := by
  have modulus : (w.nextThreadSlot % maxThreadSlots).toNat = w.nextThreadSlot.toNat % 255 :=
    UInt8.toNat_mod _ _
  have slot : w.nextSlot.toNat = (w.nextThreadSlot.toNat % 255 + 1) % 256 := by
    rw [nextSlot, UInt8.toNat_add, modulus]
    rfl
  omega

/-- After the first entry with a slot is removed, no entry holds it. The search
may stop there because each slot has one owner at most. -/
theorem dropSlot_unowned {table : Table ThreadId UInt8} (one : OneOwner table) (slot : UInt8) :
    Unowned (dropSlot table slot) slot := by
  unfold dropSlot
  split
  · next entry found =>
    have holds : entry.2 = slot := by simpa using List.find?_some found
    have member : entry ∈ table.entries := List.mem_of_find?_eq_some found
    refine one.unowned_erase (AList.mem_lookup_iff.mpr ?_)
    rw [← holds]
    exact member
  · next missing =>
    intro thread owned
    have member := AList.mem_lookup_iff.mp owned
    have other := List.find?_eq_none.mp missing _ member
    simp at other

/-- Removing an entry only removes owners. What is left of the table was there
before. -/
theorem dropSlot_owner {table : Table ThreadId UInt8} {slot held : UInt8} {thread : ThreadId}
    (owned : (dropSlot table slot).lookup thread = some held) : table.lookup thread = some held := by
  unfold dropSlot at owned
  split at owned
  · exact ((lookup_erase_iff _ _ _ _).mp owned).2
  · exact owned

/-- Claiming a slot writes one record, which announces the slot and its new
owner. -/
theorem claimSlot_extends (w : FxtWriter) (pid tid : UInt64) :
    Extends w (w.claimSlot pid tid) [.thread w.nextSlot pid tid] := rfl

/-- Entering a new thread keeps the writer coherent. Its slot is free when it is
entered, so no two threads share it. -/
theorem claimSlot_quiet {w : FxtWriter} (coherent : Coherent w) (pid tid : UInt64) :
    Quiet w (w.claimSlot pid tid) := by
  have announced : (w.claimSlot pid tid).reader.threads =
      Function.update w.reader.threads w.nextSlot (some ⟨pid, tid⟩) := by
    rw [(claimSlot_extends w pid tid).reader]
    rfl
  have strings : (w.claimSlot pid tid).reader.strings = w.reader.strings := by
    rw [(claimSlot_extends w pid tid).reader]
    rfl
  have unowned := dropSlot_unowned coherent.threads.distinct w.nextSlot
  have dropped : OneOwner (dropSlot w.threadTable w.nextSlot) := by
    intro key other slot owned shared
    exact coherent.threads.distinct key other slot (dropSlot_owner owned) (dropSlot_owner shared)
  have mirrored : Mirrors id (dropSlot w.threadTable w.nextSlot) w.reader.threads := by
    intro thread slot owned
    exact coherent.threads.stored thread slot (dropSlot_owner owned)
  have table : (w.claimSlot pid tid).threadTable =
      (dropSlot w.threadTable w.nextSlot).insert ⟨pid, tid⟩ w.nextSlot := rfl
  refine ⟨⟨coherent.strings.of_same rfl rfl strings, ⟨?_, ?_, ?_⟩, ?_⟩, ⟨_, rfl⟩, ?_⟩
  · intro thread slot owned
    rw [table] at owned
    rcases (lookup_insert_iff _ _ _ _ _).mp owned with ⟨_, rfl⟩ | ⟨_, before⟩
    · exact nextSlot_range w
    · exact coherent.threads.range thread slot (dropSlot_owner before)
  · rw [table]
    exact dropped.insert unowned _
  · rw [table, announced]
    exact mirrored.insert unowned (⟨pid, tid⟩ : ThreadId)
  · intro record member
    rw [claimSlot_extends w pid tid] at member
    rcases List.mem_append.mp member with old | new
    · exact coherent.wellFormed record old
    · rw [List.mem_singleton.mp new]
      trivial
  · rw [eventsSince, (claimSlot_extends w pid tid).seenSince]
    rfl

/-- Naming a process if it has no name yet shows no event and leaves the slots
alone. -/
theorem nameProcess_quiet {w : FxtWriter} (coherent : Coherent w) (pid : UInt64) :
    Quiet w (w.nameProcess pid) ∧ (w.nameProcess pid).threadTable = w.threadTable := by
  unfold nameProcess
  split
  · exact ⟨Quiet.refl coherent, rfl⟩
  · have marked : Coherent { w with namedProcesses := insert pid w.namedProcesses } :=
      ⟨coherent.strings.of_same rfl rfl rfl, coherent.threads.of_same rfl rfl,
        coherent.wellFormed⟩
    obtain ⟨quiet, threads⟩ := writeProcessName_quiet marked pid (processLabel pid)
    exact ⟨⟨quiet.coherent, quiet.grown, quiet.eventless⟩, threads.threadTable⟩

/-- After `ensureThread` the thread owns the returned slot, and no event is
shown. -/
theorem ensureThread_quiet {w : FxtWriter} (coherent : Coherent w) (pid tid : UInt64) :
    Quiet w (w.ensureThread pid tid).1 ∧
      (w.ensureThread pid tid).1.threadTable.lookup ⟨pid, tid⟩ =
        some (w.ensureThread pid tid).2 := by
  cases known : w.threadTable.lookup ⟨pid, tid⟩ with
  | some slot =>
    rw [ensureThread_known known]
    exact ⟨Quiet.refl coherent, known⟩
  | none =>
    rw [ensureThread_new known]
    have claimed := claimSlot_quiet coherent pid tid
    obtain ⟨named, kept⟩ := nameProcess_quiet claimed.coherent pid
    obtain ⟨titled, threads⟩ :=
      writeThreadName_quiet named.coherent pid tid (threadLabel tid)
    refine ⟨(claimed.trans named).trans titled, ?_⟩
    rw [threads.threadTable, kept]
    exact AList.lookup_insert _

/-- The slot of an owner resolves to it at once. This is what an event that
carries the slot needs. -/
theorem Coherent.thread_resolves {w : FxtWriter} (coherent : Coherent w) {thread : ThreadId}
    {slot : UInt8} (owned : w.threadTable.lookup thread = some slot) :
    w.reader.threads slot = some thread := coherent.threads.stored thread slot owned

end FxtWriter

end Tracey
