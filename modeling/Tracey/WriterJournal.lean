import Tracey.Journal
import Tracey.WriterRuns

/-!
# The journals of a writer's run

The public operations of the writer reach the string table only through
`internString` and the thread table only when `ensureThread` meets a new thread.
The journals list every such call of a run, also those made inside other
operations, with the state of the writer at that moment.
-/

namespace Tracey.FxtWriter

open FiniteMap Journal

/-- The writer's string table, its counter and the reader's strings are the
same. -/
structure SameStrings (w w' : FxtWriter) : Prop where
  table : w'.stringTable = w.stringTable
  next : w'.nextStringId = w.nextStringId
  warned : w'.stringIdWarningIssued = w.stringIdWarningIssued
  reader : w'.reader.strings = w.reader.strings

/-- A state has the strings that it has. -/
theorem SameStrings.refl (w : FxtWriter) : SameStrings w w := ⟨rfl, rfl, rfl, rfl⟩

/-- Having the same strings passes on from state to state. So stretches of a run
that intern nothing can be joined. -/
theorem SameStrings.trans (first second third : FxtWriter) (begun : SameStrings first second)
    (continued : SameStrings second third) : SameStrings first third :=
  ⟨continued.table.trans begun.table, continued.next.trans begun.next,
    continued.warned.trans begun.warned, continued.reader.trans begun.reader⟩

/-- The slot that a record announces. Only thread records announce one. -/
def announcement : Record → Option UInt8
  | .thread slot _ _ => some slot
  | _ => none

/-- The slots in the thread records, in the order written. The records of a file
say which threads have had slots, the table only which ones have them now. -/
def announcedSlots (w : FxtWriter) : List UInt8 := w.records.filterMap announcement

/-- The writer's thread table, its counter and the announced slots are the same.
Strings may differ. -/
structure SameSlots (w w' : FxtWriter) : Prop where
  table : w'.threadTable = w.threadTable
  next : w'.nextThreadSlot = w.nextThreadSlot
  announced : w'.announcedSlots = w.announcedSlots

/-- A state has the slots that it has. -/
theorem SameSlots.refl (w : FxtWriter) : SameSlots w w := ⟨rfl, rfl, rfl⟩

/-- Having the same slots passes on from state to state. -/
theorem SameSlots.trans (first second third : FxtWriter) (begun : SameSlots first second)
    (continued : SameSlots second third) : SameSlots first third :=
  ⟨continued.table.trans begun.table, continued.next.trans begun.next,
    continued.announced.trans begun.announced⟩

/-- The step of a journal of strings. The id that is returned is dropped. -/
def intern (w : FxtWriter) (s : Text) : FxtWriter := (w.internString s).1

/-- The step of a journal of threads. It is taken only by threads that are new. -/
def enter (w : FxtWriter) (thread : ThreadId) : FxtWriter :=
  (w.ensureThread thread.pid thread.tid).1

/-- The strings interned between two states. What happens between two entries
leaves the strings alone, though it may write other records. -/
abbrev Interns (first : FxtWriter) (journal : List (FxtWriter × Text)) (last : FxtWriter) : Prop :=
  Leads SameStrings intern first journal last

/-- The threads entered between two states. What happens between two entries
leaves the slots alone, though it may intern strings. -/
abbrev Enters (first : FxtWriter) (journal : List (FxtWriter × ThreadId)) (last : FxtWriter) :
    Prop := Leads SameSlots enter first journal last

/-- The strings interned by `writeThreadName`. The second one is interned in the
state that the first one has led to. -/
def threadNameInterns (w : FxtWriter) (name : Text) : List (FxtWriter × Text) :=
  [(w, name), (w.intern name, text "process")]

/-- The state in which the label of a process is interned. It differs from the
one before only in the set of named processes. -/
def markProcess (w : FxtWriter) (pid : UInt64) : FxtWriter :=
  { w with namedProcesses := insert pid w.namedProcesses }

/-- The strings interned by `ensureThread`. A known thread interns none. -/
def threadInterns (w : FxtWriter) (pid tid : UInt64) : List (FxtWriter × Text) :=
  match w.threadTable.lookup ⟨pid, tid⟩ with
  | some _ => []
  | none =>
    let claimed := w.claimSlot pid tid
    (if pid ∈ claimed.namedProcesses then [] else [(claimed.markProcess pid, processLabel pid)]) ++
      (claimed.nameProcess pid).threadNameInterns (threadLabel tid)

/-- The strings interned by `emitEvent`. The strings of a new thread come first. -/
def eventInterns (w : FxtWriter) (pid tid : UInt64) (category name : Text) :
    List (FxtWriter × Text) :=
  let ensured := (w.ensureThread pid tid).1
  w.threadInterns pid tid ++ [(ensured, category), (ensured.intern category, name)]

/-- The strings interned by a call. An event written by id interns none. -/
def callInterns (w : FxtWriter) : WriterCall → List (FxtWriter × Text)
  | .preamble _ _ _ _ _ => []
  | .internString s => [(w, s)]
  | .ensureThread pid tid => w.threadInterns pid tid
  | .durationBegin pid tid category name _ => w.eventInterns pid tid category name
  | .durationEnd pid tid category name _ => w.eventInterns pid tid category name
  | .eventById _ _ _ _ _ => []
  | .processName _ name => [(w, name)]
  | .threadName _ _ name => w.threadNameInterns name

/-- The thread that `ensureThread` enters, if it is new. A known one is not
entered again. -/
def newThread (w : FxtWriter) (pid tid : UInt64) : List (FxtWriter × ThreadId) :=
  match w.threadTable.lookup ⟨pid, tid⟩ with
  | some _ => []
  | none => [(w, ⟨pid, tid⟩)]

/-- The threads entered by a call. Only a call that names a thread by its ids
can enter one. -/
def callThreads (w : FxtWriter) : WriterCall → List (FxtWriter × ThreadId)
  | .ensureThread pid tid => w.newThread pid tid
  | .durationBegin pid tid _ _ _ => w.newThread pid tid
  | .durationEnd pid tid _ _ _ => w.newThread pid tid
  | _ => []

/-- The journal of a run, put together from what each call adds. Each call is
performed before the next one's part is looked at. -/
def journalFrom {ι : Type} (adds : FxtWriter → WriterCall → List (FxtWriter × ι)) :
    FxtWriter → List WriterCall → List (FxtWriter × ι)
  | _, [] => []
  | w, call :: rest => adds w call ++ journalFrom adds (w.perform call) rest

/-- All calls of `internString` in a run of a new writer. Each is noted with the
state in which it was interned. -/
def stringJournal (calls : List WriterCall) : List (FxtWriter × Text) :=
  journalFrom callInterns {} calls

/-- All threads entered in a run of a new writer. Each is noted with the state
in which it was entered. -/
def threadJournal (calls : List WriterCall) : List (FxtWriter × ThreadId) :=
  journalFrom callThreads {} calls

/-- Records that are no string records do not change the reader's strings.
Thread records, events and kernel objects are all of this kind. -/
theorem emit_sameStrings (w : FxtWriter) {record : Record}
    (other : (w.reader.read record.stored).strings = w.reader.strings) :
    SameStrings w (w.emit record) := ⟨rfl, rfl, rfl, by rw [emit_reader, other]⟩

/-- Records that are no thread records announce no slot. All that the writer
emits beside them is of this kind. -/
theorem emit_sameSlots (w : FxtWriter) {record : Record} (other : announcement record = none) :
    SameSlots w (w.emit record) := by
  refine ⟨rfl, rfl, ?_⟩
  rw [announcedSlots, emit, List.filterMap_append, List.filterMap_cons_none other,
    List.filterMap_nil, List.append_nil]
  rfl

/-- Emitting a string record announces no slot, whether or not a warning is
printed. -/
theorem emitStringRecord_sameSlots {first w : FxtWriter} (same : SameSlots first w) (id : UInt16)
    (s : Text) : SameSlots first (w.emitStringRecord id s) := by
  have warned : SameSlots w (if s.length > maxStringLength then w.warn (symbolTooLong s) else w) := by
    split
    · exact ⟨rfl, rfl, rfl⟩
    · exact SameSlots.refl w
  exact SameSlots.trans _ _ _ (SameSlots.trans _ _ _ same warned) (emit_sameSlots _ rfl)

/-- Interning touches no slot, on any of its paths. It may evict a string, but
never a thread. -/
theorem internString_sameSlots (w : FxtWriter) (s : Text) : SameSlots w (w.internString s).1 := by
  have warned : SameSlots w w.warnStringIds := by
    unfold warnStringIds
    split <;> exact ⟨rfl, rfl, rfl⟩
  unfold internString
  split
  · exact SameSlots.refl w
  · split
    · exact SameSlots.refl w
    · split
      · have numbered : SameSlots w { w with
            nextStringId := w.nextStringId + 1
            stringTable := w.stringTable.insert s w.nextStringId } := ⟨rfl, rfl, rfl⟩
        exact emitStringRecord_sameSlots numbered w.nextStringId s
      · dsimp only
        split
        · refine emitStringRecord_sameSlots ?_ _ s
          exact ⟨warned.table, warned.next, warned.announced⟩
        · exact warned

section Operations

variable (w : FxtWriter)

/-- Interning a string is a journal of one entry. -/
theorem internString_interns (s : Text) : Interns w [(w, s)] (w.internString s).1 :=
  Leads.single SameStrings.refl w s

/-- Two journals of strings in a row make one. -/
theorem Interns.append {first middle last : FxtWriter} {before after : List (FxtWriter × Text)}
    (begun : Interns first before middle) (continued : Interns middle after last) :
    Interns first (before ++ after) last := Leads.append SameStrings.trans begun continued

/-- What touches no string may follow a journal of strings. A kernel object at
the end of an operation, for instance. -/
theorem Interns.finish {first middle last : FxtWriter} {journal : List (FxtWriter × Text)}
    (leads : Interns first journal middle) (after : SameStrings middle last) :
    Interns first journal last := Leads.finish SameStrings.trans leads after

/-- Naming a process interns its name and nothing else; the record of the
process is no string. -/
theorem writeProcessName_interns (pid : UInt64) (name : Text) :
    Interns w [(w, name)] (w.writeProcessName pid name) :=
  (w.internString_interns name).finish (emit_sameStrings _ rfl)

/-- Naming a thread interns the name and then the label of its argument. -/
theorem writeThreadName_interns (pid tid : UInt64) (name : Text) :
    Interns w (w.threadNameInterns name) (w.writeThreadName pid tid name) :=
  ((w.internString_interns name).append
    ((w.intern name).internString_interns (text "process"))).finish (emit_sameStrings _ rfl)

/-- Claiming a slot interns nothing. -/
theorem claimSlot_sameStrings (pid tid : UInt64) : SameStrings w (w.claimSlot pid tid) := by
  refine ⟨rfl, rfl, rfl, ?_⟩
  rw [(claimSlot_extends w pid tid).reader]
  rfl

/-- A process that has no name yet is named once, under its label. A process
that has a name interns nothing. -/
theorem nameProcess_interns (pid : UInt64) :
    Interns w (if pid ∈ w.namedProcesses then [] else [(w.markProcess pid, processLabel pid)])
      (w.nameProcess pid) := by
  unfold nameProcess
  split
  · exact SameStrings.refl w
  · have marked : SameStrings w (w.markProcess pid) := ⟨rfl, rfl, rfl, rfl⟩
    exact Leads.begin SameStrings.trans marked
      ((w.markProcess pid).writeProcessName_interns pid (processLabel pid))

/-- A new thread interns what its process and the thread itself are called by; a
known thread interns nothing. -/
theorem ensureThread_interns (pid tid : UInt64) :
    Interns w (w.threadInterns pid tid) (w.ensureThread pid tid).1 := by
  cases known : w.threadTable.lookup ⟨pid, tid⟩ with
  | some slot =>
    rw [ensureThread_known known, threadInterns, known]
    exact SameStrings.refl w
  | none =>
    rw [ensureThread_new known, threadInterns, known]
    refine Leads.begin SameStrings.trans (w.claimSlot_sameStrings pid tid) ?_
    exact ((w.claimSlot pid tid).nameProcess_interns pid).append
      (((w.claimSlot pid tid).nameProcess pid).writeThreadName_interns pid tid (threadLabel tid))

/-- An event interns the strings of its thread, its category and its name, in
this order. -/
theorem emitEvent_interns (eventType : UInt8) (pid tid : UInt64) (category name : Text)
    (timestamp : UInt64) :
    Interns w (w.eventInterns pid tid category name)
      (w.emitEvent eventType pid tid category name timestamp) := by
  let ensured := (w.ensureThread pid tid).1
  have strings := (ensured.internString_interns category).append
    ((ensured.intern category).internString_interns name)
  exact ((w.ensureThread_interns pid tid).append strings).finish (emit_sameStrings _ rfl)

/-- Every call leads on through the strings it interns. Each case is put
together from the operations that the call performs. -/
theorem perform_interns (call : WriterCall) :
    Interns w (w.callInterns call) (w.perform call) := by
  cases call with
  | preamble providerName providerId ticksPerSecond baseTicks baseTimeNs =>
    have written : (w.writePreamble providerName providerId ticksPerSecond baseTicks
        baseTimeNs).reader = w.reader := by
      simp only [writePreamble, emit_reader]
      rfl
    exact ⟨rfl, rfl, rfl, congrArg Reader.strings written⟩
  | internString s => exact w.internString_interns s
  | ensureThread pid tid => exact w.ensureThread_interns pid tid
  | durationBegin pid tid category name timestamp =>
    exact w.emitEvent_interns eventDurationBegin pid tid category name timestamp
  | durationEnd pid tid category name timestamp =>
    exact w.emitEvent_interns eventDurationEnd pid tid category name timestamp
  | eventById eventType threadRef categoryId nameId timestamp =>
    exact w.emit_sameStrings rfl
  | processName pid name => exact w.writeProcessName_interns pid name
  | threadName pid tid name => exact w.writeThreadName_interns pid tid name

/-- Naming a process touches no slot. -/
theorem writeProcessName_sameSlots (pid : UInt64) (name : Text) :
    SameSlots w (w.writeProcessName pid name) :=
  SameSlots.trans _ _ _ (w.internString_sameSlots name) (emit_sameSlots _ rfl)

/-- Naming a thread touches no slot. -/
theorem writeThreadName_sameSlots (pid tid : UInt64) (name : Text) :
    SameSlots w (w.writeThreadName pid tid name) := by
  have named := w.internString_sameSlots name
  have argument := (w.intern name).internString_sameSlots (text "process")
  have emitted : SameSlots ((w.intern name).intern (text "process"))
      (w.writeThreadName pid tid name) := emit_sameSlots _ rfl
  exact SameSlots.trans _ _ _ (SameSlots.trans _ _ _ named argument) emitted

/-- Naming a process if it has no name yet touches no slot. -/
theorem nameProcess_sameSlots (pid : UInt64) : SameSlots w (w.nameProcess pid) := by
  unfold nameProcess
  split
  · exact SameSlots.refl w
  · have marked : SameSlots w (w.markProcess pid) := ⟨rfl, rfl, rfl⟩
    exact SameSlots.trans _ _ _ marked
      ((w.markProcess pid).writeProcessName_sameSlots pid (processLabel pid))

/-- Behind the claim of its slot, entering a thread touches no slot. What is
left to do is to write names. -/
theorem enter_sameSlots {thread : ThreadId} (new : w.threadTable.lookup thread = none) :
    SameSlots (w.claimSlot thread.pid thread.tid) (w.enter thread) := by
  have entered : w.enter thread =
      ((w.claimSlot thread.pid thread.tid).nameProcess thread.pid).writeThreadName thread.pid
        thread.tid (threadLabel thread.tid) := congrArg Prod.fst (ensureThread_new new)
  rw [entered]
  generalize w.claimSlot thread.pid thread.tid = claimed
  exact SameSlots.trans _ _ _ (claimed.nameProcess_sameSlots thread.pid)
    (writeThreadName_sameSlots _ _ _ _)

/-- A new thread enters the table, which is one entry in the journal of threads;
a known one makes none. -/
theorem ensureThread_enters (pid tid : UInt64) :
    Enters w (w.newThread pid tid) (w.ensureThread pid tid).1 := by
  cases known : w.threadTable.lookup ⟨pid, tid⟩ with
  | some slot =>
    rw [ensureThread_known known, newThread, known]
    exact SameSlots.refl w
  | none =>
    rw [newThread, known]
    exact Leads.single SameSlots.refl w (⟨pid, tid⟩ : ThreadId)

/-- An event enters its thread if that is new, and no other. The strings of the
event make no difference. -/
theorem emitEvent_enters (eventType : UInt8) (pid tid : UInt64) (category name : Text)
    (timestamp : UInt64) :
    Enters w (w.newThread pid tid) (w.emitEvent eventType pid tid category name timestamp) := by
  let ensured := (w.ensureThread pid tid).1
  have strings : SameSlots ensured (w.emitEvent eventType pid tid category name timestamp) :=
    SameSlots.trans _ _ _ (SameSlots.trans _ _ _ (ensured.internString_sameSlots category)
      (internString_sameSlots _ _)) (emit_sameSlots _ rfl)
  exact Leads.finish SameSlots.trans (w.ensureThread_enters pid tid) strings

/-- Every call leads on through the threads it enters. The calls that name no
thread lead on without an entry. -/
theorem perform_enters (call : WriterCall) :
    Enters w (w.callThreads call) (w.perform call) := by
  cases call with
  | preamble providerName providerId ticksPerSecond baseTicks baseTimeNs =>
    refine ⟨rfl, rfl, ?_⟩
    simp [perform, writePreamble, emit, announcedSlots, announcement]
  | internString s => exact w.internString_sameSlots s
  | ensureThread pid tid => exact w.ensureThread_enters pid tid
  | durationBegin pid tid category name timestamp =>
    exact w.emitEvent_enters eventDurationBegin pid tid category name timestamp
  | durationEnd pid tid category name timestamp =>
    exact w.emitEvent_enters eventDurationEnd pid tid category name timestamp
  | eventById eventType threadRef categoryId nameId timestamp =>
    exact w.emit_sameSlots rfl
  | processName pid name => exact w.writeProcessName_sameSlots pid name
  | threadName pid tid name => exact w.writeThreadName_sameSlots pid tid name

end Operations

/-- A run leads from the new writer to its state through its journal, when each
call leads through what it adds. -/
theorem journalFrom_leads {ι : Type} {same : FxtWriter → FxtWriter → Prop}
    {step : FxtWriter → ι → FxtWriter} {adds : FxtWriter → WriterCall → List (FxtWriter × ι)}
    (reflexive : ∀ w, same w w) (transitive : ∀ a b c, same a b → same b c → same a c)
    (each : ∀ w call, Leads same step w (adds w call) (w.perform call)) (w : FxtWriter)
    (calls : List WriterCall) :
    Leads same step w (journalFrom adds w calls) (calls.foldl perform w) := by
  induction calls generalizing w with
  | nil => exact reflexive w
  | cons call rest inductionHypothesis =>
    exact Leads.append transitive (each w call) (inductionHypothesis (w.perform call))

/-- The journal of a run that goes on. It goes on from the state that the first
part has led to. -/
theorem journalFrom_append {ι : Type} (adds : FxtWriter → WriterCall → List (FxtWriter × ι))
    (w : FxtWriter) (first second : List WriterCall) :
    journalFrom adds w (first ++ second) =
      journalFrom adds w first ++ journalFrom adds (first.foldl perform w) second := by
  induction first generalizing w with
  | nil => rfl
  | cons call rest inductionHypothesis =>
    simp only [List.cons_append, journalFrom, inductionHypothesis, List.append_assoc,
      List.foldl_cons]

/-- All calls in a row, from a new writer, lead through the strings they intern.
Induct over the calls from the last one. -/
theorem stringJournal_leads (calls : List WriterCall) :
    Interns {} (stringJournal calls) (afterCalls calls) :=
  journalFrom_leads SameStrings.refl SameStrings.trans perform_interns {} calls

/-- Only new threads are entered. In the state it is noted with, a thread has no
slot. -/
theorem threadJournal_new (calls : List WriterCall) :
    ∀ entry ∈ threadJournal calls, entry.1.threadTable.lookup entry.2 = none := by
  have each : ∀ w pid tid, ∀ entry ∈ newThread w pid tid,
      entry.1.threadTable.lookup entry.2 = none := by
    intro w pid tid entry member
    unfold newThread at member
    split at member
    · cases member
    · next unknown =>
      rw [List.mem_singleton.mp member]
      exact unknown
  have all : ∀ w, ∀ entry ∈ journalFrom callThreads w calls,
      entry.1.threadTable.lookup entry.2 = none := by
    induction calls with
    | nil =>
      intro w entry member
      cases member
    | cons call rest inductionHypothesis =>
      intro w entry member
      rcases List.mem_append.mp member with now | later
      · cases call with
        | ensureThread pid tid => exact each w pid tid entry now
        | durationBegin pid tid category name timestamp => exact each w pid tid entry now
        | durationEnd pid tid category name timestamp => exact each w pid tid entry now
        | _ => cases now
      · exact inductionHypothesis _ entry later
  exact all {}

/-- All calls in a row, from a new writer, lead through the threads they enter. -/
theorem threadJournal_leads (calls : List WriterCall) :
    Enters {} (threadJournal calls) (afterCalls calls) :=
  journalFrom_leads SameSlots.refl SameSlots.trans perform_enters {} calls

end Tracey.FxtWriter
